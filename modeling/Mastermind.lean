import Mastermind.Effects.Prog
import Mastermind.Effects.System
import Mastermind.Effects.Pool
import Mastermind.Effects.Table
import Mastermind.Script.Json
import Mastermind.Script.Object
import Mastermind.Jobs.Store
import Mastermind.Batches.Service
import Mastermind.Jobs.Service
import Mastermind.Jobs.Poll
import Mastermind.Scheduler.Service
import Mastermind.Jobs.Requests
import Mastermind.Jobs.Theorems.Store
import Mastermind.Jobs.Theorems.Immutable
import Mastermind.Jobs.Theorems.Footprint
import Mastermind.Jobs.Theorems.Dispatch
import Mastermind.Jobs.Theorems.Waiting
import Mastermind.Jobs.Theorems.Enqueued
import Mastermind.Batches.Theorems.Cancelled
import Mastermind.Batches.Theorems.Ledger
import Mastermind.Batches.Theorems.Counts
import Mastermind.Donations.Delivery
import Mastermind.Donations.Requests
import Mastermind.Donations.Theorems.Course
import Mastermind.Donations.Theorems.Enqueue
import Mastermind.Donations.Theorems.Exhausted
import Mastermind.Donations.Theorems.Stable
import Mastermind.Donations.Theorems.Once
import Mastermind.Payments.Checkout
import Mastermind.Payments.Theorems.Checkout
import Mastermind.Payments.Theorems.Refunds
import Mastermind.Payments.Theorems.Disputes
import Mastermind.Agent.Config
import Mastermind.Agent.GrantItems
import Mastermind.Agent.Theorems.Config
import Mastermind.Agent.Theorems.Bulk
import Mastermind.Agent.Theorems.Viewer
import Mastermind.Triggers.Catalog
import Mastermind.Triggers.Theorems.GrantItems
import Mastermind.Players.Requests
import Mastermind.Players.Theorems.Merge
import Mastermind.Players.Theorems.FirstJoin
import Mastermind.Players.Theorems.Grants
import Mastermind.Pairing.Theorems.SingleUse
import Mastermind.Orgs.Theorems.LastAdmin
import Mastermind.Auth.Theorems.Lockout
import Mastermind.Scheduler.Cron
import Mastermind.Scheduler.Theorems.Survival
import Mastermind.Scheduler.Theorems.NextRun
import Mastermind.Scheduler.Theorems.Timers
import Mastermind.Scheduler.Theorems.Search
import Mastermind.Scheduler.Theorems.Grammar
import Mastermind.Scheduler.Theorems.Window
import Mastermind.Chat.Theorems.Recorded
import Mastermind.Chat.Theorems.Relayed
import Mastermind.Players.Theorems.Balance
import Mastermind.Players.Theorems.Milestones
import Mastermind.Jobs.Theorems.Order
import Mastermind.Agent.Theorems.Gate
import Mastermind.Agent.Theorems.Target
import Mastermind.Logs.Theorems.Paging
import Mastermind.Agent.Theorems.LogText
import Mastermind.Agent.Theorems.Restore
import Mastermind.Agent.Theorems.RoundTrip
import Mastermind.Agent.Theorems.Complete
import Mastermind.Agent.Theorems.Give
import Mastermind.Agent.Theorems.ModConfig
import Mastermind.Servers.Theorems.Discovery
import Mastermind.Hosts.Theorems.KeepAlive
import Mastermind.Players.Theorems.Mirror
import Mastermind.Agent.Theorems.LogOffsets
import Mastermind.Agent.Theorems.Rotation
import Mastermind.Logs.Theorems.Reassembly
import Mastermind.Logs.Theorems.Keywords
import Mastermind.Agent.Theorems.Exec
import Mastermind.Agent.Theorems.Segments
import Mastermind.Payments.Theorems.Stripe
import Mastermind.Payments.Theorems.Cart
import Mastermind.Agent.Theorems.Mods
import Mastermind.Agent.Theorems.ModFailures
import Mastermind.Agent.Theorems.ChatStream
import Mastermind.Agent.Theorems.RestoreFailed
import Mastermind.Agent.Theorems.Retention
import Mastermind.ConfigMerge.Theorems.Json
import Mastermind.ConfigMerge.Theorems.IniSelf
import Mastermind.ConfigMerge.Theorems.IniLosses
import Mastermind.ConfigMerge.Theorems.XmlSelf
import Mastermind.ConfigMerge.Theorems.JsonNumbers
import Mastermind.ConfigMerge.Theorems.XmlPrinted
import Mastermind.Jobs.Theorems.HandedOver
import Mastermind.Accounts.Service
import Mastermind.Accounts.Theorems.Access
import Mastermind.Accounts.Theorems.Approvals
import Mastermind.Jobs.Theorems.Isolation
import Mastermind.Alerts.Theorems.Limits
import Mastermind.Alerts.Theorems.Posts
