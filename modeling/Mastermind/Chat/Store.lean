import Mastermind.Effects.Prog
import Mastermind.Effects.Table
import Mastermind.Jobs.Service
import Mastermind.Script.Text

open Effects Js Jobs

namespace Chat

abbrev EventId  := Nat
abbrev RuleId   := Nat
abbrev PlayerId := String

inductive ModerationAction
  | log
  | warn
  | kick
  deriving DecidableEq

structure BadWordRule where
  word   : String
  action : ModerationAction

-- The settings of a moderation rule as they are stored. The words without actions are older.
structure ModerationSettings where
  badWordRules       : Option (List (String × Option ModerationAction)) := none
  badWords           : List String                                      := []
  badWordAction      : Option ModerationAction                          := none
  floodEnabled       : Bool                                             := true
  floodMessages      : Nat                                              := 5
  floodWindowSeconds : Nat                                              := 10
  floodAction        : ModerationAction                                 := .kick
  mutedPlayers       : List PlayerId                                    := []

inductive Condition
  | chatModeration (serverInstanceId : ServerId) (settings : ModerationSettings)
  | chatRelay      (serverInstanceId : Option ServerId)
  | other

structure Channel where
  type       : String
  webhookUrl : String := ""

structure AlertRule where
  orgId     : OrgId
  enabled   : Bool := true
  condition : Condition
  channel   : Channel

-- What a line of chat says. The timestamp is the beginning of the line.
structure ChatText where
  playerId     : PlayerId
  playerName   : String
  message      : String
  logTimestamp : String
  deriving DecidableEq

-- What the relay of a message is given.
structure RelayContext where
  eventId            : EventId
  orgId              : OrgId
  serverInstanceId   : ServerId
  serverInstanceName : String
  playerName         : String
  playerId           : PlayerId
  channel            : String
  message            : String

inductive EventData
  | playerChat             (chat : ChatText) (channel serverInstanceName : String)
  | playerChatRelayPending (context : RelayContext) (lastError : Option String)
  | chatModerationAction   (playerId : PlayerId) (playerName message reason : String)
      (action : ModerationAction)

structure Event where
  orgId    : OrgId
  sourceId : ServerId
  data     : EventData

structure ServerInstance where
  orgId : OrgId
  name  : String

inductive SendResult
  | ok
  | error (error : String)
  deriving DecidableEq

structure Embed where
  title       : String
  description : String
  server      : String
  channel     : String
  footer      : String
  timestamp   : Time

-- A message that was given to a webhook. The rule and the event are the key of the rate limit.
structure Send where
  ruleId     : RuleId
  eventId    : EventId
  webhookUrl : String
  embed      : Embed
  result     : SendResult

-- What the moderation keeps in memory, for each server and player.
structure ModerationState where
  chatSamples        : List ((ServerId × PlayerId) × List Time) := []
  moderationCooldown : List ((ServerId × PlayerId) × Time)      := []
  lastMapPrune       : Time                                     := 0

-- What moderation made of a message.
structure Verdict where
  serverInstanceId : ServerId
  eventId          : EventId
  chat             : ChatText
  moderated        : Bool

-- The events are listed in the order of their creation, `none` is one that was deleted. `webhook` is
-- what the webhook of a rule answers to the attempts to send an event to it, counted from 0. `sends`
-- and `verdicts` are histories: the attempts so far, and the messages that moderation was given.
structure Store where
  clock           : Time                                 := 0
  servers         : Table ServerInstance                 := []
  rules           : Table AlertRule                      := []
  events          : Table (Option Event)                 := []
  chatLineBuffers : List (ServerId × String)             := []
  moderation      : ModerationState                      := {}
  commands        : List (ServerId × String)             := []
  webhook         : RuleId → EventId → Nat → SendResult  := fun _ _ _ => .ok
  sends           : List Send                            := []
  verdicts        : List Verdict                         := []

namespace Store

def event? (s : Store) (id : EventId) : Option Event :=
  s.events[id]?.join

-- The events that have not been deleted, with their ids.
def liveEvents (s : Store) : List (EventId × Event) :=
  s.events.entries.filterMap fun (id, e) => e.map (id, ·)

-- The chat that was recorded for a server.
def chats (s : Store) (orgId : OrgId) (serverInstanceId : ServerId) : List ChatText :=
  s.liveEvents.filterMap fun (_, e) =>
    if e.orgId = orgId ∧ e.sourceId = serverInstanceId then
      match e.data with
      | .playerChat chat .. => some chat
      | _                   => none
    else none

-- The messages of a server that could not be relayed.
def relaysPending (s : Store) (orgId : OrgId) (serverInstanceId : ServerId) :
    List (EventId × RelayContext) :=
  s.liveEvents.filterMap fun (id, e) =>
    if e.orgId = orgId ∧ e.sourceId = serverInstanceId then
      match e.data with
      | .playerChatRelayPending context _ => some (id, context)
      | _                                 => none
    else none

def orgRules (s : Store) (orgId : OrgId) : List (RuleId × AlertRule) :=
  s.rules.entries.filter fun (_, rule) => rule.orgId = orgId

-- The attempts to send an event to the webhook of a rule.
def attempts (s : Store) (ruleId : RuleId) (eventId : EventId) : List Send :=
  s.sends.filter fun sent => sent.ruleId = ruleId && sent.eventId = eventId

end Store

inductive Exception
  | storage

inductive Cmd
  | now
  | chatLineBuffer    (serverInstanceId : ServerId)
  | setChatLineBuffer (serverInstanceId : ServerId) (text : String)
  | moderation
  | setModeration     (state : ModerationState)
  | findChat          (orgId : OrgId) (sourceId : ServerId) (logTimestamp : String)
  | findPending       (orgId : OrgId) (sourceId : ServerId) (take : Nat)
  | createEvent       (event : Event)
  | deleteEvent       (id : EventId)
  | findRules         (orgId : OrgId)
  | findEnabledRules  (orgId : OrgId)
  | enqueueCommand    (orgId : OrgId) (serverInstanceId : ServerId) (command : String)
  | discord           (ruleId : RuleId) (eventId : EventId) (webhookUrl : String) (embed : Embed)
  | judged            (verdict : Verdict)

@[reducible]
def Cmd.Ans : Cmd → Type
  | now                => Time
  | chatLineBuffer _   => String
  | moderation         => ModerationState
  | findChat ..        => Bool
  | findPending ..     => List (EventId × RelayContext)
  | createEvent _      => EventId
  | findRules _        => List (RuleId × AlertRule)
  | findEnabledRules _ => List (RuleId × AlertRule)
  | discord ..         => SendResult
  | _                  => Unit

-- A command for a server becomes a job if the organisation has the server.
def exec : (c : Cmd) → Store → Except Exception c.Ans × Store
  | .now, s => (.ok s.clock, s)
  | .chatLineBuffer serverInstanceId, s =>
    (.ok ((s.chatLineBuffers.lookup serverInstanceId).getD ""), s)
  | .setChatLineBuffer serverInstanceId text, s =>
    (.ok (), { s with
      chatLineBuffers := (serverInstanceId, text) :: s.chatLineBuffers.filter fun (id, _) =>
        id ≠ serverInstanceId })
  | .moderation, s => (.ok s.moderation, s)
  | .setModeration state, s => (.ok (), { s with moderation := state })
  | .findChat orgId sourceId logTimestamp, s =>
    (.ok ((s.chats orgId sourceId).any (·.logTimestamp = logTimestamp)), s)
  | .findPending orgId sourceId take, s => (.ok ((s.relaysPending orgId sourceId).take take), s)
  | .createEvent event, s => (.ok s.events.length, { s with events := s.events ++ [some event] })
  | .deleteEvent id, s =>
    if (s.event? id).isSome then (.ok (), { s with events := s.events.set id none })
    else (.error .storage, s)
  | .findRules orgId, s => (.ok (s.orgRules orgId), s)
  | .findEnabledRules orgId, s => (.ok ((s.orgRules orgId).filter (·.2.enabled)), s)
  | .enqueueCommand orgId serverInstanceId command, s =>
    if s.servers[serverInstanceId]?.any (·.orgId = orgId) then
      (.ok (), { s with commands := s.commands ++ [(serverInstanceId, command)] })
    else (.ok (), s)
  | .discord ruleId eventId webhookUrl embed, s =>
    let result := s.webhook ruleId eventId (s.attempts ruleId eventId).length
    (.ok result, { s with sends := s.sends ++ [{ ruleId, eventId, webhookUrl, embed, result }] })
  | .judged verdict, s => (.ok (), { s with verdicts := s.verdicts ++ [verdict] })

-- The database of the control plane, Discord and the memory of the log service.
@[reducible]
def logs : Backend Exception where
  State := Store
  Cmd   := Cmd
  Ans   := Cmd.Ans
  exec  := exec
  fault := .storage
  local? c := c matches .now | .chatLineBuffer _ | .setChatLineBuffer .. | .moderation |
    .setModeration _ | .judged _

abbrev Service (α : Type) :=
  Prog logs α

abbrev send (c : Cmd) : Service c.Ans :=
  Prog.perform (B := logs) c

end Chat
