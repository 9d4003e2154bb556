import Mastermind.Effects.Pool
import Mastermind.Jobs.Service
import Mastermind.Limits.Windows
import Mastermind.Script.Map
import Mastermind.Script.Text

open Effects Js Jobs Limits

namespace Alerts

abbrev RuleId := Nat

inductive AlertType
  | serverDown
  | serverRestart
  | agentOffline
  | playerConnected
  | playerDisconnected
  | logKeyword
  deriving DecidableEq

def AlertType.name : AlertType → String
  | serverDown         => "SERVER_DOWN"
  | serverRestart      => "SERVER_RESTART"
  | agentOffline       => "AGENT_OFFLINE"
  | playerConnected    => "PLAYER_CONNECTED"
  | playerDisconnected => "PLAYER_DISCONNECTED"
  | logKeyword         => "LOG_KEYWORD"

structure AlertContext where
  orgId              : OrgId
  orgName            : Option String   := none
  serverInstanceId   : Option ServerId := none
  serverInstanceName : Option String   := none
  hostId             : Option HostId   := none
  hostName           : Option String   := none
  lastHeartbeatAt    : Option String   := none
  reason             : Option String   := none
  playerName         : Option String   := none
  minecraftUuid      : Option String   := none
  steamId            : Option String   := none
  sessionSeconds     : Option Nat      := none
  ruleId             : Option RuleId   := none
  keyword            : Option String   := none
  ruleName           : Option String   := none
  excerpt            : Option String   := none

-- The columns `condition` and `channel` are JSON. What is kept of them are the members that are read,
-- as strings, where one that is missing is empty or `none`.
structure AlertRule where
  orgId         : OrgId
  name          : String
  enabled       : Bool := true
  conditionType : String
  channelType   : Option String
  webhookUrl    : String := ""

structure Org where
  name              : String
  discordWebhookUrl : Option String := none

structure Field where
  name   : String
  value  : String
  inline : Bool

structure DiscordEmbed where
  title       : String
  description : Option String := none
  color       : Nat
  fields      : List Field
  footer      : String
  timestamp   : Time

structure DiscordWebhookPayload where
  content : Option String := none
  embeds  : List DiscordEmbed := []

-- What becomes of a request to a webhook. Without a status code there was no answer.
inductive PostResult
  | ok
  | error (statusCode : Option Nat) (error : String)
  deriving DecidableEq

-- The keys of the rate limit, written as strings by the source.
inductive RateLimitKey
  | org      (orgId : OrgId)
  | rule     (orgId : OrgId) (ruleId : RuleId)
  | event    (orgId : OrgId) (ruleId : RuleId) (eventId : Nat)
  | ruleTest (orgId : OrgId)
  | donation (orgId : OrgId)
  deriving DecidableEq

-- `${context.orgId}:${context.serverInstanceId}:${type}:${player}`
structure LifecycleKey where
  orgId            : OrgId
  serverInstanceId : Option ServerId
  type             : AlertType
  player           : String
  deriving DecidableEq

structure Post where
  key        : RateLimitKey
  webhookUrl : String
  payload    : DiscordWebhookPayload

structure AuditLog where
  orgId      : OrgId
  actorId    : Option UserId := none
  action     : String
  resourceId : Nat
  alertType  : Option AlertType := none
  success    : Bool
  error      : Option String

-- `rateLimitMap` and `recentPlayerLifecycleAlerts` are in memory. `discord` is what the webhooks answer,
-- counted from 0. `posts`, `sends` and `lifecycle` are histories: the requests to webhooks, and what was
-- let through for each key, the last one first.
structure Store where
  clock        : Time                     := 0
  orgs         : Table Org                := []
  rules        : Table (Option AlertRule) := []
  rateLimitMap : Js.Map RateLimitKey Window := .empty
  recentPlayerLifecycleAlerts : Js.Map LifecycleKey Time := .empty
  auditLogs    : List AuditLog            := []
  discord      : Nat → PostResult         := fun _ => .ok
  posts        : List Post                := []
  sends        : List (RateLimitKey × Decision) := []
  lifecycle    : List (LifecycleKey × Decision) := []

inductive Exception
  | notFound (message : String)
  | storage

def DISCORD_RATE_LIMIT : Limit where
  max := 10
  ms  := 60000

def DISCORD_RETRY_ATTEMPTS : Nat := 3

def DISCORD_RETRY_INITIAL_MS : Nat := 1000

def DISCORD_RETRY_MAX_MS : Nat := 10000

namespace Store

-- The part of `sendMatchingRules` that drops what was reported a moment ago.
def admitLifecycle (s : Store) (key : LifecycleKey) : Bool × Js.Map LifecycleKey Time :=
  let now := s.clock
  if (s.recentPlayerLifecycleAlerts.get key).any (now < · + 15000) then
    (false, s.recentPlayerLifecycleAlerts)
  else
    let map := s.recentPlayerLifecycleAlerts.set key now
    (true, if 1000 < map.size then map.prune (now < · + 15000) else map)

def tryConsumeRateLimit (s : Store) (key : RateLimitKey) : Bool × Js.Map RateLimitKey Window :=
  let now := s.clock
  let map := s.rateLimitMap.prune (now < ·.windowStart + DISCORD_RATE_LIMIT.ms)
  match map.get key with
  | none       => (true, map.set key { count := 1, windowStart := now })
  | some entry =>
    if entry.windowStart + DISCORD_RATE_LIMIT.ms ≤ now then
      (true, map.set key { count := 1, windowStart := now })
    else if DISCORD_RATE_LIMIT.max ≤ entry.count then (false, map)
    else (true, map.set key { entry with count := entry.count + 1 })

def elapse (s : Store) (ms : Nat) : Store :=
  { s with clock := s.clock + ms }

-- The enabled rules of an organisation, with their ids.
def enabledRules (s : Store) (orgId : OrgId) : List (RuleId × AlertRule) :=
  s.rules.entries.filterMap fun (id, rule) =>
    (rule.filter fun rule => rule.orgId = orgId && rule.enabled).map (id, ·)

def findRule? (s : Store) (id : RuleId) (orgId : OrgId) : Option AlertRule :=
  (s.rules[id]?.join).filter (·.orgId = orgId)

end Store

-- The commands on what is in memory take the time from the clock.
inductive Cmd
  | now
  | findOrg             (id : OrgId)
  | findEnabledRules    (orgId : OrgId)
  | findRule            (id : RuleId) (orgId : OrgId)
  | createRule          (rule : AlertRule)
  | updateRule          (id : RuleId) (rule : AlertRule)
  | deleteRule          (id : RuleId)
  | admitLifecycle      (key : LifecycleKey)
  | tryConsumeRateLimit (key : RateLimitKey)
  | post                (post : Post)
  | sleep               (ms : Nat)
  | audit               (row : AuditLog)

@[reducible]
def Cmd.Ans : Cmd → Type
  | now                   => Time
  | findOrg _             => Option Org
  | findEnabledRules _    => List (RuleId × AlertRule)
  | findRule ..           => Option AlertRule
  | createRule _          => RuleId
  | admitLifecycle _      => Bool
  | tryConsumeRateLimit _ => Bool
  | post _                => PostResult
  | _                     => Unit

-- While a program sleeps, the time passes by itself.
def exec : (c : Cmd) → Store → Except Exception c.Ans × Store
  | .now, s => (.ok s.clock, s)
  | .findOrg id, s => (.ok s.orgs[id]?, s)
  | .findEnabledRules orgId, s => (.ok (s.enabledRules orgId), s)
  | .findRule id orgId, s => (.ok (s.findRule? id orgId), s)
  | .createRule rule, s => (.ok s.rules.length, { s with rules := s.rules ++ [some rule] })
  | .updateRule id rule, s =>
    if s.rules[id]?.join.isSome then (.ok (), { s with rules := s.rules.set id (some rule) })
    else (.error .storage, s)
  | .deleteRule id, s =>
    if s.rules[id]?.join.isSome then (.ok (), { s with rules := s.rules.set id none })
    else (.error .storage, s)
  | .admitLifecycle key, s =>
    let (admitted, map) := s.admitLifecycle key
    (.ok admitted, { s with
      recentPlayerLifecycleAlerts := map
      lifecycle := (key, s.clock, admitted) :: s.lifecycle })
  | .tryConsumeRateLimit key, s =>
    let (admitted, map) := s.tryConsumeRateLimit key
    (.ok admitted, { s with rateLimitMap := map, sends := (key, s.clock, admitted) :: s.sends })
  | .post post, s => (.ok (s.discord s.posts.length), { s with posts := post :: s.posts })
  | .sleep _, s => (.ok (), s)
  | .audit row, s => (.ok (), { s with auditLogs := s.auditLogs ++ [row] })

-- The database, Discord and the memory of the services. A request that gets no answer is no failure.
@[reducible]
def controlPlane : Backend Exception where
  State := Store
  Cmd   := Cmd
  Ans   := Cmd.Ans
  exec  := exec
  fault := .storage
  local? c := c matches .now | .admitLifecycle _ | .tryConsumeRateLimit _ | .post _ | .sleep _

abbrev Service (α : Type) :=
  Prog controlPlane α

abbrev send (c : Cmd) : Service c.Ans :=
  Prog.perform (B := controlPlane) c

namespace DiscordService

def retries : Option Nat → Bool
  | none            => false
  | some statusCode => statusCode = 429 || 500 ≤ statusCode

-- The attempts of `send` that are left, with the delay after the next one.
def attempts (post : Post) (last : PostResult) (delay : Nat) : Nat → Service PostResult
  | 0     => return last
  | n + 1 => do
    match ← Alerts.send (.post post) with
    | .ok                     => return .ok
    | .error statusCode error =>
      if retries statusCode then do
        Alerts.send (.sleep delay)
        attempts post (.error statusCode error) (min (delay * 2) DISCORD_RETRY_MAX_MS) n
      else return .error statusCode error

def send (webhookUrl : String) (payload : DiscordWebhookPayload) (rateLimitKey : RateLimitKey) :
    Service PostResult := do
  if ← Alerts.send (.tryConsumeRateLimit rateLimitKey) then
    attempts { key := rateLimitKey, webhookUrl, payload } (.error none "Unknown error")
      DISCORD_RETRY_INITIAL_MS DISCORD_RETRY_ATTEMPTS
  else return .error none "Rate limit exceeded"

end DiscordService

namespace Formatter

def COLORS : AlertType → Nat
  | .serverDown         => 0xe74c3c
  | .serverRestart      => 0xf39c12
  | .agentOffline       => 0x9b59b6
  | .playerConnected    => 0x2ecc71
  | .playerDisconnected => 0x95a5a6
  | .logKeyword         => 0xe67e22

def getTitle : AlertType → String
  | .serverDown         => "🔴 Server down"
  | .serverRestart      => "🟠 Server restart"
  | .agentOffline       => "🟣 Agent offline"
  | .playerConnected    => "🟢 Player connected"
  | .playerDisconnected => "⚪ Player disconnected"
  | .logKeyword         => "🔎 Log keyword match"

def formatDuration (totalSeconds : Nat) : String :=
  let hours     := totalSeconds / 3600
  let minutes   := totalSeconds % 3600 / 60
  let remainder := totalSeconds % 60
  " ".intercalate <| [
    if hours ≠ 0 then s!"{hours}h" else "",
    if minutes ≠ 0 then s!"{minutes}m" else "",
    s!"{remainder}s"].filter (· ≠ "")

-- A field with a value that is there and not empty.
def field (name : String) (inline : Bool) (value : Option String) : List Field :=
  ((value.filter (· ≠ "")).map fun value => { name, value, inline }).toList

def buildEmbed (type : AlertType) (ctx : AlertContext) (now : Time) : DiscordEmbed where
  title     := getTitle type
  color     := COLORS type
  footer    := "Mastermind Minecraft"
  timestamp := now
  fields    :=
    field "Org" true ctx.orgName ++
    field "Server" true ctx.serverInstanceName ++
    field "Host" true ctx.hostName ++
    field "Server ID" false (ctx.serverInstanceId.map toString) ++
    field "Host ID" false (ctx.hostId.map toString) ++
    field "Last heartbeat" false ctx.lastHeartbeatAt ++
    field "Reason" false ctx.reason ++
    field "Player" true ctx.playerName ++
    field "UUID" false ctx.minecraftUuid ++
    (if ctx.minecraftUuid.all (· = "") then field "Steam ID" false ctx.steamId else []) ++
    (if type = .playerDisconnected then
      field "Session playtime" true (ctx.sessionSeconds.map formatDuration)
    else []) ++
    (if type = .logKeyword then
      field "Keyword" true ctx.keyword ++
      field "Rule" true ctx.ruleName ++
      field "Log excerpt" false ((ctx.excerpt.filter (· ≠ "")).map fun excerpt =>
        "```\n" ++ slice excerpt 900 ++ "\n```")
    else [])

def formatDiscordAlert (type : AlertType) (ctx : AlertContext) (now : Time) :
    DiscordWebhookPayload where
  embeds := [buildEmbed type ctx now]

end Formatter

namespace AlertsService

structure URL where
  protocol : String
  hostname : String
  pathname : String

section

-- `toUpperCase`, `toLowerCase` and `new URL`
variable (upper lower : String → String) (parseUrl : String → Option URL)

def auditAlert (orgId : OrgId) (type : AlertType) (success : Bool) (error : Option String) :
    Service Unit :=
  Alerts.send (.audit {
    orgId, action := "alert_sent", resourceId := orgId, alertType := some type, success
    error := error.filter (· ≠ "") })

def PostResult.error? : PostResult → Option String
  | .ok            => none
  | .error _ error => some error

def sendAlert (type : AlertType) (context : AlertContext) : Service (Option String) := do
  let org ← Alerts.send (.findOrg context.orgId)
  match (org.bind (·.discordWebhookUrl)).filter (trim · ≠ "") with
  | none => do
    auditAlert context.orgId type false (some "No webhook configured")
    return some "No Discord webhook configured for org"
  | some webhookUrl => do
    let now ← Alerts.send .now
    let payload := Formatter.formatDiscordAlert type { context with orgName := org.map (·.name) } now
    let result ← DiscordService.send webhookUrl payload (.org context.orgId)
    auditAlert context.orgId type (result = .ok) (PostResult.error? result)
    return PostResult.error? result

def createRule (rule : AlertRule) : Service RuleId :=
  Alerts.send (.createRule rule)

def updateRule (orgId : OrgId) (ruleId : RuleId) (data : AlertRule → AlertRule) : Service Unit := do
  match ← Alerts.send (.findRule ruleId orgId) with
  | none          => .throw (.notFound "Alert rule not found")
  | some existing => Alerts.send (.updateRule ruleId { data existing with orgId := existing.orgId })

def deleteRule (orgId : OrgId) (ruleId : RuleId) : Service Unit := do
  match ← Alerts.send (.findRule ruleId orgId) with
  | none   => .throw (.notFound "Alert rule not found")
  | some _ => Alerts.send (.deleteRule ruleId)

-- The player of an alert that is not repeated for a while.
def lifecycleKey (type : AlertType) (context : AlertContext) : Option LifecycleKey :=
  if type = .playerConnected ∨ type = .playerDisconnected then
    let name := (context.playerName.map (lower <| trim ·)).filter (· ≠ "")
    ((name.or context.steamId).filter (· ≠ "")).map fun player =>
      { orgId := context.orgId, serverInstanceId := context.serverInstanceId, type, player }
  else none

def isMatching (type : AlertType) (context : AlertContext) : RuleId × AlertRule → Bool
  | (ruleId, rule) =>
    upper rule.conditionType = type.name &&
      !(type = .logKeyword && context.ruleId.any (· ≠ ruleId))

-- The webhook that a rule sends to.
def webhookUrl? (rule : AlertRule) : Option String :=
  let webhookUrl := trim rule.webhookUrl
  if lower (rule.channelType.getD "") ≠ "discord" ∨ webhookUrl = "" then none else some webhookUrl

def sendRule (type : AlertType) (context : AlertContext) (payload : DiscordWebhookPayload) :
    RuleId × AlertRule → Service Unit
  | (ruleId, rule) =>
    match webhookUrl? lower rule with
    | none            => return
    | some webhookUrl => do
      let result ← DiscordService.send webhookUrl payload (.rule context.orgId ruleId)
      auditAlert context.orgId type (result = .ok) (PostResult.error? result)

def sendToRules (type : AlertType) (context : AlertContext) : Service Unit := do
  let org ← Alerts.send (.findOrg context.orgId)
  let rules ← Alerts.send (.findEnabledRules context.orgId)
  let now ← Alerts.send .now
  let payload := Formatter.formatDiscordAlert type { context with orgName := org.map (·.name) } now
  .forEach (sendRule lower type context payload) (rules.filter (isMatching upper type context))

def sendMatchingRules (type : AlertType) (context : AlertContext) : Service Unit :=
  match lifecycleKey lower type context with
  | none     => sendToRules upper lower type context
  | some key => do
    if ← Alerts.send (.admitLifecycle key) then sendToRules upper lower type context
    else return

def testPayload (name : String) (now : Time) : DiscordWebhookPayload where
  embeds := [{
    title       := "🧪 Mastermind alert pipeline test"
    description := some s!"Alert rule **{name}** successfully reached its configured Discord channel."
    color       := 0x6366f1
    fields      := [{ name := "Result", value := "Webhook delivery successful", inline := true }]
    footer      := "Mastermind Control Plane · Manual Test"
    timestamp   := now }]

def isDiscordWebhook (url : URL) : Bool :=
  url.protocol = "https:" && ["discord.com", "discordapp.com"].contains (lower url.hostname) &&
    "/api/webhooks/".isPrefixOf url.pathname

def testRule (orgId : OrgId) (ruleId : RuleId) (userId : UserId) : Service (Option String) := do
  match ← Alerts.send (.findRule ruleId orgId) with
  | none      => .throw (.notFound "Alert rule not found")
  | some rule =>
    if lower (rule.channelType.getD "") ≠ "discord" then
      return some ("Testing is not supported for " ++ rule.channelType.getD "this" ++ " channels")
    else
      match parseUrl (trim rule.webhookUrl) with
      | none     => return some "Saved Discord webhook URL is invalid"
      | some url =>
        if !isDiscordWebhook lower url then
          return some "Saved channel is not a valid Discord webhook URL"
        else do
          let now ← Alerts.send .now
          let result ← DiscordService.send (trim rule.webhookUrl) (testPayload rule.name now)
            (.ruleTest orgId)
          Alerts.send (.audit {
            orgId, actorId := some userId, action := "alert_test", resourceId := ruleId
            success := result = .ok, error := PostResult.error? result })
          return PostResult.error? result

end
end AlertsService

-- The users of an organisation manage its rules. The services report what happens, and relay chat
-- and donations to a webhook of their own choice.
inductive Request
  | createRule (rule : AlertRule)
  | updateRule (orgId : OrgId) (ruleId : RuleId) (data : AlertRule → AlertRule)
  | deleteRule (orgId : OrgId) (ruleId : RuleId)
  | testRule   (orgId : OrgId) (ruleId : RuleId) (userId : UserId)
  | alert      (type : AlertType) (context : AlertContext)
  | matching   (type : AlertType) (context : AlertContext)
  | relay      (webhookUrl : String) (payload : DiscordWebhookPayload) (key : RateLimitKey)

section

variable (upper lower : String → String) (parseUrl : String → Option AlertsService.URL)

def serve : Request → Service Unit
  | .createRule rule => do
    let _ ← AlertsService.createRule rule
    return
  | .updateRule orgId ruleId data => AlertsService.updateRule orgId ruleId data
  | .deleteRule orgId ruleId => AlertsService.deleteRule orgId ruleId
  | .testRule orgId ruleId userId => do
    let _ ← AlertsService.testRule lower parseUrl orgId ruleId userId
    return
  | .alert type context => do
    let _ ← AlertsService.sendAlert type context
    return
  | .matching type context => AlertsService.sendMatchingRules upper lower type context
  | .relay webhookUrl payload key => do
    let _ ← DiscordService.send webhookUrl payload key
    return

-- Requests are served at the same time, and time passes.
@[reducible]
def requests : System :=
  Pool.system (serve upper lower parseUrl) fun (ms : Nat) s => s.elapse ms

end
end Alerts
