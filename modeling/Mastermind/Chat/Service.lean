import Mastermind.Chat.Store
import Mastermind.Effects.Notes
import Mastermind.Effects.System
import Mastermind.Players.Logs

open Effects Js Jobs
open Players (firstMatch sliceEnd splitLines)

namespace Chat

-- Drops a text from the front.
def expect (text : String) (cs : List Char) : Option (List Char) :=
  if text.toList.isPrefixOf cs then some (cs.drop text.toList.length) else none

-- The characters that `.` does not match.
def isTerminator (c : Char) : Bool :=
  c = '\n' || c = '\r' || c.toNat = 0x2028 || c.toNat = 0x2029

-- `/^\s+(.+)$/`. If there is only white space, its last character is left to the group.
def scanMessage (cs : List Char) : Option (List Char) :=
  if cs.head?.any isSpace then
    let message := cs.dropWhile isSpace
    let message := if message = [] then cs.tail.getLast?.toList else message
    if message = [] ∨ message.any isTerminator then none else some message
  else none

-- `/\]:\s*(?:\[Not Secure\]\s*)?<([^>\n]{1,32})>\s+(.+)$/`
def scanChat (cs : List Char) : Option (List Char × List Char) := do
  let cs := (← expect "]:" cs).dropWhile isSpace
  let cs := ((expect "[Not Secure]" cs).map (·.dropWhile isSpace)).getD cs
  let cs ← expect "<" cs
  let name := cs.takeWhile (· ≠ '>')
  if name = [] ∨ name.contains '\n' ∨ 32 < (name.flatMap unitsOf).length then none
  else do
    let cs ← expect ">" (cs.dropWhile (· ≠ '>'))
    let message ← scanMessage cs
    return (name, message)

-- `/[\u0000-\u0008\u000b\u000c\u000e-\u001f\u007f]/`
def isControl (c : Char) : Bool :=
  c.toNat ≤ 8 || c.toNat = 0xB || c.toNat = 0xC || (0xE ≤ c.toNat && c.toNat ≤ 0x1F) || c.toNat = 0x7F

def cleanMessage (message : List Char) : String :=
  slice (trim (.ofList (message.filter (!isControl ·)))) 2000

-- What a line of a server's log says in the chat.
def parseChatLine (line : String) : Option ChatText := do
  let (name, message) ← firstMatch scanChat line.toList
  let playerName := slice (trim (.ofList name)) 128
  let message := cleanMessage message
  if playerName = "" ∨ message = "" then none
  else
    return {
      playerId := .ofList name, playerName, message
      logTimestamp := .ofList (line.toList.takeWhile (!isSpace ·)) }

structure ChatModeration where
  enabled            : Bool             := false
  badWordRules       : List BadWordRule := []
  floodEnabled       : Bool             := true
  floodMessages      : Nat              := 5
  floodWindowSeconds : Nat              := 10
  floodAction        : ModerationAction := .kick
  mutedPlayers       : List PlayerId    := []

section

variable (lower : String → String)

def cleanBadWordRules (fallbackAction : ModerationAction) :
    List BadWordRule → List (String × Option ModerationAction) → List BadWordRule
  | result, []                     => result
  | result, (word, action) :: rest =>
    let word := lower (trim word)
    if word = "" ∨ 80 < (units word).length ∨ result.any (·.word = word) ∨ 200 ≤ result.length then
      cleanBadWordRules fallbackAction result rest
    else
      cleanBadWordRules fallbackAction
        (result ++ [{ word, action := action.getD fallbackAction }]) rest

def ModerationSettings.read (enabled : Bool) (c : ModerationSettings) : ChatModeration :=
  let sourceRules := c.badWordRules.getD (c.badWords.map (·, none))
  { c with
    enabled
    badWordRules := cleanBadWordRules lower (c.badWordAction.getD .warn) [] sourceRules }

def getChatModeration (orgId : OrgId) (serverInstanceId : ServerId) : Service ChatModeration := do
  let rules ← send (.findRules orgId)
  return (rules.findSome? fun (_, rule) =>
    match rule.condition with
    | .chatModeration id settings =>
      if id = serverInstanceId then some (settings.read lower rule.enabled) else none
    | _ => none).getD {}

def ModerationState.prune (now : Time) (m : ModerationState) : ModerationState :=
  if now - m.lastMapPrune < 60000 then m
  else {
    chatSamples        := m.chatSamples.filter fun (_, samples) => samples.any (now ≤ · + 10 * 60000)
    moderationCooldown := m.moderationCooldown.filter fun (_, expiry) => now ≤ expiry
    lastMapPrune       := now }

-- Counts a message of a player among those of the last seconds.
def ModerationState.sample (m : ModerationState) (key : ServerId × PlayerId) (now : Time)
    (floodWindowSeconds : Nat) : List Time × ModerationState :=
  let samples := ((m.chatSamples.lookup key).getD []).filter (now ≤ · + floodWindowSeconds * 1000)
  let samples := samples ++ [now]
  (samples, { m with chatSamples := (key, samples) :: m.chatSamples.filter (·.1 ≠ key) })

def without (p : Char → Bool) (s : String) : String :=
  .ofList (s.toList.filter (!p ·))

def isQuote (c : Char) : Bool :=
  c = '"' || c = '\\'

def moderationCommand (playerId : PlayerId) (playerName reason : String) : ModerationAction → String
  | .warn => "say \"" ++ without isQuote playerName ++ " warning: " ++ reason ++ "\""
  | _     =>
    "kick " ++ without (fun c => !(c.isAlphanum || c = '_' || c = ':' || c = '-')) playerId ++
      " \"Chat moderation: " ++ without isQuote reason ++ "\""

-- `text.includes(part)`
def includes (text part : String) : Bool :=
  (firstMatch (fun cs => expect part cs) text.toList).isSome

-- Why a message is moderated and what is done about it.
def offence (cfg : ChatModeration) (playerId : PlayerId) (message : String) (samples : List Time) :
    Option (String × ModerationAction) :=
  if cfg.mutedPlayers.contains playerId then some ("Player is muted", .kick)
  else match cfg.badWordRules.find? fun rule => includes (lower message) rule.word with
    | some bad => some ("Blocked word: " ++ bad.word, bad.action)
    | none     =>
      if cfg.floodEnabled ∧ cfg.floodMessages < samples.length then
        some ("Chat flooding", cfg.floodAction)
      else none

def moderateChat (orgId : OrgId) (serverInstanceId : ServerId) (playerId : PlayerId)
    (playerName message : String) : Service Bool := do
  let cfg ← getChatModeration lower orgId serverInstanceId
  if !cfg.enabled then return false
  else do
    let now ← send .now
    let key := (serverInstanceId, playerId)
    let (samples, state) := ((← send .moderation).prune now).sample key now cfg.floodWindowSeconds
    send (.setModeration state)
    match offence lower cfg playerId message samples with
    | none                  => return false
    | some (reason, action) => do
      let _ ← send (.createEvent {
        orgId, sourceId := serverInstanceId
        data := .chatModerationAction playerId playerName message reason action })
      let state ← send .moderation
      if action = .log ∨ now ≤ (state.moderationCooldown.lookup key).getD 0 then return true
      else do
        send (.setModeration { state with
          moderationCooldown := (key, now + 5000) :: state.moderationCooldown.filter (·.1 ≠ key) })
        send (.enqueueCommand orgId serverInstanceId
          (moderationCommand playerId playerName reason action))
        return true

end

-- The outcome of a broadcast. `error` is the last one.
structure Relay where
  configured : Bool          := false
  error      : Option String := none

def Relay.sent (relay : Relay) : Bool :=
  relay.error.all (· = "")

def safeName (playerName : String) : String :=
  slice (.ofList (playerName.toList.flatMap fun c =>
    if "*_`~|>".toList.contains c then ['\\', c] else [c])) 80

def safeMessage (message : String) : String :=
  slice (.ofList (message.toList.flatMap fun c => if c = '@' then ['@', '\u200b'] else [c])) 1800

def embed (context : RelayContext) (now : Time) : Embed where
  title       := "💬 " ++ safeName context.playerName
  description := safeMessage context.message
  server      := context.serverInstanceName
  channel     := context.channel
  footer      := "Minecraft player chat · " ++ context.playerId
  timestamp   := now

def AlertRule.relays (rule : AlertRule) (serverInstanceId : ServerId) : Bool :=
  match rule.condition with
  | .chatRelay none      => true
  | .chatRelay (some id) => id = serverInstanceId
  | _                    => false

-- The webhook that a rule sends to.
def AlertRule.webhookUrl? (rule : AlertRule) : Option String :=
  let webhookUrl := trim rule.channel.webhookUrl
  if toLowerCase rule.channel.type ≠ "discord" ∨ webhookUrl = "" then none else some webhookUrl

def relayTo (context : RelayContext) : List (RuleId × AlertRule) → Relay → Service Relay
  | [], relay                 => return relay
  | (id, rule) :: rest, relay =>
    match rule.webhookUrl? with
    | none            => relayTo context rest relay
    | some webhookUrl => do
      let now ← send .now
      match ← send (.discord id context.eventId webhookUrl (embed context now)) with
      | .ok          => relayTo context rest { relay with configured := true }
      | .error error => relayTo context rest { configured := true, error }

def relayPlayerChat (context : RelayContext) : Service Relay := do
  let rules ← send (.findEnabledRules context.orgId)
  relayTo context (rules.filter (·.2.relays context.serverInstanceId)) {}

section

variable (lower : String → String) (orgId : OrgId) (serverInstanceId : ServerId)
  (serverInstanceName : String)

def isDuplicate (chat : ChatText) : Service Bool :=
  if chat.logTimestamp = "" then return false
  else send (.findChat orgId serverInstanceId chat.logTimestamp)

-- Relays a message, and remembers it if the relay has failed.
def relayOrRemember (context : RelayContext) : Service Unit := do
  let relay ← relayPlayerChat context
  if relay.configured ∧ relay.sent = false then do
    let _ ← send (.createEvent {
      orgId, sourceId := serverInstanceId, data := .playerChatRelayPending context relay.error })
    return
  else return

def handleChat (chat : ChatText) : Service Unit := do
  if ← isDuplicate orgId serverInstanceId chat then return
  else do
    let eventId ← send (.createEvent {
      orgId, sourceId := serverInstanceId, data := .playerChat chat "Global" serverInstanceName })
    let moderated ←
      (moderateChat lower orgId serverInstanceId chat.playerId chat.playerName chat.message).handle
        fun _ => return false
    send (.judged { serverInstanceId, eventId, chat, moderated })
    if moderated then return
    else
      relayOrRemember orgId serverInstanceId {
        eventId, orgId, serverInstanceId, serverInstanceName, playerName := chat.playerName
        playerId := chat.playerId, channel := "Global", message := chat.message }

def parseChat (content : String) : Service Unit := do
  let (lines, last) := splitLines ((← send (.chatLineBuffer serverInstanceId)) ++ content)
  send (.setChatLineBuffer serverInstanceId (sliceEnd last 4096))
  .forEach (handleChat lower orgId serverInstanceId serverInstanceName) (lines.filterMap parseChatLine)

def retryChatRelay (row : EventId × RelayContext) : Service Unit := do
  let result ← relayPlayerChat { row.2 with orgId, serverInstanceId }
  if result.sent ∨ result.configured = false then send (.deleteEvent row.1) else return

def retryChatRelays : Service Unit := do
  let pending ← send (.findPending orgId serverInstanceId 10)
  .forEach (retryChatRelay orgId serverInstanceId) pending

end

def Store.elapse (s : Store) (ms : Nat) : Store :=
  { s with clock := s.clock + ms }

-- The agent of a host sends a chunk of a server's log, or failed relays of a server are retried.
inductive Message
  | chunk  (serverInstanceId : ServerId) (content : String)
  | retry  (serverInstanceId : ServerId)
  | elapse (ms : Nat)

-- The messages are processed one after the other.
@[reducible]
def messages (lower : String → String) : System where
  State := Store
  Event := Message
  next s
    | .chunk id content =>
      match s.servers[id]? with
      | some server => ((parseChat lower server.orgId id server.name content).run [] s).state
      | none        => s
    | .retry id =>
      match s.servers[id]? with
      | some server => ((retryChatRelays server.orgId id).run [] s).state
      | none        => s
    | .elapse ms => s.elapse ms

section

variable (lower : String → String) (orgId : OrgId) (serverInstanceId : ServerId)
  (serverInstanceName : String)

def handleLine (line : String) : Service Unit :=
  (parseChatLine line).elim (.ret ()) (handleChat lower orgId serverInstanceId serverInstanceName)

-- `parseChat` with a note of each line that it examines
def parseChatNoting (content : String) : Prog (logs.noted (ServerId × String)) Unit := do
  let (lines, last) :=
    splitLines ((← .silently (send (.chatLineBuffer serverInstanceId))) ++ content)
  .silently (send (.setChatLineBuffer serverInstanceId (sliceEnd last 4096)))
  .forEachNoted (serverInstanceId, ·) (handleLine lower orgId serverInstanceId serverInstanceName)
    lines

end

-- The messages, with the lines that are examined in the course of them.
@[reducible]
def examining (lower : String → String) : System where
  State := Store × List (ServerId × String)
  Event := Message
  next p
    | .chunk id content =>
      match p.1.servers[id]? with
      | some server => ((parseChatNoting lower server.orgId id server.name content).run [] p).state
      | none        => p
    | e => ((messages lower).next p.1 e, p.2)

end Chat
