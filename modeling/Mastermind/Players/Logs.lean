import Mastermind.Players.Store
import Mastermind.Players.Triggers

open Effects Js Jobs Triggers

namespace Players

variable [Naming]

-- What a line of a server's log says about a player.
inductive LogLine
  | uuid   (name uuid : String)
  | joined (name : String)
  | left   (name : String)
  | other
  deriving DecidableEq

-- `\w`
def isWordChar (c : Char) : Bool :=
  c.isAlphanum || c = '_'

def isUuidChar (c : Char) : Bool :=
  c.isDigit || ('a' ≤ c && c ≤ 'f') || ('A' ≤ c && c ≤ 'F') || c = '-'

-- Drops a text from the front. The patterns ignore the case of letters.
def scanText (text : String) (cs : List Char) : Option (List Char) :=
  if (cs.take text.length).map Char.toLower = text.toList.map Char.toLower then
    some (cs.drop text.length)
  else none

-- `[A-Za-z0-9_]{1,16}`, followed by something that is not a part of a name
def scanName (cs : List Char) : Option (String × List Char) :=
  let name := cs.takeWhile isWordChar
  if 1 ≤ name.length ∧ name.length ≤ 16 then some (.ofList name, cs.dropWhile isWordChar) else none

-- `/UUID of player ([A-Za-z0-9_]{1,16}) is ([0-9a-fA-F-]{32,36})/i`
def scanUuid (cs : List Char) : Option (String × String) := do
  let cs ← scanText "UUID of player " cs
  let (name, cs) ← scanName cs
  let cs ← scanText " is " cs
  let uuid := (cs.takeWhile isUuidChar).take 36
  if uuid.length < 32 then none else some (name, toLowerCase (.ofList uuid))

-- `/:\s*([A-Za-z0-9_]{1,16}) joined the game\b/i` and the same for `left`
def scanPlayer (verb : String) (cs : List Char) : Option String := do
  let cs ← scanText ":" cs
  let (name, cs) ← scanName (cs.dropWhile isSpace)
  let cs ← scanText (" " ++ verb ++ " the game") cs
  if cs.head?.any isWordChar then none else some name

-- The first match of a pattern.
def firstMatch {α : Type} (scan : List Char → Option α) : List Char → Option α
  | []      => scan []
  | c :: cs => (scan (c :: cs)).or (firstMatch scan cs)

def parseLine (line : String) : LogLine :=
  match firstMatch scanUuid line.toList with
  | some (name, uuid) => .uuid name uuid
  | none =>
    -- The name is that of the first match, whichever of the two it is.
    match firstMatch (fun cs => (scanPlayer "joined" cs).or (scanPlayer "left" cs)) line.toList with
    | none      => .other
    | some name =>
      if (firstMatch (scanPlayer "joined") line.toList).isSome then .joined name else .left name

def splitChars : List Char → List (List Char) × List Char
  | []                 => ([], [])
  | '\n' :: cs         => ([] :: (splitChars cs).1, (splitChars cs).2)
  | '\r' :: '\n' :: cs => ([] :: (splitChars cs).1, (splitChars cs).2)
  | c :: cs            =>
    match splitChars cs with
    | ([], last)      => ([], c :: last)
    | (l :: ls, last) => ((c :: l) :: ls, last)

-- `text.split(/\r?\n/)`, with the last piece apart
def splitLines (text : String) : List String × String :=
  let (lines, last) := splitChars text.toList
  (lines.map .ofList, .ofList last)

-- `s.slice(-n)`
def sliceEnd (s : String) (n : Nat) : String :=
  .ofList (ofUnits ((units s).drop ((units s).length - n)))

-- `Math.max(0, Math.floor((endedAt - startedAt) / 1000))`
def secondsBetween (startedAt : Option Time) (endedAt : Time) : Nat :=
  match startedAt with
  | some startedAt => (endedAt - startedAt) / 1000
  | none           => 0

-- The end of a player's session.
def sessionEnd (id : PlayerId) (data : PlayerData) (endedAt : Time) (duration : Nat) : List Write :=
  [.updatePlayer id { data with
    online                  := some false
    currentSessionStartedAt := some none
    lastLogoutAt            := some endedAt
    lifetimeSeconds         := duration }
  , .endSessions id endedAt duration]

def endSession (id : PlayerId) (data : PlayerData) (endedAt : Time) (duration : Nat) : Service Unit :=
  send (.transaction (sessionEnd id data endedAt duration))

-- A player who has gone offline.
def TriggerPlayer.ofLeft (id : PlayerId) (p : Player) (lifetimeSeconds : Int) : TriggerPlayer :=
  { TriggerPlayer.ofRow id p with online := false, lifetimeSeconds }

section

variable (orgId : OrgId) (serverInstanceId : ServerId) (serverInstanceName : String)

def handleUuid (name uuid : String) : Service Unit := do
  let identityKey := .uuid uuid
  reconcileNameFallback serverInstanceId identityKey name none
  let now ← send .now
  let _ ← send (.upsertPlayer serverInstanceId identityKey
    { orgId, serverInstanceId, identityKey, name, online := false, firstSeenAt := now, lastSeenAt := now }
    { name := some name })
  return

def welcome (existing : Option Player) (player : TriggerPlayer) : Service Unit :=
  if existing.isNone then ignoreErrors (evaluateFirstJoin orgId serverInstanceId player) else return

def openSession (existing : Option Player) (id : PlayerId) (now : Time) : Service Unit :=
  if existing.any (·.online) then return else send (.createSession { playerId := id, startedAt := now })

def connect (existing : Option Player) (id : PlayerId) (name : String) (uuid : Option String) :
    Service Unit :=
  if existing.any (·.online) then return
  else do
    ignoreErrors (retryPendingItemGrantsForPlayer id)
    ignoreErrors (send (.notify
      (.connected orgId serverInstanceId serverInstanceName name uuid)))

def handleJoined (name : String) (identityKey : IdentityKey) (existing : Option Player) (now : Time) :
    Service Unit := do
  let (id, player) ← send (.upsertPlayer serverInstanceId identityKey
    { orgId, serverInstanceId, identityKey, name
      online                  := true
      currentSessionStartedAt := some now
      firstSeenAt             := now
      lastSeenAt              := now }
    { name                    := some name
      online                  := some true
      lastSeenAt              := some now
      currentSessionStartedAt := if existing.any (·.online) then none else some (some now) })
  welcome orgId serverInstanceId existing (.ofRow id player)
  openSession existing id now
  connect orgId serverInstanceId serverInstanceName existing id name identityKey.uuid?

def handleLeft (name : String) (identityKey : IdentityKey) (existing : Option (PlayerId × Player))
    (now : Time) : Service Unit :=
  match existing with
  | none         => return
  | some (id, p) =>
    if p.online then do
      let duration := secondsBetween p.currentSessionStartedAt now
      let lifetime := p.lifetimeSeconds + duration
      endSession id { lastSeenAt := some now } now duration
      ignoreErrors (evaluatePlaytime orgId serverInstanceId (.ofLeft id p lifetime) p.lifetimeSeconds
        lifetime)
      ignoreErrors (send (.notify
        (.disconnected orgId serverInstanceId serverInstanceName name identityKey.uuid? duration)))
    else return

-- The player that a line with a name is about. A player with a UUID goes first.
def namedKey (namedUuid : Option (PlayerId × Player)) (name : String) : IdentityKey :=
  (namedUuid.map (·.2.identityKey)).getD (fallbackKey name)

def handleNamed (joined : Bool) (name : String) : Service Unit := do
  let namedUuid ← send (.findNamedUuid serverInstanceId name)
  let identityKey := namedKey namedUuid name
  reconcileNameFallback serverInstanceId identityKey name none
  let now ← send .now
  -- What was found before the reconciliation is not read again.
  let existing ←
    if namedUuid.isSome then pure namedUuid else send (.findPlayer serverInstanceId identityKey)
  if joined then
    handleJoined orgId serverInstanceId serverInstanceName name identityKey (existing.map Prod.snd) now
  else handleLeft orgId serverInstanceId serverInstanceName name identityKey existing now

def handleLine (line : LogLine) : Service Unit :=
  match line with
  | .uuid name uuid => handleUuid orgId serverInstanceId name uuid
  | .joined name    => handleNamed orgId serverInstanceId serverInstanceName true name
  | .left name      => handleNamed orgId serverInstanceId serverInstanceName false name
  | .other          => return

def parsePlayers (content : String) : Service Unit := do
  let buffered ← send (.lineBuffer serverInstanceId)
  let (lines, last) := splitLines (buffered ++ content)
  send (.setLineBuffer serverInstanceId (sliceEnd last 4096))
  .forEach (handleLine orgId serverInstanceId serverInstanceName) (lines.map parseLine)

end

end Players
