import Mastermind.Effects.Notes
import Mastermind.Players.Requests

open Effects Effects.Prog Js Jobs Triggers

namespace Players

variable [Naming]

-- A call of `evaluatePlaytime`: the player and the lifetime that it was given as the next one.
structure Evaluation where
  playerId            : PlayerId
  nextLifetimeSeconds : Int

-- The programs that note the calls of `evaluatePlaytime`.
abbrev Noted (α : Type) :=
  Prog (roster.noted Evaluation) α

namespace Noted

def ignoreErrors (p : Noted Unit) : Noted Unit :=
  p.handle fun _ => return

def evaluatePlaytime (orgId : OrgId) (serverInstanceId : ServerId) (player : TriggerPlayer)
    (previousLifetimeSeconds nextLifetimeSeconds : Int) : Noted Unit := do
  note { playerId := player.id, nextLifetimeSeconds }
  silently (Players.evaluatePlaytime orgId serverInstanceId player previousLifetimeSeconds
    nextLifetimeSeconds)

section

variable (orgId : OrgId) (serverInstanceId : ServerId) (serverInstanceName : String)

def handleLeft (name : String) (identityKey : IdentityKey) (existing : Option (PlayerId × Player))
    (now : Time) : Noted Unit :=
  match existing with
  | none         => return
  | some (id, p) =>
    if p.online then do
      let duration := secondsBetween p.currentSessionStartedAt now
      let lifetime := p.lifetimeSeconds + duration
      silently (endSession id { lastSeenAt := some now } now duration)
      ignoreErrors (evaluatePlaytime orgId serverInstanceId (.ofLeft id p lifetime)
        p.lifetimeSeconds lifetime)
      silently (Players.ignoreErrors (send (.notify
        (.disconnected orgId serverInstanceId serverInstanceName name identityKey.uuid? duration))))
    else return

def handleNamed (joined : Bool) (name : String) : Noted Unit := do
  let namedUuid ← silently (send (.findNamedUuid serverInstanceId name))
  let identityKey := namedKey namedUuid name
  silently (reconcileNameFallback serverInstanceId identityKey name none)
  let now ← silently (send .now)
  let existing ←
    if namedUuid.isSome then pure namedUuid
    else silently (send (.findPlayer serverInstanceId identityKey))
  if joined then
    silently (handleJoined orgId serverInstanceId serverInstanceName name identityKey
      (existing.map Prod.snd) now)
  else handleLeft orgId serverInstanceId serverInstanceName name identityKey existing now

def handleLine (line : LogLine) : Noted Unit :=
  match line with
  | .uuid name uuid => silently (handleUuid orgId serverInstanceId name uuid)
  | .joined name    => handleNamed orgId serverInstanceId serverInstanceName true name
  | .left name      => handleNamed orgId serverInstanceId serverInstanceName false name
  | .other          => return

def parsePlayers (content : String) : Noted Unit := do
  let buffered ← silently (send (.lineBuffer serverInstanceId))
  let (lines, last) := splitLines (buffered ++ content)
  silently (send (.setLineBuffer serverInstanceId (sliceEnd last 4096)))
  .forEach (handleLine orgId serverInstanceId serverInstanceName) (lines.map parseLine)

variable (now : Time)

def applyRow (row : PlayerRosterRow) : Noted Unit := do
  silently (reconcileNameFallback serverInstanceId row.identityKey row.name row.steamId)
  let found ← silently (send (.findPlayer serverInstanceId row.identityKey))
  let existing := found.map Prod.snd
  let (id, player) ← silently (upsertRow orgId serverInstanceId now row existing)
  silently (openSession existing id now)
  silently (welcome orgId serverInstanceId existing (.ofRow id player))
  silently (connect orgId serverInstanceId serverInstanceName existing id player.name
    row.identityKey.uuid?)
  let projected := projectedLifetime now player
  ignoreErrors (evaluatePlaytime orgId serverInstanceId
    { TriggerPlayer.ofRow id player with lifetimeSeconds := projected }
    ((existing.map (·.lifetimeSeconds)).getD 0) projected)

def applyMissing : PlayerId × Player → Noted Unit
  | (id, player) => do
    let endedAt := if player.lastSeenAt < now then player.lastSeenAt else now
    let duration := secondsBetween player.currentSessionStartedAt endedAt
    let lifetime := player.lifetimeSeconds + duration
    silently (endSession id {} endedAt duration)
    ignoreErrors (evaluatePlaytime orgId serverInstanceId (.ofLeft id player lifetime)
      player.lifetimeSeconds lifetime)
    silently (Players.ignoreErrors (send (.notify (.disconnected orgId serverInstanceId
      serverInstanceName player.name player.identityKey.uuid? duration))))

end

def applyPlayerRoster (orgId : OrgId) (serverInstanceId : ServerId) (rows : List PlayerRosterRow) :
    Noted Unit := do
  let now ← silently (send .now)
  let server ← silently (send (.findServerName serverInstanceId))
  let serverName := server.getD "Minecraft Server"
  .forEach (applyRow orgId serverInstanceId serverName now) rows
  let missing ← silently (send (.findOnline serverInstanceId (rows.map (·.identityKey))))
  .forEach (applyMissing orgId serverInstanceId serverName now) missing
  silently (Players.ignoreErrors
    (send (.notify (.enqueuePendingShopGrants orgId serverInstanceId))))
  silently (Players.ignoreErrors (retryPendingItemGrants orgId serverInstanceId))

end Noted

-- The messages, with the calls of `evaluatePlaytime` that they lead to.
@[reducible]
def evaluated : System where
  State := Store × List Evaluation
  Event := Message
  next p
    | .chunk serverInstanceId content =>
      match p.1.servers[serverInstanceId]? with
      | some server =>
        ((Noted.parsePlayers server.orgId serverInstanceId server.name content).run [] p).state
      | none        => p
    | .roster serverInstanceId players =>
      match p.1.servers[serverInstanceId]? with
      | some server =>
        ((Noted.applyPlayerRoster server.orgId serverInstanceId
          (minecraftRows players)).run [] p).state
      | none        => p
    | .report id runStatus output => (p.1.report id runStatus output, p.2)
    | .elapse ms => (p.1.elapse ms, p.2)

-- `parsePlayers` with a note of each line that it examines
def parsePlayersNoting (orgId : OrgId) (serverInstanceId : ServerId)
    (serverInstanceName content : String) : Prog (roster.noted (ServerId × String)) Unit := do
  let buffered ← silently (send (.lineBuffer serverInstanceId))
  let (lines, last) := splitLines (buffered ++ content)
  silently (send (.setLineBuffer serverInstanceId (sliceEnd last 4096)))
  forEachNoted (serverInstanceId, ·)
    (fun line => Players.handleLine orgId serverInstanceId serverInstanceName (parseLine line)) lines

-- The messages, with the lines that are examined in the course of them.
@[reducible]
def examining : System where
  State := Store × List (ServerId × String)
  Event := Message
  next p
    | .chunk serverInstanceId content =>
      match p.1.servers[serverInstanceId]? with
      | some server =>
        ((parsePlayersNoting server.orgId serverInstanceId server.name content).run [] p).state
      | none        => p
    | e => (messages.next p.1 e, p.2)

-- The calls of `evaluatePlaytime` in a run.
def Store.evaluations (s : Store) (es : List Message) : List Evaluation :=
  (evaluated.run (s, []) es).2

def Write.merges (id : PlayerId) : Write → Bool
  | .moveSessions source target => source = id || target = id
  | _                           => false

-- The command merges a row into another one, and the player is one of the two.
def Cmd.merges (id : PlayerId) : Cmd → Bool
  | .transaction writes => writes.any (·.merges id)
  | _                   => false

-- The commands that a message leads to.
def Store.commands (s : Store) : Message → List Cmd
  | .chunk serverInstanceId content =>
    match s.servers[serverInstanceId]? with
    | some server =>
      ((parsePlayers server.orgId serverInstanceId server.name content).run [] s).log.map Prod.fst
    | none        => []
  | .roster serverInstanceId players =>
    match s.servers[serverInstanceId]? with
    | some server =>
      ((applyPlayerRoster server.orgId serverInstanceId (minecraftRows players)).run [] s).log.map
        Prod.fst
    | none        => []
  | .report id runStatus output =>
    match s.openJob? id with
    | some job =>
      ((completeItemGrant job.payload runStatus output).run [] (s.closeJob id)).log.map Prod.fst
    | none     => []
  | .elapse _ => []

-- The message merges no row with that of the player.
def Unmerged (id : PlayerId) (s : Store) (e : Message) : Prop :=
  ∀ c ∈ s.commands e, c.merges id = false

end Players
