import Mastermind.Effects.System
import Mastermind.Players.Roster

open Effects Jobs

namespace Players

variable [Naming]

-- A job that has not been reported yet.
def Store.openJob? (s : Store) (id : JobId) : Option Job :=
  s.jobs[id]?.filter fun job => !job.reported

def Job.close (job : Job) : Job :=
  { job with reported := true }

def Store.closeJob (s : Store) (id : JobId) : Store :=
  { s with jobs := s.jobs.modify id Job.close }

def Store.elapse (s : Store) (ms : Nat) : Store :=
  { s with clock := s.clock + ms }

-- The outcome of a job arrives.
def Store.report (s : Store) (id : JobId) (runStatus : RunStatus) (output : String) : Store :=
  match s.openJob? id with
  | some job => ((completeItemGrant job.payload runStatus output).run [] (s.closeJob id)).state
  | none     => s

-- The agent of a host sends a chunk of a server's log, the players of a server (with their names and
-- maybe their UUIDs) or the outcome of a job.
inductive Message
  | chunk  (serverInstanceId : ServerId) (content : String)
  | roster (serverInstanceId : ServerId) (players : List (String × Option String))
  | report (id : JobId) (runStatus : RunStatus) (output : String)
  | elapse (ms : Nat)

def minecraftRows (players : List (String × Option String)) : List PlayerRosterRow :=
  players.map fun (name, uuid) => minecraftRow name uuid

-- The messages are processed one after the other.
@[reducible]
def messages : System where
  State := Store
  Event := Message
  next s
    | .chunk serverInstanceId content =>
      match s.servers[serverInstanceId]? with
      | some server => ((parsePlayers server.orgId serverInstanceId server.name content).run [] s).state
      | none        => s
    | .roster serverInstanceId players =>
      match s.servers[serverInstanceId]? with
      | some server =>
        ((applyPlayerRoster server.orgId serverInstanceId (minecraftRows players)).run [] s).state
      | none        => s
    | .report id runStatus output => s.report id runStatus output
    | .elapse ms => s.elapse ms

-- What happens to the players: a message of an agent, or the reconciliation of a name that comes with
-- a better key (as for each player when someone lists them).
inductive PlayerEvent
  | message   (message : Message)
  | reconcile (serverInstanceId : ServerId) (identityKey : IdentityKey) (name : String)
      (steamId : Option String)

@[reducible]
def playerEvents : System where
  State := Store
  Event := PlayerEvent
  next s
    | .message message => messages.next s message
    | .reconcile serverInstanceId identityKey name steamId =>
      ((reconcileNameFallback serverInstanceId identityKey name steamId).run [] s).state

-- What the rest of the control plane does in the meantime: players and triggers change, and the fires
-- of players who are deleted go with them.
def Store.others (s : Store) (players : Table (Row Player)) (triggers : Table Trigger)
    (deleted : List PlayerId) : Store :=
  { s with
    players, triggers
    fires := s.fires.map fun r => if r.data.playerId ∈ deleted then r.kill else r }

-- The operations on fires.
inductive GrantOp
  | fireOnce (triggerId : TriggerId) (trigger : Trigger) (player : TriggerPlayer) (eventKey : String)
  | retryPendingItemGrants (orgId : OrgId) (serverInstanceId : ServerId)
  | retryPendingItemGrantsForPlayer (playerId : PlayerId)
  | completeItemGrant (id : JobId) (runStatus : RunStatus) (output : String)
  | elapse (ms : Nat)
  | others (players : Table (Row Player)) (triggers : Table Trigger) (deleted : List PlayerId)

-- The operations on fires, each of which is run to completion.
@[reducible]
def grants : System where
  State := Store
  Event := GrantOp
  next s
    | .fireOnce triggerId trigger player eventKey =>
      ((fireOnce triggerId trigger player eventKey).run [] s).state
    | .retryPendingItemGrants orgId serverInstanceId =>
      ((retryPendingItemGrants orgId serverInstanceId).run [] s).state
    | .retryPendingItemGrantsForPlayer playerId =>
      ((retryPendingItemGrantsForPlayer playerId).run [] s).state
    | .completeItemGrant id runStatus output => s.report id runStatus output
    | .elapse ms => s.elapse ms
    | .others players triggers deleted => s.others players triggers deleted

end Players
