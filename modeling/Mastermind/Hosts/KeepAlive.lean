import Mastermind.Effects.Embedding
import Mastermind.Effects.Pool
import Mastermind.Jobs.Service

open Effects Prog Js Jobs

namespace Hosts

def rebootIfDownCooldownMs : Nat := 3 * 60000

def rebootIfDownBlockingJobs : List String :=
  ["SERVER_START", "SERVER_RESTART", "SERVER_SAFE_RESTART", "SERVER_STOP", "SERVER_SAVE_STOP",
   "SERVER_UPDATE", "SERVER_MAINTENANCE", "SERVER_WIPE_SAVE", "SERVER_KILL"]

-- The metrics of a heartbeat, as far as they decide about a start.
structure HeartbeatMetrics where
  gameReachable : Option Bool := none

-- The database of the control plane, with the creation times of the jobs.
structure Store where
  plane     : Jobs.Store
  createdAt : List Time := []

namespace Store

-- A job that a command has created was created at the time of the clock.
def put (s : Store) (plane : Jobs.Store) : Store where
  plane     := plane
  createdAt :=
    s.createdAt ++ List.replicate (plane.jobs.length - s.createdAt.length) plane.clock

-- `where: { hostId, orgId, rebootIfDown: true, maintenanceMode: false }`
def rebootServers (s : Store) (hostId : HostId) (orgId : OrgId) : List ServerId :=
  (s.plane.serverInstances.entries.filter fun (_, i) =>
    i.hostId = hostId && i.orgId = orgId && i.rebootIfDown && !i.maintenanceMode).map Prod.fst

def blocks (serverId : ServerId) (job : Job) : Bool :=
  job.serverInstanceId = some serverId && rebootIfDownBlockingJobs.contains job.type

-- An unfinished run of a job that blocks a start.
def activeRun? (s : Store) (hostId : HostId) (serverId : ServerId) : Option RunId :=
  (s.plane.jobRuns.entries.find? fun (_, r) =>
    r.hostId = hostId && (r.status = .pending || r.status = .running) &&
      (s.plane.job? r.jobId).any (blocks serverId)).map Prod.fst

-- A job that blocks a start and was created not long ago.
def recentJob? (s : Store) (serverId : ServerId) (since : Time) : Option JobId :=
  (s.plane.jobs.entries.find? fun (id, job) =>
    blocks serverId job && (s.createdAt[id]?).any (since ≤ ·)).map Prod.fst

end Store

-- The commands of the job service, and the queries of a heartbeat. The rows that `recordHeartbeat`
-- writes are none of those that the commands here read.
inductive Cmd
  | jobs              (c : Jobs.Cmd)
  | recordHeartbeat   (hostId : HostId) (orgId : OrgId)
  | findRebootServers (hostId : HostId) (orgId : OrgId)
  | findActiveRun     (hostId : HostId) (serverId : ServerId)
  | findRecentJob     (serverId : ServerId) (since : Time)

@[reducible]
def Cmd.Ans : Cmd → Type
  | jobs c               => c.Ans
  | recordHeartbeat ..   => Unit
  | findRebootServers .. => List ServerId
  | findActiveRun ..     => Option RunId
  | findRecentJob ..     => Option JobId

def exec : (c : Cmd) → Store → Except Exception c.Ans × Store
  | .jobs c, s                         => ((Jobs.exec c s.plane).1, s.put (Jobs.exec c s.plane).2)
  | .recordHeartbeat hostId orgId, s   =>
    if (s.plane.hosts[hostId]?).any (·.orgId = orgId) then (.ok (), s)
    else (.error (.notFound "Host not found"), s)
  | .findRebootServers hostId orgId, s => (.ok (s.rebootServers hostId orgId), s)
  | .findActiveRun hostId serverId, s  => (.ok (s.activeRun? hostId serverId), s)
  | .findRecentJob serverId since, s   => (.ok (s.recentJob? serverId since), s)

@[reducible]
def hosts : Backend Exception where
  State := Store
  Cmd   := Cmd
  Ans   := Cmd.Ans
  exec  := exec
  fault := .storage
  local?
    | .jobs c => controlPlane.local? c
    | _       => false

@[reducible]
def plane : Embedding controlPlane hosts where
  cmd   := .jobs
  ans _ := id

abbrev ask (c : Cmd) : Prog hosts c.Ans :=
  perform (B := hosts) c

def rebootPayload : Payload :=
  [("trigger", .str "reboot_if_down")]

-- The body of the loop over the servers.
def rebootIfDown (hostId : HostId) (orgId : OrgId) (cooldownSince : Time) (serverId : ServerId) :
    Prog hosts Unit := do
  if (← ask (.findActiveRun hostId serverId)).isSome then return
  else if (← ask (.findRecentJob serverId cooldownSince)).isSome then return
  else do
    let _ ← (enqueueInternalJob orgId none serverId "SERVER_START" (some rebootPayload)).lift plane
    return

def maybeRebootIfDown (hostId : HostId) (orgId : OrgId) : Prog hosts Unit := do
  let servers ← ask (.findRebootServers hostId orgId)
  if servers = [] then return
  else do
    let now ← ask (.jobs .now)
    forEach (rebootIfDown hostId orgId (now - rebootIfDownCooldownMs)) servers

-- An error of the check is only logged.
def recordHeartbeatByHostIdOnly (hostId : HostId) (metrics : Option HeartbeatMetrics) :
    Prog hosts Unit := do
  match ← ask (.jobs (.findHost hostId)) with
  | none      => .throw (.notFound "Host not found")
  | some host => do
    ask (.recordHeartbeat hostId host.orgId)
    if metrics.bind HeartbeatMetrics.gameReachable = some false then
      (maybeRebootIfDown hostId host.orgId).handle fun _ => return
    else return

-- The arguments of a call of `createJob` that enables the maintenance of a server.
structure Maintenance where
  orgId            : OrgId
  userId           : UserId
  serverInstanceId : ServerId
  jobType          : String
  payload          : Option Payload
  isMaintenance    : normalizeJobType jobType = "SERVER_MAINTENANCE"
  enabled          : payload.bind (·.lookup "enabled") = some (.bool true)

inductive Request
  | heartbeat   (hostId : HostId) (metrics : Option HeartbeatMetrics)
  | maintenance (m : Maintenance)

def Request.serve (deps : External) : Request → Prog hosts Unit
  | heartbeat hostId metrics => recordHeartbeatByHostIdOnly hostId metrics
  | maintenance m            => do
    let _ ← (createJob deps m.orgId m.userId m.serverInstanceId m.jobType m.payload).lift plane
    return

-- What happens besides the requests: time passes, an operator sets the flag of a server or clears it,
-- and agents take jobs and report on them.
inductive World
  | elapse   (ms : Nat)
  | operator (id : ServerId) (rebootIfDown : Bool)
  | agent    (id : ServerId) (maintenanceMode : Bool) (runs : Table JobRun)

def World.happen : World → Store → Store
  | elapse ms, s                => { s with plane := { s.plane with clock := s.plane.clock + ms } }
  | operator id rebootIfDown, s =>
    { s with plane := { s.plane with
      serverInstances := s.plane.serverInstances.modify id fun i => { i with rebootIfDown } } }
  | agent id maintenanceMode runs, s =>
    { s with plane := { s.plane with
      serverInstances := s.plane.serverInstances.modify id fun i => { i with maintenanceMode }
      jobRuns         := runs } }

-- All interleavings of the requests.
@[reducible]
def keepAlive (deps : External) : System :=
  Pool.system (Request.serve deps) World.happen

end Hosts
