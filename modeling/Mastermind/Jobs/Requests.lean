import Mastermind.Effects.Pool
import Mastermind.Jobs.Poll
import Mastermind.Scheduler.Service

open Effects Js Batches

namespace Jobs

-- What the control plane is asked to do with jobs: by users, by agents and by its own timers.
inductive Request
  | createJob          (orgId : OrgId) (userId : UserId) (serverInstanceId : ServerId)
                       (jobType : String) (payload : Option Payload)
  | enqueueInternalJob (orgId : OrgId) (userId : Option UserId) (serverInstanceId : ServerId)
                       (jobType : String) (payload : Option Payload)
  | createBatch        (orgId : OrgId) (userId : Option UserId) (dto : CreateBatchDto)
  | cancelBatch        (orgId : OrgId) (batchId : BatchId)
  | fire               (scheduleId : ScheduleId)
  | poll               (hostId : HostId) (waitMs : Nat) (busy : Bool)
  | markJobRunStarted  (hostId : HostId) (jobRunId : RunId)
  | reportJobResult    (hostId : HostId) (jobRunId : RunId) (dto : ReportResultDto)
  | reportJobProgress  (hostId : HostId) (jobRunId : RunId) (phase : String) (message : Option String)
  | failStaleRunningJobs

namespace Request

-- The program that serves a request. Only a poll has an answer that matters: the job that is handed
-- to the agent.
def serve (deps : External) : Request → Service (Option QueueJobData)
  | createJob orgId userId serverInstanceId jobType payload => do
    let _ ← Jobs.createJob deps orgId userId serverInstanceId jobType payload
    return none
  | enqueueInternalJob orgId userId serverInstanceId jobType payload => do
    let _ ← Jobs.enqueueInternalJob orgId userId serverInstanceId jobType payload
    return none
  | createBatch orgId userId dto => do
    let _ ← Batches.createBatch orgId userId dto
    return none
  | cancelBatch orgId batchId => do
    let _ ← Batches.cancelBatch orgId batchId
    return none
  | fire scheduleId => do
    Scheduler.fire deps scheduleId
    return none
  | poll hostId waitMs busy => Jobs.poll hostId waitMs busy
  | markJobRunStarted hostId jobRunId => do
    Jobs.markJobRunStarted hostId jobRunId
    return none
  | reportJobResult hostId jobRunId dto => do
    Jobs.reportJobResult deps hostId jobRunId dto
    return none
  | reportJobProgress hostId jobRunId phase message => do
    Jobs.reportJobProgress hostId jobRunId phase message
    return none
  | failStaleRunningJobs => do
    Jobs.failStaleRunningJobs
    return none

end Request

def Store.elapse (ms : Nat) (s : Store) : Store :=
  { s with clock := s.clock + ms }

abbrev Requests :=
  Pool controlPlane Request (Option QueueJobData)

-- The requests that are served at the same time, interleaved at each access to the database or to a
-- queue.
@[reducible]
def interleaved (deps : External) : System :=
  Pool.system (Request.serve deps) Store.elapse

-- A request that is served on its own, with the fates of its accesses, or the passing of time.
inductive Op
  | serve  (q : Request) (fates : List Fate)
  | elapse (ms : Nat)

-- The requests that are served one after the other.
@[reducible]
def sequential (deps : External) : System where
  State := Store
  Event := Op
  next s
    | .serve q fates => ((q.serve deps).run fates s).state
    | .elapse ms     => s.elapse ms

end Jobs
