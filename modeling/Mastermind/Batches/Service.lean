import Mastermind.Jobs.Store

open Effects Js Jobs

namespace Batches

def BATCH_TYPE_TO_JOB_TYPE : String → Option String
  | "restart_wave"     => some "SERVER_RESTART"
  | "update_wave"      => some "SERVER_UPDATE"
  | "bulk_mod_install" => some "BULK_MOD_INSTALL"
  | "custom"           => some "custom"
  | _                  => none

-- The validated body of a request: at least one server.
structure CreateBatchDto where
  type              : String
  serverInstanceIds : List ServerId
  payload           : Option Json := none
  nonempty          : serverInstanceIds ≠ []

-- The body that asks for a restart of some servers.
def CreateBatchDto.restartWave (id : ServerId) (ids : List ServerId) : CreateBatchDto where
  type              := "restart_wave"
  serverInstanceIds := id :: ids
  nonempty          := List.cons_ne_nil id ids

def audit (orgId : OrgId) (actorId : Option UserId) (action : String) (resourceId : Nat) :
    Service Unit :=
  send (.notify (.audit orgId actorId action resourceId))

def emitProgress (orgId : OrgId) (batchId : BatchId) (batch : JobBatch) : Service Unit :=
  send (.notify (.batchProgress orgId batchId batch))

-- The loop of `createBatch`: one job, one run and one queue entry for each server.
def createBatchJobs (orgId : OrgId) (userId : Option UserId) (dto : CreateBatchDto) (batchId : BatchId)
    (jobType : String) : List (ServerId × ServerInstance) → Service Unit
  | [] => return
  | (serverId, si) :: instances => do
    let jobId ← send (.insertJob {
      orgId, batchId, serverInstanceId := serverId, type := jobType
      payload := dto.payload, createdById := userId })
    let runId ← send (.insertRun { jobId, hostId := si.hostId, status := .pending })
    send (.queueAdd orgId {
      jobId, jobRunId := runId, hostId := si.hostId, serverInstanceId := serverId, type := jobType
      payload := dto.payload.getD (.obj []) })
    audit orgId userId "job_created" jobId
    createBatchJobs orgId userId dto batchId jobType instances

def createBatch (orgId : OrgId) (userId : Option UserId) (dto : CreateBatchDto) :
    Service (BatchId × JobBatch) := do
  let instances ← send (.findServers dto.serverInstanceIds orgId)
  if instances.length ≠ dto.serverInstanceIds.length then
    let missing := dto.serverInstanceIds.filter fun id => !(instances.map Prod.fst).contains id
    .throw (.badRequest
      ("Server instance(s) not found or not in org: " ++ ", ".intercalate (missing.map toString)))
  else
    let jobType := (BATCH_TYPE_TO_JOB_TYPE dto.type).getD dto.type
    let batch : JobBatch := {
      orgId, type := dto.type, status := .running, totalCount := instances.length
      pendingCount := instances.length, runningCount := 0, successCount := 0, failedCount := 0
      cancelledCount := 0, createdById := userId }
    let batchId ← send (.insertBatch batch)
    createBatchJobs orgId userId dto batchId jobType instances
    audit orgId userId "batch_created" batchId
    return (batchId, batch)

-- The counters that a completed run moves between.
def completionData (runStatus priorRunStatus : RunStatus) : BatchData where
  successCount   := if runStatus = .success then 1 else 0
  failedCount    := if runStatus = .failed then 1 else 0
  cancelledCount := if runStatus = .success ∨ runStatus = .failed then 0 else 1
  runningCount   := if priorRunStatus = .running then -1 else 0
  pendingCount   := if priorRunStatus = .running then 0 else -1

def recordJobRunCompleted (orgId : OrgId) (jobId : JobId) (runStatus priorRunStatus : RunStatus) :
    Service Unit := do
  match ← send (.findJob jobId orgId) with
  | some (_, some (batchId, _)) => do
    let updated ← send (.updateBatch batchId (completionData runStatus priorRunStatus))
    if updated.pendingCount ≤ 0 ∧ updated.runningCount ≤ 0 then
      let status := if updated.failedCount > 0 then .completedWithFailures else .completed
      let now ← send .now
      let final ← send (.updateBatch batchId { status := some status, completedAt := some now })
      emitProgress orgId batchId final
    else emitProgress orgId batchId updated
  | _ => return

def recordJobRunStarted (orgId : OrgId) (jobId : JobId) : Service Unit := do
  match ← send (.findJob jobId orgId) with
  | some (_, some (batchId, _)) => do
    let _ ← send (.updateBatch batchId { pendingCount := -1, runningCount := 1 })
    match ← send (.findBatchById batchId) with
    | some updated => emitProgress orgId batchId updated
    | none         => return
  | _ => return

-- The removal of a queue entry that may already be taken.
def removeEntry (orgId : OrgId) (runId : RunId) : Service Unit :=
  Prog.handle
    (do
      match ← send (.queueJob orgId runId) with
      | some _ => send (.queueRemove orgId runId)
      | none   => return)
    fun _ => return

-- The loop of `cancelBatch`. Counts the cancelled runs on top of `cancelled`.
def cancelRuns (orgId : OrgId) :
    List (JobId × Option (RunId × JobRun)) → (cancelled : Int) → Service Int
  | [], cancelled => return cancelled
  | (_, none) :: jobs, cancelled => cancelRuns orgId jobs cancelled
  | (_, some (runId, run)) :: jobs, cancelled =>
    if run.status ≠ .pending then cancelRuns orgId jobs cancelled
    else do
      let now ← send .now
      send (.updateRun runId { status := some .cancelled, finishedAt := some now })
      removeEntry orgId runId
      cancelRuns orgId jobs (cancelled + 1)

def cancelBatch (orgId : OrgId) (batchId : BatchId) : Service JobBatch := do
  match ← send (.findBatch batchId orgId) with
  | none => .throw (.notFound "Batch not found")
  | some (batch, jobs) =>
    if batch.status ≠ .running then .throw (.badRequest "Batch is not running")
    else do
      let cancelled ← cancelRuns orgId jobs 0
      let now ← send .now
      let updated ← send (.updateBatch batchId {
        status := some .cancelled, pendingCount := -cancelled, cancelledCount := cancelled
        completedAt := some now })
      audit orgId none "batch_cancelled" batchId
      emitProgress orgId batchId updated
      return updated

end Batches
