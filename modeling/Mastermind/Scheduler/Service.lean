import Mastermind.Jobs.Service

open Effects Js Jobs

namespace Scheduler

def isRestartJob (jobType : String) : Bool :=
  ["SERVER_RESTART", "SERVER_SAFE_RESTART"].contains (toUpperCase jobType)

-- A Minecraft server is restarted safely.
def effectiveJobType (schedule : Schedule) (i : ServerInstance) : String :=
  if i.gameType = "minecraft" ∧ toUpperCase schedule.jobType = "SERVER_RESTART" then
    "SERVER_SAFE_RESTART"
  else schedule.jobType

-- Updates a schedule together with its next run, if there is one. The database does not accept an
-- invalid date.
def updateNext (scheduleId : ScheduleId) (data : ScheduleData) (nextRun : Option Date) :
    Service Unit :=
  match nextRun with
  | some .invalid     => .throw .storage
  | some (.valid due) => send (.updateSchedule scheduleId { data with nextRunAt := due })
  | none              => send (.updateSchedule scheduleId data)

-- Adds the next fire of a schedule, if there is one.
def addNext (scheduleId : ScheduleId) (nextRun : Option Date) : Service Unit :=
  match nextRun with
  | some (.valid due) => send (.schedulerAdd scheduleId due)
  | _                 => return

-- A fire that does not create a job: the schedule is updated and its next fire added.
def skipFire (deps : External) (scheduleId : ScheduleId) (schedule : Schedule) (status : String)
    (clearSkip : Bool) : Service Unit := do
  let nextRun := deps.computeNextRun schedule (← send .now)
  let now ← send .now
  updateNext scheduleId { lastRunAt := now, lastRunStatus := status, clearSkip } nextRun
  addNext scheduleId nextRun

-- The guarded part of a fire. It also returns the job that it has created when it fails, because
-- the error handler stores it.
def createRun (deps : External) (scheduleId : ScheduleId) (schedule : Schedule) (i : ServerInstance)
    (type : String) (payload : Payload) : Service (Except (Option JobId) Unit) :=
  Prog.handle
    (do
      let jobId ← send (.insertJob {
        orgId := schedule.orgId, serverInstanceId := schedule.serverInstanceId, type
        payload := some (.obj payload), createdById := none })
      let runId ← send (.insertRun { jobId, hostId := i.hostId, status := .pending })
      Prog.handle
        (do
          send (.queueAdd schedule.orgId {
            jobId, jobRunId := runId, hostId := i.hostId
            serverInstanceId := schedule.serverInstanceId, type, payload := .obj payload, scheduleId })
          let nextRun := deps.computeNextRun schedule (← send .now)
          let now ← send .now
          updateNext scheduleId {
            lastRunAt := now, lastRunStatus := "success", lastRunJobId := some (some jobId)
            runCount := 1 } nextRun
          addNext scheduleId nextRun
          return .ok ())
        fun _ => return .error (some jobId))
    fun _ => return .error none

def processScheduleFire (deps : External) (scheduleId : ScheduleId) : Service Unit := do
  match ← send (.findSchedule scheduleId) with
  | none => return
  | some (schedule, i) =>
    if !schedule.enabled then return
    else if schedule.skipNextRun ∧ isRestartJob schedule.jobType then
      let status :=
        if schedule.skipNextRunReason = some "stability_restart" then "skipped_stability_restart"
        else "skipped_by_operator"
      skipFire deps scheduleId schedule status true
    else do
      let type := effectiveJobType schedule i
      let payload := Json.spread
        (Json.spread (serverPayload schedule.serverInstanceId i)
          [("schedule_id", .str (toString scheduleId))])
        ((schedule.payload.map Json.fields).getD [])
      match ← send (.findActiveRun schedule.serverInstanceId type scheduleId) with
      | some _ => skipFire deps scheduleId schedule "skipped_busy" false
      | none   =>
        match ← createRun deps scheduleId schedule i type payload with
        | .ok ()               => return
        | .error createdJobId => do
          let nextRun := deps.computeNextRun schedule (← send .now)
          let now ← send .now
          updateNext scheduleId {
            lastRunAt := now, lastRunStatus := "scheduler_failed", lastRunJobId := some createdJobId
            failureCount := 1 } nextRun
          addNext scheduleId nextRun
          .throw .storage

def handleWorkerFailure (scheduleId : ScheduleId) : Service Unit :=
  send (.updateSchedule scheduleId { lastRunStatus := "scheduler_failed", failureCount := 1 })

-- The worker of the scheduler queue: a fire and, if it throws, the handler of failed jobs.
def fire (deps : External) (scheduleId : ScheduleId) : Service Unit :=
  (processScheduleFire deps scheduleId).handle fun _ => handleWorkerFailure scheduleId

end Scheduler
