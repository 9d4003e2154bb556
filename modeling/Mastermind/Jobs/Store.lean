import Mastermind.Effects.Prog
import Mastermind.Effects.Table
import Mastermind.Script.Json

open Effects Js

namespace Jobs

-- Rows are referred to by their position in their table.
abbrev OrgId      := Nat
abbrev UserId     := Nat
abbrev HostId     := Nat
abbrev ServerId   := Nat
abbrev JobId      := Nat
abbrev RunId      := Nat
abbrev BatchId    := Nat
abbrev ScheduleId := Nat

-- Milliseconds since the epoch.
abbrev Time := Nat

abbrev Payload := List (String × Json)

inductive RunStatus
  | pending
  | running
  | success
  | failed
  | cancelled
  deriving DecidableEq

inductive BatchStatus
  | running
  | completed
  | completedWithFailures
  | cancelled
  deriving DecidableEq

-- The fields that the result column of a run can have. `updatedAt` and `recoveredAt` are stored as
-- ISO strings and read back with `Date.parse`.
structure RunResult where
  durationMs   : Option Number := none
  errorMessage : Option String := none
  output       : Option String := none
  data         : Option Json   := none
  phase        : Option String := none
  message      : Option String := none
  updatedAt    : Option Time   := none
  recoveredAt  : Option Time   := none

structure Job where
  orgId            : OrgId
  batchId          : Option BatchId := none
  serverInstanceId : Option ServerId
  type             : String
  payload          : Option Json
  createdById      : Option UserId

structure JobRun where
  jobId      : JobId
  hostId     : HostId
  status     : RunStatus
  startedAt  : Option Time      := none
  finishedAt : Option Time      := none
  result     : Option RunResult := none

structure JobBatch where
  orgId          : OrgId
  type           : String
  status         : BatchStatus
  totalCount     : Int
  pendingCount   : Int
  runningCount   : Int
  successCount   : Int
  failedCount    : Int
  cancelledCount : Int
  createdById    : Option UserId
  completedAt    : Option Time := none
  deriving DecidableEq

-- A membership with the role's name and the user's name and email.
structure UserOrg where
  userId : UserId
  orgId  : OrgId
  role   : String
  name   : Option String
  email  : String

structure Org where
  maintenancePasswordEncrypted : Option String

structure Host where
  orgId : OrgId

-- `gameType` is the slug of the server's game type.
structure ServerInstance where
  orgId           : OrgId
  hostId          : HostId
  gameType        : String
  installPath     : Option String
  startCommand    : Option String
  rconHost        : Option String
  rconPort        : Option Int
  rconPassword    : Option String
  config          : Option Json
  maintenanceMode : Bool
  rebootIfDown    : Bool

structure Schedule where
  orgId                  : OrgId
  serverInstanceId       : ServerId
  name                   : String        := ""
  cronExpression         : String
  executionWindowStart   : Option String := none
  executionWindowEnd     : Option String := none
  jobType                : String
  payload                : Option Json
  enabled                : Bool
  nextRunAt              : Option Time
  lastRunAt              : Option Time   := none
  lastRunStatus          : Option String := none
  lastRunJobId           : Option JobId  := none
  runCount               : Int           := 0
  failureCount           : Int           := 0
  skipNextRun            : Bool          := false
  skipNextRunReason      : Option String := none
  skipNextRunRequestedAt : Option Time   := none

structure QueueJobData where
  jobId            : JobId
  jobRunId         : RunId
  hostId           : HostId
  serverInstanceId : Option ServerId
  type             : String
  payload          : Json
  scheduleId       : Option ScheduleId := none

-- A waiting entry of the queue of an organisation. Its id is the id of the run.
structure QueueEntry where
  orgId : OrgId
  data  : QueueJobData
  delay : Nat := 0

-- What the queue library is left to decide: the entries that `getJobs` lists of those that a queue
-- holds, and whether `remove` and `changeDelay` resolve, given the entry and the delayed entry that the
-- queue still has under the id of the job.
structure BullMQ where
  getJobs     : List QueueEntry → List QueueEntry
  getJobs_sub : ∀ queue, getJobs queue ⊆ queue
  remove      : Option QueueEntry → Bool
  changeDelay : Option QueueEntry → Bool

-- The documented behaviour. The range `0, 499` is taken of each state, newest entries first. A removal
-- fails for locked entries only, so that it resolves for one that is gone, a change of delay fails for
-- an entry that is gone or not delayed.
def BullMQ.documented : BullMQ where
  getJobs queue :=
    (queue.filter (·.delay = 0)).reverse.take 500 ++ (queue.filter (0 < ·.delay)).reverse.take 500
  getJobs_sub queue e he := by
    cases List.mem_append.mp he
    case inl he => exact List.mem_of_mem_filter <| List.mem_reverse.mp <| List.mem_of_mem_take he
    case inr he => exact List.mem_of_mem_filter <| List.mem_reverse.mp <| List.mem_of_mem_take he
  remove _ := true
  changeDelay := Option.isSome

-- An entry of the scheduler's queue. Its id consists of its schedule and its due time.
abbrev ScheduleEntry := ScheduleId × Time

-- The calls that leave the tables of this file: audit records, progress events and the handling of
-- results by other services.
inductive Notice
  | audit                 (orgId : OrgId) (actorId : Option UserId) (action : String) (resourceId : Nat)
  | batchProgress         (orgId : OrgId) (batchId : BatchId) (batch : JobBatch)
  | unlinkUpload          (uploadId : String)
  | skipNextAutoRestart   (orgId : OrgId) (serverInstanceId : ServerId) (reason : String)
  | playerListSync        (orgId : OrgId) (serverInstanceId : ServerId) (result : Option Json)
  | finishShopGrant       (payload : Payload) (runStatus : RunStatus) (output : Option String)
  | completeItemGrant     (payload : Payload) (runStatus : RunStatus) (output : String)

-- `schedulerQueue` holds the entries that the scheduler's queue knows, `schedulerActive` those of
-- them that the worker is processing, and `schedulerFinished` those that it has finished. The queue
-- library comes with the store, as no command replaces it.
structure Store where
  bullmq            : BullMQ               := .documented
  clock             : Time                 := 0
  orgs              : Table Org            := []
  userOrgs          : List UserOrg         := []
  hosts             : Table Host           := []
  serverInstances   : Table ServerInstance := []
  schedules         : Table Schedule       := []
  jobs              : Table Job            := []
  jobRuns           : Table JobRun         := []
  jobBatches        : Table JobBatch       := []
  queue             : List QueueEntry      := []
  schedulerQueue    : List ScheduleEntry   := []
  schedulerActive   : List ScheduleEntry   := []
  schedulerFinished : List ScheduleEntry   := []
  notices           : List Notice          := []

-- The data of an update. Fields that are not set keep their value, a counter is changed by a
-- difference.
structure RunData where
  status     : Option RunStatus := none
  startedAt  : Option Time      := none
  finishedAt : Option Time      := none
  result     : Option RunResult := none

def RunData.apply (d : RunData) (r : JobRun) : JobRun :=
  { r with
    status     := d.status.getD r.status
    startedAt  := d.startedAt.or r.startedAt
    finishedAt := d.finishedAt.or r.finishedAt
    result     := d.result.or r.result }

structure BatchData where
  status         : Option BatchStatus := none
  pendingCount   : Int                := 0
  runningCount   : Int                := 0
  successCount   : Int                := 0
  failedCount    : Int                := 0
  cancelledCount : Int                := 0
  completedAt    : Option Time        := none

def BatchData.apply (d : BatchData) (b : JobBatch) : JobBatch :=
  { b with
    status         := d.status.getD b.status
    pendingCount   := b.pendingCount + d.pendingCount
    runningCount   := b.runningCount + d.runningCount
    successCount   := b.successCount + d.successCount
    failedCount    := b.failedCount + d.failedCount
    cancelledCount := b.cancelledCount + d.cancelledCount
    completedAt    := d.completedAt.or b.completedAt }

structure ServerData where
  maintenanceMode : Option Bool := none
  rebootIfDown    : Option Bool := none

def ServerData.apply (d : ServerData) (i : ServerInstance) : ServerInstance :=
  { i with
    maintenanceMode := d.maintenanceMode.getD i.maintenanceMode
    rebootIfDown    := d.rebootIfDown.getD i.rebootIfDown }

structure ScheduleData where
  lastRunAt     : Option Time           := none
  nextRunAt     : Option Time           := none
  lastRunStatus : Option String         := none
  lastRunJobId  : Option (Option JobId) := none
  runCount      : Int                   := 0
  failureCount  : Int                   := 0
  clearSkip     : Bool                  := false

def ScheduleData.apply (d : ScheduleData) (s : Schedule) : Schedule :=
  { s with
    lastRunAt              := d.lastRunAt.or s.lastRunAt
    nextRunAt              := d.nextRunAt.or s.nextRunAt
    lastRunStatus          := d.lastRunStatus.or s.lastRunStatus
    lastRunJobId           := d.lastRunJobId.getD s.lastRunJobId
    runCount               := s.runCount + d.runCount
    failureCount           := s.failureCount + d.failureCount
    skipNextRun            := s.skipNextRun && !d.clearSkip
    skipNextRunReason      := if d.clearSkip then none else s.skipNextRunReason
    skipNextRunRequestedAt := if d.clearSkip then none else s.skipNextRunRequestedAt }

-- The data of an edit of a schedule. A new cron expression comes with its next run.
structure ScheduleEdit where
  name           : Option String                 := none
  cronExpression : Option (String × Option Time) := none
  jobType        : Option String                 := none
  payload        : Option Json                   := none
  enabled        : Option Bool                   := none

def ScheduleEdit.apply (d : ScheduleEdit) (s : Schedule) : Schedule :=
  { s with
    name           := d.name.getD s.name
    cronExpression := (d.cronExpression.map Prod.fst).getD s.cronExpression
    nextRunAt      := (d.cronExpression.map Prod.snd).getD s.nextRunAt
    jobType        := d.jobType.getD s.jobType
    payload        := d.payload.or s.payload
    enabled        := d.enabled.getD s.enabled }

namespace Store

def job? (s : Store) (id : JobId) : Option Job :=
  s.jobs[id]?

def run? (s : Store) (id : RunId) : Option JobRun :=
  s.jobRuns[id]?

def batch? (s : Store) (id : BatchId) : Option JobBatch :=
  s.jobBatches[id]?

def status? (s : Store) (id : RunId) : Option RunStatus :=
  (s.run? id).map JobRun.status

-- `include: { job: true }`
def runWithJob? (s : Store) (id : RunId) : Option (JobRun × Job) :=
  (s.run? id).bind fun r => (s.job? r.jobId).map (r, ·)

-- `jobRuns: { orderBy: { createdAt: 'desc' }, take: 1 }`
def latestRun? (s : Store) (id : JobId) : Option (RunId × JobRun) :=
  (s.jobRuns.entries.filter (·.2.jobId = id)).getLast?

-- The jobs of a batch, each with its latest run.
def batchJobs (s : Store) (id : BatchId) : List (JobId × Option (RunId × JobRun)) :=
  (s.jobs.entries.filter (·.2.batchId = some id)).map fun (j, _) => (j, s.latestRun? j)

-- The unfinished run of a schedule that a new fire must not stack upon.
def activeRun? (s : Store) (serverInstanceId : ServerId) (type : String) (scheduleId : ScheduleId) :
    Option (RunId × JobRun) :=
  s.jobRuns.entries.find? fun (_, r) =>
    (r.status = .pending || r.status = .running) &&
    (s.job? r.jobId).any fun j =>
      j.serverInstanceId = some serverInstanceId && j.type = type &&
      match (j.payload.bind (·.get? "schedule_id")) with
      | some (.str id) => id = toString scheduleId
      | _              => false

def entry? (s : Store) (orgId : OrgId) (id : RunId) : Option QueueEntry :=
  s.queue.find? fun e => e.orgId = orgId && e.data.jobRunId = id

def delayed? (s : Store) (orgId : OrgId) (id : RunId) : Option QueueEntry :=
  s.queue.find? fun e => e.orgId = orgId && e.data.jobRunId = id && 0 < e.delay

-- An entry of the scheduler's queue whose processing has not begun.
def Waiting (s : Store) (e : ScheduleEntry) : Prop :=
  e ∈ s.schedulerQueue ∧ e ∉ s.schedulerActive ∧ e ∉ s.schedulerFinished

instance {s : Store} {e : ScheduleEntry} : Decidable (s.Waiting e) :=
  inferInstanceAs (Decidable (_ ∧ _ ∧ _))

end Store

inductive Exception
  | notFound   (message : String)
  | badRequest (message : String)
  | forbidden  (message : String)
  | storage

inductive Cmd
  | now
  | findMember         (userId : UserId) (orgId : OrgId)
  | findServer         (id : ServerId) (orgId : OrgId)
  | findServers        (ids : List ServerId) (orgId : OrgId)
  | findHost           (id : HostId)
  | findJob            (id : JobId) (orgId : OrgId)
  | findRun            (id : RunId)
  | findRunning
  | findActiveRun      (serverInstanceId : ServerId) (type : String) (scheduleId : ScheduleId)
  | findBatch          (id : BatchId) (orgId : OrgId)
  | findBatchById      (id : BatchId)
  | findSchedule       (id : ScheduleId)
  | findOrgSchedule    (id : ScheduleId) (orgId : OrgId)
  | insertJob          (row : Job)
  | insertRun          (row : JobRun)
  | insertBatch        (row : JobBatch)
  | insertSchedule     (row : Schedule)
  | updateRun          (id : RunId) (data : RunData)
  | updateRunIfRunning (id : RunId) (data : RunData)
  | updateBatch        (id : BatchId) (data : BatchData)
  | updateServer       (id : ServerId) (data : ServerData)
  | updateSchedule     (id : ScheduleId) (data : ScheduleData)
  | editSchedule       (id : ScheduleId) (data : ScheduleEdit)
  | queueAdd           (orgId : OrgId) (data : QueueJobData)
  | queueJobs          (orgId : OrgId)
  | queueJob           (orgId : OrgId) (id : RunId)
  | queueChangeDelay   (orgId : OrgId) (id : RunId) (delay : Nat)
  | queueRemove        (orgId : OrgId) (id : RunId)
  | schedulerAdd       (id : ScheduleId) (due : Time)
  | schedulerRemove    (id : ScheduleId) (due : Time)
  | schedulerTake      (id : ScheduleId) (due : Time)
  | schedulerFinish    (id : ScheduleId) (due : Time)
  | notify             (notice : Notice)

@[reducible]
def Cmd.Ans : Cmd → Type
  | now              => Time
  | findMember ..    => Option UserOrg
  | findServer ..    => Option (ServerInstance × Option String)
  | findServers ..   => List (ServerId × ServerInstance)
  | findHost _       => Option Host
  | findJob ..       => Option (Job × Option (BatchId × JobBatch))
  | findRun _        => Option (JobRun × Job)
  | findRunning      => List (RunId × JobRun)
  | findActiveRun .. => Option (RunId × JobRun)
  | findBatch ..     => Option (JobBatch × List (JobId × Option (RunId × JobRun)))
  | findBatchById _  => Option JobBatch
  | findSchedule _   => Option (Schedule × ServerInstance)
  | findOrgSchedule .. => Option Schedule
  | insertJob _      => JobId
  | insertRun _      => RunId
  | insertBatch _    => BatchId
  | insertSchedule _ => ScheduleId
  | editSchedule ..  => Schedule
  | updateBatch ..   => JobBatch
  | queueJobs _      => List QueueEntry
  | queueJob ..      => Option QueueEntry
  | schedulerTake .. => Bool
  | _                => Unit

-- The answer to a command and its effect. An update of a missing row and a new schedule for a missing
-- server fail, an `updateMany` does not. The queue does not add an id twice, its library decides on the
-- rest. An entry of the scheduler's queue is not removed while it is processed.
def exec : (c : Cmd) → Store → Except Exception c.Ans × Store
  | .now, s => (.ok s.clock, s)
  | .findMember userId orgId, s =>
    (.ok (s.userOrgs.find? fun m => m.userId = userId && m.orgId = orgId), s)
  | .findServer id orgId, s =>
    (.ok do
      let i ← s.serverInstances[id]?
      if i.orgId = orgId then
        some (i, (s.orgs[i.orgId]?).bind Org.maintenancePasswordEncrypted)
      else none, s)
  | .findServers ids orgId, s =>
    (.ok (s.serverInstances.entries.filter fun (id, i) => ids.contains id && i.orgId = orgId), s)
  | .findHost id, s => (.ok s.hosts[id]?, s)
  | .findJob id orgId, s =>
    (.ok do
      let j ← s.job? id
      if j.orgId = orgId then
        some (j, j.batchId.bind fun b => (s.batch? b).map (b, ·))
      else none, s)
  | .findRun id, s => (.ok (s.runWithJob? id), s)
  | .findRunning, s => (.ok (s.jobRuns.entries.filter (·.2.status = .running)), s)
  | .findActiveRun serverInstanceId type scheduleId, s =>
    (.ok (s.activeRun? serverInstanceId type scheduleId), s)
  | .findBatch id orgId, s =>
    (.ok do
      let b ← s.batch? id
      if b.orgId = orgId then some (b, s.batchJobs id) else none, s)
  | .findBatchById id, s => (.ok (s.batch? id), s)
  | .findSchedule id, s =>
    (.ok do
      let schedule ← s.schedules[id]?
      let i ← s.serverInstances[schedule.serverInstanceId]?
      some (schedule, i), s)
  | .findOrgSchedule id orgId, s =>
    (.ok (s.schedules[id]?.filter fun schedule => decide (schedule.orgId = orgId)), s)
  | .insertJob row, s => (.ok s.jobs.length, { s with jobs := s.jobs ++ [row] })
  | .insertRun row, s => (.ok s.jobRuns.length, { s with jobRuns := s.jobRuns ++ [row] })
  | .insertBatch row, s => (.ok s.jobBatches.length, { s with jobBatches := s.jobBatches ++ [row] })
  | .insertSchedule row, s =>
    if s.serverInstances[row.serverInstanceId]?.isSome then
      (.ok s.schedules.length, { s with schedules := s.schedules ++ [row] })
    else (.error .storage, s)
  | .updateRun id data, s =>
    if (s.run? id).isSome then (.ok (), { s with jobRuns := s.jobRuns.modify id data.apply })
    else (.error .storage, s)
  | .updateRunIfRunning id data, s =>
    if s.status? id = some .running then
      (.ok (), { s with jobRuns := s.jobRuns.modify id data.apply })
    else (.ok (), s)
  | .updateBatch id data, s =>
    match s.batch? id with
    | some b => (.ok (data.apply b), { s with jobBatches := s.jobBatches.modify id data.apply })
    | none   => (.error .storage, s)
  | .updateServer id data, s =>
    if s.serverInstances[id]?.isSome then
      (.ok (), { s with serverInstances := s.serverInstances.modify id data.apply })
    else (.error .storage, s)
  | .updateSchedule id data, s =>
    if s.schedules[id]?.isSome then
      (.ok (), { s with schedules := s.schedules.modify id data.apply })
    else (.error .storage, s)
  | .editSchedule id data, s =>
    match s.schedules[id]? with
    | some schedule =>
      (.ok (data.apply schedule), { s with schedules := s.schedules.modify id data.apply })
    | none => (.error .storage, s)
  | .queueAdd orgId data, s =>
    if (s.entry? orgId data.jobRunId).isSome then (.ok (), s)
    else (.ok (), { s with queue := s.queue ++ [{ orgId, data }] })
  | .queueJobs orgId, s => (.ok (s.bullmq.getJobs (s.queue.filter (·.orgId = orgId))), s)
  | .queueJob orgId id, s => (.ok (s.entry? orgId id), s)
  | .queueChangeDelay orgId id delay, s =>
    if s.bullmq.changeDelay (s.delayed? orgId id) then
      (.ok (), { s with queue := s.queue.map fun e =>
        if e.orgId = orgId ∧ e.data.jobRunId = id then { e with delay } else e })
    else (.error .storage, s)
  | .queueRemove orgId id, s =>
    if s.bullmq.remove (s.entry? orgId id) then
      (.ok (), { s with queue := s.queue.filter fun e => !(e.orgId = orgId && e.data.jobRunId = id) })
    else (.error .storage, s)
  | .schedulerAdd id due, s =>
    if (id, due) ∈ s.schedulerQueue then (.ok (), s)
    else (.ok (), { s with schedulerQueue := s.schedulerQueue ++ [(id, due)] })
  | .schedulerRemove id due, s =>
    if (id, due) ∈ s.schedulerActive then (.ok (), s)
    else
      (.ok (), { s with
        schedulerQueue    := s.schedulerQueue.filter (· ≠ (id, due))
        schedulerFinished := s.schedulerFinished.filter (· ≠ (id, due)) })
  | .schedulerTake id due, s =>
    if s.Waiting (id, due) ∧ due ≤ s.clock then
      (.ok true, { s with schedulerActive := (id, due) :: s.schedulerActive })
    else (.ok false, s)
  | .schedulerFinish id due, s =>
    if (id, due) ∈ s.schedulerActive then
      (.ok (), { s with
        schedulerActive   := s.schedulerActive.filter (· ≠ (id, due))
        schedulerFinished := (id, due) :: s.schedulerFinished })
    else (.error .storage, s)
  | .notify notice, s => (.ok (), { s with notices := s.notices ++ [notice] })

-- The database and the queues of the control plane.
@[reducible]
def controlPlane : Backend Exception where
  State := Store
  Cmd   := Cmd
  Ans   := Cmd.Ans
  exec  := exec
  fault := .storage
  local? c := c matches .now

abbrev Service (α : Type) :=
  Prog controlPlane α

abbrev send (c : Cmd) : Service c.Ans :=
  Prog.perform (B := controlPlane) c

end Jobs
