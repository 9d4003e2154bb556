import Mastermind.Jobs.Requests
import Mastermind.Scheduler.Cron

open Effects Js Jobs

namespace Scheduler

variable (z : Zone) (deps : External)

-- The scheduler computes the next runs on the clocks of a time zone.
def inZone : External :=
  { deps with computeNextRun := computeNextRun z }

structure CreateSchedule where
  name             : String
  serverInstanceId : ServerId
  cronExpression   : String
  jobType          : String
  payload          : Option Json := none
  enabled          : Option Bool := none

structure UpdateSchedule where
  enabled        : Option Bool   := none
  name           : Option String := none
  cronExpression : Option String := none
  jobType        : Option String := none
  payload        : Option Json   := none

-- Enqueues the next fire of a schedule that is enabled.
def enqueue (scheduleId : ScheduleId) (schedule : Schedule) : Service Unit :=
  if schedule.enabled then addNext scheduleId (schedule.nextRunAt.map .valid) else return

def createSchedule (orgId : OrgId) (data : CreateSchedule) : Service (ScheduleId × Schedule) := do
  match getNextCronRun z data.cronExpression (← send .now) with
  | none => .throw (.badRequest ("Invalid cron expression: " ++ data.cronExpression))
  | some nextRunAt => do
    let schedule : Schedule := {
      orgId, serverInstanceId := data.serverInstanceId, name := data.name
      cronExpression := data.cronExpression, jobType := data.jobType, payload := data.payload
      enabled := data.enabled.getD true, nextRunAt := some nextRunAt }
    let scheduleId ← send (.insertSchedule schedule)
    enqueue scheduleId schedule
    return (scheduleId, schedule)

-- What an edit stores for a new cron expression. With an empty one the next run stays.
def editedRun (existing : Schedule) : Option String → Service (Option (String × Option Time))
  | none    => return none
  | some "" => return some ("", existing.nextRunAt)
  | some cronExpression => do
    match getNextCronRun z cronExpression (← send .now) with
    | none           => .throw (.badRequest ("Invalid cron expression: " ++ cronExpression))
    | some nextRunAt => return some (cronExpression, some nextRunAt)

-- Removes the fire that an edit has replaced.
def removeFire (scheduleId : ScheduleId) (existing : Schedule) : Service Unit :=
  match existing.nextRunAt with
  | some due => (send (.schedulerRemove scheduleId due)).handle fun _ => return
  | none     => return

def updateSchedule (orgId : OrgId) (scheduleId : ScheduleId) (data : UpdateSchedule) :
    Service Schedule := do
  match ← send (.findOrgSchedule scheduleId orgId) with
  | none => .throw (.notFound "Schedule not found")
  | some existing => do
    let cronExpression ← editedRun z existing data.cronExpression
    let updated ← send (.editSchedule scheduleId {
      name := data.name, cronExpression, jobType := data.jobType, payload := data.payload
      enabled := data.enabled })
    removeFire scheduleId existing
    enqueue scheduleId updated
    return updated

-- The worker of the scheduler's queue, which takes entries that are due.
def work (scheduleId : ScheduleId) (due : Time) : Service Unit := do
  if ← send (.schedulerTake scheduleId due) then
    fire (inZone z deps) scheduleId
    send (.schedulerFinish scheduleId due)

-- What happens to one schedule: its entries become due and it is edited.
inductive Request
  | fire   (due : Time)
  | update (data : UpdateSchedule)

def Request.serve (orgId : OrgId) (scheduleId : ScheduleId) : Request → Service Unit
  | fire due    => work z deps scheduleId due
  | update data => do let _ ← updateSchedule z orgId scheduleId data

-- The fires and edits of a schedule, while time passes.
@[reducible]
def interleaved (orgId : OrgId) (scheduleId : ScheduleId) : System :=
  Pool.system (Request.serve z deps orgId scheduleId) Store.elapse

end Scheduler
