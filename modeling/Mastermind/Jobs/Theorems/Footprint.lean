import Mastermind.Jobs.Requests
import Mastermind.Jobs.Theorems.Store

open Effects Js Prog Batches Scheduler

namespace Jobs

namespace Cmd

-- A command that leaves jobs, runs, batches and the queue alone.
def Aside : Cmd → Prop
  | insertJob _ | insertRun _ | insertBatch _ | updateRun .. | updateRunIfRunning ..
  | updateBatch .. | queueAdd .. | queueChangeDelay .. | queueRemove .. => False
  | _ => True

-- The commands that create jobs.
def Creates : Cmd → Prop
  | insertJob _ | insertBatch _ | queueAdd .. => True
  | insertRun row => row.status = .pending
  | c => c.Aside

-- The commands that count a started run in its batch.
def Counts : Cmd → Prop
  | updateBatch _ d => d.status = none ∧ d.completedAt = none
  | findJob .. | findBatchById _ | notify _ => True
  | _ => False

-- The commands that count a completed run in its batch.
def Completes : Cmd → Prop
  | now | findJob .. | updateBatch .. | notify _ => True
  | _ => False

-- The commands that remove the entry of a run.
def Removes : Cmd → Prop
  | queueJob .. | queueRemove .. => True
  | _ => False

-- The commands that start runs.
def Starts : Cmd → Prop
  | updateRun _ d   => d.status = some .running
  | updateBatch _ d => d.status = none ∧ d.completedAt = none
  | c => c.Aside

-- The commands that claim waiting entries.
def Claims : Cmd → Prop
  | queueChangeDelay .. | queueRemove .. => True
  | c => c.Aside

-- The commands that hand waiting runs over to an agent.
def HandsOver : Cmd → Prop
  | queueChangeDelay .. | queueRemove .. => True
  | c => c.Starts

-- The commands that report the progress of runs.
def Progresses : Cmd → Prop
  | updateRun _ d => d.status = none
  | c => c.Aside

-- The commands that report the results of runs.
def Reports : Cmd → Prop
  | updateRun _ d  => d.status = none ∨ d.status = some .success ∨ d.status = some .failed
  | updateBatch .. => True
  | c => c.Aside

-- The commands that release stale runs.
def Sweeps : Cmd → Prop
  | updateRunIfRunning _ d => d.status = some .failed
  | c => c.Aside

-- The commands that cancel runs.
def CancelsRuns : Cmd → Prop
  | updateRun _ d => d.status = some .cancelled
  | queueRemove .. => True
  | c => c.Aside

-- The commands that cancel a batch.
def Cancels : Cmd → Prop
  | updateBatch .. => True
  | c => c.CancelsRuns

theorem Aside.creates {c : Cmd} (h : c.Aside) : c.Creates := by
  cases c <;> first | exact h | exact h.elim

theorem Aside.starts {c : Cmd} (h : c.Aside) : c.Starts := by
  cases c <;> first | exact h | exact h.elim

theorem Aside.reports {c : Cmd} (h : c.Aside) : c.Reports := by
  cases c <;> first | exact h | exact h.elim

theorem CancelsRuns.cancels {c : Cmd} (h : c.CancelsRuns) : c.Cancels := by
  cases c <;> first | exact h | exact h.elim

theorem Counts.starts {c : Cmd} (h : c.Counts) : c.Starts := by
  cases c <;> first | exact h | exact h.elim

theorem Completes.reports {c : Cmd} (h : c.Completes) : c.Reports := by
  cases c <;> first | exact h | exact h.elim

theorem Removes.cancelsRuns {c : Cmd} (h : c.Removes) : c.CancelsRuns := by
  cases c <;> first | exact h | exact h.elim

theorem Claims.handsOver {c : Cmd} (h : c.Claims) : c.HandsOver := by
  cases c <;> first | exact h | exact h.elim

theorem Starts.handsOver {c : Cmd} (h : c.Starts) : c.HandsOver := by
  cases c <;> first | exact h | exact h.elim

end Cmd

-- What a request is allowed to do to the store.
def Request.footprint : Request → Cmd → Prop
  | createJob .. | enqueueInternalJob .. | createBatch .. | fire _ => Cmd.Creates
  | cancelBatch ..                                                 => Cmd.Cancels
  | poll ..                                                        => Cmd.HandsOver
  | markJobRunStarted ..                                           => Cmd.Starts
  | reportJobResult ..                                             => Cmd.Reports
  | reportJobProgress ..                                           => Cmd.Progresses
  | failStaleRunningJobs                                           => Cmd.Sweeps

def Request.isPoll : Request → Bool
  | poll .. => true
  | _       => false

theorem Request.isPoll_iff {q : Request} :
    q.isPoll = true ↔ ∃ hostId waitMs busy, q = .poll hostId waitMs busy := by
  cases q <;> simp [isPoll]

variable {deps : External}

theorem requireRole_only {m : Option UserOrg} {roles : List String} {msg : String} :
    (requireRole m roles msg).Only Cmd.Aside :=
  .ite .pure .throw

theorem roleChecks_only {orgId : OrgId} {userId : UserId} {type : String} :
    (roleChecks orgId userId type).Only Cmd.Aside := by
  have h roles msg : (do requireRole (← send (.findMember userId orgId)) roles msg).Only Cmd.Aside :=
    .bind (.perform trivial) fun _ => requireRole_only
  exact .ite (h ..) <| .ite (h ..) <| .ite (h ..) <| .ite (h ..) .pure

theorem memberChecks_only {m : Option UserOrg} {type : String} :
    (memberChecks m type).Only Cmd.Aside :=
  .ite requireRole_only <| .ite requireRole_only <| .ite requireRole_only .pure

theorem maintenancePayload_only {id : ServerId} {encrypted : Option String}
    {payload : Option Payload} : (maintenancePayload deps id encrypted payload).Only Cmd.Aside := by
  refine .ite ?_ .pure
  split
  case h_1 => exact .throw
  case h_2 =>
    split
    case h_1 => exact .throw
    case h_2 => exact .bind (.perform trivial) fun _ => .pure

theorem insertAndEnqueue_only {orgId : OrgId} {userId : Option UserId} {id : ServerId}
    {i : ServerInstance} {type : String} {payload : Payload} :
    (insertAndEnqueue orgId userId id i type payload).Only Cmd.Creates := by
  refine .bind (.perform trivial) fun _ => ?_
  refine .bind (.perform rfl) fun _ => ?_
  exact .bind (.perform trivial) fun _ => .pure

theorem createJob_only {orgId : OrgId} {userId : UserId} {id : ServerId} {jobType : String}
    {payload : Option Payload} :
    (createJob deps orgId userId id jobType payload).Only Cmd.Creates := by
  -- What the type is does not matter.
  rw [createJob]
  generalize normalizeJobType jobType = type
  refine .bind (.perform trivial) fun m => .ite .throw ?_
  refine .bind .ofExcept fun payload => ?_
  refine .bind (roleChecks_only.mono fun _ => Cmd.Aside.creates) fun _ => ?_
  refine .bind (memberChecks_only.mono fun _ => Cmd.Aside.creates) fun _ => ?_
  refine .bind (.perform trivial) fun found => ?_
  cases found
  case none => exact .throw
  case some =>
    refine .ite (.bind (.map ?_) fun _ => insertAndEnqueue_only) ?_
    case refine_1 => exact maintenancePayload_only.mono fun _ => Cmd.Aside.creates
    case refine_2 => exact .bind .pure fun _ => insertAndEnqueue_only

theorem enqueueInternalJob_only {orgId : OrgId} {userId : Option UserId} {id : ServerId}
    {jobType : String} {payload : Option Payload} :
    (enqueueInternalJob orgId userId id jobType payload).Only Cmd.Creates := by
  refine .bind (.perform trivial) fun found => ?_
  cases found
  case none => exact .throw
  case some => exact insertAndEnqueue_only

theorem createBatchJobs_only {orgId : OrgId} {userId : Option UserId} {dto : CreateBatchDto}
    {batchId : BatchId} {jobType : String} {instances : List (ServerId × ServerInstance)} :
    (createBatchJobs orgId userId dto batchId jobType instances).Only Cmd.Creates := by
  induction instances
  case nil => exact .pure
  case cons hi =>
    refine .bind (.perform trivial) fun _ => ?_
    refine .bind (.perform rfl) fun _ => ?_
    refine .bind (.perform trivial) fun _ => ?_
    exact .bind (.perform trivial) fun _ => hi

theorem createBatch_only {orgId : OrgId} {userId : Option UserId} {dto : CreateBatchDto} :
    (createBatch orgId userId dto).Only Cmd.Creates := by
  refine .bind (.perform trivial) fun instances => .ite .throw ?_
  refine .bind (.perform trivial) fun _ => ?_
  refine .bind createBatchJobs_only fun _ => ?_
  exact .bind (.perform trivial) fun _ => .pure

theorem updateNext_only {id : ScheduleId} {data : ScheduleData} {nextRun : Option Date} :
    (updateNext id data nextRun).Only Cmd.Aside := by
  obtain _ | _ | _ := nextRun
  case none         => exact .perform trivial
  case some.invalid => exact .throw
  case some.valid   => exact .perform trivial

theorem addNext_only {id : ScheduleId} {nextRun : Option Date} :
    (addNext id nextRun).Only Cmd.Aside := by
  obtain _ | _ | _ := nextRun
  case none         => exact .pure
  case some.invalid => exact .pure
  case some.valid   => exact .perform trivial

theorem skipFire_only {id : ScheduleId} {schedule : Schedule} {status : String} {b : Bool} :
    (skipFire deps id schedule status b).Only Cmd.Aside := by
  refine .bind (.perform trivial) fun _ => ?_
  refine .bind (.perform trivial) fun _ => ?_
  exact .bind updateNext_only fun _ => addNext_only

theorem createRun_only {id : ScheduleId} {schedule : Schedule} {i : ServerInstance} {type : String}
    {payload : Payload} : (createRun deps id schedule i type payload).Only Cmd.Creates := by
  refine .handle ?_ fun _ => .pure
  refine .bind (.perform trivial) fun _ => ?_
  refine .bind (.perform rfl) fun _ => ?_
  refine .handle ?_ fun _ => .pure
  refine .bind (.perform trivial) fun _ => ?_
  refine .bind (.perform trivial) fun _ => ?_
  refine .bind (.perform trivial) fun _ => ?_
  refine .bind (updateNext_only.mono fun _ => Cmd.Aside.creates) fun _ => ?_
  exact .bind (addNext_only.mono fun _ => Cmd.Aside.creates) fun _ => .pure

theorem processScheduleFire_only {id : ScheduleId} :
    (processScheduleFire deps id).Only Cmd.Creates := by
  refine .bind (.perform trivial) fun found => ?_
  cases found
  case none => exact .pure
  case some found =>
    have ⟨schedule, i⟩ := found
    have hs {status b} : (skipFire deps id schedule status b).Only Cmd.Creates :=
      skipFire_only.mono fun _ => Cmd.Aside.creates
    refine .ite .pure <| .ite hs <| .bind (.perform trivial) fun active => ?_
    cases active
    case some => exact hs
    case none =>
      refine .bind createRun_only fun created => ?_
      cases created
      case ok => exact .pure
      case error =>
        refine .bind (.perform trivial) fun _ => ?_
        refine .bind (.perform trivial) fun _ => ?_
        refine .bind (updateNext_only.mono fun _ => Cmd.Aside.creates) fun _ => ?_
        exact .bind (addNext_only.mono fun _ => Cmd.Aside.creates) fun _ => .throw

theorem fire_only {id : ScheduleId} : (Scheduler.fire deps id).Only Cmd.Creates :=
  .handle processScheduleFire_only fun _ => .perform trivial

theorem recordJobRunStarted_only {orgId : OrgId} {jobId : JobId} :
    (recordJobRunStarted orgId jobId).Only Cmd.Counts := by
  refine .bind (.perform trivial) fun found => ?_
  split
  case h_2 => exact .pure
  case h_1 =>
    refine .bind (.perform ⟨rfl, rfl⟩) fun _ => ?_
    refine .bind (.perform trivial) fun updated => ?_
    cases updated
    case none => exact .pure
    case some => exact .perform trivial

theorem recordJobRunCompleted_only {orgId : OrgId} {jobId : JobId} {st st' : RunStatus} :
    (recordJobRunCompleted orgId jobId st st').Only Cmd.Completes := by
  refine .bind (.perform trivial) fun found => ?_
  split
  case h_2 => exact .pure
  case h_1 =>
    refine .bind (.perform trivial) fun _ => .ite ?_ (.perform trivial)
    refine .bind (.perform trivial) fun _ => ?_
    exact .bind (.perform trivial) fun _ => .perform trivial

theorem markJobRunStarted_only {hostId : HostId} {id : RunId} :
    (markJobRunStarted hostId id).Only Cmd.Starts := by
  refine .bind (.perform trivial) fun found => ?_
  cases found
  case none => exact .pure
  case some =>
    refine .ite .pure <| .ite .pure ?_
    refine .bind (.perform trivial) fun _ => ?_
    refine .bind (.perform rfl) fun _ => .ite ?_ .pure
    exact recordJobRunStarted_only.mono fun _ => Cmd.Counts.starts

theorem followUp_only {job : Job} {st : RunStatus} {dto : ReportResultDto} :
    (followUp job st dto).Only Cmd.Aside := by
  unfold followUp
  refine .ite ?upload <| .ite ?maintenance <| .ite ?restart <| .ite ?players <| .ite ?shop ?trigger
  case upload =>
    split
    case h_1 => exact .ite (.handle (.perform trivial) fun _ => .pure) .pure
    case h_2 => exact .pure
  case maintenance =>
    split
    case h_1 => exact .pure
    case h_2 => exact .ite (.perform trivial) (.perform trivial)
  case restart =>
    split
    case h_1 => exact .perform trivial
    case h_2 => exact .pure
  case players =>
    split
    case h_1 => exact .pure
    case h_2 => exact .perform trivial
  case shop =>
    split
    case h_1 => exact .perform trivial
    case h_2 => exact .pure
  case trigger => exact .ite (.handle (.perform trivial) fun _ => .pure) .pure

theorem reportJobResult_only {hostId : HostId} {id : RunId} {dto : ReportResultDto} :
    (reportJobResult deps hostId id dto).Only Cmd.Reports := by
  refine .bind (.perform trivial) fun found => ?_
  cases found
  case none => exact .throw
  case some =>
    refine .bind .ofExcept fun _ => ?_
    refine .bind (.perform trivial) fun _ => ?_
    refine .bind (.perform ?_) fun _ => ?_
    case refine_1 => simp only [Cmd.Reports, reportData]; split <;> simp
    case refine_2 =>
      refine .bind (followUp_only.mono fun _ => Cmd.Aside.reports) fun _ => ?_
      exact .ite (recordJobRunCompleted_only.mono fun _ => Cmd.Completes.reports) .pure

theorem reportJobProgress_only {hostId : HostId} {id : RunId} {phase : String}
    {message : Option String} : (reportJobProgress hostId id phase message).Only Cmd.Progresses := by
  refine .bind (.perform trivial) fun found => ?_
  cases found
  case none => exact .throw
  case some =>
    refine .bind .ofExcept fun _ => ?_
    exact .bind (.perform trivial) fun _ => .perform rfl

theorem failStale_only {cutoff : Int} {runs : List (RunId × JobRun)} :
    (failStale cutoff runs).Only Cmd.Sweeps := by
  induction runs
  case nil => exact .pure
  case cons hi =>
    refine .ite hi ?_
    refine .bind (.perform trivial) fun _ => ?_
    exact .bind (.perform rfl) fun _ => hi

theorem failStaleRunningJobs_only : failStaleRunningJobs.Only Cmd.Sweeps := by
  refine .bind (.perform trivial) fun _ => ?_
  exact .bind (.perform trivial) fun _ => failStale_only

theorem removeEntry_only {orgId : OrgId} {id : RunId} :
    (removeEntry orgId id).Only Cmd.Removes := by
  refine .handle (.bind (.perform trivial) fun found => ?_) fun _ => .pure
  cases found
  case none => exact .pure
  case some => exact .perform trivial

theorem cancelRuns_only {orgId : OrgId} {jobs : List (JobId × Option (RunId × JobRun))} {n : Int} :
    (cancelRuns orgId jobs n).Only Cmd.CancelsRuns := by
  induction jobs generalizing n
  case nil => exact .pure
  case cons job jobs hi =>
    have ⟨_, latest⟩ := job
    cases latest
    case none => exact hi
    case some =>
      refine .ite hi ?_
      refine .bind (.perform trivial) fun _ => ?_
      refine .bind (.perform rfl) fun _ => ?_
      exact .bind (removeEntry_only.mono fun _ => Cmd.Removes.cancelsRuns) fun _ => hi

theorem cancelBatch_only {orgId : OrgId} {batchId : BatchId} :
    (cancelBatch orgId batchId).Only Cmd.Cancels := by
  refine .bind (.perform trivial) fun found => ?_
  cases found
  case none => exact .throw
  case some =>
    refine .ite .throw <| .bind (cancelRuns_only.mono fun _ => Cmd.CancelsRuns.cancels) fun _ => ?_
    refine .bind (.perform trivial) fun _ => ?_
    refine .bind (.perform trivial) fun _ => ?_
    refine .bind (.perform trivial) fun _ => ?_
    exact .bind (.perform trivial) fun _ => .pure

theorem claimEntry_only {orgId : OrgId} {entry : QueueEntry} :
    (claimEntry orgId entry).Only Cmd.Claims := by
  refine .handle ?_ fun _ => .pure
  have h : (do send (.queueRemove orgId entry.data.jobRunId); return some entry.data).Only
      Cmd.Claims := .bind (.perform trivial) fun _ => .pure
  exact .ite (.bind (.perform trivial) fun _ => h) h

theorem claimFirst_only {orgId : OrgId} {hostId : HostId} {busy : Bool} {waiting : List QueueEntry} :
    (claimFirst orgId hostId busy waiting).Only Cmd.Claims := by
  induction waiting
  case nil => exact .pure
  case cons hi =>
    refine .ite hi <| .ite hi <| .bind claimEntry_only fun claimed => ?_
    cases claimed
    case none => exact hi
    case some => exact .pure

theorem getNextJobForHost_only {orgId : OrgId} {hostId : HostId} {busy : Bool} :
    (getNextJobForHost orgId hostId busy).Only Cmd.Claims :=
  .bind (.perform trivial) fun _ => claimFirst_only

theorem pollRounds_only {orgId : OrgId} {hostId : HostId} {busy : Bool} {deadline : Time}
    {rounds : Nat} : (pollRounds orgId hostId busy deadline rounds).Only Cmd.HandsOver := by
  induction rounds
  case zero => exact .pure
  case succ hi =>
    refine .bind (getNextJobForHost_only.mono fun _ => Cmd.Claims.handsOver) fun claimed => ?_
    cases claimed
    case none => exact .bind (.perform trivial) fun _ => .ite .pure hi
    case some => exact .bind (markJobRunStarted_only.mono fun _ => Cmd.Starts.handsOver) fun _ => .pure

theorem poll_only {hostId : HostId} {waitMs : Nat} {busy : Bool} :
    (poll hostId waitMs busy).Only Cmd.HandsOver := by
  refine .bind (.perform trivial) fun host => ?_
  cases host
  case none => exact .pure
  case some => exact .bind (.perform trivial) fun _ => pollRounds_only

-- The commands of a request stay within its footprint, whatever they are answered.
theorem Request.serve_only (q : Request) : (q.serve deps).Only q.footprint := by
  cases q
  case createJob            => exact .bind createJob_only fun _ => .pure
  case enqueueInternalJob   => exact .bind enqueueInternalJob_only fun _ => .pure
  case createBatch          => exact .bind createBatch_only fun _ => .pure
  case cancelBatch          => exact .bind cancelBatch_only fun _ => .pure
  case fire                 => exact .bind fire_only fun _ => .pure
  case poll                 => exact poll_only
  case markJobRunStarted    => exact .bind markJobRunStarted_only fun _ => .pure
  case reportJobResult      => exact .bind reportJobResult_only fun _ => .pure
  case reportJobProgress    => exact .bind reportJobProgress_only fun _ => .pure
  case failStaleRunningJobs => exact .bind failStaleRunningJobs_only fun _ => .pure

namespace Request

variable {q : Request} {id : RunId} {d : RunData} {row : JobRun}

-- New runs are pending.
theorem footprint_insertRun (h : q.footprint (.insertRun row)) : row.status = .pending := by
  cases q <;> first | exact h | exact h.elim

-- Only the cancellation of a batch cancels runs.
theorem footprint_cancelled (h : q.footprint (.updateRun id d)) (hd : d.status = some .cancelled) :
    ∃ orgId batchId, q = .cancelBatch orgId batchId := by
  cases q
  case cancelBatch orgId batchId => exact ⟨orgId, batchId, rfl⟩
  case poll              => cases hd.symm.trans h
  case markJobRunStarted => cases hd.symm.trans h
  case reportJobProgress => cases hd.symm.trans h
  case reportJobResult   => obtain h | h | h := h <;> cases hd.symm.trans h
  all_goals exact h.elim

theorem footprint_updateRunIfRunning (h : q.footprint (.updateRunIfRunning id d)) :
    d.status = some .failed := by
  cases q <;> first | exact h | exact h.elim

end Request

end Jobs
