import Mastermind.Jobs.Theorems.Footprint

open Effects Prog Batches Scheduler

namespace Jobs

namespace QueueEntry

-- The entry hands the given run of the given job over to the run's host.
def HandsOver (e : QueueEntry) (id : RunId) (run : JobRun) (job : Job) : Prop :=
  (e.orgId = job.orgId) ∧ e.data.jobRunId = id ∧ e.data.hostId = run.hostId

instance {e : QueueEntry} {id : RunId} {run : JobRun} {job : Job} : Decidable (e.HandsOver id run job) := by
  unfold HandsOver
  infer_instance

end QueueEntry

-- A pending run that no agent can get.
def Store.orphaned (s : Store) (id : RunId) : Bool :=
  (s.run? id).any fun run => run.status = .pending &&
    !((s.job? run.jobId).any fun job => s.queue.any fun e => e.HandsOver id run job)

-- Every pending run waits in the queue, with at most one exception. The entries of the queue belong
-- to runs of the same host, and the runs to jobs.
structure Store.Supplied (except : Option RunId) (s : Store) : Prop where
  waiting : ∀ id run, s.run? id = some run → run.status = .pending → except ≠ some id →
    ∃ job, (s.job? run.jobId = some job) ∧ ∃ e ∈ s.queue, e.HandsOver id run job
  hosts : ∀ e ∈ s.queue, ∃ run, (s.run? e.data.jobRunId = some run) ∧ run.hostId = e.data.hostId
  jobs  : ∀ id run, s.run? id = some run → ∃ job, s.job? run.jobId = some job

namespace Store.Supplied

variable {x : Option RunId} {s s' : Store} {id : RunId}

theorem not_orphaned (h : s.Supplied none) : s.orphaned id = false := by
  rw [Store.orphaned, Option.any_eq_false]
  intro run hr
  cases hp : decide (run.status = .pending)
  case false => rfl
  case true =>
    have ⟨job, hj, e, he, hh⟩ := h.waiting id run hr (of_decide_eq_true hp) nofun
    have hq : (s.queue.any fun e => e.HandsOver id run job) = true :=
      List.any_eq_true.mpr ⟨e, he, decide_eq_true hh⟩
    simp [hj, hq]

theorem of_empty (hr : s.jobRuns = []) (hq : s.queue = []) : s.Supplied none where
  waiting _ _ h := by simp [run?, hr] at h
  hosts _ h     := by simp [hq] at h
  jobs _ _ h    := by simp [run?, hr] at h

-- The exception is not needed for a run that is not pending.
theorem of_not_pending (h : s.Supplied (some id)) (hs : s.status? id ≠ some .pending) :
    s.Supplied none where
  hosts := h.hosts
  jobs  := h.jobs
  waiting id' run hr hp _ := by
    apply h.waiting id' run hr hp
    rintro ⟨⟩
    exact hs <| by simp [status?, hr, hp]

end Store.Supplied

-- A command that neither makes a run pending nor adds or takes queue entries.
def Cmd.Calm : Cmd → Prop
  | insertRun _ | queueAdd .. | queueRemove ..         => False
  | updateRun _ d | updateRunIfRunning _ d => d.status ≠ some .pending
  | _                                                  => True

namespace Cmd

variable {c : Cmd}

attribute [local simp] Calm

theorem Aside.calm (h : c.Aside) : c.Calm := by
  cases c <;> trivial

theorem Starts.calm (h : c.Starts) : c.Calm := by
  cases c
  case updateRun => simp [show _ = _ from h]
  all_goals trivial

theorem Progresses.calm (h : c.Progresses) : c.Calm := by
  cases c
  case updateRun => simp [show _ = _ from h]
  all_goals trivial

theorem Reports.calm (h : c.Reports) : c.Calm := by
  cases c
  case updateRun => obtain h | h | h := h <;> simp [h]
  all_goals trivial

theorem Sweeps.calm (h : c.Sweeps) : c.Calm := by
  cases c
  case updateRunIfRunning => simp [show _ = _ from h]
  all_goals trivial

end Cmd

section

variable {x : Option RunId} {s : Store} {c : Cmd}

-- A run after a calm command was there before, and it is pending only if it was pending before.
theorem Cmd.Calm.run? (h : c.Calm) {id : RunId} {run' : JobRun}
    (hr : (exec c s).2.run? id = some run') :
    ∃ run, (s.run? id = some run) ∧ run'.jobId = run.jobId ∧ run'.hostId = run.hostId ∧
      (run'.status = .pending → run.status = .pending) := by
  have hm {id' d} (hd : RunData.status d ≠ some .pending)
      (hr : (s.jobRuns.modify id' d.apply)[id]? = some run') :
      ∃ run, (s.run? id = some run) ∧ run'.jobId = run.jobId ∧ run'.hostId = run.hostId ∧
        (run'.status = .pending → run.status = .pending) := by
    rw [List.getElem?_modify] at hr
    cases hs : s.jobRuns[id]? <;> simp only [hs, Option.map_eq_map, Option.map_none, Option.map_some] at hr
    case none => cases hr
    case some run =>
      cases hr
      refine ⟨run, hs, by split <;> rfl, by split <;> rfl, ?_⟩
      split
      case isFalse => exact (·)
      case isTrue  =>
        cases hd' : d.status
        case none => simp [RunData.apply, hd']
        case some => intro hp; simp_all [RunData.apply]
  rw [Store.run?] at hr
  obtain hj | ⟨_, _, rfl, hj⟩ | ⟨_, _, rfl, _, hj⟩ | ⟨_, rfl, _⟩ := exec_jobRuns c s
  case inl         => rw [hj] at hr; exact ⟨run', hr, rfl, rfl, (·)⟩
  case inr.inl     => exact hm h (hj ▸ hr)
  case inr.inr.inl => exact hm h (hj ▸ hr)
  case inr.inr.inr => exact h.elim

-- A calm command keeps the entries of the queue, up to their delays.
theorem Cmd.Calm.queue (h : c.Calm) :
    (∀ e ∈ s.queue, ∃ e' ∈ (exec c s).2.queue, e'.orgId = e.orgId ∧ e'.data = e.data) ∧
    (∀ e' ∈ (exec c s).2.queue, ∃ e ∈ s.queue, e'.orgId = e.orgId ∧ e'.data = e.data) := by
  obtain hq | ⟨_, _, rfl, _⟩ | ⟨orgId, id, delay, _, hq⟩ | ⟨_, _, rfl, _⟩ := exec_queue c s
  case inl         => rw [hq]; exact ⟨fun e he => ⟨e, he, rfl, rfl⟩, fun e he => ⟨e, he, rfl, rfl⟩⟩
  case inr.inl     => exact h.elim
  case inr.inr.inr => exact h.elim
  case inr.inr.inl =>
    rw [hq]
    constructor
    case left =>
      intro e he
      exact ⟨_, List.mem_map_of_mem he, by split <;> rfl, by split <;> rfl⟩
    case right =>
      intro e' he'
      have ⟨e, he, heq⟩ := List.mem_map.mp he'
      exact ⟨e, he, by rw [← heq]; split <;> rfl, by rw [← heq]; split <;> rfl⟩

theorem Cmd.Calm.supplied (h : c.Calm) (hs : s.Supplied x) : (exec c s).2.Supplied x where
  waiting id run' hr hp hx := by
    have ⟨run, hr, hj, hh, hp'⟩ := h.run? hr
    have ⟨job, hjob, e, he, ho, hi, hd⟩ := hs.waiting id run hr (hp' hp) hx
    have ⟨e', he', ho', hd'⟩ := h.queue.left e he
    refine ⟨job, exec_job? (hj ▸ hjob), e', he', ?_⟩
    exact ⟨ho'.trans ho, hd' ▸ hi, hh ▸ hd' ▸ hd⟩
  hosts e' he' := by
    have ⟨e, he, _, hd⟩ := h.queue.right e' he'
    have ⟨run, hr, hh⟩ := hs.hosts e he
    have ⟨run', hr', _, hh'⟩ := exec_run?_of_some (c := c) hr
    exact ⟨run', hd ▸ hr', hd ▸ hh'.trans hh⟩
  jobs id run' hr := by
    have ⟨run, hr, hj, _⟩ := h.run? hr
    have ⟨job, hjob⟩ := hs.jobs id run hr
    exact ⟨job, exec_job? (hj ▸ hjob)⟩

end

section

variable {x : Option RunId} {s : Store} {id : RunId}

-- A new run is the one run that does not wait in the queue yet.
theorem Store.Supplied.insertRun {row : JobRun} {job : Job} (h : s.Supplied none)
    (hj : s.job? row.jobId = some job) :
    (exec (.insertRun row) s).2.Supplied (some s.jobRuns.length) where
  waiting id run hr hp hx := by
    have hl : id < s.jobRuns.length := by
      have hl := (List.getElem?_eq_some_iff.mp hr).choose
      simp only [exec, List.length_append, List.length_singleton] at hl
      exact Nat.lt_of_le_of_ne (Nat.le_of_lt_succ hl) fun hi => hx (hi ▸ rfl)
    rw [Store.run?, exec, List.getElem?_append_left hl] at hr
    exact h.waiting id run hr hp (by rintro ⟨⟩)
  jobs id run hr := by
    cases List.mem_append.mp (List.mem_of_getElem? hr)
    case inr hm => exact ⟨job, (List.mem_singleton.mp hm) ▸ hj⟩
    case inl hm =>
      obtain ⟨id, hr⟩ := List.mem_iff_getElem?.mp hm
      exact h.jobs id run hr
  hosts e he := by
    obtain ⟨run, hr, hh⟩ := h.hosts e he
    obtain ⟨run', hr', _, hh'⟩ := exec_run?_of_some (c := .insertRun row) hr
    exact ⟨run', hr', hh'.trans hh⟩

-- The run waits once its entry is added.
theorem Store.Supplied.queueAdd {job : Job} {data : QueueJobData} {run : JobRun}
    (h : s.Supplied (some data.jobRunId)) (hr : s.run? data.jobRunId = some run)
    (hj : s.job? run.jobId = some job) (hh : data.hostId = run.hostId) :
    (exec (.queueAdd job.orgId data) s).2.Supplied none := by
  have hw : ∃ e ∈ (exec (.queueAdd job.orgId data) s).2.queue, e.HandsOver data.jobRunId run job := by
    cases he : s.entry? job.orgId data.jobRunId
    case none =>
      refine ⟨QueueEntry.mk job.orgId data 0, by simp [exec, he], rfl, rfl, hh⟩
    case some e =>
      have hp := List.find?_some he
      have hm := List.mem_of_find?_eq_some he
      simp only [Bool.and_eq_true, decide_eq_true_eq] at hp
      obtain ⟨run', hr', hh'⟩ := h.hosts e hm
      rw [hp.right, hr] at hr'
      cases hr'
      exact ⟨e, by simpa [exec, he] using hm, hp.left, hp.right, hh'.symm⟩
  have hq : ∀ e ∈ s.queue, e ∈ (exec (.queueAdd job.orgId data) s).2.queue := by
    intro e he
    simp only [exec]
    split <;> simp [he]
  have hs : ∀ e ∈ (exec (.queueAdd job.orgId data) s).2.queue, e ∈ s.queue ∨ e.data = data := by
    intro e he
    simp only [exec] at he
    split at he
    case isTrue  => exact .inl he
    case isFalse =>
      cases List.mem_append.mp he
      case inl he => exact .inl he
      case inr he => exact .inr <| by rw [List.mem_singleton.mp he]
  have hruns : (exec (.queueAdd job.orgId data) s).2.jobRuns = s.jobRuns := by
    simp only [exec]
    split <;> rfl
  constructor
  case waiting =>
    intro id run' hr' hp _
    rw [Store.run?, hruns] at hr'
    by_cases hi : data.jobRunId = id
    case pos =>
      subst hi
      rw [Store.run?] at hr
      cases hr.symm.trans hr'
      exact ⟨job, exec_job? hj, hw⟩
    case neg =>
      obtain ⟨job', hj', e, he, he'⟩ := h.waiting id run' hr' hp (fun hx => hi (Option.some.inj hx))
      exact ⟨job', exec_job? hj', e, hq e he, he'⟩
  case hosts =>
    intro e he
    rw [Store.run?, hruns]
    cases hs e he
    case inl he => exact h.hosts e he
    case inr he => exact ⟨run, he ▸ hr, he ▸ hh.symm⟩
  case jobs =>
    intro id run hr
    rw [Store.run?, hruns] at hr
    obtain ⟨job, hj⟩ := h.jobs id run hr
    exact ⟨job, exec_job? hj⟩

-- The run whose entry is taken no longer waits.
theorem Store.Supplied.queueRemove (h : s.Supplied none) (orgId : OrgId) (id : RunId) :
    (exec (.queueRemove orgId id) s).2.Supplied (some id) := by
  have hruns : (exec (.queueRemove orgId id) s).2.jobRuns = s.jobRuns := by
    simp only [exec]
    split <;> rfl
  constructor
  case waiting =>
    intro id' run hr hp hx
    rw [Store.run?, hruns] at hr
    obtain ⟨job, hj, e, he, ho, hi, hh⟩ := h.waiting id' run hr hp (by rintro ⟨⟩)
    refine ⟨job, exec_job? hj, e, ?_, ho, hi, hh⟩
    have hn : id' ≠ id := fun hi => hx (hi ▸ rfl)
    simp only [exec]
    split
    case isTrue  => simp [he, hi, hn]
    case isFalse => exact he
  case hosts =>
    intro e he
    rw [Store.run?, hruns]
    apply h.hosts e
    simp only [exec] at he
    split at he
    case isTrue  => exact (List.mem_filter.mp he).left
    case isFalse => exact he
  case jobs =>
    intro id run hr
    rw [Store.run?, hruns] at hr
    obtain ⟨job, hj⟩ := h.jobs id run hr
    exact ⟨job, exec_job? hj⟩

end

-- The steps at which the failure of a request loses a run: the addition of a queue entry and, in a
-- poll, the read and the write of the run whose entry is taken.
def Request.critical (q : Request) : Cmd → Bool
  | .queueAdd ..                => true
  | .findRun _ | .updateRun ..  => q.isPoll
  | _                           => false

-- Any step of a request may fail or end the request, except for the critical steps.
def Request.tolerates (q : Request) : Disturbance controlPlane :=
  fun c _ => q.critical c = false

section

variable {deps : External} {D : Disturbance controlPlane} {α : Type} {s : Store} {x : Option RunId}

abbrev Keeps (D : Disturbance controlPlane) (x : Option RunId) (p : Service α) (s : Store) : Prop :=
  p.wp (under controlPlane D) (fun _ => Store.Supplied x) s

theorem keeps_of_only {p : Service α} {P : Cmd → Prop} (h : p.Only P) (hp : ∀ c, P c → c.Calm)
    (hs : s.Supplied x) : Keeps D x p s :=
  h.wp_under (fun _ _ hc hs => (hp _ hc).supplied hs) hs

theorem keeps_aside {p : Service α} (h : p.Only Cmd.Aside) (hs : s.Supplied x) : Keeps D x p s :=
  keeps_of_only h (fun _ => Cmd.Aside.calm) hs

theorem keeps_send {c : Cmd} (h : c.Calm) (hs : s.Supplied x) : Keeps D x (send c) s :=
  keeps_of_only (.perform h) (fun _ h => h) hs

-- A job and its run are inserted, but the entry of the run is still missing.
structure Inserted (job : Job) (hostId : HostId) (jobId : JobId) (runId : RunId) (s : Store) :
    Prop where
  supplied : s.Supplied (some runId)
  run      : s.run? runId = some { jobId, hostId, status := .pending }
  job      : s.job? jobId = some job

theorem wp_insert {job : Job} {hostId : HostId} {f : JobId → RunId → Service α}
    {Q : Result Exception α → Store → Prop} (hs : s.Supplied none)
    (hq : ∀ r s, s.Supplied none → Q r s)
    (hf : ∀ j r s, Inserted job hostId j r s → (f j r).wp (under controlPlane D) Q s) :
    Prog.wp (under controlPlane D) Q (do
      let jobId ← send (.insertJob job)
      let runId ← send (.insertRun { jobId, hostId, status := .pending })
      f jobId runId) s := by
  have h : (exec (.insertJob job) s).2.Supplied none := Cmd.Calm.supplied trivial hs
  refine wp_call_under.mpr ⟨?_, fun _ _ => hq _ _ hs, fun _ _ => hq _ _ hs⟩
  refine wp_call_under.mpr ⟨?_, fun _ _ => hq _ _ h, fun _ _ => hq _ _ h⟩
  have hj : (exec (.insertJob job) s).2.job? s.jobs.length = some job := by simp [Store.job?, exec]
  apply hf
  constructor
  case supplied => exact h.insertRun hj
  case run      => simp [Store.run?, exec]
  case job      => simp [Store.job?, exec]

theorem wp_queueAdd {job : Job} {hostId : HostId} {jobId : JobId} {runId : RunId}
    {data : QueueJobData} {f : Unit → Service α} {Q : Result Exception α → Store → Prop}
    (h : Inserted job hostId jobId runId s) (hi : data.jobRunId = runId) (hh : data.hostId = hostId)
    (hd : ∀ fate, ¬D (.queueAdd job.orgId data) fate)
    (hf : ∀ s, s.Supplied none → (f ()).wp (under controlPlane D) Q s) :
    (send (.queueAdd job.orgId data) >>= f).wp (under controlPlane D) Q s := by
  subst hi
  have hr : (exec (.queueAdd job.orgId data) s).1 = .ok () := by
    simp only [exec]
    split <;> rfl
  refine wp_call_under.mpr ⟨?_, fun _ h => absurd h (hd _), fun _ h => absurd h (hd _)⟩
  rw [show (controlPlane.exec (.queueAdd job.orgId data) s).1 = .ok () from hr]
  exact hf _ <| h.supplied.queueAdd h.run h.job hh

variable (hd : ∀ orgId data fate, ¬D (.queueAdd orgId data) fate) (hs : s.Supplied none)

include hd hs

theorem keeps_insertAndEnqueue {orgId : OrgId} {userId : Option UserId} {id : ServerId}
    {i : ServerInstance} {type : String} {payload : Payload} :
    Keeps D none (insertAndEnqueue orgId userId id i type payload) s := by
  apply wp_insert hs fun _ _ h => h
  intro j r s h
  exact wp_queueAdd h rfl rfl (hd _ _) fun _ h => h

theorem keeps_createJob {orgId : OrgId} {userId : UserId} {id : ServerId} {jobType : String}
    {payload : Option Payload} : Keeps D none (createJob deps orgId userId id jobType payload) s := by
  -- What the type is does not matter.
  rw [createJob]
  generalize normalizeJobType jobType = type
  refine wp_bind_keeps (keeps_send trivial hs) fun m s hs => ?_
  split
  case isTrue => exact hs
  case isFalse =>
    refine wp_bind_keeps (keeps_aside .ofExcept hs) fun payload s hs => ?_
    refine wp_bind_keeps (keeps_aside roleChecks_only hs) fun _ s hs => ?_
    refine wp_bind_keeps (keeps_aside memberChecks_only hs) fun _ s hs => ?_
    refine wp_bind_keeps (keeps_send trivial hs) fun found s hs => ?_
    cases found
    case none => exact hs
    case some =>
      dsimp only
      split
      case isFalse => exact keeps_insertAndEnqueue hd hs
      case isTrue  =>
        refine wp_bind_keeps (keeps_aside maintenancePayload_only.map hs) fun _ s hs => ?_
        exact keeps_insertAndEnqueue hd hs

theorem keeps_enqueueInternalJob {orgId : OrgId} {userId : Option UserId} {id : ServerId}
    {jobType : String} {payload : Option Payload} :
    Keeps D none (enqueueInternalJob orgId userId id jobType payload) s := by
  refine wp_bind_keeps (keeps_send trivial hs) fun found s hs => ?_
  cases found
  case none => exact hs
  case some => exact keeps_insertAndEnqueue hd hs

theorem keeps_createBatchJobs {orgId : OrgId} {userId : Option UserId} {dto : CreateBatchDto}
    {batchId : BatchId} {jobType : String} {instances : List (ServerId × ServerInstance)} :
    Keeps D none (createBatchJobs orgId userId dto batchId jobType instances) s := by
  induction instances generalizing s
  case nil => exact hs
  case cons hi =>
    apply wp_insert hs fun _ _ h => h
    intro j r s h
    refine wp_queueAdd h rfl rfl (hd _ _) fun s hs => ?_
    exact wp_bind_keeps (keeps_send trivial hs) fun _ s hs => hi hs

theorem keeps_createBatch {orgId : OrgId} {userId : Option UserId} {dto : CreateBatchDto} :
    Keeps D none (createBatch orgId userId dto) s := by
  refine wp_bind_keeps (keeps_send trivial hs) fun instances s hs => ?_
  split
  case isTrue => exact hs
  case isFalse =>
    refine wp_bind_keeps (keeps_send trivial hs) fun batchId s hs => ?_
    refine wp_bind_keeps (keeps_createBatchJobs hd hs) fun _ s hs => ?_
    exact wp_bind_keeps (keeps_send trivial hs) fun _ s hs => hs

theorem keeps_createRun {id : ScheduleId} {schedule : Schedule} {i : ServerInstance} {type : String}
    {payload : Payload} : Keeps D none (createRun deps id schedule i type payload) s := by
  apply wp_handle.mpr
  apply wp_insert hs
  case hq => intro r s hs; cases r <;> exact hs
  case hf =>
    intro j r s h
    apply wp_handle.mpr
    refine wp_queueAdd h rfl rfl (hd _ _) fun s hs => ?_
    have h : Keeps D none (do
        let nextRun := deps.computeNextRun schedule (← send .now)
        let now ← send .now
        updateNext id {
          lastRunAt := now, lastRunStatus := "success", lastRunJobId := some (some j)
          runCount := 1 } nextRun
        addNext id nextRun
        return (.ok () : Except (Option JobId) Unit)) s := by
      refine wp_bind_keeps (keeps_send trivial hs) fun _ s hs => ?_
      refine wp_bind_keeps (keeps_send trivial hs) fun _ s hs => ?_
      refine wp_bind_keeps (keeps_aside updateNext_only hs) fun _ s hs => ?_
      exact wp_bind_keeps (keeps_aside addNext_only hs) fun _ s hs => hs
    apply wp_mono h
    intro r s hs
    cases r <;> exact hs

theorem keeps_fire {id : ScheduleId} : Keeps D none (Scheduler.fire deps id) s := by
  refine wp_handle_keeps (wp_bind_keeps (keeps_send trivial hs) fun found s hs => ?_) fun _ s hs => ?_
  case refine_2 => exact keeps_send trivial hs
  case refine_1 =>
    match found with
    | none               => exact hs
    | some (schedule, i) =>
      dsimp only
      split
      case isTrue  => exact hs
      case isFalse =>
        split
        case isTrue  => exact keeps_aside skipFire_only hs
        case isFalse =>
          refine wp_bind_keeps (keeps_send trivial hs) fun active s hs => ?_
          cases active
          case some => exact keeps_aside skipFire_only hs
          case none =>
            refine wp_bind_keeps (keeps_createRun hd hs) fun created s hs => ?_
            cases created
            case ok    => exact hs
            case error =>
              refine wp_bind_keeps (keeps_send trivial hs) fun _ s hs => ?_
              refine wp_bind_keeps (keeps_send trivial hs) fun _ s hs => ?_
              refine wp_bind_keeps (keeps_aside updateNext_only hs) fun _ s hs => ?_
              exact wp_bind_keeps (keeps_aside addNext_only hs) fun _ s hs => hs

omit hd

-- The entry of a run that is not pending may be removed.
theorem keeps_removeEntry {orgId : OrgId} {id : RunId} (hp : s.status? id ≠ some .pending) :
    Keeps D none (removeEntry orgId id) s := by
  have hx : exec (.queueJob orgId id) s = (.ok (s.entry? orgId id), s) := rfl
  refine wp_handle_keeps (wp_step hx ?_ fun _ _ _ => ⟨hs, hs⟩) fun _ s hs => hs
  split
  case h_2 => exact hs
  case h_1 =>
    refine wp_perform_under.mpr ⟨?_, fun _ _ => hs, fun _ _ => hs⟩
    have h : (exec (.queueRemove orgId id) s).2.Supplied none := by
      apply (hs.queueRemove orgId id).of_not_pending
      simp only [exec]
      split <;> exact hp
    rw [ansPost.eq_def]
    split <;> exact h

theorem keeps_cancelRuns {orgId : OrgId} {jobs : List (JobId × Option (RunId × JobRun))} {n : Int} :
    Keeps D none (cancelRuns orgId jobs n) s := by
  induction jobs generalizing s n
  case nil => exact hs
  case cons job jobs hi =>
    match job with
    | (_, none)           => exact hi hs
    | (_, some (id, run)) =>
      rw [cancelRuns]
      split
      case isTrue => exact hi hs
      case isFalse =>
        refine wp_bind_keeps (keeps_send trivial hs) fun now s hs => ?_
        let data : RunData := { status := some .cancelled, finishedAt := some now }
        have hu : (exec (.updateRun id data) s).2.Supplied none := Cmd.Calm.supplied nofun hs
        cases hr : s.run? id
        case none =>
          refine wp_call_under.mpr ⟨?_, fun _ _ => hs, fun _ _ => hs⟩
          simp only [exec, hr]
          exact hs
        case some =>
          have hx : exec (.updateRun id data) s = (.ok (), (exec (.updateRun id data) s).2) := by
            simp [exec, hr]
          refine wp_step hx ?_ fun _ _ _ => ⟨hs, hs⟩
          have hp : (exec (.updateRun id data) s).2.status? id ≠ some .pending := by
            rw [Store.run?] at hr
            simp [exec, Store.status?, Store.run?, hr, RunData.apply, data]
          exact wp_bind_keeps (keeps_removeEntry hu hp) fun _ s hs => hi hs

theorem keeps_cancelBatch {orgId : OrgId} {batchId : BatchId} :
    Keeps D none (cancelBatch orgId batchId) s := by
  refine wp_bind_keeps (keeps_send trivial hs) fun found s hs => ?_
  match found with
  | none               => exact hs
  | some (batch, jobs) =>
    dsimp only
    split
    case isTrue => exact hs
    case isFalse =>
      refine wp_bind_keeps (keeps_cancelRuns hs) fun _ s hs => ?_
      refine wp_bind_keeps (keeps_send trivial hs) fun _ s hs => ?_
      refine wp_bind_keeps (keeps_send trivial hs) fun _ s hs => ?_
      refine wp_bind_keeps (keeps_send trivial hs) fun _ s hs => ?_
      exact wp_bind_keeps (keeps_send trivial hs) fun _ s hs => hs

end

section

variable {D : Disturbance controlPlane} {s : Store} {hostId : HostId} {waiting : List QueueEntry}
  {runs : Table JobRun}

-- What holds after an attempt to claim an entry. The run of a claimed entry no longer waits.
def ClaimedFrom (hostId : HostId) (waiting : List QueueEntry) (runs : Table JobRun) :
    Result Exception (Option QueueJobData) → Store → Prop
  | .ok (some data), s => (s.Supplied (some data.jobRunId)) ∧ s.jobRuns = runs ∧
    ∃ e ∈ waiting, e.data = data ∧ data.hostId = hostId
  | _, s => s.Supplied none ∧ s.jobRuns = runs

theorem wp_claimEntry {orgId : OrgId} {entry : QueueEntry} (hs : s.Supplied none)
    (hr : s.jobRuns = runs) (hm : entry ∈ waiting) (hh : entry.data.hostId = hostId) :
    (claimEntry orgId entry).wp (under controlPlane D) (ClaimedFrom hostId waiting runs) s := by
  let Q := handlePost (under controlPlane D) (ClaimedFrom hostId waiting runs) fun _ => return none
  have hc : ∀ s, s.Supplied none → s.jobRuns = runs → wp (under controlPlane D) Q
      (do send (.queueRemove orgId entry.data.jobRunId); return some entry.data) s := by
    intro s hs hr
    have hd := hs.queueRemove orgId entry.data.jobRunId
    cases he : s.bullmq.remove (s.entry? orgId entry.data.jobRunId)
    case false =>
      refine wp_call_under.mpr ⟨?_, fun _ _ => ⟨hs, hr⟩, fun _ _ => ⟨hs, hr⟩⟩
      simp only [exec, he]
      exact ⟨hs, hr⟩
    case true =>
      simp only [exec, he, if_true] at hd
      refine wp_call_under.mpr ⟨?_, fun _ _ => ⟨hs, hr⟩, fun _ _ => ⟨hs, hr⟩⟩
      simp only [exec, he, if_true]
      exact ⟨hd, hr, entry, hm, rfl, hh⟩
  apply wp_handle.mpr
  split
  case isFalse => exact hc s hs hr
  case isTrue  =>
    have hd := Cmd.Calm.supplied (c := .queueChangeDelay orgId entry.data.jobRunId 0) trivial hs
    refine wp_call_under.mpr ⟨?_, fun _ _ => ⟨hs, hr⟩, fun _ _ => ⟨hs, hr⟩⟩
    cases he : s.bullmq.changeDelay (s.delayed? orgId entry.data.jobRunId) <;>
      simp only [exec, he, if_true] at hd ⊢
    case false => exact ⟨hs, hr⟩
    case true  => exact hc _ hd hr

theorem wp_claimFirst {orgId : OrgId} {busy : Bool} {entries : List QueueEntry}
    (hs : s.Supplied none) (hr : s.jobRuns = runs) (hm : ∀ e ∈ entries, e ∈ waiting) :
    (claimFirst orgId hostId busy entries).wp (under controlPlane D)
      (ClaimedFrom hostId waiting runs) s := by
  induction entries generalizing s
  case nil => exact ⟨hs, hr⟩
  case cons entry entries hi =>
    have hm' := fun e he => hm e (List.mem_cons_of_mem _ he)
    rw [claimFirst]
    split
    case isTrue      => exact hi hs hr hm'
    case isFalse hne =>
      split
      case isTrue  => exact hi hs hr hm'
      case isFalse =>
        apply wp_bind.mpr
        apply wp_mono <| wp_claimEntry hs hr (hm _ List.mem_cons_self) (not_not.mp hne)
        intro r s h
        match r with
        | .ok (some data) => exact h
        | .ok none        => exact hi h.left h.right hm'
        | .error _        => exact h
        | .ended          => exact h

variable (hf : ∀ id fate, ¬D (.findRun id) fate) (hu : ∀ id data fate, ¬D (.updateRun id data) fate)

include hf hu

-- The run of a claimed entry is started, unless it is no longer pending.
theorem keeps_markJobRunStarted {id : RunId} (hs : s.Supplied (some id))
    (hh : ∀ run, s.run? id = some run → run.hostId = hostId) :
    Keeps D none (markJobRunStarted hostId id) s := by
  have hx : exec (.findRun id) s = (.ok (s.runWithJob? id), s) := rfl
  refine wp_step hx ?_ fun _ _ h => absurd h (hf _ _)
  cases hr : s.run? id
  case none =>
    simp only [Store.runWithJob?, hr, Option.bind_none]
    exact hs.of_not_pending <| by simp [Store.status?, hr]
  case some run =>
    obtain ⟨job, hj⟩ := hs.jobs id run hr
    simp only [Store.runWithJob?, hr, hj, Option.bind_some, Option.map_some]
    rw [if_neg (not_not.mpr <| hh run hr)]
    split
    case isTrue hp => exact hs.of_not_pending <| by simpa [Store.status?, hr] using hp
    case isFalse =>
      refine wp_step (rfl : exec .now s = (.ok s.clock, s)) ?_ fun _ h => by cases h
      let data : RunData := { status := some .running, startedAt := some s.clock }
      have hx : exec (.updateRun id data) s = (.ok (), (exec (.updateRun id data) s).2) := by
        simp [exec, hr]
      refine wp_step hx ?_ fun _ _ h => absurd h (hu _ _ _)
      have hd : (exec (.updateRun id data) s).2.Supplied none := by
        have hc : (Cmd.updateRun id data).Calm := by rintro ⟨⟩
        apply (hc.supplied hs).of_not_pending
        rw [Store.run?] at hr
        simp [exec, Store.status?, Store.run?, hr, RunData.apply, data]
      split
      case isFalse => exact hd
      case isTrue  =>
        exact keeps_of_only recordJobRunStarted_only (fun _ h => h.starts.calm) hd

theorem keeps_pollRounds {orgId : OrgId} {busy : Bool} {deadline : Time} {rounds : Nat}
    (hs : s.Supplied none) : Keeps D none (pollRounds orgId hostId busy deadline rounds) s := by
  induction rounds generalizing s
  case zero => exact hs
  case succ rounds hi =>
    let waiting := s.bullmq.getJobs (s.queue.filter (·.orgId = orgId))
    have hx : exec (.queueJobs orgId) s = (.ok waiting, s) := rfl
    apply wp_bind.mpr
    refine wp_step hx ?_ fun _ _ _ => ⟨hs, hs⟩
    apply wp_mono (wp_claimFirst hs rfl fun _ h => h)
    intro r s' h
    match r with
    | .error _        => exact h.left
    | .ended          => exact h.left
    | .ok none        =>
      refine wp_step (rfl : exec .now s' = (.ok s'.clock, s')) ?_ fun _ h => nomatch h
      split
      case isTrue  => exact h.left
      case isFalse => exact hi h.left
    | .ok (some data) =>
      have ⟨hs', hr, e, he, hd, hh⟩ := h
      refine wp_bind_keeps (keeps_markJobRunStarted hf hu hs' ?_) fun _ _ h => h
      intro run hrun
      have he' : e ∈ s.queue := List.mem_of_mem_filter (s.bullmq.getJobs_sub _ he)
      have ⟨run', hrun', hh'⟩ := hs.hosts e he'
      rw [Store.run?, hr, ← Store.run?, ← hd, hrun'] at hrun
      cases hrun
      rw [hh', hd, hh]

theorem keeps_poll {waitMs : Nat} {busy : Bool} (hs : s.Supplied none) :
    Keeps D none (poll hostId waitMs busy) s := by
  refine wp_bind_keeps (keeps_send trivial hs) fun host s hs => ?_
  cases host
  case none => exact hs
  case some =>
    exact wp_bind_keeps (keeps_send trivial hs) fun _ s hs => keeps_pollRounds hf hu hs

end

-- A request that fails at no critical step keeps all pending runs waiting.
theorem Request.serve_supplied {deps : External} {s : Store} (q : Request) (hs : s.Supplied none) :
    Keeps q.tolerates none (q.serve deps) s := by
  have ha orgId data fate : ¬q.tolerates (.queueAdd orgId data) fate := by simp [tolerates, critical]
  cases q
  case createJob          => exact wp_bind_keeps (keeps_createJob ha hs) fun _ _ h => h
  case enqueueInternalJob => exact wp_bind_keeps (keeps_enqueueInternalJob ha hs) fun _ _ h => h
  case createBatch        => exact wp_bind_keeps (keeps_createBatch ha hs) fun _ _ h => h
  case cancelBatch        => exact wp_bind_keeps (keeps_cancelBatch hs) fun _ _ h => h
  case fire               => exact wp_bind_keeps (keeps_fire ha hs) fun _ _ h => h
  case poll =>
    apply keeps_poll
    case hf => simp [tolerates, critical, isPoll]
    case hu => simp [tolerates, critical, isPoll]
    case hs => exact hs
  case markJobRunStarted    => exact keeps_of_only (serve_only _) (fun _ => Cmd.Starts.calm) hs
  case reportJobResult      => exact keeps_of_only (serve_only _) (fun _ => Cmd.Reports.calm) hs
  case reportJobProgress    => exact keeps_of_only (serve_only _) (fun _ => Cmd.Progresses.calm) hs
  case failStaleRunningJobs => exact keeps_of_only (serve_only _) (fun _ => Cmd.Sweeps.calm) hs

-- No request of a run fails or ends at a critical step.
def FailsUncritically (deps : External) (s : Store) : Op → Prop
  | .serve q fates => Run.Within q.tolerates ((q.serve deps).run fates s)
  | .elapse _      => True

instance {deps : External} {s : Store} {op : Op} : Decidable (FailsUncritically deps s op) :=
  match op with
  | .serve .. => by dsimp only [FailsUncritically, Run.Within, Request.tolerates]; infer_instance
  | .elapse _ => inferInstanceAs (Decidable True)

theorem next_supplied {deps : External} {s : Store} {op : Op} (hs : s.Supplied none)
    (hc : FailsUncritically deps s op) : ((sequential deps).next s op).Supplied none := by
  cases op
  case serve q fates => exact wp_run (q.serve_supplied hs) hc
  case elapse ms =>
    constructor
    case waiting => exact hs.waiting
    case hosts   => exact hs.hosts
    case jobs    => exact hs.jobs

-- No pending run is ever lost if no request fails at a critical step.
theorem no_orphans {deps : External} {s : Store} {ops : List Op} (hr : s.jobRuns = [])
    (hq : s.queue = []) (hm : (sequential deps).Meets (FailsUncritically deps) s ops) (id : RunId) :
    ((sequential deps).run s ops).orphaned id = false :=
  Store.Supplied.not_orphaned <|
    System.invariant (fun _ _ => next_supplied) (Store.Supplied.of_empty hr hq) hm

-- A job is created, a poll fails to take its entry, and a user's job cannot be inserted.
def harmlessFailures : List Op :=
  [.serve (.enqueueInternalJob 0 none 0 "restart" none) [],
    .serve (.poll 0 0 false) [.served, .served, .failed],
    .serve (.createJob 0 0 0 "stop" none) [.served, .served, .ended]]

theorem no_orphans_harmlessFailures :
    ((sequential .sample).run .sample harmlessFailures).orphaned 0 = false :=
  no_orphans rfl rfl (by decide +kernel) 0

-- The entry of the queue cannot be added after the job and its run have been inserted.
def failedQueueAdd : List Op :=
  [.serve (.createJob 0 0 0 "restart" none) [.served, .served, .served, .served, .failed]]

theorem orphaned_failedQueueAdd :
    ((sequential .sample).run .sample failedQueueAdd).orphaned 0 = true := by
  decide +kernel

end Jobs
