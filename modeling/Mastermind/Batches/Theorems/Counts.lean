import Mastermind.Batches.Theorems.Ledger

open Effects Prog Jobs

namespace Batches

-- A command that has no effect on jobs, runs and batches.
def OffLedger : Cmd → Prop
  | .insertJob _ | .insertRun _ | .insertBatch _ | .updateRun .. | .updateRunIfRunning ..
  | .updateBatch .. => False
  | _ => True

-- The assertion holds when an undisturbed program returns.
abbrev Undisturbed {α : Type} (I : Store → Prop) (p : Service α) (s : Store) : Prop :=
  p.wp (under controlPlane .none) (onOk I) s

variable {deps : External} {s : Store} {x : BatchId} {d : BatchData} {S : JobBatch → Prop} {c : Cmd}
  {α : Type}

theorem exec_offLedger (h : OffLedger c) : ((exec c s).2.jobs = s.jobs) ∧
    ((exec c s).2.jobRuns = s.jobRuns) ∧ (exec c s).2.jobBatches = s.jobBatches := by
  cases c
  all_goals
    first
    | exact h.elim
    | exact ⟨rfl, rfl, rfl⟩
    | rw [exec]; split <;> exact ⟨rfl, rfl, rfl⟩

theorem Consistent.wp_offLedger {p : Service α} (h : Consistent s) (hp : p.Only OffLedger) :
    Undisturbed Consistent p s := by
  refine wp_onOk <| hp.wp_under ?_ h
  intro s c hc h
  have ⟨hj, hr, hb⟩ := exec_offLedger (s := s) hc
  exact h.congr hj hr hb

theorem Ledger.wp_offLedger {p : Service α} (h : Ledger x d S s) (hp : p.Only OffLedger) :
    Undisturbed (Ledger x d S) p s := by
  refine wp_onOk <| hp.wp_under ?_ h
  intro s c hc h
  have ⟨hj, hr, hb⟩ := exec_offLedger (s := s) hc
  exact h.congr hj hr hb

theorem offLedger_of_aside (h : c.Aside) : OffLedger c := by
  cases c <;> trivial

-- The batch has been running until now, unless it is cancelled.
def Open (b : JobBatch) : Prop :=
  b.status = .running ∨ b.status = .cancelled

theorem Consistent.open_of_run {runId : RunId} {run : JobRun} {b : JobBatch} (h : Consistent s)
    (hb : s.batch? x = some b) (hr : s.run? runId = some run) (hi : s.inBatch x run)
    (hs : run.status = .pending ∨ run.status = .running) : Open b :=
  (h.exact x b hb).status_of_unfinished ⟨run, List.mem_of_getElem? hr, hi, hs⟩

theorem Ledger.consistent_of_open (h : Ledger x {} Open s) (hu : s.Unfinished x) : Consistent s := by
  apply h.consistent
  intro b _ ho hne
  exact iff_of_true (ho.resolve_right hne) hu

theorem Ledger.wp_recordJobRunStarted {jobId : JobId} {job : Job}
    (h : Ledger x { pendingCount := -1, runningCount := 1 } Open s) (hj : s.job? jobId = some job)
    (hb : job.batchId = some x) (hu : s.Unfinished x) :
    Undisturbed Consistent (recordJobRunStarted job.orgId jobId) s := by
  have ⟨b, hx, _, _⟩ := h.batch
  refine wp_step (exec_findJob hj) ?_ fun _ _ h => h.elim
  simp only [hb, Option.bind_some, hx, Option.map_some]
  refine wp_step (exec_updateBatch hx _) ?_ fun _ _ h => h.elim
  have hc := (h.updateBatch (by rfl) fun b hs => hs).consistent_of_open hu
  apply hc.wp_offLedger
  refine .bind (.perform trivial) fun found => ?_
  cases found
  case none => exact .pure
  case some => exact .perform trivial

theorem Consistent.wp_markJobRunStarted {hostId : HostId} {runId : RunId} (h : Consistent s) :
    Undisturbed Consistent (markJobRunStarted hostId runId) s := by
  have hx : exec (.findRun runId) s = (.ok (s.runWithJob? runId), s) := rfl
  refine wp_step hx ?_ fun _ _ h => h.elim
  cases hf : s.runWithJob? runId
  case none => exact h
  case some found =>
    obtain ⟨run, job⟩ := found
    obtain ⟨hr, hj⟩ := runWithJob?_eq_some.mp hf
    dsimp only
    split
    case isTrue => exact h
    case isFalse =>
      split
      case isTrue => exact h
      case isFalse hp =>
        have hp := not_not.mp hp
        refine wp_step (rfl : exec .now s = (.ok s.clock, s)) ?_ fun _ _ h => h.elim
        let data : RunData := { status := some .running, startedAt := some s.clock }
        refine wp_step (exec_updateRun hr data) ?_ fun _ _ h => h.elim
        cases hb : job.batchId
        case none =>
          apply h.updateRun hr
          case hi => intro id; simp [Store.inBatch, hj, hb]
          case hd => rfl
        case some x =>
          obtain ⟨b, hx⟩ := h.linked.batches job (List.mem_of_getElem? hj) x hb
          have hi : s.inBatch x run = true := by simp [Store.inBatch, hj, hb]
          have hl := h.ledger hx (h.open_of_run hx hr hi (.inl hp))
          have hm : data.apply run ∈ s.jobRuns.modify runId data.apply :=
            List.mem_of_getElem? <| by rw [List.getElem?_modify_eq, ← Store.run?, hr]; rfl
          refine Ledger.wp_recordJobRunStarted (hl.updateRun hr hi rfl ?_) hj hb ?_
          case refine_1 => intro st; cases st <;> simp [hp, BatchData.count]
          case refine_2 => exact ⟨data.apply run, hm, hi, .inr rfl⟩

theorem Ledger.wp_recordJobRunCompleted {jobId : JobId} {job : Job} {st : RunStatus}
    (h : Ledger x (completionData st .running) Open s) (hst : st = .success ∨ st = .failed)
    (hj : s.job? jobId = some job) (hb : job.batchId = some x) :
    Undisturbed Consistent (recordJobRunCompleted job.orgId jobId st .running) s := by
  obtain ⟨b, hx, _, _⟩ := h.batch
  refine wp_step (exec_findJob hj) ?_ fun _ _ h => h.elim
  simp only [hb, Option.bind_some, hx, Option.map_some]
  refine wp_step (exec_updateBatch hx _) ?_ fun _ _ h => h.elim
  have hz : (completionData st .running).pendingCount + (completionData st .running).runningCount +
      (completionData st .running).successCount + (completionData st .running).failedCount +
      (completionData st .running).cancelledCount = 0 := by
    obtain rfl | rfl := hst <;> rfl
  let s₁ : Store := { s with jobBatches := s.jobBatches.modify x (completionData st .running).apply }
  have hl : Ledger x {} Open s₁ := h.updateBatch hz fun b hs => hs
  obtain ⟨updated, hu, hc, _⟩ := hl.batch
  have hu' : updated = (completionData st .running).apply b := by
    rw [Store.batch?] at hx
    simpa [s₁, Store.batch?, hx, eq_comm] using hu
  have hp : updated.pendingCount = s₁.runCount x .pending := hc.count .pending
  have hr : updated.runningCount = s₁.runCount x .running := hc.count .running
  rw [← hu']
  split
  case isFalse hn =>
    have hun : s₁.Unfinished x := Store.unfinished_iff.mpr (by omega)
    exact (hl.consistent_of_open hun).wp_offLedger (.perform trivial)
  case isTrue hn =>
    refine wp_step rfl ?_ fun _ _ h => h.elim
    refine wp_step (exec_updateBatch hu _) ?_ fun _ _ h => h.elim
    have hun : ¬s₁.Unfinished x := fun hun => by
      have := Store.unfinished_iff.mp hun
      omega
    let status : BatchStatus := if updated.failedCount > 0 then .completedWithFailures else .completed
    let data : BatchData := { status := some status, completedAt := some s.clock }
    have hd : Ledger x data Open _ := hl.of_count fun st => by cases st <;> rfl
    have hd : Ledger x {} (·.status = status) _ := hd.updateBatch rfl fun b hs => rfl
    have hf : Consistent _ := hd.consistent fun b _ hb _ => by
      refine iff_of_false ?_ hun
      rw [hb]
      simp only [status]
      split <;> rintro ⟨⟩
    exact hf.wp_offLedger (.perform trivial)

theorem Ledger.wp_followUp {jobId : JobId} {job : Job} {st : RunStatus} {dto : ReportResultDto}
    (h : Ledger x d S s) (hj : s.job? jobId = some job) :
    Undisturbed (fun s => Ledger x d S s ∧ s.job? jobId = some job) (followUp job st dto) s := by
  refine wp_onOk <| followUp_only.wp_under ?_ ⟨h, hj⟩
  intro s c hc ⟨h, hj⟩
  have ⟨hj', hr, hb⟩ := exec_offLedger (s := s) (offLedger_of_aside hc)
  exact ⟨h.congr hj' hr hb, exec_job? hj⟩

theorem Consistent.wp_reportJobResult {hostId : HostId} {runId : RunId} {dto : ReportResultDto}
    (h : Consistent s) : Undisturbed Consistent (reportJobResult deps hostId runId dto) s := by
  have hx : exec (.findRun runId) s = (.ok (s.runWithJob? runId), s) := rfl
  refine wp_step hx ?_ fun _ _ h => h.elim
  cases hf : s.runWithJob? runId
  case none => trivial
  case some found =>
    obtain ⟨run, job⟩ := found
    obtain ⟨hr, hj⟩ := runWithJob?_eq_some.mp hf
    apply wp_bind.mpr
    apply wp_ofExcept.mpr
    cases hc : checkReported hostId run
    case error => trivial
    case ok =>
      obtain ⟨_, hp⟩ := checkReported_eq_ok hc
      let st : RunStatus := if dto.status = "success" then .success else .failed
      have hst : st = .success ∨ st = .failed := by simp only [st]; split <;> simp
      let data := reportData deps job st dto s.clock
      refine wp_step (rfl : exec .now s = (.ok s.clock, s)) ?_ fun _ _ h => h.elim
      refine wp_step (exec_updateRun hr data) ?_ fun _ _ h => h.elim
      cases hb : job.batchId
      case none =>
        have hi id : s.inBatch id run = false := by simp [Store.inBatch, hj, hb]
        have hc : Consistent _ := h.updateRun hr hi (show data.status = some st from rfl)
        apply hc.wp_offLedger
        exact .bind (followUp_only.mono fun _ => offLedger_of_aside) fun _ => .pure
      case some x =>
        obtain ⟨b, hx⟩ := h.linked.batches job (List.mem_of_getElem? hj) x hb
        have hi : s.inBatch x run = true := by simp [Store.inBatch, hj, hb]
        have hl := h.ledger hx (h.open_of_run hx hr hi (.inr hp))
        have hc st' : (completionData st .running).count st' = ({} : BatchData).count st' +
            (if st = st' then 1 else 0) - (if run.status = st' then 1 else 0) := by
          obtain hst | hst := hst <;> cases st' <;> simp [hst, hp, BatchData.count, completionData]
        have hd : data.status = some st := rfl
        have hl : Ledger x (completionData st .running) Open _ := hl.updateRun hr hi hd hc
        refine wp_bind_ok (hl.wp_followUp hj) fun _ s hl => ?_
        obtain ⟨hl, hj⟩ := hl
        rw [if_pos (by simp)]
        exact hl.wp_recordJobRunCompleted hst hj hb

-- The stale runs are not part of a batch.
theorem Consistent.wp_failStale {cutoff : Int} {runs : List (RunId × JobRun)} (h : Consistent s)
    (hn : ∀ e ∈ runs, (heartbeat e.2 : Int) < cutoff →
      ∀ run, s.run? e.1 = some run → ∀ id, s.inBatch id run = false) :
    Undisturbed Consistent (failStale cutoff runs) s := by
  induction runs generalizing s
  case nil => exact h
  case cons e runs hi =>
    obtain ⟨runId, run⟩ := e
    have hn' := fun e he => hn e (List.mem_cons_of_mem _ he)
    rw [failStale]
    split
    case isTrue     => exact hi h hn'
    case isFalse hc =>
      refine wp_step (rfl : exec .now s = (.ok s.clock, s)) ?_ fun _ _ h => h.elim
      let data : RunData := {
        status := some .failed, finishedAt := some s.clock
        result := some { run.result.getD {} with
          errorMessage :=
            "Agent stopped reporting progress; job released as stale. Retry if still needed."
          recoveredAt := s.clock } }
      by_cases hs : s.status? runId = some .running
      case neg =>
        have hx : exec (.updateRunIfRunning runId data) s = (.ok (), s) := by simp [exec, hs]
        exact wp_step hx (hi h hn') fun _ _ h => h.elim
      case pos =>
        obtain ⟨run', hr, _⟩ := Option.map_eq_some_iff.mp hs
        have hx : exec (.updateRunIfRunning runId data) s =
            (.ok (), { s with jobRuns := s.jobRuns.modify runId data.apply }) := by
          simp [exec, hs]
        refine wp_step hx (hi ?_ ?_) fun _ _ h => h.elim
        case refine_1 =>
          have hb := hn _ List.mem_cons_self (Int.not_le.mp hc) run' hr
          exact h.updateRun hr hb (show data.status = some .failed from rfl)
        case refine_2 =>
          intro e he hh r hr id
          rw [Store.run?, List.getElem?_modify] at hr
          obtain ⟨r', hr', he'⟩ := Option.map_eq_some_iff.mp hr
          have hb := hn' e he hh r' hr' id
          rw [← he']
          split
          case isTrue  => exact hb
          case isFalse => exact hb

-- No run of a batch is running without a sign of life in the last three minutes.
def staleInBatch (s : Store) : Bool :=
  s.jobRuns.any fun run =>
    run.status = .running && (heartbeat run : Int) < s.clock - 3 * 60000 &&
    (s.job? run.jobId).any (·.batchId.isSome)

theorem Consistent.wp_failStaleRunningJobs (h : Consistent s) (hn : staleInBatch s = false) :
    Undisturbed Consistent failStaleRunningJobs s := by
  refine wp_step (rfl : exec .now s = (.ok s.clock, s)) ?_ fun _ _ h => h.elim
  refine wp_step (rfl : exec .findRunning s = (.ok _, s)) ?_ fun _ _ h => h.elim
  apply h.wp_failStale
  intro ⟨runId, run⟩ he hh run' hr id
  have ⟨hm, hs⟩ := List.mem_filter.mp he
  cases (Table.mem_entries.mp hm).symm.trans hr
  have hn := (List.any_eq_false.mp hn) run (List.mem_of_getElem? hr)
  have ⟨job, hj⟩ := h.linked.jobs run (List.mem_of_getElem? hr)
  have hs : run.status = .running := of_decide_eq_true hs
  have hh : (heartbeat run : Int) < s.clock - 3 * 60000 := hh
  simp only [Store.inBatch, hj, Option.any_some, decide_eq_false_iff_not]
  intro hb
  simp [hs, hj, hb] at hn
  omega

-- The loop of `createBatch`. The batch has counted the runs of the remaining servers already.
theorem Ledger.wp_createBatchJobs {orgId : OrgId} {userId : Option UserId} {dto : CreateBatchDto}
    {jobType : String} {instances : List (ServerId × ServerInstance)}
    (h : Ledger x { pendingCount := -instances.length } S s) :
    Undisturbed (Ledger x {} S) (createBatchJobs orgId userId dto x jobType instances) s := by
  induction instances generalizing s
  case nil => exact h
  case cons i instances hi =>
    let job : Job := {
      orgId, batchId := some x, serverInstanceId := some i.1, type := jobType
      payload := dto.payload, createdById := userId }
    let row : JobRun := { jobId := s.jobs.length, hostId := i.2.hostId, status := .pending }
    let s₁ : Store := { s with jobs := s.jobs ++ [job] }
    let s₂ : Store := { s₁ with jobRuns := s.jobRuns ++ [row] }
    have h₁ : Ledger x _ S s₁ := h.insertJob rfl
    have h₂ : Ledger x { pendingCount := -instances.length } S s₂ := by
      have hj : s₁.job? row.jobId = some job := by simp [s₁, row, Store.job?]
      apply h₁.insertRun hj
      case hb => rfl
      case hc => intro st; cases st <;> simp [BatchData.count, row]
    have hx₁ : exec (.insertJob job) s = (.ok s.jobs.length, s₁) := rfl
    have hx₂ : exec (.insertRun row) s₁ = (.ok s.jobRuns.length, s₂) := rfl
    refine wp_step hx₁ (wp_step hx₂ ?_ fun _ _ h => h.elim) fun _ _ h => h.elim
    refine wp_bind_ok (h₂.wp_offLedger (.perform trivial)) fun _ s h => ?_
    exact wp_bind_ok (h.wp_offLedger (.perform trivial)) fun _ s h => hi h

theorem Consistent.wp_createBatch {orgId : OrgId} {userId : Option UserId} {dto : CreateBatchDto}
    (h : Consistent s) : Undisturbed Consistent (createBatch orgId userId dto) s := by
  refine wp_step (rfl : exec (.findServers dto.serverInstanceIds orgId) s = (.ok _, s)) ?_
    fun _ _ h => h.elim
  split
  case isTrue      => trivial
  case isFalse hne =>
    have hl := not_not.mp hne
    generalize s.serverInstances.entries.filter _ = instances at hl ⊢
    have hp : 0 < instances.length := hl ▸ List.length_pos_iff.mpr dto.nonempty
    let batch : JobBatch := {
      orgId, type := dto.type, status := .running, totalCount := instances.length
      pendingCount := instances.length, runningCount := 0, successCount := 0, failedCount := 0
      cancelledCount := 0, createdById := userId }
    have hb : Ledger s.jobBatches.length { pendingCount := -instances.length }
        (fun b => b.status = .running ∧ b.pendingCount = instances.length)
        { s with jobBatches := s.jobBatches ++ [batch] } := by
      apply h.insertBatch
      case hc => intro st; cases st <;> simp [batch, JobBatch.count, BatchData.count]
      case ht => simp [batch]
      case hs => exact ⟨rfl, rfl⟩
    refine wp_step (rfl : exec (.insertBatch batch) s = (.ok s.jobBatches.length, _)) ?_
      fun _ _ h => h.elim
    refine wp_bind_ok hb.wp_createBatchJobs fun _ s' hl => ?_
    have hc : Consistent s' := by
      apply hl.consistent
      intro b hb ⟨hr, hn⟩ _
      have ⟨b', hb', hc, _⟩ := hl.batch
      cases hb.symm.trans hb'
      have hc := hc.count .pending
      refine iff_of_true hr <| Store.unfinished_iff.mpr <| .inl ?_
      simp only [JobBatch.count] at hc
      omega
    refine wp_bind_ok (hc.wp_offLedger (.perform trivial)) fun _ _ h => h

-- The removal of a queue entry never fails and changes nothing but the queue.
theorem wp_removeEntry {orgId : OrgId} {runId : RunId} :
    (removeEntry orgId runId).wp (under controlPlane .none)
      (fun r s' => r = .ok () ∧ ∃ queue, s' = { s with queue }) s := by
  apply wp_handle.mpr
  refine wp_step (rfl : exec (.queueJob orgId runId) s = (.ok (s.entry? orgId runId), s)) ?_
    fun _ _ h => h.elim
  cases he : s.entry? orgId runId
  case none => exact ⟨rfl, s.queue, rfl⟩
  case some =>
    refine wp_call_under.mpr ⟨?_, fun _ h => h.elim, fun _ h => h.elim⟩
    simp only [exec, he]
    split
    case isTrue  => exact ⟨rfl, _, rfl⟩
    case isFalse => exact ⟨rfl, s.queue, rfl⟩

-- The jobs of the batch have not changed since they were read.
structure Snapshot (x : BatchId) (s : Store) (jobs : List (JobId × Option (RunId × JobRun))) :
    Prop where
  distinct : (jobs.map Prod.fst).Nodup
  run      : ∀ jobId runId run, (jobId, some (runId, run)) ∈ jobs →
    (s.run? runId = some run) ∧ run.jobId = jobId ∧ s.inBatch x run = true

theorem Snapshot.tail {job : JobId × Option (RunId × JobRun)}
    {jobs : List (JobId × Option (RunId × JobRun))} (h : Snapshot x s (job :: jobs)) :
    Snapshot x s jobs where
  distinct      := (List.nodup_cons.mp h.distinct).right
  run _ _ _ hm  := h.run _ _ _ (List.mem_cons_of_mem _ hm)

-- An update of the first run does not concern the other jobs.
theorem Snapshot.updateRun {jobId : JobId} {runId : RunId} {run : JobRun} {data : RunData}
    {jobs : List (JobId × Option (RunId × JobRun))} {queue : List QueueEntry}
    (h : Snapshot x s ((jobId, some (runId, run)) :: jobs)) :
    Snapshot x { s with jobRuns := s.jobRuns.modify runId data.apply, queue } jobs where
  distinct := h.tail.distinct
  run jobId' runId' run' hm := by
    have ⟨hr, hj, _⟩ := h.run jobId runId run List.mem_cons_self
    have ⟨hr', hj', hi'⟩ := h.tail.run jobId' runId' run' hm
    have hn : jobId ≠ jobId' := by
      rintro rfl
      exact (List.nodup_cons.mp h.distinct).left (List.mem_map.mpr ⟨_, hm, rfl⟩)
    have hn : runId ≠ runId' := by
      rintro rfl
      cases hr.symm.trans hr'
      exact hn (hj.symm.trans hj')
    exact ⟨by rw [Store.run?, List.getElem?_modify_ne _ _ hn]; exact hr', hj', hi'⟩

theorem snapshot_batchJobs (s : Store) (x : BatchId) : Snapshot x s (s.batchJobs x) where
  distinct := by
    simp only [Store.batchJobs, List.map_map]
    exact (List.Sublist.map _ List.filter_sublist).nodup Table.entries_keys_nodup
  run jobId runId run hm := by
    have ⟨e, he, heq⟩ := List.mem_map.mp hm
    have ⟨hj, hb⟩ := List.mem_filter.mp he
    cases congrArg Prod.fst heq
    have hr := List.mem_of_getLast? (congrArg Prod.snd heq)
    have ⟨hr, hi⟩ := List.mem_filter.mp hr
    have hi : run.jobId = e.1 := of_decide_eq_true hi
    refine ⟨Table.mem_entries.mp hr, hi, ?_⟩
    have hj : s.job? e.1 = some e.2 := Table.mem_entries.mp hj
    simpa [Store.inBatch, hi, hj] using hb

-- So many runs are cancelled without being counted.
def Cancelling (x : BatchId) (S : JobBatch → Prop) : Result Exception Int → Store → Prop
  | .ok n, s => Ledger x { pendingCount := -n, cancelledCount := n } S s
  | _, _     => True

theorem Ledger.wp_cancelRuns {orgId : OrgId} {jobs : List (JobId × Option (RunId × JobRun))} {n : Int}
    (h : Ledger x { pendingCount := -n, cancelledCount := n } S s) (hs : Snapshot x s jobs) :
    (cancelRuns orgId jobs n).wp (under controlPlane .none) (Cancelling x S) s := by
  induction jobs generalizing s n
  case nil => exact h
  case cons job jobs hi =>
    match job with
    | (jobId, none)              => exact hi h hs.tail
    | (jobId, some (runId, run)) =>
      have ⟨hr, _, hb⟩ := hs.run jobId runId run List.mem_cons_self
      rw [cancelRuns]
      split
      case isTrue      => exact hi h hs.tail
      case isFalse hne =>
        have hp := not_not.mp hne
        let data : RunData := { status := some .cancelled, finishedAt := some s.clock }
        refine wp_step (rfl : exec .now s = (.ok s.clock, s)) ?_ fun _ _ h => h.elim
        refine wp_step (exec_updateRun hr data) ?_ fun _ _ h => h.elim
        apply wp_bind.mpr
        apply wp_mono wp_removeEntry
        rintro _ _ ⟨rfl, queue, rfl⟩
        apply hi _ hs.updateRun
        have hd : data.status = some .cancelled := rfl
        have hl : Ledger x { pendingCount := -(n + 1), cancelledCount := n + 1 } S _ :=
          h.updateRun hr hb hd fun st => by cases st <;> simp [hp, BatchData.count]; omega
        exact Ledger.congr (s := { s with jobRuns := s.jobRuns.modify runId data.apply }) rfl rfl rfl hl

theorem Consistent.wp_cancelBatch {orgId : OrgId} (h : Consistent s) :
    Undisturbed Consistent (cancelBatch orgId x) s := by
  have hx : exec (.findBatch x orgId) s = (.ok (s.batch? x |>.bind fun b =>
      if b.orgId = orgId then some (b, s.batchJobs x) else none), s) := rfl
  refine wp_step hx ?_ fun _ _ h => h.elim
  cases hb : s.batch? x
  case none => trivial
  case some b =>
    simp only [Option.bind_some]
    by_cases ho : b.orgId = orgId
    case neg => simp [ho, onOk]
    case pos =>
      simp only [ho, if_true]
      split
      case isTrue => trivial
      case isFalse =>
        have hl : Ledger x { pendingCount := -0, cancelledCount := 0 } (fun _ => True) s :=
          h.ledger hb trivial
        apply wp_bind.mpr
        apply wp_mono (hl.wp_cancelRuns (snapshot_batchJobs s x))
        intro r s' hl
        match r with
        | .error _ => trivial
        | .ended   => trivial
        | .ok n    =>
          refine wp_step (rfl : exec .now s' = (.ok s'.clock, s')) ?_ fun _ _ h => h.elim
          let data : BatchData := {
            status := some .cancelled, pendingCount := -n, cancelledCount := n
            completedAt := some s'.clock }
          have hd : Ledger x data (fun _ => True) s' := hl.of_count fun st => by cases st <;> rfl
          have ⟨b', hb', _⟩ := hd.batch
          refine wp_step (exec_updateBatch hb' data) ?_ fun _ _ h => h.elim
          have hf : Ledger x {} (·.status = .cancelled) _ := hd.updateBatch (by simp [data]) fun _ _ => rfl
          have hc : Consistent _ := hf.consistent fun b _ hs hne => absurd hs hne
          apply hc.wp_offLedger
          refine .bind (.perform trivial) fun _ => ?_
          exact .bind (.perform trivial) fun _ => .pure

-- The request is one of those that create batches or change the status of runs.
def concernsBatches : Request → Bool
  | .createBatch .. | .markJobRunStarted .. | .reportJobResult .. | .failStaleRunningJobs
  | .cancelBatch .. => true
  | _ => false

-- The request concerns batches and runs to completion without an exception.
def Completes (deps : External) (s : Store) : Op → Prop
  | .serve q fates =>
    (concernsBatches q = true) ∧ fates = [] ∧ ((q.serve deps).run [] s).result.isOk = true
  | .elapse _ => True

-- The sweep releases no run of a batch.
def SweepsNoBatch (s : Store) : Op → Prop
  | .serve .failStaleRunningJobs _ => staleInBatch s = false
  | _                              => True

instance {op : Op} : Decidable (Completes deps s op) :=
  match op with
  | .serve .. => inferInstanceAs (Decidable (_ ∧ _ ∧ _))
  | .elapse _ => inferInstanceAs (Decidable True)

instance {op : Op} : Decidable (SweepsNoBatch s op) := by
  unfold SweepsNoBatch
  split <;> infer_instance

theorem Consistent.wp_serve {q : Request} (h : Consistent s) (hq : concernsBatches q = true)
    (hn : SweepsNoBatch s (.serve q [])) : Undisturbed Consistent (q.serve deps) s := by
  cases q
  case createBatch          => exact wp_bind_ok h.wp_createBatch fun _ _ h => h
  case cancelBatch          => exact wp_bind_ok h.wp_cancelBatch fun _ _ h => h
  case markJobRunStarted    => exact wp_bind_ok h.wp_markJobRunStarted fun _ _ h => h
  case reportJobResult      => exact wp_bind_ok h.wp_reportJobResult fun _ _ h => h
  case failStaleRunningJobs => exact wp_bind_ok (h.wp_failStaleRunningJobs hn) fun _ _ h => h
  all_goals nomatch hq

theorem Consistent.next {op : Op} (h : Consistent s) (hc : Completes deps s op)
    (hn : SweepsNoBatch s op) : Consistent ((sequential deps).next s op) := by
  cases op
  case elapse ms     => exact Consistent.congr (s := s) rfl rfl rfl h
  case serve q fates =>
    obtain ⟨hq, rfl, hok⟩ := hc
    have hw : Undisturbed Consistent (q.serve deps) s := h.wp_serve hq hn
    have hr := wp_run_nil hw
    change Consistent ((q.serve deps).run [] s).state
    revert hr hok
    cases ((q.serve deps).run [] s).result <;> intro hok hr
    case ok    => exact hr
    case error => nomatch hok
    case ended => nomatch hok

theorem consistent_of_empty (hj : s.jobs = []) (hr : s.jobRuns = []) (hb : s.jobBatches = []) :
    Consistent s where
  linked    := by constructor <;> simp [hj, hr]
  exact _ _ := by simp [Store.batch?, hb]

-- The counters and the status of all batches are exact as long as the sweep for stale runs releases
-- no run of a batch.
theorem counts_exact {ops : List Op} {id : BatchId} {b : JobBatch} (hj : s.jobs = [])
    (hr : s.jobRuns = []) (hb : s.jobBatches = []) (hd : (sequential deps).Meets (Completes deps) s ops)
    (hm : (sequential deps).Meets SweepsNoBatch s ops)
    (h : ((sequential deps).run s ops).batch? id = some b) :
    (∀ st, b.count st = ((sequential deps).run s ops).runCount id st) ∧
    (b.totalCount =
      b.pendingCount + b.runningCount + b.successCount + b.failedCount + b.cancelledCount) ∧
    (b.status ≠ .cancelled →
      (b.status = .running ↔ ((sequential deps).run s ops).Unfinished id)) := by
  have hc : Consistent ((sequential deps).run s ops) :=
    System.invariant (fun _ _ h hc => h.next hc.left hc.right) (consistent_of_empty hj hr hb) (hd.and hm)
  have he := hc.exact id b h
  exact ⟨he.counted.count, he.counted.total, he.status⟩

-- One run of a batch succeeds, the other is cancelled with the batch.
def partlyCancelled : List Op :=
  [.serve (.createBatch 0 none (.restartWave 0 [1])) [],
    .serve (.markJobRunStarted 0 1) [], .elapse 1000,
    .serve (.reportJobResult 0 1 { status := "success" }) [], .serve .failStaleRunningJobs [],
    .serve (.cancelBatch 0 0) []]

theorem counts_exact_partlyCancelled :
    ∃ b, (((sequential .sample).run .sample partlyCancelled).batch? 0 = some b) ∧
      (∀ st, b.count st = ((sequential .sample).run .sample partlyCancelled).runCount 0 st) ∧
      (b.totalCount =
        b.pendingCount + b.runningCount + b.successCount + b.failedCount + b.cancelledCount) ∧
      (b.status ≠ .cancelled →
        (b.status = .running ↔ ((sequential .sample).run .sample partlyCancelled).Unfinished 0)) :=
  ⟨_, rfl, counts_exact rfl rfl rfl (by decide +kernel) (by decide +kernel) rfl⟩

-- The only run of a batch is released as stale.
def staleBatch : List Op :=
  [.serve (.createBatch 0 none (.restartWave 0 [])) [],
    .elapse 1000, .serve (.markJobRunStarted 0 0) [], .elapse 200000, .serve .failStaleRunningJobs []]

theorem counts_wrong_staleBatch :
    ((((sequential .sample).run .sample staleBatch).batch? 0).map fun b =>
      (b.status, b.runningCount, b.failedCount)) = some (.running, 1, 0) ∧
    ((sequential .sample).run .sample staleBatch).runCount 0 .running = 0 ∧
    ((sequential .sample).run .sample staleBatch).runCount 0 .failed = 1 := by
  decide +kernel

end Batches
