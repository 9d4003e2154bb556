import Mastermind.Jobs.Theorems.Footprint

open Effects Jobs

namespace Jobs

def JobBatch.count (b : JobBatch) : RunStatus → Int
  | .pending   => b.pendingCount
  | .running   => b.runningCount
  | .success   => b.successCount
  | .failed    => b.failedCount
  | .cancelled => b.cancelledCount

def BatchData.count (d : BatchData) : RunStatus → Int
  | .pending   => d.pendingCount
  | .running   => d.runningCount
  | .success   => d.successCount
  | .failed    => d.failedCount
  | .cancelled => d.cancelledCount

theorem BatchData.count_apply (d : BatchData) (b : JobBatch) (st : RunStatus) :
    (d.apply b).count st = b.count st + d.count st := by
  cases st <;> rfl

namespace Store

variable {s s' : Store} {id : BatchId} {st : RunStatus}

-- The run belongs to a job of the batch.
def inBatch (s : Store) (id : BatchId) (run : JobRun) : Bool :=
  (s.job? run.jobId).any (·.batchId = some id)

-- The number of the batch's runs in a status.
def runCount (s : Store) (id : BatchId) (st : RunStatus) : Nat :=
  s.jobRuns.countP fun run => s.inBatch id run && run.status = st

-- Some run of the batch is still pending or running.
def Unfinished (s : Store) (id : BatchId) : Prop :=
  ∃ run ∈ s.jobRuns, s.inBatch id run ∧ (run.status = .pending ∨ run.status = .running)

theorem unfinished_iff : s.Unfinished id ↔ 0 < s.runCount id .pending ∨ 0 < s.runCount id .running := by
  simp only [Unfinished, runCount, List.countP_pos_iff, Bool.and_eq_true, decide_eq_true_eq]
  constructor
  case mp =>
    intro ⟨run, hm, hi, hs⟩
    exact hs.imp (fun hs => ⟨run, hm, hi, hs⟩) (fun hs => ⟨run, hm, hi, hs⟩)
  case mpr =>
    rintro (⟨run, hm, hi, hs⟩ | ⟨run, hm, hi, hs⟩)
    case inl => exact ⟨run, hm, hi, .inl hs⟩
    case inr => exact ⟨run, hm, hi, .inr hs⟩

theorem runCount_congr (hj : s'.jobs = s.jobs) (hr : s'.jobRuns = s.jobRuns) :
    s'.runCount id st = s.runCount id st := by
  simp only [runCount, inBatch, job?, hj, hr]

end Store

-- Runs belong to jobs, and jobs that are part of a batch to batches.
structure Store.Linked (s : Store) : Prop where
  jobs    : ∀ run ∈ s.jobRuns, ∃ job, s.job? run.jobId = some job
  batches : ∀ job ∈ s.jobs, ∀ id, job.batchId = some id → ∃ b, s.batch? id = some b

end Jobs

namespace Batches

-- The counters of a batch are exact once they are changed by `d`.
structure Counted (d : BatchData) (s : Store) (id : BatchId) (b : JobBatch) : Prop where
  counts : ∀ st, b.count st + d.count st = s.runCount id st
  total  : b.totalCount =
    b.pendingCount + b.runningCount + b.successCount + b.failedCount + b.cancelledCount

-- A batch that is not cancelled is running as long as it has unfinished runs.
def Status (s : Store) (id : BatchId) (b : JobBatch) : Prop :=
  b.status ≠ .cancelled → (b.status = .running ↔ s.Unfinished id)

-- The counters and the status of a batch are right.
structure Exact (s : Store) (id : BatchId) (b : JobBatch) : Prop where
  counted : Counted {} s id b
  status  : Status s id b

-- All batches are exact.
structure Consistent (s : Store) : Prop where
  linked : s.Linked
  exact  : ∀ id b, s.batch? id = some b → Exact s id b

-- All batches but one are exact. The counters of the exceptional batch will be exact after a change,
-- and its row has a given property.
structure Ledger (x : BatchId) (d : BatchData) (S : JobBatch → Prop) (s : Store) : Prop where
  linked : s.Linked
  exact  : ∀ id b, s.batch? id = some b → id ≠ x → Exact s id b
  batch  : ∃ b, (s.batch? x = some b) ∧ Counted d s x b ∧ S b

variable {s s' : Store} {x id : BatchId} {d : BatchData} {S S' : JobBatch → Prop} {b : JobBatch}

theorem Counted.count (h : Counted {} s id b) (st : RunStatus) : b.count st = s.runCount id st := by
  have hc := h.counts st
  cases st <;> exact (Int.add_zero _).symm.trans hc

theorem Counted.congr (h : Counted d s id b) (hc : ∀ st, s'.runCount id st = s.runCount id st) :
    Counted d s' id b where
  counts st := by rw [hc, h.counts]
  total     := h.total

theorem Exact.congr (h : Exact s id b) (hc : ∀ st, s'.runCount id st = s.runCount id st) :
    Exact s' id b where
  counted    := h.counted.congr hc
  status hne := by
    rw [Store.unfinished_iff, hc, hc, ← Store.unfinished_iff]
    exact h.status hne

-- The status of an exact batch with an unfinished run.
theorem Exact.status_of_unfinished (h : Exact s id b) (hu : s.Unfinished id) :
    b.status = .running ∨ b.status = .cancelled := by
  by_cases hc : b.status = .cancelled
  case pos => exact .inr hc
  case neg => exact .inl <| (h.status hc).mpr hu

theorem Consistent.ledger (h : Consistent s) (hb : s.batch? x = some b) (hs : S b) :
    Ledger x {} S s where
  linked      := h.linked
  exact _ _ hb _ := h.exact _ _ hb
  batch       := ⟨b, hb, (h.exact x b hb).counted, hs⟩

theorem Ledger.consistent (h : Ledger x {} S s)
    (hs : ∀ b, s.batch? x = some b → S b → Status s x b) : Consistent s where
  linked := h.linked
  exact id b hb := by
    by_cases hi : id = x
    case neg => exact h.exact id b hb hi
    case pos =>
      subst hi
      have ⟨b', hb', hc, hs'⟩ := h.batch
      cases hb.symm.trans hb'
      exact ⟨hc, hs b hb hs'⟩

section

-- The store changes neither jobs, runs nor batches.
variable (hj : s'.jobs = s.jobs) (hr : s'.jobRuns = s.jobRuns) (hb : s'.jobBatches = s.jobBatches)

include hj hr hb

theorem Linked.congr (h : s.Linked) : s'.Linked where
  jobs    := by simpa only [Store.job?, hj, hr] using h.jobs
  batches := by simpa only [Store.batch?, hj, hb] using h.batches

theorem Consistent.congr (h : Consistent s) : Consistent s' where
  linked := Linked.congr hj hr hb h.linked
  exact id b hi := by
    rw [Store.batch?, hb] at hi
    exact (h.exact id b hi).congr fun _ => Store.runCount_congr hj hr

theorem Ledger.congr (h : Ledger x d S s) : Ledger x d S s' where
  linked := Linked.congr hj hr hb h.linked
  exact id b hi hx := by
    rw [Store.batch?, hb] at hi
    exact (h.exact id b hi hx).congr fun _ => Store.runCount_congr hj hr
  batch := by
    obtain ⟨b, hi, hc, hs⟩ := h.batch
    refine ⟨b, ?_, hc.congr fun _ => Store.runCount_congr hj hr, hs⟩
    rw [Store.batch?, hb]
    exact hi

end

theorem Ledger.of_count {d' : BatchData} (h : Ledger x d S s) (hc : ∀ st, d'.count st = d.count st) :
    Ledger x d' S s where
  linked := h.linked
  exact  := h.exact
  batch  := by
    have ⟨b, hb, ht, hs⟩ := h.batch
    exact ⟨b, hb, ⟨fun st => by rw [hc, ht.counts], ht.total⟩, hs⟩

-- A run belongs to at most one batch.
theorem inBatch_unique {run : JobRun} (h : s.inBatch x run) (h' : s.inBatch id run) : id = x := by
  have ⟨job, hj, hb⟩ := (Option.any_eq_true _ _).mp h
  have ⟨job', hj', hb'⟩ := (Option.any_eq_true _ _).mp h'
  cases hj.symm.trans hj'
  simp only [decide_eq_true_eq] at hb hb'
  exact Option.some.inj (hb'.symm.trans hb)

section

variable {runId : RunId} {run : JobRun} {data : RunData} {st₁ : RunStatus}

-- A run that changes its status moves from one counter of its batch to another.
theorem runCount_updateRun (hr : s.run? runId = some run) (hd : data.status = some st₁)
    (id : BatchId) (st : RunStatus) :
    Store.runCount { s with jobRuns := s.jobRuns.modify runId data.apply } id st +
      (s.inBatch id run && run.status = st).toNat =
    s.runCount id st + (s.inBatch id run && st₁ = st).toNat := by
  have h := Table.countP_modify (f := data.apply) (p := fun r => s.inBatch id r && r.status = st) hr
  rw [show (data.apply run).status = st₁ by simp [RunData.apply, hd]] at h
  exact h

theorem Linked.updateRun (h : s.Linked) :
    Store.Linked { s with jobRuns := s.jobRuns.modify runId data.apply } where
  batches := h.batches
  jobs run hm := by
    have ⟨id, hr⟩ := List.mem_iff_getElem?.mp hm
    rw [List.getElem?_modify] at hr
    cases ho : s.jobRuns[id]? <;>
      simp only [ho, Option.map_eq_map, Option.map_none, Option.map_some] at hr
    case none => nomatch hr
    case some run' =>
      have ⟨job, hj⟩ := h.jobs run' (List.mem_of_getElem? ho)
      cases hr
      exact ⟨job, by split <;> exact hj⟩

theorem Ledger.updateRun {d' : BatchData} (h : Ledger x d S s) (hr : s.run? runId = some run)
    (hi : s.inBatch x run) (hd : data.status = some st₁)
    (hc : ∀ st, d'.count st =
      d.count st + (if st₁ = st then 1 else 0) - (if run.status = st then 1 else 0)) :
    Ledger x d' S { s with jobRuns := s.jobRuns.modify runId data.apply } where
  linked := Linked.updateRun h.linked
  exact id b hb hx := by
    apply (h.exact id b hb hx).congr
    intro st
    have hn : s.inBatch id run = false := by
      rw [Bool.eq_false_iff]
      exact fun hi' => hx (inBatch_unique hi hi')
    simpa [hn] using runCount_updateRun hr hd id st
  batch := by
    have ⟨b, hb, ht, hs⟩ := h.batch
    refine ⟨b, hb, ⟨fun st => ?_, ht.total⟩, hs⟩
    have hn := runCount_updateRun hr hd x st
    have ho := ht.counts st
    simp only [hi, Bool.true_and] at hn
    rw [hc]
    by_cases h₀ : run.status = st <;> by_cases h₁ : st₁ = st <;> simp [h₀, h₁] at hn ⊢ <;> omega

-- The status of a run that is not part of a batch may change.
theorem Consistent.updateRun (h : Consistent s) (hr : s.run? runId = some run)
    (hi : ∀ id, s.inBatch id run = false) (hd : data.status = some st₁) :
    Consistent { s with jobRuns := s.jobRuns.modify runId data.apply } where
  linked := Linked.updateRun h.linked
  exact id b hb := by
    apply (h.exact id b hb).congr
    intro st
    simpa [hi id] using runCount_updateRun hr hd id st

end

-- The batch catches up with the change.
theorem Ledger.updateBatch (h : Ledger x d S s)
    (hz : d.pendingCount + d.runningCount + d.successCount + d.failedCount + d.cancelledCount = 0)
    (hs : ∀ b, S b → S' (d.apply b)) :
    Ledger x {} S' { s with jobBatches := s.jobBatches.modify x d.apply } where
  linked := by
    constructor
    case jobs => exact h.linked.jobs
    case batches =>
      intro job hj id hb
      obtain ⟨b, hb⟩ := h.linked.batches job hj id hb
      rw [Store.batch?] at hb
      exact ⟨_, by rw [Store.batch?, List.getElem?_modify, hb]; rfl⟩
  exact id b hb hx := by
    rw [Store.batch?, List.getElem?_modify_ne _ _ (Ne.symm hx)] at hb
    exact (h.exact id b hb hx).congr fun _ => rfl
  batch := by
    obtain ⟨b, hb, ht, hst⟩ := h.batch
    rw [Store.batch?] at hb
    refine ⟨d.apply b, by simp [Store.batch?, hb], ⟨fun st => ?_, ?_⟩, hs _ hst⟩
    case refine_1 =>
      have hn : ({} : BatchData).count st = 0 := by cases st <;> rfl
      rw [BatchData.count_apply, ht.counts, hn, Int.add_zero]
      rfl
    case refine_2 =>
      have := ht.total
      simp only [BatchData.apply]
      omega

section

variable {job : Job} {row : JobRun}

theorem runCount_insertJob (h : s.Linked) (id : BatchId) (st : RunStatus) :
    Store.runCount { s with jobs := s.jobs ++ [job] } id st = s.runCount id st := by
  apply List.countP_congr
  intro run hm
  have ⟨job', hj⟩ := h.jobs run hm
  have hl := (List.getElem?_eq_some_iff.mp hj).choose
  simp only [Store.inBatch, Store.job?, List.getElem?_append_left hl]

theorem Ledger.insertJob (h : Ledger x d S s) (hb : job.batchId = some x) :
    Ledger x d S { s with jobs := s.jobs ++ [job] } where
  linked := by
    constructor
    case jobs =>
      intro run hm
      have ⟨job', hj⟩ := h.linked.jobs run hm
      exact ⟨job', Table.getElem?_append_of_some hj⟩
    case batches =>
      intro job' hm id hi
      cases List.mem_append.mp hm
      case inl hm => exact h.linked.batches job' hm id hi
      case inr hm =>
        have ⟨b, hx, _⟩ := h.batch
        cases List.mem_singleton.mp hm
        cases hb.symm.trans hi
        exact ⟨b, hx⟩
  exact id b hb hx := (h.exact id b hb hx).congr fun st => runCount_insertJob h.linked id st
  batch := by
    have ⟨b, hx, hc, hs⟩ := h.batch
    exact ⟨b, hx, hc.congr fun st => runCount_insertJob h.linked x st, hs⟩

theorem runCount_insertRun (id : BatchId) (st : RunStatus) :
    Store.runCount { s with jobRuns := s.jobRuns ++ [row] } id st =
      s.runCount id st + (s.inBatch id row && row.status = st).toNat := by
  simp only [Store.runCount, Store.inBatch, Store.job?, List.countP_append, List.countP_singleton]
  exact congrArg (_ + ·) (Bool.cond_eq_ite _ 1 0).symm

theorem Ledger.insertRun {d' : BatchData} (h : Ledger x d S s) (hj : s.job? row.jobId = some job)
    (hb : job.batchId = some x)
    (hc : ∀ st, d'.count st = d.count st + if row.status = st then 1 else 0) :
    Ledger x d' S { s with jobRuns := s.jobRuns ++ [row] } where
  linked := by
    constructor
    case batches => exact h.linked.batches
    case jobs =>
      intro run hm
      cases List.mem_append.mp hm
      case inl hm => exact h.linked.jobs run hm
      case inr hm => exact ⟨job, (List.mem_singleton.mp hm) ▸ hj⟩
  exact id b hi hx := by
    apply (h.exact id b hi hx).congr
    intro st
    have hn : s.inBatch id row = false := by simp [Store.inBatch, hj, hb, Ne.symm hx]
    simp [runCount_insertRun, hn]
  batch := by
    have ⟨b, hx, ht, hs⟩ := h.batch
    refine ⟨b, hx, ⟨fun st => ?_, ht.total⟩, hs⟩
    have hi : s.inBatch x row = true := by simp [Store.inBatch, hj, hb]
    have := ht.counts st
    rw [hc, runCount_insertRun, hi]
    by_cases hst : row.status = st <;> simp [hst] <;> omega

end

-- A new batch has no runs yet.
theorem Consistent.insertBatch {row : JobBatch} (h : Consistent s)
    (hc : ∀ st, row.count st + d.count st = 0) (ht : row.totalCount = row.pendingCount +
      row.runningCount + row.successCount + row.failedCount + row.cancelledCount) (hs : S row) :
    Ledger s.jobBatches.length d S { s with jobBatches := s.jobBatches ++ [row] } where
  linked := by
    constructor
    case jobs => exact h.linked.jobs
    case batches =>
      intro job hj id hi
      obtain ⟨b, hb⟩ := h.linked.batches job hj id hi
      exact ⟨b, Table.getElem?_append_of_some hb⟩
  exact id b hb hx := by
    have hl := (List.getElem?_eq_some_iff.mp hb).choose
    rw [List.length_append, List.length_singleton] at hl
    have hl := Nat.lt_of_le_of_ne (Nat.le_of_lt_succ hl) hx
    rw [Store.batch?, List.getElem?_append_left hl] at hb
    exact (h.exact id b hb).congr fun _ => rfl
  batch := by
    refine ⟨row, by simp [Store.batch?], ⟨fun st => ?_, ht⟩, hs⟩
    have hn : s.runCount s.jobBatches.length st = 0 := by
      apply List.countP_eq_zero.mpr
      intro run _ hp
      simp only [Bool.and_eq_true, Store.inBatch] at hp
      obtain ⟨job, hj, hb⟩ := (Option.any_eq_true _ _).mp hp.left
      obtain ⟨b, hb⟩ := h.linked.batches job (List.mem_of_getElem? hj) _ (of_decide_eq_true hb)
      exact absurd (List.getElem?_eq_some_iff.mp hb).choose (Nat.lt_irrefl _)
    rw [hc]
    exact (congrArg Int.ofNat hn).symm

end Batches
