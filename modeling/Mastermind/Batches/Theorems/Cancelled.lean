import Mastermind.Jobs.Theorems.Footprint

open Effects Prog

namespace Jobs

variable {c : Cmd} {q : Request} {id : BatchId}

-- The command does not decide about the status of the batch.
def Cmd.Undecided (id : BatchId) (c : Cmd) : Prop :=
  ∀ d, c = .updateBatch id d → d.status = none ∧ d.completedAt = none

theorem Cmd.Aside.undecided (h : c.Aside) : c.Undecided id := by
  rintro d rfl
  exact h.elim

theorem Cmd.CancelsRuns.undecided (h : c.CancelsRuns) : c.Undecided id := by
  rintro d rfl
  exact h.elim

-- Only reports of results and cancellations decide about the status of a batch.
theorem Request.footprint_undecided (h : q.footprint c)
    (hr : ∀ hostId runId dto, q ≠ .reportJobResult hostId runId dto)
    (hc : ∀ orgId batchId, q ≠ .cancelBatch orgId batchId) : c.Undecided id := by
  rintro d rfl
  cases q
  case reportJobResult   => exact (hr _ _ _ rfl).elim
  case cancelBatch       => exact (hc _ _ rfl).elim
  case poll              => exact h
  case markJobRunStarted => exact h
  all_goals exact h.elim

end Jobs

open Jobs

namespace Batches

-- The batch is cancelled and has been completed at the given time.
def Cancelled (id : BatchId) (completedAt : Option Time) (s : Store) : Prop :=
  ∃ b, (s.batch? id = some b) ∧ b.status = .cancelled ∧ b.completedAt = completedAt

-- The result is reported for the last unfinished run of a batch, as far as the batch has counted.
def finishes (s : Store) (id : BatchId) : Request → Bool
  | .reportJobResult hostId runId _ =>
    (s.runWithJob? runId).any fun (run, job) =>
      run.hostId = hostId && run.status = .running && job.batchId = some id &&
      (s.batch? id).any fun b => b.pendingCount ≤ 0 && b.runningCount ≤ 1
  | _ => false

-- No request finishes the batch.
def NotFinished (id : BatchId) (s : Store) : Op → Prop
  | .serve q _ => finishes s id q = false
  | .elapse _  => True

instance {id : BatchId} {s : Store} {op : Op} : Decidable (NotFinished id s op) :=
  match op with
  | .serve .. => inferInstanceAs (Decidable (_ = _))
  | .elapse _ => inferInstanceAs (Decidable True)

variable {deps : External} {D : Disturbance controlPlane} {s : Store} {id : BatchId}
  {t : Option Time} {α : Type}

theorem Cancelled.after {c : Cmd} (h : Cancelled id t s) (hc : c.Undecided id) :
    Cancelled id t (exec c s).2 := by
  have ⟨b, hb, hs, ht⟩ := h
  cases exec_batch? (c := c) hb
  case inl hb' => exact ⟨b, hb', hs, ht⟩
  case inr hb' =>
    have ⟨d, hd, hb'⟩ := hb'
    have ⟨hs', ht'⟩ := hc d hd
    refine ⟨_, hb', ?_, ?_⟩
    case refine_1 => simp [BatchData.apply, hs', hs]
    case refine_2 => simp [BatchData.apply, ht', ht]

theorem Cancelled.wp_of_only {p : Service α} (h : Cancelled id t s) (hp : p.Only (Cmd.Undecided id)) :
    p.wp (under controlPlane D) (fun _ => Cancelled id t) s :=
  hp.wp_under (fun _ _ hc h => h.after hc) h

-- The completion of a run is counted without completing a batch that has other unfinished runs.
theorem Cancelled.wp_recordJobRunCompleted {job : Job} {jobId : JobId} {st : RunStatus} {b : JobBatch}
    (hb : s.batch? id = some b) (hs : b.status = .cancelled) (ht : b.completedAt = t)
    (hj : s.job? jobId = some job)
    (hn : job.batchId = some id → b.pendingCount > 0 ∨ b.runningCount > 1) :
    (recordJobRunCompleted job.orgId jobId st .running).wp (under controlPlane D)
      (fun _ => Cancelled id t) s := by
  have h : Cancelled id t s := ⟨b, hb, hs, ht⟩
  refine wp_step (exec_findJob hj) ?_ fun _ _ _ => ⟨h, h⟩
  cases hi : job.batchId
  case none => exact h
  case some id' =>
    cases hb' : s.batch? id'
    case none => simpa [hb'] using h
    case some b' =>
      simp only [Option.bind_some, hb', Option.map_some]
      by_cases he : id' = id
      case neg =>
        have hu {d} : (Cmd.updateBatch id' d).Undecided id := by
          rintro _ ⟨⟩
          exact (he rfl).elim
        apply h.wp_of_only
        refine .bind (.perform hu) fun _ => .ite ?_ (.perform nofun)
        refine .bind (.perform nofun) fun _ => ?_
        exact .bind (.perform hu) fun _ => .perform nofun
      case pos =>
        subst he
        cases hb.symm.trans hb'
        have hd := h.after (c := .updateBatch id' (completionData st .running)) (by rintro _ ⟨⟩; exact ⟨rfl, rfl⟩)
        rw [exec_updateBatch hb] at hd
        refine wp_step (exec_updateBatch hb _) ?_ fun _ _ _ => ⟨h, h⟩
        have hc := hn hi
        rw [if_neg]
        case hnc => simp [BatchData.apply, completionData]; omega
        exact hd.wp_of_only (.perform nofun)

theorem Cancelled.wp_reportJobResult {hostId : HostId} {runId : RunId} {dto : ReportResultDto}
    (h : Cancelled id t s) (hn : finishes s id (.reportJobResult hostId runId dto) = false) :
    (reportJobResult deps hostId runId dto).wp (under controlPlane D)
      (fun _ => Cancelled id t) s := by
  have hx : exec (.findRun runId) s = (.ok (s.runWithJob? runId), s) := rfl
  refine wp_step hx ?_ fun _ _ _ => ⟨h, h⟩
  cases hf : s.runWithJob? runId
  case none => exact h
  case some found =>
    have ⟨run, job⟩ := found
    apply wp_bind.mpr
    apply wp_ofExcept.mpr
    cases hc : checkReported hostId run
    case error => exact h
    case ok =>
      have ⟨hh, hr⟩ := checkReported_eq_ok hc
      have ⟨b, hb, hs, ht⟩ := h
      have hn : job.batchId = some id → b.pendingCount > 0 ∨ b.runningCount > 1 := by
        intro hi
        simp [finishes, hf, hh, hr, hi, hb] at hn
        omega
      have hrun := runWithJob?_eq_some.mp hf
      let J (s : Store) := (s.batch? id = some b) ∧ s.job? run.jobId = some job
      have hk st s (hj : J s) : (followUp job st dto).wp (under controlPlane D) (fun _ => J) s := by
        apply followUp_only.wp_under (I := J)
        case hs => exact hj
        case hc =>
          intro s c hc ⟨hb, hj⟩
          refine ⟨?_, exec_job? hj⟩
          obtain hb' | ⟨d, rfl, _⟩ := exec_batch? (c := c) hb
          case inl => exact hb'
          case inr => exact hc.elim
      refine wp_step (rfl : exec .now s = (.ok s.clock, s)) ?_ fun _ _ _ => ⟨h, h⟩
      refine wp_step (exec_updateRun hrun.left _) ?_ fun _ _ _ => ⟨h, h⟩
      refine wp_bind_via (hk _ _ ?_) (fun s hj => ⟨b, hj.left, hs, ht⟩) ?_
      case refine_1 => exact ⟨hb, hrun.right⟩
      case refine_2 =>
        intro _ s ⟨hb, hj⟩
        split
        case isTrue  => exact wp_recordJobRunCompleted hb hs ht hj hn
        case isFalse => exact ⟨b, hb, hs, ht⟩

-- Another cancellation of the batch is refused, and cancellations of other batches do no harm.
theorem Cancelled.wp_cancelBatch {orgId : OrgId} {id' : BatchId} (h : Cancelled id t s) :
    (cancelBatch orgId id').wp (under controlPlane D) (fun _ => Cancelled id t) s := by
  have ⟨b, hb, hs, _⟩ := h
  have hx : exec (.findBatch id' orgId) s = (.ok (s.batch? id' |>.bind fun b =>
      if b.orgId = orgId then some (b, s.batchJobs id') else none), s) := rfl
  refine wp_step hx ?_ fun _ _ _ => ⟨h, h⟩
  by_cases hi : id' = id
  case pos =>
    subst hi
    rw [hb, Option.bind_some]
    split
    case h_1 => exact h
    case h_2 hf =>
      split at hf
      case isFalse => nomatch hf
      case isTrue  =>
        cases hf
        simp [hs, h]
  case neg =>
    have hu {d} : (Cmd.updateBatch id' d).Undecided id := by
      rintro _ ⟨⟩
      exact (hi rfl).elim
    apply h.wp_of_only
    split
    case h_1 => exact .throw
    case h_2 =>
      refine .ite .throw <| .bind (cancelRuns_only.mono fun _ => Cmd.CancelsRuns.undecided) fun _ => ?_
      refine .bind (.perform nofun) fun _ => ?_
      refine .bind (.perform hu) fun _ => ?_
      refine .bind (.perform nofun) fun _ => ?_
      exact .bind (.perform nofun) fun _ => .pure

theorem Cancelled.wp_serve {q : Request} (h : Cancelled id t s) (hn : finishes s id q = false) :
    (q.serve deps).wp (under controlPlane D) (fun _ => Cancelled id t) s := by
  have ho {q : Request} (hr : ∀ hostId runId dto, q ≠ .reportJobResult hostId runId dto)
      (hc : ∀ orgId batchId, q ≠ .cancelBatch orgId batchId) :
      (q.serve deps).wp (under controlPlane D) (fun _ => Cancelled id t) s :=
    h.wp_of_only <| q.serve_only.mono fun _ hf => Request.footprint_undecided hf hr hc
  cases q
  case reportJobResult => exact wp_bind_keeps (h.wp_reportJobResult hn) fun _ _ h => h
  case cancelBatch     => exact wp_bind_keeps h.wp_cancelBatch fun _ _ h => h
  all_goals exact ho nofun nofun

theorem Cancelled.next {op : Op} (h : Cancelled id t s) (hc : NotFinished id s op) :
    Cancelled id t ((sequential deps).next s op) := by
  cases op
  case serve q fates => exact wp_run (D := .any) (h.wp_serve hc) fun _ _ _ => trivial
  case elapse ms     => exact h

-- A cancelled batch stays cancelled, and keeps the time of its completion, as long as no result is
-- reported for its last unfinished run.
theorem cancelled_final {ops : List Op} (h : Cancelled id t s)
    (hm : (sequential deps).Meets (NotFinished id) s ops) :
    Cancelled id t ((sequential deps).run s ops) :=
  System.invariant (fun _ _ => Cancelled.next) h hm

-- Both runs of a batch are running when the batch is cancelled.
def cancelledWhileRunning : List Op :=
  [.serve (.createBatch 0 none (.restartWave 0 [1])) [],
    .serve (.markJobRunStarted 0 0) [], .serve (.markJobRunStarted 0 1) [],
    .elapse 1000, .serve (.cancelBatch 0 0) []]

theorem cancelled_final_firstReport :
    Cancelled 0 (some 1000) ((sequential .sample).run
      ((sequential .sample).run .sample cancelledWhileRunning)
      [.serve (.reportJobResult 0 0 { status := "success" }) [], .serve (.cancelBatch 0 0) [],
        .elapse 1000, .serve .failStaleRunningJobs []]) :=
  cancelled_final ⟨_, rfl, rfl, rfl⟩ (by decide +kernel)

theorem cancelled_completes_at_lastReport :
    (((sequential .sample).run .sample cancelledWhileRunning).batch? 0).map JobBatch.status =
      some .cancelled ∧
    (((sequential .sample).run .sample (cancelledWhileRunning ++
      [.serve (.reportJobResult 0 0 { status := "success" }) [], .elapse 1000,
        .serve (.reportJobResult 0 1 { status := "success" }) []])).batch? 0).map
      (fun b => (b.status, b.completedAt)) = some (.completed, some 2000) := by
  decide +kernel

end Batches
