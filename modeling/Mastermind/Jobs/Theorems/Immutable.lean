import Mastermind.Jobs.Theorems.Creation
import Mastermind.Jobs.Theorems.Store

open Effects Prog Batches

namespace Jobs

def RunStatus.terminal : RunStatus → Bool
  | success | failed | cancelled => true
  | pending | running            => false

theorem mem_batchJobs {s : Store} {batchId : BatchId} {jobId : JobId} {id : RunId} {run : JobRun}
    (h : (jobId, some (id, run)) ∈ s.batchJobs batchId) : s.run? id = some run := by
  obtain ⟨_, _, he⟩ := List.mem_map.mp h
  have hl := List.mem_of_getLast? (Prod.mk.inj he).right
  exact Table.mem_entries.mp (List.mem_of_mem_filter hl)

theorem findBatch_jobs {s : Store} {id : BatchId} {orgId : OrgId} {b : JobBatch}
    {jobs : List (JobId × Option (RunId × JobRun))}
    (h : (exec (.findBatch id orgId) s).1 = .ok (some (b, jobs))) : jobs = s.batchJobs id := by
  simp only [exec, Except.ok.injEq, Option.bind_eq_bind, Option.bind_eq_some_iff] at h
  obtain ⟨b', -, h⟩ := h
  split at h
  case isTrue  => exact (Prod.mk.inj (Option.some.inj h)).right.symm
  case isFalse => nomatch h

theorem mem_lookup_runs {jobs : List (JobId × Option (RunId × JobRun))} {id : RunId} {run : JobRun}
    (h : (jobs.filterMap Prod.snd).lookup id = some run) : ∃ jobId, (jobId, some (id, run)) ∈ jobs := by
  obtain ⟨⟨jobId, _⟩, hm, rfl⟩ := List.mem_filterMap.mp (Table.mem_of_lookup h)
  exact ⟨jobId, hm⟩

-- The job runs, as the single reads and the reads of batches tell about them. The sweep writes the runs
-- only that are running.
def runRows : Pool.Rows controlPlane RunId JobRun where
  value s id := s.run? id
  tells
    | .findRun id, .ok (some (run, _)), x    => if id = x then some run else none
    | .findBatch .., .ok (some (_, jobs)), x => (jobs.filterMap Prod.snd).lookup x
    | _, _, _                                => none
  writes s
    | .updateRun id _, x          => id = x
    | .updateRunIfRunning id _, x => id = x && s.status? id = some .running
    | _, _                        => false
  tells_value {s c x run} h := by
    cases c
    case findRun id =>
      cases hf : s.runWithJob? id
      case none   => simp [exec, hf] at h
      case some p =>
        obtain ⟨run', job⟩ := p
        simp only [exec, hf] at h ⊢
        split at h
        case isFalse    => nomatch h
        case isTrue hid => exact hid ▸ h ▸ (runWithJob?_eq_some.mp hf).left
    case findBatch id orgId =>
      cases hf : (exec (.findBatch id orgId) s).1
      case error => rw [hf] at h; nomatch h
      case ok a  =>
        obtain _ | ⟨b, jobs⟩ := a <;> rw [hf] at h
        case none => nomatch h
        case some =>
          have ⟨_, hm⟩ := mem_lookup_runs h
          exact mem_batchJobs (findBatch_jobs hf ▸ hm)
    all_goals nomatch h
  exec_value {s c x run} hw h := by
    rw [Store.run?] at h ⊢
    obtain hj | ⟨id, d, rfl, hj⟩ | ⟨id, d, rfl, hs, hj⟩ | ⟨row, rfl, hj⟩ := exec_jobRuns c s <;>
      rw [exec_eq, hj]
    case inl         => exact h
    case inr.inl     => rwa [List.getElem?_modify_ne _ _ (of_decide_eq_false hw)]
    case inr.inr.inl => rwa [List.getElem?_modify_ne _ _ (by simpa [hs] using hw)]
    case inr.inr.inr => exact Table.getElem?_append_of_some h
  tells_fault {c x} := by
    cases c <;> rfl

-- A run is updated only if it was found to be pending or running.
def Checked (m : RunId → Option JobRun) : Cmd → Prop
  | .updateRun id _ => ∃ run, m id = some run ∧ run.status.terminal = false
  | _               => True

-- A command that tells nothing about runs.
def Cmd.Silent : Cmd → Prop
  | findRun _ | findBatch .. => False
  | _                        => True

-- A command that does not write a run without a guard.
def Cmd.Guarded : Cmd → Prop
  | updateRun .. => False
  | _            => True

section

variable {m : RunId → Option JobRun} {c : Cmd} {α β : Type} {deps : External}

-- The requests that remember what they have read of the runs, and check it before they write.
abbrev Checks (p : Service α) (m : RunId → Option JobRun) : Prop :=
  Safe (runRows.remembering Checked) p m

theorem Cmd.Guarded.checked (h : c.Guarded) : Checked m c := by
  cases c <;> trivial

theorem Cmd.Silent.learn (h : c.Silent) (r : Except Exception c.Ans) : runRows.learn m c r = m := by
  cases c <;> first | rfl | exact h.elim

theorem checks_of_only {p : Service α} {P : Cmd → Prop} (h : p.Only P) (hp : ∀ c, P c → c.Guarded) :
    Checks p m :=
  safe_of_only h fun c hc _ => (hp c hc).checked

-- A command that tells nothing, and what a request does next.
theorem checks_send {f : c.Ans → Service β} (hc : c.Silent) (ha : Checked m c)
    (hf : ∀ a, Checks (f a) m) : Checks (send c >>= f) m := by
  refine wp_bind.mpr <| wp_perform.mpr ⟨ha, ?_, False.elim⟩
  rintro r m' ⟨-, rfl⟩
  rw [hc.learn r]
  cases r
  case ok a  => exact hf a
  case error => trivial

-- A run is read by its id, and remembered.
theorem checks_findRun {id : RunId} {f : Option (JobRun × Job) → Service β} (hn : Checks (f none) m)
    (hf : ∀ m run job, m id = some run → Checks (f (some (run, job))) m) :
    Checks (send (.findRun id) >>= f) m := by
  refine wp_bind.mpr <| wp_perform.mpr ⟨trivial, ?_, False.elim⟩
  rintro r m' ⟨-, rfl⟩
  match r with
  | .error _              => trivial
  | .ok none              => exact hn
  | .ok (some (run, job)) => exact hf _ run job (by simp [Pool.Rows.learn, runRows])

theorem checks_markJobRunStarted {hostId : HostId} {id : RunId} :
    Checks (markJobRunStarted hostId id) m := by
  refine checks_findRun trivial fun m run job hm => ?_
  dsimp only
  split
  case isTrue  => trivial
  case isFalse =>
    split
    case isTrue  => trivial
    case isFalse hs =>
      have ht : run.status.terminal = false := by simp [not_not.mp hs, RunStatus.terminal]
      refine checks_send trivial trivial fun now => ?_
      refine checks_send trivial ⟨run, hm, ht⟩ fun _ => ?_
      split
      case isTrue  => exact checks_of_only recordJobRunStarted_only fun c h => by cases c <;> trivial
      case isFalse => trivial

-- What a report reads is checked for being a running run.
theorem checks_checkReported {hostId : HostId} {run : JobRun} {f : Unit → Service β}
    (hf : run.status.terminal = false → Checks (f ()) m) :
    Checks (Prog.ofExcept (checkReported hostId run) >>= f) m := by
  refine wp_bind.mpr (wp_ofExcept.mpr ?_)
  cases hc : checkReported hostId run
  case error => trivial
  case ok    => exact hf (by simp [(checkReported_eq_ok hc).right, RunStatus.terminal])

theorem checks_reportJobResult {hostId : HostId} {id : RunId} {dto : ReportResultDto} :
    Checks (reportJobResult deps hostId id dto) m := by
  refine checks_findRun trivial fun m run job hm => checks_checkReported fun ht => ?_
  refine checks_send trivial trivial fun now => ?_
  refine checks_send trivial ⟨run, hm, ht⟩ fun _ => ?_
  refine Safe.bind (checks_of_only followUp_only fun c h => by cases c <;> trivial) fun _ m => ?_
  split
  case isTrue  => exact checks_of_only recordJobRunCompleted_only fun c h => by cases c <;> trivial
  case isFalse => trivial

theorem checks_reportJobProgress {hostId : HostId} {id : RunId} {phase : String}
    {message : Option String} : Checks (reportJobProgress hostId id phase message) m := by
  refine checks_findRun trivial fun m run job hm => checks_checkReported fun ht => ?_
  refine checks_send trivial trivial fun now => ?_
  exact wp_perform.mpr ⟨⟨run, hm, ht⟩, fun r _ _ => by cases r <;> trivial, False.elim⟩

-- Nothing is forgotten while an entry is removed.
theorem remembers_removeEntry {orgId : OrgId} {id : RunId} (m : RunId → Option JobRun) :
    (removeEntry orgId id).wp (runRows.remembering Checked) (fun _ m' => m' = m) m := by
  refine removeEntry_only.wp (fun _ c hc _ => ?_) (fun _ c r _ hc hm ha => ?_) rfl
  case refine_1 => cases c <;> trivial
  case refine_2 =>
    have hs : c.Silent := by cases c <;> trivial
    rw [ha.right, hm, hs.learn r]

-- The jobs of a batch are remembered while their runs are cancelled.
theorem checks_cancelRuns {orgId : OrgId} {jobs : List (JobId × Option (RunId × JobRun))} {n : Int}
    (h : ∀ jobId id run, (jobId, some (id, run)) ∈ jobs → m id = some run) :
    Checks (cancelRuns orgId jobs n) m := by
  induction jobs generalizing n
  case nil => trivial
  case cons job jobs hi =>
    have hi {n} := hi (n := n) fun j id run hj => h j id run (List.mem_cons_of_mem _ hj)
    match job, h with
    | (_, none), _               => exact hi
    | (jobId, some (id, run)), h =>
      rw [cancelRuns]
      split
      case isTrue     => exact hi
      case isFalse hs =>
        have hm := h jobId id run List.mem_cons_self
        have ht : run.status.terminal = false := by simp [not_not.mp hs, RunStatus.terminal]
        refine checks_send trivial trivial fun now => ?_
        refine checks_send trivial ⟨run, hm, ht⟩ fun _ => ?_
        refine wp_bind.mpr (wp_mono (remembers_removeEntry m) ?_)
        rintro r m' rfl
        cases r
        case ok    => exact hi
        case error => trivial
        case ended => trivial

-- The runs of a batch are read together with the batch.
theorem checks_cancelBatch {orgId : OrgId} {batchId : BatchId} :
    Checks (cancelBatch orgId batchId) m := by
  refine wp_bind.mpr <| wp_perform.mpr ⟨trivial, ?_, False.elim⟩
  rintro r m' ⟨hr, rfl⟩
  match r with
  | .error _                => trivial
  | .ok none                => trivial
  | .ok (some (batch, jobs)) =>
    dsimp only [ansPost, seqPost]
    split
    case isTrue  => trivial
    case isFalse =>
      refine Safe.bind (checks_cancelRuns fun jobId id run hj => ?_) fun _ m => ?_
      case refine_1 =>
        obtain ⟨s, hr⟩ := hr.resolve_right nofun
        have hk jobId id run (hj : (jobId, some (id, run)) ∈ jobs) : s.run? id = some run :=
          mem_batchJobs (findBatch_jobs hr.symm ▸ hj)
        have hl : ((jobs.filterMap Prod.snd).lookup id).isSome := by
          have hm : (id, run) ∈ jobs.filterMap Prod.snd := List.mem_filterMap.mpr ⟨_, hj, rfl⟩
          exact List.lookup_isSome_iff.mpr ⟨_, hm, beq_self_eq_true id⟩
        obtain ⟨run', hl⟩ := Option.isSome_iff_exists.mp hl
        have ⟨_, hm⟩ := mem_lookup_runs hl
        cases (hk _ _ _ hm).symm.trans (hk _ _ _ hj)
        simp [Pool.Rows.learn, runRows, hl]
      case refine_2 =>
        refine checks_send trivial trivial fun now => ?_
        refine checks_send trivial trivial fun _ => ?_
        refine checks_send trivial trivial fun _ => ?_
        exact checks_send trivial trivial fun _ => trivial

theorem checks_pollRounds {orgId : OrgId} {hostId : HostId} {busy : Bool} {deadline : Time}
    {rounds : Nat} : Checks (pollRounds orgId hostId busy deadline rounds) m := by
  induction rounds generalizing m
  case zero => trivial
  case succ rounds hi =>
    have hn : Checks (getNextJobForHost orgId hostId busy) m :=
      checks_of_only getNextJobForHost_only fun c h => by cases c <;> trivial
    refine Safe.bind hn fun found m => ?_
    cases found
    case some => exact Safe.bind checks_markJobRunStarted fun _ _ => trivial
    case none =>
      refine checks_send trivial trivial fun now => ?_
      split
      case isTrue  => trivial
      case isFalse => exact hi

theorem checks_serve (q : Request) : Checks (q.serve deps) m := by
  have none_of {α : Type} {p : Service α} (h : Checks p m) :
      Checks (p >>= fun _ => return none : Service (Option QueueJobData)) m :=
    Safe.bind h fun _ _ => trivial
  have of_creates {α : Type} {p : Service α} (h : p.Only Cmd.Creates) : Checks p m :=
    checks_of_only h fun c h => by cases c <;> trivial
  cases q
  case createJob            => exact none_of (of_creates createJob_only)
  case enqueueInternalJob   => exact none_of (of_creates enqueueInternalJob_only)
  case createBatch          => exact none_of (of_creates createBatch_only)
  case fire                 => exact none_of (of_creates fire_only)
  case cancelBatch          => exact none_of checks_cancelBatch
  case markJobRunStarted    => exact none_of checks_markJobRunStarted
  case reportJobResult      => exact none_of checks_reportJobResult
  case reportJobProgress    => exact none_of checks_reportJobProgress
  case failStaleRunningJobs =>
    exact none_of (checks_of_only failStaleRunningJobs_only fun c h => by cases c <;> trivial)
  case poll =>
    refine checks_send trivial trivial fun host => ?_
    cases host
    case none => trivial
    case some => exact checks_send trivial trivial fun _ => checks_pollRounds

end

-- The requests in all interleavings, with a record of the runs that were written after a request has
-- read them.
abbrev watched (deps : External) : System :=
  runRows.watched (Request.serve deps) Store.elapse

-- No request writes a run that was written since the request has read it.
def WritesFresh (s : Requests × (Nat → RunId → Bool)) : Pool.Event Request Nat → Prop
  | .serve i =>
    match s.1.next? i with
    | some (_, .updateRun id _) => s.2 i id = false
    | _                         => True
  | _ => True

instance {s : Requests × (Nat → RunId → Bool)} {e : Pool.Event Request Nat} :
    Decidable (WritesFresh s e) :=
  match e with
  | .serve _ => by dsimp only [WritesFresh]; split <;> infer_instance
  | .start _ | .fail _ | .world _ => inferInstanceAs (Decidable True)

section

variable {deps : External} {p : Requests} {o : Nat → RunId → Bool} {e : Pool.Event Request Nat}
  {id : RunId} {r : JobRun}

-- A command that is served to a thread leaves a run alone, unless it is an update of that run.
theorem exec_run? {c : Cmd} {s : Store} (h : s.run? id = some r)
    (hu : ∀ d, c ≠ .updateRun id d) (hr : r.status ≠ .running) : (exec c s).2.run? id = some r := by
  apply runRows.exec_value ?_ h
  have hs : s.status? id = some r.status := by rw [Store.status?, h]; rfl
  cases c
  case updateRun id' d          => exact decide_eq_false fun hi => hu d (hi ▸ rfl)
  case updateRunIfRunning id' d =>
    by_cases hi : id' = id
    case pos => simp [runRows, hi, hs, hr]
    case neg => simp [runRows, hi]
  all_goals rfl

-- A request that writes a run has checked the run, and the run is still as it was then.
theorem next_run? (hk : runRows.Remembers Checked p o) (hc : WritesFresh (p, o) e)
    (h : p.state.run? id = some r) (ht : r.status.terminal = true) :
    ((interleaved deps).next p e).state.run? id = some r := by
  cases e
  case start q  => exact h
  case world ms => exact h
  case fail i   => exact (Pool.fail_state (p := p) (i := i)) ▸ h
  case serve i  =>
    change (p.serve i).state.run? id = some r
    obtain hs | ⟨q, c, k, hi, hs⟩ := p.serve_cases i <;> rw [hs]
    case inl => exact h
    case inr =>
      have hn : p.next? i = some (q, c) := Pool.next?_eq_some.mpr ⟨k, hi⟩
      apply exec_run? h
      case hr => intro hr; simp [hr, RunStatus.terminal] at ht
      case hu =>
        rintro d rfl
        simp only [WritesFresh, hn] at hc
        obtain ⟨m, ⟨run, hm, hrun⟩, hv⟩ := hk.next? hn
        cases h.symm.trans (hv id run hm hc)
        simp [ht] at hrun

-- In every interleaving in which no run is written between the read and the write of a request, runs
-- with a terminal status never change again.
theorem terminal_immutable {s : Store} {es₁ es₂ : List (Pool.Event Request Nat)}
    (hm : (watched deps).Meets WritesFresh (Pool.idle s, fun _ _ => false) (es₁ ++ es₂))
    (h : ((interleaved deps).run (Pool.idle s) es₁).state.run? id = some r)
    (ht : r.status.terminal = true) :
    ((interleaved deps).run (Pool.idle s) (es₁ ++ es₂)).state.run? id = some r := by
  let W := watched deps
  have hnext p o e (hk : runRows.Remembers Checked p o) :
      runRows.Remembers Checked ((interleaved deps).next p e) (runRows.outdate p o e) :=
    hk.next (fun q => checks_serve q) fun _ _ _ => rfl
  have hk : runRows.Remembers Checked (W.run (Pool.idle s, fun _ _ => false) es₁).1
      (W.run (Pool.idle s, fun _ _ => false) es₁).2 :=
    System.always (S := W) (I := fun s => runRows.Remembers Checked s.1 s.2)
      (fun s e => hnext s.1 s.2 e) .idle
  have hm' := (System.meets_append.mp hm).right
  rw [← Pool.Rows.run_watched (I := runRows) (o := fun _ _ => false)] at h ⊢
  rw [System.run_append]
  refine (System.invariant (S := W)
    (I := fun s => runRows.Remembers Checked s.1 s.2 ∧ s.1.state.run? id = some r)
    (fun s e h hc => ⟨hnext _ _ _ h.left, next_run? h.left hc h.right ht⟩) ⟨hk, h⟩ hm').right

end

-- A job is created, handed to the agent and reported. The second report is turned down.
def reportedTwice : List (Pool.Event Request Nat) :=
  [.start (.enqueueInternalJob 0 none 0 "restart" none)] ++ List.replicate 4 (.serve 0) ++
  [.start (.markJobRunStarted 0 0)] ++ List.replicate 3 (.serve 1) ++
  [.start (.reportJobResult 0 0 { status := "success" })] ++ List.replicate 3 (.serve 2)

theorem terminal_immutable_reportedTwice :
    (((interleaved .sample).run (Pool.idle .sample)
      (reportedTwice ++ [.start (.reportJobResult 0 0 { status := "failed" }), .serve 3])).state.run? 0) =
    ((interleaved .sample).run (Pool.idle .sample) reportedTwice).state.run? 0 := by
  have h : (((interleaved .sample).run (Pool.idle .sample) reportedTwice).state.run? 0).any
      (·.status.terminal) := by decide +kernel
  have ⟨r, hr, ht⟩ := (Option.any_eq_true _ _).mp h
  rw [hr]
  exact terminal_immutable (by decide +kernel) hr ht

-- The agent's report reads the run, then the sweep fails the run, then the report is written.
def lateReport : List (Pool.Event Request Nat) :=
  [.start (.enqueueInternalJob 0 none 0 "restart" none)] ++ List.replicate 4 (.serve 0) ++
  [.start (.markJobRunStarted 0 0)] ++ List.replicate 3 (.serve 1) ++
  [.world 200000, .start (.reportJobResult 0 0 { status := "success" }), .start .failStaleRunningJobs,
    .serve 2] ++ List.replicate 4 (.serve 3)

theorem terminal_changes_after_lateReport :
    (((interleaved .sample).run (Pool.idle .sample) lateReport).state.status? 0 = some .failed) ∧
    (((interleaved .sample).run (Pool.idle .sample)
      (lateReport ++ [.serve 2, .serve 2])).state.status? 0 = some .success) := by
  decide +kernel

end Jobs
