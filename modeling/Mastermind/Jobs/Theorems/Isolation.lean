import Mastermind.Jobs.Theorems.Creation
import Mastermind.Jobs.Theorems.Dispatch

open Effects Prog Batches Scheduler

namespace Jobs

-- The host whose agent makes a request.
def Request.agent? : Request → Option HostId
  | poll hostId ..              => some hostId
  | markJobRunStarted hostId _  => some hostId
  | reportJobResult hostId ..   => some hostId
  | reportJobProgress hostId .. => some hostId
  | _                           => none

-- The entries of the queue name the hosts of their runs.
def Store.Hosted (s : Store) : Prop :=
  ∀ e ∈ s.queue, ∃ run, s.run? e.data.jobRunId = some run ∧ run.hostId = e.data.hostId

-- What an answer tells about the hosts of runs.
def learned : (c : Cmd) → Except Exception c.Ans → Set (RunId × HostId)
  | .insertRun row, .ok id             => {(id, row.hostId)}
  | .findRun id, .ok (some (run, _))   => {(id, run.hostId)}
  | .queueJobs _, .ok entries          => {x | ∃ e ∈ entries, (e.data.jobRunId, e.data.hostId) = x}
  | _, _                               => ∅

-- The requests know the hosts of some runs. Those of agents change only runs of which they know that
-- they are their own.
def acquainted (q : Request) : Environment controlPlane (Set (RunId × HostId)) where
  allows m
    | .updateRun id _       =>
      (∃ hostId, q.agent? = some hostId ∧ (id, hostId) ∈ m) ∨ ∃ orgId id, q = .cancelBatch orgId id
    | .updateRunIfRunning .. => q = .failStaleRunningJobs
    | .queueAdd _ data       => (data.jobRunId, data.hostId) ∈ m
    | _                      => True
  answers m c r m' := m' = m ∪ learned c r
  ends _ _ := False

-- What the requests know is right.
def Acquainted (m : Set (RunId × HostId)) (s : Store) : Prop :=
  ∀ x ∈ m, ∃ run, s.run? x.1 = some run ∧ run.hostId = x.2

-- A job that is returned to an agent is one of its own.
def Returns (q : Request) : Result Exception (Option QueueJobData) → Set (RunId × HostId) → Prop
  | .ok (some data), m => ∃ hostId, q.agent? = some hostId ∧ (data.jobRunId, hostId) ∈ m
  | _, _               => True

-- A command that changes no runs and adds no entry.
def Cmd.Reads : Cmd → Prop
  | updateRun .. | updateRunIfRunning .. | queueAdd .. => False
  | _                                                  => True

section

variable {q : Request} {m : Set (RunId × HostId)} {α : Type} {deps : External} {x : RunId × HostId}
  {hostId : HostId} {waitMs : Nat} {busy : Bool}

theorem Cmd.Reads.allows {c : Cmd} (h : c.Reads) : (acquainted q).allows m c := by
  cases c <;> trivial

theorem Cmd.Aside.reads {c : Cmd} (h : c.Aside) : c.Reads := by
  cases c <;> trivial

theorem Cmd.Counts.reads {c : Cmd} (h : c.Counts) : c.Reads := by
  cases c <;> trivial

theorem creating_acquainted (q : Request) :
    Creating (acquainted q) fun id hostId m => (id, hostId) ∈ m where
  prepares c hc _       := by cases c <;> trivial
  inserts _ _           := trivial
  adds _ _ _ hj         := hj
  inserted _ _ _ _ hr   := hr ▸ Set.mem_union_right _ rfl

theorem reads_safe {p : Service α} (h : p.Only Cmd.Reads) : Safe (acquainted q) p m :=
  safe_of_only h fun _ hc _ => hc.allows

-- Nothing is forgotten.
theorem Safe.remembers {p : Service α} {m₀ : Set (RunId × HostId)} (h : Safe (acquainted q) p m)
    (hm : m₀ ⊆ m) : p.wp (acquainted q) (fun _ m => m₀ ⊆ m) m := by
  induction p generalizing m
  case ret   => exact hm
  case throw => exact hm
  case call c k hi =>
    refine ⟨h.1, fun r m' hr => hi r (h.2.1 r m' hr) ?_, False.elim⟩
    exact hr ▸ hm.trans Set.subset_union_left

theorem safe_send {c : Cmd} {f : c.Ans → Service α} (hc : c.Reads) (hx : x ∈ m)
    (hf : ∀ a m, x ∈ m → Safe (acquainted q) (f a) m) : Safe (acquainted q) (send c >>= f) m := by
  have hs : Safe (acquainted q) (send c) m := reads_safe (.perform hc)
  refine wp_bind.mpr (wp_mono (hs.remembers (Set.singleton_subset_iff.mpr hx)) fun r m hm => ?_)
  cases r
  case ok a  => exact hf a m (hm rfl)
  case error => trivial
  case ended => trivial

-- A request looks up a run.
theorem safe_findRun {id : RunId} {f : Option (JobRun × Job) → Service α}
    (hn : ∀ m, Safe (acquainted q) (f none) m)
    (hf : ∀ run job m, (id, run.hostId) ∈ m → Safe (acquainted q) (f (some (run, job))) m) :
    Safe (acquainted q) (send (.findRun id) >>= f) m := by
  refine wp_bind.mpr (wp_perform.mpr ⟨trivial, ?_, False.elim⟩)
  rintro (_ | _ | ⟨run, job⟩) m' rfl
  case error   => trivial
  case ok.none => exact hn _
  case ok.some => exact hf run job _ (Set.mem_union_right _ rfl)

-- An agent writes to its run.
theorem safe_updateRun {id : RunId} {d : RunData} {f : Unit → Service α} (hq : q.agent? = some hostId)
    (hm : (id, hostId) ∈ m) (hf : (f ()).Only Cmd.Reads) :
    Safe (acquainted q) (send (.updateRun id d) >>= f) m := by
  refine wp_bind.mpr (wp_perform.mpr ⟨.inl ⟨hostId, hq, hm⟩, ?_, False.elim⟩)
  intro r m _
  cases r
  case error => trivial
  case ok    => exact reads_safe hf

theorem recordJobRunStarted_reads {orgId : OrgId} {jobId : JobId} :
    (recordJobRunStarted orgId jobId).Only Cmd.Reads :=
  recordJobRunStarted_only.mono fun _ => Cmd.Counts.reads

theorem recordJobRunCompleted_reads {orgId : OrgId} {jobId : JobId} {st st' : RunStatus} :
    (recordJobRunCompleted orgId jobId st st').Only Cmd.Reads := by
  refine .bind (.perform trivial) fun found => ?_
  split
  case h_2 => exact .pure
  case h_1 =>
    refine .bind (.perform trivial) fun _ => .ite ?_ (.perform trivial)
    refine .bind (.perform trivial) fun _ => ?_
    exact .bind (.perform trivial) fun _ => .perform trivial

theorem safe_markJobRunStarted {id : RunId} (hq : q.agent? = some hostId) :
    Safe (acquainted q) (markJobRunStarted hostId id) m := by
  refine safe_findRun (fun _ => trivial) fun run job m hm => ?_
  dsimp only
  split
  case isTrue     => trivial
  case isFalse hh =>
    obtain rfl := not_not.mp hh
    split
    case isTrue  => trivial
    case isFalse =>
      refine safe_send trivial hm fun now m hm => safe_updateRun hq hm ?_
      exact .ite recordJobRunStarted_reads .pure

-- The checks on a run that an agent reports about.
theorem safe_checkReported {id : RunId} {run : JobRun} {f : Unit → Service α}
    (hm : (id, run.hostId) ∈ m) (hf : (id, hostId) ∈ m → Safe (acquainted q) (f ()) m) :
    Safe (acquainted q) (Prog.ofExcept (checkReported hostId run) >>= f) m := by
  cases hc : checkReported hostId run
  case error => trivial
  case ok    => exact hf ((checkReported_eq_ok hc).left ▸ hm)

theorem safe_reportJobResult {id : RunId} {dto : ReportResultDto} (hq : q.agent? = some hostId) :
    Safe (acquainted q) (reportJobResult deps hostId id dto) m := by
  refine safe_findRun (fun _ => trivial) fun run job m hm => safe_checkReported hm fun hm => ?_
  refine safe_send trivial hm fun now m hm => safe_updateRun hq hm ?_
  refine .bind (followUp_only.mono fun _ => Cmd.Aside.reads) fun _ => ?_
  exact .ite recordJobRunCompleted_reads .pure

theorem safe_reportJobProgress {id : RunId} {phase : String} {message : Option String}
    (hq : q.agent? = some hostId) :
    Safe (acquainted q) (reportJobProgress hostId id phase message) m := by
  refine safe_findRun (fun _ => trivial) fun run job m hm => safe_checkReported hm fun hm => ?_
  refine safe_send trivial hm fun now m hm => ?_
  exact wp_perform.mpr ⟨.inl ⟨hostId, hq, hm⟩, fun r _ _ => by cases r <;> trivial, False.elim⟩

theorem safe_failStale {cutoff : Int} {runs : List (RunId × JobRun)} :
    Safe (acquainted .failStaleRunningJobs) (failStale cutoff runs) m := by
  induction runs generalizing m
  case nil              => trivial
  case cons run runs hi =>
    obtain ⟨id, run⟩ := run
    rw [failStale]
    split
    case isTrue  => exact hi
    case isFalse =>
      refine Safe.bind (reads_safe (.perform trivial)) fun now m => ?_
      refine wp_bind.mpr (wp_perform.mpr ⟨rfl, ?_, False.elim⟩)
      intro r m _
      cases r
      case error => trivial
      case ok    => exact hi

theorem returns_none {p : Service α} (h : Safe (acquainted q) p m) :
    (p >>= fun _ => return none).wp (acquainted q) (Returns q) m := by
  refine wp_bind.mpr (wp_mono h fun r _ _ => ?_)
  cases r <;> trivial

-- The entries that a poll looks at.
def Entries (waiting : List QueueEntry) (m : Set (RunId × HostId)) : Prop :=
  ∀ e ∈ waiting, (e.data.jobRunId, e.data.hostId) ∈ m

-- What a poll knows after an attempt to claim an entry.
def Claims (hostId : HostId) (waiting : List QueueEntry) :
    Result Exception (Option QueueJobData) → Set (RunId × HostId) → Prop
  | .ok (some data), m => (data.jobRunId, hostId) ∈ m
  | _, m               => Entries waiting m

-- A read while the poll goes through the entries.
theorem claims_send {c : Cmd} {waiting : List QueueEntry}
    {f : c.Ans → Service (Option QueueJobData)}
    {Q : Result Exception (Option QueueJobData) → Set (RunId × HostId) → Prop}
    (hc : c.Reads) (hm : Entries waiting m) (hq : ∀ e m, Entries waiting m → Q (.error e) m)
    (hn : ∀ m, Entries waiting m → Q .ended m)
    (hf : ∀ a m, Entries waiting m → (f a).wp (acquainted q) Q m) :
    (send c >>= f).wp (acquainted q) Q m := by
  have hs : Safe (acquainted q) (send c) m := reads_safe (.perform hc)
  refine wp_bind.mpr (wp_mono (hs.remembers (Set.Subset.refl m)) fun r m' hsub => ?_)
  have hm := fun e he => hsub (hm e he)
  cases r
  case ok a    => exact hf a m' hm
  case error e => exact hq e m' hm
  case ended   => exact hn m' hm

theorem claims_claimEntry {orgId : OrgId} {entry : QueueEntry} {waiting : List QueueEntry}
    (he : entry ∈ waiting) (hh : entry.data.hostId = hostId) (hm : Entries waiting m) :
    (claimEntry orgId entry).wp (acquainted q) (Claims hostId waiting) m := by
  subst hh
  let Q := handlePost (acquainted q) (Claims entry.data.hostId waiting) fun _ => return none
  have hr : ∀ m, Entries waiting m → wp (acquainted q) Q
      (do send (.queueRemove orgId entry.data.jobRunId); return some entry.data) m := fun m hm =>
    claims_send trivial hm (fun _ _ hm => hm) (fun _ hm => hm) fun _ _ hm => hm entry he
  refine wp_handle.mpr ?_
  split
  case isFalse => exact hr m hm
  case isTrue  => exact claims_send trivial hm (fun _ _ hm => hm) (fun _ hm => hm) fun _ => hr

theorem claims_claimFirst {orgId : OrgId} {waiting rest : List QueueEntry} (hs : rest ⊆ waiting)
    (hm : Entries waiting m) :
    (claimFirst orgId hostId busy rest).wp (acquainted q) (Claims hostId waiting) m := by
  induction rest generalizing m
  case nil => exact hm
  case cons entry rest hi =>
    obtain ⟨he, hs⟩ := List.cons_subset.mp hs
    rw [claimFirst]
    split
    case isTrue     => exact hi hs hm
    case isFalse hh =>
      split
      case isTrue  => exact hi hs hm
      case isFalse =>
        refine wp_bind.mpr (wp_mono (claims_claimEntry he (not_not.mp hh) hm) ?_)
        rintro (claimed | _ | _) m hm
        case ok    => cases claimed; exacts [hi hs hm, hm]
        case error => exact hm
        case ended => exact hm

theorem returns_send {c : Cmd} {f : c.Ans → Service (Option QueueJobData)} (h : c.Reads)
    (hf : ∀ a m, (f a).wp (acquainted q) (Returns q) m) :
    (send c >>= f).wp (acquainted q) (Returns q) m := by
  refine wp_bind.mpr (wp_mono (reads_safe (.perform h)) fun r m _ => ?_)
  cases r
  case ok a  => exact hf a m
  case error => trivial
  case ended => trivial

theorem wp_getNextJobForHost {orgId : OrgId} :
    (getNextJobForHost orgId hostId busy).wp (acquainted q)
      (fun r m => ∀ data, r = .ok (some data) → (data.jobRunId, hostId) ∈ m) m := by
  refine wp_bind.mpr (wp_perform.mpr ⟨trivial, ?_, False.elim⟩)
  rintro (_ | entries) m' rfl
  case error => exact fun _ h => by cases h
  case ok    =>
    have hm : Entries entries (m ∪ learned (.queueJobs orgId) (.ok entries)) :=
      fun e he => Set.mem_union_right _ ⟨e, he, rfl⟩
    apply wp_mono (claims_claimFirst (List.Subset.refl entries) hm)
    rintro r m hc data rfl
    exact hc

-- A run is started while the poll holds on to its job.
theorem returns_started {data : QueueJobData} (hq : q.agent? = some hostId)
    (hm : (data.jobRunId, hostId) ∈ m) :
    (do markJobRunStarted hostId data.jobRunId; return some data).wp (acquainted q) (Returns q) m := by
  have hs : Safe (acquainted q) (markJobRunStarted hostId data.jobRunId) m :=
    safe_markJobRunStarted hq
  refine wp_bind.mpr (wp_mono (hs.remembers (Set.singleton_subset_iff.mpr hm)) fun r m hm => ?_)
  cases r
  case ok    => exact ⟨hostId, hq, hm rfl⟩
  case error => trivial
  case ended => trivial

theorem returns_pollRounds {orgId : OrgId} {deadline : Time} {rounds : Nat}
    (hq : q.agent? = some hostId) :
    (pollRounds orgId hostId busy deadline rounds).wp (acquainted q) (Returns q) m := by
  induction rounds generalizing m
  case zero           => trivial
  case succ rounds hi =>
    refine wp_bind.mpr (wp_mono wp_getNextJobForHost ?_)
    rintro (claimed | _ | _) m hm
    case error => trivial
    case ended => trivial
    case ok    =>
      cases claimed
      case some data => exact returns_started hq (hm data rfl)
      case none      =>
        refine returns_send trivial fun now m => ?_
        split
        case isTrue  => trivial
        case isFalse => exact hi

theorem returns_serve (q : Request) : (q.serve deps).wp (acquainted q) (Returns q) m := by
  have h := creating_acquainted q
  cases q
  case createJob            => exact returns_none h.createJob
  case enqueueInternalJob   => exact returns_none h.enqueueInternalJob
  case createBatch          => exact returns_none h.createBatch
  case fire                 => exact returns_none h.fire
  case markJobRunStarted    => exact returns_none (safe_markJobRunStarted rfl)
  case reportJobResult      => exact returns_none (safe_reportJobResult rfl)
  case reportJobProgress    => exact returns_none (safe_reportJobProgress rfl)
  case failStaleRunningJobs =>
    refine returns_none (Safe.bind (reads_safe (.perform trivial)) fun now m => ?_)
    exact Safe.bind (reads_safe (.perform trivial)) fun _ _ => safe_failStale
  case cancelBatch orgId batchId =>
    refine returns_none (safe_of_only cancelBatch_only fun c hc m => ?_)
    cases c
    case updateRun => exact .inr ⟨orgId, batchId, rfl⟩
    all_goals trivial
  case poll =>
    refine returns_send trivial fun host m => ?_
    cases host
    case none => trivial
    case some => exact returns_send trivial fun _ _ => returns_pollRounds rfl

end

section

variable {s : Store} {m : Set (RunId × HostId)} {c : Cmd} {q : Request} {deps : External}
  {p : Requests} {e : Pool.Event Request Nat}

theorem Acquainted.exec (h : Acquainted m s) : Acquainted m (Jobs.exec c s).2 := by
  intro x hx
  obtain ⟨run, hr, hh⟩ := h x hx
  obtain ⟨run', hr', -, hh'⟩ := exec_run?_of_some (c := c) hr
  exact ⟨run', hr', hh'.trans hh⟩

-- What the answers tell is right.
theorem acquainted_learned (hs : s.Hosted) :
    Acquainted (learned c (Jobs.exec c s).1) (Jobs.exec c s).2 := by
  intro x hx
  cases c
  case insertRun row =>
    cases hx
    exact ⟨row, by simp [Jobs.exec, Store.run?], rfl⟩
  case findRun id =>
    cases hf : s.runWithJob? id
    case none       => simp [Jobs.exec, hf, learned] at hx
    case some found =>
      obtain ⟨run, job⟩ := found
      simp only [Jobs.exec, hf, learned, Set.mem_singleton_iff] at hx
      subst hx
      exact ⟨run, (runWithJob?_eq_some.mp hf).left, rfl⟩
  case queueJobs orgId =>
    obtain ⟨e, he, rfl⟩ := hx
    exact hs e (List.mem_of_mem_filter (s.bullmq.getJobs_sub _ he))
  all_goals exact hx.elim

theorem Store.Hosted.exec (hs : s.Hosted) (h : Acquainted m s) (ha : (acquainted q).allows m c) :
    (Jobs.exec c s).2.Hosted := by
  have hk (e : QueueEntry) (he : ∃ run, s.run? e.data.jobRunId = some run ∧ run.hostId = e.data.hostId) :
      ∃ run, (Jobs.exec c s).2.run? e.data.jobRunId = some run ∧ run.hostId = e.data.hostId := by
    obtain ⟨run, hr, hh⟩ := he
    obtain ⟨run', hr', -, hh'⟩ := exec_run?_of_some (c := c) hr
    exact ⟨run', hr', hh'.trans hh⟩
  intro e he
  apply hk
  obtain hq | ⟨orgId, data, rfl, hq⟩ | ⟨orgId, id, delay, _, hq⟩ | ⟨orgId, id, _, hq⟩ :=
    exec_queue c s <;> rw [hq] at he
  case inl => exact hs e he
  case inr.inl =>
    cases List.mem_append.mp he
    case inl he => exact hs e he
    case inr he =>
      cases List.mem_singleton.mp he
      exact h _ ha
  case inr.inr.inl =>
    obtain ⟨e, hm, rfl⟩ := List.mem_map.mp he
    split <;> exact hs e hm
  case inr.inr.inr => exact hs e (List.mem_filter.mp he).left

-- Everything that the requests know about the hosts of runs is right.
def Informed (p : Requests) : Prop :=
  p.state.Hosted ∧ p.Follows acquainted (fun _ => Acquainted) Returns

theorem next_informed (h : Informed p) : Informed ((interleaved deps).next p e) := by
  obtain ⟨hs, hf⟩ := h
  cases e
  case start q => exact ⟨hs, hf.start (m := ∅) (fun _ hx => hx.elim) (returns_serve q)⟩
  case world ms => exact ⟨hs, hf.world fun _ _ hm => hm⟩
  case fail i =>
    refine ⟨by simpa using hs, hf.fail fun q c m hn hm ha => ?_⟩
    refine ⟨m, ?_, hm⟩
    have hl : learned c (.error Exception.storage) = ∅ := by cases c <;> rfl
    exact (hl ▸ Set.union_empty m).symm
  case serve i =>
    constructor
    case left =>
      change (p.serve i).state.Hosted
      obtain hp | ⟨q, c, k, hi, hp⟩ := p.serve_cases i <;> rw [hp]
      case inl => exact hs
      case inr =>
        obtain ⟨m, hm, hw⟩ := hf i _ _ hi
        exact hs.exec hm hw.1
    case right =>
      apply hf.serve
      constructor
      case other => exact fun _ _ _ _ _ _ _ _ _ _ _ hm _ => hm.exec
      case own =>
        intro q c m _ hm _
        refine ⟨_, rfl, fun x hx => ?_⟩
        cases hx
        case inl hx => exact hm.exec x hx
        case inr hx => exact acquainted_learned hs x hx

theorem run_informed {s : Store} (deps : External) (hs : s.Hosted) (es : List (Pool.Event Request Nat)) :
    Informed ((interleaved deps).run (Pool.idle s) es) :=
  System.always (fun _ _ => next_informed) ⟨hs, Pool.Follows.idle⟩

-- The host whose agent has polled and the run of the job that it has been given.
def polled? (p : Requests) (i : Nat) : Option (HostId × RunId) :=
  match p.threads[i]? with
  | some ⟨.poll hostId .., .ret (some data)⟩ => some (hostId, data.jobRunId)
  | _                                        => none

-- An agent is only given jobs of its own host.
theorem polled_own_host {s : Store} {es : List (Pool.Event Request Nat)} {i : Nat} {hostId : HostId}
    {id : RunId} (hs : s.Hosted)
    (hp : polled? ((interleaved deps).run (Pool.idle s) es) i = some (hostId, id)) :
    ∃ run, ((interleaved deps).run (Pool.idle s) es).state.run? id = some run ∧
      run.hostId = hostId := by
  obtain ⟨-, hf⟩ := run_informed deps hs es
  unfold polled? at hp
  split at hp
  case h_2 => cases hp
  case h_1 hi =>
    cases hp
    obtain ⟨m, hm, hostId, hq, hd⟩ := hf i _ _ hi
    cases hq
    exact hm _ hd

-- The requests that may change the runs of a host: those of its own agent, and two that work for
-- users.
def Request.MayChange (hostId : HostId) (q : Request) : Prop :=
  q.agent? = some hostId ∨ (∃ orgId batchId, q = .cancelBatch orgId batchId) ∨
    q = .failStaleRunningJobs

-- The runs of a host are changed by nobody else.
theorem run_changed_by_own {s : Store} {es : List (Pool.Event Request Nat)} {i : Nat} {id : RunId}
    {run : JobRun} (hs : s.Hosted)
    (hr : ((interleaved deps).run (Pool.idle s) es).state.run? id = some run)
    (hc : ((interleaved deps).run (Pool.idle s) (es ++ [.serve i])).state.run? id ≠ some run) :
    ∃ q c, ((interleaved deps).run (Pool.idle s) es).next? i = some (q, c) ∧
      q.MayChange run.hostId := by
  obtain ⟨-, hf⟩ := run_informed deps hs es
  rw [System.run_append] at hc
  generalize (interleaved deps).run (Pool.idle s) es = p at hr hc hf
  change (p.serve i).state.run? id ≠ some run at hc
  obtain hp | ⟨q, c, k, hi, hp⟩ := p.serve_cases i <;> rw [hp] at hc
  case inl => exact absurd hr hc
  case inr =>
    refine ⟨q, c, Pool.next?_eq_some.mpr ⟨k, hi⟩, ?_⟩
    obtain ⟨m, hm, hw⟩ := hf i _ _ hi
    have ha := hw.1
    simp only [Store.run?] at hr hc
    obtain hj | ⟨id', d, rfl, hj⟩ | ⟨id', d, rfl, -, hj⟩ | ⟨row, rfl, hj⟩ := exec_jobRuns c p.state
      <;> rw [hj] at hc
    case inl         => exact absurd hr hc
    case inr.inr.inr => exact absurd (Table.getElem?_append_of_some hr) hc
    case inr.inr.inl => exact .inr (.inr ha)
    case inr.inl =>
      have hid : id' = id := by
        by_contra hne
        exact hc (by rw [List.getElem?_modify, hr]; simp [hne])
      subst hid
      obtain ⟨hostId, hq, hx⟩ | ⟨orgId, batchId, rfl⟩ := ha
      case inr => exact .inr (.inl ⟨orgId, batchId, rfl⟩)
      case inl =>
        obtain ⟨run', hr', hh⟩ := hm _ hx
        cases hr.symm.trans hr'
        exact .inl (hh ▸ hq)

-- A job is created and given to the agent of its host. Then the agent reports its result.
def reported : List (Pool.Event Request Nat) :=
  [.start (.enqueueInternalJob 0 none 0 "restart" none)] ++ List.replicate 4 (.serve 0) ++
  [.start (.poll 0 0 false)] ++ List.replicate 7 (.serve 1) ++
  [.start (.reportJobResult 0 0 { status := "success" })] ++ List.replicate 2 (.serve 2)

theorem polled_own_host_reported :
    ∃ run, ((interleaved .sample).run (Pool.idle .sample) reported).state.run? 0 = some run ∧
      run.hostId = 0 :=
  polled_own_host (i := 1) (fun _ he => by cases he) (by decide +kernel)

theorem run_changed_by_own_reported :
    ∃ run, ((interleaved .sample).run (Pool.idle .sample) reported).state.run? 0 = some run ∧
      ∃ q c, ((interleaved .sample).run (Pool.idle .sample) reported).next? 2 = some (q, c) ∧
        q.MayChange run.hostId := by
  refine ⟨_, rfl, @run_changed_by_own .sample .sample reported 2 0 _ (fun _ he => by cases he) rfl ?_⟩
  intro h
  have := congrArg (Option.map JobRun.status) h
  revert this
  decide +kernel

end

end Jobs
