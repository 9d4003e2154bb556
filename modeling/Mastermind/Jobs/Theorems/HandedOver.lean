import Mastermind.Jobs.Theorems.Creation
import Mastermind.Jobs.Theorems.Dispatch

open Effects Prog Batches Scheduler

namespace Jobs

-- Every entry of the queue belongs to a run of its own.
structure Store.Queued (s : Store) : Prop where
  unique : (s.queue.map (·.data.jobRunId)).Nodup
  runs   : ∀ e ∈ s.queue, e.data.jobRunId < s.jobRuns.length

-- The permission to put a given run into the queue or to hand it over. A request gets it when it
-- creates the run, a poll when it takes the entry of the run, and it is given back when the entry is
-- added.
def ticket (polls : Bool) (x : RunId) : Environment controlPlane Nat where
  allows m
    | .queueAdd _ data => data.jobRunId = x → 0 < m
    | _                => True
  answers m c r m' :=
    match c, r with
    | .insertRun _, .ok id     => m' = m + if id = x then 1 else 0
    | .queueRemove _ id, .ok _ => m' = m + if polls ∧ id = x then 1 else 0
    | .queueAdd _ data, _      => m' = m - if data.jobRunId = x then 1 else 0
    | _, _                     => m' = m
  ends _ _ := False

-- There is one ticket for every run, and none for a run that does not exist yet.
def Ticketed (x : RunId) (m : Nat) (s : Store) : Prop :=
  s.queue.countP (·.data.jobRunId = x) + m ≤ if x < s.jobRuns.length then 1 else 0

-- A request that has returned a job has the job's ticket.
def Holds (x : RunId) : Result Exception (Option QueueJobData) → Nat → Prop
  | .ok (some data), m => data.jobRunId = x → 0 < m
  | _, _               => True

-- A command that neither creates a run nor adds an entry.
def Cmd.Idle : Cmd → Prop
  | insertRun _ | queueAdd .. => False
  | _                         => True

section

variable {polls : Bool} {x : RunId} {m m' n : Nat} {α β : Type} {c : Cmd} {deps : External}

theorem Cmd.Starts.idle (h : c.Starts) : c.Idle := by
  cases c <;> trivial

-- No ticket is given back by an idle command.
theorem ticket_idle {r : Except Exception c.Ans} (h : c.Idle) (ha : (ticket polls x).answers m c r m') :
    m ≤ m' := by
  cases c
  case insertRun => exact h.elim
  case queueAdd  => exact h.elim
  case queueRemove =>
    cases r
    case ok    => exact ha ▸ Nat.le_add_right ..
    case error => exact ha ▸ le_rfl
  all_goals exact ha ▸ le_rfl

theorem idle_keeps {p : Service α} {P : Cmd → Prop} (h : p.Only P) (hp : ∀ c, P c → c.Idle)
    (hm : n ≤ m) : p.wp (ticket polls x) (fun _ m => n ≤ m) m := by
  apply h.wp
  case hs => exact hm
  case hc => exact fun _ _ _ _ hc hm ha => hm.trans (ticket_idle (hp _ hc) ha)
  case ha =>
    intro _ c hc _
    have := hp c hc
    cases c <;> trivial

-- A new run comes with its ticket, which is spent on the entry of the run.
theorem creating_ticket (polls : Bool) (x : RunId) :
    Creating (ticket polls x) fun id _ m => id = x → 0 < m where
  prepares c hc _  := by cases c <;> trivial
  inserts _ _      := trivial
  adds _ _ _ hj    := hj
  inserted _ _ _ _ := by
    rintro hr rfl
    simp only [ticket, if_true] at hr
    omega

theorem idle_safe {p : Service α} {P : Cmd → Prop} (h : p.Only P) (hp : ∀ c, P c → c.Idle) :
    Safe (ticket polls x) p m :=
  safe_of_only h fun c hc _ => by
    have := hp c hc
    cases c <;> trivial

-- A poll that has taken an entry holds the ticket until it returns the job.
theorem holds_of_only {p : Service Unit} {data : QueueJobData} (h : p.Only Cmd.Starts)
    (hm : data.jobRunId = x → 0 < m) :
    (p >>= fun _ => return some data).wp (ticket true x) (Holds x) m := by
  refine wp_bind.mpr ?_
  by_cases hx : data.jobRunId = x
  case pos =>
    apply wp_mono (idle_keeps h (fun _ => Cmd.Starts.idle) (hm hx))
    intro r m hm
    cases r
    case ok    => exact fun _ => hm
    case error => trivial
    case ended => trivial
  case neg =>
    apply wp_mono (idle_safe h fun _ => Cmd.Starts.idle)
    intro r m _
    cases r
    case ok    => exact fun h => absurd h hx
    case error => trivial
    case ended => trivial

theorem holds_none {p : Service α} (h : Safe (ticket polls x) p m) :
    (p >>= fun _ => return none).wp (ticket polls x) (Holds x) m := by
  refine wp_bind.mpr (wp_mono h fun r _ _ => ?_)
  cases r <;> trivial

theorem holds_send {f : c.Ans → Service (Option QueueJobData)} (h : c.Aside)
    (hf : ∀ a m, (f a).wp (ticket polls x) (Holds x) m) :
    (send c >>= f).wp (ticket polls x) (Holds x) m := by
  refine wp_bind.mpr (wp_mono ((creating_ticket _ x).aside (.perform h)) fun r m _ => ?_)
  cases r
  case ok a  => exact hf a m
  case error => trivial
  case ended => trivial

theorem holds_claimEntry {orgId : OrgId} {entry : QueueEntry} :
    (claimEntry orgId entry).wp (ticket true x) (Holds x) m := by
  let Q := handlePost (ticket true x) (Holds x) fun _ => return none
  have hr : ∀ m, wp (ticket true x) Q
      (do send (.queueRemove orgId entry.data.jobRunId); return some entry.data) m := by
    intro m
    refine wp_bind.mpr (wp_perform.mpr ⟨trivial, ?_, False.elim⟩)
    intro r m' hr
    cases r
    case error => trivial
    case ok    =>
      intro hx
      simp only [ticket, hx, and_self, if_true] at hr
      omega
  refine wp_handle.mpr ?_
  split
  case isFalse => exact hr m
  case isTrue  =>
    refine wp_bind.mpr (wp_perform.mpr ⟨trivial, ?_, False.elim⟩)
    intro r m _
    cases r
    case ok    => exact hr m
    case error => trivial

theorem holds_claimFirst {orgId : OrgId} {hostId : HostId} {busy : Bool}
    {waiting : List QueueEntry} :
    (claimFirst orgId hostId busy waiting).wp (ticket true x) (Holds x) m := by
  induction waiting generalizing m
  case nil => trivial
  case cons entry waiting hi =>
    rw [claimFirst]
    split
    case isTrue  => exact hi
    case isFalse =>
      split
      case isTrue  => exact hi
      case isFalse =>
        refine wp_bind.mpr (wp_mono holds_claimEntry ?_)
        rintro (claimed | _ | _) m hm
        case ok    => cases claimed; exacts [hi, hm]
        case error => trivial
        case ended => trivial

theorem holds_pollRounds {orgId : OrgId} {hostId : HostId} {busy : Bool} {deadline : Time}
    {rounds : Nat} : (pollRounds orgId hostId busy deadline rounds).wp (ticket true x) (Holds x) m := by
  induction rounds generalizing m
  case zero => trivial
  case succ rounds hi =>
    have hn : (getNextJobForHost orgId hostId busy).wp (ticket true x) (Holds x) m :=
      holds_send trivial fun _ _ => holds_claimFirst
    refine wp_bind.mpr (wp_mono hn ?_)
    rintro (claimed | _ | _) m hm
    case error => trivial
    case ended => trivial
    case ok    =>
      cases claimed
      case some data => exact holds_of_only markJobRunStarted_only hm
      case none      =>
        refine holds_send trivial fun now m => ?_
        split
        case isTrue  => trivial
        case isFalse => exact hi

theorem holds_poll {hostId : HostId} {waitMs : Nat} {busy : Bool} :
    (poll hostId waitMs busy).wp (ticket true x) (Holds x) m := by
  refine holds_send trivial fun host m => ?_
  cases host
  case none => trivial
  case some => exact holds_send trivial fun _ _ => holds_pollRounds

theorem holds_serve (q : Request) : (q.serve deps).wp (ticket q.isPoll x) (Holds x) m := by
  cases q
  case createJob          => exact holds_none (creating_ticket _ x).createJob
  case enqueueInternalJob => exact holds_none (creating_ticket _ x).enqueueInternalJob
  case createBatch        => exact holds_none (creating_ticket _ x).createBatch
  case fire               => exact holds_none (creating_ticket _ x).fire
  case poll               => exact holds_poll
  case cancelBatch =>
    exact holds_none (idle_safe cancelBatch_only fun c h => by cases c <;> trivial)
  case markJobRunStarted =>
    exact holds_none (idle_safe markJobRunStarted_only fun c h => by cases c <;> trivial)
  case reportJobResult =>
    exact holds_none (idle_safe reportJobResult_only fun c h => by cases c <;> trivial)
  case reportJobProgress =>
    exact holds_none (idle_safe reportJobProgress_only fun c h => by cases c <;> trivial)
  case failStaleRunningJobs =>
    exact holds_none (idle_safe failStaleRunningJobs_only fun c h => by cases c <;> trivial)

end

section

variable {x : RunId} {m rest : Nat} {s : Store} {deps : External}

theorem Store.Queued.ticketed (h : s.Queued) : Ticketed x 0 s := by
  have hc : s.queue.countP (·.data.jobRunId = x) = (s.queue.map (·.data.jobRunId)).count x := by
    rw [List.count, List.countP_map]
    rfl
  have hu := List.nodup_iff_count_le_one.mp h.unique x
  rw [Ticketed, hc]
  split
  case isTrue     => exact hu
  case isFalse hl =>
    have hn : (s.queue.map (·.data.jobRunId)).count x = 0 := by
      refine List.count_eq_zero.mpr fun hm => ?_
      obtain ⟨e, he, rfl⟩ := List.mem_map.mp hm
      exact hl (h.runs e he)
    omega

-- The removal of an entry that is there.
theorem countP_remove {orgId : OrgId} {id : RunId} (h : (s.entry? orgId id).isSome) :
    (s.queue.filter fun e => !(e.orgId = orgId && e.data.jobRunId = id)).countP (·.data.jobRunId = x) +
      (if id = x then 1 else 0) ≤ s.queue.countP (·.data.jobRunId = x) := by
  rw [s.queue.countP_eq_countP_filter_add (·.data.jobRunId = x)
    fun e => e.orgId = orgId && e.data.jobRunId = id]
  split
  case isFalse    => omega
  case isTrue hid =>
    obtain ⟨e, he⟩ := Option.isSome_iff_exists.mp h
    have hp : 0 < (s.queue.filter fun e => e.orgId = orgId && e.data.jobRunId = id).countP
        (·.data.jobRunId = x) := by
      refine List.countP_pos_iff.mpr ⟨e, List.mem_filter.mpr ⟨List.mem_of_find?_eq_some he, ?_⟩, ?_⟩
      all_goals
        rw [Store.entry?] at he
        have := List.find?_some he
        simp_all
    omega

-- An entry is added, unless the run has one already.
theorem countP_add (orgId : OrgId) (data : QueueJobData) :
    (exec (.queueAdd orgId data) s).2.queue.countP (·.data.jobRunId = x) ≤
      s.queue.countP (·.data.jobRunId = x) + if data.jobRunId = x then 1 else 0 := by
  simp only [exec]
  split
  case isTrue  => exact Nat.le_add_right ..
  case isFalse => simp only [List.countP_append, List.countP_singleton, decide_eq_true_eq, le_rfl]

theorem exec_jobRuns_length {c : Cmd} (h : ∀ row, c ≠ .insertRun row) :
    (exec c s).2.jobRuns.length = s.jobRuns.length := by
  obtain hj | ⟨_, _, _, hj⟩ | ⟨_, _, _, _, hj⟩ | ⟨row, hc, _⟩ := exec_jobRuns c s
  case inl             => rw [hj]
  case inr.inl         => rw [hj, List.length_modify]
  case inr.inr.inl     => rw [hj, List.length_modify]
  case inr.inr.inr     => exact absurd hc (h row)

-- No other command changes the entries of a run.
theorem countP_other {c : Cmd} (ha : ∀ orgId data, c ≠ .queueAdd orgId data)
    (hr : ∀ orgId id, c ≠ .queueRemove orgId id) :
    (exec c s).2.queue.countP (·.data.jobRunId = x) = s.queue.countP (·.data.jobRunId = x) := by
  obtain hq | ⟨orgId, data, hc, _⟩ | ⟨orgId, id, delay, _, hq⟩ | ⟨orgId, id, hc, _⟩ := exec_queue c s
  case inl             => rw [hq]
  case inr.inl         => exact absurd hc (ha orgId data)
  case inr.inr.inr     => exact absurd hc (hr orgId id)
  case inr.inr.inl     =>
    rw [hq, List.countP_map]
    refine List.countP_congr fun e _ => ?_
    simp only [Function.comp_apply]
    split <;> rfl

-- A removal that resolves finds its entry in the queue.
def Store.Finds (s : Store) (c : Cmd) : Prop :=
  ∀ orgId id, c = .queueRemove orgId id →
    s.bullmq.remove (s.entry? orgId id) = true → (s.entry? orgId id).isSome

-- Every command hands tickets over between the thread, the queue and the table of runs.
theorem exec_ticketed {polls : Bool} {c : Cmd} (hp : polls = true → s.Finds c)
    (ha : (ticket polls x).allows m c) (h : Ticketed x (m + rest) s) :
    ∃ m', (ticket polls x).answers m c (exec c s).1 m' ∧ Ticketed x (m' + rest) (exec c s).2 := by
  have hl := fun h => exec_jobRuns_length (s := s) (c := c) h
  have hq := fun h h' => countP_other (s := s) (x := x) (c := c) h h'
  cases c
  case insertRun row =>
    refine ⟨m + if s.jobRuns.length = x then 1 else 0, rfl, ?_⟩
    simp only [Ticketed, exec, List.length_append, List.length_singleton] at h ⊢
    obtain hx | rfl | hx := Nat.lt_trichotomy x s.jobRuns.length
    case inl     => simpa [hx, Nat.lt_succ_of_lt hx, Nat.ne_of_gt hx] using h
    case inr.inl =>
      simp only [lt_irrefl, Nat.lt_succ_self, if_false, if_true] at h ⊢
      omega
    case inr.inr => simpa [Nat.not_lt_of_gt hx, Nat.not_lt_of_le hx, Nat.ne_of_lt hx] using h
  case queueAdd orgId data =>
    refine ⟨m - if data.jobRunId = x then 1 else 0, by simp only [exec]; split <;> rfl, ?_⟩
    have hc := countP_add (s := s) (x := x) orgId data
    have hr := hl (by simp)
    simp only [Ticketed, hr] at h ⊢
    by_cases hx : data.jobRunId = x
    case pos =>
      have := ha hx
      simp only [hx, if_true] at hc ⊢
      omega
    case neg =>
      simp only [hx, if_false] at hc ⊢
      omega
  case queueRemove orgId id =>
    simp only [exec]
    split
    case isFalse => exact ⟨m, rfl, h⟩
    case isTrue hres =>
      refine ⟨m + if polls ∧ id = x then 1 else 0, rfl, ?_⟩
      simp only [Ticketed] at h ⊢
      have hle :=
        (s.queue.filter_sublist (p := fun e => !(e.orgId = orgId && e.data.jobRunId = id))).countP_le
        (p := (·.data.jobRunId = x))
      cases hb : polls
      case false =>
        simp only [Bool.false_eq_true, false_and, if_false]
        omega
      case true =>
        have hc := countP_remove (x := x) (hp hb orgId id rfl hres)
        simp only [true_and]
        omega
  all_goals
    refine ⟨m, rfl, ?_⟩
    have hc := hq (by simp) (by simp)
    have hr := hl (by simp)
    simpa only [Ticketed, hc, hr] using h

variable {p : Requests} {e : Pool.Event Request Nat}

-- No removal of a poll resolves for an entry that is gone.
def ClaimsStored (p : Requests) : Pool.Event Request Nat → Prop
  | .serve i =>
    match p.next? i with
    | some (.poll .., .queueRemove orgId id) =>
      p.state.bullmq.remove (p.state.entry? orgId id) = true → (p.state.entry? orgId id).isSome
    | _ => True
  | _ => True

def decidableClaimsStored (s : Store) (next : Option (Request × Cmd)) : Decidable <|
    match next with
    | some (.poll .., .queueRemove orgId id) =>
      s.bullmq.remove (s.entry? orgId id) = true → (s.entry? orgId id).isSome
    | _ => True := by
  split <;> infer_instance

instance {p : Requests} {e : Pool.Event Request Nat} : Decidable (ClaimsStored p e) :=
  match e with
  | .serve i => decidableClaimsStored p.state (p.next? i)
  | .start _ | .fail _ | .world _ => inferInstanceAs (Decidable True)

theorem ClaimsStored.finds {q : Request} {c : Cmd} {i : Nat} (hc : ClaimsStored p (.serve i))
    (hn : p.next? i = some (q, c)) (hq : q.isPoll = true) : p.state.Finds c := by
  obtain ⟨_, _, _, rfl⟩ := Request.isPoll_iff.mp hq
  rintro orgId id rfl
  simpa only [ClaimsStored, hn] using hc

theorem next_ticketed (h : p.Shares (fun q => ticket q.isPoll x) (Ticketed x) fun _ => Holds x)
    (hc : ClaimsStored p e) :
    ((interleaved deps).next p e).Shares (fun q => ticket q.isPoll x) (Ticketed x) fun _ => Holds x := by
  cases e
  case start q  => exact h.start (holds_serve q)
  case world ms => exact h.world fun _ hm => hm
  case serve i  => exact h.serve fun _ _ _ _ hn => exec_ticketed (hc.finds hn)
  case fail i   =>
    refine h.fail fun _ c m rest _ hr => ?_
    cases c
    case queueAdd =>
      refine ⟨_, rfl, ?_⟩
      simp only [Ticketed] at hr ⊢
      omega
    all_goals exact ⟨m, rfl, hr⟩

-- A thread that has returned a job.
theorem thread_of_dispatched {i : Nat} (h : dispatched? p i = some x) :
    ∃ q data, data.jobRunId = x ∧ p.threads[i]? = some ⟨q, .ret (some data)⟩ := by
  obtain ⟨data, hd, rfl⟩ := Option.map_eq_some_iff.mp h
  obtain ⟨r, hr, rfl⟩ := Option.bind_eq_some_iff.mp hd
  unfold Pool.returned? at hr
  split at hr
  case h_1 q a hi => cases hr; exact ⟨q, data, rfl, hi⟩
  case h_2        => cases hr

-- A second poll is served while the first one hands its job over.
def racingPolls : List (Pool.Event Request Nat) :=
  [.start (.enqueueInternalJob 0 none 0 "restart" none)] ++ List.replicate 4 (.serve 0) ++
  [.start (.poll 0 0 false)] ++ List.replicate 4 (.serve 1) ++ [.start (.poll 0 0 false)] ++
  (List.replicate 8 [.serve 1, .serve 2]).flatten

end

end Jobs
