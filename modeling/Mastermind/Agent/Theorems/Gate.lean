import Mastermind.Agent.Loop
import Mastermind.Jobs.Requests

open Effects

namespace Jobs

-- What is said about the answer of a poll, holds whatever the queue and the database answer.
def anything : Prog.Environment controlPlane Unit where
  allows _ _    := True
  answers _ _ _ _ := True
  ends _ _      := False

-- A poll that is told about a mutation answers with a read-only job or with none.
def Heeds : Request → Result Exception (Option QueueJobData) → Unit → Prop
  | .poll _ _ busy, .ok (some data), _ => busy = true → isReadOnly data.type = true
  | _, _, _                            => True

section

open Prog

variable {orgId : OrgId} {hostId : HostId} {waitMs : Nat} {busy : Bool} {deps : External}
  {waiting : List QueueEntry}

-- Nothing is known after a program.
theorem wp_anything {α : Type} {p : Service α} : p.wp anything (fun _ _ => True) () :=
  Only.always.wp (fun _ _ _ _ => trivial) (fun _ _ _ _ _ _ _ => trivial) trivial

theorem wp_send_anything {α : Type} {c : Cmd} {f : c.Ans → Service α}
    {Q : Result Exception α → Unit → Prop} (hf : ∀ a, (f a).wp anything Q ())
    (he : ∀ e, Q (.error e) ()) : (send c >>= f).wp anything Q () := by
  refine wp_call.mpr ⟨trivial, fun r _ _ => ?_, nofun⟩
  match r with
  | .ok a    => exact hf a
  | .error e => exact he e

theorem claimEntry_data {entry : QueueEntry} :
    (claimEntry orgId entry).wp anything
      (fun r _ => ∀ data, r = .ok (some data) → data = entry.data) () := by
  have hn : ∀ data, Result.ok (ε := Exception) (none : Option QueueJobData) = .ok (some data) →
    data = entry.data := nofun
  have hr : (do send (.queueRemove orgId entry.data.jobRunId); return some entry.data : Service _).wp
      anything (handlePost anything (fun r _ => ∀ data, r = .ok (some data) → data = entry.data)
        fun _ => return none) () :=
    wp_send_anything (fun _ _ h => by cases h; rfl) fun _ => hn
  apply wp_handle.mpr
  split
  case isFalse => exact hr
  case isTrue  => exact wp_send_anything (fun _ => hr) fun _ => hn

theorem heeds_claimFirst (waitMs : Nat) :
    (claimFirst orgId hostId busy waiting).wp anything (Heeds (.poll hostId waitMs busy)) () := by
  induction waiting
  case nil => trivial
  case cons entry waiting hi =>
    rw [claimFirst]
    split
    case isTrue  => exact hi
    case isFalse =>
      split
      case isTrue     => exact hi
      case isFalse hb =>
        apply wp_bind.mpr
        apply wp_mono claimEntry_data
        intro r _ h
        match r with
        | .ok none        => exact hi
        | .ok (some data) => exact fun hb' => by simpa [hb', h data rfl] using hb
        | .error _        => trivial
        | .ended          => trivial

theorem heeds_pollRounds {deadline : Time} {rounds : Nat} :
    (pollRounds orgId hostId busy deadline rounds).wp anything
      (Heeds (.poll hostId waitMs busy)) () := by
  induction rounds
  case zero           => trivial
  case succ rounds hi =>
    apply wp_bind.mpr
    apply wp_send_anything
    case he => exact fun _ => trivial
    case hf =>
      intro waiting
      apply wp_mono (heeds_claimFirst waitMs)
      intro r _ h
      match r with
      | .error _        => trivial
      | .ended          => trivial
      | .ok (some data) =>
        apply wp_bind.mpr
        apply wp_mono wp_anything
        intro r _ _
        cases r
        case ok    => exact h
        case error => trivial
        case ended => trivial
      | .ok none        =>
        apply wp_send_anything
        case he => exact fun _ => trivial
        case hf =>
          intro now
          split
          case isTrue  => trivial
          case isFalse => exact hi

theorem Request.serve_heeds (q : Request) : (q.serve deps).wp anything (Heeds q) () := by
  cases q
  case poll hostId waitMs busy =>
    apply wp_send_anything
    case he => exact fun _ => trivial
    case hf =>
      intro host
      cases host
      case none => trivial
      case some => exact wp_send_anything (fun _ => heeds_pollRounds) fun _ => trivial
  all_goals
    apply wp_mono wp_anything
    intro _ _ _
    trivial

end

-- No poll of any interleaving of the control plane's requests answers with a job that changes
-- something when the request told about one that does.
theorem poll_heeds {deps : External} {s : Store} {es : List (Pool.Event Request Nat)} :
    ((interleaved deps).run (Pool.idle s) es).Follows (fun _ => anything) (fun _ _ _ => True) Heeds := by
  apply System.always
  case h  => exact Pool.Follows.idle
  case hn =>
    intro p e h
    cases e
    case start q => exact h.start trivial q.serve_heeds
    case serve i => exact h.serve ⟨fun _ _ _ _ _ _ => ⟨(), trivial, trivial⟩, by intros; trivial⟩
    case fail i  => exact h.fail fun _ _ _ _ _ _ => ⟨(), trivial, trivial⟩
    case world   => exact h.world fun _ _ _ => trivial

end Jobs

namespace Agent.Loop

-- A worker that executes its job.
def Worker.executes (readOnly : Bool) (w : Worker) : Bool :=
  w.job.isReadOnly = readOnly && w.phase = .running

-- The number of jobs that are executed, of those that are read-only or of the others.
def State.executing (s : State) (readOnly : Bool) : Nat :=
  s.workers.countP (Worker.executes readOnly)

-- The jobs that have been claimed from the queue and are not yet executed.
def Position.claimed : Position → List Job
  | answered jobs | dispatching jobs       => jobs
  | acquired job jobs | admitted job jobs  => job :: jobs
  | _                                      => []

structure Gated (limit : Nat) (s : State) : Prop where
  mutations : s.executing false ≤ 1
  reads     : s.executing true ≤ limit
  waiting   : ∀ job ∈ s.position.claimed, job.isReadOnly = false → s.executing false = 0

-- The answer of the control plane to a request.
def Respects (s : State) : Event → Prop
  | .claim jobs =>
    match s.position with
    | .requesting busy => jobs.length ≤ 1 ∧ (busy = true → ∀ job ∈ jobs, job.isReadOnly = true)
    | _                => True
  | _ => True

instance {s : State} {e : Event} : Decidable (Respects s e) := by
  unfold Respects
  split
  case h_1 => split <;> infer_instance
  case h_2 => infer_instance

namespace Worker

-- A worker whose release has not begun.
def active (readOnly : Bool) (w : Worker) : Bool :=
  w.job.isReadOnly = readOnly && (w.phase = .running || w.phase = .returned)

-- A worker that has the token.
def holding (w : Worker) : Bool :=
  w.job.isReadOnly = false && w.phase ≠ .finished

variable {w : Worker} {job : Job} {readOnly : Bool}

section

attribute [local simp] active holding

@[simp]
theorem active_running : active readOnly ⟨job, .running⟩ = decide (job.isReadOnly = readOnly) := by
  simp

@[simp]
theorem active_returned : active readOnly ⟨job, .returned⟩ = decide (job.isReadOnly = readOnly) := by
  simp

@[simp]
theorem active_lowered : active readOnly ⟨job, .lowered⟩ = false := by
  simp

@[simp]
theorem active_finished : active readOnly ⟨job, .finished⟩ = false := by
  simp

@[simp]
theorem holding_iff {phase : Phase} (h : phase ≠ .finished) :
    holding ⟨job, phase⟩ = !job.isReadOnly := by
  simp [h]

@[simp]
theorem holding_finished : holding ⟨job, .finished⟩ = false := by
  simp

end

theorem active_of_executes (h : w.executes readOnly) : w.active readOnly := by
  simp_all [executes, active]

theorem holding_of_active (h : w.active false) : w.holding := by
  simp only [active, holding, Bool.and_eq_true, Bool.or_eq_true, decide_eq_true_eq] at h ⊢
  refine ⟨h.left, fun hf => ?_⟩
  simp [hf] at h

end Worker

-- The loop has a slot or the token that no worker has yet.
def Position.holds (readOnly : Bool) : Position → Bool
  | acquired job _ | admitted job _ => job.isReadOnly = readOnly
  | _                               => false

-- The flag is up while a mutation may be executed, so that no mutation is executed from the moment in
-- which the loop finds the flag down to the moment in which the loop starts one.
structure Invariant (limit : Nat) (s : State) : Prop where
  limit   : s.readLimit = limit
  bound   : s.reads ≤ s.readLimit
  slots   : s.workers.countP (Worker.active true) + (s.position.holds true).toNat = s.reads
  token   : s.workers.countP Worker.holding + (s.position.holds false).toNat + s.mutation = 1
  lowered : s.mutationBusy = false → s.workers.countP (Worker.active false) = 0
  raised  : ∀ job jobs, s.position = .admitted job jobs → job.isReadOnly = false →
    s.mutationBusy = true
  asked   : s.position = .requesting false → s.workers.countP (Worker.active false) = 0
  single  : s.position.claimed.length ≤ 1
  claimed : ∀ job ∈ s.position.claimed, job.isReadOnly = false →
    s.workers.countP (Worker.active false) = 0

namespace Invariant

variable {limit : Nat} {s : State}

theorem start (maxConcurrentReads : Option Int) :
    Invariant (readLimit maxConcurrentReads) (State.start maxConcurrentReads) where
  limit       := rfl
  bound       := Nat.zero_le _
  slots       := rfl
  token       := rfl
  lowered _   := rfl
  raised _ _  := nofun
  asked       := nofun
  single      := Nat.zero_le _
  claimed _   := nofun

theorem gated (h : Invariant limit s) : Gated limit s := by
  have he {r} : s.executing r ≤ s.workers.countP (Worker.active r) :=
    List.countP_mono_left fun _ _ => Worker.active_of_executes
  have hh : s.workers.countP (Worker.active false) ≤ s.workers.countP Worker.holding :=
    List.countP_mono_left fun _ _ => Worker.holding_of_active
  have hs := h.slots
  have ht := h.token
  have hb := h.limit ▸ h.bound
  exact {
    mutations := by have := he (r := false); omega
    reads     := by have := he (r := true); omega
    waiting   := fun job hm hj => Nat.le_zero.mp <| h.claimed job hm hj ▸ he }

-- The loop moves on while the workers and the limiter stay as they are.
theorem move {position : Position} (h : Invariant limit s)
    (hh : ∀ readOnly, position.holds readOnly = s.position.holds readOnly)
    (hr : ∀ job jobs, position ≠ .admitted job jobs)
    (ha : position = .requesting false → s.workers.countP (Worker.active false) = 0)
    (hl : position.claimed.length ≤ 1)
    (hc : ∀ job ∈ position.claimed, job.isReadOnly = false →
      s.workers.countP (Worker.active false) = 0) :
    Invariant limit { s with position } :=
  { h with
    slots             := hh true ▸ h.slots
    token             := hh false ▸ h.token
    raised job jobs e := absurd e (hr job jobs)
    asked             := ha
    single            := hl
    claimed           := hc }

-- The cases of a step, one for each kind of event.
attribute [local simp] State.next

theorem next_request (h : Invariant limit s) : Invariant limit (s.next .request) := by
  rw [State.next]
  split
  case h_2 => exact h
  case h_1 hp =>
    apply h.move
    case hh => simp [hp, Position.holds]
    case hr => nofun
    case ha => exact fun e => h.lowered (Position.requesting.inj e)
    case hl => exact Nat.zero_le _
    case hc => nofun

theorem next_claim {jobs : List Job} (h : Invariant limit s) (hr : Respects s (.claim jobs)) :
    Invariant limit (s.next (.claim jobs)) := by
  rw [State.next]
  split
  case h_2 => exact h
  case h_1 busy hp =>
    simp only [Respects, hp] at hr
    apply h.move
    case hh => simp [hp, Position.holds]
    case hr => rintro _ _ ⟨⟩
    case ha => rintro ⟨⟩
    case hl => exact hr.left
    case hc =>
      intro job hm hj
      cases busy
      case false => exact h.asked hp
      case true  => simp [hr.right rfl job hm] at hj

theorem next_receive (h : Invariant limit s) : Invariant limit (s.next .receive) := by
  rw [State.next]
  split
  case h_3 => exact h
  case h_1 hp =>
    apply h.move
    case hh => simp [hp, Position.holds]
    case hr => nofun
    case ha => nofun
    case hl => exact Nat.zero_le _
    case hc => nofun
  case h_2 jobs _ hp =>
    have hc := h.claimed
    have hl := h.single
    rw [hp] at hc hl
    exact h.move (by simp [hp, Position.holds]) nofun nofun hl hc

theorem next_fail (h : Invariant limit s) : Invariant limit (s.next .fail) := by
  rw [State.next]
  split
  case h_3     => exact h
  case h_1 hp  => exact h.move (by simp [hp, Position.holds]) nofun nofun (Nat.zero_le _) nofun
  case h_2 hp  => exact h.move (by simp [hp, Position.holds]) nofun nofun (Nat.zero_le _) nofun

theorem next_next (h : Invariant limit s) : Invariant limit (s.next .next) := by
  rw [State.next]
  split
  case h_3    => exact h
  case h_2 hp => exact h.move (by simp [hp, Position.holds]) nofun nofun (Nat.zero_le _) nofun
  case h_1 hp =>
    split
    all_goals exact h.move (by simp [hp, Position.holds]) nofun nofun (Nat.zero_le _) nofun

theorem next_stop (h : Invariant limit s) : Invariant limit (s.next .stop) := by
  rw [State.next]
  split
  case h_3    => exact h
  case h_1 hp _ => exact h.move (by simp [hp, Position.holds]) nofun nofun (Nat.zero_le _) nofun
  case h_2 hp _ => exact h.move (by simp [hp, Position.holds]) nofun nofun (Nat.zero_le _) nofun

theorem next_cancel (h : Invariant limit s) : Invariant limit (s.next .cancel) :=
  { h with }

theorem next_acquire (h : Invariant limit s) : Invariant limit (s.next .acquire) := by
  have hs := h.slots
  have ht := h.token
  have hb := h.bound
  have hl := h.single
  have hc := h.claimed
  rw [State.next]
  split
  case h_2 => exact h
  case h_1 job jobs hp =>
    simp only [hp, Position.holds, Position.claimed, Bool.toNat_false, Nat.add_zero] at hs ht hl hc
    split
    case isTrue hj =>
      split
      case isFalse   => exact h
      case isTrue hr =>
        exact { h with
          bound   := hr
          slots   := by simp [Position.holds, hj, hs]
          token   := by simpa [Position.holds, hj] using ht
          raised  := by simp_all
          asked   := nofun
          single  := hl
          claimed := hc }
    case isFalse hj =>
      split
      case isFalse   => exact h
      case isTrue hm =>
        exact { h with
          slots   := by simpa [Position.holds, hj] using hs
          token   := by simp [Position.holds, hj]; omega
          raised  := nofun
          asked   := nofun
          single  := hl
          claimed := hc }

-- The flag goes up when nobody else has the token.
theorem next_raise (h : Invariant limit s) : Invariant limit (s.next .raise) := by
  have hs := h.slots
  have ht := h.token
  have hl := h.single
  have hc := h.claimed
  rw [State.next]
  split
  case h_2 => exact h
  case h_1 job jobs hp =>
    simp only [hp, Position.holds, Position.claimed] at hs ht hl hc
    exact { h with
      slots         := hs
      token         := ht
      lowered       := nofun
      raised _ _ _  := fun _ => rfl
      asked         := nofun
      single        := hl
      claimed       := hc }

theorem next_spawn (h : Invariant limit s) : Invariant limit (s.next .spawn) := by
  have hs := h.slots
  have ht := h.token
  have hl := h.single
  have hw := h.lowered
  rw [State.next]
  split
  case h_2 => exact h
  case h_1 job jobs hp =>
    have hr := h.raised job jobs hp
    simp only [hp, Position.holds, Position.claimed, List.length_cons] at hs ht hl
    -- There is no other job in the answer of the control plane.
    have hj : jobs = [] := List.eq_nil_of_length_eq_zero (by omega)
    exact { h with
      slots := by
        simp only [List.countP_append, List.countP_singleton, Worker.active_running, Position.holds]
        cases hi : job.isReadOnly <;> simpa [hi] using hs
      token := by
        simp only [List.countP_append, List.countP_singleton, Position.holds]
        cases hi : job.isReadOnly <;> simpa [hi] using ht
      lowered := by
        intro hb
        simp only [List.countP_append, List.countP_singleton, Worker.active_running, hw hb]
        cases hi : job.isReadOnly
        case true  => rfl
        case false => simp [hr hi] at hb
      raised  := nofun
      asked   := nofun
      single  := by simp [Position.claimed, hj]
      claimed := by simp [Position.claimed, hj] }

-- A worker that has the token is the only one, and the loop does not have it.
theorem only {w : Worker} (h : Invariant limit s) (hw : w ∈ s.workers) (hh : w.holding) :
    (s.workers.countP Worker.holding = 1) ∧
    ∀ job jobs, s.position = .admitted job jobs → job.isReadOnly = true := by
  have ht := h.token
  have hp : 0 < s.workers.countP Worker.holding := List.countP_pos_iff.mpr ⟨w, hw, hh⟩
  refine ⟨by omega, fun job jobs he => ?_⟩
  cases hj : job.isReadOnly
  case true  => rfl
  case false =>
    simp only [he, Position.holds, hj, decide_true, Bool.toNat_true] at ht
    omega

-- One worker moves on. What it holds is exchanged.
theorem countP_phase {i : Nat} {w : Worker} (p : Worker → Bool) (phase : Phase)
    (h : s.workers[i]? = some w) :
    (s.workers.modify i fun w => { w with phase }).countP p + (p w).toNat =
      s.workers.countP p + (p { w with phase }).toNat :=
  Table.countP_modify h

theorem next_work {i : Nat} (h : Invariant limit s) : Invariant limit (s.next (.work i)) := by
  have hs := h.slots
  have ht := h.token
  rw [State.next, State.work]
  split
  case h_1 => exact h
  case h_2 w hi =>
    have hm : w ∈ s.workers := List.mem_of_getElem? hi
    have hc phase r := countP_phase (Worker.active r) phase hi
    have hh phase := countP_phase Worker.holding phase hi
    have ⟨job, phase⟩ := w
    cases phase
    case finished => exact h
    case running =>
      have hc {r} := hc .returned r
      have hh := hh .returned
      simp only [Worker.active_running, Worker.active_returned, Worker.holding_iff, ne_eq,
        reduceCtorEq, not_false_eq_true, Nat.add_right_cancel_iff] at hc hh
      change Invariant limit { s with workers := s.workers.modify i fun w => { w with phase := .returned } }
      exact { h with
        slots   := hc ▸ hs
        token   := hh ▸ ht
        lowered := hc ▸ h.lowered
        asked   := hc ▸ h.asked
        claimed := hc ▸ h.claimed }
    case returned =>
      cases hj : job.isReadOnly <;> simp only
      case true =>
        have ht' := hc .finished true
        have hf' := hc .finished false
        have hh := hh .finished
        simp only [Worker.active_returned, Worker.active_finished, hj, decide_true, Bool.toNat_true,
          Bool.toNat_false, Nat.add_zero, Worker.holding_iff, Worker.holding_finished, ne_eq,
          reduceCtorEq, not_false_eq_true, Bool.not_true, decide_false] at ht' hf' hh
        exact { h with
          bound   := Nat.le_trans (Nat.sub_le _ _) h.bound
          slots   := by simp only; omega
          token   := hh ▸ ht
          lowered := hf' ▸ h.lowered
          asked   := hf' ▸ h.asked
          claimed := hf' ▸ h.claimed }
      case false =>
        have ht' := hc .lowered true
        have hf' := hc .lowered false
        have hh := hh .lowered
        simp only [Worker.active_returned, Worker.active_lowered, hj, decide_true, Bool.toNat_true,
          Bool.toNat_false, Nat.add_zero, Worker.holding_iff, ne_eq, reduceCtorEq, not_false_eq_true,
          Bool.not_false, decide_false, Bool.false_eq_true] at ht' hf' hh
        -- No other worker has the token, so that no other mutation is active.
        have ⟨ho, hp⟩ := h.only hm (by simp [hj])
        have ha := s.workers.countP_mono_left fun w _ => Worker.holding_of_active (w := w)
        have hz : (s.workers.modify i fun w => { w with phase := .lowered }).countP
            (Worker.active false) = 0 := by omega
        exact { h with
          slots   := ht' ▸ hs
          token   := by simp only; omega
          lowered := fun _ => hz
          raised  := fun _ _ he hj' => absurd (hj'.symm.trans (hp _ _ he)) Bool.false_ne_true
          asked   := fun _ => hz
          claimed := fun _ _ _ => hz }
    case lowered =>
      cases hj : job.isReadOnly <;> simp only
      case true  => exact h
      case false =>
        have hc {r} := hc .finished r
        have hh := hh .finished
        simp only [Worker.active_lowered, Worker.active_finished, hj, Bool.toNat_true, Bool.not_false,
          Bool.toNat_false, Nat.add_zero, Worker.holding_iff, Worker.holding_finished, ne_eq,
          reduceCtorEq, not_false_eq_true] at hc hh
        split
        case isFalse => exact h
        case isTrue  =>
          exact { h with
            slots   := hc ▸ hs
            token   := by simp only; omega
            lowered := hc ▸ h.lowered
            asked   := hc ▸ h.asked
            claimed := hc ▸ h.claimed }

end Invariant

theorem Invariant.next {limit : Nat} {s : State} {e : Event} (h : Invariant limit s)
    (hr : Respects s e) : Invariant limit (s.next e) := by
  cases e
  case request => exact h.next_request
  case claim   => exact h.next_claim hr
  case receive => exact h.next_receive
  case fail    => exact h.next_fail
  case acquire => exact h.next_acquire
  case raise   => exact h.next_raise
  case spawn   => exact h.next_spawn
  case next    => exact h.next_next
  case stop    => exact h.next_stop
  case work    => exact h.next_work
  case cancel  => exact h.next_cancel

-- In every run in which the control plane respects the flag of the requests, the gate holds.
theorem gate_holds {maxConcurrentReads : Option Int} {es : List Event}
    (h : loop.Meets Respects (.start maxConcurrentReads) es) :
    Gated (readLimit maxConcurrentReads) (loop.run (.start maxConcurrentReads) es) := by
  have hi := loop.invariant (I := Invariant (readLimit maxConcurrentReads))
    (fun _ _ hi hr => hi.next hr) (.start maxConcurrentReads) h
  exact hi.gated

-- A restart is executed while a listing is requested, and a second restart follows it.
def restarts : List Event :=
  [.request, .claim [⟨"1", "SERVER_RESTART"⟩], .receive, .acquire, .raise, .spawn, .next,
    .request, .claim [⟨"2", "MOD_LIST"⟩], .receive, .acquire, .spawn, .next,
    .work 0, .work 0, .work 1, .request, .claim [⟨"3", "SERVER_RESTART"⟩], .receive, .acquire,
    .work 0, .acquire, .raise, .spawn, .cancel]

theorem gate_holds_restarts :
    (loop.run (.start none) restarts).executing false = 1 ∧
      Gated (readLimit none) (loop.run (.start none) restarts) :=
  ⟨by decide, gate_holds (by decide +kernel)⟩

end Agent.Loop
