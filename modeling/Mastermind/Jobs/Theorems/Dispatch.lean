import Mastermind.Jobs.Theorems.Footprint

open Effects Prog

namespace Jobs

-- The run whose queue entry a command has taken.
def taken : (c : Cmd) → Except Exception c.Ans → Option RunId
  | .queueRemove _ id, .ok _ => some id
  | _, _                     => none

-- The way in which requests handle cancelled runs. The state of a poll is the run whose queue entry
-- it has just taken: the poll reads that run next, and reads runs at no other time.
def handOver (q : Request) : Environment controlPlane (Option RunId) where
  allows m c :=
    (q.footprint c) ∧
    (q.isPoll = true → ∀ id, m = some id ↔ c = .findRun id)
  answers _ c r m' := m' = if q.isPoll then taken c r else none
  ends _ _ := False

def Settled {α : Type} : Result Exception α → Option RunId → Prop :=
  fun _ m => m = none

variable {q : Request} {deps : External}

theorem handOver_serve (h : q.isPoll = false) :
    (q.serve deps).wp (handOver q) Settled none := by
  apply q.serve_only.wp (I := (· = none))
  case ha => exact fun _ _ hc _ => ⟨hc, fun hq => by simp [h] at hq⟩
  case hc =>
    intro _ _ _ _ _ _ hr
    simpa [handOver, h] using hr
  case hs => rfl

section

variable {hostId : HostId} {waitMs : Nat} {busy : Bool} {α β : Type}

-- A command with which a poll neither takes an entry nor reads a run.
def Cmd.Plain : Cmd → Prop
  | findRun _ | queueRemove .. => False
  | c => c.HandsOver

theorem Cmd.Plain.handsOver {c : Cmd} (h : c.Plain) : c.HandsOver := by
  cases c <;> first | exact h | exact h.elim

theorem Cmd.Plain.allows {c : Cmd} (h : c.Plain) :
    (handOver (.poll hostId waitMs busy)).allows none c := by
  refine ⟨h.handsOver, fun _ id => ?_⟩
  cases c <;> first | exact h.elim | simp

theorem Cmd.Plain.taken_eq_none {c : Cmd} (h : c.Plain) (r : Except Exception c.Ans) :
    taken c r = none := by
  cases c <;> first | exact h.elim | rfl

theorem handOver_plain {p : Service α} (h : p.Only Cmd.Plain) :
    p.wp (handOver (.poll hostId waitMs busy)) Settled none := by
  apply h.wp (I := (· = none))
  case ha => intro _ _ hc hm; exact hm ▸ hc.allows
  case hc => intro _ _ r _ hc _ hr; exact hr.trans (hc.taken_eq_none r)
  case hs => rfl

-- A plain command at the beginning of a program.
theorem handOver_send {c : Cmd} {f : c.Ans → Service β} {Q : Result Exception β → Option RunId → Prop}
    (h : c.Plain) (hf : ∀ a, (f a).wp (handOver (.poll hostId waitMs busy)) Q none)
    (hq : ∀ e, Q (.error e) none) :
    (send c >>= f).wp (handOver (.poll hostId waitMs busy)) Q none := by
  rw [wp_bind, wp_perform]
  refine ⟨h.allows, ?_, nofun⟩
  intro r m hr
  cases (show m = none from hr.trans (h.taken_eq_none r))
  cases r
  case ok a    => exact hf a
  case error e => exact hq e

-- A program that has returned a job has taken the job's entry.
def Claimed : Result Exception (Option QueueJobData) → Option RunId → Prop
  | .ok (some data), m => m = some data.jobRunId
  | _, m               => m = none

theorem handOver_claimEntry {orgId : OrgId} {entry : QueueEntry} :
    (claimEntry orgId entry).wp (handOver (.poll hostId waitMs busy)) Claimed none := by
  let E := handOver (.poll hostId waitMs busy)
  let Q := handlePost E Claimed fun _ => return none
  have hr : (do send (.queueRemove orgId entry.data.jobRunId); return some entry.data).wp E Q none := by
    refine wp_bind.mpr <| wp_perform.mpr ⟨⟨trivial, by simp⟩, ?_, nofun⟩
    intro r m hm
    cases r <;> exact hm
  refine wp_handle.mpr ?_
  split
  case isTrue  => exact handOver_send trivial (fun _ => hr) fun _ => rfl
  case isFalse => exact hr

theorem handOver_claimFirst {orgId : OrgId} {b : Bool} {waiting : List QueueEntry} :
    (claimFirst orgId hostId b waiting).wp (handOver (.poll hostId waitMs busy)) Claimed none := by
  induction waiting
  case nil => rfl
  case cons entry waiting hi =>
    rw [claimFirst]
    split
    case isTrue => exact hi
    case isFalse =>
      split
      case isTrue => exact hi
      case isFalse =>
        rw [wp_bind]
        apply wp_mono handOver_claimEntry
        intro r m hr
        match r with
        | .ok none        => cases hr; exact hi
        | .ok (some data) => exact hr
        | .error _        => exact hr
        | .ended          => exact hr

-- A poll that has taken an entry goes on to start the run of the entry.
theorem handOver_markJobRunStarted {hostId' : HostId} {id : RunId} :
    (markJobRunStarted hostId' id).wp (handOver (.poll hostId waitMs busy)) Settled (some id) := by
  refine wp_bind.mpr <| wp_perform.mpr ⟨⟨trivial, by simp⟩, ?_, nofun⟩
  rintro r m rfl
  match r with
  | .error _              => rfl
  | .ok none              => rfl
  | .ok (some (run, job)) =>
    refine handOver_plain <| .ite .pure <| .ite .pure ?_
    refine .bind (.perform trivial) fun _ => ?_
    refine .bind (.perform rfl) fun _ => .ite ?_ .pure
    exact recordJobRunStarted_only.mono fun c hc => by cases c <;> first | exact hc | trivial

theorem handOver_pollRounds {orgId : OrgId} {b : Bool} {deadline : Time} {rounds : Nat} :
    (pollRounds orgId hostId b deadline rounds).wp (handOver (.poll hostId waitMs busy)) Settled none := by
  induction rounds
  case zero => rfl
  case succ rounds hi =>
    rw [pollRounds, wp_bind]
    refine handOver_send trivial (fun waiting => ?_) fun _ => rfl
    apply wp_mono handOver_claimFirst
    intro r m hr
    match r with
    | .error _        => exact hr
    | .ended          => exact hr
    | .ok (some data) =>
      cases hr
      refine wp_bind.mpr <| wp_mono handOver_markJobRunStarted ?_
      intro r m hr
      cases r <;> exact hr
    | .ok none =>
      cases hr
      refine handOver_send trivial (fun now => ?_) fun _ => rfl
      split
      case isTrue  => rfl
      case isFalse => exact hi

theorem handOver_poll {b : Bool} :
    (poll hostId waitMs b).wp (handOver (.poll hostId waitMs busy)) Settled none := by
  refine handOver_send trivial (fun host => ?_) fun _ => rfl
  cases host
  case none => rfl
  case some => exact handOver_send trivial (fun _ => handOver_pollRounds) fun _ => rfl

end

theorem handOver_serve_any (q : Request) : (q.serve deps).wp (handOver q) Settled none := by
  cases h : q.isPoll
  case false => exact handOver_serve h
  case true  => cases q <;> first | exact handOver_poll | cases h

-- Whether a thread is a poll that is about to read a given run.
def reads (id : RunId) : Option (Request × Cmd) → Bool
  | some (.poll .., .findRun id') => id = id'
  | _                             => false

-- No poll removes the queue entry of a run that is already cancelled (be it that the entry is gone and
-- the removal resolves all the same), and no run is cancelled after a poll has removed its entry and
-- before the poll has read it.
def NoCancelInHandOver (p : Requests) : Pool.Event Request Nat → Prop
  | .serve i =>
    match p.next? i with
    | some (.poll .., .queueRemove orgId id) =>
      p.state.bullmq.remove (p.state.entry? orgId id) = true → p.state.status? id ≠ some .cancelled
    | some (.cancelBatch .., .updateRun id _) => ∀ j < p.threads.length, reads id (p.next? j) = false
    | _ => True
  | _ => True

instance {p : Requests} {e : Pool.Event Request Nat} : Decidable (NoCancelInHandOver p e) :=
  match e with
  | .serve _ => by dsimp only [NoCancelInHandOver]; split <;> infer_instance
  | .start _ | .fail _ | .world _ => inferInstanceAs (Decidable True)

-- A run whose entry a poll has just taken is not cancelled.
def NotCancelled (q : Request) (m : Option RunId) (s : Store) : Prop :=
  ∀ id, m = some id → (q.isPoll = true) ∧ s.status? id ≠ some .cancelled

variable {p : Requests} {e : Pool.Event Request Nat}

-- A thread that has just taken an entry is about to read the run of the entry.
theorem handOver_reads {i : Nat} {prog : Service (Option QueueJobData)} {id : RunId}
    (hi : p.threads[i]? = some ⟨q, prog⟩) (hq : q.isPoll = true)
    (hw : prog.wp (handOver q) Settled (some id)) : reads id (p.next? i) = true := by
  cases prog
  case ret   => cases hw
  case throw => cases hw
  case call c k =>
    cases (hw.1.right hq id).mp rfl
    have ⟨_, _, _, hq⟩ := Request.isPoll_iff.mp hq
    simp [Pool.next?_eq_some.mpr ⟨k, hi⟩, hq, reads]

-- A poll that takes an entry takes the entry of a run that is not cancelled.
theorem taken_notCancelled {i : Nat} {c : Cmd} {id : RunId} (hc : NoCancelInHandOver p (.serve i))
    (hn : p.next? i = some (q, c)) (hq : q.isPoll = true) (h : taken c (exec c p.state).1 = some id) :
    (exec c p.state).2.status? id ≠ some .cancelled := by
  obtain ⟨_, _, _, rfl⟩ := Request.isPoll_iff.mp hq
  cases c
  case queueRemove orgId id' =>
    simp only [NoCancelInHandOver, hn] at hc
    simp only [exec] at h ⊢
    split at h
    case isFalse => cases h
    case isTrue he =>
      cases h
      rw [if_pos he]
      exact hc he
  all_goals cases h

-- No command cancels a run that another thread is about to read in order to hand it over.
theorem other_notCancelled {i j : Nat} {c : Cmd} {id : RunId} (hc : NoCancelInHandOver p (.serve i))
    (hn : p.next? i = some (q, c)) (hf : q.footprint c) (h : p.state.status? id ≠ some .cancelled)
    (hr : reads id (p.next? j) = true) : (exec c p.state).2.status? id ≠ some .cancelled := by
  cases exec_status? c p.state id
  case inl he => exact he ▸ h
  case inr hi =>
    obtain ⟨d, st, hd, hs, he⟩ | ⟨row, rfl, he⟩ := hi <;> rw [he]
    case inr => simp [Request.footprint_insertRun hf]
    case inl =>
      rintro ⟨⟩
      cases hd
      case inr hd => cases hs.symm.trans <| Request.footprint_updateRunIfRunning (hd ▸ hf)
      case inl hd =>
        subst hd
        obtain ⟨_, _, rfl⟩ := Request.footprint_cancelled hf hs
        simp only [NoCancelInHandOver, hn] at hc
        have hj : j < p.threads.length := by
          by_contra hj
          simp [Pool.next?, List.getElem?_eq_none (Nat.le_of_not_lt hj), reads] at hr
        simp [hc j hj] at hr

-- A poll that is about to read a run has just taken the run's entry.
theorem reads_notCancelled {i : Nat} {id : RunId}
    (h : p.Follows handOver NotCancelled fun _ => Settled) (hr : reads id (p.next? i) = true) :
    p.state.status? id ≠ some .cancelled := by
  unfold reads at hr
  split at hr
  case h_2 => nomatch hr
  case h_1 hn =>
    cases of_decide_eq_true hr
    have ⟨k, hi⟩ := Pool.next?_eq_some.mp hn
    have ⟨m, hm, hw⟩ := h i _ _ hi
    exact (hm id <| (hw.1.right rfl id).mpr rfl).right

theorem next_notCancelled (h : p.Follows handOver NotCancelled fun _ => Settled)
    (hc : NoCancelInHandOver p e) :
    ((interleaved deps).next p e).Follows handOver NotCancelled fun _ => Settled := by
  cases e
  case start q  => exact h.start (m := none) nofun (handOver_serve_any q)
  case world ms => exact h.world fun _ _ hm => hm
  case fail i =>
    apply h.fail
    intro q c m hn hm ha
    refine ⟨_, rfl, ?_⟩
    intro id hid
    cases c <;> simp [taken] at hid
  case serve i =>
    apply h.serve
    constructor
    case own =>
      intro q c m hn _ _
      refine ⟨_, rfl, ?_⟩
      intro id hid
      cases hq : q.isPoll <;> simp only [hq, Bool.false_eq_true, if_false, if_true] at hid
      case false => nomatch hid
      case true  => exact ⟨rfl, taken_notCancelled hc hn hq hid⟩
    case other =>
      intro q c m hn hm ha j q' prog m' hj hm' hw
      rintro id rfl
      have ⟨hq', hs⟩ := hm' id rfl
      exact ⟨hq', other_notCancelled hc hn ha.left hs <| handOver_reads hj hq' hw⟩

-- The run of the job that a poll has returned to the agent.
def dispatched? (p : Requests) (i : Nat) : Option RunId :=
  ((p.returned? i).bind id).map (·.jobRunId)

-- If entries of cancelled runs are not taken and runs are not cancelled while they are handed over,
-- no poll returns a job whose run was cancelled when the poll has read it.
theorem cancelled_not_dispatched {s : Store} {es₁ es₂ : List (Pool.Event Request Nat)} {i : Nat}
    {id : RunId}
    (hm : (interleaved deps).Meets NoCancelInHandOver (Pool.idle s) (es₁ ++ .serve i :: es₂))
    (hr : reads id (((interleaved deps).run (Pool.idle s) es₁).next? i) = true) :
    ¬(((interleaved deps).run (Pool.idle s) es₁).state.status? id = some .cancelled ∧
      dispatched? ((interleaved deps).run (Pool.idle s) (es₁ ++ .serve i :: es₂)) i = some id) := by
  intro ⟨hs, _⟩
  have hf : ((interleaved deps).run (Pool.idle s) es₁).Follows handOver NotCancelled fun _ => Settled :=
    System.invariant (fun _ _ => next_notCancelled) Pool.Follows.idle hm.earlier
  exact reads_notCancelled hf hr hs

-- A job is created and handed to the agent.
def handedOver : List (Pool.Event Request Nat) :=
  [.start (.enqueueInternalJob 0 none 0 "restart" none)] ++ List.replicate 4 (.serve 0) ++
  [.start (.poll 0 0 false)] ++ List.replicate 4 (.serve 1)

theorem cancelled_not_dispatched_handedOver :
    ¬(((interleaved .sample).run (Pool.idle .sample) handedOver).state.status? 0 = some .cancelled ∧
      dispatched? ((interleaved .sample).run (Pool.idle .sample)
        (handedOver ++ [.serve 1, .serve 1, .serve 1])) 1 = some 0) :=
  cancelled_not_dispatched (by decide +kernel) (by decide +kernel)

-- The cancellation of a batch writes the run, then a poll takes the run's entry and reads the run.
def lateCancel : List (Pool.Event Request Nat) :=
  [.start (.createBatch 0 none (.restartWave 0 []))] ++
  List.replicate 7 (.serve 0) ++ [.start (.cancelBatch 0 0)] ++ List.replicate 3 (.serve 1) ++
  [.start (.poll 0 0 false)] ++ List.replicate 4 (.serve 2)

theorem cancelled_dispatched_lateCancel :
    (reads 0 (((interleaved .sample).run (Pool.idle .sample) lateCancel).next? 2) = true) ∧
    (((interleaved .sample).run (Pool.idle .sample) lateCancel).state.status? 0 = some .cancelled) ∧
    (dispatched? ((interleaved .sample).run (Pool.idle .sample) (lateCancel ++ [.serve 2])) 2 = some 0) := by
  decide +kernel

end Jobs
