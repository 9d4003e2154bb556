import Mathlib.Algebra.BigOperators.Group.List.Basic
import Mastermind.Effects.Prog
import Mastermind.Effects.System
import Mastermind.Effects.Table

namespace Effects

-- A thread is a request together with what is left of the program that serves it.
structure Thread {ε : Type} (B : Backend ε) (κ ρ : Type) where
  request : κ
  prog    : Prog B ρ

-- Threads that share a backend. The threads are numbered in the order in which they were started.
structure Pool {ε : Type} (B : Backend ε) (κ ρ : Type) where
  state   : B.State
  threads : List (Thread B κ ρ)

namespace Pool

variable {ε : Type} {B : Backend ε} {κ ρ : Type}

-- The events of a pool: a request arrives, the next command of a thread is served or fails, and
-- something else happens to the state (such as time passing).
inductive Event (κ η : Type)
  | start (q : κ)
  | serve (i : Nat)
  | fail  (i : Nat)
  | world (e : η)
  deriving DecidableEq

def start (body : κ → Prog B ρ) (p : Pool B κ ρ) (q : κ) : Pool B κ ρ :=
  { p with threads := p.threads ++ [⟨q, body q⟩] }

def serve (p : Pool B κ ρ) (i : Nat) : Pool B κ ρ :=
  match p.threads[i]? with
  | some ⟨q, .call c k⟩ =>
    { state := (B.exec c p.state).2, threads := p.threads.set i ⟨q, k (B.exec c p.state).1⟩ }
  | _ => p

def fail (p : Pool B κ ρ) (i : Nat) : Pool B κ ρ :=
  match p.threads[i]? with
  | some ⟨q, .call c k⟩ =>
    if B.local? c then p else { p with threads := p.threads.set i ⟨q, k (.error B.fault)⟩ }
  | _ => p

-- The system of all interleavings.
@[reducible]
def system (body : κ → Prog B ρ) (world : η → B.State → B.State) : System where
  State := Pool B κ ρ
  Event := Event κ η
  next p
    | .start q => p.start body q
    | .serve i => p.serve i
    | .fail i  => p.fail i
    | .world e => { p with state := world e p.state }

-- No thread has been started.
def idle (s : B.State) : Pool B κ ρ :=
  ⟨s, []⟩

-- The next command of a thread and the request that the thread serves.
def next? (p : Pool B κ ρ) (i : Nat) : Option (κ × B.Cmd) :=
  match p.threads[i]? with
  | some ⟨q, .call c _⟩ => some (q, c)
  | _                   => none

-- The value that a thread has returned.
def returned? (p : Pool B κ ρ) (i : Nat) : Option ρ :=
  match p.threads[i]? with
  | some ⟨_, .ret a⟩ => some a
  | _                => none

variable {p : Pool B κ ρ} {i j : Nat} {q : κ} {c : B.Cmd}

theorem next?_eq_some :
    p.next? i = some (q, c) ↔ ∃ k, p.threads[i]? = some ⟨q, .call c k⟩ := by
  unfold next?
  split
  case h_1 q' c' k h =>
    constructor
    case mp  => rintro ⟨⟩; exact ⟨k, h⟩
    case mpr => rintro ⟨k', h'⟩; cases h.symm.trans h'; rfl
  case h_2 h =>
    constructor
    case mp  => exact fun h' => nomatch h'
    case mpr => exact fun ⟨k, h'⟩ => absurd h' (h _ _ k)

-- Serving a thread runs its next command against the state.
theorem serve_of_call {k} (h : p.threads[i]? = some ⟨q, .call c k⟩) :
    p.serve i =
      { state := (B.exec c p.state).2, threads := p.threads.set i ⟨q, k (B.exec c p.state).1⟩ } := by
  simp [serve, h]

theorem serve_of_none (h : p.next? i = none) : p.serve i = p := by
  unfold serve
  split
  case h_1 hi => simp [next?, hi] at h
  case h_2    => rfl

-- Serving a thread either does nothing or runs its next command.
theorem serve_cases (p : Pool B κ ρ) (i : Nat) :
    (p.serve i = p) ∨ ∃ q c k, (p.threads[i]? = some ⟨q, .call c k⟩) ∧
      p.serve i = { state := (B.exec c p.state).2
                    threads := p.threads.set i ⟨q, k (B.exec c p.state).1⟩ } := by
  unfold serve
  split
  case h_1 q c k h => exact .inr ⟨q, c, k, h, rfl⟩
  case h_2         => exact .inl rfl

theorem fail_cases (p : Pool B κ ρ) (i : Nat) :
    (p.fail i = p) ∨ ∃ q c k, (p.threads[i]? = some ⟨q, .call c k⟩) ∧
      p.fail i = { p with threads := p.threads.set i ⟨q, k (.error B.fault)⟩ } := by
  unfold fail
  split
  case h_1 q c k h =>
    split
    case isTrue  => exact .inl rfl
    case isFalse => exact .inr ⟨q, c, k, h, rfl⟩
  case h_2 => exact .inl rfl

@[simp]
theorem fail_state : (p.fail i).state = p.state := by
  cases p.fail_cases i
  case inl h => rw [h]
  case inr h =>
    have ⟨_, _, _, _, h⟩ := h
    rw [h]

section

variable {η : Type} {body : κ → Prog B ρ} {world : η → B.State → B.State}
  {R : B.State → B.State → Prop}

-- A step of a pool is nothing to the shared state, a command or something else that happens.
theorem next_state (hr : ∀ s, R s s) (hc : ∀ c s, R s (B.exec c s).2) (hw : ∀ w s, R s (world w s))
    (e : Event κ η) : R p.state ((system body world).next p e).state := by
  cases e
  case start => exact hr _
  case fail  => exact fail_state (p := p) ▸ hr _
  case world => exact hw ..
  case serve i =>
    change R p.state (p.serve i).state
    obtain hs | ⟨q, c, k, _, hs⟩ := p.serve_cases i <;> rw [hs]
    case inl => exact hr _
    case inr => exact hc ..

-- What every command and everything else that happens may do, is all that a run does.
theorem run_state {es : List (Event κ η)} (hr : ∀ s, R s s)
    (ht : ∀ s₁ s₂ s₃, R s₁ s₂ → R s₂ s₃ → R s₁ s₃) (hc : ∀ c s, R s (B.exec c s).2)
    (hw : ∀ w s, R s (world w s)) : R p.state ((system body world).run p es).state := by
  induction es generalizing p
  case nil          => exact hr _
  case cons e es hi => exact ht _ _ _ (next_state hr hc hw e) hi

end

-- What holds of some thread holds after a step of a thread, unless it is only about that thread.
theorem exists_set {f : Thread B κ ρ → Prop} {t t' : Thread B κ ρ} {l : List (Thread B κ ρ)}
    (hi : l[i]? = some t) (h : f t' ∨ (¬f t ∧ ∃ th ∈ l, f th)) : ∃ th ∈ l.set i t', f th := by
  obtain h | ⟨hn, th, hm, h⟩ := h
  case inl =>
    have hl : i < l.length := (List.getElem?_eq_some_iff.mp hi).choose
    exact ⟨t', List.mem_set hl t', h⟩
  case inr =>
    have ⟨j, hj⟩ := List.mem_iff_getElem?.mp hm
    have hij : i ≠ j := by
      rintro rfl
      exact hn (Option.some.inj (hi.symm.trans hj) ▸ h)
    exact ⟨th, List.mem_of_getElem? ((List.getElem?_set_ne hij).trans hj), h⟩

-- The thread at an index after another thread (or the same) was replaced.
theorem getElem?_set_cases {l : List (Thread B κ ρ)} {t t' : Thread B κ ρ}
    (h : (l.set i t)[j]? = some t') : (i = j ∧ t = t') ∨ (i ≠ j ∧ l[j]? = some t') := by
  by_cases hij : i = j
  case neg => exact .inr ⟨hij, by rwa [List.getElem?_set_ne hij] at h⟩
  case pos =>
    subst hij
    rw [List.getElem?_set] at h
    simp only [ite_true] at h
    split at h
    case isTrue  => exact .inl ⟨rfl, Option.some.inj h⟩
    case isFalse => nomatch h

section

variable {f : B.Cmd → Bool}

-- The number of threads whose next command has a given property.
def pending (f : B.Cmd → Bool) (p : Pool B κ ρ) : Nat :=
  p.threads.countP (·.prog.next?.any f)

@[simp]
theorem pending_idle {s : B.State} : (Pool.idle s : Pool B κ ρ).pending f = 0 :=
  rfl

theorem pending_start (body : κ → Prog B ρ) (q : κ) (f : B.Cmd → Bool) :
    (p.start body q).pending f = p.pending f + ((body q).next?.any f).toNat := by
  rw [pending, Pool.start, List.countP_append, pending]
  cases h : (body q).next?.any f <;> simp [h]

-- A thread's command stops being pending, and the command that follows starts to be.
theorem pending_set {k} (f : B.Cmd → Bool) (s : B.State) (prog : Prog B ρ)
    (h : p.threads[i]? = some ⟨q, .call c k⟩) :
    pending f { state := s, threads := p.threads.set i ⟨q, prog⟩ } + (f c).toNat =
      p.pending f + (prog.next?.any f).toNat := by
  rw [pending]
  exact Table.countP_set h

-- The number of the other threads whose next command has a given property.
theorem pending_others {k} (f : B.Cmd → Bool) (h : p.threads[i]? = some ⟨q, .call c k⟩) :
    ∃ a, p.pending f = a + (f c).toNat ∧ ∀ s prog,
      pending f { state := s, threads := p.threads.set i ⟨q, prog⟩ } = a + (prog.next?.any f).toNat := by
  have hs := pending_set f p.state (.throw B.fault) h
  refine ⟨_, hs.symm, fun s prog => ?_⟩
  have := pending_set f s prog h
  simp only [Prog.next?, Option.any_none, Bool.toNat_false] at hs
  omega

end

section

variable {P : B.Cmd → Prop} {body : κ → Prog B ρ}

-- Every command that a thread has still to issue has the property `P`, whatever the answers are.
def Issues (P : B.Cmd → Prop) (p : Pool B κ ρ) : Prop :=
  ∀ t ∈ p.threads, t.prog.Only P

theorem Issues.idle {s : B.State} : (Pool.idle s : Pool B κ ρ).Issues P :=
  fun _ ht => nomatch ht

theorem Issues.next? (h : p.Issues P) (hn : p.next? i = some (q, c)) : P c := by
  have ⟨_, hi⟩ := next?_eq_some.mp hn
  exact (h _ (List.mem_of_getElem? hi)).left

theorem Issues.start (h : p.Issues P) (hb : (body q).Only P) : (p.start body q).Issues P := by
  intro t ht
  cases List.mem_append.mp ht
  case inl ht => exact h t ht
  case inr ht => exact List.mem_singleton.mp ht ▸ hb

theorem Issues.set {k} {r : Except ε (B.Ans c)} {s : B.State} (h : p.Issues P)
    (hi : p.threads[i]? = some ⟨q, .call c k⟩) :
    Issues P { state := s, threads := p.threads.set i ⟨q, k r⟩ } := by
  intro t ht
  cases List.mem_or_eq_of_mem_set ht
  case inl ht => exact h t ht
  case inr ht => exact ht ▸ (h _ (List.mem_of_getElem? hi)).right r

theorem Issues.serve (h : p.Issues P) : (p.serve i).Issues P := by
  obtain hs | ⟨q, c, k, hi, hs⟩ := p.serve_cases i <;> rw [hs]
  case inl => exact h
  case inr => exact h.set hi

theorem Issues.fail (h : p.Issues P) : (p.fail i).Issues P := by
  obtain hs | ⟨q, c, k, hi, hs⟩ := p.fail_cases i <;> rw [hs]
  case inl => exact h
  case inr => exact h.set hi

variable {η : Type} {world : η → B.State → B.State} {R : B.State → B.State → Prop}

theorem Issues.next {e : Event κ η} (h : p.Issues P) (hb : ∀ q, (body q).Only P) :
    ((system body world).next p e).Issues P := by
  cases e
  case start q => exact h.start (hb q)
  case serve i => exact h.serve
  case fail i  => exact h.fail
  case world   => exact h

-- What a run does to the shared state, if all that happens to it are the commands of the requests.
theorem Issues.run_state {es : List (Event κ η)} (h : p.Issues P) (hb : ∀ q, (body q).Only P)
    (hr : ∀ s, R s s) (ht : ∀ s₁ s₂ s₃, R s₁ s₂ → R s₂ s₃ → R s₁ s₃)
    (hc : ∀ c s, P c → R s (B.exec c s).2) (hw : ∀ w s, R s (world w s)) :
    R p.state ((system body world).run p es).state := by
  induction es generalizing p
  case nil => exact hr _
  case cons e es hi =>
    refine ht _ _ _ ?_ (hi (h.next hb))
    cases e
    case start => exact hr _
    case world => exact hw ..
    case fail  => exact fail_state (p := p) ▸ hr _
    case serve i =>
      obtain hs | ⟨q, c, k, hi, hs⟩ := p.serve_cases i <;> simp only [hs]
      case inl => exact hr _
      case inr => exact hc c _ (h.next? (next?_eq_some.mpr ⟨k, hi⟩))

end

section

variable {σ : Type} {E : κ → Prog.Environment B σ} {R : κ → σ → B.State → Prop}
  {Q : κ → Result ε ρ → σ → Prop}

-- Every thread keeps to the environment of its request. The state of the environment is tied to the
-- shared state by the relation `R`.
def Follows (E : κ → Prog.Environment B σ) (R : κ → σ → B.State → Prop)
    (Q : κ → Result ε ρ → σ → Prop) (p : Pool B κ ρ) : Prop :=
  ∀ (i : Nat) (q : κ) (prog : Prog B ρ), p.threads[i]? = some ⟨q, prog⟩ →
    ∃ m, R q m p.state ∧ prog.wp (E q) (Q q) m

-- A thread's own command moves the state of its environment along. The command must not break the
-- relation for any other thread.
structure Follows.Allows (E : κ → Prog.Environment B σ) (R : κ → σ → B.State → Prop)
    (Q : κ → Result ε ρ → σ → Prop) (p : Pool B κ ρ) (i : Nat) : Prop where
  own : ∀ q c m, p.next? i = some (q, c) → R q m p.state → (E q).allows m c →
    ∃ m', (E q).answers m c (B.exec c p.state).1 m' ∧ R q m' (B.exec c p.state).2
  other : ∀ q c m, p.next? i = some (q, c) → R q m p.state → (E q).allows m c →
    ∀ (j : Nat) q' (prog : Prog B ρ) m', p.threads[j]? = some ⟨q', prog⟩ → R q' m' p.state →
      prog.wp (E q') (Q q') m' → R q' m' (B.exec c p.state).2

theorem Follows.idle {s : B.State} : (Pool.idle s : Pool B κ ρ).Follows E R Q :=
  fun _ _ _ h => nomatch h

theorem Follows.start {body : κ → Prog B ρ} (h : p.Follows E R Q) {m : σ}
    (hr : R q m p.state) (hb : (body q).wp (E q) (Q q) m) : (p.start body q).Follows E R Q := by
  intro i q' prog hi
  simp only [Pool.start] at hi ⊢
  rw [List.getElem?_append] at hi
  split at hi
  case isTrue  => exact h i q' prog hi
  case isFalse =>
    cases List.mem_singleton.mp (List.mem_of_getElem? hi)
    exact ⟨m, hr, hb⟩

theorem Follows.world {s : B.State} (h : p.Follows E R Q)
    (hr : ∀ q m, R q m p.state → R q m s) : ({ p with state := s } : Pool B κ ρ).Follows E R Q := by
  intro i q prog hi
  have ⟨m, hm, hw⟩ := h i q prog hi
  exact ⟨m, hr q m hm, hw⟩

-- A thread moves on, and its step does not break the relation for any thread.
theorem Follows.set {prog : Prog B ρ} {m : σ} {s : B.State} (h : p.Follows E R Q)
    (hw : prog.wp (E q) (Q q) m) (hr : R q m s)
    (ho : ∀ (j : Nat) q' (prog : Prog B ρ) m, p.threads[j]? = some ⟨q', prog⟩ → R q' m p.state →
      prog.wp (E q') (Q q') m → R q' m s) :
    Follows E R Q { state := s, threads := p.threads.set i ⟨q, prog⟩ } := by
  intro j q' prog' hj
  cases getElem?_set_cases hj
  case inl he =>
    obtain ⟨rfl, he⟩ := he
    cases he
    exact ⟨m, hr, hw⟩
  case inr hj =>
    have ⟨m', hm, hw'⟩ := h j _ _ hj.right
    exact ⟨m', ho j _ _ m' hj.right hm hw', hw'⟩

theorem Follows.serve (h : p.Follows E R Q) (ha : Follows.Allows E R Q p i) :
    (p.serve i).Follows E R Q := by
  obtain hs | ⟨q, c, k, hi, hs⟩ := p.serve_cases i <;> rw [hs]
  case inl => exact h
  case inr =>
    have hn : p.next? i = some (q, c) := next?_eq_some.mpr ⟨k, hi⟩
    have ⟨m, hm, hw⟩ := h i _ _ hi
    intro j q' prog hj
    cases getElem?_set_cases hj
    case inl he =>
      obtain ⟨rfl, he⟩ := he
      cases he
      have ⟨m', ha', hm'⟩ := ha.own _ _ _ hn hm hw.1
      exact ⟨m', hm', hw.2.1 _ _ ha'⟩
    case inr hj =>
      have ⟨m', hm', hw'⟩ := h j _ _ hj.right
      exact ⟨m', ha.other _ _ _ hn hm hw.1 _ _ _ _ hj.right hm' hw', hw'⟩

theorem Follows.fail (h : p.Follows E R Q)
    (ha : ∀ q c m, p.next? i = some (q, c) → R q m p.state → (E q).allows m c →
      ∃ m', (E q).answers m c (.error B.fault) m' ∧ R q m' p.state) : (p.fail i).Follows E R Q := by
  obtain hs | ⟨q, c, k, hi, hs⟩ := p.fail_cases i <;> rw [hs]
  case inl => exact h
  case inr =>
    have ⟨m, hm, hw⟩ := h i _ _ hi
    intro j q' prog hj
    cases getElem?_set_cases hj
    case inl he =>
      obtain ⟨rfl, he⟩ := he
      cases he
      have ⟨m', ha', hm'⟩ := ha _ _ _ (next?_eq_some.mpr ⟨k, hi⟩) hm hw.1
      exact ⟨m', hm', hw.2.1 _ _ ha'⟩
    case inr hj => exact h j _ _ hj.right

end

section

variable {E : Prog.Environment B Unit} {I : B.State → Prop} {body : κ → Prog B ρ}

-- The shared state has the property `I`. Every thread keeps to the environment `E`, whose answers
-- are those that a command gets while the state has the property.
structure Abides (E : Prog.Environment B Unit) (I : B.State → Prop) (p : Pool B κ ρ) : Prop where
  state   : I p.state
  threads : ∀ t ∈ p.threads, t.prog.wp E (fun _ _ => True) ()

theorem Abides.idle {s : B.State} (h : I s) : (Pool.idle s : Pool B κ ρ).Abides E I where
  state   := h
  threads := fun _ ht => nomatch ht

theorem Abides.world {s : B.State} (h : p.Abides E I) (hs : I s) :
    ({ p with state := s } : Pool B κ ρ).Abides E I where
  state   := hs
  threads := h.threads

theorem Abides.start (h : p.Abides E I) (hb : (body q).wp E (fun _ _ => True) ()) :
    (p.start body q).Abides E I where
  state   := h.state
  threads := by
    intro t ht
    cases List.mem_append.mp ht
    case inl ht => exact h.threads t ht
    case inr ht => exact List.mem_singleton.mp ht ▸ hb

-- A thread gets an answer and moves on.
theorem Abides.set {k} {r : Except ε (B.Ans c)} {s : B.State} (h : p.Abides E I)
    (hi : p.threads[i]? = some ⟨q, .call c k⟩) (hr : E.answers () c r ()) (hs : I s) :
    Abides E I { state := s, threads := p.threads.set i ⟨q, k r⟩ } where
  state   := hs
  threads := by
    intro t ht
    cases List.mem_or_eq_of_mem_set ht
    case inl ht => exact h.threads t ht
    case inr ht => exact ht ▸ (h.threads _ (List.mem_of_getElem? hi)).2.1 r () hr

theorem Abides.serve (h : p.Abides E I)
    (ha : ∀ c s, E.allows () c → I s → E.answers () c (B.exec c s).1 () ∧ I (B.exec c s).2) :
    (p.serve i).Abides E I := by
  obtain hs | ⟨q, c, k, hi, hs⟩ := p.serve_cases i <;> rw [hs]
  case inl => exact h
  case inr =>
    have ⟨hr, hs⟩ := ha c p.state (h.threads _ (List.mem_of_getElem? hi)).1 h.state
    exact h.set hi hr hs

theorem Abides.fail (h : p.Abides E I)
    (ha : ∀ c, E.allows () c → E.answers () c (.error B.fault) ()) : (p.fail i).Abides E I := by
  obtain hs | ⟨q, c, k, hi, hs⟩ := p.fail_cases i <;> rw [hs]
  case inl => exact h
  case inr => exact h.set hi (ha c (h.threads _ (List.mem_of_getElem? hi)).1) h.state

end

section

variable {σ : Type} [AddCommMonoid σ] {E : κ → Prog.Environment B σ} {R : σ → B.State → Prop}
  {Q : κ → Result ε ρ → σ → Prop} {body : κ → Prog B ρ} {prog : Prog B ρ}

theorem sum_set {ms : List σ} {m : σ} (hi : i < ms.length) :
    (ms.set i m).sum = m + (ms.eraseIdx i).sum := by
  have hl : i < (ms.set i m).length := by rwa [List.length_set]
  rw [← List.CommMonoid.add_sum_eraseIdx hl, List.getElem_set_self, List.eraseIdx_set_eq]

-- Every thread has a share, and keeps to the environment of its request with it. The relation `R`
-- ties all shares together to the shared state.
def Shares (E : κ → Prog.Environment B σ) (R : σ → B.State → Prop) (Q : κ → Result ε ρ → σ → Prop)
    (p : Pool B κ ρ) : Prop :=
  ∃ l : List (Thread B κ ρ × σ), (l.map Prod.fst = p.threads) ∧
    (∀ x ∈ l, x.1.prog.wp (E x.1.request) (Q x.1.request) x.2) ∧ R (l.map Prod.snd).sum p.state

theorem Shares.idle {s : B.State} (h : R 0 s) : (Pool.idle s : Pool B κ ρ).Shares E R Q :=
  ⟨[], rfl, by simp, h⟩

-- A request starts with an empty share.
theorem Shares.start (h : p.Shares E R Q) (hb : (body q).wp (E q) (Q q) 0) :
    (p.start body q).Shares E R Q := by
  obtain ⟨l, hl, hw, hr⟩ := h
  refine ⟨l ++ [(⟨q, body q⟩, 0)], by simp [Pool.start, hl], ?_, by simpa [Pool.start] using hr⟩
  intro x hx
  cases List.mem_append.mp hx
  case inl hx => exact hw x hx
  case inr hx => exact List.mem_singleton.mp hx ▸ hb

theorem Shares.world {s : B.State} (h : p.Shares E R Q) (hr : ∀ m, R m p.state → R m s) :
    ({ p with state := s } : Pool B κ ρ).Shares E R Q := by
  obtain ⟨l, hl, hw, h⟩ := h
  exact ⟨l, hl, hw, hr _ h⟩

-- The share of a thread and those of all others. The thread can change its share as far as this fits
-- with the shares of the others.
theorem Shares.take (h : p.Shares E R Q) (hi : p.threads[i]? = some ⟨q, prog⟩) :
    ∃ m rest, prog.wp (E q) (Q q) m ∧ R (m + rest) p.state ∧
      ∀ m' prog' s, prog'.wp (E q) (Q q) m' → R (m' + rest) s →
        Shares E R Q { state := s, threads := p.threads.set i ⟨q, prog'⟩ } := by
  obtain ⟨l, hl, hw, hr⟩ := h
  rw [← hl, List.getElem?_map] at hi
  obtain ⟨⟨t, m⟩, hi, rfl⟩ := Option.map_eq_some_iff.mp hi
  obtain ⟨hlt, hget⟩ := List.getElem?_eq_some_iff.mp hi
  have hlt' : i < (l.map Prod.snd).length := by rwa [List.length_map]
  refine ⟨m, ((l.map Prod.snd).eraseIdx i).sum, hw _ (List.mem_of_getElem? hi), ?_, ?_⟩
  case refine_1 =>
    have hm : (l.map Prod.snd)[i] = m := by rw [List.getElem_map, hget]
    rwa [← List.CommMonoid.add_sum_eraseIdx hlt', hm] at hr
  case refine_2 =>
    intro m' prog' s hw' hr'
    refine ⟨l.set i (⟨q, prog'⟩, m'), by simp [List.map_set, hl], ?_, ?_⟩
    case refine_1 =>
      intro x hx
      cases List.mem_or_eq_of_mem_set hx
      case inl hx => exact hw x hx
      case inr hx => exact hx ▸ hw'
    case refine_2 => rwa [List.map_set, sum_set hlt']

-- The shares of two different threads.
theorem Shares.two {q' : κ} {prog' : Prog B ρ} (h : p.Shares E R Q) (hij : i ≠ j)
    (hi : p.threads[i]? = some ⟨q, prog⟩) (hj : p.threads[j]? = some ⟨q', prog'⟩) :
    ∃ m m' rest, prog.wp (E q) (Q q) m ∧ prog'.wp (E q') (Q q') m' ∧
      R (m + (m' + rest)) p.state := by
  obtain ⟨l, hl, hw, hr⟩ := h
  rw [← hl, List.getElem?_map] at hi hj
  obtain ⟨⟨t, m⟩, hi, rfl⟩ := Option.map_eq_some_iff.mp hi
  obtain ⟨⟨t', m'⟩, hj, rfl⟩ := Option.map_eq_some_iff.mp hj
  obtain ⟨hlt, hget⟩ := List.getElem?_eq_some_iff.mp hi
  obtain ⟨hlt', hget'⟩ := List.getElem?_eq_some_iff.mp hj
  rw [← l.length_map Prod.snd] at hlt hlt'
  have hm : (l.map Prod.snd)[i] = m := by rw [List.getElem_map, hget]
  have hm' : (l.map Prod.snd)[j] = m' := by rw [List.getElem_map, hget']
  have hmem : m' ∈ (l.map Prod.snd).eraseIdx i :=
    List.mem_eraseIdx_iff_getElem.mpr ⟨j, hlt', hij.symm, hm'⟩
  obtain ⟨a, b, hab⟩ := List.append_of_mem hmem
  refine ⟨m, m', a.sum + b.sum, hw _ (List.mem_of_getElem? hi), hw _ (List.mem_of_getElem? hj), ?_⟩
  rw [← List.CommMonoid.add_sum_eraseIdx hlt, hm, hab, List.sum_append,
    List.sum_cons, add_left_comm a.sum m'] at hr
  exact hr

theorem Shares.serve (h : p.Shares E R Q)
    (ha : ∀ q c m rest, p.next? i = some (q, c) → (E q).allows m c → R (m + rest) p.state →
      ∃ m', (E q).answers m c (B.exec c p.state).1 m' ∧ R (m' + rest) (B.exec c p.state).2) :
    (p.serve i).Shares E R Q := by
  obtain hs | ⟨q, c, k, hi, hs⟩ := p.serve_cases i <;> rw [hs]
  case inl => exact h
  case inr =>
    obtain ⟨m, rest, hw, hr, hset⟩ := h.take hi
    obtain ⟨m', ha, hr⟩ := ha q c m rest (next?_eq_some.mpr ⟨k, hi⟩) hw.1 hr
    exact hset _ _ _ (hw.2.1 _ _ ha) hr

theorem Shares.fail (h : p.Shares E R Q)
    (ha : ∀ q c m rest, (E q).allows m c → R (m + rest) p.state →
      ∃ m', (E q).answers m c (.error B.fault) m' ∧ R (m' + rest) p.state) :
    (p.fail i).Shares E R Q := by
  obtain hs | ⟨q, c, k, hi, hs⟩ := p.fail_cases i <;> rw [hs]
  case inl => exact h
  case inr =>
    obtain ⟨m, rest, hw, hr, hset⟩ := h.take hi
    obtain ⟨m', ha, hr⟩ := ha q c m rest hw.1 hr
    exact hset _ _ _ (hw.2.1 _ _ ha) hr

end

-- The rows of a shared state: their values, what the answer to a command tells about them, and which of
-- them a command writes.
structure Rows (B : Backend ε) (ι ν : Type) where
  value       : B.State → ι → Option ν
  tells       : (c : B.Cmd) → Except ε (B.Ans c) → ι → Option ν
  writes      : B.State → B.Cmd → ι → Bool
  tells_value : ∀ {s c x v}, tells c (B.exec c s).1 x = some v → value (B.exec c s).2 x = some v
  exec_value  : ∀ {s c x v}, writes s c x = false → value s x = some v →
    value (B.exec c s).2 x = some v
  tells_fault : ∀ {c x}, tells c (.error B.fault) x = none

namespace Rows

variable {ι ν η : Type} {P : (ι → Option ν) → B.Cmd → Prop} {o : Nat → ι → Bool}
  {body : κ → Prog B ρ} {world : η → B.State → B.State}

-- What a program remembers of the rows after an answer.
def learn (I : Rows B ι ν) (m : ι → Option ν) (c : B.Cmd) (r : Except ε (B.Ans c)) : ι → Option ν :=
  fun x => (I.tells c r x).or (m x)

-- The answers are those of some state or failures, and a program remembers what they tell. Which
-- commands it may issue depends on what it remembers.
def remembering (I : Rows B ι ν) (P : (ι → Option ν) → B.Cmd → Prop) :
    Prog.Environment B (ι → Option ν) where
  allows           := P
  answers m c r m' := ((∃ s, r = (B.exec c s).1) ∨ r = .error B.fault) ∧ m' = I.learn m c r
  ends _ _         := False

-- Whether a row has been written since a thread was told about it for the last time.
def outdate (I : Rows B ι ν) (p : Pool B κ ρ) (o : Nat → ι → Bool) : Event κ η → Nat → ι → Bool
  | .serve i =>
    match p.next? i with
    | none        => o
    | some (_, c) => fun j x =>
      I.writes p.state c x || (o j x && !(j == i && (I.tells c (B.exec c p.state).1 x).isSome))
  | _ => o

-- The system of all interleavings, which keeps a record of the rows that are outdated.
@[reducible]
def watched (I : Rows B ι ν) (body : κ → Prog B ρ) (world : η → B.State → B.State) : System where
  State := Pool B κ ρ × (Nat → ι → Bool)
  Event := Event κ η
  next s e := ((system body world).next s.1 e, I.outdate s.1 s.2 e)

variable {I : Rows B ι ν}

-- The record does not interfere.
theorem run_watched {es : List (Event κ η)} :
    ((I.watched body world).run (p, o) es).1 = (system body world).run p es := by
  induction es generalizing p o
  case nil     => rfl
  case cons hi => exact hi

-- Every thread remembers the values of the rows that are not outdated.
def Remembers (I : Rows B ι ν) (P : (ι → Option ν) → B.Cmd → Prop) (p : Pool B κ ρ)
    (o : Nat → ι → Bool) : Prop :=
  ∀ i q (prog : Prog B ρ), p.threads[i]? = some ⟨q, prog⟩ →
    ∃ m, (∀ x v, m x = some v → o i x = false → I.value p.state x = some v) ∧
      prog.wp (I.remembering P) (fun _ _ => True) m

theorem Remembers.idle {s : B.State} : I.Remembers P (Pool.idle s : Pool B κ ρ) o :=
  fun _ _ _ h => nomatch h

-- A thread that is about to issue a command remembers what the command needs.
theorem Remembers.next? (h : I.Remembers P p o) (hn : p.next? i = some (q, c)) :
    ∃ m, P m c ∧ ∀ x v, m x = some v → o i x = false → I.value p.state x = some v := by
  have ⟨k, hi⟩ := next?_eq_some.mp hn
  have ⟨m, hm, hw⟩ := h i _ _ hi
  exact ⟨m, hw.1, hm⟩

theorem Remembers.start (h : I.Remembers P p o)
    (hb : (body q).wp (I.remembering P) (fun _ _ => True) fun _ => none) :
    I.Remembers P (p.start body q) o := by
  intro i q' prog hi
  simp only [Pool.start] at hi ⊢
  rw [List.getElem?_append] at hi
  split at hi
  case isTrue  => exact h i q' prog hi
  case isFalse =>
    cases List.mem_singleton.mp (List.mem_of_getElem? hi)
    exact ⟨fun _ => none, nofun, hb⟩

theorem Remembers.serve (h : I.Remembers P p o) :
    I.Remembers P (p.serve i) (I.outdate p o (.serve i : Event κ η)) := by
  cases hn : p.next? i
  case none =>
    simpa only [serve_of_none hn, outdate, hn] using h
  case some qc =>
    obtain ⟨q, c⟩ := qc
    have ⟨k, hi⟩ := next?_eq_some.mp hn
    simp only [serve_of_call hi, outdate, hn]
    intro j q' prog hj
    cases getElem?_set_cases hj
    case inl he =>
      obtain ⟨rfl, he⟩ := he
      cases he
      have ⟨m, hm, hw⟩ := h i _ _ hi
      refine ⟨_, fun x v hx ho => ?_, hw.2.1 _ _ ⟨.inl ⟨_, rfl⟩, rfl⟩⟩
      obtain ⟨hwr, ho⟩ := Bool.or_eq_false_iff.mp ho
      cases ht : I.tells c (B.exec c p.state).1 x
      case some v' =>
        have hv : v' = v := by simpa [learn, ht] using hx
        exact I.tells_value (hv ▸ ht)
      case none =>
        simp only [learn, ht, Option.none_or] at hx
        exact I.exec_value hwr (hm x v hx (by simpa [ht] using ho))
    case inr hj =>
      have ⟨m, hm, hw⟩ := h j _ _ hj.right
      refine ⟨m, fun x v hx ho => ?_, hw⟩
      obtain ⟨hwr, ho⟩ := Bool.or_eq_false_iff.mp ho
      exact I.exec_value hwr (hm x v hx (by simpa [Ne.symm hj.left] using ho))

theorem Remembers.fail (h : I.Remembers P p o) : I.Remembers P (p.fail i) o := by
  obtain hs | ⟨q, c, k, hi, hs⟩ := p.fail_cases i <;> rw [hs]
  case inl => exact h
  case inr =>
    intro j q' prog hj
    cases getElem?_set_cases hj
    case inr hj => exact h j _ _ hj.right
    case inl he =>
      obtain ⟨rfl, he⟩ := he
      cases he
      have ⟨m, hm, hw⟩ := h i _ _ hi
      refine ⟨_, fun x v hx => hm x v ?_, hw.2.1 _ _ ⟨.inr rfl, rfl⟩⟩
      rwa [learn, I.tells_fault, Option.none_or] at hx

theorem Remembers.next {e : Event κ η} (h : I.Remembers P p o)
    (hb : ∀ q, (body q).wp (I.remembering P) (fun _ _ => True) fun _ => none)
    (hw : ∀ w s x, I.value (world w s) x = I.value s x) :
    I.Remembers P ((system body world).next p e) (I.outdate p o e) := by
  cases e
  case start q => exact h.start (hb q)
  case serve i => exact h.serve
  case fail i  => exact h.fail
  case world w =>
    intro i q prog hi
    have ⟨m, hm, hp⟩ := h i q prog hi
    exact ⟨m, fun x v hx ho => (hw w p.state x).trans (hm x v hx ho), hp⟩

end Rows

end Pool
end Effects
