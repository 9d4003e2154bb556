import Mastermind.Effects.Prog

namespace Effects.Prog

variable {ε : Type} {B : Backend ε} {α β : Type} {s s' : B.State} {fs : List Fate}

-- The environment of a program that has a backend for itself. The commands that are not local meet
-- the fates of a list, in order.
def fated (B : Backend ε) : Environment B (B.State × List Fate) where
  allows _ _ := True
  answers m c r m' :=
    if B.local? c then (B.exec c m.1 = (r, m'.1)) ∧ m'.2 = m.2
    else
      match m.2.headD .served with
      | .served => (B.exec c m.1 = (r, m'.1)) ∧ m'.2 = m.2.tail
      | .failed => r = .error B.fault ∧ m' = (m.1, m.2.tail)
      | .ended  => False
  ends m c := B.local? c = false ∧ m.2.headD .served = .ended

-- A command is either served or leaves the state alone.
theorem fated_cases {c : B.Cmd} {r : Except ε (B.Ans c)} {m m' : B.State × List Fate}
    (h : (fated B).answers m c r m') : m'.1 = (B.exec c m.1).2 ∨ m'.1 = m.1 := by
  simp only [fated] at h
  split at h
  case isTrue => exact .inl (congrArg Prod.snd h.left).symm
  case isFalse =>
    split at h
    case h_1 => exact .inl (congrArg Prod.snd h.left).symm
    case h_2 => exact .inr (h.right ▸ rfl)
    case h_3 => exact h.elim

variable {Q : Result ε α → B.State × List Fate → Prop}

-- The weakest precondition speaks about the run with these fates.
theorem wp_run_fated {p : Prog B α} (h : wp (fated B) Q p (s, fs)) :
    ∃ fs', Q (p.run fs s).result ((p.run fs s).state, fs') := by
  induction p generalizing s fs
  case ret   => exact ⟨_, h⟩
  case throw => exact ⟨_, h⟩
  case call c k hi =>
    have ⟨_, ha, he⟩ := wp_call.mp h
    simp only [fated] at ha he
    rw [run]
    cases hl : B.local? c <;> simp only [hl, Bool.false_eq_true, if_true, if_false] at ha he ⊢
    case true  => exact hi _ (ha _ (_, fs) ⟨rfl, rfl⟩)
    case false =>
      cases hn : fs.headD .served <;> simp only [hn] at ha he ⊢
      case served => exact hi _ (ha _ (_, fs.tail) ⟨rfl, rfl⟩)
      case failed => exact hi _ (ha _ _ ⟨rfl, rfl⟩)
      case ended  => exact ⟨_, he ⟨trivial, trivial⟩⟩

section

variable {c : B.Cmd} {a : B.Ans c} {f : B.Ans c → Prog B α}

theorem wp_local_fated (hl : B.local? c = true) (hx : B.exec c s = (.ok a, s'))
    (hf : wp (fated B) Q (f a) (s', fs)) : wp (fated B) Q (perform c >>= f) (s, fs) := by
  refine wp_call.mpr ⟨trivial, fun r m ha => ?_, fun he => nomatch hl.symm.trans he.left⟩
  obtain ⟨s'', fs'⟩ := m
  simp only [fated, hl, if_true, hx] at ha
  obtain ⟨ha, rfl⟩ := ha
  cases ha
  exact hf

-- A command that succeeds if it is served.
theorem wp_step_fated (hl : B.local? c = false) (hx : B.exec c s = (.ok a, s'))
    (hs : fs.headD .served = .served → wp (fated B) Q (f a) (s', fs.tail))
    (hf : fs.headD .served = .failed → Q (.error B.fault) (s, fs.tail))
    (he : fs.headD .served = .ended → Q .ended (s, fs)) :
    wp (fated B) Q (perform c >>= f) (s, fs) := by
  refine wp_call.mpr ⟨trivial, fun r m ha => ?_, fun h => he h.right⟩
  obtain ⟨s'', fs'⟩ := m
  simp only [fated, hl, Bool.false_eq_true, if_false, hx] at ha
  split at ha
  case h_1 hn =>
    obtain ⟨ha, rfl⟩ := ha
    cases ha
    exact hs hn
  case h_2 hn =>
    obtain ⟨rfl, ha⟩ := ha
    cases ha
    exact hf hn
  case h_3 => exact ha.elim

theorem wp_last_fated {Q : Result ε (B.Ans c) → B.State × List Fate → Prop}
    (hl : B.local? c = false) (hx : B.exec c s = (.ok a, s'))
    (hs : fs.headD .served = .served → Q (.ok a) (s', fs.tail))
    (hf : fs.headD .served = .failed → Q (.error B.fault) (s, fs.tail))
    (he : fs.headD .served = .ended → Q .ended (s, fs)) :
    wp (fated B) Q (perform c) (s, fs) := by
  refine wp_call.mpr ⟨trivial, fun r m ha => ?_, fun h => he h.right⟩
  obtain ⟨s'', fs'⟩ := m
  simp only [fated, hl, Bool.false_eq_true, if_false, hx] at ha
  split at ha
  case h_1 hn =>
    obtain ⟨ha, rfl⟩ := ha
    cases ha
    exact hs hn
  case h_2 hn =>
    obtain ⟨rfl, ha⟩ := ha
    cases ha
    exact hf hn
  case h_3 => exact ha.elim

end

-- The first `n` fates of a list let their commands through. There is no disturbance past its end.
def Served : Nat → List Fate → Prop
  | 0, _      => True
  | n + 1, fs => fs.headD .served = .served ∧ Served n fs.tail

instance : {n : Nat} → {fs : List Fate} → Decidable (Served n fs)
  | 0, _      => .isTrue trivial
  | _ + 1, _  => @instDecidableAnd _ _ inferInstance instDecidableServed

variable {P P' : B.Cmd → Prop}

-- A program that only issues commands with the property `P` and returns if they are answered.
def Sure (P : B.Cmd → Prop) : Prog B α → Prop
  | ret _    => True
  | throw _  => False
  | call c k => P c ∧ ∀ a, (k (.ok a)).Sure P

theorem Sure.pure {a : α} : Sure P (pure a : Prog B α) :=
  trivial

theorem Sure.perform {c : B.Cmd} (h : P c) : Sure P (perform c) :=
  ⟨h, fun _ => trivial⟩

theorem Sure.bind {p : Prog B α} {f : α → Prog B β} (h : Sure P p) (hf : ∀ a, Sure P (f a)) :
    Sure P (p >>= f) := by
  change Sure P (p.bind f)
  induction p
  case ret     => exact hf _
  case throw   => exact h.elim
  case call hi => exact ⟨h.left, fun a => hi (.ok a) (h.right a)⟩

theorem Sure.ite {c : Prop} [Decidable c] {p p' : Prog B α} (h : Sure P p) (h' : Sure P p') :
    Sure P (if c then p else p') := by
  split
  case isTrue  => exact h
  case isFalse => exact h'

-- An error handler does not matter to a program that returns.
theorem Sure.handle {p : Prog B α} {f : ε → Prog B α} (h : Sure P p) : Sure P (p.handle f) := by
  induction p
  case ret     => trivial
  case throw   => exact h.elim
  case call hi => exact ⟨h.left, fun a => hi (.ok a) (h.right a)⟩

-- A program returns and keeps an assertion if its commands succeed and keep it.
theorem Sure.wp {I : B.State → Prop} {p : Prog B α} {s : B.State} (h : Sure P p)
    (hc : ∀ s c, P c → I s → ∃ a s', B.exec c s = (.ok a, s') ∧ I s') (hs : I s) :
    wp (under B .none) (returns I) p s := by
  induction p generalizing s
  case ret   => exact hs
  case throw => exact h.elim
  case call c k hi =>
    have ⟨a, s', hx, hs'⟩ := hc s c h.left hs
    refine wp_call_under.mpr ⟨?_, fun _ => False.elim, fun _ => False.elim⟩
    rw [hx]
    exact hi (.ok a) (h.right a) hs'

end Effects.Prog
