import Mastermind.Effects.Runs

namespace Effects.Prog

variable {ε : Type} {B : Backend ε} {α β : Type}

-- The fates of a run in which one command fails: the one that is issued after `i` others, the local
-- ones apart.
def failingAt (i : Nat) : List Fate :=
  List.replicate i .served ++ [.failed]

-- A backend of which at most one command fails. The state tells whether one has failed.
def once (B : Backend ε) : Environment B (B.State × Bool) where
  allows _ _       := True
  answers m c r m' :=
    (B.exec c m.1 = (r, m'.1) ∧ m'.2 = m.2) ∨
    (m.2 = false ∧ B.local? c = false ∧ r = .error B.fault ∧ m' = (m.1, true))
  ends _ _         := False

variable {Q : Result ε α → B.State × Bool → Prop} {s s' : B.State} {used : Bool} {c : B.Cmd}
  {p : Prog B α}

theorem wp_call_once {k : Except ε (B.Ans c) → Prog B α} :
    wp (once B) Q (call c k) (s, used) ↔
      wp (once B) Q (k (B.exec c s).1) ((B.exec c s).2, used) ∧
      (used = false → B.local? c = false → wp (once B) Q (k (.error B.fault)) (s, true)) := by
  rw [wp_call]
  constructor
  case mp =>
    intro ⟨_, ha, _⟩
    exact ⟨ha _ (_, used) (.inl ⟨rfl, rfl⟩), fun hu hl => ha _ _ (.inr ⟨hu, hl, rfl, rfl⟩)⟩
  case mpr =>
    intro ⟨hs, hf⟩
    refine ⟨trivial, ?_, False.elim⟩
    rintro r ⟨s', used'⟩ (⟨hx, rfl⟩ | ⟨hu, hl, rfl, h⟩)
    case inl => simpa [show B.exec c s = (r, s') from hx] using hs
    case inr => cases h; exact hf hu hl

-- Once a command has failed, all others are served.
theorem wp_once_used :
    wp (once B) Q p (s, true) ↔ Q (p.run [] s).result ((p.run [] s).state, true) := by
  induction p generalizing s
  case ret   => exact Iff.rfl
  case throw => exact Iff.rfl
  case call c k hi =>
    rw [wp_call_once, hi, and_iff_left (fun h => nomatch h), run]
    split <;> rfl

theorem wp_once_of_none {I : B.State → Prop} (h : wp (under B .none) (returns I) p s) :
    wp (once B) (returns fun m => I m.1) p (s, true) := by
  have h := wp_run_nil h
  rw [wp_once_used]
  cases hr : (p.run [] s).result
  case ok    => exact (hr ▸ h : returns I (.ok _) _)
  case error => exact (hr ▸ h : returns I (.error _) _).elim
  case ended => exact (hr ▸ h : returns I .ended _).elim

-- A program may meet any of the runs in which one command fails.
theorem wp_once_iff {Q : Result ε α → B.State → Prop} :
    wp (once B) (fun r m => Q r m.1) p (s, false) ↔
      ∀ i, Q (p.run (failingAt i) s).result (p.run (failingAt i) s).state := by
  induction p generalizing s
  case ret   => exact ⟨fun h _ => h, fun h => h 0⟩
  case throw => exact ⟨fun h _ => h, fun h => h 0⟩
  case call c k hi =>
    rw [wp_call_once, hi, wp_once_used]
    cases hl : B.local? c
    case true => simp [run, hl, Run.after]
    case false =>
      simp only [run, hl, Bool.false_eq_true, if_false, forall_const]
      constructor
      case mp =>
        rintro ⟨hs, hf⟩ i
        cases i
        case zero   => exact hf
        case succ i => exact hs i
      case mpr => exact fun h => ⟨fun i => h (i + 1), h 0⟩

-- No command has to fail.
theorem wp_once_nil (h : wp (once B) Q p (s, used)) :
    Q (p.run [] s).result ((p.run [] s).state, used) := by
  induction p generalizing s
  case ret   => exact h
  case throw => exact h
  case call c k hi =>
    have hr := hi _ (wp_call_once.mp h).left
    rw [run]
    split <;> exact hr

-- What no command destroys, holds wherever the program stops.
theorem Only.wp_once {P : B.Cmd → Prop} {I : B.State → Prop} (h : Only P p)
    (hc : ∀ s c, P c → I s → I (B.exec c s).2) (hs : I s) :
    Prog.wp (once B) (fun _ m => I m.1) p (s, used) := by
  apply h.wp
  case ha => exact fun _ _ _ _ => trivial
  case hs => exact hs
  case hc =>
    rintro m c r m' hp hs (⟨hx, _⟩ | ⟨_, _, _, h⟩)
    case inl =>
      have := hc m.1 c hp hs
      rwa [hx] at this
    case inr => rwa [h]

-- A program goes on with the answer to a command, unless the command fails.
theorem wp_step_once {f : B.Ans c → Prog B α} {a : B.Ans c} (hx : B.exec c s = (.ok a, s'))
    (hf : wp (once B) Q (f a) (s', used)) (he : used = false → Q (.error B.fault) (s, true)) :
    wp (once B) Q (perform c >>= f) (s, used) := by
  change wp (once B) Q (call c _) (s, used)
  rw [wp_call_once, hx]
  exact ⟨hf, fun hu _ => he hu⟩

theorem wp_stop_once {f : B.Ans c → Prog B α} {e : ε} (hx : B.exec c s = (.error e, s'))
    (hq : Q (.error e) (s', used)) (he : used = false → Q (.error B.fault) (s, true)) :
    wp (once B) Q (perform c >>= f) (s, used) := by
  change wp (once B) Q (call c _) (s, used)
  rw [wp_call_once, hx]
  exact ⟨hq, fun hu _ => he hu⟩

theorem wp_perform_once {Q : Result ε (B.Ans c) → B.State × Bool → Prop} :
    wp (once B) Q (perform c) (s, used) ↔
      ansPost (fun r s' => Q r (s', used)) (B.exec c s).1 (B.exec c s).2 ∧
      (used = false → B.local? c = false → Q (.error B.fault) (s, true)) := by
  rw [perform, wp_call_once]
  refine and_congr ?_ Iff.rfl
  cases (B.exec c s).1 <;> exact Iff.rfl

theorem wp_last_once {Q : Result ε (B.Ans c) → B.State × Bool → Prop} {a : B.Ans c}
    (hx : B.exec c s = (.ok a, s')) (hq : Q (.ok a) (s', used))
    (he : used = false → Q (.error B.fault) (s, true)) : wp (once B) Q (perform c) (s, used) := by
  rw [wp_perform_once, hx]
  exact ⟨hq, fun hu _ => he hu⟩

-- Nothing is forbidden, and no program is ended.
theorem wp_once_any (hq : ∀ r m, r ≠ .ended → Q r m) : wp (once B) Q p (s, used) := by
  induction p generalizing s used
  case ret a       => exact hq _ _ (fun h => nomatch h)
  case throw e     => exact hq _ _ (fun h => nomatch h)
  case call c k hi => exact wp_call_once.mpr ⟨hi _, fun _ _ => hi _⟩

-- A failure is not forgotten.
theorem wp_once_kept : wp (once B) (fun _ m => used = true → m.2 = true) p (s, used) := by
  cases used
  case false => exact wp_once_any fun _ _ _ h => nomatch h
  case true  => exact wp_once_used.mpr fun _ => rfl

-- An assertion about a program that returns.
def yields {ε α σ : Type} (P : α → σ → Prop) : Result ε α → σ × Bool → Prop
  | .ok a, m => P a m.1
  | _, _     => False

section

variable {f : α → Prog B β} {f' : B.Ans c → Prog B α} {Q' : Result ε β → B.State × Bool → Prop}
  {P : α → B.State → Prop}

-- What may happen to a program, may happen to its rest once its first part has been served.
theorem wp_once_rest (h : wp (once B) Q' (p >>= f) (s, used))
    (hp : wp (once B) (yields P) p (s, true)) :
    ∃ a s', P a s' ∧ wp (once B) Q' (f a) (s', used) := by
  have h := wp_once_nil (wp_bind.mp h)
  have hp := wp_once_used.mp hp
  cases hr : (p.run [] s).result
  case ok a =>
    rw [hr] at h hp
    exact ⟨a, _, hp, h⟩
  case error => exact (hr ▸ hp : yields P (.error _) _).elim
  case ended => exact (hr ▸ hp : yields P .ended _).elim

theorem wp_served_once {a : B.Ans c} (h : wp (once B) Q (perform c >>= f') (s, used))
    (hx : B.exec c s = (.ok a, s')) : wp (once B) Q (f' a) (s', used) := by
  have h : wp (once B) Q (call c _) (s, used) := h
  have h := (wp_call_once.mp h).left
  rw [hx] at h
  exact h

-- One program after the other.
theorem wp_bind_yields (hp : wp (once B) (yields P) p (s, true))
    (hf : ∀ a s', P a s' → wp (once B) Q' (f a) (s', true)) :
    wp (once B) Q' (p >>= f) (s, true) := by
  refine wp_bind.mpr (wp_mono (wp_and hp wp_once_kept) ?_)
  rintro r ⟨s', used'⟩ ⟨hr, hu⟩
  obtain rfl : used' = true := hu rfl
  cases r
  case ok a  => exact hf a s' hr
  case error => exact hr.elim
  case ended => exact hr.elim

end

-- An assertion about the programs that stop with an error.
def onError {ε α σ : Type} (I : σ → Prop) : Result ε α → σ → Prop
  | .error _, s => I s
  | _, _        => True

-- A program whose errors are ignored returns.
theorem wp_ignore_once {I : B.State → Prop} {p : Prog B Unit}
    (h : wp (once B) (fun _ m => I m.1) p (s, used)) :
    wp (once B) (returns fun m => I m.1) (p.handle fun _ => .ret ()) (s, used) := by
  apply wp_handle.mpr
  apply wp_mono (wp_and h (wp_once_any fun r _ hr => hr))
  rintro r m ⟨hi, hr⟩
  cases r
  case ok    => exact hi
  case error => exact hi
  case ended => exact absurd rfl hr

end Effects.Prog
