import Mathlib.Logic.Function.Iterate

namespace Effects

variable {α : Type} {p : α → Prop} [DecidablePred p] {next : α → α} {n : Nat} {a b : α}

-- A loop that steps through candidates until one has a property, for at most `n` of them.
def search (p : α → Prop) [DecidablePred p] (next : α → α) : Nat → α → Option α
  | 0, _     => none
  | n + 1, a => if p a then some a else search p next n (next a)

theorem search_succ_of_pos (h : p a) : search p next (n + 1) a = some a :=
  if_pos h

theorem search_succ_of_neg (h : ¬p a) : search p next (n + 1) a = search p next n (next a) :=
  if_neg h

theorem search_eq_none : search p next n a = none ↔ ∀ i < n, ¬p (next^[i] a) := by
  induction n generalizing a
  case zero => simp [search]
  case succ n hi =>
    by_cases h : p a
    case pos =>
      rw [search_succ_of_pos h]
      exact iff_of_false nofun fun hn => hn 0 (Nat.succ_pos n) h
    case neg =>
      rw [search_succ_of_neg h, hi, Nat.forall_lt_succ_left']
      simp [h]

-- What is found is the first candidate that has the property.
theorem search_eq_some :
    search p next n a = some b ↔ ∃ i < n, b = next^[i] a ∧ p b ∧ ∀ j < i, ¬p (next^[j] a) := by
  induction n generalizing a
  case zero => simp [search]
  case succ n hi =>
    by_cases h : p a
    case pos =>
      rw [search_succ_of_pos h]
      constructor
      case mp =>
        intro hb
        cases hb
        exact ⟨0, Nat.succ_pos n, rfl, h, fun _ hj => nomatch hj⟩
      case mpr =>
        rintro ⟨_ | i, _, rfl, _, hf⟩
        case zero => rfl
        case succ => exact absurd h (hf 0 (Nat.succ_pos i))
    case neg =>
      rw [search_succ_of_neg h, hi]
      constructor
      case mp =>
        intro ⟨i, hl, hb, hp, hf⟩
        refine ⟨i + 1, Nat.succ_lt_succ hl, hb, hp, fun j hj => ?_⟩
        cases j
        case zero   => exact h
        case succ j => exact hf j (Nat.lt_of_succ_lt_succ hj)
      case mpr =>
        rintro ⟨_ | i, hl, rfl, hp, hf⟩
        case zero => exact absurd hp h
        case succ =>
          exact ⟨i, Nat.lt_of_succ_lt_succ hl, rfl, hp, fun j hj => hf (j + 1) (Nat.succ_lt_succ hj)⟩

end Effects
