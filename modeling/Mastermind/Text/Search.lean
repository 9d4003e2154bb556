import Mathlib.Data.List.DropRight

-- The search for a text in what is left of a stream and the piece that has just arrived.
namespace Search

section

variable {α : Type} {a b : List α} {n : Nat}

theorem rtake_suffix : a.rtake n <:+ a :=
  List.drop_suffix _ _

theorem rtake_append_rtake : (a.rtake n ++ b).rtake n = (a ++ b).rtake n := by
  have ⟨t, ht⟩ : a.rtake n <:+ a := rtake_suffix
  have hl : (a.rtake n).length = min n a.length := by simp [List.rtake]; omega
  have hd : (a ++ b).drop t.length = a.rtake n ++ b := by
    rw [← ht, List.append_assoc, List.drop_left, ht]
  have hs := congrArg List.length ht
  rw [List.length_append] at hs
  have hr : (a.rtake n ++ b).rtake n = (a.rtake n ++ b).drop ((a.rtake n ++ b).length - n) := rfl
  rw [hr, ← hd, List.drop_drop, List.length_drop, List.rtake, List.length_append]
  congr 1
  omega

end

variable {α : Type} [DecidableEq α]

-- The last position at which a text occurs in another one.
def lastIndexOf (needle : List α) : List α → Option Nat
  | []      => if needle = [] then some 0 else none
  | c :: cs =>
    match lastIndexOf needle cs with
    | some i => some (i + 1)
    | none   => if needle <+: c :: cs then some 0 else none

-- A text occurs in a stream such that it ends in the last piece.
def EndsIn (needle stream piece : List α) : Prop :=
  ∃ l r, stream ++ piece = l ++ needle ++ r ∧ r.length < piece.length

variable {needle haystack stream piece l r : List α} {i n : Nat}

theorem lastIndexOf_some (h : lastIndexOf needle haystack = some i) :
    ∃ l r, haystack = l ++ needle ++ r ∧ l.length = i := by
  induction haystack generalizing i
  case nil =>
    rw [lastIndexOf] at h
    split at h
    case isTrue hn => exact ⟨[], [], by rw [hn]; rfl, Option.some.inj h⟩
    case isFalse   => nomatch h
  case cons c cs hi =>
    rw [lastIndexOf] at h
    split at h
    case h_1 j hj =>
      have ⟨l, r, he, hl⟩ := hi hj
      exact ⟨c :: l, r, by rw [he]; rfl, by rw [List.length_cons, hl, Option.some.inj h]⟩
    case h_2 =>
      split at h
      case isTrue hp =>
        have ⟨r, hr⟩ := hp
        exact ⟨[], r, hr.symm, Option.some.inj h⟩
      case isFalse => nomatch h

-- No occurrence comes after the last one.
theorem lastIndexOf_append :
    ∃ i, lastIndexOf needle (l ++ needle ++ r) = some i ∧ l.length ≤ i := by
  induction l
  case cons c l hi =>
    have ⟨i, hi, hl⟩ := hi
    exact ⟨i + 1, by rw [List.cons_append, List.cons_append, lastIndexOf, hi], Nat.succ_le_succ hl⟩
  case nil =>
    rw [List.nil_append]
    cases hc : needle ++ r
    case nil =>
      have hn : needle = [] := (List.append_eq_nil_iff.mp hc).left
      exact ⟨0, by rw [lastIndexOf, if_pos hn], Nat.le_refl 0⟩
    case cons c cs =>
      rw [lastIndexOf]
      split
      case h_1 => exact ⟨_, rfl, Nat.zero_le _⟩
      case h_2 =>
        have hp : needle <+: c :: cs := hc ▸ List.prefix_append _ _
        exact ⟨0, if_pos hp, Nat.le_refl 0⟩

-- The end of the stream is enough to find what ends in the last piece.
theorem lastIndexOf_rtake (hn : needle.length ≤ n) :
    (∃ i, lastIndexOf needle (stream.rtake n ++ piece) = some i ∧
      (stream.rtake n).length < i + needle.length) ↔ EndsIn needle stream piece := by
  have ⟨t, ht⟩ : stream.rtake n <:+ stream := rtake_suffix
  have hl : (stream.rtake n).length = min n stream.length := by simp [List.rtake]; omega
  have hs := congrArg List.length ht
  generalize stream.rtake n = prior at ht hl hs
  rw [List.length_append] at hs
  constructor
  case mp =>
    rintro ⟨i, hi, hlt⟩
    have ⟨l, r, he, hi⟩ := lastIndexOf_some hi
    have hr := congrArg List.length he
    simp only [List.length_append] at hr
    exact ⟨t ++ l, r, by rw [← ht, List.append_assoc, he]; simp, by omega⟩
  case mpr =>
    rintro ⟨l, r, he, hr⟩
    have hr' := congrArg List.length he
    simp only [List.length_append] at hr'
    have hd : prior ++ piece = l.drop t.length ++ needle ++ r := by
      have hd := congrArg (List.drop t.length) he
      rw [← ht, List.append_assoc, List.drop_left, List.append_assoc,
        List.drop_append_of_le_length (by omega)] at hd
      rw [hd, List.append_assoc]
    have ⟨i, hi, hle⟩ : ∃ i, lastIndexOf needle (l.drop t.length ++ needle ++ r) = some i ∧
        (l.drop t.length).length ≤ i := lastIndexOf_append
    refine ⟨i, hd ▸ hi, ?_⟩
    rw [List.length_drop] at hle
    omega

end Search
