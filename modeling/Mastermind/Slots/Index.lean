import Mathlib.Data.List.Induction
import Mathlib.Data.List.Nodup
import Mathlib.Logic.Function.Basic

-- Maps that a loop fills. What is stored later under a key replaces what is there.
namespace Index

variable {κ β : Type} [DecidableEq κ]

def fill (entries : List (κ × β)) : κ → Option β :=
  entries.foldl (fun (index : κ → Option β) e => Function.update index e.1 (some e.2)) fun _ => none

variable {entries a b : List (κ × β)} {k : κ} {v w : β}

theorem foldl_update (index : κ → Option β) :
    entries.foldl (fun (index : κ → Option β) e => Function.update index e.1 (some e.2)) index k =
      (fill entries k).or (index k) := by
  induction entries using List.reverseRecOn
  case nil => rfl
  case append_singleton entries e hi =>
    simp only [fill, List.foldl_append, List.foldl_cons, List.foldl_nil]
    by_cases h : k = e.1
    case pos => rw [h, Function.update_self, Function.update_self, Option.some_or]
    case neg => rw [Function.update_of_ne h, Function.update_of_ne h, hi, fill]

@[simp]
theorem fill_nil : fill ([] : List (κ × β)) k = none :=
  rfl

theorem fill_append : fill (a ++ b) k = (fill b k).or (fill a k) := by
  rw [fill, List.foldl_append, foldl_update]
  rfl

theorem fill_cons {e : κ × β} :
    fill (e :: entries) k = (fill entries k).or (if e.1 = k then some e.2 else none) := by
  rw [← List.singleton_append, fill_append]
  congr 1
  change Function.update (fun _ => none) e.1 (some e.2) k = _
  split
  case isTrue h  => rw [← h, Function.update_self]
  case isFalse h => rw [Function.update_of_ne (Ne.symm h)]

theorem mem_of_fill (h : fill entries k = some v) : (k, v) ∈ entries := by
  induction entries
  case nil => cases h
  case cons e entries hi =>
    rw [fill_cons, Option.or_eq_some_iff] at h
    cases h
    case inl h => exact List.mem_cons_of_mem _ (hi h)
    case inr h =>
      split at h
      case isTrue hk  =>
        exact List.mem_cons.mpr (.inl (Prod.ext hk.symm (Option.some.inj h.2).symm))
      case isFalse hk => cases h.2

theorem fill_eq_none_iff : fill entries k = none ↔ ∀ e ∈ entries, e.1 ≠ k := by
  induction entries
  case nil => exact iff_of_true rfl nofun
  case cons e entries hi =>
    rw [fill_cons, Option.or_eq_none_iff, hi, List.forall_mem_cons, and_comm]
    simp

-- A key that occurs once has what is stored with it.
theorem fill_of_nodup (hn : (entries.map Prod.fst).Nodup) (hm : (k, v) ∈ entries) :
    fill entries k = some v := by
  cases hf : fill entries k
  case none   => exact absurd rfl (fill_eq_none_iff.mp hf _ hm)
  case some w =>
    have he : (k, w) = (k, v) := List.inj_on_of_nodup_map hn (mem_of_fill hf) hm rfl
    rw [(Prod.mk.inj he).right]

theorem fill_map {γ : Type} {f : β → γ} :
    fill (entries.map fun e => (e.1, f e.2)) k = (fill entries k).map f := by
  induction entries
  case nil => rfl
  case cons e entries hi =>
    rw [List.map_cons, fill_cons, fill_cons, hi, Option.map_or]
    congr 1
    split <;> rfl

end Index
