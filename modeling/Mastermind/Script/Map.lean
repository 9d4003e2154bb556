import Mathlib.Data.List.Nodup

namespace Js

-- A `Map`. The entries are in the order in which their keys were added.
structure Map (κ β : Type) where
  entries : List (κ × β)
  nodup   : (entries.map Prod.fst).Nodup

namespace Map

variable {κ β : Type} [DecidableEq κ]

def empty : Map κ β where
  entries := []
  nodup   := .nil

def get (m : Map κ β) (key : κ) : Option β :=
  m.entries.lookup key

def size (m : Map κ β) : Nat :=
  m.entries.length

def put (key : κ) (value : β) : List (κ × β) → List (κ × β)
  | []      => [(key, value)]
  | e :: es => if e.1 = key then (key, value) :: es else e :: put key value es

theorem mem_put {key k : κ} {value : β} {es : List (κ × β)} :
    k ∈ (put key value es).map Prod.fst ↔ k = key ∨ k ∈ es.map Prod.fst := by
  induction es
  case nil => simp [put]
  case cons e es hi =>
    rw [put]
    split
    case isTrue h  => simp [← h]
    case isFalse h =>
      rw [List.map_cons, List.mem_cons, hi, List.map_cons, List.mem_cons]
      exact or_left_comm

theorem nodup_put {key : κ} {value : β} {es : List (κ × β)} (h : (es.map Prod.fst).Nodup) :
    ((put key value es).map Prod.fst).Nodup := by
  induction es
  case nil => exact List.nodup_singleton key
  case cons e es hi =>
    have hn := List.nodup_cons.mp h
    rw [put]
    split
    case isTrue he  => exact he ▸ h
    case isFalse he => exact List.nodup_cons.mpr ⟨fun hm => (mem_put.mp hm).elim he hn.left, hi hn.right⟩

-- A new key comes last, an old one keeps its place.
def set (m : Map κ β) (key : κ) (value : β) : Map κ β where
  entries := put key value m.entries
  nodup   := nodup_put m.nodup

-- Deletes the entries whose values are not fresh.
def prune (m : Map κ β) (isFresh : β → Bool) : Map κ β where
  entries := m.entries.filter fun e => isFresh e.2
  nodup   := m.nodup.sublist (List.filter_sublist.map Prod.fst)

variable {m : Map κ β} {key k : κ} {value : β} {isFresh : β → Bool}

@[simp]
theorem get_empty : (empty : Map κ β).get k = none :=
  rfl

theorem get_set : (m.set key value).get k = if k = key then some value else m.get k := by
  change (put key value m.entries).lookup k = if k = key then some value else m.entries.lookup k
  generalize m.entries = es
  induction es
  case nil =>
    rw [put, List.lookup_cons]
    split <;> simp_all
  case cons e es hi =>
    rw [put]
    split
    case isTrue he =>
      rw [List.lookup_cons, List.lookup_cons, he]
      split <;> simp_all
    case isFalse he =>
      rw [List.lookup_cons, List.lookup_cons, hi]
      split <;> simp_all

@[simp]
theorem get_set_self : (m.set key value).get key = some value := by
  rw [get_set, if_pos rfl]

theorem get_set_of_ne (h : k ≠ key) : (m.set key value).get k = m.get k := by
  rw [get_set, if_neg h]

theorem get_prune : (m.prune isFresh).get k = (m.get k).filter isFresh := by
  have hn := m.nodup
  change (m.entries.filter fun e => isFresh e.2).lookup k = (m.entries.lookup k).filter isFresh
  generalize m.entries = es at hn ⊢
  induction es
  case nil => rfl
  case cons e es hi =>
    obtain ⟨he, hn⟩ := List.nodup_cons.mp hn
    rw [List.filter_cons, List.lookup_cons]
    by_cases hk : k = e.1
    case neg =>
      have hb : (k == e.1) = false := by simp [hk]
      rw [hb, ← hi hn]
      split
      case isTrue  => rw [List.lookup_cons, hb]
      case isFalse => rfl
    case pos =>
      subst hk
      have hl : (es.filter fun e => isFresh e.2).lookup e.1 = none := by
        rw [List.lookup_eq_none_iff]
        intro e' he'
        have hm : e'.1 ∈ es.map Prod.fst := List.mem_map_of_mem (List.mem_of_mem_filter he')
        refine bne_iff_ne.mpr fun h => ?_
        exact he (h ▸ hm)
      rw [beq_self_eq_true]
      cases hf : isFresh e.2
      case true  =>
        rw [if_pos rfl, List.lookup_cons, beq_self_eq_true]
        simp [Option.filter, hf]
      case false => simpa [Option.filter, hf] using hl

end Map
end Js
