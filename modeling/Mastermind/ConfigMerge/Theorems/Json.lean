import Mastermind.ConfigMerge.Json

namespace ConfigMerge

open Value

variable {ν : Type} {t l : Value ν}

def merge (tmpl live : Value ν) : Value ν :=
  (mergeJSONValue tmpl live).1

theorem merge_object {keys liveKeys : Finset String} {a : keys → Value ν} {b : liveKeys → Value ν} :
    merge (object keys a) (object liveKeys b) = object keys fun key =>
      if h : key.val ∈ liveKeys then merge (a key) (b ⟨key, h⟩) else a key := by
  have hr (key : keys) : (if h : key.val ∈ liveKeys then mergeJSONValue (a key) (b ⟨key, h⟩)
      else (a key, { newKeys := 1 })).1 =
        if h : key.val ∈ liveKeys then merge (a key) (b ⟨key, h⟩) else a key := by
    split <;> rfl
  rw [merge, mergeJSONValue]
  exact congrArg (object keys) (funext hr)

-- Apart from objects, there is no mixture of both values.
theorem merge_leaf (h : ¬(t.isMap ∧ l.isMap)) :
    merge t l = if ¬t.isNil ∧ ¬l.isNil ∧ t.typeOf = l.typeOf then l else t := by
  cases t <;> cases l <;> first | rfl | exact absurd ⟨rfl, rfl⟩ h

theorem merge_self (t : Value ν) : merge t t = t := by
  induction t
  case object keys a hi =>
    rw [merge_object]
    congr 1
    funext key
    rw [dif_pos key.property, hi]
  all_goals rfl

theorem merge_merge_leaf (h : ¬(t.isMap ∧ l.isMap)) : merge t (merge t l) = merge t l := by
  have hm := merge_leaf h
  split at hm
  case isTrue  => rw [hm, hm]
  case isFalse => rw [hm, merge_self]

theorem merge_merge (t l : Value ν) : merge t (merge t l) = merge t l := by
  induction t generalizing l
  case object keys a hi =>
    cases l
    case object liveKeys b =>
      simp only [merge_object]
      congr 1
      funext key
      rw [dif_pos key.property]
      split
      case isTrue  => exact hi ..
      case isFalse => exact merge_self _
    all_goals exact merge_merge_leaf fun h => nomatch h.right
  all_goals exact merge_merge_leaf fun h => nomatch h.left

theorem get?_merge (ht : t.isMap) (hl : l.isMap) (key : String) :
    (merge t l).get? key = (t.get? key).map fun v => ((l.get? key).elim v (merge v)) := by
  cases t <;> cases ht
  case object keys a =>
    cases l <;> cases hl
    case object liveKeys b =>
      rw [merge_object]
      simp only [get?]
      split
      case isFalse => rfl
      case isTrue h =>
        split
        case isTrue  => rfl
        case isFalse => rfl

theorem keys_merge (ht : t.isMap) (hl : l.isMap) : (merge t l).keys = t.keys := by
  cases t <;> cases ht
  cases l <;> cases hl
  rw [merge_object]
  rfl

theorem typeOf_merge_leaf (h : ¬(t.isMap ∧ l.isMap)) : (merge t l).typeOf = t.typeOf := by
  rw [merge_leaf h]
  split
  case isTrue h  => exact h.right.right.symm
  case isFalse h => rfl

theorem typeOf_merge : (merge t l).typeOf = t.typeOf := by
  cases t
  case object keys a =>
    cases l
    case object liveKeys b => rw [merge_object]; rfl
    all_goals rfl
  all_goals exact typeOf_merge_leaf fun h => nomatch h.left

theorem isMap_iff {v : Value ν} : v.isMap ↔ v.typeOf = "map[string]interface {}" := by
  cases v <;> simp [isMap, typeOf]

theorem get?_eq_none {v : Value ν} {key : String} (h : ¬v.isMap) : v.get? key = none := by
  cases v
  case object => exact absurd rfl h
  all_goals rfl

-- The types at all paths of objects are those of the template.
theorem typeOf_at?_merge (path : List String) :
    ((merge t l).at? path).map typeOf = (t.at? path).map typeOf := by
  induction path generalizing t l
  case nil => exact congrArg some typeOf_merge
  case cons key path hi =>
    simp only [at?]
    by_cases ht : t.isMap
    case neg =>
      have hm : ¬(merge t l).isMap := by rwa [isMap_iff, typeOf_merge, ← isMap_iff]
      rw [get?_eq_none ht, get?_eq_none hm]
    case pos =>
      by_cases hl : l.isMap
      case pos =>
        rw [get?_merge ht hl]
        cases t.get? key
        case none   => rfl
        case some v =>
          cases l.get? key
          case none   => rfl
          case some w => exact hi
      case neg =>
        rw [merge_leaf fun h => hl h.right]
        split
        case isTrue h  => exact absurd (isMap_iff.mpr (h.right.right ▸ isMap_iff.mp ht)) hl
        case isFalse h => rfl

-- A merge with a file that has been merged already changes nothing, and a merge keeps the shape of
-- the template.
theorem json_merge_laws (t l : Value ν) :
    merge t t = t ∧
    merge t (merge t l) = merge t l ∧
    (t.isMap → l.isMap → (merge t l).isMap ∧ (merge t l).keys = t.keys ∧
      ∀ key, (merge t l).get? key = (t.get? key).map fun v => (l.get? key).elim v (merge v)) ∧
    (¬(t.isMap ∧ l.isMap) →
      merge t l = if ¬t.isNil ∧ ¬l.isNil ∧ t.typeOf = l.typeOf then l else t) ∧
    ∀ path, ((merge t l).at? path).map typeOf = (t.at? path).map typeOf := by
  refine ⟨merge_self t, merge_merge t l, fun ht hl => ⟨?_, keys_merge ht hl, get?_merge ht hl⟩,
    merge_leaf, typeOf_at?_merge⟩
  rwa [isMap_iff, typeOf_merge, ← isMap_iff]

end ConfigMerge
