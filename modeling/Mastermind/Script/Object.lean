import Mastermind.Script.Json

namespace Js

abbrev Fields :=
  List (String × Json)

-- The fields of an object, in which no key occurs twice.
abbrev Record :=
  { fields : Fields // (fields.map Prod.fst).Nodup }

namespace Record

def empty : Record :=
  ⟨[], List.nodup_nil⟩

-- The fields of an object that may be missing. A spread ignores a missing object.
def orEmpty (r : Option Record) : Fields :=
  (r.map Subtype.val).getD []

theorem nodup_orEmpty : (r : Option Record) → ((orEmpty r).map Prod.fst).Nodup
  | none   => List.nodup_nil
  | some r => r.property

end Record

namespace Json

variable {a b : Fields} {k k' : String} {v : Json}

section

variable {β : Type} {l : List (String × β)} {w : β}

theorem lookup_cons : ((k, w) :: l).lookup k' = if k' = k then some w else l.lookup k' := by
  split
  case isTrue h  => simp [h]
  case isFalse h => simp [List.lookup_cons, beq_eq_false_iff_ne.mpr h]

theorem lookup_eq_none (h : k ∉ l.map Prod.fst) : l.lookup k = none := by
  apply List.lookup_eq_none_iff.mpr
  intro e he
  have hne : k ≠ e.1 := fun hk => h (List.mem_map.mpr ⟨e, he, hk.symm⟩)
  simpa using hne

end

-- An object of the fields that have a value.
def present (fields : List (String × Option Json)) : Fields :=
  fields.filterMap fun (key, v) => v.map (key, ·)

theorem lookup_present {fields : List (String × Option Json)} (h : (fields.map Prod.fst).Nodup) :
    (present fields).lookup k = (fields.lookup k).join := by
  induction fields
  case nil => rfl
  case cons e fields hi =>
    obtain ⟨key, v⟩ := e
    have ⟨hn, ht⟩ := List.nodup_cons.mp h
    rw [lookup_cons]
    cases v
    case none =>
      change (present fields).lookup k = _
      rw [hi ht]
      split
      case isTrue hk => rw [hk, lookup_eq_none hn]; rfl
      case isFalse   => rfl
    case some v =>
      change ((key, v) :: present fields).lookup k = _
      rw [lookup_cons, hi ht]
      split <;> rfl

theorem lookup_setField :
    (setField k v a).lookup k' = if k' = k then some v else a.lookup k' := by
  induction a
  case nil => exact lookup_cons
  case cons e a hi =>
    obtain ⟨l, w⟩ := e
    rw [setField]
    split
    case isTrue h =>
      subst h
      simp only [lookup_cons]
      split <;> rfl
    case isFalse h =>
      simp only [lookup_cons, hi]
      by_cases hk : k' = l
      case pos => simp [hk, h]
      case neg => simp [hk]

theorem mem_keys_setField : k' ∈ (setField k v a).map Prod.fst ↔ k' = k ∨ k' ∈ a.map Prod.fst := by
  induction a
  case nil => simp [setField]
  case cons e a hi =>
    obtain ⟨l, w⟩ := e
    rw [setField]
    split
    case isTrue h  => simp [h]
    case isFalse h => simp only [List.map_cons, List.mem_cons, hi]; tauto

theorem nodup_setField (ha : (a.map Prod.fst).Nodup) : ((setField k v a).map Prod.fst).Nodup := by
  induction a
  case nil => simp [setField]
  case cons e a hi =>
    obtain ⟨l, w⟩ := e
    have ⟨hn, ha⟩ := List.nodup_cons.mp ha
    rw [setField]
    split
    case isTrue h  => exact List.nodup_cons.mpr ⟨hn, ha⟩
    case isFalse h =>
      refine List.nodup_cons.mpr ⟨fun hm => ?_, hi ha⟩
      cases mem_keys_setField.mp hm
      case inl hk => exact h hk
      case inr hm => exact hn hm

theorem nodup_spread (ha : (a.map Prod.fst).Nodup) : ((spread a b).map Prod.fst).Nodup := by
  induction b generalizing a
  case nil          => exact ha
  case cons e b hi => exact hi (nodup_setField ha)

-- The fields of the second object win.
theorem lookup_spread (hb : (b.map Prod.fst).Nodup) :
    (spread a b).lookup k = (b.lookup k).or (a.lookup k) := by
  induction b generalizing a
  case nil => rfl
  case cons e b hi =>
    obtain ⟨l, w⟩ := e
    have ⟨hn, hb⟩ := List.nodup_cons.mp hb
    change (spread (setField l w a) b).lookup k = _
    rw [hi hb, lookup_setField, lookup_cons]
    split
    case isFalse => rfl
    case isTrue h =>
      have hl : b.lookup k = none := lookup_eq_none (h ▸ hn)
      rw [hl, Option.none_or, Option.some_or]

theorem setField_eq_self (h : a.lookup k = some v) : setField k v a = a := by
  induction a
  case nil => nomatch h
  case cons e a hi =>
    have ⟨l, w⟩ := e
    rw [lookup_cons] at h
    rw [setField]
    split
    case isTrue hl =>
      rw [if_pos hl.symm] at h
      cases h
      rfl
    case isFalse hl =>
      rw [if_neg fun hk => hl hk.symm] at h
      rw [hi h]

-- Fields that an object has already do not change it.
theorem spread_eq_self (h : ∀ e ∈ b, a.lookup e.1 = some e.2) : spread a b = a := by
  induction b
  case nil => rfl
  case cons e b hi =>
    have ⟨he, hb⟩ := List.forall_mem_cons.mp h
    change spread (setField e.1 e.2 a) b = a
    rw [setField_eq_self he, hi hb]

theorem lookup_of_mem {e : String × Json} (hb : (b.map Prod.fst).Nodup) (he : e ∈ b) :
    b.lookup e.1 = some e.2 := by
  induction b
  case nil => nomatch he
  case cons e' b hi =>
    have ⟨hn, hb⟩ := List.nodup_cons.mp hb
    rw [lookup_cons (k := e'.1) (w := e'.2)]
    cases List.mem_cons.mp he
    case inl h => rw [if_pos (h ▸ rfl), h]
    case inr h =>
      have hne : e.1 ≠ e'.1 := fun hk => hn (hk ▸ List.mem_map_of_mem h)
      rw [if_neg hne, hi hb h]

theorem setField_setField {w : Json} : setField k v (setField k w a) = setField k v a := by
  induction a
  case nil => simp [setField]
  case cons e a hi =>
    have ⟨l, u⟩ := e
    by_cases h : l = k
    case pos => simp [setField, h]
    case neg => simp [setField, h, hi]

-- A field that the object has keeps its place, whatever is set before it.
theorem setField_comm {l : String} {w : Json} (hk : k ∈ a.map Prod.fst) (h : k ≠ l) :
    setField k v (setField l w a) = setField l w (setField k v a) := by
  induction a
  case nil => nomatch hk
  case cons e a hi =>
    have ⟨m, u⟩ := e
    by_cases hm : m = k
    case pos => simp [setField, hm, h]
    case neg =>
      have hk : k ∈ a.map Prod.fst := (List.mem_cons.mp hk).resolve_left fun h => hm h.symm
      by_cases hl : m = l
      case pos => simp [setField, hl, Ne.symm h]
      case neg => simp [setField, hm, hl, hi hk]

theorem setField_spread (hk : k ∈ a.map Prod.fst) :
    setField k v (spread a b) = spread (setField k v a) (b.filter (·.1 ≠ k)) := by
  induction b generalizing a
  case nil => rfl
  case cons e b hi =>
    have ⟨l, w⟩ := e
    have hs : setField k v (spread a ((l, w) :: b)) =
        spread (setField k v (setField l w a)) (b.filter (·.1 ≠ k)) :=
      hi (mem_keys_setField.mpr (.inr hk))
    rw [hs]
    by_cases hl : l = k
    case pos => simp [hl, setField_setField]
    case neg => simp [hl, setField_comm hk (Ne.symm hl), spread]

theorem spread_spread (hb : (b.map Prod.fst).Nodup) : spread (spread a b) b = spread a b :=
  spread_eq_self fun e he => by rw [lookup_spread hb, lookup_of_mem hb he, Option.some_or]

end Json
end Js
