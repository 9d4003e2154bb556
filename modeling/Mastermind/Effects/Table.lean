import Mathlib.Algebra.Ring.Int.Defs
import Mathlib.Data.List.Nodup

namespace Effects

-- A table is the list of its rows in the order of their creation. The key of a row is its position,
-- which makes keys unique by construction.
abbrev Table (ρ : Type) :=
  List ρ

namespace Table

variable {ρ : Type} {t : Table ρ} {k k' : Nat} {r : ρ} {f : ρ → ρ}

-- The rows with their keys.
def entries (t : Table ρ) : List (Nat × ρ) :=
  t.zipIdx.map fun (r, k) => (k, r)

theorem mem_entries : (k, r) ∈ t.entries ↔ t[k]? = some r := by
  simp only [entries, List.mem_map, Prod.exists, Prod.mk.injEq]
  constructor
  case mp  => rintro ⟨r', k', hm, rfl, rfl⟩; exact List.mem_zipIdx_iff_getElem?.mp hm
  case mpr => exact fun h => ⟨r, k, List.mem_zipIdx_iff_getElem?.mpr h, rfl, rfl⟩

theorem entries_keys_nodup : (t.entries.map Prod.fst).Nodup := by
  have h : t.entries.map Prod.fst = List.range' 0 t.length := by
    simp [entries, List.map_map, Function.comp_def, List.zipIdx_map_snd]
  exact h ▸ List.nodup_range'

theorem entries_append : Table.entries (t ++ [r]) = t.entries ++ [(t.length, r)] := by
  simp [entries, List.zipIdx_append]

theorem entries_modify :
    Table.entries (t.modify k f) = t.entries.map fun (k', r) => (k', if k = k' then f r else r) := by
  apply List.ext_getElem?
  intro i
  simp only [entries, List.getElem?_map, List.getElem?_zipIdx, List.getElem?_modify, Option.map_map]
  cases t[i]? <;> simp [Function.comp_def]

-- A search does not depend on what it does not look at.
theorem find?_entries_modify {p : Nat × ρ → Bool} (hp : ∀ k r, p (k, f r) = p (k, r)) :
    (Table.entries (t.modify k f)).find? p =
      (t.entries.find? p).map fun (k', r) => (k', if k = k' then f r else r) := by
  rw [entries_modify, List.find?_map]
  congr 2
  funext ⟨k', r⟩
  simp only [Function.comp_apply]
  split
  case isTrue  => exact hp k' r
  case isFalse => rfl

theorem filter_entries_modify {p : Nat × ρ → Bool} (hp : ∀ k r, p (k, f r) = p (k, r)) :
    (Table.entries (t.modify k f)).filter p =
      (t.entries.filter p).map fun (k', r) => (k', if k = k' then f r else r) := by
  rw [entries_modify, List.filter_map]
  congr 2
  funext ⟨k', r⟩
  simp only [Function.comp_apply]
  split
  case isTrue  => exact hp k' r
  case isFalse => rfl

-- One of the entries of a table is the one with a given key.
theorem countP_eq_one {l : List (Nat × ρ)} {p : Nat × ρ → Bool} {e : Nat × ρ}
    (hn : (l.map Prod.fst).Nodup) (he : e ∈ l) (hp : p e = true)
    (hk : ∀ e', p e' = true → e'.1 = e.1) : l.countP p = 1 := by
  induction l
  case nil => nomatch he
  case cons e' l hi =>
    have ⟨hm, hn⟩ := List.nodup_cons.mp hn
    have hm : ∀ e₂ ∈ l, e₂.1 ≠ e'.1 := fun e₂ h he => hm <| List.mem_map.mpr ⟨e₂, h, he⟩
    cases List.mem_cons.mp he
    case inl he =>
      have hz : l.countP p = 0 :=
        List.countP_eq_zero.mpr fun e₂ h h₂ => hm e₂ h <| he ▸ hk e₂ h₂
      rw [List.countP_cons, hz, if_pos (he ▸ hp)]
    case inr he =>
      have hf : ¬p e' = true := fun h => hm e he (hk e' h).symm
      rw [List.countP_cons, if_neg hf, hi hn he]

-- Entries that are chosen and changed keep the order of their keys.
theorem keys_filterMap {α β : Type} {f : Nat × α → Option (Nat × β)} {l : List (Nat × α)}
    (h : ∀ e e', f e = some e' → e'.1 = e.1) :
    ((l.filterMap f).map Prod.fst).Sublist (l.map Prod.fst) := by
  induction l
  case nil => exact .refl _
  case cons e l hi =>
    rw [List.filterMap_cons]
    split
    case h_1       => exact hi.cons _
    case h_2 e' he =>
      rw [List.map_cons, List.map_cons, h e e' he]
      exact hi.cons_cons _

-- What is made from entries and bears their keys, is for each key made from one of them.
theorem filter_filterMap {β : Type} {f : Nat × ρ → Option β} (key : β → Nat) {l : List (Nat × ρ)}
    {e : Nat × ρ} (hf : ∀ e b, f e = some b → key b = e.1) (hn : (l.map Prod.fst).Nodup)
    (he : e ∈ l) : (l.filterMap f).filter (key · = e.1) = (f e).toList := by
  have hz {l : List (Nat × ρ)} (hm : e.1 ∉ l.map Prod.fst) :
      (l.filterMap f).filter (key · = e.1) = [] := by
    apply List.filter_eq_nil_iff.mpr
    intro b hb hk
    have ⟨e', he', hb⟩ := List.mem_filterMap.mp hb
    exact hm (List.mem_map.mpr ⟨e', he', (hf e' b hb).symm.trans (of_decide_eq_true hk)⟩)
  induction l
  case nil => nomatch he
  case cons e' l hi =>
    have ⟨hm, hn⟩ := List.nodup_cons.mp hn
    cases List.mem_cons.mp he
    case inl he =>
      subst he
      cases hb : f e
      case none   => rw [List.filterMap_cons_none hb, hz hm, Option.toList_none]
      case some b =>
        rw [List.filterMap_cons_some hb, List.filter_cons_of_pos (by simp [hf e b hb]), hz hm,
          Option.toList_some]
    case inr he =>
      have hk : e'.1 ≠ e.1 := fun h => hm (h ▸ List.mem_map_of_mem he)
      cases hb : f e'
      case none   => rw [List.filterMap_cons_none hb, hi hn he]
      case some b =>
        have hkb : key b ≠ e.1 := by rwa [hf e' b hb]
        rw [List.filterMap_cons_some hb, List.filter_cons_of_neg (by simpa using hkb), hi hn he]

-- New rows do not change the old ones.
theorem getElem?_append_of_some {t' : Table ρ} (h : t[k]? = some r) : (t ++ t')[k]? = some r :=
  (List.getElem?_append_left (List.getElem?_eq_some_iff.mp h).choose).trans h

-- Changing one row exchanges its contribution to a count.
theorem countP_modify {p : ρ → Bool} (h : t[k]? = some r) :
    (t.modify k f).countP p + (p r).toNat = t.countP p + (p (f r)).toNat := by
  induction t generalizing k
  case nil => nomatch h
  case cons r' t hi =>
    cases k
    case zero =>
      cases h
      simp only [List.modify_zero_cons, List.countP_cons]
      cases p r <;> cases p (f r) <;> simp
    case succ k =>
      have := hi h
      simp only [List.modify_succ_cons, List.countP_cons]
      omega

theorem countP_set {p : ρ → Bool} {r' : ρ} (h : t[k]? = some r) :
    (t.set k r').countP p + (p r).toNat = t.countP p + (p r').toNat := by
  have hm : t.set k r' = t.modify k fun _ => r' := by simp [List.modify_eq_set_getElem?, h]
  rw [hm]
  exact countP_modify h

-- Changing one row exchanges its contribution to a sum.
theorem sum_map_modify {v : ρ → Int} (h : t[k]? = some r) :
    ((t.modify k f).map v).sum = (t.map v).sum + (v (f r) - v r) := by
  induction t generalizing k
  case nil => nomatch h
  case cons r' t hi =>
    cases k
    case zero =>
      cases h
      simp only [List.modify_zero_cons, List.map_cons, List.sum_cons]
      omega
    case succ k =>
      have := hi h
      simp only [List.modify_succ_cons, List.map_cons, List.sum_cons]
      omega

theorem mem_of_lookup {α : Type} {l : List (Nat × α)} {a : α} (h : l.lookup k = some a) :
    (k, a) ∈ l := by
  have ⟨_, _, he, _⟩ := List.lookup_eq_some_iff.mp h
  exact he ▸ List.mem_append_right _ List.mem_cons_self

-- A key is looked up among the entries with some property.
theorem lookup_filter_entries {p : Nat × ρ → Bool} :
    (t.entries.filter p).lookup k = (t[k]?).filter fun r => p (k, r) := by
  apply Option.ext
  intro r
  rw [Option.filter_eq_some_iff, ← mem_entries, ← List.mem_filter]
  constructor
  case mp  => exact mem_of_lookup
  case mpr =>
    intro hm
    cases hl : (t.entries.filter p).lookup k
    case none    => simpa using List.lookup_eq_none_iff.mp hl _ hm
    case some r' =>
      have hr := mem_entries.mp (List.mem_of_mem_filter (mem_of_lookup hl))
      exact hr.symm.trans (mem_entries.mp (List.mem_of_mem_filter hm))

end Table

-- What is kept in memory, is kept as a list of keys and values.
theorem lookup_filter {α : Type} {l : List (Nat × α)} {k k' : Nat} (h : k' ≠ k) :
    (l.filter fun e => decide (e.1 ≠ k')).lookup k = l.lookup k := by
  induction l
  case nil => rfl
  case cons e l hi =>
    by_cases hk : e.1 = k'
    case pos =>
      have hb : (k == e.1) = false := by simpa [hk] using Ne.symm h
      rw [List.filter_cons_of_neg (by simpa using hk), hi, List.lookup_cons, hb]
    case neg =>
      rw [List.filter_cons_of_pos (by simpa using hk), List.lookup_cons, List.lookup_cons, hi]

-- A key belongs to one row only.
theorem find?_key {α β : Type} [DecidableEq β] {l : List α} {a : α} (key : α → β)
    (hn : (l.map key).Nodup) (ha : a ∈ l) : l.find? (fun b => key b = key a) = some a := by
  have hs : (l.find? fun b => key b = key a).isSome = true :=
    List.find?_isSome.mpr ⟨a, ha, decide_eq_true rfl⟩
  have ⟨b, hb⟩ := Option.isSome_iff_exists.mp hs
  have hk : key b = key a := by simpa using List.find?_some hb
  exact List.inj_on_of_nodup_map hn (List.mem_of_find?_eq_some hb) ha hk ▸ hb

end Effects
