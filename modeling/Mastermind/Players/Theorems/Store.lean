import Mastermind.Players.Store

open Effects Jobs

namespace Players

section

variable {ρ : Type} {t : Table (Row ρ)} {k k' : Nat} {d d' : ρ} {f : ρ → ρ}

theorem live?_eq_some : live? t k = some d ↔ t[k]? = some ⟨d, true⟩ := by
  rw [live?]
  cases t[k]?
  case none   => simp
  case some r =>
    obtain ⟨d', live⟩ := r
    cases live <;> simp

theorem mem_liveEntries : (k, d) ∈ liveEntries t ↔ live? t k = some d := by
  simp only [liveEntries, List.mem_filterMap, Prod.exists, live?_eq_some]
  constructor
  case mp =>
    rintro ⟨k', ⟨d', live⟩, hm, he⟩
    cases live
    case false => simp at he
    case true  =>
      simp only [if_true, Option.some.injEq, Prod.mk.injEq] at he
      exact he.left ▸ he.right ▸ Table.mem_entries.mp hm
  case mpr => exact fun h => ⟨k, ⟨d, true⟩, Table.mem_entries.mpr h, by simp⟩

theorem nodup_liveEntries : ((liveEntries t).map Prod.fst).Nodup := by
  refine Table.entries_keys_nodup.sublist <| Table.keys_filterMap fun e e' he => ?_
  simp only at he
  split at he
  case isTrue  => rw [← Option.some.inj he]
  case isFalse => nomatch he

theorem live?_modify :
    live? (t.modify k (Row.modify f)) k' = if k = k' then (live? t k').map f else live? t k' := by
  simp only [live?, List.getElem?_modify]
  by_cases h : k = k'
  case neg => simp [h]
  case pos =>
    simp only [h, if_true]
    cases t[k']?
    case none   => rfl
    case some r => cases hl : r.live <;> simp [Row.modify, hl]

theorem live?_kill : live? (t.modify k Row.kill) k' = if k = k' then none else live? t k' := by
  simp only [live?, List.getElem?_modify]
  by_cases h : k = k'
  case neg => simp [h]
  case pos => cases t[k']? <;> simp [h, Row.kill]

-- The rows that are deleted because they belong to a row that is deleted.
theorem live?_cascade {p : ρ → Prop} [DecidablePred p] :
    live? (t.map fun r => if p r.data then r.kill else r) k = (live? t k).filter (¬p ·) := by
  simp only [live?, List.getElem?_map]
  cases t[k]?
  case none   => rfl
  case some r =>
    obtain ⟨d, live⟩ := r
    by_cases h : p d <;> cases live <;> simp [h, Row.kill, Option.filter]

theorem live?_append : live? (t ++ [⟨d, true⟩]) k = if k = t.length then some d else live? t k := by
  by_cases h : k < t.length
  case pos => simp [live?, List.getElem?_append_left h, Nat.ne_of_lt h]
  case neg =>
    have hn : t[k]? = none := List.getElem?_eq_none (Nat.le_of_not_lt h)
    by_cases he : k = t.length
    case pos => simp [live?, he]
    case neg =>
      have ha : (t ++ [⟨d, true⟩])[k]? = none :=
        List.getElem?_eq_none (by rw [List.length_append, List.length_singleton]; omega)
      simp only [live?, ha, hn, if_neg he]

end

variable {s : Store} {serverInstanceId : ServerId} {key : IdentityKey} {id : PlayerId} {p : Player}

theorem keyed?_some (h : s.keyed? serverInstanceId key = some (id, p)) :
    s.player? id = some p ∧ p.serverInstanceId = serverInstanceId ∧ p.identityKey = key := by
  have hm := mem_liveEntries.mp <| List.mem_of_find?_eq_some h
  have hp := List.find?_some h
  simp only [Bool.and_eq_true, decide_eq_true_eq] at hp
  exact ⟨hm, hp⟩

theorem keyed?_none (h : s.keyed? serverInstanceId key = none) (hp : s.player? id = some p)
    (hs : p.serverInstanceId = serverInstanceId) : p.identityKey ≠ key := by
  have hn := List.find?_eq_none.mp h _ <| mem_liveEntries.mpr hp
  simpa [hs] using hn

-- A fold that keeps the best entry gives one of the entries.
theorem mem_of_foldl_best {α : Type} {x : α} {f : Option α → α → Option α}
    (hf : ∀ best e, f best e = best ∨ f best e = some e) (l : List α) (best : Option α)
    (h : l.foldl f best = some x) : best = some x ∨ x ∈ l := by
  induction l generalizing best
  case nil          => exact .inl h
  case cons e l hi =>
    cases hi _ h
    case inr hm => exact .inr <| List.mem_cons_of_mem _ hm
    case inl he =>
      cases hf best e
      case inl hb => exact .inl <| hb.symm.trans he
      case inr hb => exact .inr <| Option.some.inj (hb.symm.trans he) ▸ List.mem_cons_self

theorem namedUuid?_some [Naming] {name : String} (h : s.namedUuid? serverInstanceId name = some (id, p)) :
    s.player? id = some p ∧ p.serverInstanceId = serverInstanceId ∧
      p.identityKey.uuid?.isSome = true := by
  have hm := (mem_of_foldl_best (fun best e => ?hf) _ _ h).resolve_left (by rintro ⟨⟩)
  case hf =>
    cases best
    case none   => exact .inr rfl
    case some b =>
      dsimp only
      split
      case isTrue  => exact .inr rfl
      case isFalse => exact .inl rfl
  simp only [List.mem_filter, mem_liveEntries, Bool.and_eq_true, decide_eq_true_eq] at hm
  exact ⟨hm.left, hm.right.left.left, hm.right.right⟩

end Players
