import Mastermind.Agent.Theorems.Backups

open Effects Prog Files Js

namespace Agent

-- A sort that puts the latest backups first.
def LatestFirst (modTime : String → ℤ) (sort : List String → List String) : Prop :=
  ∀ ids, (sort ids).Perm ids ∧ (sort ids).Pairwise fun a b => modTime b ≤ modTime a

-- The nodes of some backups are gone, and all others are as before.
def Discards (p : Place) (s : Fs) (gone : List String) (s' : Fs) : Prop :=
  ∀ q, s'.get q = if ∃ id ∈ gone, p.backups ++ [id] <+: q then none else s.get q

variable {p : Place} {s s' : Fs} {gone ids : List String} {id : String} {retention : ℤ}
  {sort : List String → List String} {modTime : String → ℤ}

theorem Discards.refl : Discards p s [] s := by
  intro q
  simp

theorem Discards.loses (h : Discards p s gone s') : Loses p s gone s' := by
  intro id r
  rw [h, List.append_assoc]
  refine if_congr ?_ rfl rfl
  constructor
  case mp =>
    intro ⟨x, hx, hp⟩
    rw [← List.append_assoc] at hp
    exact prefix_save.mp hp ▸ hx
  case mpr => exact fun hi => ⟨id, hi, by rw [← List.append_assoc]; exact List.prefix_append _ _⟩

theorem wp_discard_save (h : Discards p s gone s') : (removeAll (p.backups ++ [id])).wp
    (under disk .none) (returns (Discards p s (gone ++ [id]))) s' := by
  apply wp_returns_mono (wp_removeAll save_ne_nil)
  intro s₁ hg q
  rw [hg, h]
  by_cases hq : p.backups ++ [id] <+: q
  case pos => rw [if_pos hq, if_pos ⟨id, by simp, hq⟩]
  case neg =>
    rw [if_neg hq]
    refine if_congr ?_ rfl rfl
    constructor
    case mp => exact fun ⟨x, hx, hp⟩ => ⟨x, List.mem_append_left _ hx, hp⟩
    case mpr =>
      intro ⟨x, hx, hp⟩
      cases List.mem_append.mp hx
      case inl hx => exact ⟨x, hx, hp⟩
      case inr hx => exact absurd (List.mem_singleton.mp hx ▸ hp) hq

theorem wp_discard_saves : (forEach (fun id => removeAll (p.backups ++ [id])) ids).wp
    (under disk .none) (returns (Discards p s ids)) s := by
  let I (rest : List String) (s' : Fs) : Prop := ∃ gone, ids = gone ++ rest ∧ Discards p s gone s'
  have hw : (forEach (fun id => removeAll (p.backups ++ [id])) ids).wp (under disk .none)
      (returns (I [])) s := by
    apply wp_forEach (B := disk) (I := I)
    case hs => exact ⟨[], rfl, .refl⟩
    case h  =>
      intro id rest s' ⟨gone, hi, h⟩
      apply wp_returns_mono (wp_discard_save h)
      exact fun _ h => ⟨gone ++ [id], by simp [hi], h⟩
  apply wp_returns_mono hw
  intro s' ⟨gone, hi, h⟩
  rwa [hi, List.append_nil]

-- What a prune removes.
theorem wp_pruneSorted (hr : 1 ≤ retention ∧ retention ≤ 100) (hn : sort [] = []) :
    (pruneSorted p retention sort).wp (under disk .none)
      (fun _ s' => Discards p s ((sort (saveIDs p s)).drop retention.toNat) s') s := by
  rw [pruneSorted, if_neg (by omega)]
  apply wp_ask.mpr
  by_cases hb : s.get p.backups = some .dir
  case pos =>
    rw [exec_readDir hb]
    exact wp_mono wp_discard_saves fun _ _ h => h.state
  case neg =>
    rw [saveIDs_eq_nil hb, hn, List.drop_nil]
    match hg : s.get p.backups with
    | none           => simp only [exec, hg]; exact Discards.refl
    | some .dir      => exact absurd hg hb
    | some (.file _) => simp only [exec, hg]; exact Discards.refl
    | some (.link _) => simp only [exec, hg]; exact Discards.refl

-- A retention of `r` keeps the `r` latest ones of the backups.
structure Retains (p : Place) (modTime : String → ℤ) (r : ℤ) (s s' : Fs) : Prop where
  count   : (saveIDs p s').length = min (saveIDs p s).length r.toNat
  subset  : saveIDs p s' ⊆ saveIDs p s
  latest  : ∀ id ∈ saveIDs p s, id ∉ saveIDs p s' → ∀ kept ∈ saveIDs p s', modTime id ≤ modTime kept
  others  : ∀ q, (∀ id ∈ saveIDs p s, id ∉ saveIDs p s' → ¬p.backups ++ [id] <+: q) →
    s'.get q = s.get q

theorem Discards.retains (hs : LatestFirst modTime sort)
    (h : Discards p s ((sort (saveIDs p s)).drop retention.toNat) s') :
    Retains p modTime retention s s' := by
  have ⟨hp, ho⟩ := hs (saveIDs p s)
  generalize hi : sort (saveIDs p s) = ids at *
  have hnd : ids.Nodup := hp.nodup_iff.mpr nodup_saveIDs
  rw [← List.take_append_drop retention.toNat ids] at hp hnd ho
  have ⟨_, _, hd⟩ := List.nodup_append.mp hnd
  -- What is kept comes first.
  have hk (id : String) : id ∈ saveIDs p s' ↔ id ∈ ids.take retention.toNat := by
    rw [h.loses.mem_saveIDs, ← hp.mem_iff, List.mem_append]
    constructor
    case mp  => exact fun ⟨hg, hm⟩ => hm.resolve_right hg
    case mpr => exact fun ht => ⟨fun hg => hd _ ht _ hg rfl, .inl ht⟩
  have hg (id : String) (hm : id ∈ saveIDs p s) (hk' : id ∉ saveIDs p s') :
      id ∈ ids.drop retention.toNat :=
    (List.mem_append.mp (hp.mem_iff.mpr hm)).resolve_left (mt (hk id).mpr hk')
  constructor
  case count =>
    have hp' : (saveIDs p s').Perm (ids.take retention.toNat) :=
      (List.perm_ext_iff_of_nodup nodup_saveIDs (List.nodup_append.mp hnd).left).mpr hk
    have hl := hp.length_eq
    rw [List.take_append_drop] at hl
    rw [hp'.length_eq, List.length_take, hl, Nat.min_comm]
  case subset =>
    intro id hm
    exact hp.mem_iff.mp (List.mem_append_left _ ((hk id).mp hm))
  case latest =>
    intro id hm hn kept hk'
    exact (List.pairwise_append.mp ho).right.right kept ((hk kept).mp hk') id (hg id hm hn)
  case others =>
    intro q hq
    rw [h, if_neg]
    intro ⟨id, hm, hp'⟩
    have hn : id ∉ saveIDs p s' := fun hs' => hd _ ((hk id).mp hs') _ hm rfl
    exact hq id (hp.mem_iff.mp (List.mem_append_right _ hm)) hn hp'

-- The latest backups are kept. A retention that is out of range is an error and changes nothing.
theorem retention_keeps_latest (hs : LatestFirst modTime sort) :
    (1 ≤ retention ∧ retention ≤ 100 →
      Retains p modTime retention s ((pruneSorted p retention sort).run [] s).state) ∧
    (¬(1 ≤ retention ∧ retention ≤ 100) → ∀ fs,
      ((pruneSorted p retention sort).run fs s).result.isOk = false ∧
      ((pruneSorted p retention sort).run fs s).state = s) := by
  constructor
  case left =>
    intro hr
    have hn : sort [] = [] := List.perm_nil.mp (hs []).left
    exact Discards.retains hs (wp_none_iff.mp (wp_pruneSorted hr hn))
  case right =>
    intro hr fs
    rw [pruneSorted, if_pos (by omega)]
    exact ⟨rfl, rfl⟩

theorem latestFirst_insertionSort (modTime : String → ℤ) :
    LatestFirst modTime (·.insertionSort fun a b => modTime b ≤ modTime a) := by
  intro ids
  have : Std.Total fun a b : String => modTime b ≤ modTime a := ⟨fun _ _ => le_total _ _⟩
  have : IsTrans String fun a b => modTime b ≤ modTime a := ⟨fun _ _ _ h h' => h'.trans h⟩
  exact ⟨List.perm_insertionSort _ ids, List.pairwise_insertionSort _ ids⟩

-- Three backups, a file, and a directory whose name is not that of a backup.
def crowdedFs : Fs :=
  .after [.mkdirAll (survival.backups ++ ["world-20250101-000000"]),
    .create (survival.backups ++ ["world-20250101-000000", "level.dat"]) true,
    .mkdirAll (survival.backups ++ ["world-20250102-000000"]),
    .create (survival.backups ++ ["world-20250102-000000", "level.dat"]) true,
    .mkdirAll (survival.backups ++ ["world-20250103-000000"]),
    .create (survival.backups ++ ["world-20250103-000000", "level.dat"]) true,
    .create (survival.backups ++ ["notes"]) true,
    .mkdirAll (survival.backups ++ ["old worlds"]),
    .create (survival.backups ++ ["old worlds", "level.dat"]) true]

-- The first backup has been touched last.
def touched (id : String) : ℤ :=
  if id = "world-20250101-000000" then 30
  else if id = "world-20250102-000000" then 10
  else 20

theorem retention_keeps_touched :
    let fs := ((pruneSorted survival 2 (·.insertionSort fun a b => touched b ≤ touched a)).run []
      crowdedFs).state
    Retains survival touched 2 crowdedFs fs ∧
    saveIDs survival crowdedFs =
      ["world-20250101-000000", "world-20250102-000000", "world-20250103-000000"] ∧
    saveIDs survival fs = ["world-20250101-000000", "world-20250103-000000"] ∧
    fs.get (survival.backups ++ ["notes"]) = some (.file []) ∧
    fs.get (survival.backups ++ ["old worlds", "level.dat"]) = some (.file []) :=
  ⟨(retention_keeps_latest (latestFirst_insertionSort touched)).left ⟨by decide, by decide⟩,
    by decide +kernel⟩

end Agent
