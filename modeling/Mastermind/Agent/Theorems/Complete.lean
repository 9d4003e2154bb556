import Mastermind.Agent.Theorems.Backups

open Effects Prog Files Js

namespace Agent

-- A backup either stops before its copy, or it gets a directory of its own and is not disturbed.
def Sound (p : Place) (s : Backups) : SaveEvent → Prop
  | .backup now fates =>
    ¬Prepared p s.fs fates ∨
    (Readable p s.fs ∧ s.fs.get (p.backups ++ [backupName p now]) = none ∧
      Run.Within .none ((backupWorld p now).run fates s.fs))
  | _                 => True

-- All backups that are listed are complete.
def Complete (p : Place) (s : Backups) : Prop :=
  ∀ id ∈ saveIDs p s.fs, ∃ world, (id, world) ∈ s.made ∧ HoldsCopy p s.fs id world

section

variable {p : Place} {s : Fs} {now : ℤ} {fates : List Fate}

-- A backup that is not disturbed succeeds.
theorem backup_succeeds (hp : Prepared p s fates) (hw : Readable p s)
    (hd : s.get (p.backups ++ [backupName p now]) = none)
    (hf : Run.Within .none ((backupWorld p now).run fates s)) :
    ((backupWorld p now).run fates s).result.isOk = true := by
  have h := wp_run (wp_unless_returns (wp_backupWorld hp.room hw hd)) hf
  match hr : ((backupWorld p now).run fates s).result with
  | .ok _    => rfl
  | .error _ => exact (hr ▸ h : returns _ (.error _) _).elim
  | .ended   => exact (hr ▸ h : returns _ .ended _).elim

end

variable {p : Place} {s : Backups} {e : SaveEvent} {events : List SaveEvent}

-- A backup that meets the condition succeeds, or it changes nothing.
theorem Sound.cases {now : ℤ} {fates : List Fate} (h : Sound p s (.backup now fates)) :
    (Readable p s.fs ∧ s.fs.get (p.backups ++ [backupName p now]) = none ∧
      ((backupWorld p now).run fates s.fs).result.isOk = true) ∨
    (((backupWorld p now).run fates s.fs).result.isOk = false ∧
      ((backupWorld p now).run fates s.fs).state = s.fs) := by
  by_cases hp : Prepared p s.fs fates
  case neg => exact .inr (backup_unprepared hp)
  case pos =>
    have ⟨hr, hd, hf⟩ := h.resolve_left (absurd hp)
    exact .inl ⟨hr, hd, backup_succeeds hp hr hd hf⟩

theorem Complete.backup {now : ℤ} {fates : List Fate} (h : Complete p s)
    (hc : Sound p s (.backup now fates)) :
    Complete p ((backingUp p).next s (.backup now fates)) := by
  intro id hi
  obtain ⟨hr, hd, hk⟩ | ⟨_, hs⟩ := hc.cases
  case inr =>
    have hs : ((backingUp p).next s (.backup now fates)).fs = s.fs := hs
    rw [hs] at hi ⊢
    have ⟨world, hw, hc⟩ := h id hi
    exact ⟨world, mem_made.mpr ⟨.inl hw, .inl rfl⟩, hc⟩
  case inl =>
    by_cases hn : id = backupName p now
    case pos =>
      subst hn
      exact ⟨_, mem_made.mpr ⟨.inr (SaveEvent.mem_makes.mpr ⟨hk, rfl⟩), .inl rfl⟩, backup_made hr hd hk⟩
    case neg =>
      have hg := backup_other hn fates [] (p := p) (s := s.fs)
      rw [List.append_nil] at hg
      have ⟨hd, hv⟩ := mem_saveIDs.mp hi
      have ⟨world, hw, hc⟩ := h id (mem_saveIDs.mpr ⟨hg ▸ hd, hv⟩)
      exact ⟨world, mem_made.mpr ⟨.inl hw, .inl rfl⟩, hc.backup hn fates⟩

theorem Complete.next (h : Complete p s) (hc : Sound p s e) : Complete p ((backingUp p).next s e) := by
  by_cases he : ∀ now fates, e ≠ .backup now fates
  case neg =>
    push Not at he
    obtain ⟨now, fates, rfl⟩ := he
    exact h.backup hc
  case pos =>
    intro id hi
    have ⟨gone, hg, hn⟩ := e.loses (p := p) (s := s.fs) he
    have ⟨hi', hm⟩ := hg.mem_saveIDs.mp hi
    have ⟨world, hw, hc⟩ := h id hm
    have hd := (mem_saveIDs.mp hi).left
    exact ⟨world, mem_made.mpr ⟨.inl hw, .inr (by rw [hd]; rfl)⟩, hc.of_loses hg hi'⟩

-- A prune keeps as many of the backups as it should.
theorem prune_keeps {retention : ℤ} {modTime : String → ℤ} {s : Fs}
    (hr : ¬(retention < 1 ∨ 100 < retention)) :
    (saveIDs p ((pruneSaveBackups p retention modTime).run [] s).state).length =
      min retention.toNat (saveIDs p s).length := by
  have hl : Loses p s (expired p retention modTime s)
      ((pruneSaveBackups p retention modTime).run [] s).state := wp_none_iff.mp wp_pruneSaveBackups
  rw [expired, if_neg hr, expiredSaves] at hl
  let ids := (saveIDs p s).insertionSort fun a b => modTime b ≤ modTime a
  have hi : ids.Perm (saveIDs p s) := List.perm_insertionSort _ _
  have hn : ids.Nodup := hi.nodup_iff.mpr nodup_saveIDs
  have hp : (saveIDs p ((pruneSaveBackups p retention modTime).run [] s).state).Perm
      (ids.take retention.toNat) := by
    apply (List.perm_ext_iff_of_nodup nodup_saveIDs (hn.sublist (List.take_sublist _ _))).mpr
    intro id
    rw [hl.mem_saveIDs, ← hi.mem_iff]
    have ha : id ∈ ids ↔ id ∈ ids.take retention.toNat ∨ id ∈ ids.drop retention.toNat := by
      rw [← List.mem_append, List.take_append_drop]
    constructor
    case mp  => exact fun h => (ha.mp h.right).resolve_right h.left
    case mpr => exact fun ht => ⟨List.disjoint_take_drop hn (le_refl _) ht, ha.mpr (.inl ht)⟩
  rw [hp.length_eq, List.length_take, hi.length_eq]

-- All listed backups are complete, a backup that fails changes nothing, and prunes keep as many complete
-- backups as they should.
theorem saves_complete {s : Fs} (hn : saveIDs p s = [])
    (hm : (backingUp p).Meets (Sound p) { fs := s } events) :
    let s' := (backingUp p).run { fs := s } events
    (∀ modTime saves, ((listSaves p modTime).run [] s'.fs).result = .ok saves → ∀ save ∈ saves,
      ∃ world, (save.id, world) ∈ s'.made ∧ HoldsCopy p s'.fs save.id world) ∧
    (∀ now fates, Sound p s' (.backup now fates) →
      ((backupWorld p now).run fates s'.fs).result.isOk = false →
      ((backupWorld p now).run fates s'.fs).state = s'.fs) ∧
    ∀ retention modTime, 1 ≤ retention → retention ≤ 100 →
      (saveIDs p ((pruneSaveBackups p retention modTime).run [] s'.fs).state).length =
        min retention.toNat (saveIDs p s'.fs).length := by
  have hc : Complete p ((backingUp p).run { fs := s } events) := by
    apply System.invariant (I := Complete p) (fun _ _ h hc => h.next hc) _ hm
    rw [Complete, hn]
    exact fun _ h => nomatch h
  refine ⟨?listed, ?failed, ?pruned⟩
  case listed =>
    intro modTime saves hs save hm
    exact hc _ ((saves_perm hs).mem_iff.mp (List.mem_map_of_mem hm))
  case failed =>
    intro now fates hs hk
    obtain ⟨_, _, ho⟩ | ⟨_, hs⟩ := hs.cases
    case inl => simp [hk] at ho
    case inr => exact hs
  case pruned => exact fun retention modTime h₁ h₂ => prune_keeps (by omega)

def freshFs : Fs :=
  .after [.mkdirAll ["srv", "world"], .create ["srv", "world", "level.dat"] true]

-- The second backup fails at its first look at the world.
theorem saves_complete_early :
    let s := (backingUp survival).run { fs := freshFs } [.backup 1735689601 [], .backup 1735689602 [.failed]]
    (saveIDs survival ((pruneSaveBackups survival 1 fun _ => 0).run [] s.fs).state).length =
      min 1 (saveIDs survival s.fs).length := by
  have hr : Readable survival freshFs := ⟨by decide +kernel, by decide +kernel⟩
  have hf : ∀ s, ¬Prepared survival s [.failed] :=
    fun _ h => nomatch h.served .failed (by decide)
  have hm : (backingUp survival).Meets (Sound survival) { fs := freshFs }
      [.backup 1735689601 [], .backup 1735689602 [.failed]] :=
    ⟨.inr ⟨hr, by decide +kernel, run_nil_within _⟩, .inl (hf _), trivial⟩
  exact (saves_complete (by decide +kernel) hm).right.right 1 _ (by decide) (by decide)

-- The second backup fails once it has made its directory.
def lateFailure : List SaveEvent :=
  [.backup 1735689601 [], .backup 1735689602 [.served, .served, .served, .served, .served, .failed]]

-- The backup that has failed is listed, and a prune removes the complete one in its favour.
theorem saves_incomplete :
    let s := (backingUp survival).run { fs := freshFs } lateFailure
    s.made.map Prod.fst = ["world-20250101-000001"] ∧
    (∃ saves, ((listSaves survival fun _ => 0).run [] s.fs).result = .ok saves ∧
      "world-20250101-000002" ∈ saves.map Save.id) ∧
    ((pruneSaveBackups survival 1 fun id => if id = "world-20250101-000002" then 1 else 0).run []
      s.fs).state.get (survival.backups ++ ["world-20250101-000001"]) = none := by
  refine ⟨by decide +kernel, ?_, by decide +kernel⟩
  have hi : "world-20250101-000002" ∈
      saveIDs survival ((backingUp survival).run { fs := freshFs } lateFailure).fs := by decide +kernel
  have ⟨saves, hs⟩ := exists_saves (p := survival)
    (s := ((backingUp survival).run { fs := freshFs } lateFailure).fs) (by decide +kernel) fun _ => 0
  exact ⟨saves, hs, (saves_perm hs).mem_iff.mpr hi⟩

end Agent
