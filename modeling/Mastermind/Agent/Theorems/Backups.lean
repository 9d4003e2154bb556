import Mastermind.Agent.Backups
import Mastermind.Agent.Theorems.Restore

open Effects Prog Files Js

namespace Agent

-- The directory of a backup holds the copy of a world.
def HoldsCopy (p : Place) (s : Fs) (id : String) (world : Tree) : Prop :=
  ∀ r, s.get (p.backups ++ [id] ++ r) = (world r).map copied

section

variable {p : Place} {s s' : Fs} {payload : Fields} {id x : String} {r : Path} {now : ℤ}
variable {D : Disturbance disk} {fates : List Fate}

theorem prefix_save : p.backups ++ [x] <+: p.backups ++ [id] ++ r ↔ x = id := by
  rw [List.append_assoc, List.prefix_append_right_inj]
  simp

theorem save_apart (h : id ≠ x) : Apart (p.backups ++ [id] ++ r) (p.backups ++ [x]) :=
  (Apart.of_ne h).below r

theorem save_not_prefix : ¬p.backups ++ [id] ++ r <+: p.backups := by
  intro h
  have := h.length_le
  simp at this

theorem save_ne_nil : p.backups ++ [id] ≠ [] := by
  simp

-- The backups are apart from what a restore changes.
theorem leaves_restoreSave : Leaves (p.backups <+: ·) (restoreSave p payload) := by
  have hw : ∀ q, p.backups <+: q → Apart q p.world := fun q ⟨r, hr⟩ => hr ▸ p.apart.below r
  have ho : ∀ q, p.backups <+: q → Apart q p.old := fun q ⟨r, hr⟩ => hr ▸ p.aside.below r
  have hr : Leaves (p.backups <+: ·) (removeAll p.old) := .removeAll fun q hq => (ho q hq).right
  have hm : ∀ {a b}, (a = p.world ∧ b = p.old) ∨ (a = p.old ∧ b = p.world) →
      Leaves (p.backups <+: ·) (send (.rename a b)) := by
    rintro a b h
    apply Leaves.send
    rintro q hq (hc | hc)
    · obtain ⟨rfl, _⟩ | ⟨rfl, _⟩ := h
      case inl => exact (hw q hq).right hc
      case inr => exact (ho q hq).right hc
    · obtain ⟨_, rfl⟩ | ⟨_, rfl⟩ := h
      case inl => exact (ho q hq).right hc
      case inr => exact (hw q hq).right hc
  have hs : Leaves (p.backups <+: ·) (stageWorld p) := by
    apply (Leaves.ask fun _ _ => id).bind
    intro answer
    match answer with
    | .ok _    => exact (hm (.inl ⟨rfl, rfl⟩)).inContext
    | .error _ => exact .pure
  have hc : ∀ source, Leaves (p.backups <+: ·) (replaceWorld p source) := by
    intro source
    apply hr.ignoreErrors.bind
    intro _
    apply hs.bind
    intro _
    apply (leaves_copyDir hw).handle
    intro e
    have hd : Leaves (p.backups <+: ·) (removeAll p.world) :=
      .removeAll fun q hq => (hw q hq).right
    exact hd.ignoreErrors.bind fun _ => (hm (.inr ⟨rfl, rfl⟩)).ignoreErrors.bind fun _ => .throw
  have hi : Leaves (p.backups <+: ·) (installSave p payload) :=
    (leaves_checkSave _).bind fun source => (hc source).bind fun _ => .pure
  exact hi.bind fun _ => hr.ignoreErrors.bind fun _ => .pure

theorem wp_findSave :
    (findSave p payload).wp (under disk D)
      (fun res s' => s' = s ∧ ∀ path, res = .ok path → path = p.backups ++ [saveID payload]) s := by
  rw [findSave]
  apply wp_bind.mpr
  apply wp_ofExcept.mpr
  cases validateBackupID (saveID payload)
  case error => exact ⟨rfl, by rintro _ ⟨⟩⟩
  case ok    =>
    have hx : (exec (.lstat (p.backups ++ [saveID payload])) s).2 = s := by
      simp only [exec]
      split <;> rfl
    refine wp_ask_under.mpr ⟨?_, fun _ => ⟨rfl, by rintro _ ⟨⟩⟩, fun _ => ⟨rfl, by rintro _ ⟨⟩⟩⟩
    rw [hx]
    cases (exec (.lstat (p.backups ++ [saveID payload])) s).1
    case error   => exact ⟨rfl, by rintro _ ⟨⟩⟩
    case ok node =>
      cases node
      case dir  => exact ⟨rfl, fun _ h => (Result.ok.inj h).symm⟩
      case file => exact ⟨rfl, by rintro _ ⟨⟩⟩
      case link => exact ⟨rfl, by rintro _ ⟨⟩⟩

-- Some backups are gone, and the other ones are as before.
def Loses (p : Place) (s : Fs) (gone : List String) (s' : Fs) : Prop :=
  ∀ id r, s'.get (p.backups ++ [id] ++ r) =
    if id ∈ gone then none else s.get (p.backups ++ [id] ++ r)

theorem Loses.refl : Loses p s [] s :=
  fun _ _ => rfl

theorem wp_removeSave {gone : List String} (h : Loses p s gone s') :
    (removeAll (p.backups ++ [id])).wp (under disk .none) (returns (Loses p s (gone ++ [id]))) s' := by
  apply wp_returns_mono (wp_removeAll save_ne_nil)
  intro s₁ hg id' r
  rw [hg, h]
  by_cases hi : id' = id
  case pos => rw [if_pos (prefix_save.mpr hi.symm), if_pos (by simp [hi])]
  case neg =>
    rw [if_neg fun hp => hi (prefix_save.mp hp).symm]
    simp [hi]

theorem delete_loses (p : Place) (payload : Fields) (s : Fs) :
    ∃ gone, Loses p s gone ((deleteSaveBackup p payload).run [] s).state := by
  have hw : (deleteSaveBackup p payload).wp (under disk .none)
      (fun _ s' => ∃ gone, Loses p s gone s') s := by
    apply wp_bind.mpr
    apply wp_mono wp_findSave
    rintro res _ ⟨rfl, hp⟩
    cases res
    case error => exact ⟨[], .refl⟩
    case ended => exact ⟨[], .refl⟩
    case ok path =>
      obtain rfl := hp path rfl
      apply wp_handle.mpr
      apply wp_mono (wp_removeSave .refl)
      intro res s' h
      cases res
      case ok    => exact ⟨_, h⟩
      case error => exact h.elim
      case ended => exact h.elim
  exact wp_none_iff.mp hw

-- What is listed when the directory of the backups is read.
def entries (p : Place) (s : Fs) : List (String × Node) :=
  (s.children p.backups).filterMap fun x => (s.get (p.backups ++ [x])).map (x, ·)

-- The ids under which backups are listed.
def saveIDs (p : Place) (s : Fs) : List String :=
  saveNames (entries p s)

theorem mem_saveIDs :
    id ∈ saveIDs p s ↔ s.get (p.backups ++ [id]) = some .dir ∧ isBackupID id = true := by
  simp only [saveIDs, saveNames, entries, List.mem_map, List.mem_filter, List.mem_filterMap,
    Option.map_eq_some_iff, Bool.and_eq_true, decide_eq_true_eq]
  constructor
  case mp =>
    rintro ⟨_, ⟨⟨x, _, n, hn, rfl⟩, hd, hv⟩, rfl⟩
    exact ⟨hn.trans (congrArg some hd), hv⟩
  case mpr =>
    rintro ⟨hd, hv⟩
    exact ⟨(id, .dir), ⟨⟨id, Fs.mem_children.mpr (by rw [hd]; rfl), .dir, hd, rfl⟩, rfl, hv⟩, rfl⟩

theorem nodup_saveIDs : (saveIDs p s).Nodup := by
  have he : ∀ e ∈ entries p s, s.get (p.backups ++ [e.1]) = some e.2 := by
    intro e he
    simp only [entries, List.mem_filterMap, Option.map_eq_some_iff] at he
    obtain ⟨_, _, _, hn, rfl⟩ := he
    exact hn
  have hn : (entries p s).Nodup := by
    apply Fs.nodup_children.filterMap
    intro x x' e hx hx'
    have ⟨_, _, hx⟩ := Option.map_eq_some_iff.mp hx
    have ⟨_, _, hx'⟩ := Option.map_eq_some_iff.mp hx'
    exact (congrArg Prod.fst (hx.trans hx'.symm) :)
  apply List.Nodup.map_on _ (hn.filter _)
  intro e hm e' hm' hx
  have h := he e (List.mem_of_mem_filter hm)
  rw [hx, he e' (List.mem_of_mem_filter hm')] at h
  exact Prod.ext hx (Option.some.inj h).symm

theorem exec_readDir (h : s.get p.backups = some .dir) :
    exec (.readDir p.backups) s = (.ok (entries p s), s) := by
  simp only [exec, h]
  rfl

theorem saveIDs_eq_nil (h : s.get p.backups ≠ some .dir) : saveIDs p s = [] := by
  apply List.eq_nil_iff_forall_not_mem.mpr
  intro id hi
  exact h (s.closed (by rw [(mem_saveIDs.mp hi).left]; rfl))

-- The backups that a retention does not keep are removed.
theorem wp_removeSaves {ids : List String} :
    (forEach (fun id => removeAll (p.backups ++ [id])) ids).wp (under disk .none)
      (returns (Loses p s ids)) s := by
  let I (rest : List String) (s' : Fs) : Prop := ∃ gone, ids = gone ++ rest ∧ Loses p s gone s'
  have hw : (forEach (fun id => removeAll (p.backups ++ [id])) ids).wp (under disk .none)
      (returns (I [])) s := by
    apply wp_forEach (B := disk) (I := I)
    case hs => exact ⟨[], rfl, .refl⟩
    case h  =>
      rintro id rest s' ⟨gone, hi, h⟩
      apply wp_returns_mono (wp_removeSave h)
      exact fun _ h => ⟨gone ++ [id], by simp [hi], h⟩
  apply wp_returns_mono hw
  rintro s' ⟨gone, hi, h⟩
  rwa [hi, List.append_nil]

@[simp]
theorem expiredSaves_nil {n : Nat} {modTime : String → ℤ} : expiredSaves n modTime [] = [] :=
  List.drop_nil

-- The ids that a prune removes.
def expired (p : Place) (retention : ℤ) (modTime : String → ℤ) (s : Fs) : List String :=
  if retention < 1 ∨ 100 < retention then []
  else expiredSaves retention.toNat modTime (saveIDs p s)

theorem wp_pruneSaveBackups {retention : ℤ} {modTime : String → ℤ} :
    (pruneSaveBackups p retention modTime).wp (under disk .none)
      (fun _ s' => Loses p s (expired p retention modTime s) s') s := by
  rw [pruneSaveBackups, expired]
  split
  case isTrue  => exact .refl
  case isFalse =>
    apply wp_ask.mpr
    by_cases hb : s.get p.backups = some .dir
    case pos =>
      rw [exec_readDir hb]
      exact wp_mono wp_removeSaves fun _ _ h => h.state
    case neg =>
      rw [saveIDs_eq_nil hb, expiredSaves_nil]
      match hg : s.get p.backups with
      | none           => simp only [exec, hg]; exact Loses.refl
      | some .dir      => exact absurd hg hb
      | some (.file _) => simp only [exec, hg]; exact Loses.refl
      | some (.link _) => simp only [exec, hg]; exact Loses.refl

-- What a backup needs in order to come to its copy.
structure Prepared (p : Place) (s : Fs) (fates : List Fate) : Prop where
  world  : (s.get p.world).isSome
  room   : s.Passable p.backups
  served : ∀ fate ∈ fates.take 2, fate = .served

-- A backup that does not come to its copy changes nothing.
theorem backup_unprepared (h : ¬Prepared p s fates) :
    ((backupWorld p now).run fates s).result.isOk = false ∧
    ((backupWorld p now).run fates s).state = s := by
  have hp : ((prepareBackup p).run fates s).result.isOk = false ∧
      ((prepareBackup p).run fates s).state = s := by
    rw [prepareBackup]
    cases hw : s.get p.world
    case none =>
      exact run_stop (fun _ => rfl) rfl (.inr ⟨.notExist, by simp only [exec, hw]⟩)
    case some node =>
      by_cases hs : fates.headD .served = .served
      case neg => exact run_stop (fun _ => rfl) rfl (.inl hs)
      case pos =>
        have hx : exec (.stat p.world) s = (.ok node.target, s) := by simp only [exec, hw]
        rw [run_step rfl hs hx]
        by_cases ht : fates.tail.headD .served = .served
        case neg => exact run_stop (fun _ => rfl) rfl (.inl ht)
        case pos =>
          by_cases hr : s.Passable p.backups
          case neg =>
            exact run_stop (fun _ => rfl) rfl (.inr ⟨Err.other "not a directory", if_neg hr⟩)
          case pos =>
            refine absurd ⟨by rw [hw]; rfl, hr, ?_⟩ h
            rcases fates with _ | ⟨_, _ | _⟩
            case nil       => rintro _ ⟨⟩
            case cons.nil  => simpa using hs
            case cons.cons => simpa using And.intro hs ht
  obtain ⟨hk, hs⟩ := run_bind_of_not_ok (f := fun _ => do
    let dest := p.backups ++ [backupName p now]
    copyDir p.world dest
    return dest) hp.left
  exact ⟨hk, hs.trans hp.right⟩

-- The world is a directory whose links lead to files.
structure Readable (p : Place) (s : Fs) : Prop where
  dir   : s.get p.world = some .dir
  links : ∀ q ∈ s.paths, p.world <+: q → s.get q ≠ some (.link none)

theorem wp_backupWorld (hr : s.Passable p.backups) (hw : Readable p s)
    (hd : s.get (p.backups ++ [backupName p now]) = none) :
    (backupWorld p now).wp (under disk D)
      (unlessDisturbed D (HoldsCopy p · (backupName p now) (s.tree p.world))) s := by
  have hb : ∀ r, (s.makeAll p.backups).get (p.world ++ r) = s.get (p.world ++ r) :=
    fun r => if_neg (p.apart.symm.below r).left
  have hdir : (s.makeAll p.backups).get p.world = some .dir := by
    have h := hb []
    rw [List.append_nil] at h
    exact h.trans hw.dir
  have hp : (prepareBackup p).wp (under disk D) (unlessDisturbed D (· = s.makeAll p.backups)) s := by
    have hx : exec (.stat p.world) s = (.ok .dir, s) := by simp only [exec, hw.dir, Node.target]
    apply wp_unless_step hx
    exact wp_unless_last (if_pos hr : exec (.mkdirAll p.backups) s = (.ok (), _)) rfl
  apply wp_unless_bind hp
  rintro _ _ rfl
  apply wp_unless_bind (J := (HoldsCopy p · (backupName p now) (s.tree p.world)))
  case hf => exact fun _ _ h => h
  case h  =>
    have hn : ∀ q, q <+: p.backups ++ [backupName p now] → q ≠ p.backups ++ [backupName p now] →
        q <+: p.backups := fun q hq hn => (List.prefix_concat_iff.mp hq).resolve_left hn
    have hd : (s.makeAll p.backups).get (p.backups ++ [backupName p now]) = none :=
      (if_neg fun h => by simpa using h.length_le).trans hd
    have hroom : (s.makeAll p.backups).Passable (p.backups ++ [backupName p now]) := by
      intro q hq
      by_cases he : q = p.backups ++ [backupName p now]
      case pos => exact .inl (he ▸ hd)
      case neg => exact .inr (if_pos (hn q ((List.mem_inits _ _).mp hq) he))
    have hl : ∀ r, (s.makeAll p.backups).get (p.world ++ r) ≠ some (.link none) := by
      intro r hl
      rw [hb] at hl
      exact hw.links _ (s.listed (by rw [hl]; rfl)) (List.prefix_append _ _) hl
    have hc := wp_copyDir (D := D) hdir (p.apart.below [backupName p now]).symm hroom hd hl
    apply wp_mono hc
    intro res s' h
    cases res
    case error => exact h
    case ended => exact h
    case ok    =>
      have h : CopyOf (s.makeAll p.backups) p.world (p.backups ++ [backupName p now])
        ((s.makeAll p.backups).below p.world) s' := h
      exact fun r => (h.tree r).trans (by rw [hb]; rfl)

-- The other backups are not touched by a backup.
theorem backup_other (h : id ≠ backupName p now) (fates : List Fate) (r : Path) :
    ((backupWorld p now).run fates s).state.get (p.backups ++ [id] ++ r) =
      s.get (p.backups ++ [id] ++ r) := by
  let Q (q : Path) := ∃ r, q = p.backups ++ [id] ++ r
  have hp : Leaves Q (prepareBackup p) := by
    have hs : Leaves Q (send (.stat p.world)) := .send fun _ _ h => h
    apply hs.bind
    intro _
    apply Leaves.send
    rintro _ ⟨r, rfl⟩
    exact save_not_prefix
  have hc : Leaves Q (copyDir p.world (p.backups ++ [backupName p now])) := by
    apply leaves_copyDir
    rintro _ ⟨r, rfl⟩
    exact save_apart h
  have hl : Leaves Q (backupWorld p now) := hp.bind fun _ => hc.bind fun _ => .pure
  exact hl.run fates ⟨r, rfl⟩

-- A backup that succeeds holds a copy of the world.
theorem backup_made (hw : Readable p s) (hd : s.get (p.backups ++ [backupName p now]) = none)
    (hk : ((backupWorld p now).run fates s).result.isOk = true) :
    HoldsCopy p ((backupWorld p now).run fates s).state (backupName p now) (s.tree p.world) := by
  have hp : Prepared p s fates := by
    by_contra hn
    exact absurd hk (by simp [(backup_unprepared hn).left])
  have h : (backupWorld p now).wp (under disk .any) (onOk _) s :=
    wp_unless_onOk (wp_backupWorld hp.room hw hd)
  exact onOk.of_isOk (wp_run h fun _ _ _ => trivial) hk

namespace HoldsCopy

variable {world : Tree} {gone : List String}

theorem of_loses (h : HoldsCopy p s id world) (hl : Loses p s gone s') (hn : id ∉ gone) :
    HoldsCopy p s' id world := by
  intro r
  rw [hl, if_neg hn]
  exact h r

theorem backup (h : HoldsCopy p s id world) (hn : id ≠ backupName p now) (fates : List Fate) :
    HoldsCopy p ((backupWorld p now).run fates s).state id world :=
  fun r => (backup_other hn fates r).trans (h r)

theorem get (h : HoldsCopy p s id world) (hd : world [] = some .dir) :
    s.get (p.backups ++ [id]) = some .dir := by
  have h := h []
  rwa [List.append_nil, hd] at h

end HoldsCopy

theorem Loses.of_get (h : ∀ q, p.backups <+: q → s'.get q = s.get q) : Loses p s [] s' := by
  intro id r
  rw [List.append_assoc]
  exact h _ (List.prefix_append _ _)

theorem Loses.mem_saveIDs {gone : List String} (h : Loses p s gone s') :
    id ∈ saveIDs p s' ↔ id ∉ gone ∧ id ∈ saveIDs p s := by
  have hg := h id []
  rw [List.append_nil] at hg
  rw [Agent.mem_saveIDs, Agent.mem_saveIDs, hg]
  split
  case isTrue hi  => simp [hi]
  case isFalse hi => simp [hi]

-- What the events other than backups do to the backups.
theorem SaveEvent.loses (e : SaveEvent) (he : ∀ now fates, e ≠ .backup now fates) :
    ∃ gone, Loses p s gone (e.apply p s) ∧ (e.removes = false → gone = []) := by
  cases e
  case backup  => exact absurd rfl (he _ _)
  case restore => exact ⟨[], .of_get fun q hq => leaves_restoreSave.run _ hq, fun _ => rfl⟩
  case delete payload =>
    have ⟨gone, h⟩ := delete_loses p payload s
    exact ⟨gone, h, nofun⟩
  case prune   => exact ⟨_, wp_none_iff.mp wp_pruneSaveBackups, nofun⟩
  case change  =>
    refine ⟨[], .of_get ?_, fun _ => rfl⟩
    rintro _ ⟨r, rfl⟩
    rw [apply]
    split
    case isFalse => rfl
    case isTrue  => exact if_neg (p.apart.below r).right

theorem SaveEvent.makes_eq_nil {e : SaveEvent} (he : ∀ now fates, e ≠ .backup now fates) :
    e.makes p s = [] := by
  cases e
  case backup  => exact absurd rfl (he _ _)
  case restore => rfl
  case delete  => rfl
  case prune   => rfl
  case change  => rfl

theorem SaveEvent.mem_makes {b : String × Tree} :
    b ∈ (SaveEvent.backup now fates).makes p s ↔
      ((backupWorld p now).run fates s).result.isOk = true ∧ b = (backupName p now, s.tree p.world) := by
  rw [makes]
  split
  case isTrue h  => simp [h]
  case isFalse h => simp [h]

theorem mem_made {s : Backups} {e : SaveEvent} {b : String × Tree} :
    b ∈ ((backingUp p).next s e).made ↔ (b ∈ s.made ∨ b ∈ e.makes p s.fs) ∧
      (e.removes = false ∨ ((e.apply p s.fs).get (p.backups ++ [b.1])).isSome) := by
  simp [or_and_right]

section

variable {modTime : String → ℤ} {names : List String}

theorem wp_describeSaves : (describeSaves p modTime names).wp (under disk .none)
    (fun res _ => ∃ saves, res = .ok saves ∧ saves.map Save.id = names) s := by
  induction names generalizing s
  case nil           => exact ⟨[], rfl, rfl⟩
  case cons id names hi =>
    rw [describeSaves]
    apply wp_bind.mpr
    apply wp_ask.mpr
    apply wp_bind.mpr
    apply wp_mono hi
    rintro _ _ ⟨saves, rfl, hn⟩
    exact ⟨_, rfl, congrArg _ hn⟩

-- The list consists of the backups whose names are accepted.
theorem wp_listSaves : (listSaves p modTime).wp (under disk .none)
    (fun res _ => (∀ saves, res = .ok saves → (saves.map Save.id).Perm (saveIDs p s)) ∧
      (s.get p.backups = some .dir → res.isOk = true)) s := by
  rw [listSaves]
  apply wp_ask.mpr
  by_cases hb : s.get p.backups = some .dir
  case pos =>
    rw [exec_readDir hb]
    apply wp_bind.mpr
    apply wp_mono wp_describeSaves
    rintro _ _ ⟨saves, rfl, hn⟩
    refine ⟨?_, fun _ => rfl⟩
    rintro _ ⟨⟩
    have hp := (List.perm_insertionSort (fun a b : Save => b.createdAt ≤ a.createdAt) saves).map Save.id
    exact hp.trans (hn ▸ .refl _)
  case neg =>
    rw [saveIDs_eq_nil hb]
    cases hg : s.get p.backups
    case none =>
      simp only [exec, hg]
      refine ⟨?_, by rintro ⟨⟩⟩
      rintro _ ⟨⟩
      exact .refl _
    case some node =>
      cases node
      case dir  => exact absurd hg hb
      case file =>
        simp only [exec, hg]
        exact ⟨by rintro _ ⟨⟩, by rintro ⟨⟩⟩
      case link =>
        simp only [exec, hg]
        exact ⟨by rintro _ ⟨⟩, by rintro ⟨⟩⟩

theorem saves_perm {saves : List Save} (h : ((listSaves p modTime).run [] s).result = .ok saves) :
    (saves.map Save.id).Perm (saveIDs p s) :=
  (wp_none_iff.mp wp_listSaves).left saves h

theorem exists_saves (h : s.get p.backups = some .dir) (modTime : String → ℤ) :
    ∃ saves, ((listSaves p modTime).run [] s).result = .ok saves := by
  have hk : ((listSaves p modTime).run [] s).result.isOk = true :=
    (wp_none_iff.mp wp_listSaves).right h
  match hr : ((listSaves p modTime).run [] s).result with
  | .ok saves => exact ⟨saves, rfl⟩
  | .error _  => simp [hr, Result.isOk] at hk
  | .ended    => simp [hr, Result.isOk] at hk

end

end

end Agent
