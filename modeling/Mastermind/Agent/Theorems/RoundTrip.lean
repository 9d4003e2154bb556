import Mastermind.Agent.Theorems.Backups

open Effects Prog Files Js

namespace Agent

section

variable {p : Place} {s : Fs} {payload : Fields} {world : Tree}

-- Looks at the world do not fail while it is there.
def looksServed (p : Place) : Disturbance disk :=
  fun c fate => fate = .failed → c ≠ .stat p.world

theorem leaves_stageWorld : Leaves (p.backups <+: ·) (stageWorld p) := by
  refine (Leaves.ask fun _ _ => id).bind fun answer => ?_
  match answer with
  | .error _ => exact .pure
  | .ok _    =>
    apply Leaves.inContext
    apply Leaves.send
    rintro _ ⟨r, rfl⟩ (h | h)
    case inl => exact (p.apart.below r).right h
    case inr => exact (p.aside.below r).right h

-- The world has been moved away before the backup is copied.
theorem wp_stageWorld_gone :
    (stageWorld p).wp (under disk (looksServed p)) (onOk fun s' : Fs => s'.get p.world = none) s := by
  refine wp_ask_under.mpr ⟨?_, fun h => absurd rfl (h rfl), fun _ => trivial⟩
  cases hg : s.get p.world
  case none =>
    simp only [exec, hg]
    exact hg
  case some node =>
    simp only [exec, hg]
    apply wp_handle.mpr
    refine wp_perform_under.mpr ⟨?_, fun _ _ => trivial, fun _ _ => trivial⟩
    change ansPost _ (exec (.rename p.world p.old) s).1 (exec (.rename p.world p.old) s).2
    obtain ⟨e, he⟩ | ⟨s', he, _, hn⟩ := exec_rename p.world p.old s <;> rw [he]
    case inl => trivial
    case inr => exact hn _ (List.prefix_refl _)

-- A world that has been replaced is the one that the backup holds.
theorem wp_replaceWorld_copy {id : String} (hd : world [] = some .dir)
    (hl : ∀ r node, world r = some node → node.isLink = false)
    (hc : ∀ r, s.get (p.backups ++ [id] ++ r) = world r) :
    (replaceWorld p (p.backups ++ [id])).wp (under disk (looksServed p))
      (onOk fun s' : Fs => s'.tree p.world = world) s := by
  let Holds (s' : Fs) : Prop := ∀ r, s'.get (p.backups ++ [id] ++ r) = world r
  have hh : ∀ {s s' : Fs}, (∀ q, p.backups <+: q → s'.get q = s.get q) → Holds s → Holds s' := by
    intro s s' hs h r
    rw [hs _ (by simp), h]
  have hr : Leaves (p.backups <+: ·) (ignoreErrors (removeAll p.old)) :=
    .ignoreErrors (.removeAll fun q ⟨r, hq⟩ => (hq ▸ p.aside.below r).right)
  apply wp_bind_ok (J := Holds) (wp_onOk (wp_mono hr.wp fun _ _ h => hh h hc))
  intro _ s₁ h₁
  apply wp_bind_ok (J := fun s' : Fs => Holds s' ∧ s'.get p.world = none)
  case h  =>
    apply wp_mono (wp_and leaves_stageWorld.wp wp_stageWorld_gone)
    rintro res s' ⟨hs, hn⟩
    cases res
    case ok    => exact ⟨hh hs h₁, hn⟩
    case error => trivial
    case ended => trivial
  case hf =>
    rintro _ s₂ ⟨h₂, hn⟩
    have hr : ∀ r, world r ≠ some (.link none) := fun r hr => nomatch (hl r (.link none) hr : true = false)
    have hs : s₂.get (p.backups ++ [id]) = some .dir := by
      have h := h₂ []
      rwa [List.append_nil, hd] at h
    apply wp_handle.mpr
    apply wp_mono (wp_copyDir_onOk hs (p.apart.below [id]) hn fun r => h₂ r ▸ hr r)
    intro res s' h
    cases res
    case ended => trivial
    case error => exact wp_bind_throws fun _ _ => wp_bind_throws fun _ _ => trivial
    case ok    =>
      funext r
      have ht : s'.get (p.world ++ r) = _ := CopyOf.tree h r
      rw [Fs.tree, ht, h₂]
      cases hw : world r
      case none => rfl
      case some => exact congrArg some (copied_eq (hl r _ hw))

-- A restore that succeeds puts the world back that the backup holds.
theorem wp_restoreSave (hd : world [] = some .dir) (hl : ∀ r node, world r = some node → node.isLink = false)
    (hc : ∀ r, s.get (p.backups ++ [saveID payload] ++ r) = world r) :
    (restoreSave p payload).wp (under disk (looksServed p))
      (onOk fun s' : Fs => s'.tree p.world = world) s := by
  apply wp_bind_ok (J := fun s' : Fs => s'.tree p.world = world)
  case hf =>
    intro _ s₁ h₁
    apply wp_bind_ok (J := fun s' : Fs => s'.tree p.world = world)
    case hf => exact fun _ _ h => h
    case h  => exact wp_onOk (wp_mono leaves_removeOld.wp fun _ _ h => (tree_eq h).trans h₁)
  case h =>
    apply wp_bind.mpr
    apply wp_bind.mpr
    apply wp_mono wp_findSave
    rintro res _ ⟨rfl, hp⟩
    cases res
    case error   => trivial
    case ended   => trivial
    case ok path =>
      obtain rfl := hp path rfl
      refine wp_step (rfl : exec .wait _ = (.ok (), _)) ?_ fun _ _ _ => ⟨trivial, trivial⟩
      exact wp_bind_ok (wp_replaceWorld_copy hd hl hc) fun _ _ h => h

end

-- The world is a directory without links.
structure Plain (p : Place) (s : Fs) : Prop where
  dir   : s.get p.world = some .dir
  links : ∀ q ∈ s.paths, p.world <+: q → (s.get q).any Node.isLink = false

-- A backup gets a directory of its own, under a name that is accepted, and the world has no links.
def Orderly (p : Place) (s : Backups) : SaveEvent → Prop
  | .backup now _ =>
    s.fs.get (p.backups ++ [backupName p now]) = none ∧ isBackupID (backupName p now) = true ∧
    (s.fs.get p.world = none ∨ Plain p s.fs)
  | _             => True

-- A backup is there and can be found.
structure Kept (p : Place) (s : Fs) (b : String × Tree) : Prop where
  dir    : b.2 [] = some .dir
  plain  : ∀ r node, b.2 r = some node → node.isLink = false
  copy   : HoldsCopy p s b.1 b.2
  listed : isBackupID b.1 = true

variable {p : Place} {s : Backups} {e : SaveEvent} {events : List SaveEvent} {b : String × Tree}

theorem Plain.readable {s : Fs} (h : Plain p s) : Readable p s where
  dir := h.dir
  links := by
    intro q hq hw hn
    have h := h.links q hq hw
    rw [hn] at h
    nomatch h

theorem Plain.tree {s : Fs} (h : Plain p s) {r : Path} {node : Node} (hr : s.tree p.world r = some node) :
    node.isLink = false := by
  have hs : s.get (p.world ++ r) = some node := hr
  have h := h.links _ (s.listed (by rw [hs]; rfl)) (List.prefix_append _ _)
  rwa [hs] at h

theorem Kept.get (h : Kept p s.fs b) (r : Path) : s.fs.get (p.backups ++ [b.1] ++ r) = b.2 r := by
  rw [h.copy r]
  cases hr : b.2 r
  case none => rfl
  case some => exact congrArg some (copied_eq (h.plain r _ hr))

theorem Kept.next (h : ∀ b ∈ s.made, Kept p s.fs b) (hc : Orderly p s e)
    (hb : b ∈ ((backingUp p).next s e).made) : Kept p ((backingUp p).next s e).fs b := by
  obtain ⟨hm, hl⟩ := mem_made.mp hb
  by_cases he : ∀ now fates, e ≠ .backup now fates
  case pos =>
    obtain ⟨gone, hg, hn⟩ := e.loses (p := p) (s := s.fs) he
    rw [SaveEvent.makes_eq_nil he] at hm
    have h := h b (hm.resolve_right List.not_mem_nil)
    have hi : b.1 ∉ gone := by
      intro hi
      cases hl
      case inl hr => simp [hn hr] at hi
      case inr hp =>
        have hg := hg b.1 []
        rw [if_pos hi, List.append_nil] at hg
        rw [hg] at hp
        cases hp
    exact { h with copy := h.copy.of_loses hg hi }
  case neg =>
    push Not at he
    obtain ⟨now, fates, rfl⟩ := he
    obtain ⟨hd, hi, hw⟩ := hc
    cases hm
    case inl hm =>
      have h := h b hm
      have hn : b.1 ≠ backupName p now := by
        intro hn
        have hg := h.copy.get h.dir
        rw [hn, hd] at hg
        cases hg
      exact { h with copy := h.copy.backup hn fates }
    case inr hm =>
      obtain ⟨hk, rfl⟩ := SaveEvent.mem_makes.mp hm
      have hw : Plain p s.fs := by
        apply hw.resolve_left
        intro hw
        have hp : ¬Prepared p s.fs fates := fun hp => by simpa [hw] using hp.world
        simp [(backup_unprepared hp).left] at hk
      have hdir : s.fs.tree p.world [] = some .dir := (congrArg _ (List.append_nil _)).trans hw.dir
      exact ⟨hdir, fun _ _ => hw.tree, backup_made hw.readable hd hk, hi⟩

-- Backups that are made in order are listed, and restoring them brings the world back.
theorem save_roundTrip {s : Fs} {id : String} {world : Tree}
    (hm : (backingUp p).Meets (Orderly p) { fs := s } events)
    (hb : (id, world) ∈ ((backingUp p).run { fs := s } events).made) :
    let s' := ((backingUp p).run { fs := s } events).fs
    (∀ modTime, ∃ saves, ((listSaves p modTime).run [] s').result = .ok saves ∧
      id ∈ saves.map Save.id) ∧
    ∀ payload fates, saveID payload = id →
      Run.Within (looksServed p) ((restoreSave p payload).run fates s') →
      ((restoreSave p payload).run fates s').result.isOk = true →
      ((restoreSave p payload).run fates s').state.tree p.world = world := by
  have hk : ∀ b ∈ ((backingUp p).run { fs := s } events).made,
      Kept p ((backingUp p).run { fs := s } events).fs b :=
    System.invariant (I := fun s : Backups => ∀ b ∈ s.made, Kept p s.fs b)
      (fun _ _ h hc _ hb => Kept.next h hc hb) (by simp) hm
  have hk := hk _ hb
  have hg := hk.copy.get hk.dir
  constructor
  case left =>
    intro modTime
    have hb := ((backingUp p).run { fs := s } events).fs.closed (by rw [hg]; rfl)
    have ⟨saves, hs⟩ := exists_saves hb modTime
    have hi := mem_saveIDs.mpr ⟨hg, hk.listed⟩
    exact ⟨saves, hs, (saves_perm hs).mem_iff.mpr hi⟩
  case right =>
    rintro payload fates rfl hd hr
    exact onOk.of_isOk (wp_run (wp_restoreSave hk.dir hk.plain hk.get) hd) hr

-- The world is removed after its backup.
def lossOfWorld : List SaveEvent :=
  [.backup 1735689601 [], .change none]

def lateSave : Fields :=
  [("save_id", .str "world-20250101-000001")]

theorem lateSave_made : ("world-20250101-000001", survivalFs.tree survival.world) ∈
    ((backingUp survival).run { fs := survivalFs } lossOfWorld).made := by
  have hn : backupName survival 1735689601 = "world-20250101-000001" := by decide +kernel
  have h : ("world-20250101-000001", survivalFs.tree survival.world) ∈
      ((backingUp survival).next { fs := survivalFs } (.backup 1735689601 [])).made := by
    refine mem_made.mpr ⟨.inr (SaveEvent.mem_makes.mpr ⟨by decide +kernel, ?_⟩), .inl rfl⟩
    rw [hn]
  exact mem_made.mpr ⟨.inl h, .inl rfl⟩

theorem save_roundTrip_loss :
    ((restoreSave survival lateSave).run []
      ((backingUp survival).run { fs := survivalFs } lossOfWorld).fs).state.tree survival.world =
      survivalFs.tree survival.world := by
  have hp : Plain survival survivalFs := ⟨by decide +kernel, by decide +kernel⟩
  have hm : (backingUp survival).Meets (Orderly survival) { fs := survivalFs } lossOfWorld :=
    ⟨⟨by decide +kernel, by decide +kernel, .inr hp⟩, trivial, trivial⟩
  have hr := (save_roundTrip hm lateSave_made).right
  exact hr lateSave [] (by decide +kernel) (run_nil_within _) (by decide +kernel)

-- The name of the world has a blank, which the names of listed backups do not have.
def blankLevel : Place where
  install := ["srv"]
  level   := "my world"
  backups := ["srv", "mastermind-backups"]
  legal   := by decide +kernel
  apart   := by decide +kernel
  aside   := by decide +kernel

def blankFs : Fs :=
  .after [.mkdirAll ["srv", "my world"], .create ["srv", "my world", "level.dat"] true]

-- The world is replaced and backed up again within one second.
def hastyBackups : List SaveEvent :=
  [.backup 1735689601 [], .change (some (.after [.create ["region"] true])), .backup 1735689601 []]

-- One backup is not listed, and another one is mixed with what its directory has held before.
theorem save_lost :
    (let s := (backingUp blankLevel).run { fs := blankFs } [.backup 1735689601 []]
     "my world-20250101-000001" ∈ s.made.map Prod.fst ∧
     ∀ modTime saves, ((listSaves blankLevel modTime).run [] s.fs).result = .ok saves → saves = []) ∧
    (let s := (backingUp survival).run { fs := survivalFs } hastyBackups
     let restored := (restoreSave survival lateSave).run [] s.fs
     (s.made.map fun b => (b.1, b.2 ["level.dat"])) =
       [("world-20250101-000001", some (.file [2])), ("world-20250101-000001", none)] ∧
     restored.result.isOk = true ∧ restored.state.tree survival.world ["level.dat"] = some (.file [2])) := by
  refine ⟨⟨by decide +kernel, ?_⟩, by decide +kernel, by decide +kernel, by decide +kernel⟩
  intro modTime saves hs
  have hi : saveIDs blankLevel
      ((backingUp blankLevel).run { fs := blankFs } [.backup 1735689601 []]).fs = [] := by decide +kernel
  have hp := saves_perm hs
  rw [hi] at hp
  simpa using hp.eq_nil

end Agent
