import Mastermind.Agent.Theorems.Restore

open Effects Prog Files Js

namespace Agent

-- The steps of a restore that may fail: all but the look at the world, the removal of what a copy
-- has left there, and the move back.
def breaking (p : Place) : Disturbance disk :=
  fun c fate => fate = .failed ∧
    match c with
    | .stat _     => False
    | .walk q     => q ≠ p.world
    | .remove q   => ¬p.world <+: q
    | .rename q _ => q ≠ p.old
    | _           => True

instance {p : Place} {c : Cmd} {fate : Fate} : Decidable (breaking p c fate) := by
  cases c <;> exact inferInstanceAs (Decidable (_ ∧ _))

-- A restore that comes to its changes without a world to move away, while something is where it
-- would be moved to.
structure Exposed (p : Place) (payload : Fields) (s : Fs) : Prop where
  valid   : validateBackupID (saveID payload) = .ok ()
  found   : s.get (p.backups ++ [saveID payload]) = some .dir
  absent  : s.get p.world = none
  leftover : (s.get p.old).isSome = true

section

variable {p : Place} {payload : Fields} {s s' : Fs} {source : Path} {fs : List Fate} {q : Path}
  {D : Disturbance disk}

theorem only_removeEach {P : Cmd → Prop} {rs : List Path} (hr : ∀ r, P (.remove (q ++ r))) :
    Only (B := disk) P (removeEach q rs) := by
  induction rs
  case nil          => exact Only.pure
  case cons r rs hi => exact ⟨hr r, fun _ => hi.bind fun _ => .ofExcept⟩

theorem only_removeAll {P : Cmd → Prop} (hw : P (.walk q)) (hr : ∀ r, P (.remove (q ++ r))) :
    Only (B := disk) P (removeAll q) :=
  Only.bind (Only.perform hw) fun _ => only_removeEach hr

-- What no disturbance meets, is not disturbed.
theorem wp_undisturbed {α : Type} {prog : Disk α} {Q : Result Err α → Fs → Prop}
    (h : Only (fun c => ∀ fate, ¬D c fate) prog) (hw : prog.wp (under disk .none) Q s) :
    prog.wp (under disk D) Q s := by
  induction prog generalizing s
  case ret   => exact hw
  case throw => exact hw
  case call c k hi =>
    have ⟨hn, hk⟩ := h
    have hw := (wp_call_under.mp hw).left
    exact wp_call_under.mpr ⟨hi _ (hk _) hw, fun _ hd => (hn _ hd).elim, fun _ hd => (hn _ hd).elim⟩

-- A program whose errors are ignored returns unless it is ended.
theorem wp_ignore {prog : Disk Unit} {I : Fs → Prop} (hd : ∀ c, ¬D c .ended)
    (h : prog.wp (under disk D) (fun _ => I) s) :
    (ignoreErrors prog).wp (under disk D) (returns I) s := by
  induction prog generalizing s
  case ret   => exact h
  case throw => exact h
  case call c k hi =>
    have ⟨hs, hf, _⟩ := wp_call_under.mp h
    exact wp_call_under.mpr ⟨hi _ hs, fun hl hc => hi _ (hf hl hc), fun _ hc => (hd _ hc).elim⟩

theorem not_ended (c : Cmd) : ¬breaking p c .ended :=
  fun h => nomatch h.left

theorem exec_remove_none {r : Path} (h : s.get r = none) : (exec (.remove q) s).2.get r = none := by
  rw [exec]
  split
  case h_1 => exact h
  case h_2 =>
    split
    case isFalse => exact h
    case isTrue  =>
      change (if r = q then none else s.get r) = none
      split
      case isTrue  => rfl
      case isFalse => exact h

-- The removal of what is in the way may fail.
theorem wp_removeOld : (ignoreErrors (removeAll p.old)).wp (under disk (breaking p))
    (returns fun s' : Fs => s'.tree p.world = s.tree p.world ∧
      (s.get p.old = none → s'.get p.old = none)) s := by
  apply wp_ignore not_ended
  have hl : Leaves (p.world <+: ·) (removeAll p.old) :=
    .removeAll fun q hq ho => by
      cases List.prefix_or_prefix_of_prefix hq ho
      case inl h => exact Place.world_apart.left h
      case inr h => exact Place.world_apart.right h
  have hn : (removeAll p.old).wp (under disk (breaking p))
      (fun _ (s' : Fs) => s.get p.old = none → s'.get p.old = none) s := by
    have ho : Only (B := disk)
      (fun c => ∀ s : Fs, s.get p.old = none → (exec c s).2.get p.old = none)
      (removeAll p.old) := only_removeAll (fun _ h => h) fun _ _ h => exec_remove_none h
    exact ho.wp_under (I := fun s' : Fs => s.get p.old = none → s'.get p.old = none)
      (fun _ _ hc h hs => hc _ (h hs)) id
  exact wp_mono (wp_and hl.wp hn) fun _ _ h => ⟨tree_eq h.left, h.right⟩

-- The world is moved away, or there is none.
theorem wp_stage : (stageWorld p).wp (under disk (breaking p)) (fun r (s' : Fs) =>
    match r with
    | .ok _ => ((s.get p.world).isSome = true ∧ s'.tree p.old = s.tree p.world) ∨
      (s.get p.world = none ∧ s' = s)
    | _     => s'.tree p.world = s.tree p.world) s := by
  apply wp_ask_under.mpr
  refine ⟨?_, fun h => h.right.elim, fun h => (not_ended _ h).elim⟩
  cases hg : s.get p.world
  case none =>
    simp only [exec, hg]
    exact .inr ⟨trivial, rfl⟩
  case some node =>
    simp only [exec, hg]
    apply wp_handle.mpr
    apply wp_perform_under.mpr
    refine ⟨?_, fun _ _ => rfl, fun _ h => (not_ended _ h).elim⟩
    change ansPost _ (exec (.rename p.world p.old) s).1 (exec (.rename p.world p.old) s).2
    obtain ⟨e, he⟩ | ⟨s', he, ht, _⟩ := exec_rename p.world p.old s <;> rw [he]
    case inl => exact rfl
    case inr => exact .inl ⟨rfl, ht⟩

theorem exec_moveBack (ho : (s.get p.old).isSome = true) (hw : s.get p.world = none) :
    ∃ s', exec (.rename p.old p.world) s = (.ok (), s') ∧ s'.tree p.world = s.tree p.old := by
  obtain ⟨e, he⟩ | ⟨s', he, ht, _⟩ := exec_rename p.old p.world s
  case inr => exact ⟨s', he, ht⟩
  case inl =>
    obtain ⟨node, hg⟩ := Option.isSome_iff_exists.mp ho
    have hr : s.HasRoom p.world := by
      refine ⟨Place.world_ne_nil, ?_⟩
      have hd : s.get p.install = some .dir :=
        Fs.get_of_isPrefix (List.prefix_append _ _) (by simp) ho
      simpa [Place.world] using hd
    have hx : (exec (.rename p.old p.world) s).1 = .ok () := by
      simp only [exec, hg]
      rw [dif_pos ⟨Place.world_apart.symm, hr⟩, if_pos ⟨.of_none hw, by simp [hw]⟩]
    rw [he] at hx
    cases hx

-- Nothing disturbs the removal of a copy that has failed.
theorem wp_removeCopy : (removeAll p.world).wp (under disk (breaking p))
    (returns fun s' : Fs => ∀ q, s'.get q = if p.world <+: q then none else s.get q) s := by
  have hq (q : Path) (hq : p.world <+: q) : ∀ fate, ¬breaking p (.remove q) fate :=
    fun _ h => h.right hq
  apply wp_undisturbed
  case h  => exact only_removeAll (fun _ h => h.right rfl) fun r => hq _ (List.prefix_append _ _)
  case hw => exact wp_removeAll Place.world_ne_nil

-- What has been moved away is put back after a copy that has failed.
theorem wp_undo (e : Err) : Prog.wp (under disk (breaking p))
    (fun _ (s' : Fs) => ((s.get p.old).isSome = true → s'.tree p.world = s.tree p.old) ∧
      (s.get p.old = none → s'.get p.world = none))
      (do
        ignoreErrors (removeAll p.world)
        ignoreErrors (send (.rename p.old p.world))
        .throw (e.wrap "restore save") : Disk Unit) s := by
  refine wp_bind.mpr (wp_handle.mpr (wp_mono wp_removeCopy ?_))
  intro r s₁ h
  cases r
  case error => exact h.elim
  case ended => exact h.elim
  case ok    =>
    have h : ∀ q, s₁.get q = if p.world <+: q then none else s.get q := h
    have hw : s₁.get p.world = none := (h _).trans (if_pos (List.prefix_refl _))
    have ho : s₁.tree p.old = s.tree p.old := tree_eq fun q hq => by
      rw [h, if_neg]
      intro hw
      cases List.prefix_or_prefix_of_prefix hw hq
      case inl h => exact Place.world_apart.left h
      case inr h => exact Place.world_apart.right h
    have hg : s₁.get p.old = s.get p.old := by simpa [Fs.tree] using congrFun ho []
    refine wp_bind.mpr (wp_handle.mpr (wp_perform_under.mpr ⟨?_, ?_, ?_⟩))
    case refine_2 => exact fun _ h => (h.right rfl).elim
    case refine_3 => exact fun _ h => (not_ended _ h).elim
    case refine_1 =>
      change ansPost _ (exec (.rename p.old p.world) s₁).1 (exec (.rename p.old p.world) s₁).2
      cases hs : s₁.get p.old
      case some node =>
        obtain ⟨s', hx, ht⟩ := exec_moveBack (by rw [hs]; rfl) hw
        rw [hx]
        exact ⟨fun _ => ht.trans ho, fun hn => by cases hs.symm.trans (hg.trans hn)⟩
      case none =>
        have hx : exec (.rename p.old p.world) s₁ = (.error .notExist, s₁) := by
          simp only [exec, hs]
        rw [hx]
        refine ⟨fun hi => ?_, fun _ => hw⟩
        rw [← hg, hs] at hi
        cases hi

-- What is at the path of the world, is the same after an error.
def WorldSame (p : Place) (s : Fs) {α : Type} : Result Err α → Fs → Prop
  | .error _, s' => s'.tree p.world = s.tree p.world
  | _, _         => True

theorem tree_none (h : s.get q = none) : s.tree q = fun _ => none := by
  funext r
  by_cases hr : r = []
  case pos => rw [Fs.tree, hr, List.append_nil, h]
  case neg => exact (Fs.Bare.of_none h).get_eq_none (List.prefix_append _ _) (by simpa using hr)

theorem wp_replace (hn : s.get p.world = none → s.get p.old = none) :
    (replaceWorld p source).wp (under disk (breaking p)) (WorldSame p s) s := by
  refine wp_bind.mpr (wp_mono wp_removeOld ?_)
  intro r s₁ h
  cases r
  case error => exact h.elim
  case ended => exact h.elim
  case ok    =>
    obtain ⟨hw, hk⟩ := h
    have hg : s₁.get p.world = s.get p.world := by simpa [Fs.tree] using congrFun hw []
    refine wp_bind.mpr (wp_mono wp_stage ?_)
    intro r s₂ h
    cases r
    case error => exact h.trans hw
    case ended => trivial
    case ok    =>
      have hc : Leaves (p.old <+: ·) (copyDir source p.world) :=
        leaves_copyDir fun q hq => hq.elim fun r hr => hr ▸ Place.world_apart.symm.below r
      refine wp_handle.mpr (wp_mono hc.wp ?_)
      intro r s₃ h₃
      have h₃ : s₃.tree p.old = s₂.tree p.old := tree_eq h₃
      have hg₃ : s₃.get p.old = s₂.get p.old := by simpa [Fs.tree] using congrFun h₃ []
      cases r
      case ok      => trivial
      case ended   => trivial
      case error e =>
        apply wp_mono (wp_undo e)
        intro r s₄ h₄
        cases r
        case ok    => trivial
        case ended => trivial
        case error =>
          cases h
          case inl h =>
            have ho : s₃.tree p.old = s₁.tree p.world := h₃.trans h.right
            have hi : (s₃.get p.old).isSome = true := by
              have he : s₃.get p.old = s₁.get p.world := by simpa [Fs.tree] using congrFun ho []
              rw [he]
              exact h.left
            exact (h₄.left hi).trans (ho.trans hw)
          case inr h =>
            have ha : s.get p.world = none := hg.symm.trans h.left
            have ho : s₃.get p.old = none := by rw [hg₃, h.right, hk (hn ha)]
            exact (tree_none (h₄.right ho)).trans (tree_none ha).symm

theorem wp_checkSave : (checkSave p payload).wp (under disk D) (fun r s' => s' = s ∧
    (r.isOk = true → validateBackupID (saveID payload) = .ok () ∧
      s.get (p.backups ++ [saveID payload]) = some .dir)) s := by
  rw [checkSave, findSave]
  refine wp_bind.mpr (wp_bind.mpr (wp_ofExcept.mpr ?_))
  cases hv : validateBackupID (saveID payload)
  case error => exact ⟨rfl, fun h => by cases h⟩
  case ok    =>
    refine wp_ask_under.mpr ⟨?_, fun _ => ⟨rfl, fun h => by cases h⟩, fun _ =>
      ⟨rfl, fun h => by cases h⟩⟩
    cases hg : s.get (p.backups ++ [saveID payload])
    case none =>
      simp only [exec, hg]
      exact ⟨rfl, fun h => by cases h⟩
    case some node =>
      simp only [exec, hg]
      cases node
      case file => exact ⟨rfl, fun h => by cases h⟩
      case link => exact ⟨rfl, fun h => by cases h⟩
      case dir  =>
        exact wp_step rfl ⟨rfl, fun _ => ⟨trivial, rfl⟩⟩ fun _ _ _ =>
          ⟨⟨rfl, fun h => by cases h⟩, ⟨rfl, fun h => by cases h⟩⟩

theorem wp_unexposed (h : ¬Exposed p payload s) :
    (restoreSave p payload).wp (under disk (breaking p)) (WorldSame p s) s := by
  refine wp_bind.mpr (wp_bind.mpr (wp_mono wp_checkSave ?_))
  rintro r s₀ ⟨hs, hc⟩
  obtain rfl : s₀ = s := hs
  cases r
  case error => exact rfl
  case ended => trivial
  case ok    =>
    have ⟨hv, hf⟩ := hc rfl
    have hn (ha : s₀.get p.world = none) : s₀.get p.old = none := by
      by_contra ho
      exact h ⟨hv, hf, ha, Option.isSome_iff_ne_none.mpr ho⟩
    refine wp_bind.mpr (wp_mono (wp_replace hn) ?_)
    intro r s' h
    cases r
    case error => exact h
    case ended => trivial
    case ok    =>
      refine wp_bind.mpr (wp_mono wp_removeOld ?_)
      intro r s₁ h
      cases r
      case error => exact h.elim
      case ended => trivial
      case ok    => trivial

-- What is left of an earlier restore, is taken for the world.
theorem not_wp_exposed (h : Exposed p payload s) :
    ¬(restoreSave p payload).wp (under disk (breaking p)) (WorldSame p s) s := by
  intro hw
  have hw := wp_bind.mp (wp_bind.mp hw)
  rw [checkSave, findSave, h.valid] at hw
  have hw : (ask (.lstat _) >>= _).wp (under disk (breaking p)) _ s := wp_bind.mp (wp_bind.mp hw)
  have hw := (wp_ask_under.mp hw).left
  simp only [exec, h.found] at hw
  have hw : (send .wait >>= _).wp (under disk (breaking p)) _ s := hw
  have hw : (replaceWorld p _ >>= _).wp (under disk (breaking p)) _ s := (wp_call_under.mp hw).left
  -- The first step of the removal fails.
  have hw : (send (.walk p.old) >>= _).wp (under disk (breaking p)) _ s :=
    wp_handle.mp (wp_bind.mp (wp_bind.mp hw))
  have hw : (stageWorld p >>= _).wp (under disk (breaking p)) _ s :=
    (wp_call_under.mp hw).right.left rfl ⟨rfl, Place.world_apart.symm.ne⟩
  have hw := (wp_ask_under.mp (wp_bind.mp hw)).left
  simp only [exec, h.absent] at hw
  -- Then the copy fails.
  have hw : (send (.lstat _) >>= _).wp (under disk (breaking p)) _ s := wp_handle.mp hw
  have hw : (ignoreErrors (removeAll p.world) >>= _).wp (under disk (breaking p)) _ s :=
    (wp_call_under.mp hw).right.left rfl ⟨rfl, trivial⟩
  have hw := wp_run (wp_handle.mp (wp_bind.mp hw)) (run_nil_within _)
  have hc : returns (fun s' : Fs => ∀ q, s'.get q = if p.world <+: q then none else s.get q)
      ((removeAll p.world).run [] s).result ((removeAll p.world).run [] s).state :=
    wp_run wp_removeCopy (run_nil_within _)
  generalize (removeAll p.world).run [] s = removal at hw hc
  obtain ⟨r, s₁, _⟩ := removal
  cases r
  case error => exact hc
  case ended => exact hc
  case ok    =>
    have hc : ∀ q, s₁.get q = if p.world <+: q then none else s.get q := hc
    have ha : s₁.get p.world = none := (hc _).trans (if_pos (List.prefix_refl _))
    have ho : s₁.get p.old = s.get p.old := (hc _).trans (if_neg Place.world_apart.left)
    obtain ⟨s', hx, ht⟩ := exec_moveBack (by rw [ho]; exact h.leftover) ha
    have hw : (ignoreErrors (send (.rename p.old p.world)) >>= _).wp
      (under disk (breaking p)) _ s₁ := hw
    have hw := (wp_perform_under.mp (wp_handle.mp (wp_bind.mp hw))).left
    change ansPost _ (exec (.rename p.old p.world) s₁).1 (exec (.rename p.old p.world) s₁).2 at hw
    rw [hx] at hw
    have hw : s'.tree p.world = s.tree p.world := hw
    have hg := congrFun (ht.symm.trans hw) []
    simp only [Fs.tree, List.append_nil, ho, h.absent] at hg
    have hl := h.leftover
    rw [hg] at hl
    cases hl

end

-- A failed restore leaves what is at the path of the world as it was, unless it is exposed.
theorem failed_restore_iff (p : Place) (payload : Fields) (s : Fs) :
    (∀ fs, Run.Within (breaking p) ((restoreSave p payload).run fs s) →
      ∀ e, ((restoreSave p payload).run fs s).result = .error e →
        ((restoreSave p payload).run fs s).state.tree p.world = s.tree p.world) ↔
    ¬Exposed p payload s := by
  have hw : (restoreSave p payload).wp (under disk (breaking p)) (WorldSame p s) s ↔ _ := wp_iff_run
  constructor
  case mp =>
    intro h he
    refine not_wp_exposed he (hw.mpr fun fs hf => ?_)
    have h := h fs hf
    cases hr : ((restoreSave p payload).run fs s).result
    case ok      => trivial
    case error e => exact h e hr
    case ended   => trivial
  case mpr =>
    intro h fs hf e he
    have h := hw.mp (wp_unexposed h) fs hf
    rwa [he] at h

-- A server without a world, with the leftover of an earlier restore and a backup that holds a link
-- to a directory, which cannot be copied.
def leftoverFs : Fs :=
  (Fs.after [.mkdirAll ["srv", "world.mastermind-restore-old"],
    .mkdirAll ["srv", "mastermind-backups", "world-20250101-000000"]]).put
      ["srv", "mastermind-backups", "world-20250101-000000", "datapacks"] (.link none)
      (by decide +kernel) (.inr (.of_none (by decide +kernel)))

-- A single step fails, which is the first one of the removal.
theorem restore_takes_leftover : ¬∀ (p : Place) (payload : Fields) (s : Fs) (fs : List Fate),
    Run.Within (breaking p) ((restoreSave p payload).run fs s) →
      ∀ e, ((restoreSave p payload).run fs s).result = .error e →
        ((restoreSave p payload).run fs s).state.tree p.world = s.tree p.world := by
  intro h
  have h := h survival survivalSave leftoverFs [.served, .served, .failed]
    (show ∀ e ∈ _, _ by decide +kernel) (.other "restore save: cannot be read")
    (eq_of_errorOf (by decide +kernel))
  exact absurd (congrFun h []) (by decide +kernel)

end Agent
