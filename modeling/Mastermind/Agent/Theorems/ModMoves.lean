import Mastermind.Agent.Theorems.ModStores
import Mastermind.Effects.Once

open Effects Prog Js
open Files (Err Path Bytes Disk Node Tree Fs Apart Leaves exec disk ask send inContext ignoreErrors
  removeAll)

namespace Agent

variable {l : Library} {cfg : InstanceConfig} {payload : Fields} {install : Path} {s s' : Fs}
  {used : Bool} {x y : Slot} {name : String} {α : Type}

theorem wp_ask_once {c : Files.Cmd} {f : Except Err c.Ans → Disk α}
    {Q : Result Err α → Fs × Bool → Prop} : (ask c >>= f).wp (once disk) Q (s, used) ↔
    (f (exec c s).1).wp (once disk) Q ((exec c s).2, used) ∧
    (used = false → (f (.error disk.fault)).wp (once disk) Q (s, true)) := by
  have h : (call c f : Prog disk α).wp (once disk) Q (s, used) ↔ _ := wp_call_once
  exact h.trans (by simp)

theorem wp_leaves_once {Q : Path → Prop} {prog : Disk α} (h : Leaves Q prog) :
    prog.wp (once disk) (fun _ m => ∀ q, Q q → m.1.get q = s.get q) (s, used) :=
  h.only.wp_once (I := fun s' : Fs => ∀ q, Q q → s'.get q = s.get q)
    (fun _ _ hc hq q h => (Files.exec_get (hc q h)).trans (hq q h)) fun _ _ => rfl

theorem trimSpace_dot (h : hasPrefix name "." = true) : hasPrefix (trimSpace name) "." = true := by
  have ⟨cs, hc⟩ : ∃ cs, name.toList = '.' :: cs := by
    have ⟨cs, hc⟩ := List.isPrefixOf_iff_prefix.mp h
    exact ⟨cs, hc.symm⟩
  have ht : (trimSpace name).toList = ('.' :: cs).rdropWhile isSpace := by
    rw [trimSpace, String.toList_ofList, hc]
    rfl
  have hn : ('.' :: cs).rdropWhile isSpace ≠ [] := by
    intro hn
    exact nomatch List.rdropWhile_eq_nil_iff.mp hn '.' List.mem_cons_self
  have ⟨d, ds, hd⟩ := List.exists_cons_of_ne_nil hn
  have hp : d :: ds <+: '.' :: cs := hd ▸ List.rdropWhile_prefix _ _
  rw [hasPrefix, ht, hd, (List.cons_prefix_cons.mp hp).left]
  rfl

-- A name that passes the check is visible, whatever white space is around it.
theorem visible_of_valid (h : validateModEntryName name = .ok ()) : hasPrefix name "." = false := by
  cases hd : hasPrefix name "."
  case false => rfl
  case true  =>
    simp [validateModEntryName, trimSpace_dot hd] at h
    split at h
    case isTrue  => nomatch h
    case isFalse =>
      split at h <;> nomatch h

theorem slot_visible (hv : validateModEntryName name = .ok ()) (store : ModStore) :
    Slot.visible ⟨store, name⟩ = true := by
  rw [Slot.visible, visible_of_valid hv]
  rfl

-- The kind that is found if all looks are served.
def firstKind (s : Fs) (dir : ModKind → Path) (name : String)
    (kinds : List ModKind) : Option ModKind :=
  kinds.find? fun kind => (s.get (dir kind ++ [name])).any fun node => !node.isLink

def kindOf : Result Err (ModKind × Path) → Option ModKind
  | .ok (kind, _) => some kind
  | _             => none

-- What is found is not a link.
def FoundAt (s : Fs) (dir : ModKind → Path) (name : String) (a : ModKind × Path) : Prop :=
  a.2 = dir a.1 ++ [name] ∧ ∃ node, s.get a.2 = some node ∧ node.isLink = false

-- A search finds the first kind unless one of its looks fails.
structure Found (s : Fs) (used : Bool) (dir : ModKind → Path) (name : String) (kinds : List ModKind)
    (r : Result Err (ModKind × Path)) (m : Fs × Bool) : Prop where
  state : m.1 = s
  first : m.2 = used → firstKind s dir name kinds = kindOf r
  found : ∀ a, r = .ok a → FoundAt s dir name a

section

variable {dir : ModKind → Path} {kind : ModKind} {kinds : List ModKind} {missing : Err}

theorem wp_findMod : (findMod dir name missing kinds).wp (once disk)
    (Found s used dir name kinds) (s, used) := by
  induction kinds generalizing used
  case nil => exact ⟨rfl, fun _ => rfl, fun _ h => by cases h⟩
  case cons kind kinds hi =>
    -- The search goes on.
    have hskip (hk : (s.get (dir kind ++ [name])).any (fun node => !node.isLink) = false) :
        (findMod dir name missing kinds).wp (once disk) (Found s used dir name (kind :: kinds))
          (s, used) := by
      apply wp_mono hi
      intro r m h
      have hf : firstKind s dir name (kind :: kinds) = firstKind s dir name kinds :=
        List.find?_cons_of_neg (by simp [hk])
      exact ⟨h.state, fun hu => hf.trans (h.first hu), h.found⟩
    rw [findMod]
    apply wp_ask_once.mpr
    constructor
    case left =>
      cases hg : s.get (dir kind ++ [name])
      case none =>
        simp only [exec, hg]
        exact hskip (by rw [hg]; rfl)
      case some node =>
        simp only [exec, hg]
        split
        case isTrue hn  => exact hskip (by simp [hg, hn])
        case isFalse hn =>
          have hk : ((s.get (dir kind ++ [name])).any fun node => !node.isLink) = true := by
            simp [hg, hn]
          refine ⟨rfl, fun _ => List.find?_cons_of_pos hk, ?_⟩
          rintro _ ⟨⟩
          exact ⟨rfl, node, hg, by simpa using hn⟩
    case right =>
      rintro rfl
      have hi : (findMod dir name missing kinds).wp (once disk) (Found s true dir name kinds)
        (s, true) := hi
      have h := wp_once_used.mp hi
      exact wp_once_used.mpr ⟨h.state, (fun hu => by cases hu), h.found⟩

end

-- A program that only looks. What it returns has the property `P`.
def Looks (s : Fs) (P : α → Prop) (r : Result Err α) (m : Fs × Bool) : Prop :=
  m.1 = s ∧ ∀ a, r = .ok a → P a

theorem wp_findMod_looks {dir : ModKind → Path} {kinds : List ModKind} {missing : Err} :
    (findMod dir name missing kinds).wp (once disk) (Looks s (FoundAt s dir name)) (s, used) :=
  wp_mono wp_findMod fun _ _ h => ⟨h.state, h.found⟩

theorem wp_findPendingMod : (findPendingMod install name).wp (once disk)
    (Looks s fun path => path = pendingDir install ++ [name] ∧ (s.get path).isSome = true)
    (s, used) := by
  rw [findPendingMod]
  refine wp_ask_once.mpr ⟨?_, fun _ => ⟨rfl, fun _ h => nomatch h⟩⟩
  cases hg : s.get (pendingDir install ++ [name])
  case none =>
    simp only [exec, hg]
    exact ⟨rfl, fun _ h => nomatch h⟩
  case some node =>
    simp only [exec, hg]
    split
    case isTrue     => exact ⟨rfl, fun _ h => nomatch h⟩
    case isFalse    =>
      refine ⟨rfl, ?_⟩
      rintro _ ⟨⟩
      exact ⟨rfl, by rw [hg]; rfl⟩

theorem wp_requireFree {path : Path} {e : Err} : (requireFree path e).wp (once disk)
    (Looks s fun _ => s.get path = none) (s, used) := by
  rw [requireFree]
  refine wp_ask_once.mpr ⟨?_, fun _ => ⟨rfl, fun _ h => nomatch h⟩⟩
  cases hg : s.get path
  case none =>
    simp only [exec, hg]
    exact ⟨rfl, fun _ _ => trivial⟩
  case some =>
    simp only [exec, hg]
    exact ⟨rfl, fun _ h => nomatch h⟩

-- The changes that lead from one file system to another one.
def Changes (install : Path) (s : Fs) (cs : List (Slots.Change Slot Tree)) (s' : Fs) : Prop :=
  Slots.Legal (stores install s) cs ∧
  stores install s' = Slots.applyAll (stores install s) cs

-- A program that makes one of some lists of changes. It makes none if it stops with an error.
def Makes (install : Path) (s : Fs) (C : α → List (Slots.Change Slot Tree) → Prop) :
    Result Err α → Fs × Bool → Prop
  | .ok a, m => ∃ cs, C a cs ∧ Changes install s cs m.1
  | _, m     => stores install m.1 = stores install s

section

variable {C : α → List (Slots.Change Slot Tree) → Prop}

theorem Makes.imp {C' : α → List (Slots.Change Slot Tree) → Prop} {r : Result Err α} {m : Fs × Bool}
    (h : Makes install s C r m) (hc : ∀ a cs, C a cs → C' a cs) : Makes install s C' r m := by
  cases r
  case ok a =>
    have ⟨cs, h, hs⟩ := h
    exact ⟨cs, hc a cs h, hs⟩
  case error => exact h
  case ended => exact h

theorem wp_bind_looks {β : Type} {C : β → List (Slots.Change Slot Tree) → Prop} {P : α → Prop}
    {prog : Disk α} {f : α → Disk β} (h : prog.wp (once disk) (Looks s P) (s, used))
    (hf : ∀ a used', P a → (used = true → used' = true) →
      (f a).wp (once disk) (Makes install s C) (s, used')) :
    (prog >>= f).wp (once disk) (Makes install s C) (s, used) := by
  refine wp_bind.mpr (wp_mono (wp_and h wp_once_kept) ?_)
  rintro r ⟨s', used'⟩ ⟨⟨hs, hp⟩, hk⟩
  obtain rfl : s' = s := hs
  cases r
  case ok a  => exact hf a used' (hp a rfl) hk
  case error => exact rfl
  case ended => exact rfl

theorem wp_bind_makes {β : Type} {C' : β → List (Slots.Change Slot Tree) → Prop} {prog : Disk α}
    {f : α → Disk β} (h : prog.wp (once disk) (Makes install s C) (s, used))
    (hf : ∀ a s' used' cs, C a cs → Changes install s cs s' →
      (f a).wp (once disk) (Makes install s C') (s', used')) :
    (prog >>= f).wp (once disk) (Makes install s C') (s, used) := by
  refine wp_bind.mpr (wp_mono h ?_)
  rintro r ⟨s', used'⟩ h
  cases r
  case ok a =>
    have ⟨cs, hc, hs⟩ := h
    exact hf a s' used' cs hc hs
  case error => exact h
  case ended => exact h

-- What comes at the end of a program, does not change the stores.
theorem wp_then_quiet {prog : Disk Unit} {a : α} {cs : List (Slots.Change Slot Tree)} (hc : C a cs)
    (hs : Changes install s cs s') (hp : Leaves (InSlots install) prog) :
    (ignoreErrors prog >>= fun _ => pure a).wp (once disk) (Makes install s C) (s', used) := by
  have hq : prog.wp (once disk) (fun _ m => stores install m.1 = stores install s') (s', used) := by
    apply wp_mono (wp_leaves_once hp)
    exact fun _ _ h => stores_congr h
  apply wp_bind.mpr
  apply wp_mono (wp_ignore_once (I := fun s'' => stores install s'' = stores install s') hq)
  intro r m hr
  cases r
  case ok    => exact ⟨cs, hc, hs.left, hr.trans hs.right⟩
  case error => exact hr.elim
  case ended => exact hr.elim

theorem Changes.of_same {s₀ : Fs} {cs : List (Slots.Change Slot Tree)}
    (h : Changes install s cs s') (he : stores install s = stores install s₀) :
    Changes install s₀ cs s' :=
  ⟨he ▸ h.left, he ▸ h.right⟩

theorem makes_congr {s₀ : Fs} (h : stores install s = stores install s₀) :
    Makes install s C = Makes install s₀ C := by
  funext r m
  cases r
  case ok    => simp only [Makes, Changes, h]
  case error => simp only [Makes, h]
  case ended => simp only [Makes, h]

-- A mod is renamed to a free place.
theorem wp_rename {node : Node} {text : String} (hx : x.visible = true) (hy : y.visible = true)
    (hne : x ≠ y) (hp : s.get (x.path install) = some node) (hfree : s.get (y.path install) = none)
    (hdir : s.get (y.store.dir install) = some .dir) :
    (inContext text (send (.rename (x.path install) (y.path install)))).wp (once disk)
      (fun r m => Makes install s (fun _ cs => cs = [.move x y]) r m ∧
        (used = true → r.isOk = true)) (s, used) := by
  have ⟨s', hs, hl, ha⟩ := stores_rename hx hy hne hp hfree hdir
  refine wp_handle.mpr (wp_last_once hs ⟨⟨_, rfl, ⟨hl, trivial⟩, ha⟩, fun _ => rfl⟩ fun hu => ?_)
  exact ⟨rfl, fun h => nomatch hu.symm.trans h⟩

theorem stores_makeAll {store : ModStore} :
    stores install (s.makeAll (store.dir install)) = stores install s := by
  apply stores_congr
  rintro q ⟨x, hx, hq⟩
  exact if_neg fun h => not_above_dir hx (hq.trans h)

-- A mod is moved to a store, which is made if it is missing.
theorem wp_moveTo {node : Node} {text : String} {e : Err} {k : Disk α} (hx : x.visible = true)
    (hy : y.visible = true) (hne : x ≠ y) (hp : s.get (x.path install) = some node)
    (hk : ∀ s' used', Changes install s [.move x y] s' →
      k.wp (once disk) (Makes install s C) (s', used')) :
    (do
      send (.mkdirAll (y.store.dir install))
      requireFree (y.path install) e
      inContext text (send (.rename (x.path install) (y.path install)))
      k).wp (once disk) (Makes install s C) (s, used) := by
  by_cases hd : s.Passable (y.store.dir install)
  case neg => exact wp_stop_once (if_neg hd) rfl fun _ => rfl
  case pos =>
    refine wp_step_once (if_pos hd) ?_ fun _ => rfl
    have hp : (s.makeAll (y.store.dir install)).get (x.path install) = some node :=
      (if_neg (not_above_dir hx)).trans hp
    have hdir : (s.makeAll (y.store.dir install)).get (y.store.dir install) = some .dir :=
      if_pos (List.prefix_refl _)
    have hs : stores install (s.makeAll (y.store.dir install)) = stores install s := stores_makeAll
    generalize s.makeAll (y.store.dir install) = s₁ at *
    rw [← makes_congr hs]
    refine wp_bind_looks wp_requireFree fun _ used₁ hf _ => ?_
    refine wp_bind_makes (wp_mono (wp_rename hx hy hne hp hf hdir) fun _ _ h => h.left) ?_
    rintro _ s₂ used₂ _ rfl hc
    rw [makes_congr hs]
    exact hk s₂ used₂ (hc.of_same hs)

theorem installPath_eq {path : Path} (h : installPath l cfg = .ok path) :
    path = l.locate cfg.installPath := by
  rw [installPath] at h
  split at h
  case isTrue  => nomatch h
  case isFalse => exact (Except.ok.inj h).symm

-- The checks come before any change.
theorem wp_onMod {f : Path → Disk α}
    (hf : validateModEntryName name = .ok () → installPath l cfg = .ok (l.locate cfg.installPath) →
      (f (l.locate cfg.installPath)).wp (once disk) (Makes install s C) (s, used)) :
    (onMod l cfg name f).wp (once disk) (Makes install s C) (s, used) := by
  rw [onMod]
  cases hv : validateModEntryName name
  case error => exact rfl
  case ok    =>
    cases hi : installPath l cfg
    case error   => exact rfl
    case ok path =>
      obtain rfl := installPath_eq hi
      exact hf hv hi

theorem leaves_stageTemplate {found : Path × Bytes} :
    Leaves (InSlots install) (stageTemplate (configTemplateDir install name) found) := by
  have hw : ∀ q, InSlots install q → ¬q <+: configTemplateDir install name ++ found.1 := by
    rintro q ⟨x, hx, hq⟩ h
    exact not_above_templates hx (hq.trans h)
  have hd : ∀ q, InSlots install q → ¬q <+: (configTemplateDir install name ++ found.1).dropLast :=
    fun q hq h => hw q hq (h.trans (List.dropLast_prefix _))
  have hn : ∀ q, InSlots install q → q ≠ configTemplateDir install name ++ found.1 :=
    fun q hq he => hw q hq (he ▸ List.prefix_refl _)
  exact (Leaves.send hd).bind fun _ => (Leaves.send hn).bind fun _ =>
    (Leaves.writeAll hn).bind fun _ => .send fun _ _ => id

theorem leaves_stage {found : List (Path × Bytes)} :
    Leaves (InSlots install) (stageConfigTemplatesForJar install name found) := by
  have hw : ∀ q, InSlots install q → ¬q <+: configTemplateDir install name := by
    rintro q ⟨x, hx, hq⟩ h
    have hle := hq.trans h
    rw [← List.append_nil (configTemplateDir install name)] at hle
    exact not_above_templates hx hle
  exact Leaves.ofExcept.bind fun _ => (Leaves.send hw).bind fun _ => .forEach fun _ =>
    leaves_stageTemplate.ignoreErrors

end

-- A quarantine that has been successful.
structure Quarantined (l : Library) (cfg : InstanceConfig) (s : Fs) (name : String) (kind : ModKind)
    (report : Fields) (cs : List (Slots.Change Slot Tree)) : Prop where
  valid   : validateModEntryName name = .ok ()
  install : installPath l cfg = .ok (l.locate cfg.installPath)
  found   : ∃ node, s.get (activeDir (l.locate cfg.installPath) kind ++ [name]) = some node ∧
    node.isLink = false
  report  : report.lookup "kind" = some (.str kind.folder)
  changes : cs = [.move ⟨.active kind, name⟩ ⟨.quarantine kind, name⟩]

theorem wp_quarantineMod {found : List (Path × Bytes)} :
    (quarantineMod l cfg payload found).wp (once disk) (Makes (l.locate cfg.installPath) s
      fun report cs => ∃ kind, Quarantined l cfg s (payloadModName payload) kind report cs)
      (s, used) := by
  rw [quarantineMod]
  refine wp_onMod fun hv hi => ?_
  rw [findActiveMod]
  refine wp_bind_looks wp_findMod_looks ?_
  rintro ⟨kind, path⟩ used' ⟨hp, node, hn, hl⟩ _
  obtain rfl : path = activeDir _ kind ++ [_] := hp
  refine wp_moveTo (x := ⟨.active kind, payloadModName payload⟩)
    (y := ⟨.quarantine kind, payloadModName payload⟩) (slot_visible hv _) (slot_visible hv _)
    (by simp) hn ?_
  intro s' used' hc
  exact wp_then_quiet ⟨kind, hv, hi, ⟨node, hn, hl⟩, rfl, rfl⟩ hc leaves_stage

def Approved (name : String) (cs : List (Slots.Change Slot Tree)) : Prop :=
  ∃ kind : ModKind, cs = [.move ⟨.pending, name⟩ ⟨.active kind, name⟩]

theorem wp_approvePendingMod : (approvePendingMod l cfg payload).wp (once disk)
    (Makes (l.locate cfg.installPath) s fun _ => Approved (payloadModName payload)) (s, used) := by
  rw [approvePendingMod]
  refine wp_onMod fun hv _ => wp_bind_looks wp_findPendingMod ?_
  rintro _ used' ⟨rfl, hs⟩ _
  have ⟨node, hn⟩ := Option.isSome_iff_exists.mp hs
  generalize (payloadModKind l payload).getD .mods = kind
  refine wp_moveTo (x := ⟨.pending, payloadModName payload⟩)
    (y := ⟨.active kind, payloadModName payload⟩) (slot_visible hv _) (slot_visible hv _) (by simp)
    hn ?_
  intro s' used' hc
  exact ⟨_, ⟨kind, rfl⟩, hc⟩

-- Nothing is left at or below a path, and the rest is untouched.
def Cleared (s : Fs) (p : Path) (s' : Fs) : Prop :=
  ∀ q, s'.get q = if p <+: q then none else s.get q

section

variable {p : Path}

theorem Cleared.refl (h : s.get p = none) : Cleared s p s := by
  intro q
  split
  case isFalse    => rfl
  case isTrue hle =>
    by_cases hq : q = p
    case pos => rw [hq, h]
    case neg => exact (Fs.Bare.of_none h).get_eq_none hle hq

-- Once a step has failed, everything is removed.
theorem wp_remove_used {text : String} (hp : p ≠ []) :
    (inContext text (removeAll p)).wp (once disk) (returns fun m => Cleared s p m.1) (s, true) := by
  refine wp_handle.mpr (wp_mono (wp_once_of_none (Files.wp_removeAll hp)) ?_)
  intro r m hr
  cases r
  case ok    => exact hr
  case error => exact hr.elim
  case ended => exact hr.elim

-- An active mod is removed only if it is to be replaced.
theorem wp_clearActive {dest : Path} (hd : dest ≠ [])
    (hr : used = false → isForced payload = true → s.get dest = none) :
    (clearActive payload dest name).wp (once disk) (fun r m => match r with
      | .ok _ => Cleared s dest m.1 ∧ ((s.get dest).isSome = true → isForced payload = true)
      | _     => m.1 = s) (s, used) := by
  rw [clearActive]
  have hclear {post} (hp : ∀ m : Fs × Bool, Cleared s dest m.1 → post (.ok ()) m) :
      (inContext "remove active mod for override" (removeAll dest)).wp (once disk) post
        (s, true) := by
    apply wp_mono (wp_remove_used hd)
    intro r m h
    cases r
    case ok    => exact hp m h
    case error => exact h.elim
    case ended => exact h.elim
  refine wp_ask_once.mpr ⟨?_, fun hu => ?_⟩
  case refine_1 =>
    cases hg : s.get dest
    case none =>
      simp only [exec, hg]
      exact ⟨.refl hg, fun h => by cases h⟩
    case some =>
      simp only [exec, hg]
      split
      case isFalse   => exact rfl
      case isTrue hf =>
        cases used
        case true  => exact hclear fun _ h => ⟨h, fun _ => hf⟩
        case false => exact absurd (hr rfl hf) (by simp [hg])
  case refine_2 =>
    dsimp only
    split
    case isTrue hf => exact hclear fun _ h => ⟨h, fun _ => hf⟩
    case isFalse   => exact rfl

end

section

variable {cs cs' : List (Slots.Change Slot Tree)} {s₀ : Fs}

theorem Changes.append (h : Changes install s₀ cs s) (h' : Changes install s cs' s') :
    Changes install s₀ (cs ++ cs') s' := by
  rw [Changes, Slots.legal_append, Slots.applyAll_append, ← h.right]
  exact ⟨⟨h.left, h'.left⟩, h'.right⟩

-- What a clearing does to the stores.
theorem Cleared.changes (hx : x.visible = true) (h : Cleared s (x.path install) s') :
    (s.get (x.path install) = none ∧ Changes install s [] s') ∨
    ((s.get (x.path install)).isSome = true ∧ Changes install s [.remove x] s') := by
  cases hg : s.get (x.path install)
  case some node =>
    refine .inr ⟨rfl, ⟨?_, trivial⟩, stores_remove hx h⟩
    rw [Slots.Change.Legal, stores_eq hx hg]
    rfl
  case none =>
    refine .inl ⟨rfl, trivial, stores_congr fun q _ => ?_⟩
    exact (h q).trans ((Cleared.refl hg) q).symm

end

theorem activeDir_of_quarantined {kind : ModKind} {node : Node}
    (h : s.get (quarantineDir install kind ++ [name]) = some node) :
    s.get (activeDir install kind) = some .dir := by
  have hle : activeDir install kind <+: quarantineDir install kind ++ [name] :=
    ⟨[".quarantine", name], by simp [activeDir, quarantineDir]⟩
  exact Fs.get_of_isPrefix hle (by simp [activeDir, quarantineDir]) (by rw [h]; rfl)

-- The changes of a restore. It replaces an active mod only if it is forced to.
def Restored (payload : Fields) (cs : List (Slots.Change Slot Tree)) : Prop :=
  ∃ kind : ModKind,
    cs = [.move ⟨.quarantine kind, payloadModName payload⟩ ⟨.active kind, payloadModName payload⟩] ∨
    isForced payload = true ∧ cs = [.remove ⟨.active kind, payloadModName payload⟩,
      .move ⟨.quarantine kind, payloadModName payload⟩ ⟨.active kind, payloadModName payload⟩]

-- A restore would remove an active mod before it moves the one from the quarantine.
def Replaces (l : Library) (install : Path) (payload : Fields) (s : Fs) : Prop :=
  isForced payload = true ∧ ∃ kind,
    firstKind s (quarantineDir install) (payloadModName payload)
      (kindsOf (payloadModKind l payload)) = some kind ∧
    (s.get (activeDir install kind ++ [payloadModName payload])).isSome = true

theorem wp_restoreMod
    (hr : validateModEntryName (payloadModName payload) = .ok () →
      installPath l cfg = .ok (l.locate cfg.installPath) → used = false →
      ¬Replaces l (l.locate cfg.installPath) payload s) :
    (restoreMod l cfg payload).wp (once disk)
      (Makes (l.locate cfg.installPath) s fun _ => Restored payload) (s, used) := by
  rw [restoreMod]
  refine wp_onMod fun hv hi => wp_bind.mpr ?_
  have hr := hr hv hi
  generalize l.locate cfg.installPath = install at *
  rw [findQuarantinedMod]
  refine wp_mono (wp_and wp_findMod wp_once_kept) ?_
  rintro r ⟨s', used'⟩ ⟨h, hk⟩
  obtain rfl : s' = s := h.state
  cases r
  case error => exact rfl
  case ended => exact rfl
  case ok a  =>
    obtain ⟨kind, path⟩ := a
    obtain ⟨hp, node, hn, _⟩ := h.found _ rfl
    obtain rfl : path = quarantineDir install kind ++ [_] := hp
    have hx := slot_visible hv (.quarantine kind)
    have hy := slot_visible hv (.active kind)
    have hfree : used' = false → isForced payload = true →
        s'.get (activeDir install kind ++ [payloadModName payload]) = none := by
      intro hu hf
      have hu₀ : used = false := by
        cases used
        case false => rfl
        case true  => exact (hk rfl).symm.trans hu
      by_contra hg
      exact hr hu₀ ⟨hf, kind, h.first (hu.trans hu₀.symm), Option.isSome_iff_ne_none.mpr hg⟩
    refine wp_bind.mpr (wp_mono (wp_and (wp_clearActive (by simp) hfree) wp_once_kept) ?_)
    rintro r ⟨s₁, used₁⟩ ⟨hc, hk₁⟩
    cases r
    case error => exact congrArg (stores install) hc
    case ended => exact congrArg (stores install) hc
    case ok    =>
      obtain ⟨hc, hf⟩ := hc
      have hne : (⟨.quarantine kind, payloadModName payload⟩ : Slot) ≠
          ⟨.active kind, payloadModName payload⟩ := by simp
      -- The last step can fail only if none has failed before, and then nothing has been removed.
      have hsame (hu : used₁ ≠ true) : stores install s₁ = stores install s' := by
        have hu : used' = false := by
          cases used'
          case false => rfl
          case true  => exact (hu (hk₁ rfl)).elim
        cases hc.changes hy
        case inl h => exact h.right.right
        case inr h =>
          have hn : s'.get (Slot.path install ⟨.active kind, payloadModName payload⟩) = none :=
            hfree hu (hf h.left)
          rw [hn] at h
          cases h.left
      have hp₁ : s₁.get (quarantineDir install kind ++ [payloadModName payload]) = some node :=
        (hc _).trans ((if_neg (not_above hy hne.symm)).trans hn)
      have hd : s'.get (activeDir install kind) = some .dir := activeDir_of_quarantined hn
      have hnd : ¬activeDir install kind ++ [payloadModName payload] <+: activeDir install kind :=
        (not_above_dir hy : ¬_ <+: ModStore.dir install (.active kind))
      have hd₁ : s₁.get (activeDir install kind) = some .dir := (hc _).trans ((if_neg hnd).trans hd)
      have hg₁ : s₁.get (activeDir install kind ++ [payloadModName payload]) = none :=
        (hc _).trans (if_pos (List.prefix_refl _))
      refine wp_bind.mpr (wp_mono (wp_rename hx hy hne hp₁ hg₁ hd₁) ?_)
      rintro r ⟨s₂, used₂⟩ ⟨hm, hok⟩
      cases r
      case ok =>
        obtain ⟨_, rfl, hm⟩ := hm
        cases hc.changes hy
        case inl h => exact ⟨_, ⟨kind, .inl rfl⟩, h.right.append hm⟩
        case inr h => exact ⟨_, ⟨kind, .inr ⟨hf h.left, rfl⟩⟩, h.right.append hm⟩
      case error => exact hm.trans (hsame fun h => by cases hok h)
      case ended => exact hm.trans (hsame fun h => by cases hok h)

-- A mod is removed by an operation that no failing step disturbs.
theorem wp_removeMod {C : Fields → List (Slots.Change Slot Tree) → Prop} {text : String}
    {report : Fields} (hx : x.visible = true) (hs : (s.get (x.path install)).isSome = true)
    (hc : C report [.remove x]) :
    (do
      inContext text (removeAll (x.path install))
      pure report : Disk Fields).wp (once disk) (Makes install s C) (s, true) := by
  refine wp_bind.mpr (wp_mono (wp_remove_used (by simp [Slot.path])) ?_)
  rintro r ⟨s', used'⟩ h
  cases r
  case error => exact h.elim
  case ended => exact h.elim
  case ok    =>
    have h : Cleared s (x.path install) s' := h
    cases h.changes hx
    case inl hn => cases hn.left ▸ hs
    case inr hr => exact ⟨_, hc, hr.right⟩

-- What is found for `DeleteMod` is in one of the stores.
theorem wp_findDeleted : (findDeleted l payload install name).wp (once disk)
    (Looks s fun a =>
      ∃ store, a.2.2 = Slot.path install ⟨store, name⟩ ∧ (s.get a.2.2).isSome = true)
    (s, used) := by
  have hfind {dir : ModKind → Path} {missing : Err} {kinds : List ModKind}
      {f : ModKind × Path → Disk (String × String × Path)} (store : ModKind → ModStore)
      (hd : ∀ kind, dir kind = (store kind).dir install)
      (hf : ∀ a, ∃ source folder, f a = pure (source, folder, a.2)) :
      (findMod dir name missing kinds >>= f).wp (once disk) (Looks s fun a =>
        ∃ store, a.2.2 = Slot.path install ⟨store, name⟩ ∧ (s.get a.2.2).isSome = true)
        (s, used) := by
    refine wp_bind.mpr (wp_mono wp_findMod_looks ?_)
    rintro r m ⟨hs, h⟩
    cases r
    case error => exact ⟨hs, fun _ h => nomatch h⟩
    case ended => exact ⟨hs, fun _ h => nomatch h⟩
    case ok a  =>
      have ⟨source, folder, hf⟩ := hf a
      have ⟨hp, node, hn, _⟩ := h a rfl
      change (f a).wp (once disk) _ m
      rw [hf]
      refine ⟨hs, ?_⟩
      rintro _ ⟨⟩
      refine ⟨store a.1, ?_, by rw [hn]; rfl⟩
      rw [hp, hd]
      rfl
  rw [findDeleted]
  split
  case isTrue  => exact hfind .quarantine (fun _ => rfl) fun ⟨_, _⟩ => ⟨_, _, rfl⟩
  case isFalse =>
    split
    case isFalse => exact hfind .active (fun _ => rfl) fun ⟨_, _⟩ => ⟨_, _, rfl⟩
    case isTrue  =>
      refine wp_bind.mpr (wp_mono wp_findPendingMod ?_)
      rintro r m ⟨hs, h⟩
      cases r
      case error => exact ⟨hs, fun _ h => nomatch h⟩
      case ended => exact ⟨hs, fun _ h => nomatch h⟩
      case ok path =>
        refine ⟨hs, ?_⟩
        rintro _ ⟨⟩
        exact ⟨.pending, h path rfl⟩

def Deleted (name : String) (cs : List (Slots.Change Slot Tree)) : Prop :=
  ∃ store, cs = [.remove ⟨store, name⟩]

theorem wp_deleteMod : (deleteMod l cfg payload).wp (once disk)
    (Makes (l.locate cfg.installPath) s fun _ => Deleted (payloadModName payload)) (s, true) := by
  rw [deleteMod]
  refine wp_onMod fun hv _ => wp_bind_looks wp_findDeleted ?_
  rintro ⟨source, folder, path⟩ used' ⟨store, hp, hs⟩ hk
  obtain rfl : path = _ := hp
  obtain rfl : used' = true := hk rfl
  exact wp_removeMod (slot_visible hv store) hs ⟨store, rfl⟩

theorem wp_rejectPendingMod : (rejectPendingMod l cfg payload).wp (once disk)
    (Makes (l.locate cfg.installPath) s fun _ cs =>
      cs = [.remove ⟨.pending, payloadModName payload⟩])
    (s, true) := by
  rw [rejectPendingMod]
  refine wp_onMod fun hv _ => wp_bind_looks wp_findPendingMod ?_
  rintro _ used' ⟨rfl, hs⟩ hk
  obtain rfl : used' = true := hk rfl
  exact wp_removeMod (slot_visible hv .pending) hs rfl

end Agent
