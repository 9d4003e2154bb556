import Mastermind.Agent.Theorems.CopyDir
import Mastermind.Effects.System

open Effects Prog Files Js

namespace Agent

-- `restored` tells whether a restore has finished successfully.
structure Restoring where
  fs       : Fs
  restored : Bool := false

-- A call of `RestoreSave`, which may be killed after some of its steps.
structure RestoreCall where
  payload : Fields
  killed  : Option Nat := none

def RestoreCall.fates (c : RestoreCall) : List Fate :=
  match c.killed with
  | none   => []
  | some n => List.replicate n .served ++ [.ended]

@[reducible]
def restoring (p : Place) : System where
  State := Restoring
  Event := RestoreCall
  next s c :=
    let run := (restoreSave p c.payload).run c.fates s.fs
    { fs := run.state, restored := s.restored || run.result.isOk }

-- The world is there in full unless a restore has finished.
def WorldKept (p : Place) (world : Tree) (s : Restoring) : Prop :=
  s.restored = true ∨ s.fs.tree p.world = world ∨ s.fs.tree p.old = world

-- A call that comes to its changes finds the world in its place, and it is not killed once its copy is
-- complete.
def SparesWorld (p : Place) (world : Tree) (s : Restoring) (c : RestoreCall) : Prop :=
  s.restored = true ∨
  ((checkSave p c.payload).run c.fates s.fs).result.isOk = false ∨
  (s.fs.tree p.world = world ∧
    (c.killed = none ∨ ((installSave p c.payload).run c.fates s.fs).result.isOk = false))

-- Calls are only ended.
def killing : Disturbance disk :=
  fun _ fate => fate = .ended

section

variable {p : Place} {payload : Fields} {s s' : Fs} {world : Tree} {source : Path} {fs : List Fate}

namespace Place

theorem world_apart : Apart p.world p.old := by
  have hn : p.level ≠ p.level ++ ".mastermind-restore-old" := by
    intro h
    have h := congrArg (fun s => s.toList.length) h
    have hl : ".mastermind-restore-old".toList ≠ [] := by decide
    have hl := List.length_pos_iff.mpr hl
    simp only [String.toList_append, List.length_append] at h
    omega
  exact .of_ne hn

theorem world_ne_nil : p.world ≠ [] := by
  simp [world]

end Place

theorem leaves_checkSave (Q : Path → Prop) : Leaves Q (checkSave p payload) := by
  have hf : Leaves Q (findSave p payload) := by
    rw [findSave]
    refine Leaves.ofExcept.bind fun _ => (Leaves.ask fun _ _ => id).bind fun answer => ?_
    match answer with
    | .ok .dir      => exact .pure
    | .ok (.file _) => exact .throw
    | .ok (.link _) => exact .throw
    | .error _      => exact .throw
  exact hf.bind fun _ => (Leaves.send fun _ _ => id).bind fun _ => .pure

-- The trees that a program does not touch.
theorem tree_eq {q : Path} (h : ∀ q', q <+: q' → s'.get q' = s.get q') : s'.tree q = s.tree q :=
  funext fun r => h _ (List.prefix_append q r)

-- Moving the world away does not lose it.
theorem wp_stageWorld (hw : s.tree p.world = world) (hd : world [] = some .dir) :
    (stageWorld p).wp (under disk killing) (fun r (s' : Fs) =>
      match r with
      | .ok _ => s'.tree p.old = world
      | _     => s'.tree p.world = world) s := by
  have hx : exec (.stat p.world) s = (.ok .dir, s) := by
    have hg : s.get p.world = some .dir := by simpa [Fs.tree, hd] using congrFun hw []
    simp only [exec, hg, Node.target]
  apply wp_ask_under.mpr
  refine ⟨?_, by rintro ⟨⟩, fun _ => hw⟩
  rw [hx]
  apply wp_handle.mpr
  apply wp_perform_under.mpr
  refine ⟨?_, (fun _ h => by cases h), fun _ _ => hw⟩
  change ansPost _ (exec (.rename p.world p.old) s).1 (exec (.rename p.world p.old) s).2
  obtain ⟨e, he⟩ | ⟨s', he, ht, _⟩ := exec_rename p.world p.old s <;> rw [he]
  case inl => exact hw
  case inr => exact ht.trans hw

theorem wp_moveBack (ho : s.tree p.old = world) :
    (ignoreErrors (send (.rename p.old p.world))).wp (under disk killing)
      (fun _ (s' : Fs) => s'.tree p.world = world ∨ s'.tree p.old = world) s := by
  apply wp_handle_keeps
  case hf => exact fun _ _ h => h
  apply wp_perform_under.mpr
  refine ⟨?_, (fun _ h => nomatch h), fun _ _ => .inr ho⟩
  change ansPost _ (exec (.rename p.old p.world) s).1 (exec (.rename p.old p.world) s).2
  obtain ⟨e, he⟩ | ⟨s', he, ht, _⟩ := exec_rename p.old p.world s <;> rw [he]
  case inl => exact .inr ho
  case inr => exact .inl (ht.trans ho)

-- The handler of a failed copy puts the world back.
theorem wp_rollback (ho : s.tree p.old = world) (e : Err) :
    Prog.wp (under disk killing)
      (fun _ (s' : Fs) => s'.tree p.world = world ∨ s'.tree p.old = world)
      (do
        ignoreErrors (removeAll p.world)
        ignoreErrors (send (.rename p.old p.world))
        .throw (e.wrap "restore save") : Disk Unit) s := by
  have hl : Leaves (p.old <+: ·) (ignoreErrors (removeAll p.world)) :=
    .ignoreErrors (.removeAll fun q ho hq => by
      cases List.prefix_or_prefix_of_prefix hq ho
      case inl h => exact Place.world_apart.left h
      case inr h => exact Place.world_apart.right h)
  apply wp_bind_via (J := fun s' : Fs => s'.tree p.old = world)
  case h  => exact wp_mono hl.wp fun _ _ h => (tree_eq h).trans ho
  case hj => exact fun _ h => .inr h
  case hf => exact fun _ _ h => wp_bind_keeps (wp_moveBack h) fun _ _ h => h

theorem leaves_removeOld : Leaves (p.world <+: ·) (ignoreErrors (removeAll p.old)) :=
  .ignoreErrors (.removeAll fun q hq ho => by
    cases List.prefix_or_prefix_of_prefix hq ho
    case inl h => exact Place.world_apart.left h
    case inr h => exact Place.world_apart.right h)

-- The world is there in full while it is replaced.
theorem wp_replaceWorld (hw : s.tree p.world = world) (hd : world [] = some .dir) :
    (replaceWorld p source).wp (under disk killing)
      (fun _ (s' : Fs) => s'.tree p.world = world ∨ s'.tree p.old = world) s := by
  apply wp_bind.mpr
  apply wp_mono leaves_removeOld.wp
  intro r s₁ h
  have hw₁ : s₁.tree p.world = world := (tree_eq h).trans hw
  cases r
  case error => exact .inl hw₁
  case ended => exact .inl hw₁
  case ok    =>
    apply wp_bind.mpr
    apply wp_mono (wp_stageWorld hw₁ hd)
    intro r s₂ h
    cases r
    case error => exact .inl h
    case ended => exact .inl h
    case ok    =>
      have hc : Leaves (p.old <+: ·) (copyDir source p.world) :=
        leaves_copyDir fun q ⟨r, hq⟩ => hq ▸ Place.world_apart.symm.below r
      apply wp_handle.mpr
      apply wp_mono hc.wp
      intro r s₃ h₃
      have ho : s₃.tree p.old = world := (tree_eq h₃).trans h
      cases r
      case ok      => exact .inr ho
      case error e => exact wp_rollback ho e
      case ended   => exact .inr ho

theorem wp_installSave (hw : s.tree p.world = world) (hd : world [] = some .dir) :
    (installSave p payload).wp (under disk killing)
      (fun _ (s' : Fs) => s'.tree p.world = world ∨ s'.tree p.old = world) s := by
  apply wp_bind.mpr
  apply wp_mono (leaves_checkSave fun _ => True).wp
  intro r s₁ h
  have hw₁ : s₁.tree p.world = world := (tree_eq fun q _ => h q trivial).trans hw
  cases r
  case error   => exact .inl hw₁
  case ended   => exact .inl hw₁
  case ok path => exact wp_bind_keeps (wp_replaceWorld hw₁ hd) fun _ _ h => h

theorem unchanged_of_checkSave (h : ((checkSave p payload).run fs s).result.isOk = false) (q : Path) :
    ((restoreSave p payload).run fs s).state.get q = s.get q := by
  have ⟨hi, hs⟩ := run_bind_of_not_ok (f := fun source => do
    replaceWorld p source
    return source) h
  have ⟨_, hr⟩ := run_bind_of_not_ok (f := fun source => do
    ignoreErrors (removeAll p.old)
    return source) hi
  have hl : Leaves (fun _ => True) (checkSave p payload) := leaves_checkSave _
  exact (congrArg (·.get q) (hr.trans hs)).trans (hl.run fs trivial)

-- A call that is not killed once the copy is complete, finishes.
theorem restoreSave_isOk (h : ((installSave p payload).run [] s).result.isOk = true) :
    ((restoreSave p payload).run [] s).result.isOk = true := by
  apply run_bind_nil_isOk h
  intro source s'
  apply run_bind_nil_isOk
  case h  => exact run_handle_nil_isOk fun _ _ => rfl
  case hf => exact fun _ _ => rfl

end

variable {p : Place} {world : Tree} {s : Restoring} {c : RestoreCall} {calls : List RestoreCall}

theorem RestoreCall.within : Run.Within killing ((installSave p c.payload).run c.fates s.fs) := by
  apply within_fates
  intro _ fate hf hn
  rw [RestoreCall.fates] at hf
  cases hk : c.killed <;> simp only [hk] at hf
  case none => nomatch hf
  case some =>
    rw [List.mem_append, List.mem_singleton] at hf
    cases hf
    case inl hf => exact absurd (List.eq_of_mem_replicate hf) hn
    case inr hf => exact hf

theorem WorldKept.next (h : WorldKept p world s) (hd : world [] = some .dir)
    (hc : SparesWorld p world s c) : WorldKept p world ((restoring p).next s c) := by
  obtain hr | hc | ⟨hw, hc⟩ := hc
  case inl         => exact .inl (by simp [hr])
  case inr.inl     =>
    have hs := fun q => unchanged_of_checkSave hc q
    obtain h | h | h := h
    case inl     => exact .inl (by simp [h])
    case inr.inl => exact .inr (.inl ((tree_eq fun q _ => hs q).trans h))
    case inr.inr => exact .inr (.inr ((tree_eq fun q _ => hs q).trans h))
  case inr.inr     =>
    cases hi : ((installSave p c.payload).run c.fates s.fs).result.isOk
    case false =>
      have ⟨_, hs⟩ := run_bind_of_not_ok (f := fun source => do
        ignoreErrors (removeAll p.old)
        return source) hi
      have hs : ((restoring p).next s c).fs = ((installSave p c.payload).run c.fates s.fs).state := hs
      rw [WorldKept, hs]
      exact .inr (wp_run (wp_installSave hw hd) RestoreCall.within)
    case true  =>
      have hk : c.killed = none := by simpa [hi] using hc
      have hf : c.fates = [] := by rw [RestoreCall.fates, hk]
      rw [hf] at hi
      exact .inl (by simp [hf, restoreSave_isOk hi])

-- The world is not lost in runs of calls that spare it.
theorem world_kept {s : Fs} (hd : s.get p.world = some .dir)
    (hm : (restoring p).Meets (SparesWorld p (s.tree p.world)) { fs := s } calls) :
    WorldKept p (s.tree p.world) ((restoring p).run { fs := s } calls) := by
  have hd : s.tree p.world [] = some .dir := by simpa [Fs.tree] using hd
  exact System.invariant (fun _ _ h hc => h.next hd hc) (.inr (.inl rfl)) hm

-- A server with a world and a backup of it.
def survival : Place where
  install := ["srv"]
  level   := "world"
  backups := ["srv", "mastermind-backups"]
  legal   := by decide +kernel
  apart   := by decide +kernel
  aside   := by decide +kernel

def survivalFs : Fs :=
  .after [.mkdirAll ["srv", "world"], .create ["srv", "world", "level.dat"] true,
    .append ["srv", "world", "level.dat"] 2,
    .mkdirAll ["srv", "mastermind-backups", "world-20250101-000000"],
    .create ["srv", "mastermind-backups", "world-20250101-000000", "level.dat"] true,
    .append ["srv", "mastermind-backups", "world-20250101-000000", "level.dat"] 1]

def survivalSave : Fields :=
  [("save_id", .str "world-20250101-000000")]

-- The only call is killed after it has moved the world away.
theorem world_kept_killedOnce : WorldKept survival (survivalFs.tree survival.world)
    ((restoring survival).run { fs := survivalFs } [⟨survivalSave, some 8⟩]) :=
  world_kept (by decide +kernel)
    ⟨.inr (.inr ⟨rfl, .inr (by decide +kernel)⟩), trivial⟩

-- The next call removes the only copy of the world before it makes another one.
theorem world_lost_killedTwice : survivalFs.get survival.world = some .dir ∧
    ¬WorldKept survival (survivalFs.tree survival.world)
      ((restoring survival).run { fs := survivalFs } [⟨survivalSave, some 8⟩, ⟨survivalSave, some 5⟩]) := by
  refine ⟨by decide +kernel, ?_⟩
  rintro (h | h | h)
  case inl     => exact absurd h (by decide +kernel)
  case inr.inl => exact absurd (congrFun h ["level.dat"]) (by decide +kernel)
  case inr.inr => exact absurd (congrFun h ["level.dat"]) (by decide +kernel)

end Agent
