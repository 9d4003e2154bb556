import Mastermind.Agent.Mods
import Mastermind.Slots.Changes

open Effects Prog Js
open Files (Err Path Bytes Disk Node Tree Fs Apart Leaves exec disk send removeAll)

namespace Agent

-- The directories that mods are moved between.
inductive ModStore
  | active     (kind : ModKind)
  | quarantine (kind : ModKind)
  | pending
  deriving DecidableEq

namespace ModStore

def names : ModStore → List String
  | active kind     => [kind.folder]
  | quarantine kind => [kind.folder, ".quarantine"]
  | pending         => [ModKind.mods.folder, ".pending"]

def dir (install : Path) (store : ModStore) : Path :=
  install ++ store.names

end ModStore

-- A place for a mod.
structure Slot where
  store : ModStore
  name  : String
  deriving DecidableEq

namespace Slot

def path (install : Path) (x : Slot) : Path :=
  x.store.dir install ++ [x.name]

-- What begins with a dot is not listed.
def visible (x : Slot) : Bool :=
  !hasPrefix x.name "."

end Slot

-- The mods in all stores.
def stores (install : Path) (s : Fs) : Slots.Store Slot Tree :=
  fun x =>
    if x.visible ∧ (s.get (x.path install)).isSome then some (s.tree (x.path install)) else none

-- A path at or below a place for a mod.
def InSlots (install : Path) (q : Path) : Prop :=
  ∃ x : Slot, x.visible = true ∧ x.path install <+: q

variable {install : Path} {s s' : Fs} {x y : Slot} {store : ModStore} {node : Node} {name : String}

theorem visible_ne (h : x.visible = true) {name : String} (hn : hasPrefix name "." = true) :
    x.name ≠ name := by
  intro he
  rw [Slot.visible, he, hn] at h
  nomatch h

theorem folder_inj {kind kind' : ModKind} : kind.folder = kind'.folder ↔ kind = kind' := by
  cases kind <;> cases kind' <;> decide

-- No place is above another one.
theorem not_above (hx : x.visible = true) (h : x ≠ y) : ¬x.path install <+: y.path install := by
  have hq : x.name ≠ ".quarantine" := visible_ne hx (by decide)
  have hp : x.name ≠ ".pending" := visible_ne hx (by decide)
  intro hle
  simp only [Slot.path, ModStore.dir, List.append_assoc, List.prefix_append_right_inj] at hle
  obtain ⟨xs, xn⟩ := x
  obtain ⟨ys, yn⟩ := y
  cases xs <;> cases ys <;>
    simp_all [ModStore.names, folder_inj, List.cons_prefix_cons]

theorem slot_apart (hx : x.visible = true) (hy : y.visible = true) (h : x ≠ y) :
    Apart (x.path install) (y.path install) :=
  ⟨not_above hx h, not_above hy h.symm⟩

theorem not_above_dir (hx : x.visible = true) : ¬x.path install <+: store.dir install := by
  have hq : x.name ≠ ".quarantine" := visible_ne hx (by decide)
  have hp : x.name ≠ ".pending" := visible_ne hx (by decide)
  intro hle
  simp only [Slot.path, ModStore.dir, List.append_assoc, List.prefix_append_right_inj] at hle
  obtain ⟨xs, xn⟩ := x
  cases xs <;> cases store <;> simp_all [ModStore.names, List.cons_prefix_cons]

theorem not_above_templates (hx : x.visible = true) {r : Path} :
    ¬x.path install <+: configTemplateDir install name ++ r := by
  have hq : x.name ≠ ".quarantine" := visible_ne hx (by decide)
  have hc : x.name ≠ ".config-templates" := visible_ne hx (by decide)
  intro hle
  simp only [Slot.path, ModStore.dir, configTemplateDir, List.append_assoc,
    List.prefix_append_right_inj] at hle
  obtain ⟨xs, xn⟩ := x
  cases xs <;> simp_all [ModStore.names, List.cons_prefix_cons]

-- The stores are the same if what is in the places for mods is the same.
theorem stores_congr (h : ∀ q, InSlots install q → s'.get q = s.get q) :
    stores install s' = stores install s := by
  funext x
  rw [stores, stores]
  cases hx : x.visible
  case false => simp
  case true  =>
    have hg := h (x.path install) ⟨x, hx, List.prefix_refl _⟩
    have ht : s'.tree (x.path install) = s.tree (x.path install) :=
      funext fun r => h _ ⟨x, hx, List.prefix_append _ _⟩
    rw [hg, ht]

theorem stores_some {t : Tree} (h : stores install s x = some t) :
    x.visible = true ∧ s.tree (x.path install) = t ∧ (s.get (x.path install)).isSome = true := by
  rw [stores] at h
  split at h
  case isTrue hx => exact ⟨hx.left, Option.some.inj h, hx.right⟩
  case isFalse   => nomatch h

theorem stores_eq (hx : x.visible = true) (h : s.get (x.path install) = some node) :
    stores install s x = some (s.tree (x.path install)) :=
  if_pos ⟨hx, by rw [h]; rfl⟩

theorem stores_none (h : s.get (x.path install) = none) : stores install s x = none :=
  if_neg fun hx => by simp [h] at hx

open Slots

-- A store changes with what is in the places for mods.
theorem stores_apply {c : Change Slot Tree}
    (hv : ∀ x, x.visible = false → c.apply (stores install s) x = none)
    (h : ∀ x, x.visible = true → (if (s'.get (x.path install)).isSome then
      some (s'.tree (x.path install)) else none) = c.apply (stores install s) x) :
    stores install s' = c.apply (stores install s) := by
  funext x
  rw [stores]
  cases hx : x.visible
  case false => simp [hv x hx]
  case true  => simpa using h x hx

theorem stores_hidden (hx : x.visible = false) : stores install s x = none :=
  if_neg fun h => by simp [hx] at h

theorem stores_visible (hx : x.visible = true) :
    stores install s x =
      if (s.get (x.path install)).isSome then some (s.tree (x.path install)) else none := by
  rw [stores]
  simp [hx]

-- What is found at a place, where it is the same as at another path before.
theorem found_congr {p q : Path} (h : ∀ r, s'.get (q ++ r) = s.get (p ++ r)) :
    (if (s'.get q).isSome then some (s'.tree q) else none) =
      if (s.get p).isSome then some (s.tree p) else none := by
  have ht : s'.tree q = s.tree p := funext h
  have hg := h []
  rw [List.append_nil, List.append_nil] at hg
  rw [hg, ht]

theorem get_below_of_apart {p q : Path} (h : Apart p q) (r : Path) : ¬p <+: q ++ r :=
  (h.symm.below r).right

-- A renaming moves a mod to a free place.
theorem stores_rename (hx : x.visible = true) (hy : y.visible = true) (hne : x ≠ y)
    (hp : s.get (x.path install) = some node) (hfree : s.get (y.path install) = none)
    (hdir : s.get (y.store.dir install) = some .dir) :
    ∃ s', exec (.rename (x.path install) (y.path install)) s = (.ok (), s') ∧
      (Change.move x y : Change Slot Tree).Legal (stores install s) ∧
      stores install s' = (Change.move x y).apply (stores install s) := by
  have ha : Apart (x.path install) (y.path install) := slot_apart hx hy hne
  have hr : s.HasRoom (y.path install) := ⟨by simp [Slot.path], by simpa [Slot.path] using hdir⟩
  have hxe : exec (.rename (x.path install) (y.path install)) s =
      (.ok (), s.move (x.path install) (y.path install) ha hr) := by
    simp only [exec, hp]
    rw [dif_pos ⟨ha, hr⟩, if_pos ⟨.of_none hfree, by simp [hfree]⟩]
  refine ⟨_, hxe, ⟨by rw [stores_eq hx hp]; rfl, stores_none hfree⟩, stores_apply ?_ ?_⟩
  case refine_1 =>
    intro z hz
    have hzx : z ≠ x := by rintro rfl; simp [hx] at hz
    have hzy : z ≠ y := by rintro rfl; simp [hy] at hz
    rw [Change.apply, if_neg hzy, if_neg hzx, stores_hidden hz]
  case refine_2 =>
    intro z hz
    rw [Change.apply]
    by_cases hzy : z = y
    case pos =>
      subst hzy
      have hg : ∀ r, (s.move (x.path install) (z.path install) ha hr).get (z.path install ++ r) =
          s.get (x.path install ++ r) := by
        intro r
        exact (if_pos (List.prefix_append _ _)).trans (by rw [List.drop_left])
      rw [if_pos rfl, found_congr hg, stores_visible hx]
    case neg =>
      rw [if_neg hzy]
      have hout : ∀ r, (s.move (x.path install) (y.path install) ha hr).get (z.path install ++ r) =
          if x.path install <+: z.path install ++ r then none else s.get (z.path install ++ r) :=
        fun r => if_neg (get_below_of_apart (slot_apart hy hz (Ne.symm hzy)) r)
      by_cases hzx : z = x
      case pos =>
        subst hzx
        have h₀ := hout []
        rw [List.append_nil, if_pos (List.prefix_refl _)] at h₀
        rw [if_pos rfl, h₀]
        rfl
      case neg =>
        have hg : ∀ r, (s.move (x.path install) (y.path install) ha hr).get (z.path install ++ r) =
            s.get (z.path install ++ r) :=
          fun r => (hout r).trans (if_neg (get_below_of_apart (slot_apart hx hz (Ne.symm hzx)) r))
        rw [if_neg hzx, found_congr hg, stores_visible hz]

-- A mod is removed.
theorem stores_remove (hx : x.visible = true)
    (h : ∀ q, s'.get q = if x.path install <+: q then none else s.get q) :
    stores install s' = (Change.remove x).apply (stores install s) := by
  refine stores_apply (fun z hz => ?_) fun z hz => ?_
  case refine_1 => rw [Change.apply, stores_hidden hz, ite_self]
  case refine_2 =>
    rw [Change.apply]
    by_cases hzx : z = x
    case pos =>
      subst hzx
      rw [if_pos rfl, h, if_pos (List.prefix_refl _)]
      rfl
    case neg =>
      have hg : ∀ r, s'.get (z.path install ++ r) = s.get (z.path install ++ r) :=
        fun r => (h _).trans (if_neg (get_below_of_apart (slot_apart hx hz (Ne.symm hzx)) r))
      rw [if_neg hzx, found_congr hg, stores_visible hz]

-- The tree of a single file.
def fileTree (data : Bytes) : Tree :=
  fun r => if r = [] then some (.file data) else none

-- A file is added to a free place.
theorem stores_add {data : Bytes} (hx : x.visible = true) (hfree : s.get (x.path install) = none)
    (h : ∀ q, s'.get q = if q = x.path install then some (.file data) else s.get q) :
    (Change.add x (fileTree data)).Legal (stores install s) ∧
      stores install s' = (Change.add x (fileTree data)).apply (stores install s) := by
  refine ⟨stores_none hfree, stores_apply (fun z hz => ?_) fun z hz => ?_⟩
  case refine_1 =>
    have hzx : z ≠ x := by rintro rfl; simp [hx] at hz
    rw [Change.apply, if_neg hzx, stores_hidden hz]
  case refine_2 =>
    rw [Change.apply]
    by_cases hzx : z = x
    case pos =>
      subst hzx
      have hb : s.Bare (z.path install) := .of_none hfree
      have ht : s'.tree (z.path install) = fileTree data := by
        funext r
        simp only [Fs.tree, fileTree, h, List.append_right_eq_self]
        split
        case isTrue     => rfl
        case isFalse hr => exact hb.get_eq_none (List.prefix_append _ _) (by simpa using hr)
      rw [if_pos rfl, h, if_pos rfl, ht]
      rfl
    case neg =>
      have hne : ∀ r, z.path install ++ r ≠ x.path install := fun r he =>
        not_above hz hzx (he ▸ List.prefix_append _ _)
      have hg : ∀ r, s'.get (z.path install ++ r) = s.get (z.path install ++ r) :=
        fun r => (h _).trans (if_neg (hne r))
      rw [if_neg hzx, found_congr hg, stores_visible hz]

end Agent
