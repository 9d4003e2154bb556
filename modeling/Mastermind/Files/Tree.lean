import Mathlib.Data.List.Dedup
import Mathlib.Data.List.Infix
import Mathlib.Data.List.Lex
import Mathlib.Data.List.Sort
import Mathlib.Data.String.Basic

namespace Files

abbrev Bytes :=
  List UInt8

-- The names on the way from the root.
abbrev Path :=
  List String

-- A link is kept with the data of the file that it leads to, `none` if it leads to a directory. There
-- are no links that lead nowhere.
inductive Node
  | dir
  | file (data : Bytes)
  | link (data : Option Bytes)
  deriving DecidableEq

-- The nodes at and below a path, by the rest of their paths.
abbrev Tree :=
  Path → Option Node

-- A file system. What is not the root lies in a directory.
structure Fs where
  get    : Path → Option Node
  paths  : List Path
  listed : ∀ {p}, (get p).isSome → p ∈ paths
  rooted : get [] = some .dir
  closed : ∀ {p x}, (get (p ++ [x])).isSome → get p = some .dir

-- Neither path leads to the other.
def Apart (p q : Path) : Prop :=
  ¬p <+: q ∧ ¬q <+: p

instance {p q : Path} : Decidable (Apart p q) :=
  inferInstanceAs <| Decidable (_ ∧ _)

namespace Apart

variable {p q : Path}

theorem symm (h : Apart p q) : Apart q p :=
  ⟨h.right, h.left⟩

-- What lies below one of the paths is apart from the other one.
theorem below (h : Apart p q) (r : Path) : Apart (p ++ r) q := by
  constructor
  case left  => exact fun hr => h.left ((List.prefix_append _ _).trans hr)
  case right =>
    intro hr
    cases List.prefix_or_prefix_of_prefix hr (List.prefix_append p r)
    case inl hq => exact h.right hq
    case inr hp => exact h.left hp

theorem ne (h : Apart p q) : p ≠ q := by
  rintro rfl
  exact h.left (List.prefix_refl _)

theorem of_ne {x y : String} (h : x ≠ y) : Apart (p ++ [x]) (p ++ [y]) := by
  constructor
  case left  => simpa using h
  case right => simpa using h.symm

end Apart

namespace Fs

variable (s : Fs)

def tree (p : Path) : Tree :=
  fun r => s.get (p ++ r)

-- A path at which a node can be.
def HasRoom (p : Path) : Prop :=
  p ≠ [] ∧ s.get p.dropLast = some .dir

-- Nothing lies below a path.
def Bare (p : Path) : Prop :=
  ∀ q ∈ s.paths, p <+: q → q ≠ p → s.get q = none

-- All directories on the way to a path can be there.
def Passable (p : Path) : Prop :=
  ∀ q ∈ p.inits, s.get q = none ∨ s.get q = some .dir

instance {p : Path} : Decidable (s.HasRoom p) :=
  inferInstanceAs <| Decidable (_ ∧ _)

instance {p : Path} : Decidable (s.Bare p) :=
  inferInstanceAs <| Decidable (∀ q ∈ s.paths, _)

instance {p : Path} : Decidable (s.Passable p) :=
  inferInstanceAs <| Decidable (∀ q ∈ p.inits, _)

variable {s} {p q : Path} {x : String}

theorem HasRoom.get_of_snoc (h : s.HasRoom (p ++ [x])) : s.get p = some .dir := by
  simpa using h.right

theorem Bare.get_eq_none (h : s.Bare p) (hp : p <+: q) (hq : q ≠ p) : s.get q = none := by
  cases hg : s.get q
  case none   => rfl
  case some n =>
    have hm := s.listed (p := q) (by simp [hg])
    exact (h q hm hp hq).symm.trans hg |>.symm

theorem isSome_of_isPrefix (h : p <+: q) (hq : (s.get q).isSome) : (s.get p).isSome := by
  have ⟨t, ht⟩ := h
  induction t using List.reverseRecOn generalizing q
  case nil => simpa [← ht] using hq
  case append_singleton t x hi =>
    rw [← ht, ← List.append_assoc] at hq
    exact hi (List.prefix_append _ _) (by rw [s.closed hq]; rfl) rfl

-- What lies above a node is a directory.
theorem get_of_isPrefix (h : p <+: q) (hn : p ≠ q) (hq : (s.get q).isSome) : s.get p = some .dir := by
  have ⟨t, ht⟩ := h
  match t with
  | []     => simp [hn] at ht
  | x :: t =>
    apply s.closed (x := x)
    exact isSome_of_isPrefix ⟨t, by simpa using ht⟩ hq

-- Puts a node to a path.
def put (s : Fs) (p : Path) (n : Node) (hr : s.HasRoom p) (hn : n = .dir ∨ s.Bare p) : Fs where
  get q  := if q = p then some n else s.get q
  paths  := p :: s.paths
  listed := by
    intro q hq
    split at hq
    case isTrue h  => exact h ▸ List.mem_cons_self
    case isFalse   => exact List.mem_cons_of_mem _ (s.listed hq)
  rooted := by rw [if_neg hr.left.symm, s.rooted]
  closed := by
    intro q x hq
    by_cases hx : q ++ [x] = p
    case pos =>
      have hp : q ≠ p := by rintro rfl; simp at hx
      rw [if_neg hp]
      exact (hx ▸ hr).get_of_snoc
    case neg =>
      rw [if_neg hx] at hq
      have hd := s.closed hq
      split
      case isFalse   => exact hd
      case isTrue he =>
        cases hn
        case inl hn => rw [hn]
        case inr hb =>
          rw [hb.get_eq_none (he ▸ List.prefix_append _ _) hx] at hq
          nomatch hq

-- Removes a node.
def erase (s : Fs) (p : Path) (hp : p ≠ []) (hb : s.Bare p) : Fs where
  get q  := if q = p then none else s.get q
  paths  := s.paths
  listed := by
    intro q hq
    split at hq
    case isTrue  => nomatch hq
    case isFalse => exact s.listed hq
  rooted := by rw [if_neg hp.symm, s.rooted]
  closed := by
    intro q x hq
    split at hq
    case isTrue    => nomatch hq
    case isFalse h =>
      split
      case isFalse   => exact s.closed hq
      case isTrue he =>
        rw [hb.get_eq_none (he ▸ List.prefix_append _ _) h] at hq
        nomatch hq

-- Makes the directories that are missing on the way to a path.
def makeAll (s : Fs) (p : Path) : Fs where
  get q  := if q <+: p then some .dir else s.get q
  paths  := p.inits ++ s.paths
  listed := by
    intro q hq
    split at hq
    case isTrue h  => exact List.mem_append_left _ (List.mem_inits _ _ |>.mpr h)
    case isFalse   => exact List.mem_append_right _ (s.listed hq)
  rooted := by rw [if_pos List.nil_prefix]
  closed := by
    intro q x hq
    split at hq
    case isTrue hx => rw [if_pos ((List.prefix_append _ _).trans hx)]
    case isFalse   =>
      split
      case isTrue  => rfl
      case isFalse => exact s.closed hq

-- Moves what is at and below a path to another path.
def move (s : Fs) (p q : Path) (ha : Apart p q) (hr : s.HasRoom q) : Fs where
  get r  := if q <+: r then s.get (p ++ r.drop q.length) else if p <+: r then none else s.get r
  paths  := s.paths.map (fun r => q ++ r.drop p.length) ++ s.paths
  listed := by
    intro r hg
    rw [List.mem_append]
    split at hg
    case isTrue h =>
      have ⟨_, ht⟩ := h
      refine .inl (List.mem_map.mpr ⟨_, s.listed hg, ?_⟩)
      rw [← ht, List.drop_left, List.drop_left]
    case isFalse =>
      split at hg
      case isTrue  => nomatch hg
      case isFalse => exact .inr (s.listed hg)
  rooted := by
    have hq : ¬q <+: [] := by simpa using hr.left
    have hp : ¬p <+: [] := fun h => ha.left (List.prefix_nil.mp h ▸ List.nil_prefix)
    rw [if_neg hq, if_neg hp, s.rooted]
  closed := by
    intro r x hg
    have hx : r <+: r ++ [x] := List.prefix_append _ _
    by_cases hq : q <+: r
    case pos =>
      have ⟨t, ht⟩ := hq
      rw [if_pos (hq.trans hx), ← ht, List.append_assoc, List.drop_left, ← List.append_assoc] at hg
      rw [if_pos hq, ← ht, List.drop_left]
      exact s.closed hg
    case neg =>
      rw [if_neg hq]
      by_cases he : q <+: r ++ [x]
      case neg =>
        rw [if_neg he] at hg
        split at hg
        case isTrue => nomatch hg
        case isFalse hn =>
          rw [if_neg fun h => hn (h.trans hx)]
          exact s.closed hg
      case pos =>
        have hs : q = r ++ [x] := by
          obtain h | h := List.prefix_concat_iff.mp he
          case inl => exact h
          case inr => exact absurd h hq
        have hp : ¬p <+: r := fun h => ha.left (hs ▸ h.trans hx)
        rw [if_neg hp]
        exact (hs ▸ hr).get_of_snoc

-- Replaces what is at and below a path by another file system, or removes it.
def replace (s : Fs) (p : Path) (t : Option Fs) (hr : s.HasRoom p) : Fs where
  get q  := if p <+: q then t.bind (·.get (q.drop p.length)) else s.get q
  paths  := (t.elim [] Fs.paths).map (p ++ ·) ++ s.paths
  listed := by
    intro q hg
    rw [List.mem_append]
    split at hg
    case isFalse  => exact .inr (s.listed hg)
    case isTrue h =>
      have ⟨r, hr⟩ := h
      cases t
      case none   => nomatch hg
      case some t =>
        rw [← hr, Option.bind_some, List.drop_left] at hg
        exact .inl (List.mem_map.mpr ⟨r, t.listed hg, hr⟩)
  rooted := by
    have hp : ¬p <+: [] := by simpa using hr.left
    rw [if_neg hp, s.rooted]
  closed := by
    intro q x hg
    have hx : q <+: q ++ [x] := List.prefix_append _ _
    by_cases hp : p <+: q
    case pos =>
      have ⟨r, hr⟩ := hp
      rw [if_pos (hp.trans hx), ← hr, List.append_assoc, List.drop_left] at hg
      rw [if_pos hp, ← hr, List.drop_left]
      cases t
      case none   => nomatch hg
      case some t => exact t.closed hg
    case neg =>
      rw [if_neg hp]
      by_cases he : p <+: q ++ [x]
      case neg => exact s.closed (if_neg he ▸ hg)
      case pos =>
        have hs : p = q ++ [x] := by
          cases List.prefix_concat_iff.mp he
          case inl h => exact h
          case inr h => exact absurd h hp
        exact (hs ▸ hr).get_of_snoc

-- The rests of the paths at and below a path, in the order of a walk.
def below (s : Fs) (p : Path) : List Path :=
  let paths := s.paths.dedup.filter fun q => p <+: q ∧ (s.get q).isSome
  (paths.map (·.drop p.length)).insertionSort (· ≤ ·)

def children (s : Fs) (p : Path) : List String :=
  (s.below p).filterMap fun
    | [x] => some x
    | _   => none

theorem mem_below {r : Path} : r ∈ s.below p ↔ (s.get (p ++ r)).isSome := by
  simp only [below, List.mem_insertionSort, List.mem_map, List.mem_filter, List.mem_dedup,
    decide_eq_true_eq]
  constructor
  case mp =>
    rintro ⟨q, ⟨_, ⟨t, rfl⟩, hq⟩, rfl⟩
    rwa [List.drop_left]
  case mpr =>
    intro h
    exact ⟨p ++ r, ⟨s.listed h, List.prefix_append _ _, h⟩, List.drop_left⟩

-- A walk comes to each of the nodes at and below a path.
def walk (s : Fs) (p : Path) : List (Path × Node) :=
  (s.below p).filterMap fun r => (s.get (p ++ r)).map (r, ·)

theorem map_walk : (s.walk p).map Prod.fst = s.below p := by
  have h : ∀ r ∈ s.below p, (s.get (p ++ r)).isSome := fun r hr => mem_below.mp hr
  rw [walk]
  generalize s.below p = rs at h
  induction rs
  case nil          => rfl
  case cons r rs hi =>
    have ⟨hr, hs⟩ := List.forall_mem_cons.mp h
    have ⟨node, hn⟩ := Option.isSome_iff_exists.mp hr
    simp only [List.filterMap_cons, hn, Option.map_some, List.map_cons, hi hs]

theorem mem_walk {r : Path} {n : Node} : (r, n) ∈ s.walk p ↔ s.get (p ++ r) = some n := by
  simp only [walk, List.mem_filterMap, Option.map_eq_some_iff, Prod.mk.injEq]
  constructor
  case mp =>
    rintro ⟨_, _, _, hn, rfl, rfl⟩
    exact hn
  case mpr =>
    intro h
    exact ⟨r, mem_below.mpr (by rw [h]; rfl), n, h, rfl, rfl⟩

theorem nodup_below : (s.below p).Nodup := by
  rw [below, (List.perm_insertionSort _ _).nodup_iff]
  apply List.Nodup.map_on _ (s.paths.nodup_dedup.filter _)
  simp only [List.mem_filter, decide_eq_true_eq]
  rintro _ ⟨_, ⟨t, rfl⟩, _⟩ _ ⟨_, ⟨t', rfl⟩, _⟩ h
  simpa using h

theorem sorted_below : (s.below p).Pairwise (· ≤ ·) :=
  List.pairwise_insertionSort _ _

theorem mem_children : x ∈ s.children p ↔ (s.get (p ++ [x])).isSome := by
  rw [← mem_below, children, List.mem_filterMap]
  constructor
  case mpr => exact fun h => ⟨_, h, rfl⟩
  case mp  =>
    rintro ⟨r, hr, he⟩
    split at he
    case h_1 => simpa [Option.some.inj he] using hr
    case h_2 => nomatch he

theorem nodup_children : (s.children p).Nodup := by
  apply nodup_below.filterMap
  intro r r' x hr hr'
  split at hr
  case h_2 => nomatch hr
  case h_1 =>
    split at hr'
    case h_2 => nomatch hr'
    case h_1 => rw [Option.some.inj hr, Option.some.inj hr']

end Fs

-- A walk comes to a directory before it comes to what lies in it.
theorem le_of_isPrefix {p q : Path} (h : p <+: q) : p ≤ q := by
  have ⟨t, ht⟩ := h
  subst ht
  induction p
  case nil          =>
    cases t
    case nil  => exact le_refl _
    case cons => exact le_of_lt List.Lex.nil
  case cons x p hi => exact List.cons_le_cons x (hi (List.prefix_append _ _))

end Files
