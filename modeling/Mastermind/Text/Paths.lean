import Mathlib.Data.List.DropRight
import Mastermind.Text.Utf8

open Utf8

-- Paths as sequences of bytes, with a slash between their elements.
namespace Filepath

def sep : UInt8 := 47
def dot : UInt8 := 46

-- The element that leads to the parent directory.
def up : Bytes :=
  [dot, dot]

def isAbs (p : Bytes) : Bool :=
  p.head? = some sep

-- The elements of a path that lead anywhere.
def elements (p : Bytes) : List Bytes :=
  (p.splitOn sep).filter fun e => e ≠ [] ∧ e ≠ [dot]

-- Adds an element to the ones so far, of which the last one comes first. A parent eliminates the
-- element before it, and the root is its own parent.
def push (rooted : Bool) (out : List Bytes) (e : Bytes) : List Bytes :=
  if e = up then
    match out with
    | []         => if rooted then [] else [up]
    | top :: out => if top = up then up :: top :: out else out
  else e :: out

-- The elements of a path without detours, last first.
def stack (p : Bytes) : List Bytes :=
  (elements p).foldl (push (isAbs p)) []

def render (rooted : Bool) (es : List Bytes) : Bytes :=
  if rooted then sep :: [sep].intercalate es
  else if es = [] then [dot]
  else [sep].intercalate es

-- `filepath.Clean`
def clean (p : Bytes) : Bytes :=
  render (isAbs p) (stack p).reverse

-- `filepath.Join` of two paths
def join (p q : Bytes) : Bytes :=
  if p ≠ [] then clean (p ++ sep :: q)
  else if q ≠ [] then clean q
  else []

-- `filepath.Ext`
def ext (p : Bytes) : Bytes :=
  let name := p.rtakeWhile (· ≠ sep)
  if dot ∈ name then dot :: name.rtakeWhile (· ≠ dot) else []

-- `filepath.Base`
def base (p : Bytes) : Bytes :=
  let q := p.rdropWhile (· = sep)
  if p = [] then [dot]
  else if q = [] then [sep]
  else q.rtakeWhile (· ≠ sep)

-- `filepath.Dir`
def dir (p : Bytes) : Bytes :=
  clean (p.rdropWhile (· ≠ sep))

-- An element that leads to a child of a directory.
structure IsName (e : Bytes) : Prop where
  ne_nil : e ≠ []
  ne_dot : e ≠ [dot]
  ne_up  : e ≠ up
  noSep  : sep ∉ e

-- A path leads from a directory down along some names.
def StrictlyBelow (directory p : Bytes) : Prop :=
  ∃ names, names ≠ [] ∧ (∀ e ∈ names, IsName e) ∧ p = directory ++ sep :: [sep].intercalate names

variable {p q e : Bytes} {es out below : List Bytes} {rooted : Bool}

theorem noSep_of_mem_splitOn (h : e ∈ p.splitOn sep) : sep ∉ e := by
  induction p generalizing e
  case nil =>
    rw [List.mem_singleton.mp h]
    exact List.not_mem_nil
  case cons b p hi =>
    rw [List.splitOn_cons_eq_if_modifyHead] at h
    split at h
    case isTrue =>
      cases List.mem_cons.mp h
      case inl h => exact h ▸ List.not_mem_nil
      case inr h => exact hi h
    case isFalse hb =>
      have ⟨e', es, he⟩ := List.exists_cons_of_ne_nil (List.splitOn_ne_nil sep p)
      have hn : sep ∉ e' := hi (by rw [he]; exact List.mem_cons_self)
      rw [he, List.modifyHead_cons] at h
      cases List.mem_cons.mp h
      case inl h =>
        have hb : sep ≠ b := fun hs => hb (beq_iff_eq.mpr hs.symm)
        rw [h]
        exact List.not_mem_cons_of_ne_of_not_mem hb hn
      case inr h => exact hi (by rw [he]; exact List.mem_cons_of_mem _ h)

theorem mem_elements (h : e ∈ elements p) : e ≠ [] ∧ e ≠ [dot] ∧ sep ∉ e := by
  have ⟨hm, hp⟩ := List.mem_filter.mp h
  have hp : e ≠ [] ∧ e ≠ [dot] := of_decide_eq_true hp
  exact ⟨hp.left, hp.right, noSep_of_mem_splitOn hm⟩

-- The elements of a stack are among those that have been pushed.
theorem mem_foldl_push (h : e ∈ es.foldl (push rooted) out) : e ∈ out ∨ e ∈ es ∨ e = up := by
  induction es generalizing out
  case nil => exact .inl h
  case cons e' es hi =>
    cases hi h
    case inr h =>
      cases h
      case inl h => exact .inr (.inl (List.mem_cons_of_mem _ h))
      case inr h => exact .inr (.inr h)
    case inl h =>
      unfold push at h
      grind

theorem mem_stack (h : e ∈ stack p) : e ≠ [] ∧ e ≠ [dot] ∧ sep ∉ e := by
  rcases mem_foldl_push h with h | h | h
  case inl         => nomatch h
  case inr.inl h   => exact mem_elements h
  case inr.inr h   => subst h; decide

-- A parent that eliminates nothing stays on the stack.
theorem up_mem_foldl_push (h : up ∈ out) : up ∈ es.foldl (push rooted) out := by
  induction es generalizing out
  case nil => exact h
  case cons e es hi =>
    apply hi
    unfold push
    split
    case isTrue =>
      split
      case h_1 => nomatch h
      case h_2 top out =>
        split
        case isTrue     => exact List.mem_cons_self
        case isFalse ht => exact (List.mem_cons.mp h).resolve_left fun hu => ht hu.symm
    case isFalse => exact List.mem_cons_of_mem _ h

-- Elements whose parents eliminate only each other do the same on top of other elements.
theorem foldl_push_append (h : up ∉ es.foldl (push false) out) :
    es.foldl (push rooted) (out ++ below) = es.foldl (push false) out ++ below := by
  induction es generalizing out
  case nil => rfl
  case cons e es hi =>
    have hp : push rooted (out ++ below) e = push false out e ++ below := by
      unfold push
      split
      case isTrue he =>
        cases out
        case nil =>
          have hu : push false [] e = [up] := by rw [push, if_pos he]; rfl
          rw [List.foldl_cons, hu] at h
          exact absurd (up_mem_foldl_push List.mem_cons_self) h
        case cons top out =>
          simp only [List.cons_append]
          split <;> rfl
      case isFalse => rfl
    rw [List.foldl_cons, List.foldl_cons, hp]
    exact hi h

theorem stack_append (hp : p ≠ []) :
    stack (p ++ sep :: q) = (elements q).foldl (push (isAbs p)) (stack p) := by
  have ⟨b, p', hb⟩ := List.exists_cons_of_ne_nil hp
  have ha : isAbs (p ++ sep :: q) = isAbs p := by rw [hb]; rfl
  rw [stack, ha, elements, List.splitOn_append_cons_self, List.filter_append, List.foldl_append]
  rfl

-- A relative path without parents leads down from where it is joined.
theorem stack_append_down (hp : p ≠ []) (ha : isAbs q = false) (hu : up ∉ stack q) :
    stack (p ++ sep :: q) = stack q ++ stack p := by
  have hs : stack q = (elements q).foldl (push false) [] := by rw [stack, ha]
  rw [hs] at hu ⊢
  rw [stack_append hp]
  exact foldl_push_append hu

theorem intercalate_append {es es' : List Bytes} (h : es ≠ []) (h' : es' ≠ []) :
    [sep].intercalate (es ++ es') = [sep].intercalate es ++ sep :: [sep].intercalate es' := by
  induction es
  case nil => contradiction
  case cons e es hi =>
    cases es
    case nil => simp [List.intercalate_cons_of_ne_nil h']
    case cons e₂ es =>
      have hi := hi (List.cons_ne_nil _ _)
      simp only [List.cons_append, List.intercalate_cons_cons] at hi ⊢
      simp [hi]

theorem render_append {es es' : List Bytes} (h : es ≠ []) (h' : es' ≠ []) :
    render rooted (es ++ es') = render rooted es ++ sep :: [sep].intercalate es' := by
  rw [render, render, intercalate_append h h']
  cases rooted <;> simp [h]

theorem infix_intercalate (h : e ∈ es) : e <:+: [sep].intercalate es := by
  induction es
  case nil => nomatch h
  case cons e' es hi =>
    by_cases hn : es = []
    case pos =>
      have hs : [sep].intercalate (e' :: es) = e := by
        subst hn
        rw [List.intercalate_singleton, List.mem_singleton.mp h]
      exact hs ▸ List.infix_refl _
    case neg =>
      rw [List.intercalate_cons_of_ne_nil hn, List.append_assoc]
      cases List.mem_cons.mp h
      case inl h => exact h ▸ (List.prefix_append _ _).isInfix
      case inr h => exact (hi h).trans ((List.suffix_append _ _).trans (List.suffix_append _ _)).isInfix

-- What cleaning leads to, last element first: only parents lie below a parent, and none is left in a
-- path from the root.
def Normal (rooted : Bool) : List Bytes → Prop
  | []       => True
  | e :: out => Normal rooted out ∧ (e = up → rooted = false ∧ ∀ e' ∈ out, e' = up)

theorem Normal.push (h : Normal rooted out) : Normal rooted (push rooted out e) := by
  unfold Filepath.push
  split
  case isTrue he =>
    split
    case h_1 =>
      cases rooted
      case false => exact ⟨trivial, fun _ => ⟨rfl, by simp⟩⟩
      case true  => trivial
    case h_2 top out =>
      split
      case isTrue ht =>
        have ⟨hr, ho⟩ := h.right ht
        exact ⟨h, fun _ => ⟨hr, List.forall_mem_cons.mpr ⟨ht, ho⟩⟩⟩
      case isFalse => exact h.left
  case isFalse he => exact ⟨h, fun hu => absurd hu he⟩

theorem normal_foldl_push (h : Normal rooted out) : Normal rooted (es.foldl (push rooted) out) := by
  induction es generalizing out
  case nil          => exact h
  case cons e es hi => exact hi h.push

theorem normal_stack : Normal (isAbs p) (stack p) :=
  normal_foldl_push trivial

theorem Normal.foldl_push (h : Normal rooted out) :
    out.reverse.foldl (Filepath.push rooted) [] = out := by
  induction out
  case nil => rfl
  case cons e out hi =>
    rw [List.reverse_cons, List.foldl_append, hi h.left, List.foldl_cons, List.foldl_nil]
    by_cases he : e = up
    case pos =>
      have ⟨hr, ho⟩ := h.right he
      cases out
      case nil          => simp [Filepath.push, hr, he]
      case cons top out => simp [Filepath.push, ho top List.mem_cons_self, he]
    case neg => exact if_neg he

theorem elements_render (h : ∀ e ∈ es, e ≠ [] ∧ e ≠ [dot] ∧ sep ∉ e) :
    elements (render rooted es) = es := by
  have hf : es.filter (fun e => e ≠ [] ∧ e ≠ [dot]) = es :=
    List.filter_eq_self.mpr fun e he => decide_eq_true ⟨(h e he).1, (h e he).2.1⟩
  have hs : ([sep].intercalate es).splitOn sep = if es = [] then [[]] else es := by
    by_cases hn : es = []
    case pos => subst hn; rfl
    case neg => rw [if_neg hn, List.splitOn_intercalate sep (fun e he => (h e he).2.2) hn]
  by_cases hn : es = []
  case pos => subst hn; cases rooted <;> rfl
  case neg =>
    rw [if_neg hn] at hs
    rw [elements, render]
    cases rooted
    case false => rw [if_neg Bool.false_ne_true, if_neg hn, hs, hf]
    case true =>
      have hc := List.splitOn_append_cons_self (a := sep) [] ([sep].intercalate es)
      rw [List.nil_append, hs, List.splitOn_nil] at hc
      rw [if_pos rfl, hc, List.singleton_append, List.filter_cons_of_neg (by simp), hf]

theorem isAbs_render (h : ∀ e ∈ es, e ≠ [] ∧ e ≠ [dot] ∧ sep ∉ e) :
    isAbs (render rooted es) = rooted := by
  cases rooted
  case true => rfl
  case false =>
    cases es
    case nil => rfl
    case cons e es =>
      have ⟨hn, _, hs⟩ := h e List.mem_cons_self
      have ⟨b, e', hb⟩ := List.exists_cons_of_ne_nil hn
      subst hb
      have hb : ¬b = sep := fun hb => hs (hb ▸ List.mem_cons_self)
      cases es <;> simpa [render, isAbs, List.intercalate_cons_cons] using hb

theorem clean_clean : clean (clean p) = clean p := by
  have he : ∀ e ∈ (stack p).reverse, e ≠ [] ∧ e ≠ [dot] ∧ sep ∉ e :=
    fun e hm => mem_stack (List.mem_reverse.mp hm)
  rw [clean.eq_def (clean p), stack, clean, isAbs_render he, elements_render he,
    normal_stack.foldl_push]

theorem isAbs_clean (h : isAbs (clean p) = false) : isAbs p = false := by
  rw [clean, render] at h
  cases ha : isAbs p
  case false => rfl
  case true  => rw [ha] at h; nomatch h

-- The elements of a relative path that starts with a given one.
theorem stack_of_prefix {name : Bytes} (ha : isAbs (clean p) = false) (hn : sep ∉ name)
    (h : name ++ [sep] <+: clean p) : ∃ es, es ≠ [] ∧ (stack p).reverse = name :: es := by
  have hr : clean p = render false (stack p).reverse := by rw [clean, isAbs_clean ha]
  have ⟨t, ht⟩ := h
  have hs : (stack p).reverse ≠ [] := by
    intro hs
    rw [hr, hs] at ht
    have hm : sep ∈ render false [] := ht ▸ by simp
    nomatch hm
  have hi : clean p = [sep].intercalate (stack p).reverse := by
    rw [hr, render, if_neg Bool.false_ne_true, if_neg hs]
  have he : ∀ e ∈ (stack p).reverse, sep ∉ e := fun e hm => (mem_stack (List.mem_reverse.mp hm)).2.2
  have hl : (stack p).reverse = name :: t.splitOn sep := by
    rw [← List.splitOn_intercalate sep he hs, ← hi, ← ht, List.append_assoc, List.singleton_append,
      List.splitOn_append_cons_self_of_not_mem hn]
  exact ⟨_, List.splitOn_ne_nil _ _, hl⟩

theorem IsName.isAbs (h : IsName e) : isAbs e = false := by
  cases e
  case nil => rfl
  case cons b e =>
    have hb : sep ≠ b := List.ne_of_not_mem_cons h.noSep
    simpa [Filepath.isAbs] using hb.symm

theorem IsName.stack (h : IsName e) : stack e = [e] := by
  have he : elements e = [e] := by
    rw [elements, List.splitOn_eq_singleton h.noSep]
    simp [h.ne_nil, h.ne_dot]
  rw [Filepath.stack, he]
  exact if_neg h.ne_up

-- A relative path that starts with a name and mentions no parent leads below that directory from
-- wherever it is joined.
theorem strictlyBelow_join {name : Bytes} (hp : p ≠ []) (hn : IsName name)
    (ha : isAbs (clean q) = false) (hu : ¬up <:+: clean q) (h : name ++ [sep] <+: clean q) :
    StrictlyBelow (join p name) (join p q) := by
  have ⟨es, hne, hs⟩ := stack_of_prefix ha hn.noSep h
  have hs₂ : (stack q) ≠ [] := by
    intro h
    rw [h] at hs
    nomatch hs
  have hq : ∀ e ∈ stack q, e ≠ up := by
    intro e hm he
    have hr : clean q = [sep].intercalate (stack q).reverse := by
      rw [clean, isAbs_clean ha, render, if_neg Bool.false_ne_true, if_neg (by simpa using hs₂)]
    exact hu (hr ▸ he ▸ infix_intercalate (List.mem_reverse.mpr hm))
  have hm : up ∉ stack q := fun h => hq _ h rfl
  have hname : stack name = [name] := hn.stack
  refine ⟨es, hne, fun e he => ?_, ?_⟩
  case refine_1 =>
    have hm : e ∈ stack q := by
      rw [← List.mem_reverse, hs]
      exact List.mem_cons_of_mem _ he
    have ⟨hn, hd, hs⟩ := mem_stack hm
    exact ⟨hn, hd, hq e hm, hs⟩
  case refine_2 =>
    have hj (r : Bytes) : isAbs (p ++ sep :: r) = isAbs p := by
      have ⟨b, p', hb⟩ := List.exists_cons_of_ne_nil hp
      rw [hb]
      rfl
    have hu' : up ∉ stack name := by
      rw [hname]
      exact fun h => hn.ne_up (List.mem_singleton.mp h).symm
    rw [join, join, if_pos hp, if_pos hp, clean, clean, hj, hj,
      stack_append_down hp (isAbs_clean ha) hm, stack_append_down hp hn.isAbs hu', hname,
      List.reverse_append, List.reverse_append, hs, List.reverse_singleton,
      ← render_append (by simp) hne]
    simp

end Filepath
