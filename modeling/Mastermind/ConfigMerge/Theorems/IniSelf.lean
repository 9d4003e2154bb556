import Mathlib.Algebra.Order.BigOperators.Group.List
import Mastermind.ConfigMerge.Theorems.IniText

open Agent Trim

namespace ConfigMerge

variable {lower : Char → Char} {name line x : Text} {e : IniEntry}

-- The lines of a text that are not blank, without the white space around them.
def nonBlank (s : Text) : List Text :=
  ((s.splitOn '\n').map trimSpace).filter (· ≠ [])

-- What follows the separator of an entry and its blanks.
def IniEntry.rest (e : IniEntry) : Text :=
  (trimSpace e.raw).drop (e.key ++ e.sep).length

-- Every header is written as it is rebuilt, and what the last section of a name gives a key last is
-- what stands at the key.
structure Repeatable (lower : Char → Char) (x : Text) : Prop where
  header : ∀ line ∈ x.splitOn '\n', ∀ name, parseLine line = .header name →
    name ≠ [] ∧ trimSpace line = ['['] ++ name ++ [']']
  entry  : ∀ sec ∈ (parseINI x).1, ∀ e ∈ sec.entries, ∀ v,
    liveKV lower (liveIndex lower (parseINI x).1 (toLower lower sec.name)) (toLower lower e.key) =
      some v → v = e.rest

theorem flatMap_eq_flatMap_iff {α β : Type} {l : List α} {f g : α → List β}
    (h : ∀ a ∈ l, (f a).length ≤ (g a).length) :
    l.flatMap f = l.flatMap g ↔ ∀ a ∈ l, f a = g a := by
  constructor
  case mpr => exact List.flatMap_congr
  case mp =>
    induction l
    case nil => exact fun _ _ h => nomatch h
    case cons a l hi =>
      intro he
      have ⟨ha, hl⟩ := List.forall_mem_cons.mp h
      have hs : (l.flatMap f).length ≤ (l.flatMap g).length := by
        simp only [List.length_flatMap]
        exact List.sum_le_sum hl
      have hs' := congrArg List.length he
      simp only [List.flatMap_cons, List.length_append] at he hs'
      have ⟨h₁, h₂⟩ := List.append_inj he (by omega)
      exact List.forall_mem_cons.mpr ⟨h₁, hi hl h₂⟩

theorem KeyLine.rest_eq {c : Char} {blanks after : Text} (h : KeyLine line e c blanks after)
    (hr : e.raw = line) : e.rest = after.dropWhile (· = ' ') := by
  have ha : after = after.takeWhile (· = ' ') ++ after.dropWhile (· = ' ') :=
    List.takeWhile_append_dropWhile.symm
  have ht : trimSpace line = e.key ++ e.sep ++ after.dropWhile (· = ' ') := by
    rw [h.trimmed, h.sep]
    nth_rewrite 1 [ha]
    simp
  rw [IniEntry.rest, hr, ht, List.drop_left]

-- A line keeps its text if and only if the value that is written is the one that is there.
theorem KeyLine.written_eq_iff {c : Char} {blanks after v : Text}
    (h : KeyLine line e c blanks after) (hr : e.raw = line) (hv : Trimmed isSpace v) :
    trimSpace (e.key ++ e.sep ++ v) = trimSpace line ↔ v = e.rest := by
  have ha : after.takeWhile (· = ' ') ++ after.dropWhile (· = ' ') = after :=
    List.takeWhile_append_dropWhile
  have hs : ∀ d ∈ after.takeWhile (· = ' '), isSpace d := by
    intro d hd
    have hd := List.mem_takeWhile_imp hd
    rw [of_decide_eq_true hd]
    rfl
  have hw : e.key ++ e.sep ++ v = e.key ++ blanks ++ c :: (after.takeWhile (· = ' ') ++ v) := by
    rw [h.sep]
    simp
  rw [hw, h.trimSpace_append, h.trimmed, h.rest_eq hr, List.append_cancel_left_eq, List.cons.injEq,
    and_iff_right rfl]
  constructor
  case mp =>
    intro he
    by_cases hn : v = []
    case pos =>
      rw [hn, List.append_nil, List.rdropWhile_eq_nil_iff.mpr hs] at he
      rw [hn]
      exact (List.append_eq_nil_iff.mp (ha.trans he.symm)).right.symm
    case neg =>
      have hl : ∀ d ∈ (after.takeWhile (· = ' ') ++ v).getLast?, isSpace d = false := by
        rw [List.getLast?_append_of_ne_nil _ hn]
        exact hv.last
      rw [rdropWhile_last hl] at he
      exact List.append_cancel_left (he.trans ha.symm)
  case mpr =>
    intro he
    rw [he, ha]
    refine rdropWhile_last fun d hd => ?_
    have ht := (trimmed_trimSpace (s := line)).last d
    rw [h.trimmed, List.getLast?_append_of_ne_nil _ (List.cons_ne_nil _ _)] at ht
    refine ht ?_
    rw [List.getLast?_cons]
    rw [Option.mem_def] at hd
    rw [hd]
    rfl

theorem filter_singleton_eq_iff {a b : Text} :
    [a].filter (· ≠ []) = [b].filter (· ≠ []) ↔ a = b := by
  by_cases ha : a = [] <;> by_cases hb : b = [] <;> simp [ha, hb, eq_comm]

-- A line of the text, as it is written and as it is.
theorem lines_eq_iff :
    ((written lower (parseINI x).1 (name, line)).map trimSpace).filter (· ≠ []) =
        [trimSpace line].filter (· ≠ []) ↔
      (∀ n, parseLine line = .header n → n ≠ [] ∧ trimSpace line = ['['] ++ n ++ [']']) ∧
      ∀ e, parseLine line = .entry e → ∀ v,
        taken lower (parseINI x).1 name (toLower lower e.key) = some v → v = e.rest := by
  rw [written, ofLine]
  have hv := lineView line
  cases hp : parseLine line <;> rw [hp] at hv
  case header n =>
    simp only [IniLine.header.injEq, reduceCtorEq, false_implies, implies_true, and_true,
      forall_eq', headerLines]
    cases hv
    case header after ht _ _ _ =>
      by_cases hn : n = []
      case pos => simp [hn, ht]
      case neg =>
        rw [if_pos hn, List.map_singleton, filter_singleton_eq_iff, and_iff_right hn]
        exact Eq.congr_left trimSpace_header |>.trans eq_comm
  case entry e =>
    simp only [IniLine.entry.injEq, reduceCtorEq, false_implies, forall_const, true_and,
      forall_eq', writtenEntry, List.map_singleton, filter_singleton_eq_iff]
    cases hv
    case blank ht =>
      refine iff_of_true ?_ fun v hv => by cases taken_nil.symm.trans hv
      simp [mergeEntry, ht]
    case comment =>
      refine iff_of_true ?_ fun v hv => by cases taken_nil.symm.trans hv
      simp [mergeEntry]
    case key hl hr _ _ =>
      obtain ⟨hk, ht, hw⟩ | ⟨v, hk, hv, hw⟩ | ⟨hn, hw⟩ :=
        mergeEntry_cases lower hp (taken lower (parseINI x).1 name) taken_nil
      case inl => simp [hw, ht, taken_toLower_nil hk]
      case inr.inl =>
        rw [hw, hl.written_eq_iff hr (trimmed_of_taken hv).1, hv]
        simp
      case inr.inr =>
        refine iff_of_true (by rw [hw]) fun v hv => ?_
        by_cases hk : e.key = []
        case pos => cases (taken_toLower_nil hk).symm.trans hv
        case neg => cases (hn hk).symm.trans hv

-- A file keeps its lines in a merge with itself if and only if it is repeatable.
theorem merge_self_keeps_iff (lower : Char → Char) (path x : Text) :
    nonBlank (mergeINI lower path x x).mergedContent = nonBlank x ↔ Repeatable lower x := by
  have hm : nonBlank (mergeINI lower path x x).mergedContent =
      (sectioned [] (x.splitOn '\n')).flatMap fun l =>
        ((written lower (parseINI x).1 l).map trimSpace).filter (· ≠ []) := by
    rw [nonBlank, splitOn_mergedContent]
    simp [List.map_flatMap, List.filter_flatMap]
  have hx : nonBlank x =
      (sectioned [] (x.splitOn '\n')).flatMap fun l => [trimSpace l.2].filter (· ≠ []) := by
    rw [nonBlank, ← List.filter_flatMap, ← List.map_eq_flatMap]
    nth_rewrite 1 [← map_snd_sectioned [] (x.splitOn '\n')]
    rw [List.map_map]
    rfl
  have hl : ∀ l ∈ sectioned [] (x.splitOn '\n'),
      (((written lower (parseINI x).1 l).map trimSpace).filter (· ≠ [])).length ≤
        ([trimSpace l.2].filter (· ≠ [])).length := by
    intro (name, line) _
    by_cases ht : trimSpace line = []
    case pos =>
      have hw : written lower (parseINI x).1 (name, line) = [[]] := by
        rw [written, ofLine, parseLine_nil ht]
        rfl
      simp [hw]
    case neg =>
      have hr : [trimSpace line].filter (· ≠ []) = [trimSpace line] := by simp [ht]
      rw [hr]
      refine (List.length_filter_le ..).trans ?_
      rw [List.length_map]
      exact length_written
  rw [hm, hx, flatMap_eq_flatMap_iff hl]
  constructor
  case mp =>
    intro h
    refine ⟨fun line hl n hp => ?_, fun sec hs e he v hv => ?_⟩
    · obtain ⟨name, hl⟩ := sectioned_of_mem_lines [] hl
      exact (lines_eq_iff.mp (h _ hl)).left n hp
    · obtain ⟨line, hl, hp⟩ := entry_mem_iff.mp ⟨sec, hs, rfl, he⟩
      exact (lines_eq_iff.mp (h _ hl)).right e hp v hv
  case mpr =>
    intro h (name, line) hl
    refine lines_eq_iff.mpr ⟨fun n hp => ?_, fun e hp v hv => ?_⟩
    · exact h.header line (mem_lines_of_sectioned hl) n hp
    · obtain ⟨sec, hs, hn, he⟩ := entry_mem_iff.mpr ⟨line, hl, hp⟩
      exact h.entry sec hs e he v (hn ▸ hv)

-- An array of tables: each header is rebuilt without its second bracket.
theorem merge_self_breaks : ¬∀ (lower : Char → Char) (path x : Text),
    nonBlank (mergeINI lower path x x).mergedContent = nonBlank x := by
  intro h
  exact absurd (h Char.toLower "mods.toml".toList "[[mods]]\nid = 1\n[[mods]]\nid = 2".toList)
    (by decide +kernel)

end ConfigMerge
