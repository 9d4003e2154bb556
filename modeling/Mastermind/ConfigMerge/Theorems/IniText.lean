import Mastermind.ConfigMerge.Theorems.IniLines
import Mastermind.Text.Lines

open Agent Trim

namespace ConfigMerge

variable {lower : Char → Char} {name line x : Text} {lines : List Text} {live : List IniSection}
variable {e : IniEntry} {v w : Text}

-- The section in which a line is. A header is in the section that it begins.
def sectionAfter (name line : Text) : Text :=
  match parseLine line with
  | .entry _     => name
  | .header name => name

-- Lines with the names of their sections.
def sectioned (name : Text) : List Text → List (Text × Text)
  | []            => []
  | line :: lines =>
    (sectionAfter name line, line) :: sectioned (sectionAfter name line) lines

theorem map_snd_sectioned (name : Text) (lines : List Text) :
    (sectioned name lines).map Prod.snd = lines := by
  induction lines generalizing name
  case nil          => rfl
  case cons line lines hi => exact congrArg (line :: ·) (hi _)

-- What comes from a line, if it comes from an entry or from a header.
def ofLine {β : Type} (header : Text → List β) (entry : Text → IniEntry → List β) :
    Text × Text → List β
  | (name, line) =>
    match parseLine line with
    | .entry e     => entry name e
    | .header name => header name

-- What comes from the sections of a text comes from its lines.
theorem flatMap_parseLines {β : Type} (header : Text → List β)
    (entry : Text → IniEntry → List β) (current : IniSection) (lines : List Text) :
    (parseLines current lines).flatMap (fun sec =>
        header sec.name ++ sec.entries.flatMap (entry sec.name)) =
      header current.name ++ current.entries.flatMap (entry current.name) ++
        (sectioned current.name lines).flatMap (ofLine header entry) := by
  induction lines generalizing current
  case nil => simp [parseLines, sectioned]
  case cons line lines hi =>
    rw [parseLines, sectioned, List.flatMap_cons, ofLine, sectionAfter]
    cases parseLine line
    case entry e => simp [hi]
    case header name => simp [hi]

-- A key with its value and the section in which it is.
structure Setting where
  sec   : Text
  key   : Text
  value : Text
  deriving DecidableEq

def entrySetting (name : Text) (e : IniEntry) : List Setting :=
  if e.key ≠ [] then [⟨name, e.key, e.value⟩] else []

def settings (sections : List IniSection) : List Setting :=
  sections.flatMap fun sec => sec.entries.flatMap (entrySetting sec.name)

def lineSettings : Text × Text → List Setting :=
  ofLine (fun _ => []) entrySetting

theorem settings_parseINI (x : Text) :
    settings (parseINI x).1 = (sectioned [] (x.splitOn '\n')).flatMap lineSettings :=
  flatMap_parseLines (fun _ => []) entrySetting { name := [] } (x.splitOn '\n')

-- The values that are taken for the keys of a section of the template.
def taken (lower : Char → Char) (live : List IniSection) (name : Text) : Text → Option Text :=
  liveKV lower (liveIndex lower live (toLower lower name))

def writtenEntry (lower : Char → Char) (live : List IniSection) (name : Text) (e : IniEntry) :
    List Text :=
  [(mergeEntry lower (taken lower live name) e).1]

def written (lower : Char → Char) (live : List IniSection) : Text × Text → List Text :=
  ofLine headerLines (writtenEntry lower live)

theorem length_written : (written lower live (name, line)).length ≤ 1 := by
  rw [written, ofLine]
  cases parseLine line
  case entry => exact le_rfl
  case header name =>
    change (headerLines name).length ≤ 1
    rw [headerLines]
    split
    case isTrue  => exact le_rfl
    case isFalse => exact Nat.zero_le _

theorem mergedContent_eq (path tmpl live : Text) :
    (mergeINI lower path tmpl live).mergedContent =
      ((sectioned [] (tmpl.splitOn '\n')).flatMap (written lower (parseINI live).1)).flatMap
        (· ++ ['\n']) := by
  have hs (sec : IniSection) : (mergeSection lower (parseINI live).1 sec).1 =
      headerLines sec.name ++ sec.entries.flatMap
        (writtenEntry lower (parseINI live).1 sec.name) := by
    have hw : writtenEntry lower (parseINI live).1 sec.name = fun e =>
        [(mergeEntry lower (taken lower (parseINI live).1 sec.name) e).1] := rfl
    rw [hw, ← List.map_eq_flatMap]
    simp [mergeSection, taken]
  have h := flatMap_parseLines headerLines (writtenEntry lower (parseINI live).1)
    { name := [] } (tmpl.splitOn '\n')
  simp only [← hs] at h
  change (((parseINI tmpl).1.map _).flatMap Prod.fst).flatMap _ = _
  rw [List.flatMap_map]
  exact congrArg (List.flatMap (· ++ ['\n'])) h

theorem mem_lines_of_sectioned (h : (name, line) ∈ sectioned w lines) : line ∈ lines := by
  rw [← map_snd_sectioned w lines]
  exact List.mem_map_of_mem h

-- The entries of the sections are those of the lines in them.
theorem entry_mem_iff : (∃ sec ∈ (parseINI x).1, sec.name = name ∧ e ∈ sec.entries) ↔
    ∃ line, (name, line) ∈ sectioned [] (x.splitOn '\n') ∧ parseLine line = .entry e := by
  have h : (parseINI x).1.flatMap (fun sec => [] ++ sec.entries.flatMap fun e => [(sec.name, e)]) =
      (sectioned [] (x.splitOn '\n')).flatMap (ofLine (fun _ => []) fun name e => [(name, e)]) :=
    flatMap_parseLines (fun _ => []) (fun name e => [(name, e)]) { name := [] } _
  have h := congrArg ((name, e) ∈ ·) h
  simp only [List.nil_append, List.mem_flatMap, List.mem_singleton, Prod.mk.injEq, Prod.exists,
    eq_iff_iff] at h
  constructor
  case mp =>
    intro ⟨sec, hs, hn, he⟩
    have ⟨name', line, hl, hm⟩ := h.mp ⟨sec, hs, e, he, hn.symm, rfl⟩
    rw [ofLine] at hm
    cases hp : parseLine line
    case header => simp [hp] at hm
    case entry e' =>
      simp only [hp, List.mem_singleton, Prod.mk.injEq] at hm
      rw [hm.left, hm.right]
      exact ⟨line, hl, hp⟩
  case mpr =>
    intro ⟨line, hl, hp⟩
    have ⟨sec, hs, e', he, hn, hee⟩ := h.mpr ⟨name, line, hl, by simp [ofLine, hp]⟩
    exact ⟨sec, hs, hn.symm, hee ▸ he⟩

theorem sectioned_of_mem_lines (w : Text) (h : line ∈ lines) :
    ∃ name, (name, line) ∈ sectioned w lines := by
  rw [← map_snd_sectioned w lines] at h
  have ⟨(name, _), hl, hn⟩ := List.mem_map.mp h
  exact ⟨name, hn ▸ hl⟩

theorem line_of_entry {sec : IniSection} (hs : sec ∈ (parseINI x).1) (he : e ∈ sec.entries) :
    ∃ line ∈ x.splitOn '\n', parseLine line = .entry e :=
  have ⟨line, hl, hp⟩ := entry_mem_iff.mp ⟨sec, hs, rfl, he⟩
  ⟨line, mem_lines_of_sectioned hl, hp⟩

-- The parts of an entry are parts of its line.
theorem parts_of_entry (h : parseLine line = .entry e) :
    e.raw = line ∧ Trimmed isSpace e.value ∧ e.value ⊆ line ∧ e.key ++ e.sep ⊆ line ∧
      (e.key ≠ [] → e.isBlank = false ∧ e.isComment = false) := by
  have hn : Trimmed isSpace ([] : Text) := ⟨nofun, nofun⟩
  cases lineView_of h
  case blank | comment =>
    exact ⟨rfl, hn, List.nil_subset _, List.nil_subset _, fun hk => absurd rfl hk⟩
  case key c blanks after hk hr hb hc =>
    have hl : trimSpace line ⊆ line := trim_sublist.subset
    rw [hk.trimmed] at hl
    have ha : after ⊆ line := fun _ hm =>
      hl (List.mem_append_right _ (List.mem_cons_of_mem _ hm))
    refine ⟨hr, ?_, ?_, fun d hd => hl ?_, fun _ => ⟨hb, hc⟩⟩
    · rw [hk.value]
      exact trimmed_trimSpace
    · rw [hk.value]
      exact fun _ hm => ha (trim_sublist.subset hm)
    · rw [hk.sep, ← List.append_assoc] at hd
      have hs : (c :: after.takeWhile (· = ' ')) ⊆ c :: after :=
        (List.Sublist.cons_cons c (List.takeWhile_sublist _)).subset
      exact (List.mem_append.mp hd).elim (List.mem_append_left _)
        fun hd => List.mem_append_right _ (hs hd)

theorem taken_some (h : taken lower live name v = some w) :
    ∃ sec ∈ live, toLower lower sec.name = toLower lower name ∧
      ∃ e ∈ sec.entries, e.key ≠ [] ∧ toLower lower e.key = v ∧ e.value = w := by
  rw [taken, liveKV] at h
  have ⟨kv, hm, he⟩ := List.mem_map.mp (Index.mem_of_fill h)
  have ⟨hm, hk⟩ := List.mem_filter.mp hm
  cases hs : liveIndex lower live (toLower lower name)
  case none => simp [hs] at hm
  case some sec =>
    have ⟨sec', hs', heq⟩ := List.mem_map.mp (Index.mem_of_fill hs)
    have ⟨hn, hsec⟩ := Prod.mk.inj heq
    rw [hs, ← hsec] at hm
    cases he
    exact ⟨sec', hs', hn, kv, hm, of_decide_eq_true hk, rfl, rfl⟩

theorem trimmed_of_taken (h : taken lower (parseINI x).1 name v = some w) :
    Trimmed isSpace w ∧ '\n' ∉ w := by
  have ⟨sec, hs, _, e, he, _, _, hw⟩ := taken_some h
  have ⟨line, hl, hp⟩ := line_of_entry hs he
  have ⟨_, ht, hv, _, _⟩ := parts_of_entry hp
  rw [← hw]
  exact ⟨ht, fun hm => (Lines.mem_splitOn hl).left (hv hm)⟩

-- How an entry is written: as it is, or with the value of the live text.
theorem mergeEntry_cases (lower : Char → Char) (h : parseLine line = .entry e)
    (kvs : Text → Option Text) (hk : kvs [] = none) :
    (e.key = [] ∧ trimSpace line = [] ∧ (mergeEntry lower kvs e).1 = []) ∨
    (∃ v, e.key ≠ [] ∧ kvs (toLower lower e.key) = some v ∧
      (mergeEntry lower kvs e).1 = e.key ++ e.sep ++ v) ∨
    ((e.key ≠ [] → kvs (toLower lower e.key) = none) ∧ (mergeEntry lower kvs e).1 = line) := by
  cases lineView_of h
  case blank ht => exact .inl ⟨rfl, ht, rfl⟩
  case comment  => exact .inr (.inr ⟨fun hn => absurd rfl hn, rfl⟩)
  case key c blanks after hl hr hb hc =>
    refine .inr ?_
    simp only [mergeEntry, hb, hc, Bool.false_eq_true, if_false, hr]
    cases hv : kvs (toLower lower e.key)
    case none   => exact .inr ⟨fun _ => rfl, rfl⟩
    case some v =>
      have hn : e.key ≠ [] := by
        intro hn
        rw [hn] at hv
        exact absurd (hk.symm.trans hv) nofun
      exact .inl ⟨v, hn, rfl, rfl⟩

theorem taken_nil : taken lower live name [] = none := by
  cases h : taken lower live name []
  case none => rfl
  case some w =>
    have ⟨_, _, _, e, _, hk, hl, _⟩ := taken_some h
    exact absurd (List.map_eq_nil_iff.mp hl) hk

theorem newline_notMem_written (hn : '\n' ∉ line) {w : Text}
    (h : w ∈ written lower (parseINI x).1 (name, line)) : '\n' ∉ w := by
  rw [written, ofLine] at h
  cases hp : parseLine line
  case header n =>
    cases lineView_of hp
    case header after ht hs _ _ =>
      simp only [hp, headerLines] at h
      split at h
      case isFalse => nomatch h
      case isTrue =>
        have ha : '\n' ∉ after := fun hm =>
          hn (trim_sublist.subset (ht ▸ List.mem_cons_of_mem '[' hm : '\n' ∈ trimSpace line))
        have hs : '\n' ∉ n := fun hm => ha (hs.subset hm)
        rw [List.mem_singleton.mp h]
        simp [hs]
  case entry e =>
    have ⟨_, _, _, hs, _⟩ := parts_of_entry hp
    simp only [hp, writtenEntry, List.mem_singleton] at h
    obtain ⟨_, _, hw⟩ | ⟨v, _, hv, hw⟩ | ⟨_, hw⟩ :=
      mergeEntry_cases lower hp (taken lower (parseINI x).1 name) taken_nil
    case inl => rw [h, hw]; exact List.not_mem_nil
    case inr.inl =>
      rw [h, hw]
      exact fun hm => (List.mem_append.mp hm).elim (fun hm => hn (hs hm)) (trimmed_of_taken hv).2
    case inr.inr => rw [h, hw]; exact hn

theorem taken_toLower_nil (h : e.key = []) : taken lower live name
    (toLower lower e.key) = none := by
  rw [h]
  exact taken_nil

-- The lines of the merged text are those that are written for the lines of the template.
theorem splitOn_mergedContent (path tmpl live : Text) :
    (mergeINI lower path tmpl live).mergedContent.splitOn '\n' =
      (sectioned [] (tmpl.splitOn '\n')).flatMap (written lower (parseINI live).1) ++ [[]] := by
  rw [mergedContent_eq, Lines.splitOn_flatMap]
  intro w hw
  have ⟨⟨name, line⟩, hl, hw⟩ := List.mem_flatMap.mp hw
  exact newline_notMem_written (Lines.mem_splitOn (mem_lines_of_sectioned hl)).left hw

end ConfigMerge
