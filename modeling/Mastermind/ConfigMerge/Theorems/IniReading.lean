import Mastermind.ConfigMerge.Theorems.IniText

open Agent Trim

namespace ConfigMerge

variable {lower : Char → Char} {own name line x tmpl : Text} {lines : List Text}
variable {live : List IniSection} {e : IniEntry} {c : Char} {blanks after v : Text}

-- The key and the value that are read from an entry that is written with another value. The
-- separator is the first `=`, if there is one.
def readBack (e : IniEntry) (v : Text) : Text × Text :=
  if '=' ∈ e.sep ∨ '=' ∉ v then (e.key, v)
  else
    (trimSpace (e.key ++ e.sep ++ v.takeWhile (· ≠ '=')),
      trimSpace ((v.dropWhile (· ≠ '=')).drop 1))

theorem trimSpace_append_blanks (hk : Trimmed isSpace x) (hn : x ≠ [])
    (hb : ∀ d ∈ blanks, isSpace d) : trimSpace (x ++ blanks) = x := by
  have hh : ∀ d ∈ (x ++ blanks).head?, isSpace d = false := by
    rw [List.head?_append_of_ne_nil _ hn]
    exact hk.head
  rw [trimSpace, trim_of_head hh, rdropWhile_append hb, rdropWhile_last hk.last]

theorem rdropWhile_blanks (hv : Trimmed isSpace v) (hn : v ≠ []) :
    (blanks ++ v).rdropWhile isSpace = blanks ++ v := by
  apply rdropWhile_last
  rw [List.getLast?_append_of_ne_nil _ hn]
  exact hv.last

theorem trimSpace_blanks (hv : Trimmed isSpace v) (hb : ∀ d ∈ blanks, isSpace d) :
    trimSpace ((blanks ++ v).rdropWhile isSpace) = v := by
  by_cases hn : v = []
  case pos =>
    rw [hn, List.append_nil, List.rdropWhile_eq_nil_iff.mpr hb]
    rfl
  case neg => rw [rdropWhile_blanks hv hn, trimSpace, trim_append_left hb, hv.trim]

theorem isSpace_blanks : ∀ d ∈ after.takeWhile (· = ' '), isSpace d := by
  intro d hd
  have hd := List.mem_takeWhile_imp hd
  rw [of_decide_eq_true hd]
  rfl

theorem notMem_blanks {s : Text} (h : ∀ d ∈ s, isSpace d) (hc : isSpace c = false) : c ∉ s :=
  fun hm => nomatch hc.symm.trans (h c hm)

-- What is read from a key line that is written with another value.
theorem KeyLine.parseLine_append (h : KeyLine line e c blanks after) (hk : e.key ≠ [])
    (hv : Trimmed isSpace v) :
    ∃ e', parseLine (e.key ++ e.sep ++ v) = .entry e' ∧
      e'.key = (readBack e v).1 ∧ e'.value = (readBack e v).2 := by
  have hw : e.key ++ e.sep ++ v = e.key ++ blanks ++ c :: (after.takeWhile (· = ' ') ++ v) := by
    rw [h.sep]
    simp
  have ht := h.trimSpace_append (after.takeWhile (· = ' ') ++ v)
  rw [← hw] at ht
  have hd : ∀ d ∈ (trimSpace (e.key ++ e.sep ++ v)).head?, d ≠ '#' ∧ d ≠ ';' ∧ d ≠ '[' := by
    rw [ht, head?_append_cons, ← h.trimmed]
    exact h.head
  have hb : '=' ∉ blanks ∧ ':' ∉ blanks :=
    ⟨notMem_blanks h.blank rfl, notMem_blanks h.blank rfl⟩
  have hn : '=' ∉ after.takeWhile (· = ' ') := notMem_blanks isSpace_blanks rfl
  rw [readBack]
  split
  case isTrue hs =>
    have hc : c = '=' ∧ '=' ∉ e.key ++ blanks ∨ c = ':' ∧ ':' ∉ e.key ++ blanks ∧
        '=' ∉ e.key ++ blanks ∧ '=' ∉ (after.takeWhile (· = ' ') ++ v).rdropWhile isSpace := by
      cases h.kind
      case inl hc => exact .inl ⟨hc.left, by simp [hc.right, hb]⟩
      case inr hc =>
        have he : '=' ∉ v := hs.resolve_left (by simp [h.sep, hc.left, hb, hn])
        refine .inr ⟨hc.left, by simp [hc, hb], by simp [hc, hb], fun hm => ?_⟩
        have hm := (List.rdropWhile_prefix _ _).subset hm
        exact (List.mem_append.mp hm).elim hn he
    refine ⟨_, parseLine_of_cut ht hc hd, ?_, ?_⟩
    · rw [ht, keyEntry_key, trimSpace_append_blanks h.key hk h.blank]
    · rw [ht, keyEntry_value, trimSpace_blanks hv isSpace_blanks]
  case isFalse hs =>
    have ⟨hs, he⟩ := not_or.mp hs
    have he : '=' ∈ v := not_not.mp he
    have ⟨b, a, hv', hb'⟩ := List.eq_append_cons_of_mem he
    have hc : c = ':' ∧ '=' ∉ e.key := by
      cases h.kind
      case inl hc => exact absurd (by simp [h.sep, hc.left]) hs
      case inr hc => exact ⟨hc.left, hc.right.right.left⟩
    have hw' : e.key ++ e.sep ++ v = (e.key ++ e.sep ++ b) ++ '=' :: a := by
      rw [hv', List.append_assoc (e.key ++ e.sep)]
    have hv₀ : v ≠ [] := fun hv₀ => by simp [hv₀] at he
    rw [rdropWhile_blanks hv hv₀, ← hw, hw'] at ht
    have hb'' : ∀ d ∈ b, decide (d ≠ '=') = true := fun d hd =>
      decide_eq_true fun hd' => hb' (hd' ▸ hd)
    have hp : v.takeWhile (· ≠ '=') = b := by
      rw [hv', List.takeWhile_append_of_pos hb'', List.takeWhile_cons_of_neg (by simp),
        List.append_nil]
    have hq : (v.dropWhile (· ≠ '=')).drop 1 = a := by
      rw [hv', List.dropWhile_append_of_pos hb'', List.dropWhile_cons_of_neg (by simp)]
      rfl
    rw [hw'] at hd ⊢
    rw [hp, hq]
    have hp' := parseLine_of_cut ht (.inl ⟨rfl, by simp [hb', hs, hc]⟩) hd
    exact ⟨_, hp', by rw [ht, keyEntry_key], by rw [ht, keyEntry_value]⟩

theorem readBack_key_ne_nil (h : KeyLine line e c blanks after) (hk : e.key ≠ []) :
    (readBack e v).1 ≠ [] := by
  rw [readBack]
  split
  case isTrue => exact hk
  case isFalse =>
    have ⟨d, key, hd⟩ := List.exists_cons_of_ne_nil hk
    have hh : isSpace d = false := h.key.head d (by rw [hd]; rfl)
    rw [hd, trimSpace, trim_of_head fun d' hd' => Option.mem_some.mp hd' ▸ hh]
    exact fun hn => by simp [List.rdropWhile_eq_nil_iff.mp hn d (by simp)] at hh

-- What is read for an entry after it has been written under a header.
def rereadEntry (lower : Char → Char) (live : List IniSection) (own under : Text) (e : IniEntry) :
    List Setting :=
  if e.key = [] then []
  else
    match taken lower live own (toLower lower e.key) with
    | some v => [⟨under, (readBack e v).1, (readBack e v).2⟩]
    | none   => [⟨under, e.key, e.value⟩]

-- What is read for lines after they have been written. A header without a name is not written.
def rereadLines (lower : Char → Char) (live : List IniSection) (own under : Text) :
    List Text → List Setting
  | []            => []
  | line :: lines =>
    match parseLine line with
    | .entry e     => rereadEntry lower live own under e ++ rereadLines lower live own under lines
    | .header name =>
      rereadLines lower live name (if name = [] then under else name) lines

theorem writtenEntry_read (lower : Char → Char) (x : Text) (hp : parseLine line = .entry e)
    (own under : Text) :
    ∃ w e', writtenEntry lower (parseINI x).1 own e = [w] ∧ parseLine w = .entry e' ∧
      entrySetting under e' = rereadEntry lower (parseINI x).1 own under e := by
  refine ⟨(mergeEntry lower (taken lower (parseINI x).1 own) e).1, ?_⟩
  obtain ⟨hk, ht, hw⟩ | ⟨v, hk, hv, hw⟩ | ⟨hn, hw⟩ :=
    mergeEntry_cases lower hp (taken lower (parseINI x).1 own) taken_nil
  case inl =>
    refine ⟨_, rfl, by rw [hw]; exact parseLine_nil rfl, ?_⟩
    rw [rereadEntry, if_pos hk]
    rfl
  case inr.inl =>
    cases lineView_of hp
    case key hl _ _ _ =>
      have ⟨e', he, hk', hv'⟩ := hl.parseLine_append hk (trimmed_of_taken hv).1
      refine ⟨e', rfl, hw ▸ he, ?_⟩
      rw [entrySetting, rereadEntry, if_neg hk, hv, hk', hv', if_pos (readBack_key_ne_nil hl hk)]
    all_goals exact absurd rfl hk
  case inr.inr =>
    refine ⟨e, rfl, hw ▸ hp, ?_⟩
    rw [entrySetting, rereadEntry]
    by_cases hk : e.key = []
    case pos => simp [hk]
    case neg => simp [hk, hn hk]

theorem lineSettings_entry (hp : parseLine line = .entry e) :
    (sectioned name (line :: lines)).flatMap lineSettings =
      entrySetting name e ++ (sectioned name lines).flatMap lineSettings := by
  rw [sectioned, sectionAfter, hp, List.flatMap_cons, lineSettings, ofLine, hp]

theorem lineSettings_header {header : Text} (hp : parseLine line = .header header) :
    (sectioned name (line :: lines)).flatMap lineSettings =
      (sectioned header lines).flatMap lineSettings := by
  rw [sectioned, sectionAfter, hp, List.flatMap_cons, lineSettings, ofLine, hp]
  rfl

theorem header_of_line {header : Text} (hp : parseLine line = .header header) :
    Trimmed isSpace header ∧ ']' ∉ header := by
  cases lineView_of hp
  case header hn hb => exact ⟨hn, hb⟩

theorem reread_written (own under : Text) (lines : List Text) :
    (sectioned under ((sectioned own lines).flatMap (written lower (parseINI x).1) ++ [[]])).flatMap
      lineSettings = rereadLines lower (parseINI x).1 own under lines := by
  induction lines generalizing own under
  case nil => rfl
  case cons line lines hi =>
    rw [sectioned, sectionAfter, List.flatMap_cons, rereadLines, written, ofLine, ← written]
    cases hp : parseLine line
    case entry e =>
      obtain ⟨w, e', hw, hp', hs⟩ := writtenEntry_read lower x hp own under
      change (sectioned under (writtenEntry .. ++ _ ++ _)).flatMap _ = _
      rw [hw, List.singleton_append, List.cons_append, lineSettings_entry hp', hi, hs]
    case header header =>
      obtain ⟨hn, hb⟩ := header_of_line hp
      change (sectioned under (headerLines header ++ _ ++ _)).flatMap _ = rereadLines ..
      rw [headerLines]
      split
      case isTrue h =>
        have hw : parseLine (['['] ++ header ++ [']']) = .header header := parseLine_header hn hb
        rw [List.singleton_append, List.cons_append, lineSettings_header hw, hi]
      case isFalse h => rw [if_pos (not_not.mp h), List.nil_append, hi]

-- What is read from the merged text.
theorem settings_mergeINI (lower : Char → Char) (path tmpl live : Text) :
    settings (parseINI (mergeINI lower path tmpl live).mergedContent).1 =
      rereadLines lower (parseINI live).1 [] [] (tmpl.splitOn '\n') := by
  rw [settings_parseINI, splitOn_mergedContent, reread_written]

end ConfigMerge
