import Mastermind.ConfigMerge.Theorems.IniReading

open Agent Trim

namespace ConfigMerge

variable {lower : Char → Char} {name line x tmpl key : Text} {lines : List Text} {s r : Setting}
variable {live : List IniSection} {e : IniEntry}

-- The settings of two texts that are the same up to case.
def Setting.same (lower : Char → Char) (s r : Setting) : Bool :=
  toLower lower r.sec = toLower lower s.sec && toLower lower r.key = toLower lower s.key

-- A setting of the template with its value in the live text, if it is there.
def carry (lower : Char → Char) (live : List Setting) (s : Setting) : Setting :=
  match live.find? (s.same lower) with
  | some r => { s with value := r.value }
  | none   => s

-- The headers of a template have names, and its keys are followed by `=`.
structure Plain (tmpl : Text) : Prop where
  header : ∀ line ∈ tmpl.splitOn '\n', parseLine line ≠ .header []
  key    : ∀ sec ∈ (parseINI tmpl).1, ∀ e ∈ sec.entries, ¬e.isBlank → ¬e.isComment →
    e.key ≠ [] ∧ '=' ∈ e.sep

-- No section occurs twice, and no key occurs twice in a section.
structure Unrepeated (lower : Char → Char) (x : Text) : Prop where
  sec : ((parseINI x).1.map fun sec => toLower lower sec.name).Nodup
  key : ∀ sec ∈ (parseINI x).1,
    ((sec.entries.filter (·.key ≠ [])).map fun e => toLower lower e.key).Nodup

theorem mem_settings {sections : List IniSection} : s ∈ settings sections ↔
    ∃ sec ∈ sections, ∃ e ∈ sec.entries, e.key ≠ [] ∧ s = ⟨sec.name, e.key, e.value⟩ := by
  simp only [settings, List.mem_flatMap, entrySetting]
  refine exists_congr fun sec => and_congr_right fun _ => exists_congr fun e =>
    and_congr_right fun _ => ?_
  split
  case isTrue h  => simp [h]
  case isFalse h => simp [h]

-- Without repetitions, it does not matter which value of a key is the last one.
theorem taken_eq (h : Unrepeated lower x) :
    taken lower (parseINI x).1 s.sec (toLower lower s.key) =
      ((settings (parseINI x).1).find? (s.same lower)).map (·.value) := by
  cases hf : (settings (parseINI x).1).find? (s.same lower)
  case none =>
    have hn := List.find?_eq_none.mp hf
    cases ht : taken lower (parseINI x).1 s.sec (toLower lower s.key)
    case none => rfl
    case some v =>
      have ⟨sec, hs, hn', e, he, hk, hl, _⟩ := taken_some ht
      have hm := mem_settings.mpr ⟨sec, hs, e, he, hk, rfl⟩
      exact absurd (by simp [Setting.same, hn', hl]) (hn _ hm)
  case some r =>
    have ⟨sec, hs, e, he, hk, hr⟩ := mem_settings.mp (List.mem_of_find?_eq_some hf)
    have hm := List.find?_some hf
    rw [hr, Setting.same, Bool.and_eq_true, decide_eq_true_iff, decide_eq_true_iff] at hm
    have hi : liveIndex lower (parseINI x).1 (toLower lower s.sec) = some sec := by
      refine Index.fill_of_nodup ?_ (List.mem_map.mpr ⟨sec, hs, by rw [hm.left]⟩)
      rw [List.map_map]
      exact h.sec
    rw [taken, hi, hr, liveKV, Option.map_some, Option.map_some, Option.getD_some]
    refine Index.fill_of_nodup ?_ (List.mem_map.mpr ⟨e, ?_, by rw [hm.right]⟩)
    · rw [List.map_map]
      exact h.key sec hs
    · exact List.mem_filter.mpr ⟨he, decide_eq_true hk⟩

theorem rereadEntry_eq (h : Unrepeated lower x) (he : e.key ≠ [] → '=' ∈ e.sep) :
    rereadEntry lower (parseINI x).1 name name e =
      (entrySetting name e).map (carry lower (settings (parseINI x).1)) := by
  rw [rereadEntry, entrySetting]
  by_cases hk : e.key = []
  case pos => simp [hk]
  case neg =>
    have ht := taken_eq h (s := ⟨name, e.key, e.value⟩)
    rw [if_neg hk, if_pos hk, ht, List.map_singleton, carry]
    cases (settings (parseINI x).1).find? (Setting.same lower ⟨name, e.key, e.value⟩)
    case none   => rfl
    case some r => simp [readBack, he hk]

-- Lines that begin no section without a name are read again in their own sections.
theorem rereadLines_eq (h : Unrepeated lower x)
    (hh : ∀ line ∈ lines, parseLine line ≠ .header [])
    (hk : ∀ line ∈ lines, ∀ e, parseLine line = .entry e → e.key ≠ [] → '=' ∈ e.sep) :
    rereadLines lower (parseINI x).1 name name lines =
      ((sectioned name lines).flatMap lineSettings).map
        (carry lower (settings (parseINI x).1)) := by
  induction lines generalizing name
  case nil => rfl
  case cons line lines hi =>
    have ⟨hl, hh⟩ := List.forall_mem_cons.mp hh
    have ⟨he, hk⟩ := List.forall_mem_cons.mp hk
    rw [rereadLines]
    cases hp : parseLine line
    case entry e =>
      rw [lineSettings_entry hp, List.map_append, ← rereadEntry_eq h (he e hp), ← hi hh hk]
    case header header =>
      have hn : header ≠ [] := fun hn => hl (hn ▸ hp)
      simp only [if_neg hn]
      rw [lineSettings_header hp, hi hh hk]

-- The merged text has the settings of the template, with the values that are live.
theorem merge_means (lower : Char → Char) (path tmpl live : Text) (ht : Plain tmpl)
    (hl : Unrepeated lower live) :
    settings (parseINI (mergeINI lower path tmpl live).mergedContent).1 =
      (settings (parseINI tmpl).1).map (carry lower (settings (parseINI live).1)) := by
  rw [settings_mergeINI, settings_parseINI tmpl]
  refine rereadLines_eq hl ht.header fun line hm e hp hk => ?_
  have ⟨name, hm⟩ := sectioned_of_mem_lines [] hm
  have ⟨sec, hs, _, he⟩ := entry_mem_iff.mpr ⟨line, hm, hp⟩
  have ⟨_, _, _, _, hb⟩ := parts_of_entry hp
  have hb := hb hk
  exact (ht.key sec hs e he (by simp [hb]) (by simp [hb])).right

theorem merge_means_world :
    settings (parseINI (mergeINI Char.toLower "server.properties".toList
        "# Defaults\nmotd = A = B\n[World]\nseed=\npvp = on".toList
        "[WORLD]\nPvP: off\nold = 1".toList).mergedContent).1 =
      (settings (parseINI "# Defaults\nmotd = A = B\n[World]\nseed=\npvp = on".toList).1).map
        (carry Char.toLower (settings (parseINI "[WORLD]\nPvP: off\nold = 1".toList).1)) :=
  merge_means _ _ _ _ ⟨by decide +kernel, by decide +kernel⟩ ⟨by decide +kernel, by decide +kernel⟩

end ConfigMerge
