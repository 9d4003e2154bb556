import Mastermind.ConfigMerge.Theorems.IniMeaning

open Agent Trim

namespace ConfigMerge

variable {lower : Char → Char} {x under : Text} {lines : List Text} {s : Setting}
variable {tmpl live : List IniSection} {e : IniEntry} {current : IniSection}

-- The sections with the names under which they are written. A header without a name is not written,
-- so that its entries get to the section before it.
def writtenUnder (under : Text) : List IniSection → List (Text × IniSection)
  | []          => []
  | sec :: secs =>
    let under := if sec.name = [] then under else sec.name
    (under, sec) :: writtenUnder under secs

-- A setting of the live text that is neither in the template nor written is counted.
def counted (lower : Char → Char) (tmpl : List IniSection) (s : Setting) : Bool :=
  !tmplKeySet lower tmpl (toLower lower s.sec) (toLower lower s.key)

-- A line of the template brings a setting to the merged text. It has the key, and the last section
-- of its name gives this key last the value or does not give it any. A value with `=` tears a line
-- with another separator apart.
inductive Brings (lower : Char → Char) (live : List IniSection) (sec : IniSection) (e : IniEntry)
    (s : Setting) : Prop
  | kept (h : taken lower live sec.name (toLower lower e.key) = none)
      (key : toLower lower e.key = toLower lower s.key) (value : e.value = s.value)
  | taken (h : taken lower live sec.name (toLower lower e.key) = some s.value)
      (key : toLower lower e.key = toLower lower s.key) (sep : '=' ∈ e.sep ∨ '=' ∉ s.value)
  | torn {before after : Text}
      (h : taken lower live sec.name (toLower lower e.key) = some (before ++ '=' :: after))
      (sep : '=' ∉ e.sep ∧ '=' ∉ before)
      (key : toLower lower (trimSpace (e.key ++ e.sep ++ before)) = toLower lower s.key)
      (value : trimSpace after = s.value)

def Arrives (lower : Char → Char) (tmpl live : List IniSection) (s : Setting) : Prop :=
  ∃ under sec, (under, sec) ∈ writtenUnder [] tmpl ∧ toLower lower under = toLower lower s.sec ∧
    ∃ e ∈ sec.entries, e.key ≠ [] ∧ Brings lower live sec e s

theorem readBack_torn {before after : Text} (hs : '=' ∉ e.sep) (hb : '=' ∉ before) :
    readBack e (before ++ '=' :: after) =
      (trimSpace (e.key ++ e.sep ++ before), trimSpace after) := by
  have hb' : ∀ d ∈ before, decide (d ≠ '=') = true := fun d hd =>
    decide_eq_true fun hd' => hb (hd' ▸ hd)
  rw [readBack, if_neg (by simp [hs]), List.takeWhile_append_of_pos hb',
    List.dropWhile_append_of_pos hb', List.takeWhile_cons_of_neg (by simp),
    List.dropWhile_cons_of_neg (by simp), List.append_nil]
  rfl

theorem brings_iff {sec : IniSection} (under : Text) (hk : e.key ≠ []) :
    Brings lower live sec e s ↔ ∃ r ∈ rereadEntry lower live sec.name under e,
      toLower lower r.key = toLower lower s.key ∧ r.value = s.value := by
  rw [rereadEntry, if_neg hk]
  constructor
  case mp =>
    intro h
    cases h
    case kept h hk' hv => exact ⟨_, by rw [h]; exact List.mem_singleton_self _, hk', hv⟩
    case taken h hk' hs =>
      refine ⟨_, by rw [h]; exact List.mem_singleton_self _, ?_⟩
      rw [readBack, if_pos hs]
      exact ⟨hk', rfl⟩
    case torn h hs hk' hv =>
      refine ⟨_, by rw [h]; exact List.mem_singleton_self _, ?_⟩
      rw [readBack_torn hs.left hs.right]
      exact ⟨hk', hv⟩
  case mpr =>
    rintro ⟨r, hr, hk', hv⟩
    cases ht : taken lower live sec.name (toLower lower e.key)
    case none =>
      rw [ht] at hr
      cases List.mem_singleton.mp hr
      exact .kept ht hk' hv
    case some v =>
      rw [ht] at hr
      cases List.mem_singleton.mp hr
      by_cases hs : '=' ∈ e.sep ∨ '=' ∉ v
      case pos =>
        rw [readBack, if_pos hs] at hk' hv
        cases hv
        exact .taken ht hk' hs
      case neg =>
        obtain ⟨hs, he⟩ := not_or.mp hs
        obtain ⟨b, a, hv', hb⟩ := List.eq_append_cons_of_mem (not_not.mp he)
        rw [hv', readBack_torn hs hb] at hk' hv
        exact .torn (hv' ▸ ht) ⟨hs, hb⟩ hk' hv

-- What is read from the merged text comes from the sections of the template.
theorem rereadLines_eq_flatMap (current : IniSection) (under : Text) (lines : List Text) :
    (writtenUnder under (parseLines current lines)).flatMap (fun (under, sec) =>
        sec.entries.flatMap (rereadEntry lower live sec.name under)) =
      current.entries.flatMap (rereadEntry lower live current.name
          (if current.name = [] then under else current.name)) ++
        rereadLines lower live current.name (if current.name = [] then under else current.name)
          lines := by
  induction lines generalizing current under
  case nil => simp [parseLines, writtenUnder, rereadLines]
  case cons line lines hi =>
    rw [parseLines, rereadLines]
    cases parseLine line
    case entry e => simp [hi]
    case header name => simp [writtenUnder, hi]

theorem sec_of_reread {own : Text} {r : Setting} (h : r ∈ rereadEntry lower live own under e) :
    e.key ≠ [] ∧ r.sec = under := by
  rw [rereadEntry] at h
  split at h
  case isTrue => cases h
  case isFalse hk =>
    refine ⟨hk, ?_⟩
    split at h <;> rw [List.mem_singleton.mp h]

theorem arrives_iff (lower : Char → Char) (path tmpl live : Text) (s : Setting) :
    (∃ r ∈ settings (parseINI (mergeINI lower path tmpl live).mergedContent).1,
      s.same lower r ∧ r.value = s.value) ↔
    Arrives lower (parseINI tmpl).1 (parseINI live).1 s := by
  have hr : (writtenUnder [] (parseINI tmpl).1).flatMap (fun (under, sec) =>
      sec.entries.flatMap (rereadEntry lower (parseINI live).1 sec.name under)) = _ :=
    rereadLines_eq_flatMap { name := [] } [] _
  rw [settings_mergeINI]
  simp only [List.flatMap_nil, List.nil_append, if_true] at hr
  simp only [← hr, List.mem_flatMap, Prod.exists, Setting.same, Bool.and_eq_true,
    decide_eq_true_iff]
  constructor
  case mp =>
    rintro ⟨r, ⟨under, sec, hs, e, he, hr⟩, ⟨hu, hk⟩, hv⟩
    obtain ⟨hn, hu'⟩ := sec_of_reread hr
    exact ⟨under, sec, hs, hu' ▸ hu, e, he, hn, (brings_iff under hn).mpr ⟨r, hr, hk, hv⟩⟩
  case mpr =>
    rintro ⟨under, sec, hs, hu, e, he, hn, hb⟩
    obtain ⟨r, hr, hk, hv⟩ := (brings_iff under hn).mp hb
    obtain ⟨_, hu'⟩ := sec_of_reread hr
    exact ⟨r, ⟨under, sec, hs, e, he, hr⟩, ⟨hu' ▸ hu, hk⟩, hv⟩

theorem dropped_sum {l : List MergeStats} (h : ∀ a ∈ l, a.dropped = 0) : l.sum.dropped = 0 := by
  induction l
  case nil => rfl
  case cons a l hi =>
    have ⟨ha, hl⟩ := List.forall_mem_cons.mp h
    rw [List.sum_cons]
    change a.dropped + l.sum.dropped = 0
    rw [ha, hi hl]

theorem dropped_mergeEntry (kvs : Text → Option Text) : (mergeEntry lower kvs e).2.dropped = 0 := by
  rw [mergeEntry]
  split
  case isTrue => rfl
  case isFalse =>
    split
    case isTrue => rfl
    case isFalse =>
      split
      case h_1 => dsimp only; split <;> rfl
      case h_2 => rfl

theorem countDropped_eq :
    countDropped lower tmpl live = (settings live).countP (counted lower tmpl) := by
  rw [countDropped, settings, List.countP_flatMap]
  congr 1
  refine List.map_congr_left fun sec _ => ?_
  rw [Function.comp_apply]
  induction sec.entries
  case nil => rfl
  case cons e entries hi =>
    rw [List.countP_cons, List.flatMap_cons, List.countP_append, hi, Nat.add_comm, entrySetting]
    congr 1
    by_cases hk : e.key = []
    case pos => simp [hk]
    case neg => simp [hk, counted, List.countP_cons]

theorem dropped_eq (lower : Char → Char) (path tmpl live : Text) :
    (mergeINI lower path tmpl live).stats.dropped =
      (settings (parseINI live).1).countP (counted lower (parseINI tmpl).1) := by
  have hz : (((parseINI tmpl).1.map (mergeSection lower (parseINI live).1)).map
      Prod.snd).sum.dropped = 0 := by
    refine dropped_sum fun a ha => ?_
    have ⟨_, hm, ha⟩ := List.mem_map.mp ha
    have ⟨sec, _, hs⟩ := List.mem_map.mp hm
    rw [← ha, ← hs]
    refine dropped_sum fun b hb => ?_
    have ⟨_, hm, hb⟩ := List.mem_map.mp hb
    have ⟨e, _, he⟩ := List.mem_map.mp hm
    rw [← hb, ← he]
    exact dropped_mergeEntry _
  change (((parseINI tmpl).1.map (mergeSection lower (parseINI live).1)).map
    Prod.snd).sum.dropped + countDropped lower (parseINI tmpl).1 (parseINI live).1 = _
  rw [hz, Nat.zero_add, countDropped_eq]

-- The merge reports what is lost if and only if all else arrives.
theorem losses_reported_iff (lower : Char → Char) (path tmpl live : Text) :
    (mergeINI lower path tmpl live).stats.dropped =
        (settings (parseINI live).1).countP (counted lower (parseINI tmpl).1) ∧
      ((∀ s ∈ settings (parseINI live).1, counted lower (parseINI tmpl).1 s ∨
          ∃ r ∈ settings (parseINI (mergeINI lower path tmpl live).mergedContent).1,
            s.same lower r ∧ r.value = s.value) ↔
        ∀ s ∈ settings (parseINI live).1, ¬counted lower (parseINI tmpl).1 s →
          Arrives lower (parseINI tmpl).1 (parseINI live).1 s) := by
  refine ⟨dropped_eq lower path tmpl live, forall₂_congr fun s _ => ?_⟩
  rw [arrives_iff, or_iff_not_imp_left]

-- The template has the key of the first section, but values are taken from the second one only.
theorem merge_loses_unreported : ¬∀ (lower : Char → Char) (path tmpl live : Text),
    ∀ s ∈ settings (parseINI live).1, counted lower (parseINI tmpl).1 s ∨
      ∃ r ∈ settings (parseINI (mergeINI lower path tmpl live).mergedContent).1,
        s.same lower r ∧ r.value = s.value := by
  intro h
  have h := h Char.toLower "server.ini".toList "[world]\nseed = 0\npvp = on".toList
    "[world]\nseed = 7\n[world]\npvp = off".toList
    ⟨"world".toList, "seed".toList, "7".toList⟩ (by decide +kernel)
  exact absurd h (by decide +kernel)

end ConfigMerge
