import Mastermind.ConfigMerge.Ini

open Agent Trim

namespace ConfigMerge

variable {s a b line lines v : Text} {c : Char} {e : IniEntry}

theorem idxOf?_append (h : c ∉ a) : (a ++ c :: b).idxOf? c = some a.length := by
  induction a
  case nil => simp [List.idxOf?_cons]
  case cons d a hi =>
    have hd : d ≠ c := fun hd => h (hd ▸ List.mem_cons_self)
    have ha : c ∉ a := fun hm => h (List.mem_cons_of_mem d hm)
    rw [List.cons_append, List.idxOf?_cons, if_neg (by simpa using hd), hi ha]
    rfl

theorem eq_of_idxOf? {i : Nat} (h : s.idxOf? c = some i) :
    ∃ a b, s = a ++ c :: b ∧ c ∉ a ∧ a.length = i := by
  have hm : c ∈ s := List.isSome_idxOf?.mp (h ▸ rfl)
  have ⟨a, b, hs, ha⟩ := List.eq_append_cons_of_mem hm
  rw [hs, idxOf?_append ha] at h
  exact ⟨a, b, hs, ha, Option.some.inj h⟩

@[simp]
theorem trimSpace_nil : trimSpace [] = [] :=
  rfl

theorem trimmed_trimSpace : Trimmed isSpace (trimSpace s) :=
  trimmed_trim

section

variable (line : Text) (a b : Text) (c : Char)

theorem drop_separator : (a ++ c :: b).drop (a.length + 1) = b := by
  rw [← List.drop_drop, List.drop_left]
  rfl

theorem keyEntry_key : (keyEntry line (a ++ c :: b) a.length).key = trimSpace a := by
  rw [keyEntry, List.take_left]

theorem keyEntry_value : (keyEntry line (a ++ c :: b) a.length).value = trimSpace b := by
  rw [keyEntry, drop_separator]

theorem keyEntry_sep {blanks : Text} (h : a = trimSpace a ++ blanks) :
    (keyEntry line (a ++ c :: b) a.length).sep = blanks ++ c :: b.takeWhile (· = ' ') := by
  have ht : b.take (b.takeWhile (· = ' ')).length = b.takeWhile (· = ' ') :=
    (List.prefix_iff_eq_take.mp (List.takeWhile_prefix _)).symm
  have hp : (a ++ c :: b).take (a.length + 1 + (b.takeWhile (· = ' ')).length) =
      trimSpace a ++ (blanks ++ c :: b.takeWhile (· = ' ')) := by
    rw [Nat.add_assoc, List.take_length_add_append, Nat.add_comm 1, List.take_succ_cons, ht,
      ← List.append_assoc, ← h]
  simp only [keyEntry, List.take_left, drop_separator, hp, List.drop_left]

end

-- A line of a key: its parts around the separator, and the first character, which makes the line
-- neither a comment nor a header.
structure KeyLine (line : Text) (e : IniEntry) (c : Char) (blanks after : Text) : Prop where
  trimmed : trimSpace line = e.key ++ blanks ++ c :: after
  key     : Trimmed isSpace e.key
  blank   : ∀ d ∈ blanks, isSpace d
  value   : e.value = trimSpace after
  sep     : e.sep = blanks ++ c :: after.takeWhile (· = ' ')
  kind    : c = '=' ∧ '=' ∉ e.key ∨ c = ':' ∧ ':' ∉ e.key ∧ '=' ∉ e.key ∧ '=' ∉ after
  head    : ∀ d ∈ (trimSpace line).head?, d ≠ '#' ∧ d ≠ ';' ∧ d ≠ '['

section

variable {blanks after : Text}

theorem KeyLine.isSpace_separator (h : KeyLine line e c blanks after) : isSpace c = false := by
  cases h.kind
  case inl h => rw [h.left]; rfl
  case inr h => rw [h.left]; rfl

theorem head?_append_cons {y : Text} : (a ++ c :: b).head? = (a ++ c :: y).head? := by
  cases a <;> rfl

-- A line with the same key and separator, but something else after it.
theorem KeyLine.trimSpace_append (h : KeyLine line e c blanks after) (y : Text) :
    trimSpace (e.key ++ blanks ++ c :: y) = e.key ++ blanks ++ c :: y.rdropWhile isSpace := by
  have hh : ∀ d ∈ (e.key ++ blanks ++ c :: y).head?, isSpace d = false := by
    rw [head?_append_cons, ← h.trimmed]
    exact trimmed_trimSpace.head
  rw [trimSpace, trim_of_head hh, rdropWhile_append_cons h.isSpace_separator]

end

-- The first of the two separators.
theorem separator_cases {i : Nat} (h : (s.idxOf? '=').or (s.idxOf? ':') = some i) :
    ∃ a c b, s = a ++ c :: b ∧ a.length = i ∧
      (c = '=' ∧ '=' ∉ a ∨ c = ':' ∧ ':' ∉ a ∧ '=' ∉ a ∧ '=' ∉ b) := by
  cases he : s.idxOf? '='
  case some j =>
    have ⟨a, b, hs, ha, hi⟩ := eq_of_idxOf? he
    rw [he] at h
    exact ⟨a, '=', b, hs, hi.trans (Option.some.inj h), .inl ⟨rfl, ha⟩⟩
  case none =>
    rw [he] at h
    have ⟨a, b, hs, ha, hi⟩ := eq_of_idxOf? h
    have hn : '=' ∉ s := List.idxOf?_eq_none_iff.mp he
    simp only [hs, List.mem_append, List.mem_cons, not_or] at hn
    exact ⟨a, ':', b, hs, hi, .inr ⟨rfl, ha, hn.left, hn.right.right⟩⟩

theorem separator_eq (h : c = '=' ∧ '=' ∉ a ∨ c = ':' ∧ ':' ∉ a ∧ '=' ∉ a ∧ '=' ∉ b) :
    ((a ++ c :: b).idxOf? '=').or ((a ++ c :: b).idxOf? ':') = some a.length := by
  obtain ⟨rfl, ha⟩ | ⟨rfl, hc, ha, hb⟩ := h
  case inl => rw [idxOf?_append ha, Option.some_or]
  case inr =>
    have hn : '=' ∉ a ++ ':' :: b := by simp [ha, hb]
    rw [List.idxOf?_eq_none_iff.mpr hn, Option.none_or, idxOf?_append hc]

theorem keyLine_of_cut (ht : trimSpace line = a ++ c :: b)
    (h : c = '=' ∧ '=' ∉ a ∨ c = ':' ∧ ':' ∉ a ∧ '=' ∉ a ∧ '=' ∉ b)
    (hd : ∀ d ∈ (trimSpace line).head?, d ≠ '#' ∧ d ≠ ';' ∧ d ≠ '[') :
    ∃ blanks, KeyLine line (keyEntry line (trimSpace line) a.length) c blanks b := by
  have ha := (trimmed_trimSpace (s := line)).head_initial ⟨_, ht.symm⟩
  have ⟨blanks, hb, hs⟩ := rdropWhile_append_rest (p := isSpace) a
  rw [← trim_of_head ha] at hb
  have hm : trimSpace a ⊆ a := fun _ hm => hb ▸ List.mem_append_left _ hm
  refine ⟨blanks, ?_⟩
  rw [ht]
  exact {
    trimmed := by rw [keyEntry_key, ht]; exact congrArg (· ++ c :: b) hb
    key     := by rw [keyEntry_key]; exact trimmed_trimSpace
    blank   := hs
    value   := keyEntry_value ..
    sep     := keyEntry_sep line a b c hb
    kind    := by
      rw [keyEntry_key]
      exact h.imp (And.imp_right fun h hk => h (hm hk))
        (And.imp_right fun h => ⟨fun hk => h.left (hm hk), fun hk => h.right.left (hm hk),
          h.right.right⟩)
    head    := hd
  }

theorem parseLine_nil (ht : trimSpace line = []) :
    parseLine line = .entry { isBlank := true, raw := line } := by
  rw [parseLine, ht]

theorem parseLine_of_cut (ht : trimSpace line = a ++ c :: b)
    (h : c = '=' ∧ '=' ∉ a ∨ c = ':' ∧ ':' ∉ a ∧ '=' ∉ a ∧ '=' ∉ b)
    (hd : ∀ d ∈ (trimSpace line).head?, d ≠ '#' ∧ d ≠ ';' ∧ d ≠ '[') :
    parseLine line = .entry (keyEntry line (trimSpace line) a.length) := by
  have hs := separator_eq h
  rw [← ht] at hs
  rw [parseLine]
  cases hl : trimSpace line
  case nil => simp [hl] at ht
  case cons d rest =>
    have ⟨h₁, h₂, h₃⟩ := hd d (by rw [hl]; rfl)
    rw [hl] at hs
    simp only [h₁, h₂, h₃, or_self, if_false, hs]

-- What is read from a line, with what the line looks like.
inductive LineView (line : Text) : IniLine → Prop
  | blank (trimmed : trimSpace line = []) : LineView line (.entry { isBlank := true, raw := line })
  | comment (trimmed : trimSpace line ≠ []) :
    LineView line (.entry { isComment := true, raw := line })
  | key {e : IniEntry} {c : Char} {blanks after : Text} (h : KeyLine line e c blanks after)
      (raw : e.raw = line) (isBlank : e.isBlank = false) (isComment : e.isComment = false) :
    LineView line (.entry e)
  | header {name after : Text} (trimmed : trimSpace line = '[' :: after)
      (sublist : name.Sublist after) (name_trimmed : Trimmed isSpace name) (closed : ']' ∉ name) :
    LineView line (.header name)

theorem lineView (line : Text) : LineView line (parseLine line) := by
  rw [parseLine]
  cases ht : trimSpace line
  case nil => exact .blank ht
  case cons d rest =>
    have hn : trimSpace line ≠ [] := ht ▸ List.cons_ne_nil _ _
    simp only
    split
    case isTrue => exact .comment hn
    case isFalse h =>
      have ⟨h₁, h₂⟩ := not_or.mp h
      split
      case isTrue hb =>
        cases hi : (d :: rest).idxOf? ']'
        case none => exact .comment hn
        case some idx =>
          have ⟨a, b, hs, ha, hl⟩ := eq_of_idxOf? hi
          cases a
          case nil => cases hs; cases hb
          case cons d' a =>
            cases hs
            have hr : (a ++ ']' :: b).take (idx - 1) = a := by
              rw [← hl]
              exact List.take_left
            change LineView line (.header (trimSpace ((a ++ ']' :: b).take (idx - 1))))
            rw [hr]
            exact .header (ht.trans (congrArg (· :: _) hb))
              (trim_sublist.trans (List.sublist_append_left ..)) trimmed_trimSpace
              fun hm => ha (List.mem_cons_of_mem _ (trim_sublist.subset hm))
      case isFalse h₃ =>
        cases hi : ((d :: rest).idxOf? '=').or ((d :: rest).idxOf? ':')
        case none => exact .comment hn
        case some idx =>
          have ⟨a, c, b, hs, hl, hc⟩ := separator_cases hi
          have hd : ∀ d' ∈ (trimSpace line).head?, d' ≠ '#' ∧ d' ≠ ';' ∧ d' ≠ '[' := by
            rw [ht]
            exact fun _ hd => Option.mem_some.mp hd ▸ ⟨h₁, h₂, h₃⟩
          have ⟨blanks, hk⟩ := keyLine_of_cut (ht.trans hs) hc hd
          rw [hl, ht] at hk
          exact .key hk rfl rfl rfl

theorem lineView_of {l : IniLine} (h : parseLine line = l) : LineView line l :=
  h ▸ lineView line

theorem trimSpace_header {name : Text} : trimSpace ('[' :: name ++ [']']) = '[' :: name ++ [']'] :=
  Trimmed.trim {
    head := fun c hc => Option.mem_some.mp hc ▸ rfl
    last := fun c hc => by
      rw [List.getLast?_concat] at hc
      exact Option.mem_some.mp hc ▸ rfl
  }

theorem parseLine_header {name : Text} (ht : Trimmed isSpace name) (hn : ']' ∉ name) :
    parseLine ('[' :: name ++ [']']) = .header name := by
  have hi : ('[' :: name ++ [']']).idxOf? ']' = some (name.length + 1) :=
    idxOf?_append (a := '[' :: name) (b := []) (by simp [hn])
  have hr : (name ++ [']']).take (name.length + 1 - 1) = name := List.take_left
  rw [parseLine, trimSpace_header]
  simp only [List.cons_append] at hi ⊢
  simp only [hi, hr, trimSpace, ht.trim, if_true, if_false, Char.reduceEq, or_self]

end ConfigMerge
