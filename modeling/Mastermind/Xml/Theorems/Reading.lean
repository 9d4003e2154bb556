import Mastermind.Xml.Decoder
import Mathlib.Data.List.Infix
import Mathlib.Data.List.TakeWhile

namespace Xml

variable {tables : Tables} {s t rest input : Text} {c : Char}

-- The characters that the scanner takes for a name.
def isNameChar (c : Char) : Bool :=
  !isAscii c || isNameByte c

theorem readName_append (hs : s ≠ []) (h : ∀ c ∈ s, isNameChar c) (hc : isNameChar c = false) :
    readName (s ++ c :: rest) = some (s, c :: rest) := by
  have ht : (s ++ c :: rest).span isNameChar = (s, c :: rest) := by
    rw [List.span_eq_takeWhile_dropWhile, List.takeWhile_append_of_pos h,
      List.dropWhile_append_of_pos h, List.takeWhile_cons_of_neg (by simp [hc]), List.append_nil,
      List.dropWhile_cons_of_neg (by simp [hc])]
  rw [readName, show (fun c => !isAscii c || isNameByte c) = isNameChar from rfl, ht]
  cases s
  case nil  => exact absurd rfl hs
  case cons => rfl

theorem of_readName (h : readName input = some (s, rest)) : s ≠ [] ∧ ∀ c ∈ s, isNameChar c := by
  rw [readName, show (fun c => !isAscii c || isNameByte c) = isNameChar from rfl,
    List.span_eq_takeWhile_dropWhile] at h
  split at h
  case h_1 => nomatch h
  case h_2 => nomatch h
  case h_3 hn _ heq =>
    have ⟨ht, _⟩ := Prod.mk.inj heq
    cases h
    exact ⟨hn, fun c hc => List.mem_takeWhile_imp (ht ▸ hc)⟩

-- The part of a name that is its local name, which may be no name on its own.
structure IsLocal (s : Text) : Prop where
  nonempty : s ≠ []
  chars    : ∀ c ∈ s, isNameChar c
  count    : s.count ':' ≤ 1
  cut      : cutName s = ⟨[], s⟩

theorem cutName_of_not_mem (h : ':' ∉ s) : cutName s = ⟨[], s⟩ := by
  have hp : ∀ c ∈ s, decide (c ≠ ':') = true := fun c hc => decide_eq_true fun he => h (he ▸ hc)
  rw [cutName, List.span_eq_takeWhile_dropWhile, List.dropWhile_eq_nil_iff.mpr hp]
  exact if_pos (.inr rfl)

theorem isLocal_of_cutName (hs : s ≠ []) (h : ∀ c ∈ s, isNameChar c) (hn : s.count ':' ≤ 1) :
    IsLocal (cutName s).localName := by
  by_cases hc : cutName s = ⟨[], s⟩
  case pos =>
    rw [hc]
    exact ⟨hs, h, hn, hc⟩
  case neg =>
    have ha := List.takeWhile_append_dropWhile (p := fun c => decide (c ≠ ':')) (l := s)
    rw [cutName, List.span_eq_takeWhile_dropWhile] at hc ⊢
    dsimp only at hc ⊢
    generalize s.takeWhile (fun c => decide (c ≠ ':')) = space at ha hc ⊢
    have hd := List.head?_dropWhile_not (fun c => decide (c ≠ ':')) s
    generalize s.dropWhile (fun c => decide (c ≠ ':')) = u at ha hc hd ⊢
    split
    case isTrue ht => exact absurd (if_pos ht) hc
    case isFalse ht =>
      have ⟨_, hu⟩ := not_or.mp ht
      cases u
      case nil => exact absurd rfl hu
      case cons d u =>
        have hd : d = ':' := by simpa using hd
        have hm : ':' ∉ u := by
          rw [← List.count_eq_zero]
          rw [← ha, hd, List.count_append, List.count_cons_self] at hn
          omega
        refine ⟨hu, fun c hc => h c ?_, ?_, cutName_of_not_mem hm⟩
        case refine_1 => rw [← ha]; exact List.mem_append_right _ (List.mem_cons_of_mem _ hc)
        case refine_2 => exact (List.count_eq_zero.mpr hm).le.trans (Nat.zero_le _)

theorem isLocal_of_nsname {n : Name} (h : nsname tables input = some (n, rest)) :
    IsLocal n.localName := by
  simp only [nsname, Option.bind_eq_bind, Option.bind_eq_some_iff] at h
  obtain ⟨⟨s, u⟩, hs, h⟩ := h
  obtain ⟨hs, _⟩ := Option.filter_eq_some_iff.mp hs
  obtain ⟨hn, hc⟩ := of_readName hs
  split at h
  case isTrue => cases h
  case isFalse hm =>
    cases h
    exact isLocal_of_cutName hn hc (not_lt.mp hm)

theorem nsname_append (h : IsLocal s) (hc : isNameChar c = false) :
    nsname tables (s ++ c :: rest) =
      if isName tables s then some (⟨[], s⟩, c :: rest) else none := by
  rw [nsname, name, readName_append h.nonempty h.chars hc, Option.filter_some]
  by_cases hn : isName tables s
  case pos =>
    rw [if_pos hn, if_pos hn]
    exact (if_neg (not_lt.mpr h.count)).trans (by rw [h.cut])
  case neg =>
    rw [if_neg hn, if_neg hn]
    rfl

-- A text with its line ends as the decoder gives them.
def newlines : Text → Text
  | []     => []
  | c :: s =>
    if c = '\r' ∧ s.head? = some '\n' then newlines s
    else (if c = '\r' then '\n' else c) :: newlines s

theorem newlines_cons (h : c ≠ '\r') : newlines (c :: s) = c :: newlines s := by
  rw [newlines, if_neg fun hc => h hc.left, if_neg h]

theorem newlines_eq (h : '\r' ∉ s) : newlines s = s := by
  induction s
  case nil => rfl
  case cons c s hi =>
    have ⟨hc, hs⟩ := not_or.mp (mt List.mem_cons.mpr h)
    rw [newlines_cons (Ne.symm hc), hi hs]

theorem not_mem_newlines : '\r' ∉ newlines s := by
  induction s
  case nil => exact List.not_mem_nil
  case cons c s hi =>
    rw [newlines]
    split
    case isTrue => exact hi
    case isFalse =>
      rw [List.mem_cons, not_or]
      refine ⟨?_, hi⟩
      split
      case isTrue      => decide
      case isFalse hc  => exact Ne.symm hc

theorem inCharacterRange_newlines (h : ∀ c ∈ s, isInCharacterRange c) :
    ∀ c ∈ newlines s, isInCharacterRange c := by
  induction s
  case nil => exact nofun
  case cons d s hi =>
    have ⟨hd, hs⟩ := List.forall_mem_cons.mp h
    rw [newlines]
    split
    case isTrue => exact hi hs
    case isFalse =>
      refine List.forall_mem_cons.mpr ⟨?_, hi hs⟩
      split
      case isTrue  => rfl
      case isFalse => exact hd

-- The quotation mark of a quoted text.
def quote (quoted : Bool) : Option Char :=
  if quoted then some '"' else none

-- How a character is written in a text.
def escape (quoted : Bool) (c : Char) : Text :=
  if c = '&' then "&amp;".toList
  else if c = '<' then "&lt;".toList
  else if c = '>' then "&gt;".toList
  else if quoted ∧ c = '"' then "&quot;".toList
  else [c]

variable {quoted : Bool}

theorem scanText_entity {ent : Text} {q : Option Char} (h : ';' ∉ t) :
    scanText q false (some ent) (t ++ ';' :: s) = (do
      let d ← entity (ent ++ t)
      let (data, rest) ← scanText q false none s
      some (d :: data, rest)) := by
  induction t generalizing ent
  case nil => rw [List.nil_append, scanText, if_pos rfl, List.append_nil]
  case cons c t hi =>
    have ⟨hc, ht⟩ := not_or.mp (mt List.mem_cons.mpr h)
    rw [List.cons_append, scanText, if_neg (Ne.symm hc), hi ht, List.append_assoc]
    rfl

theorem scanText_amp (h : ';' ∉ t) :
    scanText (quote quoted) false none ('&' :: t ++ ';' :: s) = (do
      let d ← entity t
      let (data, rest) ← scanText (quote quoted) false none s
      some (d :: data, rest)) := by
  have hq : ¬quote quoted = some '&' := by cases quoted <;> decide
  rw [List.cons_append, scanText, if_neg fun h => ?_, if_neg (by decide), if_neg hq,
    if_pos (by decide), scanText_entity h, List.nil_append]
  exact absurd h.right (by simp)

theorem escape_cases (quoted : Bool) (c : Char) :
    escape quoted c = [c] ∧ c ≠ '&' ∧ c ≠ '<' ∧ c ≠ '>' ∧ quote quoted ≠ some c ∨
    ∃ t, ';' ∉ t ∧ escape quoted c = '&' :: t ++ [';'] ∧ entity t = some c ∧ '>' ∉ t ∧ c ≠ '\r' ∧
      c ≠ '\n' := by
  by_cases ha : c = '&'
  case pos =>
    exact .inr ⟨"amp".toList, by decide, by rw [ha]; rfl, by rw [ha]; rfl, by decide, by simp [ha]⟩
  by_cases hl : c = '<'
  case pos =>
    exact .inr ⟨"lt".toList, by decide, by rw [hl]; rfl, by rw [hl]; rfl, by decide, by simp [hl]⟩
  by_cases hg : c = '>'
  case pos =>
    exact .inr ⟨"gt".toList, by decide, by rw [hg]; rfl, by rw [hg]; rfl, by decide, by simp [hg]⟩
  rw [escape, if_neg ha, if_neg hl, if_neg hg]
  split
  case isTrue hq =>
    exact .inr ⟨"quot".toList, by decide, rfl, by rw [hq.right]; rfl, by decide, by simp [hq.right]⟩
  case isFalse hq =>
    refine .inl ⟨rfl, ha, hl, hg, fun h => hq ?_⟩
    cases quoted
    case false => nomatch h
    case true  => exact ⟨rfl, (Option.some.inj h).symm⟩

theorem prefix_or_head {a p : Text} (h : p <+: a ++ t) : p <+: a ∨ ∃ c ∈ p, t.head? = some c := by
  obtain h' | ⟨u, rfl⟩ := List.prefix_or_prefix_of_prefix h (List.prefix_append a t)
  case inl => exact .inl h'
  case inr =>
    have ⟨v, hv⟩ := (List.prefix_append_right_inj a).mp h
    cases u
    case nil      => exact .inl (by rw [List.append_nil])
    case cons c u => exact .inr ⟨c, by simp, by rw [← hv]; rfl⟩

theorem not_mem_escapes : '>' ∉ s.flatMap (escape quoted) := by
  intro h
  have ⟨c, _, hc⟩ := List.mem_flatMap.mp h
  obtain ⟨he, _, _, hg, _⟩ | ⟨t, _, he, _, hg, _⟩ := escape_cases quoted c
  case inl => exact hg (List.mem_singleton.mp (he ▸ hc)).symm
  case inr =>
    rw [he, List.mem_append, List.mem_cons, List.mem_singleton] at hc
    exact hc.elim (·.elim (by decide) hg) (by decide)

section

variable (hs : ∀ c ∈ t.head?, c = '<' ∨ c = '"')

include hs

theorem head_escapes :
    (s.flatMap (escape quoted) ++ t).head? = some '\n' ↔ s.head? = some '\n' := by
  cases s
  case nil =>
    refine iff_of_false (fun h => ?_) nofun
    exact (hs _ h).elim (by decide) (by decide)
  case cons c s =>
    rw [List.flatMap_cons]
    obtain ⟨he, _⟩ | ⟨u, _, he, _, _, _, hn⟩ := escape_cases quoted c
    case inl => rw [he]; rfl
    case inr =>
      rw [he]
      exact iff_of_false (fun h => absurd (Option.some.inj h) (by decide))
        fun h => hn (Option.some.inj h)

theorem not_closing_escapes : ¬"]]>".toList <+: s.flatMap (escape quoted) ++ t := by
  intro h
  obtain h | ⟨c, hc, ht⟩ := prefix_or_head h
  case inl => exact not_mem_escapes (h.subset (by decide))
  case inr =>
    obtain rfl | rfl := hs c ht
    case inl => exact absurd hc (by decide)
    case inr => exact absurd hc (by decide)

-- What is written with entities is read back, apart from its line ends.
theorem scanText_escapes (h : scanText (quote quoted) false none t = some ([], rest)) :
    scanText (quote quoted) false none (s.flatMap (escape quoted) ++ t) =
      some (newlines s, rest) := by
  induction s
  case nil => exact h
  case cons c s hi =>
    have hc : ¬"]]>".toList <+: (c :: s).flatMap (escape quoted) ++ t := not_closing_escapes hs
    rw [List.flatMap_cons, List.append_assoc] at hc ⊢
    obtain ⟨he, ha, hl, _, hq⟩ | ⟨u, hu, he, hd, _, hr, _⟩ := escape_cases quoted c
    case inl =>
      rw [he] at hc ⊢
      rw [List.singleton_append] at hc ⊢
      rw [scanText, if_neg fun h => hc h.right, if_neg fun h => hl h.left, if_neg hq,
        if_neg fun h => ha h.left, newlines, hi]
      simp only [head_escapes hs]
      split <;> rfl
    case inr =>
      rw [he, List.append_assoc, List.singleton_append, scanText_amp hu, hd, hi, newlines_cons hr]
      rfl

end

theorem text_escapes (quoted : Bool) (hs : ∀ c ∈ t.head?, c = '<' ∨ c = '"')
    (hr : ∀ c ∈ s, isInCharacterRange c)
    (h : scanText (quote quoted) false none t = some ([], rest)) :
    text (quote quoted) false (s.flatMap (escape quoted) ++ t) = some (newlines s, rest) := by
  rw [text, scanText_escapes hs h, Option.filter_some, if_pos]
  exact List.all_eq_true.mpr (inCharacterRange_newlines hr)

theorem attrval_escapes (hr : ∀ c ∈ s, isInCharacterRange c) :
    attrval ('"' :: (s.flatMap (escape true) ++ '"' :: rest)) = some (newlines s, rest) := by
  rw [attrval, if_pos (.inl rfl)]
  refine text_escapes true ?_ hr ?_
  case refine_1 => exact fun c hc => .inr (Option.some.inj hc).symm
  case refine_2 =>
    have hn : ¬(quote true = none ∧ "]]>".toList <+: '"' :: rest) := fun h => absurd h.left (by decide)
    rw [scanText, if_neg hn, if_neg (by decide)]
    exact if_pos rfl

theorem comment_cons (h : ¬"--".toList <+: c :: s) : comment (c :: s) = (do
    let (data, rest) ← comment s
    some (c :: data, rest)) := by
  rw [comment.eq_def]
  exact if_neg h

-- The data of a comment are read up to the first two hyphens.
theorem comment_append (h : ¬"--".toList <:+: s ++ ['-']) :
    comment (s ++ "-->".toList ++ rest) = some (s, rest) := by
  induction s
  case nil => rfl
  case cons c s hi =>
    have hc : ¬"--".toList <+: c :: (s ++ "-->".toList ++ rest) := by
      intro hp
      refine h (List.prefix_of_prefix_length_le hp ⟨'-' :: '>' :: rest, ?_⟩ (by simp)).isInfix
      simp
    rw [List.cons_append, List.cons_append, comment_cons hc,
      hi fun hp => h (hp.trans (List.suffix_cons ..).isInfix)]
    rfl

theorem of_comment {data : Text} (h : comment s = some (data, rest)) :
    data <+: s ∧ ¬"--".toList <:+: data := by
  induction s generalizing data
  case nil => cases h
  case cons c s hi =>
    by_cases hc : "--".toList <+: c :: s
    case pos =>
      rw [comment.eq_def] at h
      replace h := (if_pos hc).symm.trans h
      split at h
      case h_1 => cases h; exact ⟨List.nil_prefix, by decide⟩
      case h_2 => cases h
    case neg =>
      simp only [comment_cons hc, Option.bind_eq_bind, Option.bind_eq_some_iff,
        Option.some.injEq] at h
      obtain ⟨⟨data, _⟩, hd, h⟩ := h
      cases h
      obtain ⟨hp, hn⟩ := hi hd
      have hp := (List.prefix_cons_inj c).mpr hp
      refine ⟨hp, fun h => ?_⟩
      exact (List.infix_cons_iff.mp h).elim (fun h => hc (h.trans hp)) hn

theorem instruction_append (h : '?' ∉ s) :
    instruction (s ++ '?' :: '>' :: rest) = some (s, rest) := by
  induction s
  case nil => rfl
  case cons c s hi =>
    have ⟨hc, hs⟩ := not_or.mp (mt List.mem_cons.mpr h)
    have hn : ¬"?>".toList <+: c :: (s ++ '?' :: '>' :: rest) := fun ⟨_, hu⟩ =>
      hc (List.cons.inj hu).left
    rw [List.cons_append, instruction, if_neg hn, hi hs]
    rfl

theorem space_cons (h : isBlank c = false) : space (c :: s) = c :: s :=
  List.dropWhile_cons_of_neg (by simp [h])

theorem isBlank_of_isNameChar (h : isNameChar c) : isBlank c = false := by
  rw [Bool.eq_false_iff]
  intro hb
  simp only [isBlank, Bool.or_eq_true, decide_eq_true_eq] at hb
  obtain ((rfl | rfl) | rfl) | rfl := hb <;> exact absurd h (by decide)

theorem attributes_space {n : Nat} (h : space input = c :: s) (hs : c ≠ '/') (hg : c ≠ '>') :
    attributes tables (n + 1) input = (do
      let (name, rest) ← nsname tables (c :: s)
      let rest ← match space rest with
        | '=' :: rest => some rest
        | _           => none
      let (value, rest) ← attrval (space rest)
      let (attr, empty, rest) ← attributes tables n rest
      some (⟨name, value⟩ :: attr, empty, rest)) := by
  rw [attributes, h]
  split
  case h_1 he => nomatch he
  case h_2 he => exact absurd (List.cons.inj he).left hs
  case h_3 he => exact absurd (List.cons.inj he).left hs
  case h_4 he => exact absurd (List.cons.inj he).left hg
  case h_5    => rfl

-- An attribute as it is printed.
theorem attributes_cons {n : Nat} (hs : IsLocal s) (hr : ∀ c ∈ t, isInCharacterRange c) :
    attributes tables (n + 1) (' ' :: s ++ "=\"".toList ++ t.flatMap (escape true) ++ '"' :: rest) =
      if isName tables s then (attributes tables n rest).map fun (attr, empty, rest) =>
        (⟨⟨[], s⟩, newlines t⟩ :: attr, empty, rest)
      else none := by
  have hne := hs.nonempty
  cases s
  case nil => exact absurd rfl hne
  case cons c s =>
    have hc := hs.chars c List.mem_cons_self
    have hb : space (' ' :: c :: s ++ "=\"".toList ++ t.flatMap (escape true) ++ '"' :: rest) =
        c :: (s ++ '=' :: '"' :: (t.flatMap (escape true) ++ '"' :: rest)) := by
      simp only [List.cons_append, List.append_assoc]
      exact space_cons (isBlank_of_isNameChar hc)
    have h1 : c ≠ '/' := fun h => absurd hc (h ▸ by decide)
    have h2 : c ≠ '>' := fun h => absurd hc (h ▸ by decide)
    rw [attributes_space hb h1 h2, ← List.cons_append, nsname_append hs (by decide)]
    by_cases hn : isName tables (c :: s)
    case neg =>
      rw [if_neg hn, if_neg hn]
      rfl
    case pos =>
      rw [if_pos hn, if_pos hn]
      change (attrval ('"' :: (t.flatMap (escape true) ++ '"' :: rest))).bind _ = _
      rw [attrval_escapes hr, Option.bind_some]
      dsimp only
      cases attributes tables n rest <;> rfl

theorem rawToken_start (hs : IsLocal s) :
    rawToken tables ('<' :: (s ++ t)) = (do
      let (name, rest) ← nsname tables (s ++ t)
      let (attr, empty, rest) ← attributes tables rest.length.succ rest
      some (.startElement name attr :: if empty then [.endElement name] else [], rest)) := by
  have hne := hs.nonempty
  cases s
  case nil => exact absurd rfl hne
  case cons c s =>
    have hc := hs.chars c List.mem_cons_self
    have hn : ∀ {d u}, c :: s ++ t = d :: u → isNameChar d := fun h =>
      (List.cons.inj h).left ▸ hc
    rw [rawToken]
    all_goals
      intros
      exact absurd (hn ‹_›) (by decide)

theorem rawToken_end (hs : IsLocal s) (hn : isName tables s) :
    rawToken tables ("</".toList ++ s ++ '>' :: rest) = some ([.endElement ⟨[], s⟩], rest) := by
  change (nsname tables (s ++ '>' :: rest)).bind _ = _
  rw [nsname_append hs (by decide), if_pos hn]
  rfl

theorem rawToken_comment (h : ¬"--".toList <:+: s ++ ['-']) :
    rawToken tables ("<!--".toList ++ s ++ "-->".toList ++ rest) = some ([.comment s], rest) := by
  change (comment (s ++ "-->".toList ++ rest)).map _ = _
  rw [comment_append h]
  rfl

theorem rawToken_text (h : input.head? ≠ some '<') :
    rawToken tables input =
      (text none false input).map fun (data, rest) => ([.charData data], rest) := by
  rw [rawToken]
  all_goals
    intros
    subst_vars
    exact h rfl

theorem scanText_stop (h : ∀ c ∈ t.head?, c = '<') : scanText none false none t = some ([], t) := by
  cases t
  case nil => rfl
  case cons c t =>
    have hc := h c rfl
    have hn : ¬"]]>".toList <+: '<' :: t := fun ⟨_, hu⟩ =>
      absurd (List.cons.inj hu).left (by decide)
    rw [hc, scanText, if_neg fun h => hn h.right]
    rfl

-- A text as it is printed.
theorem rawToken_escapes (hne : s ≠ []) (hr : ∀ c ∈ s, isInCharacterRange c)
    (ht : ∀ c ∈ t.head?, c = '<') :
    rawToken tables (s.flatMap (escape false) ++ t) = some ([.charData (newlines s)], t) := by
  have he : text none false (s.flatMap (escape false) ++ t) = some (newlines s, t) :=
    text_escapes false (fun c hc => .inl (ht c hc)) hr (scanText_stop ht)
  have hh : (s.flatMap (escape false) ++ t).head? ≠ some '<' := by
    cases s
    case nil => exact absurd rfl hne
    case cons c s =>
      rw [List.flatMap_cons]
      obtain ⟨h, _, hl, _⟩ | ⟨u, _, h, _⟩ := escape_cases false c
      case inl => rw [h]; exact fun h => hl (Option.some.inj h)
      case inr => rw [h]; exact fun h => absurd (Option.some.inj h) (by decide)
  rw [rawToken_text hh, he]
  rfl

theorem escapes_ne_nil (quoted : Bool) (hne : s ≠ []) : s.flatMap (escape quoted) ≠ [] := by
  cases s
  case nil => exact absurd rfl hne
  case cons c s =>
    rw [List.flatMap_cons]
    obtain ⟨h, _⟩ | ⟨u, _, h, _⟩ := escape_cases quoted c
    case inl => rw [h]; nofun
    case inr => rw [h]; nofun

theorem escapes_blanks (h : ∀ c ∈ s, c = ' ' ∨ c = '\n') : s.flatMap (escape false) = s := by
  induction s
  case nil => rfl
  case cons c s hi =>
    have ⟨hc, hs⟩ := List.forall_mem_cons.mp h
    rw [List.flatMap_cons, hi hs]
    obtain rfl | rfl := hc <;> rfl

theorem rawToken_blanks (hne : s ≠ []) (h : ∀ c ∈ s, c = ' ' ∨ c = '\n')
    (ht : ∀ c ∈ t.head?, c = '<') : rawToken tables (s ++ t) = some ([.charData s], t) := by
  have hr : ∀ c ∈ s, isInCharacterRange c := fun c hc => by
    obtain rfl | rfl := h c hc <;> rfl
  have hn : newlines s = s := newlines_eq fun hc => (h _ hc).elim (by decide) (by decide)
  rw [← escapes_blanks h, rawToken_escapes hne hr ht, hn, escapes_blanks h]

theorem rawToken_xml (hc : isBlank c = false) (hq : '?' ∉ c :: s) (hr : isReadable (c :: s)) :
    rawToken tables ('<' :: '?' :: ("xml".toList ++ ' ' :: (c :: s ++ '?' :: '>' :: rest))) =
      some ([.procInst], rest) := by
  have hn : name tables ("xml".toList ++ ' ' :: (c :: s ++ '?' :: '>' :: rest)) =
      some ("xml".toList, ' ' :: (c :: s ++ '?' :: '>' :: rest)) := by
    rw [name, readName_append (by decide) (List.all_eq_true.mp rfl) (by decide)]
    rfl
  have hs : space (' ' :: (c :: s ++ '?' :: '>' :: rest)) = c :: s ++ '?' :: '>' :: rest :=
    space_cons hc
  rw [rawToken, hn, Option.bind_eq_bind, Option.bind_some]
  dsimp only
  rw [hs, instruction_append hq, Option.bind_some]
  exact if_neg fun h => by simp [hr] at h

-- The line that declares the version and the encoding.
theorem rawToken_header :
    rawToken tables ("<?xml version=\"1.0\" encoding=\"utf-8\"?>".toList ++ rest) =
      some ([.procInst], rest) := by
  have he : "<?xml version=\"1.0\" encoding=\"utf-8\"?>".toList = '<' :: '?' :: ("xml".toList ++
      ' ' :: ('v' :: "ersion=\"1.0\" encoding=\"utf-8\"".toList ++ ['?', '>'])) := by
    decide +kernel
  rw [he]
  simp only [List.cons_append, List.append_assoc, List.nil_append]
  exact rawToken_xml (by decide) (by decide) (by decide +kernel)

end Xml
