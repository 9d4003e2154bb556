import Mastermind.ConfigMerge.Theorems.XmlParsed

namespace ConfigMerge

open XmlNode

variable {tables : Xml.Tables} {attrs : List Xml.Attr} {s t rest : Text} {n : Nat}

theorem xmlEscapeText_eq : xmlEscapeText s = s.flatMap (Xml.escape false) := by
  refine List.flatMap_congr fun c _ => ?_
  have hq : ¬(false = true ∧ c = '"') := fun h => nomatch h.left
  rw [Xml.escape, if_neg hq]

theorem xmlEscapeAttr_eq : xmlEscapeAttr s = s.flatMap (Xml.escape true) := by
  refine List.flatMap_assoc.trans (List.flatMap_congr fun c _ => ?_)
  rw [Xml.escape]
  split
  case isTrue => rfl
  split
  case isTrue => rfl
  split
  case isTrue  => rfl
  case isFalse =>
    rw [List.flatMap_singleton]
    exact if_congr (and_iff_right rfl).symm rfl rfl

-- An attribute as it is read again.
def rereadAttr (a : Xml.Attr) : Xml.Attr :=
  ⟨⟨[], a.name.localName⟩, Xml.newlines a.value⟩

-- The attributes of a start tag can be read if their names are names without their prefixes, too.
theorem attributes_printed (ha : ∀ a ∈ attrs, a.Sound) :
    Xml.attributes tables (attrs.length + n) (attrs.flatMap writeAttr ++ t) =
      if attrs.all fun a => Xml.isName tables a.name.localName then
        (Xml.attributes tables n t).map fun (attr, empty, rest) =>
          (attrs.map rereadAttr ++ attr, empty, rest)
      else none := by
  induction attrs
  case nil =>
    rw [List.all_nil, if_pos rfl]
    simp
  case cons a attrs hi =>
    have ⟨⟨hn, hv⟩, ha⟩ := List.forall_mem_cons.mp ha
    have he : (a :: attrs).flatMap writeAttr ++ t = ' ' :: a.name.localName ++ "=\"".toList ++
        a.value.flatMap (Xml.escape true) ++ '"' :: (attrs.flatMap writeAttr ++ t) := by
      simp only [List.flatMap_cons, writeAttr, xmlEscapeAttr_eq, List.append_assoc,
        List.cons_append, List.nil_append]
    rw [he, List.length_cons, Nat.add_right_comm, Xml.attributes_cons hn hv, hi ha, List.all_cons]
    by_cases hs : Xml.isName tables a.name.localName
    case neg => simp [hs]
    case pos =>
      rw [if_pos hs, hs, Bool.true_and]
      split
      case isTrue =>
        rw [Option.map_map]
        rfl
      case isFalse => rfl

theorem length_le_attrs : attrs.length ≤ (attrs.flatMap writeAttr).length := by
  induction attrs
  case nil => rfl
  case cons a attrs hi =>
    simp only [List.flatMap_cons, writeAttr, List.length_append, List.length_cons]
    omega

-- A start tag with what follows its attributes.
theorem rawToken_tag {name : Text} {c : Char} {empty : Bool} (hn : Xml.IsLocal name)
    (ha : ∀ a ∈ attrs, a.Sound) (hc : Xml.isNameChar c = false)
    (he : ∀ n, Xml.attributes tables (n + 1) (c :: t) = some ([], empty, rest)) :
    Xml.rawToken tables ('<' :: (name ++ (attrs.flatMap writeAttr ++ c :: t))) =
      if Xml.isName tables name && attrs.all fun a => Xml.isName tables a.name.localName then
        some (.startElement ⟨[], name⟩ (attrs.map rereadAttr) ::
          if empty then [.endElement ⟨[], name⟩] else [], rest)
      else none := by
  have ⟨d, u, hu, hd⟩ : ∃ d u, attrs.flatMap writeAttr ++ c :: t = d :: u ∧
      Xml.isNameChar d = false := by
    cases attrs
    case nil  => exact ⟨c, t, rfl, hc⟩
    case cons => exact ⟨' ', _, rfl, by decide⟩
  have ⟨m, hm⟩ : ∃ m, (d :: u).length.succ = attrs.length + (m + 1) := by
    have hl : attrs.length ≤ (attrs.flatMap writeAttr).length := length_le_attrs
    rw [← hu, List.length_append]
    exact ⟨(attrs.flatMap writeAttr).length + (c :: t).length - attrs.length, by omega⟩
  rw [Xml.rawToken_start hn, hu, Xml.nsname_append hn hd]
  by_cases hs : Xml.isName tables name
  case neg =>
    rw [if_neg hs]
    simp [hs]
  case pos =>
    rw [if_pos hs, hs, Bool.true_and, Option.bind_eq_bind, Option.bind_some]
    dsimp only
    rw [hm, ← hu, attributes_printed ha, he]
    split
    case isTrue  => simp
    case isFalse => rfl

end ConfigMerge
