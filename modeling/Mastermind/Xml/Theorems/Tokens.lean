import Mastermind.Xml.Theorems.Reading

namespace Xml

variable {tables : Tables} {input rest : Text}

structure Attr.Sound (a : Attr) : Prop where
  name  : IsLocal a.name.localName
  value : ∀ c ∈ a.value, isInCharacterRange c

-- What holds of the tokens of every text.
def Token.Sound : Token → Prop
  | startElement name attr => IsLocal name.localName ∧ ∀ a ∈ attr, a.Sound
  | charData data          => ∀ c ∈ data, isInCharacterRange c
  | comment data           => ¬"--".toList <:+: data
  | _                      => True

theorem inCharacterRange_text {q : Option Char} {cdata : Bool} {data : Text}
    (h : text q cdata input = some (data, rest)) : ∀ c ∈ data, isInCharacterRange c :=
  List.all_eq_true.mp (Option.filter_eq_some_iff.mp h).right

theorem inCharacterRange_attrval {value : Text} (h : attrval input = some (value, rest)) :
    ∀ c ∈ value, isInCharacterRange c := by
  cases input
  case nil => cases h
  case cons c input =>
    rw [attrval] at h
    split at h
    case isTrue  => exact inCharacterRange_text h
    case isFalse => cases h

theorem attributes_sound {n : Nat} {attr : List Attr} {empty : Bool}
    (h : attributes tables n input = some (attr, empty, rest)) : ∀ a ∈ attr, a.Sound := by
  induction n generalizing input attr
  case zero => cases h
  case succ n hi =>
    rw [attributes] at h
    split at h
    case h_1 => cases h
    case h_2 => cases h; rintro _ ⟨⟩
    case h_3 => cases h
    case h_4 => cases h; rintro _ ⟨⟩
    case h_5 =>
      simp only [Option.bind_eq_bind, Option.bind_eq_some_iff] at h
      obtain ⟨⟨_, _⟩, hn, h⟩ := h
      split at h
      case h_1 =>
        simp only [Option.bind_eq_some_iff, Option.some.injEq, exists_eq_left'] at h
        obtain ⟨⟨_, _⟩, hv, ⟨_, _⟩, ha, h⟩ := h
        cases h
        exact List.forall_mem_cons.mpr ⟨⟨isLocal_of_nsname hn, inCharacterRange_attrval hv⟩, hi ha⟩
      case h_2 => cases h

theorem rawToken_sound {toks : List Token} (h : rawToken tables input = some (toks, rest)) :
    ∀ tok ∈ toks, tok.Sound := by
  rw [rawToken.eq_def] at h
  split at h
  case h_1 =>
    simp only [Option.bind_eq_bind, Option.bind_eq_some_iff] at h
    obtain ⟨⟨_, _⟩, _, h⟩ := h
    split at h
    case h_1 => cases h; exact List.forall_mem_singleton.mpr trivial
    case h_2 => cases h
  case h_2 =>
    simp only [Option.bind_eq_bind, Option.bind_eq_some_iff] at h
    obtain ⟨⟨_, _⟩, _, ⟨_, _⟩, _, h⟩ := h
    split at h
    case isTrue  => cases h
    case isFalse => cases h; exact List.forall_mem_singleton.mpr trivial
  case h_3 =>
    split at h
    case h_1 =>
      obtain ⟨⟨_, _⟩, hc, h⟩ := Option.map_eq_some_iff.mp h
      cases h
      exact List.forall_mem_singleton.mpr (of_comment hc).right
    case h_2 => cases h
  case h_4 =>
    split at h
    case isTrue =>
      obtain ⟨⟨_, _⟩, ht, h⟩ := Option.map_eq_some_iff.mp h
      cases h
      exact List.forall_mem_singleton.mpr (inCharacterRange_text ht)
    case isFalse => cases h
  case h_5 =>
    obtain ⟨_, _, h⟩ := Option.map_eq_some_iff.mp h
    cases h
    exact List.forall_mem_singleton.mpr trivial
  case h_6 =>
    simp only [Option.bind_eq_bind, Option.bind_eq_some_iff] at h
    obtain ⟨⟨_, _⟩, hn, ⟨_, empty, _⟩, ha, h⟩ := h
    cases h
    refine List.forall_mem_cons.mpr ⟨⟨isLocal_of_nsname hn, attributes_sound ha⟩, ?_⟩
    cases empty
    case false => rintro _ ⟨⟩
    case true  => exact List.forall_mem_singleton.mpr trivial
  case h_7 =>
    obtain ⟨⟨_, _⟩, ht, h⟩ := Option.map_eq_some_iff.mp h
    cases h
    exact List.forall_mem_singleton.mpr (inCharacterRange_text ht)

theorem localName_translate {ns : Scope} {n : Name} {b : Bool} :
    (translate ns n b).localName = n.localName := by
  unfold translate
  split
  case isTrue => rfl
  split
  case isTrue => rfl
  split
  case isTrue => rfl
  split
  case isTrue  => rfl
  case isFalse => rfl

theorem Decoder.token_sound {d d' : Decoder} {tok tok' : Token} (h : tok.Sound)
    (hd : d.token tok = some (d', tok')) : tok'.Sound := by
  cases tok
  case startElement name attr =>
    cases hd
    refine ⟨localName_translate.symm ▸ h.left, fun a ha => ?_⟩
    have ⟨b, hb, he⟩ := List.mem_map.mp ha
    have ⟨hn, hv⟩ := h.right b hb
    rw [← he]
    exact ⟨localName_translate.symm ▸ hn, hv⟩
  case endElement name =>
    rw [Decoder.token] at hd
    split at hd
    case h_1 => nomatch hd
    case h_2 =>
      split at hd
      case isTrue  => cases hd; trivial
      case isFalse => nomatch hd
  all_goals
    cases hd
    exact h

end Xml
