import Mastermind.ConfigMerge.Xml
import Mastermind.Xml.Theorems.Tokens

open Agent (isSpace)
open Trim (Trimmed)

namespace ConfigMerge

open XmlNode

variable {tables : Xml.Tables} {stack roots : List XmlNode} {s s' : XmlState} {tok : Xml.Token}

-- What holds of the text of a comment: it is not blank at its ends and can be put into a comment.
structure IsComment (c : Text) : Prop where
  nonempty : c ≠ []
  trimmed  : Trimmed isSpace c
  hyphens  : ¬"--".toList <:+: c

-- The nodes that can come from a text.
inductive Parsed : XmlNode → Prop
  | mk {node : XmlNode}
      (name : Xml.IsLocal node.name.localName)
      (attrs : ∀ a ∈ node.attrs, a.Sound)
      (chars : ∀ c ∈ node.charData, Xml.isInCharacterRange c)
      (trimmed : Trimmed isSpace node.charData)
      (comments : ∀ c ∈ node.comments, IsComment c)
      (children : ∀ n ∈ node.children, Parsed n) :
    Parsed node

theorem parsed_start {name : Xml.Name} {attr : List Xml.Attr} (hn : Xml.IsLocal name.localName)
    (ha : ∀ a ∈ attr, a.Sound) : Parsed (mk name attr [] [] []) :=
  ⟨hn, ha, nofun, ⟨nofun, nofun⟩, nofun, nofun⟩

theorem addToken_parsed (hs : ∀ n ∈ stack, Parsed n) (hr : ∀ n ∈ roots, Parsed n)
    (ht : tok.Sound) :
    (∀ n ∈ (addToken stack roots tok).1, Parsed n) ∧
      ∀ n ∈ (addToken stack roots tok).2, Parsed n := by
  unfold addToken
  split
  case h_1 name attr => exact ⟨List.forall_mem_cons.mpr ⟨parsed_start ht.left ht.right, hs⟩, hr⟩
  case h_2 node name attrs children charData comments stack =>
    have ⟨hn, hs⟩ := List.forall_mem_cons.mp hs
    have ⟨⟨name, attrs, chars, trimmed, comments, children⟩, hs⟩ := List.forall_mem_cons.mp hs
    refine ⟨List.forall_mem_cons.mpr ⟨⟨name, attrs, chars, trimmed, comments, ?_⟩, hs⟩, hr⟩
    exact List.forall_mem_append.mpr ⟨children, List.forall_mem_singleton.mpr hn⟩
  case h_3 node => exact ⟨nofun, List.forall_mem_append.mpr ⟨hr, hs⟩⟩
  case h_4 data name attrs children charData comments stack =>
    have ⟨⟨name, attrs, chars, trimmed, comments, children⟩, hs⟩ := List.forall_mem_cons.mp hs
    refine ⟨List.forall_mem_cons.mpr ⟨⟨name, attrs, ?_, ?_, comments, children⟩, hs⟩, hr⟩
    case refine_1 =>
      rw [charData_mk]
      split
      case isTrue  => exact fun c hc => ht c (Trim.trim_sublist.mem hc)
      case isFalse => exact chars
    case refine_2 =>
      rw [charData_mk]
      split
      case isTrue  => exact Trim.trimmed_trim
      case isFalse => exact trimmed
  case h_5 data name attrs children charData comments stack =>
    have ⟨⟨name, attrs, chars, trimmed, comments, children⟩, hs⟩ := List.forall_mem_cons.mp hs
    refine ⟨List.forall_mem_cons.mpr ⟨⟨name, attrs, chars, trimmed, ?_, children⟩, hs⟩, hr⟩
    rw [comments_mk]
    split
    case isTrue hne =>
      refine List.forall_mem_append.mpr ⟨comments, List.forall_mem_singleton.mpr ?_⟩
      refine ⟨hne, Trim.trimmed_trim, fun h => ht (h.trans ?_)⟩
      exact ((List.rdropWhile_prefix ..).isInfix).trans (List.dropWhile_suffix _).isInfix
    case isFalse => exact comments
  case h_6 => exact ⟨hs, hr⟩

-- The nodes of a state of the parser can come from a text.
def XmlState.Parsed (s : XmlState) : Prop :=
  (∀ n ∈ s.stack, ConfigMerge.Parsed n) ∧ ∀ n ∈ s.roots, ConfigMerge.Parsed n

theorem readToken_parsed (hs : s.Parsed) (ht : tok.Sound) (h : readToken s tok = some s') :
    s'.Parsed := by
  simp only [readToken, Option.bind_eq_bind, Option.bind_eq_some_iff] at h
  obtain ⟨⟨_, _⟩, hd, h⟩ := h
  cases h
  exact addToken_parsed hs.left hs.right (Xml.Decoder.token_sound ht hd)

theorem readAll_parsed {toks : List Xml.Token} (hs : s.Parsed) (ht : ∀ tok ∈ toks, tok.Sound)
    (h : toks.foldlM readToken s = some s') : s'.Parsed := by
  induction toks generalizing s
  case nil => cases h; exact hs
  case cons tok toks hi =>
    have ⟨htok, ht⟩ := List.forall_mem_cons.mp ht
    rw [List.foldlM_cons, Option.bind_eq_bind, Option.bind_eq_some_iff] at h
    have ⟨_, hr, h⟩ := h
    exact hi (readToken_parsed hs htok hr) ht h

theorem readTokens_nil {n : Nat} :
    readTokens tables n s [] = if s.decoder.stk = [] then some s.roots else none := by
  cases n <;> rfl

theorem readTokens_cons {n : Nat} {c : Char} {input : Text} :
    readTokens tables (n + 1) s (c :: input) = (do
      let (toks, rest) ← Xml.rawToken tables (c :: input)
      let s ← toks.foldlM readToken s
      readTokens tables n s rest) :=
  rfl

theorem readTokens_parsed {n : Nat} {input : Text} {t : List XmlNode} (hs : s.Parsed)
    (h : readTokens tables n s input = some t) : ∀ node ∈ t, Parsed node := by
  induction n generalizing s input <;> cases input
  case zero.nil | succ.nil =>
    rw [readTokens_nil] at h
    split at h
    case isTrue  => cases h; exact hs.right
    case isFalse => cases h
  case zero.cons => cases h
  case succ.cons n hi c input =>
    simp only [readTokens_cons, Option.bind_eq_bind, Option.bind_eq_some_iff] at h
    obtain ⟨⟨_, _⟩, hr, _, hf, h⟩ := h
    exact hi (readAll_parsed hs (Xml.rawToken_sound hr) hf) h

theorem parseXMLDoc_parsed {content : Text} {t : List XmlNode}
    (h : parseXMLDoc tables content = some t) : ∀ node ∈ t, Parsed node :=
  readTokens_parsed ⟨List.forall_mem_nil _, List.forall_mem_nil _⟩ h

end ConfigMerge
