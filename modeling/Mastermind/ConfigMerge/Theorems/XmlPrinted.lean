import Mastermind.ConfigMerge.Theorems.XmlReread

open Agent (isSpace)
open Xml (xmlnsPrefix)

namespace ConfigMerge

open XmlNode

variable {tables : Xml.Tables} {attrs : List Xml.Attr} {a : Xml.Attr} {s : Text}

-- Nothing of a node is lost when it is printed and read again, where `d` is the name space of
-- elements without a prefix around it: its local names are names, no other name space is used, a
-- leaf has no comments, an element with children has no text, and there are no carriage returns.
inductive Kept (tables : Xml.Tables) : Text → XmlNode → Prop
  | mk {d : Text} {node : XmlNode}
      (name : Xml.isName tables node.name.localName)
      (space : node.name.space =
        if node.name.localName = xmlnsPrefix then [] else defaultSpace d node.attrs)
      (attrNames : ∀ a ∈ node.attrs, Xml.isName tables a.name.localName)
      (attrs : ∀ a ∈ node.attrs, a.name.space = [] ∧ '\r' ∉ a.value)
      (leaf : node.children = [] → '\r' ∉ node.charData ∧ node.comments = [])
      (parent : node.children ≠ [] → node.charData = [])
      (children : ∀ c ∈ node.children, Kept tables (defaultSpace d node.attrs) c) :
    Kept tables d node

theorem kept_iff {d : Text} {node : XmlNode} : Kept tables d node ↔
    Xml.isName tables node.name.localName ∧
    (node.name.space =
      if node.name.localName = xmlnsPrefix then [] else defaultSpace d node.attrs) ∧
    (∀ a ∈ node.attrs, Xml.isName tables a.name.localName) ∧
    (∀ a ∈ node.attrs, a.name.space = [] ∧ '\r' ∉ a.value) ∧
    (node.children = [] → '\r' ∉ node.charData ∧ node.comments = []) ∧
    (node.children ≠ [] → node.charData = []) ∧
    ∀ c ∈ node.children, Kept tables (defaultSpace d node.attrs) c :=
  ⟨fun ⟨h₁, h₂, h₃, h₄, h₅, h₆, h₇⟩ => ⟨h₁, h₂, h₃, h₄, h₅, h₆, h₇⟩,
    fun ⟨h₁, h₂, h₃, h₄, h₅, h₆, h₇⟩ => ⟨h₁, h₂, h₃, h₄, h₅, h₆, h₇⟩⟩

theorem newlines_eq_iff : Xml.newlines s = s ↔ '\r' ∉ s :=
  ⟨fun h => h ▸ Xml.not_mem_newlines, Xml.newlines_eq⟩

theorem trimSpace_newlines_eq_iff (h : Trim.Trimmed isSpace s) :
    trimSpace (Xml.newlines s) = s ↔ '\r' ∉ s := by
  constructor
  case mp =>
    intro he hm
    rw [← he] at hm
    exact Xml.not_mem_newlines (Trim.trim_sublist.mem hm)
  case mpr =>
    intro hn
    rw [newlines_eq_iff.mpr hn]
    exact h.trim

theorem rereadAttr_eq_iff : rereadAttr a = a ↔ a.name.space = [] ∧ '\r' ∉ a.value := by
  have ⟨⟨space, localName⟩, value⟩ := a
  simp only [rereadAttr, Xml.Attr.mk.injEq, Xml.Name.mk.injEq, and_true, newlines_eq_iff,
    eq_comm (a := ([] : Text))]

theorem rereadAttrs_eq_iff :
    attrs.map rereadAttr = attrs ↔ ∀ a ∈ attrs, a.name.space = [] ∧ '\r' ∉ a.value := by
  nth_rewrite 2 [← List.map_id attrs]
  rw [List.map_inj_left]
  exact forall₂_congr fun _ _ => rereadAttr_eq_iff

-- The equations between the fields of a node and the fields that are read again.
theorem reread_eq_iff {d : Text} {name : Xml.Name} {children : List XmlNode} {charData : Text}
    {comments : List Text} :
    reread d (mk name attrs children charData comments) =
        mk name attrs children charData comments ↔
      (name.space = if name.localName = xmlnsPrefix then [] else defaultSpace d attrs) ∧
      attrs.map rereadAttr = attrs ∧
      (children = [] → trimSpace (Xml.newlines charData) = charData ∧ comments = []) ∧
      (children ≠ [] → charData = []) ∧
      rereads (defaultSpace d attrs) children = children := by
  have hs (l : Text) : (⟨l, name.localName⟩ : Xml.Name) = name ↔ name.space = l :=
    ⟨fun h => h ▸ rfl, fun h => h ▸ rfl⟩
  by_cases ha : attrs.map rereadAttr = attrs
  case neg =>
    refine iff_of_false (fun h => ha ?_) fun h => ha h.right.left
    rw [reread] at h
    split at h
    case isTrue  => exact (mk.inj h).right.left
    case isFalse => exact (mk.inj h).right.left
  case pos =>
    rw [reread, ha, rereadName]
    by_cases hc : children = []
    case pos =>
      rw [if_pos hc, mk.injEq, hs, hc, rereads]
      simp [eq_comm (a := ([] : List Text))]
    case neg =>
      rw [if_neg hc, mk.injEq, hs]
      simp only [hc, true_and, and_true, ne_eq, not_false_eq_true, false_imp_iff, true_imp_iff,
        eq_comm (a := ([] : Text))]
      exact and_congr_right fun _ => and_comm

mutual

theorem kept_iff_reread : (node : XmlNode) → Parsed node → ∀ d,
    ((isNamed tables node ∧ reread d node = node) ↔ Kept tables d node)
  | mk name attrs children charData comments, ⟨_, _, _, trimmed, _, hp⟩, d => by
    have hc := kept_iff_rereads children hp (defaultSpace d attrs)
    have trimmed : Trim.Trimmed isSpace charData := trimmed
    rw [kept_iff, reread_eq_iff, rereadAttrs_eq_iff, trimSpace_newlines_eq_iff trimmed, isNamed,
      Bool.and_eq_true, Bool.and_eq_true, List.all_eq_true]
    simp only [name_mk, attrs_mk, children_mk, charData_mk, comments_mk, ← hc]
    tauto

theorem kept_iff_rereads : (nodes : List XmlNode) → (∀ n ∈ nodes, Parsed n) → ∀ d,
    ((areNamed tables nodes ∧ rereads d nodes = nodes) ↔ ∀ n ∈ nodes, Kept tables d n)
  | [], _, d             => by simp [areNamed, rereads]
  | node :: nodes, hp, d => by
    have ⟨hn, hp⟩ := List.forall_mem_cons.mp hp
    rw [List.forall_mem_cons, ← kept_iff_reread node hn d, ← kept_iff_rereads nodes hp d, areNamed,
      rereads, Bool.and_eq_true, List.cons.injEq]
    exact and_and_and_comm

end

-- A forest that has been read is kept by printing it if and only if nothing of it gets lost.
theorem xml_reread_iff (tables : Xml.Tables) (content : Text) (t : List XmlNode)
    (h : parseXMLDoc tables content = some t) :
    parseXMLDoc tables (serializeXML t) = some t ↔ ∀ n ∈ t, Kept tables [] n := by
  have hp := parseXMLDoc_parsed h
  rw [parseXMLDoc_serializeXML hp, ← kept_iff_rereads t hp]
  by_cases hn : areNamed tables t
  case pos => rw [if_pos hn, Option.some.injEq, and_iff_right hn]
  case neg => rw [if_neg hn]; exact iff_of_false nofun fun h => hn h.left

def noLetters : Xml.Tables :=
  ⟨fun _ => false, fun _ => false⟩

-- A document with attributes, text, a comment and children, and what it is read as.
def serverDocument : Text :=
  "<server motd='a &lt; b'>\n<!-- worlds --><world seed='7'>flat &amp; wide</world><nether/>\n</server>".toList

def serverForest : List XmlNode :=
  [mk ⟨[], "server".toList⟩ [⟨⟨[], "motd".toList⟩, "a < b".toList⟩]
    [mk ⟨[], "world".toList⟩ [⟨⟨[], "seed".toList⟩, ['7']⟩] [] "flat & wide".toList [],
      mk ⟨[], "nether".toList⟩ [] [] [] []]
    [] ["worlds".toList]]

theorem xml_reread_server :
    parseXMLDoc noLetters serverDocument = some serverForest ∧
    parseXMLDoc noLetters (serializeXML serverForest) = some serverForest := by
  have hr : parseXMLDoc noLetters serverDocument = some serverForest := by decide +kernel
  have hk : ∀ n ∈ serverForest, Kept noLetters [] n := by
    rw [← kept_iff_rereads serverForest (parseXMLDoc_parsed hr)]
    decide +kernel
  exact ⟨hr, (xml_reread_iff noLetters serverDocument serverForest hr).mpr hk⟩

-- The text of an element with children is not printed.
theorem xml_printing_loses_text : ¬∀ (tables : Xml.Tables) (content : Text) (t : List XmlNode),
    parseXMLDoc tables content = some t → parseXMLDoc tables (serializeXML t) = some t := by
  intro h
  let t := [mk ⟨[], "motd".toList⟩ [] [mk ⟨[], "br".toList⟩ [] [] [] []] "hello".toList []]
  have hm : parseXMLDoc noLetters (serializeXML t) = some t :=
    h noLetters "<motd>hello<br/></motd>".toList t (by decide +kernel)
  exact absurd hm (by decide +kernel)

end ConfigMerge
