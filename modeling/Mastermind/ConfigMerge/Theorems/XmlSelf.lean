import Mastermind.ConfigMerge.Xml

namespace ConfigMerge

open XmlNode

variable {lower fold : Char → Char}

-- The live attribute that is taken for an attribute of the template.
def liveAttr (fold : Char → Char) (live : List Xml.Attr) (attr : Xml.Attr) : Option Xml.Attr :=
  live.find? fun l => equalFold fold l.name.localName attr.name.localName

-- The live node of an element has nothing that is different: the attributes that are taken have
-- the same values, a text of a leaf is the same, and an element with children has no text and
-- children that agree with the last ones of their keys.
inductive Agrees (lower fold : Char → Char) : XmlNode → XmlNode → Prop
  | mk {node live : XmlNode}
      (attrs : ∀ a ∈ node.attrs, isIdentity lower a = false →
        ∀ l, liveAttr fold live.attrs a = some l → l.value = a.value)
      (leaf : node.children = [] → node.charData ≠ [] → live.charData ≠ [] →
        live.charData = node.charData)
      (parent : node.children ≠ [] → node.charData = [])
      (children : ∀ c ∈ node.children, ∀ l,
        childIndex lower live.children (xmlNodeKey lower c) = some l → Agrees lower fold c l) :
    Agrees lower fold node live

theorem mergeAttr_eq_iff {live : List Xml.Attr} {a : Xml.Attr} :
    (mergeAttr lower fold live a).1 = a ↔ (isIdentity lower a = false →
      ∀ l, liveAttr fold live a = some l → l.value = a.value) := by
  rw [mergeAttr, ← liveAttr]
  split
  case isTrue h => simp [h]
  case isFalse h =>
    rw [Bool.not_eq_true] at h
    cases liveAttr fold live a
    case none => simp
    case some l =>
      have ⟨name, value⟩ := a
      simp [h]

theorem mergeAttrs_eq_iff {live attrs : List Xml.Attr} :
    (attrs.map (mergeAttr lower fold live)).map Prod.fst = attrs ↔
      ∀ a ∈ attrs, isIdentity lower a = false →
        ∀ l, liveAttr fold live a = some l → l.value = a.value := by
  nth_rewrite 2 [← List.map_id attrs]
  rw [List.map_map, List.map_inj_left]
  exact forall₂_congr fun _ _ => mergeAttr_eq_iff

theorem agrees_iff {node live : XmlNode} : Agrees lower fold node live ↔
    (∀ a ∈ node.attrs, isIdentity lower a = false →
      ∀ l, liveAttr fold live.attrs a = some l → l.value = a.value) ∧
    (node.children = [] → node.charData ≠ [] → live.charData ≠ [] →
      live.charData = node.charData) ∧
    (node.children ≠ [] → node.charData = []) ∧
    ∀ c ∈ node.children, ∀ l,
      childIndex lower live.children (xmlNodeKey lower c) = some l → Agrees lower fold c l :=
  ⟨fun ⟨attrs, leaf, parent, children⟩ => ⟨attrs, leaf, parent, children⟩,
    fun ⟨attrs, leaf, parent, children⟩ => ⟨attrs, leaf, parent, children⟩⟩

mutual

theorem mergeXMLNode_eq_iff : (node live : XmlNode) →
    ((mergeXMLNode lower fold node (some live)).1 = node ↔ Agrees lower fold node live)
  | mk name attrs children charData comments, live => by
    rw [mergeXMLNode, agrees_iff]
    simp only [attrs_mk, children_mk, charData_mk]
    rw [← mergeAttrs_eq_iff]
    by_cases hc : children = []
    case pos =>
      rw [if_pos hc]
      by_cases ht : charData ≠ [] ∧ live.charData ≠ [] ∧ live.charData ≠ charData
      case pos => simp [ht, hc]
      case neg =>
        rw [if_neg ht]
        simp_all
    case neg =>
      rw [if_neg hc, ← mergeXMLNodes_eq_iff children (childIndex lower live.children)]
      constructor
      case mp =>
        intro h
        have ⟨_, ha, hm, ht, _⟩ := mk.inj h
        exact ⟨ha, fun hn => absurd hn hc, fun _ => ht.symm, hm⟩
      case mpr =>
        intro ⟨ha, _, ht, hm⟩
        rw [ht hc]
        exact congrArg₂ (fun attrs children => mk name attrs children [] comments) ha hm

theorem mergeXMLNodes_eq_iff : (nodes : List XmlNode) → (index : Text → Option XmlNode) →
    ((mergeXMLNodes lower fold nodes index).1 = nodes ↔
      ∀ n ∈ nodes, ∀ l, index (xmlNodeKey lower n) = some l → Agrees lower fold n l)
  | [], index            => by simp [mergeXMLNodes]
  | node :: nodes, index => by
    rw [mergeXMLNodes, List.forall_mem_cons, ← mergeXMLNodes_eq_iff nodes index, List.cons.injEq]
    refine and_congr_left fun _ => ?_
    cases index (xmlNodeKey lower node)
    case none   => simp [mergeXMLNode]
    case some l => simp [mergeXMLNode_eq_iff node l]

end

-- The elements of a forest agree with what the index of the forest has for their keys.
def SelfAgrees (lower fold : Char → Char) (t : List XmlNode) : Prop :=
  ∀ n ∈ t, ∀ l, buildXMLIndex lower t (xmlNodeKey lower n) = some l → Agrees lower fold n l

-- A merge of a forest with itself keeps it if and only if its elements agree with each other.
theorem xml_merge_self_iff (lower fold : Char → Char) (t : List XmlNode) :
    (mergeXMLNodes lower fold t (buildXMLIndex lower t)).1 = t ↔ SelfAgrees lower fold t :=
  mergeXMLNodes_eq_iff t _

-- Two elements of a list, of which both become the last one.
theorem xml_merge_self_breaks : ¬∀ (tables : Xml.Tables) (lower fold : Char → Char)
    (content : Text) (t : List XmlNode), parseXMLDoc tables content = some t →
      (mergeXMLNodes lower fold t (buildXMLIndex lower t)).1 = t := by
  intro h
  let texts (t : List XmlNode) := t.map fun n => n.children.map (·.charData)
  have hm : (parseXMLDoc ⟨fun _ => false, fun _ => false⟩
        "<ops><op>alice</op><op>bob</op></ops>".toList).map (fun t =>
          texts (mergeXMLNodes Char.toLower Char.toLower t (buildXMLIndex Char.toLower t)).1) =
      (parseXMLDoc ⟨fun _ => false, fun _ => false⟩
        "<ops><op>alice</op><op>bob</op></ops>".toList).map texts :=
    Option.map_congr fun t ht => congrArg texts (h _ _ _ _ t ht)
  exact absurd hm (by decide +kernel)

end ConfigMerge
