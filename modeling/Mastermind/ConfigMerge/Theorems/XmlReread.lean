import Mastermind.ConfigMerge.Theorems.XmlLeads

open Agent (isSpace)
open Xml (xmlnsPrefix)

namespace ConfigMerge

open XmlNode

variable {tables : Xml.Tables} {s : XmlState} {w rest : Text} {d name : Text}
variable {attrs : List Xml.Attr} {node n : XmlNode} {nodes : List XmlNode}

-- The name space of elements without a prefix, inside of a start tag.
def defaultSpace (d : Text) (attrs : List Xml.Attr) : Text :=
  attrs.foldl (fun d a => if a.name.localName = xmlnsPrefix then a.value else d) d

def rereadName (d : Text) (name : Xml.Name) (attrs : List Xml.Attr) : Xml.Name :=
  ⟨if name.localName = xmlnsPrefix then [] else defaultSpace d attrs, name.localName⟩

mutual

-- A node as it is read again, where `d` is the name space of elements without a prefix.
def reread (d : Text) : XmlNode → XmlNode
  | mk name attrs children charData comments =>
    let attrs := attrs.map rereadAttr
    if children = [] then
      mk (rereadName d name attrs) attrs [] (trimSpace (Xml.newlines charData)) []
    else mk (rereadName d name attrs) attrs (rereads (defaultSpace d attrs) children) [] comments

def rereads (d : Text) : List XmlNode → List XmlNode
  | []            => []
  | node :: nodes => reread d node :: rereads d nodes

end

mutual

-- All local names are names.
def isNamed (tables : Xml.Tables) : XmlNode → Bool
  | mk name attrs children _ _ =>
    Xml.isName tables name.localName &&
      (attrs.all fun a => Xml.isName tables a.name.localName) && areNamed tables children

def areNamed (tables : Xml.Tables) : List XmlNode → Bool
  | []            => true
  | node :: nodes => isNamed tables node && areNamed tables nodes

end

namespace XmlState

-- The name space of elements without a prefix.
def space (s : XmlState) : Text :=
  (s.decoder.ns []).getD []

-- The state inside of an element, which is `node` so far.
def inside (s : XmlState) (name : Text) (attrs : List Xml.Attr) (node : XmlNode) : XmlState where
  decoder := {
    stk := (⟨[], name⟩, s.decoder.ns) :: s.decoder.stk
    ns  := Xml.declare s.decoder.ns attrs
  }
  stack := node :: s.stack
  roots := s.roots

-- The state after an element.
def add (s : XmlState) (node : XmlNode) : XmlState where
  decoder := s.decoder
  stack   := (addToken (node :: s.stack) s.roots (.endElement ⟨[], []⟩)).1
  roots   := (addToken (node :: s.stack) s.roots (.endElement ⟨[], []⟩)).2

end XmlState

theorem rereadAttr_rereadAttr : ∀ a ∈ attrs.map rereadAttr, a.name.space = [] := by
  intro a ha
  have ⟨_, _, h⟩ := List.mem_map.mp ha
  rw [← h]
  rfl

theorem declare_plain {ns : Xml.Scope} (h : ∀ a ∈ attrs, a.name.space = []) :
    ((Xml.declare ns attrs) []).getD [] = defaultSpace ((ns []).getD []) attrs := by
  induction attrs generalizing ns
  case nil => rfl
  case cons a attrs hi =>
    have ⟨ha, h⟩ := List.forall_mem_cons.mp h
    rw [Xml.declare, List.foldl_cons, ← Xml.declare, hi h, defaultSpace, defaultSpace,
      List.foldl_cons]
    congr 1
    have ⟨⟨space, localName⟩, value⟩ := a
    cases ha
    have hn : ¬([] : Text) = xmlnsPrefix := nofun
    by_cases hx : localName = xmlnsPrefix
    case pos =>
      rw [if_neg hn, hx, if_pos rfl, if_pos rfl, Function.update_self]
      rfl
    case neg => rw [if_neg hn, if_neg fun h => hx (Xml.Name.mk.inj h).right, if_neg hx]

theorem space_inside (h : ∀ a ∈ attrs, a.name.space = []) :
    (s.inside name attrs node).space = defaultSpace s.space attrs :=
  declare_plain h

theorem translate_attr {ns : Xml.Scope} {n : Xml.Name} (h : n.space = []) :
    Xml.translate ns n false = n := by
  rw [Xml.translate, if_neg (by rw [h]; nofun), if_pos ⟨h, rfl⟩]

theorem translate_element {ns : Xml.Scope} : Xml.translate ns ⟨[], name⟩ true =
    ⟨if name = xmlnsPrefix then [] else (ns []).getD [], name⟩ := by
  rw [Xml.translate, if_neg nofun, if_neg nofun, if_neg nofun]
  split
  case isTrue h  => rw [if_pos h.right]
  case isFalse h => rw [if_neg fun hn => h ⟨rfl, hn⟩]

theorem readToken_start (h : ∀ a ∈ attrs, a.name.space = []) :
    readToken s (.startElement ⟨[], name⟩ attrs) = some (s.inside name attrs
      (mk ⟨if name = xmlnsPrefix then [] else defaultSpace s.space attrs, name⟩
        attrs [] [] [])) := by
  have hm : (attrs.map fun a => { a with
      name := Xml.translate (Xml.declare s.decoder.ns attrs) a.name false }) = attrs := by
    refine (List.map_congr_left (g := id) fun a ha => ?_).trans (List.map_id attrs)
    rw [translate_attr (h a ha)]
    rfl
  simp only [readToken, Xml.Decoder.token, Option.bind_eq_bind, Option.bind_some, hm,
    translate_element, declare_plain h, addToken]
  rfl

theorem readToken_end :
    readToken (s.inside name attrs node) (.endElement ⟨[], name⟩) = some (s.add node) := by
  obtain ⟨decoder, stack, roots⟩ := s
  rw [readToken, Xml.Decoder.token]
  dsimp only [XmlState.inside]
  rw [if_pos rfl]
  cases stack
  case nil => rfl
  case cons parent stack =>
    obtain ⟨_, _, _, _, _⟩ := parent
    rfl

variable {children : List XmlNode} {charData : Text} {comments : List Text} {name' : Xml.Name}

theorem inside_add : (s.inside name attrs (mk name' attrs children charData comments)).add node =
    s.inside name attrs (mk name' attrs (children ++ [node]) charData comments) :=
  rfl

theorem foldl_inside_add :
    nodes.foldl XmlState.add (s.inside name attrs (mk name' attrs children charData comments)) =
      s.inside name attrs (mk name' attrs (children ++ nodes) charData comments) := by
  induction nodes generalizing children
  case nil => rw [List.append_nil]; rfl
  case cons node nodes hi => rw [List.foldl_cons, inside_add, hi, List.append_assoc]; rfl

theorem foldl_add_roots {decoder : Xml.Decoder} {roots : List XmlNode} :
    nodes.foldl XmlState.add { decoder, roots } = { decoder, roots := roots ++ nodes } := by
  induction nodes generalizing roots
  case nil => rw [List.append_nil]; rfl
  case cons node nodes hi =>
    have hr : XmlState.add { decoder, roots } node = { decoder, roots := roots ++ [node] } := rfl
    rw [List.foldl_cons, hr, hi, List.append_assoc]
    rfl

theorem readToken_text {data : Text} :
    readToken (s.inside name attrs (mk name' attrs [] [] [])) (.charData data) =
      some (s.inside name attrs (mk name' attrs [] (trimSpace data) [])) := by
  simp only [readToken, Xml.Decoder.token, Option.bind_eq_bind, Option.bind_some,
    XmlState.inside, addToken]
  by_cases h : trimSpace data = []
  case pos => simp [h]
  case neg => simp [h]

theorem readToken_comment {c : Text} (hc : trimSpace c ≠ []) :
    readToken (s.inside name attrs (mk name' attrs children charData comments)) (.comment c) =
      some (s.inside name attrs
        (mk name' attrs children charData (comments ++ [trimSpace c]))) := by
  simp only [readToken, Xml.Decoder.token, Option.bind_eq_bind, Option.bind_some,
    XmlState.inside, addToken, if_pos hc]

theorem IsComment.printed {c : Text} (h : IsComment c) :
    ¬"--".toList <:+: ' ' :: c ++ [' '] ++ ['-'] := by
  have hn : ' ' ∉ "--".toList := by decide
  have hc := h.hyphens
  rw [List.append_assoc, List.cons_append, List.infix_cons_iff, not_or]
  refine ⟨fun ⟨_, hu⟩ => absurd (List.cons.inj hu).left (by decide), ?_⟩
  clear h
  induction c
  case nil => decide
  case cons d c hi =>
    rw [List.infix_cons_iff, not_or] at hc
    rw [List.cons_append, List.infix_cons_iff, not_or]
    refine ⟨fun hp => ?_, hi hc.right⟩
    exact (Xml.prefix_or_head hp).elim hc.left fun ⟨_, he, ht⟩ => hn (Option.some.inj ht ▸ he)

theorem IsComment.trimSpace {c : Text} (h : IsComment c) : trimSpace (' ' :: c ++ [' ']) = c := by
  have hb : ∀ d ∈ [' '], isSpace d := List.forall_mem_singleton.mpr rfl
  have hh : ∀ d ∈ (c ++ [' ']).head?, isSpace d = false := fun d hd => by
    rw [List.head?_append_of_ne_nil _ h.nonempty] at hd
    exact h.trimmed.head d hd
  rw [ConfigMerge.trimSpace, List.cons_append, ← List.singleton_append, Trim.trim_append_left hb,
    Trim.trim_of_head hh, Trim.rdropWhile_append hb, Trim.rdropWhile_last h.trimmed.last]

theorem leads_comments {p : Text} {done : List Text} {o : Option (XmlState × Text)} (hp : Blanks p)
    (hc : ∀ c ∈ comments, IsComment c) (hw : Blanks w)
    (h : ∀ w, Blanks w → Leads tables (s.inside name attrs
      (mk name' attrs children charData (done ++ comments))) (w ++ rest) o) :
    Leads tables (s.inside name attrs (mk name' attrs children charData done))
      (w ++ (comments.flatMap fun c => p ++ "  <!-- ".toList ++ c ++ " -->\n".toList) ++ rest)
      o := by
  induction comments generalizing w done
  case nil =>
    rw [List.append_nil] at h
    rw [List.flatMap_nil, List.append_nil]
    exact h w hw
  case cons c comments hi =>
    have ⟨hc, hcs⟩ := List.forall_mem_cons.mp hc
    let more := (comments.flatMap fun c => p ++ "  <!-- ".toList ++ c ++ " -->\n".toList) ++ rest
    have he : w ++ ((c :: comments).flatMap fun c =>
          p ++ "  <!-- ".toList ++ c ++ " -->\n".toList) ++ rest =
        w ++ (p ++ [' ', ' ']) ++ ("<!--".toList ++ (' ' :: c ++ [' ']) ++ "-->".toList ++
          (['\n'] ++ more)) := by
      have h1 : "  <!-- ".toList = [' ', ' '] ++ ("<!--".toList ++ [' ']) := by decide
      have h2 : " -->\n".toList = [' '] ++ ("-->".toList ++ ['\n']) := by decide
      simp only [List.flatMap_cons, h1, h2, more, List.append_assoc, List.cons_append,
        List.nil_append]
    have ht : ∀ d ∈ ("<!--".toList ++ (' ' :: c ++ [' ']) ++ "-->".toList ++
        (['\n'] ++ more)).head?, d = '<' := fun d hd => (Option.some.inj hd).symm
    have hr : readToken (s.inside name attrs (mk name' attrs children charData done))
        (.comment (' ' :: c ++ [' '])) = some (s.inside name attrs
          (mk name' attrs children charData (done ++ [c]))) := by
      rw [readToken_comment (by rw [hc.trimSpace]; exact hc.nonempty), hc.trimSpace]
    rw [he]
    refine .trans (.blanks (hw.append (hp.append (by decide))) ht) (.trans (.reads
      (Xml.rawToken_comment hc.printed) ?_ (by rw [List.foldlM_cons, hr]; rfl)) ?_)
    case refine_1 =>
      simp only [List.length_append]
      have hl : 0 < "<!--".toList.length := by decide
      omega
    case refine_2 =>
      rw [← List.append_assoc]
      refine hi hcs (by decide) ?_
      rw [List.append_assoc done, List.singleton_append]
      exact h

section

variable (hw : Blanks w) (hn : Xml.IsLocal name) (ha : ∀ a ∈ attrs, a.Sound)

include hw hn

theorem leads_end (hs : Xml.isName tables name) :
    Leads tables (s.inside name (attrs.map rereadAttr) node)
      (w ++ ("</".toList ++ name ++ '>' :: rest)) (some (s.add node, rest)) := by
  have ht : ∀ d ∈ ("</".toList ++ name ++ '>' :: rest).head?, d = '<' := fun d hd =>
    (Option.some.inj hd).symm
  refine .trans (.blanks hw ht) (.reads (Xml.rawToken_end hn hs) ?_ ?_)
  case refine_1 =>
    rw [List.length_append, List.length_cons]
    omega
  case refine_2 =>
    rw [List.foldlM_cons, readToken_end]
    rfl

include ha

-- A start tag, of which the last part is `c :: t`.
theorem leads_tag (empty : Bool) {c : Char} {t : Text} {s' : XmlState}
    (hc : Xml.isNameChar c = false)
    (he : ∀ n, Xml.attributes tables (n + 1) (c :: t) = some ([], empty, rest))
    (hl : rest.length ≤ t.length)
    (hr : (Xml.Token.startElement ⟨[], name⟩ (attrs.map rereadAttr) ::
      if empty then [.endElement ⟨[], name⟩] else []).foldlM readToken s = some s') :
    Leads tables s (w ++ '<' :: (name ++ (attrs.flatMap writeAttr ++ c :: t)))
      (if Xml.isName tables name && attrs.all fun a => Xml.isName tables a.name.localName then
        some (s', rest)
      else none) := by
  have ht : ∀ d ∈ ('<' :: (name ++ (attrs.flatMap writeAttr ++ c :: t))).head?, d = '<' :=
    fun d hd => (Option.some.inj hd).symm
  have hk := rawToken_tag hn ha hc he
  refine .trans (.blanks hw ht) ?_
  split
  case isTrue h =>
    rw [if_pos h] at hk
    refine .reads hk ?_ hr
    simp only [List.length_cons, List.length_append]
    omega
  case isFalse h =>
    rw [if_neg h] at hk
    exact .fails nofun hk

end

-- The three shapes of a printed node.
section

variable {indent : Nat} {l : Text}

def indentation (indent : Nat) : Text :=
  (List.replicate indent "  ".toList).flatten

theorem writeXMLNode_empty :
    writeXMLNode (mk name' attrs [] [] comments) indent ++ rest = indentation indent ++
      '<' :: (name'.localName ++
        (attrs.flatMap writeAttr ++ ' ' :: '/' :: '>' :: '\n' :: rest)) := by
  have he : " />\n".toList = ' ' :: '/' :: '>' :: '\n' :: [] := by decide
  rw [writeXMLNode, if_pos ⟨rfl, rfl⟩, he]
  simp only [indentation, List.append_assoc, List.cons_append, List.nil_append]

theorem writeXMLNode_leaf (h : charData ≠ []) :
    writeXMLNode (mk name' attrs [] charData comments) indent ++ rest = indentation indent ++
      '<' :: (name'.localName ++ (attrs.flatMap writeAttr ++ '>' ::
        (charData.flatMap (Xml.escape false) ++
          ([] ++ ("</".toList ++ name'.localName ++ '>' :: '\n' :: rest))))) := by
  have he : ">\n".toList = '>' :: '\n' :: [] := by decide
  rw [writeXMLNode, if_neg fun hc => h hc.right, if_pos rfl, he, xmlEscapeText_eq]
  simp only [indentation, List.append_assoc, List.cons_append, List.nil_append]

theorem writeXMLNode_parent (h : children ≠ []) :
    writeXMLNode (mk name' attrs children charData comments) indent ++ rest =
      indentation indent ++ '<' :: (name'.localName ++ (attrs.flatMap writeAttr ++ '>' ::
        (['\n'] ++ (comments.flatMap fun c =>
            indentation indent ++ "  <!-- ".toList ++ c ++ " -->\n".toList) ++
          (writeXMLNodes children (indent + 1) ++ (indentation indent ++
            ("</".toList ++ name'.localName ++ '>' :: '\n' :: rest)))))) := by
  have he : ">\n".toList = '>' :: '\n' :: [] := by decide
  rw [writeXMLNode, if_neg fun hc => h hc.left, if_neg h, he]
  simp only [indentation, List.append_assoc, List.cons_append, List.nil_append]

end

section

variable (hw : Blanks w) (hn : Xml.IsLocal name'.localName) (ha : ∀ a ∈ attrs, a.Sound)

include hw hn ha

theorem leads_open : Leads tables s
    (w ++ '<' :: (name'.localName ++ (attrs.flatMap writeAttr ++ '>' :: rest)))
    (if Xml.isName tables name'.localName &&
        attrs.all fun a => Xml.isName tables a.name.localName then
      some (s.inside name'.localName (attrs.map rereadAttr)
        (mk (rereadName s.space name' (attrs.map rereadAttr))
          (attrs.map rereadAttr) [] [] []), rest)
    else none) := by
  refine leads_tag hw hn ha false (by decide) (fun n => rfl) le_rfl ?_
  rw [List.foldlM_cons, readToken_start rereadAttr_rereadAttr]
  rfl

theorem leads_empty : Leads tables s
    (w ++ '<' :: (name'.localName ++ (attrs.flatMap writeAttr ++ ' ' :: '/' :: '>' :: rest)))
    (if Xml.isName tables name'.localName &&
        attrs.all fun a => Xml.isName tables a.name.localName then
      some (s.add (mk (rereadName s.space name' (attrs.map rereadAttr))
        (attrs.map rereadAttr) [] [] []), rest)
    else none) := by
  refine leads_tag hw hn ha true (by decide) (fun n => rfl) ?_ ?_
  case refine_1 => exact (Nat.le_succ _).trans (Nat.le_succ _)
  rw [List.foldlM_cons, readToken_start rereadAttr_rereadAttr, Option.bind_eq_bind,
    Option.bind_some, if_pos rfl, List.foldlM_cons, readToken_end]
  rfl

end

theorem leads_leaf (hw : Blanks w) (hn : Xml.IsLocal name'.localName) (ha : ∀ a ∈ attrs, a.Sound)
    (hd : charData ≠ []) (hr : ∀ c ∈ charData, Xml.isInCharacterRange c) : Leads tables s
    (w ++ '<' :: (name'.localName ++ (attrs.flatMap writeAttr ++ '>' ::
      (charData.flatMap (Xml.escape false) ++
        ([] ++ ("</".toList ++ name'.localName ++ '>' :: rest))))))
    (if Xml.isName tables name'.localName &&
        attrs.all fun a => Xml.isName tables a.name.localName then
      some (s.add (mk (rereadName s.space name' (attrs.map rereadAttr))
        (attrs.map rereadAttr) [] (trimSpace (Xml.newlines charData)) []), rest)
    else none) := by
  refine (leads_open hw hn ha).guard fun hs => ?_
  have ht : ∀ d ∈ ([] ++ ("</".toList ++ name'.localName ++ '>' :: rest)).head?, d = '<' :=
    fun d hd => (Option.some.inj hd).symm
  exact .trans (.reads (Xml.rawToken_escapes hd hr ht)
      (length_lt_append (Xml.escapes_ne_nil false hd))
      (by rw [List.foldlM_cons, readToken_text]; rfl))
    (leads_end nofun hn (Bool.and_eq_true_iff.mp hs).left)

-- The children of an element are read in the state inside of it.
theorem leads_parent {indent : Nat} (hw : Blanks w) (hn : Xml.IsLocal name'.localName)
    (ha : ∀ a ∈ attrs, a.Sound) (hc : ∀ c ∈ comments, IsComment c)
    (hch : ∀ s w rest o, Blanks w →
      (∀ w, Blanks w → Leads tables ((rereads s.space children).foldl XmlState.add s)
        (w ++ rest) o) →
      Leads tables s (w ++ (writeXMLNodes children (indent + 1) ++ rest))
        (if areNamed tables children then o else none)) : Leads tables s
    (w ++ '<' :: (name'.localName ++ (attrs.flatMap writeAttr ++ '>' ::
      (['\n'] ++ (comments.flatMap fun c =>
          indentation indent ++ "  <!-- ".toList ++ c ++ " -->\n".toList) ++
        (writeXMLNodes children (indent + 1) ++ (indentation indent ++
          ("</".toList ++ name'.localName ++ '>' :: rest)))))))
    (if (Xml.isName tables name'.localName &&
        attrs.all fun a => Xml.isName tables a.name.localName) && areNamed tables children then
      some (s.add (mk (rereadName s.space name' (attrs.map rereadAttr)) (attrs.map rereadAttr)
        (rereads (defaultSpace s.space (attrs.map rereadAttr)) children) [] comments), rest)
    else none) := by
  refine (leads_open hw hn ha).guard_and fun hs => ?_
  refine leads_comments blanks_indent hc (by decide) fun w hw => ?_
  refine hch _ _ _ _ hw fun w hw => ?_
  rw [foldl_inside_add, space_inside rereadAttr_rereadAttr, ← List.append_assoc]
  exact leads_end (hw.append blanks_indent) hn (Bool.and_eq_true_iff.mp hs).left

mutual

-- A printed node is read as it is read again, unless one of its local names is no name.
theorem leads_node : (node : XmlNode) → Parsed node → ∀ indent s w rest, Blanks w →
    Leads tables s (w ++ (writeXMLNode node indent ++ rest))
      (if isNamed tables node then some (s.add (reread s.space node), '\n' :: rest) else none)
  | mk name attrs children charData comments, hp, indent, s, w, rest, hw => by
    have ⟨hn, ha, chars, _, hc, hp⟩ := hp
    have hw : Blanks (w ++ indentation indent) := hw.append blanks_indent
    by_cases hch : children = []
    case pos =>
      by_cases hd : charData = []
      case pos =>
        rw [hch, hd, writeXMLNode_empty, ← List.append_assoc, isNamed, areNamed, Bool.and_true]
        exact leads_empty hw hn ha
      case neg =>
        rw [hch, writeXMLNode_leaf hd, ← List.append_assoc, isNamed, areNamed, Bool.and_true]
        exact leads_leaf hw hn ha hd chars
    case neg =>
      rw [writeXMLNode_parent hch, ← List.append_assoc, isNamed, reread, if_neg hch]
      exact leads_parent hw hn ha hc (leads_nodes children hp (indent + 1))

theorem leads_nodes : (nodes : List XmlNode) → (∀ n ∈ nodes, Parsed n) → ∀ indent s w rest o,
    Blanks w →
    (∀ w, Blanks w → Leads tables ((rereads s.space nodes).foldl XmlState.add s) (w ++ rest) o) →
    Leads tables s (w ++ (writeXMLNodes nodes indent ++ rest))
      (if areNamed tables nodes then o else none)
  | [], _, _, _, w, _, _, hw, h                      => h w hw
  | node :: nodes, hp, indent, s, w, rest, o, hw, h => by
    have ⟨hn, hp⟩ := List.forall_mem_cons.mp hp
    rw [writeXMLNodes, List.append_assoc, areNamed]
    exact (leads_node node hn indent s w _ hw).guard_and fun _ =>
      leads_nodes nodes hp indent (s.add (reread s.space node)) ['\n'] rest o (by decide) h

end

theorem serializeXML_eq (tables : Xml.Tables) (nodes : List XmlNode) : ∃ header : Text,
    serializeXML nodes = header ++ (['\n'] ++ (writeXMLNodes nodes 0 ++ [])) ∧ header ≠ [] ∧
    ∀ rest, Xml.rawToken tables (header ++ rest) = some ([.procInst], rest) := by
  refine ⟨_, ?_, by decide, fun _ => Xml.rawToken_header⟩
  have he : "<?xml version=\"1.0\" encoding=\"utf-8\"?>\n".toList =
      "<?xml version=\"1.0\" encoding=\"utf-8\"?>".toList ++ ['\n'] := by decide
  have hs : serializeXML nodes =
      "<?xml version=\"1.0\" encoding=\"utf-8\"?>\n".toList ++ writeXMLNodes nodes 0 := rfl
  rw [hs, he, List.append_nil]
  exact List.append_assoc ..

theorem leads_forest (hp : ∀ n ∈ nodes, Parsed n) : Leads tables {} (serializeXML nodes)
    (if areNamed tables nodes then some ({ roots := rereads [] nodes }, []) else none) := by
  have ⟨header, he, hl, hk⟩ := serializeXML_eq tables nodes
  have hr : (rereads [] nodes).foldl XmlState.add {} = { roots := rereads [] nodes } :=
    foldl_add_roots
  rw [he]
  refine .trans (.reads (hk _) (length_lt_append hl) rfl)
    (leads_nodes nodes hp 0 {} ['\n'] [] _ (by decide) fun w hw => ?_)
  change Leads tables ((rereads [] nodes).foldl XmlState.add {}) _ _
  rw [hr]
  exact .blanks hw nofun

-- What becomes of a forest that is printed and read again.
theorem parseXMLDoc_serializeXML (hp : ∀ n ∈ nodes, Parsed n) :
    parseXMLDoc tables (serializeXML nodes) =
      if areNamed tables nodes then some (rereads [] nodes) else none := by
  have h : Leads tables {} _ _ := leads_forest hp
  cases hn : areNamed tables nodes
  case false =>
    rw [hn] at h
    exact h.parse_none
  case true =>
    rw [hn] at h
    exact h.parse rfl

end ConfigMerge
