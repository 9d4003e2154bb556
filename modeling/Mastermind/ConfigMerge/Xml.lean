import Mastermind.ConfigMerge.Ini
import Mastermind.Xml.Decoder

namespace ConfigMerge

inductive XmlNode
  | mk (name : Xml.Name) (attrs : List Xml.Attr) (children : List XmlNode) (charData : Text)
    (comments : List Text)

namespace XmlNode

def name : XmlNode → Xml.Name
  | mk name _ _ _ _ => name

def attrs : XmlNode → List Xml.Attr
  | mk _ attrs _ _ _ => attrs

def children : XmlNode → List XmlNode
  | mk _ _ children _ _ => children

def charData : XmlNode → Text
  | mk _ _ _ charData _ => charData

def comments : XmlNode → List Text
  | mk _ _ _ _ comments => comments

section

variable {name : Xml.Name} {attrs : List Xml.Attr} {children : List XmlNode} {charData : Text}
variable {comments : List Text}

@[simp]
theorem name_mk : (mk name attrs children charData comments).name = name :=
  rfl

@[simp]
theorem attrs_mk : (mk name attrs children charData comments).attrs = attrs :=
  rfl

@[simp]
theorem children_mk : (mk name attrs children charData comments).children = children :=
  rfl

@[simp]
theorem charData_mk : (mk name attrs children charData comments).charData = charData :=
  rfl

@[simp]
theorem comments_mk : (mk name attrs children charData comments).comments = comments :=
  rfl

end

mutual

def decEq : (a b : XmlNode) → Decidable (a = b)
  | mk n as cs d ms, mk n' as' cs' d' ms' =>
    have := decEqs cs cs'
    decidable_of_iff (n = n' ∧ as = as' ∧ cs = cs' ∧ d = d' ∧ ms = ms') (by rw [mk.injEq])

def decEqs : (as bs : List XmlNode) → Decidable (as = bs)
  | [], []           => .isTrue rfl
  | [], _ :: _       => .isFalse nofun
  | _ :: _, []       => .isFalse nofun
  | a :: as, b :: bs =>
    have := decEq a b
    have := decEqs as bs
    decidable_of_iff (a = b ∧ as = bs) (by rw [List.cons.injEq])

end

instance : DecidableEq XmlNode :=
  decEq

end XmlNode

open XmlNode

-- The open elements, innermost first, and the roots that are complete. An element gets to its
-- parent when it ends, which leaves the elements in the order of their starts.
structure XmlState where
  decoder : Xml.Decoder := {}
  stack   : List XmlNode := []
  roots   : List XmlNode := []

-- What `parseXMLDoc` does with a token.
def addToken (stack roots : List XmlNode) (tok : Xml.Token) : List XmlNode × List XmlNode :=
  match tok, stack with
  | .startElement name attr, _ => (mk name attr [] [] [] :: stack, roots)
  | .endElement _, node :: mk name attrs children charData comments :: stack =>
    (mk name attrs (children ++ [node]) charData comments :: stack, roots)
  | .endElement _, [node] => ([], roots ++ [node])
  | .charData data, mk name attrs children charData comments :: stack =>
    let text := trimSpace data
    (mk name attrs children (if text ≠ [] then text else charData) comments :: stack, roots)
  | .comment data, mk name attrs children charData comments :: stack =>
    let text := trimSpace data
    (mk name attrs children charData (if text ≠ [] then comments ++ [text] else comments) :: stack,
      roots)
  | _, _ => (stack, roots)

def readToken (s : XmlState) (tok : Xml.Token) : Option XmlState := do
  let (decoder, tok) ← s.decoder.token tok
  let (stack, roots) := addToken s.stack s.roots tok
  some { decoder, stack, roots }

section

variable (tables : Xml.Tables)

-- The loop of `parseXMLDoc`. Each round takes at least one character.
def readTokens : Nat → XmlState → Text → Option (List XmlNode)
  | _, s, []        => if s.decoder.stk = [] then some s.roots else none
  | 0, _, _         => none
  | n + 1, s, input => do
    let (toks, rest) ← Xml.rawToken tables input
    let s ← toks.foldlM readToken s
    readTokens n s rest

def parseXMLDoc (content : Text) : Option (List XmlNode) :=
  readTokens tables content.length {} content

end

section

variable (lower : Char → Char)

-- The attributes that tell the elements of one name apart.
def isIdentity (attr : Xml.Attr) : Bool :=
  let lname := toLower lower attr.name.localName
  lname = "name".toList || lname = "id".toList || lname = "steamid".toList ||
    lname = "userid".toList || lname = "key".toList

def xmlNodeKey (n : XmlNode) : Text :=
  match n.attrs.find? (isIdentity lower) with
  | some attr => n.name.localName ++ '|' :: attr.name.localName ++ '=' :: attr.value
  | none      => n.name.localName

end

def xmlEscapeText (s : Text) : Text :=
  s.flatMap fun c =>
    if c = '&' then "&amp;".toList
    else if c = '<' then "&lt;".toList
    else if c = '>' then "&gt;".toList
    else [c]

def xmlEscapeAttr (s : Text) : Text :=
  (xmlEscapeText s).flatMap fun c => if c = '"' then "&quot;".toList else [c]

def writeAttr (attr : Xml.Attr) : Text :=
  ' ' :: attr.name.localName ++ "=\"".toList ++ xmlEscapeAttr attr.value ++ ['"']

mutual

def writeXMLNode : XmlNode → (indent : Nat) → Text
  | mk name attrs children charData comments, indent =>
    let linePrefix := (List.replicate indent "  ".toList).flatten
    let start := linePrefix ++ '<' :: name.localName ++ attrs.flatMap writeAttr
    let close := "</".toList ++ name.localName ++ ">\n".toList
    if children = [] ∧ charData = [] then start ++ " />\n".toList
    else if children = [] then start ++ '>' :: xmlEscapeText charData ++ close
    else
      start ++ ">\n".toList ++
        comments.flatMap (fun comment =>
          linePrefix ++ "  <!-- ".toList ++ comment ++ " -->\n".toList) ++
        writeXMLNodes children (indent + 1) ++ linePrefix ++ close

def writeXMLNodes : List XmlNode → (indent : Nat) → Text
  | [], _               => []
  | node :: nodes, indent => writeXMLNode node indent ++ writeXMLNodes nodes indent

end

def serializeXML (roots : List XmlNode) : Text :=
  "<?xml version=\"1.0\" encoding=\"utf-8\"?>\n".toList ++ writeXMLNodes roots 0

section

variable (lower fold : Char → Char)

-- `strings.EqualFold` compares the characters up to `unicode.SimpleFold`. The parameter `fold`
-- picks one of those that are the same.
def equalFold (s t : Text) : Bool :=
  s.map fold = t.map fold

def childIndex (nodes : List XmlNode) : Text → Option XmlNode :=
  Index.fill (nodes.map fun n => (xmlNodeKey lower n, n))

-- The roots by their keys, and their children by both keys.
def buildXMLIndex (nodes : List XmlNode) : Text → Option XmlNode :=
  Index.fill (nodes.flatMap fun n => (xmlNodeKey lower n, n) :: n.children.map fun child =>
    (xmlNodeKey lower n ++ '/' :: xmlNodeKey lower child, child))

def mergeAttr (live : List Xml.Attr) (attr : Xml.Attr) : Xml.Attr × MergeStats :=
  if isIdentity lower attr then (attr, 0)
  else
    match live.find? fun l => equalFold fold l.name.localName attr.name.localName with
    | some l => ({ attr with value := l.value },
        if l.value ≠ attr.value then { carried := 1 } else 0)
    | none   => (attr, 0)

mutual

def mergeXMLNode : XmlNode → Option XmlNode → XmlNode × MergeStats
  | node, none => (node, { newKeys := 1 })
  | mk name attrs children charData comments, some live =>
    let merged := attrs.map (mergeAttr lower fold live.attrs)
    let stats := (merged.map Prod.snd).sum
    if children = [] then
      if charData ≠ [] ∧ live.charData ≠ [] ∧ live.charData ≠ charData then
        (mk name (merged.map Prod.fst) [] live.charData comments, stats + { carried := 1 })
      else (mk name (merged.map Prod.fst) [] charData comments, stats)
    else
      let (children, counted) := mergeXMLNodes children (childIndex lower live.children)
      (mk name (merged.map Prod.fst) children [] comments, stats + counted)

def mergeXMLNodes : List XmlNode → (Text → Option XmlNode) → List XmlNode × MergeStats
  | [], _                 => ([], 0)
  | node :: nodes, liveIndex =>
    let (merged, stats) := mergeXMLNode node (liveIndex (xmlNodeKey lower node))
    let (rest, counted) := mergeXMLNodes nodes liveIndex
    (merged :: rest, stats + counted)

end

end

end ConfigMerge
