import Mathlib.Data.List.Basic

-- The decoder of `encoding/xml`, as it reads a text when it is strict and knows no other entities
-- and encodings.
namespace Xml

abbrev Text := List Char

-- A name before its translation has its prefix as `space`.
structure Name where
  space     : Text
  localName : Text
  deriving DecidableEq

structure Attr where
  name  : Name
  value : Text
  deriving DecidableEq

-- The names of processing instructions and the texts of directives are of no use here.
inductive Token
  | startElement (name : Name) (attr : List Attr)
  | endElement (name : Name)
  | charData (data : Text)
  | comment (data : Text)
  | procInst
  | directive
  deriving DecidableEq

-- The characters outside ASCII that can begin a name and those that can continue one.
structure Tables where
  first  : Char → Bool
  second : Char → Bool

def isAscii (c : Char) : Bool :=
  c.toNat < 128

def isNameByte (c : Char) : Bool :=
  c.isAlphanum || c = '_' || c = ':' || c = '.' || c = '-'

def Tables.isFirst (tables : Tables) (c : Char) : Bool :=
  if isAscii c then c.isAlpha || c = '_' || c = ':' else tables.first c

def Tables.isSecond (tables : Tables) (c : Char) : Bool :=
  if isAscii c then c.isDigit || c = '.' || c = '-' else tables.second c

def isName (tables : Tables) : Text → Bool
  | []      => false
  | c :: cs => tables.isFirst c && cs.all fun c => tables.isFirst c || tables.isSecond c

def isInCharacterRange (c : Char) : Bool :=
  let n := c.toNat
  n = 0x09 || n = 0x0A || n = 0x0D || (0x20 ≤ n && n ≤ 0xD7FF) || (0xE000 ≤ n && n ≤ 0xFFFD) ||
    (0x10000 ≤ n && n ≤ 0x10FFFF)

-- Each reader returns what it has read and the rest of the input, unless there is an error. None
-- of them but `text` accepts the end of the input.
def readName (input : Text) : Option (Text × Text) :=
  match input.span fun c => !isAscii c || isNameByte c with
  | ([], _) | (_, []) => none
  | (name, rest)      => some (name, rest)

section

variable (tables : Tables)

def name (input : Text) : Option (Text × Text) :=
  (readName input).filter fun (s, _) => isName tables s

-- The parts of a name around its colon. A colon at one of its ends belongs to the name.
def cutName (s : Text) : Name :=
  let (space, rest) := s.span (· ≠ ':')
  if space = [] ∨ rest.drop 1 = [] then ⟨[], s⟩ else ⟨space, rest.drop 1⟩

def nsname (input : Text) : Option (Name × Text) := do
  let (s, rest) ← name tables input
  if s.count ':' > 1 then none else some (cutName s, rest)

end

def isBlank (c : Char) : Bool :=
  c = ' ' || c = '\r' || c = '\n' || c = '\t'

def space (input : Text) : Text :=
  input.dropWhile isBlank

def digitOf (base : Nat) (c : Char) : Option Nat :=
  let d :=
    if c.isDigit then c.toNat - '0'.toNat
    else if 'a' ≤ c ∧ c ≤ 'f' then c.toNat - 'a'.toNat + 10
    else if 'A' ≤ c ∧ c ≤ 'F' then c.toNat - 'A'.toNat + 10
    else base
  if d < base then some d else none

-- `strconv.ParseUint`. What does not fit is no character either.
def parseUint (base : Nat) (s : Text) : Option Nat :=
  if s = [] then none
  else s.foldlM (fun n c => (digitOf base c).map (base * n + ·)) 0

-- `string(rune(n))`
def ofRune (n : Nat) : Char :=
  if n.isValidChar then Char.ofNat n else '\uFFFD'

-- The character that an entity names between its `&` and its `;`.
def entity (ent : Text) : Option Char :=
  match ent with
  | '#' :: 'x' :: digits => ((parseUint 16 digits).filter (· ≤ 0x10FFFF)).map ofRune
  | '#' :: digits        => ((parseUint 10 digits).filter (· ≤ 0x10FFFF)).map ofRune
  | _ =>
    if ent = "lt".toList then some '<'
    else if ent = "gt".toList then some '>'
    else if ent = "amp".toList then some '&'
    else if ent = "apos".toList then some '\''
    else if ent = "quot".toList then some '"'
    else none

-- The text up to a quote, up to the next markup, or up to the end of a `CDATA` section. In an
-- entity, `ent` is what has been read of it.
def scanText (quote : Option Char) (cdata : Bool) :
    (ent : Option Text) → Text → Option (Text × Text)
  | none, []         => if cdata then none else some ([], [])
  | some _, []       => none
  | some ent, c :: s =>
    if c = ';' then do
      let d ← entity ent
      let (data, rest) ← scanText quote cdata none s
      some (d :: data, rest)
    else scanText quote cdata (some (ent ++ [c])) s
  | none, c :: s =>
    if quote = none ∧ "]]>".toList <+: c :: s then
      if cdata then some ([], s.drop 2) else none
    else if c = '<' ∧ !cdata then
      if quote.isSome then none else some ([], c :: s)
    else if quote = some c then some ([], s)
    else if c = '&' ∧ !cdata then scanText quote cdata (some []) s
    else if c = '\r' ∧ s.head? = some '\n' then scanText quote cdata none s
    else do
      let (data, rest) ← scanText quote cdata none s
      some ((if c = '\r' then '\n' else c) :: data, rest)

def text (quote : Option Char) (cdata : Bool) (input : Text) : Option (Text × Text) :=
  (scanText quote cdata none input).filter fun (data, _) => data.all isInCharacterRange

def attrval : Text → Option (Text × Text)
  | []        => none
  | c :: rest => if c = '"' ∨ c = '\'' then text (some c) false rest else none

-- The data of a comment, which does not have two hyphens in a row.
def comment : Text → Option (Text × Text)
  | []     => none
  | c :: s =>
    if "--".toList <+: c :: s then
      match s with
      | '-' :: '>' :: rest => some ([], rest)
      | _                  => none
    else do
      let (data, rest) ← comment s
      some (c :: data, rest)

-- Where the scanner of directives is: among nested brackets, in a quotation, or in a comment with
-- the characters that it has seen last.
inductive Place
  | plain
  | quoted (quote : Char)
  | opening (seen : Nat)
  | comment (b0 b1 : Char)
  deriving DecidableEq

-- The rest of the input after a directive.
def directive (depth : Nat) : Place → Text → Option Text
  | _, []                   => none
  | .quoted q, c :: s       => directive depth (if c = q then .plain else .quoted q) s
  | .opening 0, _ :: s      => directive depth (.comment ' ' ' ') s
  | .opening (n + 1), _ :: s => directive depth (.opening n) s
  | .comment b0 b1, c :: s  =>
    directive depth (if b0 = '-' ∧ b1 = '-' ∧ c = '>' then .plain else .comment b1 c) s
  | .plain, c :: s =>
    if c = '>' then
      match depth with
      | 0         => some s
      | depth + 1 => directive depth .plain s
    else if c = '\'' ∨ c = '"' then directive depth (.quoted c) s
    else if c = '<' then
      if "!--".toList <+: s then directive depth (.opening 2) s else directive (depth + 1) .plain s
    else directive depth .plain s

-- The data of a processing instruction.
def instruction : Text → Option (Text × Text)
  | []     => none
  | c :: s =>
    if "?>".toList <+: c :: s then some ([], s.drop 1)
    else do
      let (data, rest) ← instruction s
      some (c :: data, rest)

-- `procInst`: the quoted value after the first `param=` with a quotation mark behind it. After one
-- without, `skip` characters are passed over.
def procInst (param : Text) : (skip : Nat) → Text → Text
  | _, []            => []
  | skip + 1, _ :: s => procInst param skip s
  | 0, c :: s        =>
    if param ++ ['='] <+: c :: s then
      match s.drop param.length with
      | []          => []
      | sep :: rest =>
        if sep = '\'' ∨ sep = '"' then
          if sep ∈ rest then rest.takeWhile (· ≠ sep) else []
        else procInst param (param.length + 1) s
    else procInst param 0 s

-- What the instruction `<?xml ..?>` may say.
def isReadable (data : Text) : Bool :=
  let ver := procInst "version".toList 0 data
  let enc := procInst "encoding".toList 0 data
  (ver = [] || ver = "1.0".toList) && (enc = [] || enc.map Char.toLower = "utf-8".toList)

section

variable (tables : Tables)

-- The attributes of a start tag up to its end, and whether it ends with `/>`. Each of them takes at
-- least one character.
def attributes : Nat → Text → Option (List Attr × Bool × Text)
  | 0, _         => none
  | n + 1, input =>
    match space input with
    | []               => none
    | '/' :: '>' :: rest => some ([], true, rest)
    | '/' :: _         => none
    | '>' :: rest      => some ([], false, rest)
    | input            => do
      let (name, rest) ← nsname tables input
      let rest ← match space rest with
        | '=' :: rest => some rest
        | _           => none
      let (value, rest) ← attrval (space rest)
      let (attr, empty, rest) ← attributes n rest
      some (⟨name, value⟩ :: attr, empty, rest)

-- The next tokens of an input that is not at its end. A tag that ends with `/>` ends its element,
-- too.
def rawToken (input : Text) : Option (List Token × Text) :=
  match input with
  | '<' :: '/' :: s => do
    let (name, rest) ← nsname tables s
    match space rest with
    | '>' :: rest => some ([.endElement name], rest)
    | _           => none
  | '<' :: '?' :: s => do
    let (target, rest) ← name tables s
    let (data, rest) ← instruction (space rest)
    if target = "xml".toList ∧ !isReadable data then none else some ([.procInst], rest)
  | '<' :: '!' :: '-' :: s =>
    match s with
    | '-' :: s => (comment s).map fun (data, rest) => ([.comment data], rest)
    | _        => none
  | '<' :: '!' :: '[' :: s =>
    if "CDATA[".toList <+: s then
      (text none true (s.drop 6)).map fun (data, rest) => ([.charData data], rest)
    else none
  | '<' :: '!' :: _ :: s => (directive 0 .plain s).map fun rest => ([.directive], rest)
  | '<' :: s             => do
    let (name, rest) ← nsname tables s
    let (attr, empty, rest) ← attributes tables rest.length.succ rest
    some (.startElement name attr :: if empty then [.endElement name] else [], rest)
  | _ => (text none false input).map fun (data, rest) => ([.charData data], rest)

end

-- The name spaces of the prefixes that are known at a place.
abbrev Scope :=
  Text → Option Text

def xmlnsPrefix : Text := "xmlns".toList

def xmlURL : Text := "http://www.w3.org/XML/1998/namespace".toList

-- The prefixes that a start tag declares.
def declare (ns : Scope) (attr : List Attr) : Scope :=
  attr.foldl (fun ns a =>
    if a.name.space = xmlnsPrefix then Function.update ns a.name.localName (some a.value)
    else if a.name = ⟨[], xmlnsPrefix⟩ then Function.update ns [] (some a.value)
    else ns) ns

def translate (ns : Scope) (n : Name) (isElementName : Bool) : Name :=
  if n.space = xmlnsPrefix then n
  else if n.space = [] ∧ !isElementName then n
  else if n.space = "xml".toList then { n with space := xmlURL }
  else if n.space = [] ∧ n.localName = xmlnsPrefix then n
  else { n with space := (ns n.space).getD n.space }

-- The names of the open elements, each with the scope around it, and the scope inside.
structure Decoder where
  stk : List (Name × Scope) := []
  ns  : Scope := fun _ => none

-- `Token` for a token that has been read.
def Decoder.token (d : Decoder) (tok : Token) : Option (Decoder × Token) :=
  match tok with
  | .startElement name attr =>
    let ns := declare d.ns attr
    let attr := attr.map fun a => { a with name := translate ns a.name false }
    some ({ stk := (name, d.ns) :: d.stk, ns }, .startElement (translate ns name true) attr)
  | .endElement name =>
    match d.stk with
    | []                 => none
    | (start, ns) :: stk =>
      if start = name then some ({ stk, ns }, .endElement (translate d.ns name true)) else none
  | tok => some (d, tok)

end Xml
