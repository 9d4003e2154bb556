import Mastermind.Agent.Payload

open Js

namespace Agent

structure GrantItem where
  name     : String
  quantity : ℤ
  deriving DecidableEq

def isItemChar (c : Char) : Bool :=
  c.isAlphanum || c = '_' || c = ':' || c = '/' || c = '.' || c = '-'

def sanitizeItemID (s : String) : String :=
  .ofList ((trimSpace s).toList.filter isItemChar)

-- One row of `grantItemsFromPayload`.
def grantItem : Json → Except String GrantItem
  | .obj record =>
    let name := sanitizeItemID (getString record "name" "")
    let quantity := getInt record "quantity" 1
    if name = "" ∨ quantity < 1 ∨ quantity > 2304 then .error "invalid grant item"
    else .ok { name, quantity }
  | _ => .error "invalid grant item"

def grantItemsFromPayload (payload : Fields) : Except String (List GrantItem) :=
  match payload.lookup "items" with
  | some (.arr raw) =>
    if raw.isEmpty then .error "at least one grant item is required"
    else if raw.length > 16 then .error "at most 16 grant items are allowed"
    else raw.mapM grantItem
  | _ => .error "at least one grant item is required"

-- Removes what would separate commands.
def sanitizeRCONArg (s : String) : String :=
  .ofList (s.toList.filter fun c => c ≠ ';' && c ≠ '\n' && c ≠ '\r')

-- The lower case of a character. Outside ASCII, only U+0130 and U+212A have a lower case in ASCII. The
-- other characters outside ASCII are kept, since nothing here tells them from their lower cases.
def lowerRune (c : Char) : Char :=
  if c.toNat = 0x130 then 'i' else if c.toNat = 0x212A then 'k' else c.toLower

-- `strings.EqualFold(s, "all")`
def equalsAll (s : String) : Bool :=
  s.toList.map Char.toLower = "all".toList

-- `len(s)`
def len (cs : List Char) : Nat :=
  (cs.map Char.utf8Size).sum

-- `s[n:]`
def dropBytes : Nat → List Char → List Char
  | 0, cs          => cs
  | _, []          => []
  | n + 1, c :: cs => dropBytes (n + 1 - c.utf8Size) cs

def isUUIDChar (c : Char) : Bool :=
  ('0' ≤ c && c ≤ '9') || ('a' ≤ c && c ≤ 'f') || c = '-'

def isMinecraftUUID (cs : List Char) : Bool :=
  (len cs = 32 || len cs = 36) && cs.all isUUIDChar

-- The text after the prefix of an identity key.
def uuidOfKey (key : String) : String :=
  if "uuid:".toList.isPrefixOf (key.toList.map lowerRune) then .ofList (dropBytes 5 key.toList) else ""

def grantPlayerTarget (payload : Fields) : String :=
  let name := sanitizeRCONArg (getString payload "player" (getString payload "name" ""))
  if name ≠ "" ∧ equalsAll name = false then name
  else
    let uuid := trimSpace (getString payload "uuid" "")
    let uuid :=
      if uuid = "" then
        uuidOfKey (trimSpace (getString payload "identityKey" (getString payload "identity_key" "")))
      else uuid
    let uuid := (trimSpace uuid).toList.map lowerRune
    if isMinecraftUUID uuid then .ofList uuid else ""

end Agent
