import Mastermind.Script.Json

open Js

namespace Donations

def maxGrantQuantity : Nat := 9999
def maxGrantAttempts : Nat := 8
def maxGrantItems    : Nat := 8

def isNameChar (c : Char) : Bool :=
  c.isAlphanum || c = '_' || c = '.' || c = ':' || c = '-'

-- `GRANT_ITEM_NAME`
def isGrantItemName : List Char → Bool
  | c :: cs => c.isAlpha && cs.length ≤ 79 && cs.all isNameChar
  | []      => false

-- `/^all$/i`
def isAll (s : String) : Bool :=
  s.toList.map Char.toLower = "all".toList

-- The names of items that can be granted.
abbrev ItemName :=
  { s : String // isGrantItemName s.toList = true ∧ isAll s = false }

abbrev Quantity :=
  { n : Nat // 1 ≤ n ∧ n ≤ maxGrantQuantity }

-- The statuses that a grant item can have, the known ones being listed below.
abbrev ItemStatus :=
  { s : String // s ≠ "" }

namespace ItemStatus

def pending   : ItemStatus := ⟨"pending", by decide⟩
def queued    : ItemStatus := ⟨"queued", by decide⟩
def delivered : ItemStatus := ⟨"delivered", by decide⟩
def failed    : ItemStatus := ⟨"failed", by decide⟩

end ItemStatus

abbrev Attempts :=
  { n : Nat // n ≤ 99 }

abbrev ErrorText :=
  { s : String // (units s).length ≤ 180 }

-- `s.slice(0, 180)`
def ErrorText.of (s : String) : ErrorText :=
  ⟨slice s 180, length_units_slice s 180⟩

structure GrantItemSpec where
  name     : ItemName
  quantity : Quantity
  deriving DecidableEq

structure LineGrantItem extends GrantItemSpec where
  status   : ItemStatus
  attempts : Attempts
  error    : Option ErrorText
  deriving DecidableEq

inductive GrantOutcome
  | delivered
  | retry
  | failed
  deriving DecidableEq

def parseGrantItemName : Option Json → Option ItemName
  | some (.str s) =>
    if h : isGrantItemName (trim s).toList = true ∧ isAll (trim s) = false then some ⟨trim s, h⟩
    else none
  | _ => none

def quantityNumber : Json → Number
  | .num n => n
  | .str s => if trim s = "" then .nan else stringToNumber (trim s)
  | _      => .nan

-- The fallback of an absent quantity is 1.
def parseGrantQuantity : Option Json → Option Quantity
  | none | some .null | some (.str "") => some ⟨1, by decide⟩
  | some raw =>
    match (quantityNumber raw).integer? with
    | some value =>
      if h : 1 ≤ value.toNat ∧ value.toNat ≤ maxGrantQuantity then some ⟨value.toNat, h⟩ else none
    | none => none

-- Prefer the in-game name, fall back to the bare UUID.
def grantPlayerTarget (playerName uuid : Option String) : Option String :=
  let name := trim (playerName.getD "")
  let id := trim (uuid.getD "")
  if 1 ≤ name.toList.length ∧ name.toList.length ≤ 16 ∧
      name.toList.all (fun c => c.isAlphanum || c = '_') ∧ !isAll name then some name
  else if 32 ≤ id.toList.length ∧ id.toList.length ≤ 36 ∧
      id.toList.all (fun c => (radixDigit? 16 c).isSome || c = '-') then some id
  else none

def buildGiveCommand (playerName itemName : Option String) (amount : Option Nat)
    (uuid : Option String) : Option String :=
  match grantPlayerTarget playerName uuid, parseGrantItemName (itemName.map .str),
      parseGrantQuantity (amount.map .ofNat) with
  | some target, some item, some count => some s!"give {target} {item.val} {count.val}"
  | _, _, _                            => none

-- `record.a ?? record.b ?? …`
def firstField (row : Json) : List String → Option Json
  | []          => none
  | key :: keys => Json.coalesce (row.get? key) (firstField row keys)

-- `String(x).trim() === ''`. The string of an array joins the strings of its elements by commas.
def isBlank : Json → Bool
  | .str s        => trim s = ""
  | .arr []       => true
  | .arr [.null]  => true
  | .arr [j]      => isBlank j
  | _             => false

def isObject : Json → Bool
  | .arr _ | .obj _ => true
  | _               => false

-- One row of `parseGrantItemList`: rejected, skipped or read.
def parseGrantRow (row : Json) : Option (Option GrantItemSpec) :=
  if !isObject row then none
  else
    match firstField row ["name", "itemName", "grantItemName"] with
    | none | some .null => some none
    | some nameRaw      =>
      if isBlank nameRaw then some none
      else
        match parseGrantItemName nameRaw,
            parseGrantQuantity (firstField row ["quantity", "grantQuantity"]) with
        | some name, some quantity => some (some { name, quantity })
        | _, _                     => none

def parseGrantRows : List Json → Option (List GrantItemSpec)
  | []          => some []
  | row :: rows => do
    let spec ← parseGrantRow row
    let specs ← parseGrantRows rows
    return spec.toList ++ specs

def parseGrantArray (rows : List Json) : Option (List GrantItemSpec) :=
  if rows.length > maxGrantItems then none else parseGrantRows rows

-- The list of a raw value, `none` where the source answers `false`.
def parseGrantItemList : Option Json → Option (List GrantItemSpec)
  | none | some .null => some []
  | some (.str s)     =>
    if trim s = "" ∨ trim s = "[]" then some []
    else
      match Json.parse? (trim s) with
      | some (.arr rows) => parseGrantArray rows
      | _                => none
  | some (.arr rows)  => parseGrantArray rows
  | some _            => none

-- `grantSpecsFromFields` without a list of items, which is how `lineGrantItems` calls it.
def grantSpecsFromFields (itemName quantity : Option Json) : Option (List GrantItemSpec) :=
  match parseGrantItemName itemName with
  | none      => some []
  | some name => (parseGrantQuantity quantity).map fun quantity => [{ name, quantity }]

def snapshotLineGrants (items : List GrantItemSpec) : List LineGrantItem :=
  items.map fun item => { item with status := .pending, attempts := ⟨0, by decide⟩, error := none }

def readStatus : Option Json → ItemStatus
  | some (.str s) => if h : s ≠ "" then ⟨s, h⟩ else .pending
  | _             => .pending

def readAttempts (raw : Option Json) : Attempts :=
  match (raw.map Json.toNumber).bind Number.integer? with
  | some n => ⟨min n.toNat 99, by omega⟩
  | none   => ⟨0, by decide⟩

def readError : Option Json → Option ErrorText
  | some (.str s) => some (.of s)
  | _             => none

-- One row of `lineGrantItems`.
def lineGrantItem (row : Json) : Option LineGrantItem :=
  if !isObject row then none
  else
    match parseGrantItemName (firstField row ["name", "itemName", "grantItemName"]),
        parseGrantQuantity (firstField row ["quantity", "grantQuantity"]) with
    | some name, some quantity => some {
        name, quantity
        status   := readStatus (row.get? "status")
        attempts := readAttempts (row.get? "attempts")
        error    := readError (row.get? "error") }
    | _, _ => none

-- The rows that a stored column holds.
def lineGrantRows : Json → List Json
  | .arr rows => rows
  | .str s    => match Json.parse? s with | some (.arr rows) => rows | _ => []
  | _         => []

def lineGrantItems (raw : Json) (grantItemName : Option String) (grantQuantity : Option ℤ) :
    List LineGrantItem :=
  match (lineGrantRows raw).filterMap lineGrantItem with
  | [] =>
    snapshotLineGrants <|
      (grantSpecsFromFields (grantItemName.map .str) (grantQuantity.map fun q => .num (.fin q))).getD []
  | items => items.take maxGrantItems

-- The value that a list of items is stored as.
def LineGrantItem.toJson (item : LineGrantItem) : Json :=
  .obj [("name", .str item.name), ("quantity", .ofNat item.quantity), ("status", .str item.status),
    ("attempts", .ofNat item.attempts),
    ("error", match item.error with | some e => .str e | none => .null)]

def storedItems (items : List LineGrantItem) : Json :=
  .arr (items.map LineGrantItem.toJson)

def aggregateGrantStatus (items : List LineGrantItem) : String :=
  if items.isEmpty then "none"
  else if items.all (·.status = .delivered) then "delivered"
  else if items.all (·.status = .failed) then "failed"
  else if items.any (·.status = .pending) then "pending"
  else if items.any (·.status = .queued) then "queued"
  else if items.any (·.status = .delivered) && items.any (·.status = .failed) then "partial"
  else "pending"

def formatGrantSummary (items : List GrantItemSpec) : String :=
  ", ".intercalate <| items.map fun item => toString item.quantity.val ++ "× " ++ item.name

-- `/phrase|…/i.test(text)`
def mentions (text : String) (phrases : List String) : Bool :=
  let cs := text.toList.map Char.toLower
  phrases.any fun phrase => cs.tails.any phrase.toList.isPrefixOf

def classifyGrantOutput (output : Option String) (jobStatus : String) : GrantOutcome :=
  let text := output.getD ""
  if mentions text ["no player was found", "player not found", "must be online",
      "that player cannot be found"] then .retry
  else if mentions text ["there is no such item", "unknown item", "invalid item", "expected item"] then
    .failed
  else if mentions text ["incorrect argument", "syntax error", "unknown or incomplete command"] then
    .failed
  else if jobStatus = "success" then .delivered
  else .retry

end Donations
