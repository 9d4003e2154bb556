import Mastermind.Donations.ShopGrants

open Js Donations

namespace Triggers

def TRIGGER_EVENT_FIRST_JOIN   : String := "player_first_join"
def TRIGGER_EVENT_PLAYTIME     : String := "player_playtime"
def TRIGGER_ACTION_GRANT_ITEMS : String := "grant_items"

-- A whole number of hours.
abbrev PlaytimeConfig :=
  { hours : Nat // 1 ≤ hours ∧ hours ≤ 10000 }

structure GrantItemsActionConfig where
  items        : List GrantItemSpec
  notifyPlayer : Bool
  message      : String
  nonempty     : items ≠ []

-- `Number(data.key)` for a configuration `data`, of which only objects have fields.
def numberField (raw : Option Json) (key : String) : Option ℤ :=
  ((raw.bind (·.get? key)).map Json.toNumber).bind Number.integer?

def parsePlaytimeConfig (raw : Option Json) : Except String PlaytimeConfig :=
  match numberField raw "hours" with
  | some hours =>
    if h : 1 ≤ hours.toNat ∧ hours.toNat ≤ 10000 then .ok ⟨hours.toNat, h⟩
    else .error "Playtime must be a whole number of hours from 1 to 10000"
  | none => .error "Playtime must be a whole number of hours from 1 to 10000"

def eventKeyForFirstJoin : String :=
  "first_join"

def eventKeyForPlaytime (hours : PlaytimeConfig) : String :=
  "playtime:" ++ toString hours.val

def parseMessage : Option Json → String
  | some (.str s) => slice (trim s) 200
  | _             => ""

def parseGrantItemsActionConfig (raw : Option Json) : Except String GrantItemsActionConfig :=
  let data := fun key => raw.bind (·.get? key)
  match parseGrantItemList (data "items") with
  | none =>
    .error ("Each grant must be a Minecraft item id (e.g. diamond or minecraft:diamond), " ++
      "quantity 1–9999. Maximum 8 items.")
  | some items =>
    if h : items = [] then .error "Select at least one item to grant"
    else
      let message := parseMessage (data "message")
      .ok {
        items
        notifyPlayer := !(data "notifyPlayer" matches some (.bool false))
        message      := if message = "" then "You received a reward." else message
        nonempty     := h }

def grantItemsSummary (items : List GrantItemSpec) : String :=
  formatGrantSummary items

-- The values that the items of a payload are sent as.
def itemJson (item : GrantItemSpec) : Json :=
  .obj [("name", .str item.name), ("quantity", .ofNat item.quantity)]

def itemsJson (items : List GrantItemSpec) : Json :=
  .arr (items.map itemJson)

-- The lifetime crosses the threshold between the previous and the next total.
def crossedPlaytimeHours (previousSeconds nextSeconds : ℤ) (hours : PlaytimeConfig) : Bool :=
  previousSeconds < hours.val * 3600 && hours.val * 3600 ≤ nextSeconds

end Triggers
