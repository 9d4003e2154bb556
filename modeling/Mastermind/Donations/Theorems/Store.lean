import Mastermind.Donations.Requests
import Mastermind.Donations.Theorems.ShopGrants

open Effects Js

namespace Donations

-- An organisation whose shop sells a kit of two items.
def Store.sample : Store where
  clock     := 1000000
  members   := [{ orgId := 0, userId := 0, createdAt := 0 }]
  shopItems := [{
    orgId := 0, name := "Kit", priceCents := 500, grantItemName := none, grantQuantity := 1
    grantItems := .arr [
      .obj [("name", .str "minecraft:diamond"), ("quantity", .ofNat 2)],
      .obj [("name", .str "minecraft:oak_log"), ("quantity", .ofNat 10)]] }]

def Paid.sample : Paid where
  orgId            := 0
  serverInstanceId := 0
  playerId         := 0
  shopItemIds      := [0]
  lineAmounts      := [500]

-- A delivery to the player who has paid.
def Delivery.sample : Delivery where
  orgId            := 0
  serverInstanceId := 0
  playerId         := 0
  playerName       := "Steve"
  identityKey      := "uuid:00000000-0000-0000-0000-000000000000"
  online           := true
  limit            := 8

variable {s : Store} {line : DonationLine} {data : LineData} {id : LineId}
  {items : List LineGrantItem}

@[simp]
theorem items_apply_none (h : data.grantItems = none) : (data.apply line).items = line.items := by
  simp [DonationLine.items, LineData.apply, h]

-- The items that are written are the items that are read afterwards.
theorem items_apply (h : data.grantItems = some items) (hl : items.length = line.items.length) :
    (data.apply line).items = items := by
  simp only [DonationLine.items, LineData.apply, h, Option.map_some, Option.getD_some]
  exact lineGrantItems_storedItems hl

-- The writes to lines.
def Store.updateLine (s : Store) (id : LineId) (data : LineData) : Store :=
  { s with lines := s.lines.modify id data.apply }

theorem exec_updateLine {basis : Option Basis} (h : s.line? id = some line) :
    exec (.updateLine id data basis) s = (.ok (), s.updateLine id data) := by
  simp [exec, h, Store.updateLine]

theorem line?_updateLine {k : LineId} :
    (s.updateLine id data).line? k =
      if id = k then (s.line? k).map data.apply else s.line? k := by
  simp only [Store.updateLine, Store.line?, List.getElem?_modify]
  split
  case isTrue  => simp
  case isFalse h => simp

end Donations
