import Mastermind.Donations.Store

open Effects Js Jobs

namespace Donations

-- A paid checkout session.
structure Paid where
  orgId            : OrgId
  serverInstanceId : ServerId
  playerId         : PlayerId
  shopItemIds      : List ShopItemId
  lineAmounts      : List ℤ

-- The items of a shop item: its list or, without one, its single item.
def shopItemGrants (item : Option ShopItem) : List GrantItemSpec :=
  match parseGrantItemList (item.map ShopItem.grantItems) with
  | some (spec :: specs) => spec :: specs
  | _ =>
    let rows :=
      match item with
      | some i =>
        match i.grantItemName with
        | some name =>
          if name = "" then [] else [.obj [("name", .str name), ("quantity", .num (.fin i.grantQuantity))]]
        | none => []
      | none => []
    (parseGrantItemList (some (.arr rows))).getD []

def buildDonationLine (items : List (ShopItemId × ShopItem)) (lineAmounts : List ℤ)
    (id : ShopItemId) (index : Nat) : LineRow :=
  let item := items.lookup id
  let grantItems := snapshotLineGrants (shopItemGrants item)
  { shopItemId    := item.map fun _ => id
    itemName      := (item.map ShopItem.name).getD "Shop item"
    amountCents   := (lineAmounts[index]?.or (item.map ShopItem.priceCents)).getD 0
    quantity      := 1
    grantItems    := storedItems grantItems
    grantItemName := grantItems.head?.map (·.name.val)
    grantQuantity := grantItems.head?.map (·.quantity.val)
    grantStatus   := aggregateGrantStatus grantItems }

def buildDonationLines (paid : Paid) : Service (List LineRow) := do
  if paid.shopItemIds.isEmpty then return []
  else
    let items ← send (.findShopItems paid.orgId paid.shopItemIds)
    let rows := paid.shopItemIds.mapIdx fun index id =>
      buildDonationLine items paid.lineAmounts id index
    return rows.filter fun line => line.amountCents > 0

-- The part of the completion of a checkout session that concerns the lines.
def completeSession (paid : Paid) : Service Unit := do
  let lines ← buildDonationLines paid
  send (.createDonation {
    orgId := paid.orgId, serverInstanceId := paid.serverInstanceId, playerId := paid.playerId
    status := "completed" } lines)

end Donations
