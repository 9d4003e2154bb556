import Mastermind.Payments.Service

open Effects Js

namespace Payments

def maxCartItems : Nat := 20

inductive SessionAuth
  | steam
  | name
  deriving DecidableEq

-- The player of a portal session: the player's row and how the session was opened.
structure CheckoutPlayer where
  id               : Id
  steamId          : Option String
  serverInstanceId : Id
  orgId            : Id
  name             : String
  sessionAuth      : SessionAuth

-- What `requirePlayer` returns for a player's row.
def Player.signedIn (row : Player) (id : Id) (auth : SessionAuth) : CheckoutPlayer where
  id               := id
  steamId          := row.steamId
  serverInstanceId := row.serverInstanceId
  orgId            := row.orgId
  name             := row.name
  sessionAuth      := auth

def parseShopItemId : Json → Option String
  | .str raw => if isShopItemId (trim raw).toList then some (trim raw) else none
  | _        => none

-- The ids of a cart are distinct.
def parseCartEntries (ids : List String) : List Json → Option (List String)
  | []           => some ids
  | entry :: raw =>
    match parseShopItemId entry with
    | some id => if ids.contains id then none else parseCartEntries (ids ++ [id]) raw
    | none    => none

def parseShopItemIds : Option Json → Option (List String)
  | some (.arr raw) =>
    if raw.length < 1 ∨ raw.length > maxCartItems then none else parseCartEntries [] raw
  | _ => none

-- `s.slice(-4)`
def lastFour (s : String) : String :=
  .ofList (ofUnits ((units s).drop ((units s).length - 4)))

-- `a || b`
def orElse (a b : String) : String :=
  if a = "" then b else a

structure CheckoutInput where
  playerId         : Id
  steamId          : String
  serverInstanceId : Id
  orgId            : Id
  lineItems        : List CheckoutLineItem

-- `s.join(',')`
def joinParts (parts : List String) : String :=
  ",".intercalate parts

-- The metadata of a session. The shop items are listed if there are any.
def CheckoutInput.metadata (input : CheckoutInput) : List (String × String) :=
  let shopItemIds := (input.lineItems.filterMap (·.shopItemId)).filter (· ≠ "")
  let lineAmounts := input.lineItems.map fun item => toString item.amountCents
  [("playerId", input.playerId.val), ("steamId", input.steamId),
    ("serverInstanceId", input.serverInstanceId.val), ("orgId", input.orgId.val)] ++
  (if shopItemIds.isEmpty then []
    else [("shopItemIds", joinParts shopItemIds), ("lineAmounts", joinParts lineAmounts)]) ++
  match shopItemIds with
  | [id] => [("shopItemId", id)]
  | _    => []

-- The texts of a line item are cut for Stripe.
def CheckoutLineItem.cut (item : CheckoutLineItem) : CheckoutLineItem :=
  { item with
    name        := slice item.name 120
    description := slice item.description 250 }

def createCheckoutSession (input : CheckoutInput) : Service Unit :=
  if input.lineItems.isEmpty ∨ input.lineItems.any (·.amountCents ≤ 0) then
    .throw (.unavailable "Checkout is unavailable")
  else
    send (.createSession {
      clientReferenceId := input.playerId
      metadata          := input.metadata
      lineItems         := input.lineItems.map CheckoutLineItem.cut })

-- `try { … } catch { … }` around the creation of the session
def tryCheckout (input : CheckoutInput) : Service Unit :=
  (createCheckoutSession input).handle fun _ => .throw (.unavailable "Checkout is unavailable")

def CheckoutPlayer.tiedToName (player : CheckoutPlayer) : Option String :=
  if player.sessionAuth = .name ∧ player.name ≠ "" then
    some ("Support tied to Minecraft name " ++ player.name)
  else none

def cartDescription (player : CheckoutPlayer) (steamId : String) : String :=
  let account :=
    if "mc:".toList.isPrefixOf steamId.toList then orElse player.name player.id
    else "Steam ending " ++ lastFour steamId
  player.tiedToName.getD ("Support tied to account " ++ account)

def createCartCheckout (player : CheckoutPlayer) (steamId : String) (ids : List String) :
    Service Unit := do
  let rows ← send (.findShopItems ids player.orgId true)
  if rows.length ≠ ids.length then
    Prog.throw (.badRequest "One or more shop items are not available")
  else
    let ordered := ids.filterMap fun id => rows.find? (·.id = id)
    tryCheckout {
      playerId         := player.id
      steamId          := steamId
      serverInstanceId := player.serverInstanceId
      orgId            := player.orgId
      lineItems        := ordered.map fun item => {
        amountCents := item.priceCents
        name        := item.name
        description := orElse item.description (cartDescription player steamId)
        shopItemId  := some item.id } }

def singleCheckout (player : CheckoutPlayer) (steamId : String) (item : CheckoutLineItem) :
    Service Unit :=
  tryCheckout {
    playerId         := player.id
    steamId          := steamId
    serverInstanceId := player.serverInstanceId
    orgId            := player.orgId
    lineItems        := [item] }

def createSingleCheckout (player : CheckoutPlayer) (steamId : String)
    (amountCents shopItemId : Option Json) : Service Unit :=
  let tiedTo := player.tiedToName.getD ("Support tied to Steam ending " ++ lastFour steamId)
  match shopItemId.bind parseShopItemId with
  | some itemId => do
    let item ← send (.findShopItem itemId player.orgId true)
    match item with
    | none      => Prog.throw (.badRequest "That shop item is not available")
    | some item =>
      singleCheckout player steamId {
        amountCents := item.priceCents
        name        := orElse item.name "Server support"
        description := orElse item.description tiedTo
        shopItemId  := some itemId }
  | none =>
    match parseDonationAmountCents amountCents with
    | none        => .throw (.badRequest "Choose an amount between $5 and $500")
    | some amount =>
      singleCheckout player steamId {
        amountCents := amount
        name        := "Server support"
        description := tiedTo
        shopItemId  := none }

-- The identity that stands in for a missing Steam id.
def CheckoutPlayer.syntheticSteam (player : CheckoutPlayer) : String :=
  orElse (player.steamId.getD "") ("mc:" ++ player.id)

def createCheckout (player : CheckoutPlayer) (amountCents shopItemId shopItemIds : Option Json) :
    Service Unit :=
  if player.steamId.getD "" = "" ∧ player.sessionAuth ≠ .name then
    .throw (.badRequest "Sign in with your Minecraft name or Steam to donate.")
  else do
    let configured ← send (.findCredentials player.orgId)
    if configured then
      match parseShopItemIds shopItemIds with
      | some ids => createCartCheckout player player.syntheticSteam ids
      | none     => createSingleCheckout player player.syntheticSteam amountCents shopItemId
    else Prog.throw (.unavailable "Donations are not configured")

end Payments
