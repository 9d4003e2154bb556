import Mastermind.Payments.Store

open Effects Js

namespace Payments

-- The reads of `buildDonationLines`.
def readItems (paid : PaidCheckout) : Service Unit :=
  if paid.shopItemIds.isEmpty then pure ()
  else do
    let _ ← send (.findShopItems paid.shopItemIds paid.orgId false)

def primaryItem (paid : PaidCheckout) : Service (Option String) :=
  match (singleItem paid.shopItemIds).or paid.shopItemId with
  | none    => pure none
  | some id => do
    let item ← send (.findShopItem id paid.orgId false)
    return item.map ShopItem.id

def PaidCheckout.donation (paid : PaidCheckout) (shopItemId : Option String) (at' : ℤ) : Donation where
  stripeCheckoutSessionId := paid.sessionId
  stripePaymentIntentId   := paid.paymentIntentId
  amountCents             := paid.amountCents
  refundedCents           := 0
  status                  := .completed
  orgId                   := paid.orgId
  serverInstanceId        := paid.serverInstanceId
  playerId                := paid.playerId
  steamId                 := paid.steamId
  currency                := paid.currency
  shopItemId              := shopItemId
  completedAt             := some at'
  refundedAt              := none

def PaidCheckout.input (paid : PaidCheckout) : CreditInput where
  stripeCheckoutSessionId := paid.sessionId
  stripePaymentIntentId   := paid.paymentIntentId
  amountCents             := .fin (paid.amountCents.val : ℚ)

-- A session that another handler has stored in the meantime is ignored.
def storeCredit (paid : PaidCheckout) (player : LedgerPlayer) (shopItemId : Option String)
    (at' : ℤ) : Service Unit :=
  let next := creditCompletedSession .exact none paid.input player at'
  if next.applied then
    (send (.creditPlayer (paid.donation shopItemId at') next.player player)).handle fun
      | .uniqueConstraint => pure ()
      | e                 => .throw e
  else pure ()

def creditPlayer (paid : PaidCheckout) (player : LedgerPlayer) : Service Unit := do
  let existing ← send (.findDonation paid.sessionId)
  if existing.isSome then return
  else
    readItems paid
    let shopItemId ← primaryItem paid
    let at' ← send .now
    storeCredit paid player shopItemId at'

-- What follows the transaction (the notification, the delivery of items, the triggers) does not touch
-- the donations.
def creditPaidSession (object : Json) : Service Unit :=
  match parsePaidCheckoutSession object with
  | none      => pure ()
  | some paid => do
    let player ← send (.findPlayer paid.playerId paid.steamId paid.serverInstanceId paid.orgId)
    match player with
    | none        => return
    | some player => creditPlayer paid player.toLedgerPlayer

def storeRefund (id : DonationId) (donation : Donation) (player : LedgerPlayer) (refundedCents : ℤ)
    (at' : ℤ) : Service Unit :=
  let next := applyChargeRefund .exact (some donation.toLedgerDonation) refundedCents player
  match next.applied, next.donation with
  | true, some d =>
    let data := {
      refundedCents := d.refundedCents
      status        := d.status
      refundedAt    := if d.status = .refunded then some at' else donation.refundedAt }
    send (.refundPlayer id data donation.playerId next.player (donation, player))
  | _, _ => pure ()

def refundPaymentIntent (paymentIntentId : String) (refundedCents : ℤ) : Service Unit := do
  let charge ← send (.findCharge paymentIntentId)
  match charge with
  | none                        => return
  | some (id, donation, player) =>
    let at' ← send .now
    storeRefund id donation player.toLedgerPlayer refundedCents at'

-- An event whose signature has been verified.
structure WebhookEvent where
  type   : String
  object : Json

def refundCharge (charge : Option RefundedCharge) : Service Unit :=
  match charge with
  | none        => pure ()
  | some charge => refundPaymentIntent charge.paymentIntentId charge.refundedCents

def handleWebhook (event : WebhookEvent) : Service Unit :=
  if event.type = "checkout.session.completed" then creditPaidSession event.object
  else if event.type = "charge.refunded" then refundCharge (parseChargeRefund event.object)
  else if event.type = "charge.dispute.closed" then refundCharge (parseLostDispute event.object)
  else pure ()

end Payments
