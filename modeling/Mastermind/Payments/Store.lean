import Mastermind.Effects.Prog
import Mastermind.Effects.Table
import Mastermind.Payments.Logic

open Effects Js

namespace Payments

-- Donations are referred to by their position in their table.
abbrev DonationId := Nat

structure Player extends LedgerPlayer where
  orgId            : Id
  serverInstanceId : Id
  steamId          : Option String
  name             : String

-- The lines of a donation are left out: a credit writes them along and nothing here reads them.
structure Donation extends LedgerDonation where
  orgId            : Id
  serverInstanceId : Id
  playerId         : Id
  steamId          : Id
  currency         : String
  shopItemId       : Option String
  completedAt      : Option ℤ
  refundedAt       : Option ℤ
  deriving DecidableEq

structure ShopItem where
  id          : String
  orgId       : Id
  name        : String
  description : String
  priceCents  : ℤ
  active      : Bool

structure CheckoutLineItem where
  amountCents : ℤ
  name        : String
  description : String
  shopItemId  : Option String
  deriving DecidableEq

-- What is sent to Stripe in order to create a checkout session. The metadata is listed in the order
-- in which it is set; the addresses to return to are left out.
structure CheckoutSession where
  clientReferenceId : String
  metadata          : List (String × String)
  lineItems         : List CheckoutLineItem
  deriving DecidableEq

-- The database, together with the sessions that Stripe has been asked to create. What has to be
-- configured for donations (the keys, the address of the site) is either there or not.
structure Store where
  clock       : ℤ
  players     : Id → Option Player
  donations   : Table Donation       := []
  shopItems   : List ShopItem        := []
  configured  : Id → Bool            := fun _ => true
  sessions    : List CheckoutSession := []

namespace Store

-- `player.findFirst({ where: { id, steamId, serverInstanceId, orgId } })`
def player? (s : Store) (id steamId serverInstanceId orgId : Id) : Option Player :=
  (s.players id).filter fun p =>
    p.steamId = some steamId.val && p.serverInstanceId = serverInstanceId && p.orgId = orgId

-- `donation.findUnique({ where: { stripeCheckoutSessionId } })`
def donation? (s : Store) (sessionId : String) : Option Donation :=
  s.donations.find? (·.stripeCheckoutSessionId = sessionId)

-- `donation.findFirst({ where: { stripePaymentIntentId }, include: { player } })`
def charge? (s : Store) (paymentIntentId : String) : Option (DonationId × Donation × Player) := do
  let (id, donation) ←
    s.donations.entries.find? fun (_, d) => d.stripePaymentIntentId = some paymentIntentId
  let player ← s.players donation.playerId
  return (id, donation, player)

def setPlayer (s : Store) (id : Id) (row : Player) (player : LedgerPlayer) : Store :=
  { s with players := Function.update s.players id (some { row with toLedgerPlayer := player }) }

end Store

structure DonationData where
  refundedCents : ℤ
  status        : DonationStatus
  refundedAt    : Option ℤ

def DonationData.apply (data : DonationData) (d : Donation) : Donation :=
  { d with
    refundedCents := data.refundedCents
    status        := data.status
    refundedAt    := data.refundedAt }

inductive Exception
  | badRequest  (message : String)
  | unavailable (message : String)
  -- Prisma's error P2002
  | uniqueConstraint
  | storage

-- The commands that write are transactions. Their last argument is what the handler has read and
-- computed the transaction from. The database does not look at it.
inductive Cmd
  | now
  | findCredentials (orgId : Id)
  | findPlayer      (id steamId serverInstanceId orgId : Id)
  | findDonation    (sessionId : String)
  | findShopItem    (id : String) (orgId : Id) (active : Bool)
  | findShopItems   (ids : List String) (orgId : Id) (active : Bool)
  | findCharge      (paymentIntentId : String)
  | createSession   (session : CheckoutSession)
  | creditPlayer    (donation : Donation) (player : LedgerPlayer) (read : LedgerPlayer)
  | refundPlayer    (id : DonationId) (data : DonationData) (playerId : Id) (player : LedgerPlayer)
    (read : Donation × LedgerPlayer)

@[reducible]
def Cmd.Ans : Cmd → Type
  | now               => ℤ
  | findCredentials _ => Bool
  | findPlayer ..     => Option Player
  | findDonation _    => Option Donation
  | findShopItem ..   => Option ShopItem
  | findShopItems ..  => List ShopItem
  | findCharge _      => Option (DonationId × Donation × Player)
  | _                 => Unit

def exec : (c : Cmd) → Store → Except Exception c.Ans × Store
  | .now, s => (.ok s.clock, s)
  | .findCredentials orgId, s => (.ok (s.configured orgId), s)
  | .findPlayer id steamId serverInstanceId orgId, s =>
    (.ok (s.player? id steamId serverInstanceId orgId), s)
  | .findDonation sessionId, s => (.ok (s.donation? sessionId), s)
  | .findShopItem id orgId active, s =>
    (.ok (s.shopItems.find? fun i => i.id = id && i.orgId = orgId && (i.active || !active)), s)
  | .findShopItems ids orgId active, s =>
    (.ok (s.shopItems.filter fun i =>
      ids.contains i.id && i.orgId = orgId && (i.active || !active)), s)
  | .findCharge paymentIntentId, s => (.ok (s.charge? paymentIntentId), s)
  | .createSession session, s => (.ok (), { s with sessions := s.sessions ++ [session] })
  | .creditPlayer donation player _, s =>
    match s.donation? donation.stripeCheckoutSessionId, s.players donation.playerId with
    | some _, _      => (.error .uniqueConstraint, s)
    | none, none     => (.error .storage, s)
    | none, some row =>
      (.ok (), { s.setPlayer donation.playerId row player with
        donations := s.donations ++ [donation] })
  | .refundPlayer id data playerId player _, s =>
    match s.donations[id]?, s.players playerId with
    | some _, some row =>
      (.ok (), { s.setPlayer playerId row player with
        donations := s.donations.modify id data.apply })
    | _, _ => (.error .storage, s)

@[reducible]
def stripe : Backend Exception where
  State := Store
  Cmd   := Cmd
  Ans   := Cmd.Ans
  exec  := exec
  fault := .storage
  local? c := c matches .now

abbrev Service (α : Type) :=
  Prog stripe α

abbrev send (c : Cmd) : Service c.Ans :=
  Prog.perform (B := stripe) c

end Payments
