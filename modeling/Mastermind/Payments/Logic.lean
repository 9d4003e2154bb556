import Mastermind.Script.Json

open Js

namespace Payments

def minDonationCents : ℤ := 500
def maxDonationCents : ℤ := 50000

inductive DonationStatus
  | completed
  | refunded
  deriving DecidableEq

-- Amounts are integers, dates are counted in milliseconds.
structure LedgerDonation where
  stripeCheckoutSessionId : String
  stripePaymentIntentId   : Option String
  amountCents             : ℤ
  refundedCents           : ℤ
  status                  : DonationStatus
  deriving DecidableEq

structure LedgerPlayer where
  supporter         : Bool
  supporterSince    : Option ℤ
  totalDonatedCents : ℤ
  deriving DecidableEq

structure CreditInput where
  stripeCheckoutSessionId : String
  stripePaymentIntentId   : Option String
  amountCents             : Number

structure Credit where
  donation : LedgerDonation
  player   : LedgerPlayer
  applied  : Bool

structure Refund where
  donation : Option LedgerDonation
  player   : LedgerPlayer
  applied  : Bool
  delta    : ℤ

-- How amounts are added and subtracted.
structure Arithmetic where
  add : ℤ → ℤ → ℤ
  sub : ℤ → ℤ → ℤ

namespace Arithmetic

-- The amounts of a database are 32-bit integers, whose sums are exact.
def exact : Arithmetic where
  add := (· + ·)
  sub := (· - ·)

-- The number that an integer is rounded to. What rounds to an infinity is left as it is.
def toNumber (n : ℤ) : ℤ :=
  match Number.round n with
  | .fin q => q.num
  | _      => n

def numbers : Arithmetic where
  add a b := toNumber (a + b)
  sub a b := toNumber (a - b)

end Arithmetic

def parseDonationAmountCents : Option Json → Option ℤ
  | some (.num raw) =>
    raw.integer?.filter fun cents => minDonationCents ≤ cents && cents ≤ maxDonationCents
  | _ => none

-- The donation that a credit makes of its input.
def CreditInput.donation (input : CreditInput) (amountCents : ℤ) : LedgerDonation where
  stripeCheckoutSessionId := input.stripeCheckoutSessionId
  stripePaymentIntentId   := input.stripePaymentIntentId
  amountCents             := amountCents
  refundedCents           := 0
  status                  := .completed

def creditCompletedSession (m : Arithmetic) (existing : Option LedgerDonation) (input : CreditInput)
    (player : LedgerPlayer) (at' : ℤ) : Credit :=
  match existing, input.amountCents.integer? with
  | some donation, _ => { donation, player, applied := false }
  | none, none       => { donation := input.donation 0, player, applied := false }
  | none, some cents =>
    if cents ≤ 0 then { donation := input.donation 0, player, applied := false }
    else
      let total := m.add player.totalDonatedCents cents
      { applied  := true
        donation := input.donation cents
        player   := {
          supporter         := 0 < total
          supporterSince    := player.supporterSince.or (if 0 < total then some at' else none)
          totalDonatedCents := total } }

-- The refunded amount is an integer, which `Math.trunc(refundedCents) || 0` does not change.
def applyChargeRefund (m : Arithmetic) (donation : Option LedgerDonation) (refundedCents : ℤ)
    (player : LedgerPlayer) : Refund :=
  match donation with
  | none          => { donation := none, player, applied := false, delta := 0 }
  | some donation =>
    let nextRefunded := min donation.amountCents (max donation.refundedCents refundedCents)
    let delta := m.sub nextRefunded donation.refundedCents
    if delta ≤ 0 then { donation := some donation, player, applied := false, delta := 0 }
    else
      let total := max 0 (m.sub player.totalDonatedCents delta)
      { applied  := true
        delta    := delta
        donation := some { donation with
          refundedCents := nextRefunded
          status        := if donation.amountCents ≤ nextRefunded then .refunded else .completed }
        player   := {
          supporter         := 0 < total
          supporterSince    := if 0 < total then player.supporterSince else none
          totalDonatedCents := total } }

-- `s || null`
def nonEmpty (s : String) : Option String :=
  if s = "" then none else some s

def stripeObjectId : Option Json → Option String
  | some (.str s) => if trim s = "" then none else some (slice (trim s) 255)
  | some object   =>
    match object.get? "id" with
    | some (.str s) => nonEmpty (slice (trim s) 255)
    | _             => none
  | none => none

-- `typeof x === 'string' ? x : ''`
def textOrEmpty : Option Json → String
  | some (.str s) => s
  | _             => ""

-- `typeof x === 'number' && Number.isInteger(x) ? x : null`
def integerOrNull : Option Json → Option ℤ
  | some (.num n) => n.integer?
  | _             => none

-- `/^[a-z0-9_-]{10,40}$/i`
def isShopItemId (cs : List Char) : Bool :=
  10 ≤ cs.length && cs.length ≤ 40 && cs.all fun c => c.isAlphanum || c = '_' || c = '-'

-- `s.split(',').map((part) => part.trim())`
def splitParts (s : String) : List String :=
  (s.toList.splitOn ',').map fun part => .ofList (trimChars part)

-- The texts that count as true.
abbrev Id :=
  { s : String // s ≠ "" }

def id? (s : String) : Option Id :=
  if h : s ≠ "" then some ⟨s, h⟩ else none

abbrev PositiveCents :=
  { n : ℤ // 0 < n }

structure PaidCheckout where
  sessionId        : String
  paymentIntentId  : Option String
  amountCents      : PositiveCents
  currency         : String
  playerId         : Id
  steamId          : Id
  serverInstanceId : Id
  orgId            : Id
  shopItemId       : Option String
  shopItemIds      : List String
  lineAmounts      : List ℤ

-- The ids of the shop items in the metadata of a session: the list or else the single item.
def metadataItemIds (metadata : Json) : List String :=
  let ids := textOrEmpty (metadata.get? "shopItemIds")
  let id := textOrEmpty (metadata.get? "shopItemId")
  if trim ids ≠ "" then (splitParts ids).filter (isShopItemId ·.toList)
  else if isShopItemId id.toList then [id]
  else []

def metadataLineAmounts (metadata : Json) : List ℤ :=
  let amounts := textOrEmpty (metadata.get? "lineAmounts")
  if trim amounts ≠ "" then
    ((splitParts amounts).filterMap fun part => (stringToNumber part).integer?).filter (0 < ·)
  else []

def metadataPlayerId (object metadata : Json) : Option String :=
  match metadata.get? "playerId" with
  | some (.str s) => some s
  | _             => stripeObjectId (object.get? "client_reference_id")

def sessionCurrency (object : Json) : String :=
  match object.get? "currency" with
  | some (.str s) => if s = "" then "usd" else slice s 8
  | _             => "usd"

-- The shop item of a session that has only one.
def singleItem : List String → Option String
  | [id] => some id
  | _    => none

def parsePaidCheckoutSession (object : Json) : Option PaidCheckout :=
  let metadata := (object.get? "metadata").getD (.obj [])
  let text := fun key => id? (textOrEmpty (metadata.get? key))
  let shopItemIds := metadataItemIds metadata
  match object.get? "payment_status" with
  | some (.str "paid") =>
    match stripeObjectId (object.get? "id"), integerOrNull (object.get? "amount_total"),
        (metadataPlayerId object metadata).bind id?, text "steamId", text "serverInstanceId",
        text "orgId" with
    | some sessionId, some cents, some playerId, some steamId, some serverInstanceId, some orgId =>
      if h : 0 < cents then some {
        sessionId, playerId, steamId, serverInstanceId, orgId, shopItemIds
        amountCents     := ⟨cents, h⟩
        paymentIntentId := stripeObjectId (object.get? "payment_intent")
        currency        := sessionCurrency object
        shopItemId      := singleItem shopItemIds
        lineAmounts     := metadataLineAmounts metadata }
      else none
    | _, _, _, _, _, _ => none
  | _ => none

structure RefundedCharge where
  paymentIntentId : String
  refundedCents   : ℤ
  deriving DecidableEq

def parseChargeRefund (object : Json) : Option RefundedCharge :=
  let refundedCents :=
    match integerOrNull (object.get? "amount_refunded"), object.get? "refunded" with
    | some cents, _             => some cents
    | none, some (.bool true)   => integerOrNull (object.get? "amount")
    | none, _                   => none
  match stripeObjectId (object.get? "payment_intent"), refundedCents with
  | some paymentIntentId, some refundedCents =>
    if refundedCents < 0 then none else some { paymentIntentId, refundedCents }
  | _, _ => none

def parseLostDispute (object : Json) : Option RefundedCharge :=
  match object.get? "status" with
  | some (.str "lost") =>
    match stripeObjectId (object.get? "payment_intent"), integerOrNull (object.get? "amount") with
    | some paymentIntentId, some refundedCents =>
      if refundedCents ≤ 0 then none else some { paymentIntentId, refundedCents }
    | _, _ => none
  | _ => none

end Payments
