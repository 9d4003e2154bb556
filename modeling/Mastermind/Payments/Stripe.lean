import Mastermind.Payments.Logic
import Mastermind.Script.Json
import Mastermind.Text.Utf8

open Js Js.Number

namespace Payments

def signatureToleranceSec : Nat := 300

-- A digest of SHA-256.
abbrev Digest :=
  { bytes : List UInt8 // bytes.length = 32 }

-- The seconds of a `Date`.
abbrev Seconds :=
  { n : ℤ // n.natAbs ≤ 8640000000000 }

inductive Code
  | unconfigured
  | badSignature
  deriving DecidableEq

structure Coded where
  code    : Code
  message : String
  deriving DecidableEq

-- A string or a `Buffer`
inductive RawBody
  | text   (s : String)
  | buffer (bytes : List UInt8)

-- `typeof rawBody === 'string' ? rawBody : rawBody.toString('utf8')`
def RawBody.payload : RawBody → String
  | text s       => s
  | buffer bytes => .ofList (Utf8.decodeLossy bytes)

structure StripeEvent where
  type   : String
  object : Json

-- `Buffer.from(s, 'hex')`
def hexDecode : List Char → List UInt8
  | a :: b :: cs =>
    match radixDigit? 16 a, radixDigit? 16 b with
    | some a, some b => .ofNat (16 * a + b) :: hexDecode cs
    | _, _           => []
  | _ => []

-- `digest('hex')`
def hexEncode (bytes : List UInt8) : List Char :=
  bytes.flatMap fun b => [Nat.digitChar (b.toNat / 16), Nat.digitChar (b.toNat % 16)]

def safeEqualHex (left right : List Char) : Bool :=
  let a := hexDecode left
  let b := hexDecode right
  if a.length = 0 ∨ a.length ≠ b.length then false
  else a = b

-- `part.trim().split('=', 2)`, the key and the value
def keyValue (part : List Char) : List Char × Option (List Char) :=
  let fields := (trimChars part).splitOn '='
  (fields.headD [], fields[1]?)

-- What is read of the parts of a header.
structure SignatureHeader where
  timestamp  : List Char        := []
  signatures : List (List Char) := []

def SignatureHeader.scan (h : SignatureHeader) (part : List Char) : SignatureHeader :=
  let (key, value) := keyValue part
  let h := if key = ['t'] then { h with timestamp := value.getD [] } else h
  match value with
  | some value =>
    if key = ['v', '1'] ∧ value ≠ [] then { h with signatures := h.signatures ++ [value] } else h
  | none => h

-- `/^\d+$/`
def isTimestamp (cs : List Char) : Bool :=
  cs ≠ [] && cs.all isDigit

section

-- The HMAC-SHA256 of a text under a secret.
variable (hmac : String → String → Digest)

def verifyStripeSignature (payload header secret : String) (nowSec : Seconds) : Bool :=
  let h := (header.toList.splitOn ',').foldl SignatureHeader.scan {}
  if !isTimestamp h.timestamp || h.signatures = [] then false
  else
    let timestamp := String.ofList h.timestamp
    let age := abs ((fin nowSec.val).sub (stringToNumber timestamp))
    if lt (fin signatureToleranceSec) age then false
    else
      let expected := hexEncode (hmac secret (timestamp ++ "." ++ payload))
      h.signatures.any (safeEqualHex · expected)

-- `x && typeof x === 'object'`
def isObject : Json → Bool
  | .arr _ | .obj _ => true
  | _               => false

-- What is used of the event that a payload contains.
def stripeEvent? (payload : String) : Option StripeEvent := do
  let event ← Json.parse? payload
  match event.get? "type" with
  | some (.str type) =>
    let object := ((event.get? "data").bind (·.get? "object")).filter isObject
    return { type, object := object.getD (.obj []) }
  | _ => none

def constructStripeEvent (rawBody : RawBody) (signature : Option String) (secret : String)
    (nowSec : Seconds) : Except Coded StripeEvent :=
  if secret = "" then .error ⟨.unconfigured, "Stripe webhook is not configured"⟩
  else if trim (signature.getD "") = "" then .error ⟨.badSignature, "Stripe signature missing"⟩
  else if !verifyStripeSignature hmac rawBody.payload (signature.getD "") secret nowSec then
    .error ⟨.badSignature, "Stripe signature invalid"⟩
  else
    match stripeEvent? rawBody.payload with
    | some event => .ok event
    | none       => .error ⟨.badSignature, "Stripe event invalid"⟩

-- Tries one secret after the other. The last error is returned if there is no other result.
def trySecrets (construct : String → Except Coded StripeEvent) (last : Option Coded) :
    List String → Except Coded StripeEvent
  | []                => .error (last.getD ⟨.badSignature, "Stripe signature invalid"⟩)
  | secret :: secrets =>
    match construct secret with
    | .ok event    => .ok event
    | .error error =>
      if error.code ≠ .badSignature then .error error
      else trySecrets construct (some error) secrets

def constructStripeEventWithSecrets (rawBody : RawBody) (signature : Option String)
    (secrets : List String) (nowSec : Seconds) : Except Coded StripeEvent :=
  let unique := ((secrets.map trim).filter (· ≠ "")).eraseDups
  if unique = [] then .error ⟨.unconfigured, "Stripe webhook is not configured"⟩
  else trySecrets (constructStripeEvent hmac rawBody signature · nowSec) none unique

end

end Payments
