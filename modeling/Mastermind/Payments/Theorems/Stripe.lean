import Mathlib.Data.Option.Basic
import Mastermind.Payments.Stripe
import Mastermind.Script.Digits

open Js Js.Number

namespace Payments

-- The parts of a header as keys and values.
def headerParts (header : String) : List (List Char × Option (List Char)) :=
  (header.toList.splitOn ',').map keyValue

-- The value of the last part `t`.
def lastTimestamp (header : String) : Option (List Char) :=
  ((headerParts header).filter (·.1 = ['t'])).getLast?.bind (·.2)

-- The part is one of the signatures `v1` of a header.
def HasSignature (header : String) (v1 : List Char) : Prop :=
  (['v', '1'], some v1) ∈ headerParts header

-- Whoever signed the payload recently had the secret.
structure Signed (hmac : String → String → Digest) (payload header secret : String)
    (nowSec : Seconds) (t v1 : List Char) : Prop where
  timestamp : lastTimestamp header = some t
  nonempty  : t ≠ []
  digits    : ∀ c ∈ t, isDigit c = true
  recent    : (nowSec.val - digitsValue t).natAbs ≤ 300
  part      : HasSignature header v1
  signature : hexDecode v1 = (hmac secret (.ofList t ++ "." ++ payload)).val

section

variable {b : UInt8} {bytes : List UInt8} {part : List Char} {parts : List (List Char)}
  {h : SignatureHeader}

theorem radixDigit?_digitChar : ∀ n < 16, radixDigit? 16 (Nat.digitChar n) = some n := by
  decide

theorem hexDecode_hexEncode : hexDecode (hexEncode bytes) = bytes := by
  induction bytes
  case nil => rfl
  case cons b bytes hi =>
    have hb := b.toNat_lt
    have he : hexEncode (b :: bytes) =
        Nat.digitChar (b.toNat / 16) :: Nat.digitChar (b.toNat % 16) :: hexEncode bytes := rfl
    have hv : UInt8.ofNat (16 * (b.toNat / 16) + b.toNat % 16) = b := by
      rw [Nat.div_add_mod]
      exact UInt8.ofNat_toNat
    rw [he, hexDecode, radixDigit?_digitChar _ (by omega), radixDigit?_digitChar _ (by omega)]
    simp only [hv, hi]

theorem safeEqualHex_iff {v1 : List Char} {d : Digest} :
    safeEqualHex v1 (hexEncode d.val) = true ↔ hexDecode v1 = d.val := by
  rw [safeEqualHex, hexDecode_hexEncode]
  constructor
  case mp =>
    intro he
    split at he
    case isTrue  => nomatch he
    case isFalse => exact of_decide_eq_true he
  case mpr =>
    intro he
    have hl := d.property
    simp only [he]
    rw [if_neg (by omega)]
    exact decide_eq_true trivial

-- The signature in a part of the header.
def signature? (part : List Char) : Option (List Char) :=
  (keyValue part).2.filter fun value => (keyValue part).1 = ['v', '1'] && value ≠ []

theorem scan_signatures : (h.scan part).signatures = h.signatures ++ (signature? part).toList := by
  rw [SignatureHeader.scan, signature?]
  rcases keyValue part with ⟨key, _ | value⟩
  case none => simp only; split <;> simp
  case some =>
    by_cases hv : key = ['v', '1'] ∧ value ≠ []
    case pos => simp [hv, Option.filter]
    case neg =>
      have hf : (key = ['v', '1'] && value ≠ []) = false := by simpa using hv
      simp only [if_neg hv, Option.filter_some, hf]
      split <;> simp

theorem scan_timestamp : (h.scan part).timestamp =
    if (keyValue part).1 = ['t'] then (keyValue part).2.getD [] else h.timestamp := by
  rw [SignatureHeader.scan]
  rcases keyValue part with ⟨key, _ | value⟩
  case none => simp only; split <;> rfl
  case some => simp only; split <;> split <;> rfl

theorem foldl_scan (h : SignatureHeader) (parts : List (List Char)) :
    (parts.foldl SignatureHeader.scan h).signatures = h.signatures ++ parts.filterMap signature? ∧
    (parts.foldl SignatureHeader.scan h).timestamp =
      ((parts.map keyValue).filter (·.1 = ['t'])).getLast?.elim h.timestamp (·.2.getD []) := by
  induction parts generalizing h
  case nil => exact ⟨(List.append_nil _).symm, rfl⟩
  case cons part parts hi =>
    have ⟨hs, ht⟩ := hi (h.scan part)
    rw [List.foldl_cons, hs, ht, scan_signatures, scan_timestamp, List.append_assoc, List.map_cons]
    constructor
    case left =>
      cases he : signature? part
      case none => rw [List.filterMap_cons_none he]; rfl
      case some => rw [List.filterMap_cons_some he]; rfl
    case right =>
      split
      case isTrue hk =>
        rw [List.filter_cons_of_pos (by simpa using hk), List.getLast?_cons]
        cases ((parts.map keyValue).filter (·.1 = ['t'])).getLast? <;> rfl
      case isFalse hk => rw [List.filter_cons_of_neg (by simpa using hk)]

theorem mem_signatures {header : String} {v1 : List Char} :
    v1 ∈ (header.toList.splitOn ',').filterMap signature? ↔ HasSignature header v1 ∧ v1 ≠ [] := by
  simp only [HasSignature, headerParts, List.mem_filterMap, List.mem_map, signature?,
    Option.filter_eq_some_iff, Bool.and_eq_true, decide_eq_true_eq]
  constructor
  case mp =>
    rintro ⟨part, hp, hv, hk, hn⟩
    exact ⟨⟨part, hp, Prod.ext hk hv⟩, hn⟩
  case mpr =>
    rintro ⟨⟨part, hp, he⟩, hn⟩
    exact ⟨part, hp, congrArg Prod.snd he, congrArg Prod.fst he, hn⟩

end

section

variable {hmac : String → String → Digest} {payload header secret : String} {nowSec : Seconds}

theorem elim_iff {last : Option (List Char × Option (List Char))} {t : List Char} (hn : t ≠ []) :
    last.elim [] (·.2.getD []) = t ↔ last.bind (·.2) = some t := by
  rcases last with _ | ⟨key, _ | value⟩
  case none      => simpa using hn.symm
  case some.none => simpa using hn.symm
  case some.some => simp

theorem isTimestamp_iff {t : List Char} :
    isTimestamp t = true ↔ t ≠ [] ∧ ∀ c ∈ t, isDigit c = true := by
  rw [isTimestamp, Bool.and_eq_true, decide_eq_true_eq, List.all_eq_true]

-- The age of a signature is computed exactly.
theorem age_iff {t : List Char} (hn : t ≠ []) (hd : ∀ c ∈ t, isDigit c = true) :
    let age := abs ((fin nowSec.val).sub (stringToNumber (.ofList t)))
    lt (fin signatureToleranceSec) age = true ↔
      signatureToleranceSec < (nowSec.val - digitsValue t).natAbs := by
  rw [stringToNumber_digits hn hd]
  exact lt_abs_sub (nowSec.property.trans (by decide)) (by decide)

theorem verifyStripeSignature_iff (payload header : String) :
    verifyStripeSignature hmac payload header secret nowSec = true ↔
      ∃ t v1, Signed hmac payload header secret nowSec t v1 := by
  have ⟨hs, ht⟩ := foldl_scan {} (header.toList.splitOn ',')
  rw [List.nil_append] at hs
  rw [verifyStripeSignature]
  simp only [hs, ht]
  constructor
  case mp =>
    intro hv
    split at hv
    case isTrue => nomatch hv
    case isFalse hn =>
      split at hv
      case isTrue => nomatch hv
      case isFalse ha =>
        simp only [Bool.or_eq_true, Bool.not_eq_true', decide_eq_true_eq, not_or,
          Bool.not_eq_false] at hn
        have ⟨hne, hd⟩ := isTimestamp_iff.mp hn.left
        have ⟨v1, hm, he⟩ := List.any_eq_true.mp hv
        exact ⟨_, v1, (elim_iff hne).mp rfl, hne, hd,
          Nat.le_of_not_lt (mt (age_iff hne hd).mpr ha), (mem_signatures.mp hm).left,
          safeEqualHex_iff.mp he⟩
  case mpr =>
    rintro ⟨t, v1, h⟩
    have ht : ((headerParts header).filter (·.1 = ['t'])).getLast?.elim [] (·.2.getD []) = t :=
      (elim_iff h.nonempty).mpr h.timestamp
    have hv : v1 ≠ [] := by
      rintro rfl
      have hl := congrArg List.length h.signature
      rw [(hmac secret _).property] at hl
      nomatch hl
    have hm := mem_signatures.mpr ⟨h.part, hv⟩
    rw [headerParts] at ht
    simp only [ht, isTimestamp_iff.mpr ⟨h.nonempty, h.digits⟩, List.ne_nil_of_mem hm]
    rw [if_neg (by simp), if_neg (mt (age_iff h.nonempty h.digits).mp (Nat.not_lt_of_le h.recent))]
    exact List.any_eq_true.mpr ⟨v1, hm, safeEqualHex_iff.mpr h.signature⟩

-- A blank header has no timestamp.
theorem Signed.trim_ne {t v1 : List Char} (h : Signed hmac payload header secret nowSec t v1) :
    trim header ≠ "" := by
  intro hb
  have hc : trimChars header.toList = [] := by
    have hc := congrArg String.toList hb
    rwa [trim, String.toList_ofList] at hc
  have hs : ',' ∉ header.toList := fun hm => nomatch trimChars_eq_nil_iff.mp hc ',' hm
  have ht := h.timestamp
  rw [lastTimestamp, headerParts, List.splitOn_eq_singleton hs, List.map_singleton, keyValue,
    hc] at ht
  nomatch ht

end

section

variable {hmac : String → String → Digest} {rawBody : RawBody} {signature : Option String}
  {secrets : List String} {secret : String} {nowSec : Seconds} {event : StripeEvent} {error : Coded}

-- The header that comes with a payload was signed with a secret.
def SignedWith (hmac : String → String → Digest) (payload : String) (signature : Option String)
    (nowSec : Seconds) (secret : String) : Prop :=
  ∃ header, signature = some header ∧ ∃ t v1, Signed hmac payload header secret nowSec t v1

theorem constructStripeEvent_ok (hs : secret ≠ "") :
    constructStripeEvent hmac rawBody signature secret nowSec = .ok event ↔
      SignedWith hmac rawBody.payload signature nowSec secret ∧
      stripeEvent? rawBody.payload = some event := by
  rw [constructStripeEvent, if_neg hs, SignedWith]
  cases signature
  case none =>
    have ht : trim (Option.getD none "") = "" := rfl
    rw [if_pos ht]
    exact iff_of_false nofun (by rintro ⟨⟨_, h, _⟩, _⟩; nomatch h)
  case some header =>
    have hv : verifyStripeSignature hmac rawBody.payload header secret nowSec = true ↔ _ :=
      verifyStripeSignature_iff rawBody.payload header
    rw [Option.getD_some]
    constructor
    case mp =>
      intro h
      split at h
      case isTrue => nomatch h
      case isFalse =>
        split at h
        case isTrue => nomatch h
        case isFalse hn =>
          split at h
          case h_2 => nomatch h
          case h_1 he =>
            have hn : verifyStripeSignature hmac rawBody.payload header secret nowSec = true := by
              simpa using hn
            exact ⟨⟨header, rfl, hv.mp hn⟩, Except.ok.inj h ▸ he⟩
    case mpr =>
      rintro ⟨⟨_, hh, h⟩, he⟩
      obtain rfl := Option.some.inj hh
      have ⟨_, _, hs⟩ := h
      rw [if_neg hs.trim_ne, hv.mpr h, if_neg (by decide), he]

theorem constructStripeEvent_error (hs : secret ≠ "")
    (h : constructStripeEvent hmac rawBody signature secret nowSec = .error error) :
    error.code = .badSignature := by
  rw [constructStripeEvent, if_neg hs] at h
  split at h
  case isTrue => exact Except.error.inj h ▸ rfl
  case isFalse =>
    split at h
    case isTrue => exact Except.error.inj h ▸ rfl
    case isFalse =>
      split at h
      case h_1 => nomatch h
      case h_2 => exact Except.error.inj h ▸ rfl

theorem trySecrets_ok {construct : String → Except Coded StripeEvent} (last : Option Coded)
    (hc : ∀ s ∈ secrets, ∀ e, construct s = .error e → e.code = .badSignature)
    (h : ∃ s ∈ secrets, ∃ event, construct s = .ok event) :
    ∃ s ∈ secrets, trySecrets construct last secrets = construct s ∧
      ∃ event, construct s = .ok event := by
  induction secrets generalizing last
  case nil => exact absurd h (by simp)
  case cons s secrets hi =>
    rw [trySecrets]
    split
    case h_1 event hs => exact ⟨s, List.mem_cons_self, hs.symm, event, hs⟩
    case h_2 e hs =>
      have ⟨hb, hc⟩ := List.forall_mem_cons.mp hc
      have h : ∃ s ∈ secrets, ∃ event, construct s = .ok event := by
        obtain ⟨s', hm, event, ho⟩ := h
        cases List.mem_cons.mp hm
        case inl he => exact nomatch hs.symm.trans ((congrArg construct he).symm.trans ho)
        case inr hm => exact ⟨s', hm, event, ho⟩
      have ⟨s', hm, ht⟩ := hi (some e) hc h
      rw [if_neg (not_not.mpr (hb e hs))]
      exact ⟨s', List.mem_cons_of_mem s hm, ht⟩

theorem trySecrets_error {construct : String → Except Coded StripeEvent} (last : Option Coded)
    (hc : ∀ s ∈ secrets, ∃ e, construct s = .error e ∧ e.code = .badSignature)
    (hl : ∀ e ∈ last, e.code = .badSignature) :
    ∃ e, trySecrets construct last secrets = .error e ∧ e.code = .badSignature := by
  induction secrets generalizing last
  case nil =>
    cases last
    case none   => exact ⟨_, rfl, rfl⟩
    case some e => exact ⟨e, rfl, hl e rfl⟩
  case cons s secrets hi =>
    have ⟨⟨e, hs, hb⟩, hc⟩ := List.forall_mem_cons.mp hc
    rw [trySecrets, hs]
    simp only [hb, not_true_eq_false, if_false, ne_eq]
    exact hi _ hc fun e' he => Option.some.inj he ▸ hb

-- The secrets that are tried.
def IsSecret (secrets : List String) (secret : String) : Prop :=
  secret ≠ "" ∧ ∃ s ∈ secrets, trim s = secret

theorem mem_unique : secret ∈ ((secrets.map trim).filter (· ≠ "")).eraseDups ↔
    IsSecret secrets secret := by
  simp [IsSecret, List.mem_eraseDups, and_comm]

open Classical in
-- The result, with the code of an error only.
noncomputable def outcome (hmac : String → String → Digest) (payload : String)
    (signature : Option String) (secrets : List String) (nowSec : Seconds) :
    Except Code StripeEvent :=
  if ∃ secret, IsSecret secrets secret then
    if ∃ secret, IsSecret secrets secret ∧ SignedWith hmac payload signature nowSec secret then
      (stripeEvent? payload).elim (.error .badSignature) .ok
    else .error .badSignature
  else .error .unconfigured

theorem constructStripeEventWithSecrets_eq :
    (constructStripeEventWithSecrets hmac rawBody signature secrets nowSec).mapError Coded.code =
      outcome hmac rawBody.payload signature secrets nowSec := by
  have hu {secret : String} : secret ∈ _ ↔ IsSecret secrets secret := mem_unique
  rw [constructStripeEventWithSecrets, outcome]
  generalize ((secrets.map trim).filter (· ≠ "")).eraseDups = unique at hu
  by_cases hn : unique = []
  case pos =>
    have hs : ¬∃ secret, IsSecret secrets secret := by
      rintro ⟨secret, hs⟩
      exact nomatch hn ▸ hu.mpr hs
    rw [if_neg hs, if_pos hn]
    rfl
  case neg =>
    have ⟨s, hs⟩ := List.exists_mem_of_ne_nil _ hn
    have hs : ∃ secret, IsSecret secrets secret := ⟨s, hu.mp hs⟩
    have he : ∀ s ∈ unique, ∀ e,
        constructStripeEvent hmac rawBody signature s nowSec = .error e → e.code = .badSignature :=
      fun s hs e => constructStripeEvent_error (hu.mp hs).left
    rw [if_neg hn, if_pos hs]
    by_cases h : ∃ s ∈ unique, ∃ event,
        constructStripeEvent hmac rawBody signature s nowSec = .ok event
    case pos =>
      have ⟨s, hs, ht, event, ho⟩ := trySecrets_ok none he h
      have ⟨hw, hp⟩ := (constructStripeEvent_ok (hu.mp hs).left).mp ho
      have hg : ∃ secret, IsSecret secrets secret ∧
          SignedWith hmac rawBody.payload signature nowSec secret := ⟨s, hu.mp hs, hw⟩
      rw [if_pos hg, hp, ht, ho]
      rfl
    case neg =>
      have he : ∀ s ∈ unique, ∃ e,
          constructStripeEvent hmac rawBody signature s nowSec = .error e ∧
            e.code = .badSignature := by
        intro s hs
        cases hc : constructStripeEvent hmac rawBody signature s nowSec
        case ok event => exact absurd ⟨s, hs, event, hc⟩ h
        case error e  => exact ⟨e, rfl, he s hs e hc⟩
      have ⟨e, ht, hb⟩ := trySecrets_error none he nofun
      rw [ht, Except.mapError, hb]
      split
      case isFalse => rfl
      case isTrue hg =>
        have ⟨s, hs, hw⟩ := hg
        cases hp : stripeEvent? rawBody.payload
        case none       => rfl
        case some event =>
          exact absurd ⟨s, hu.mpr hs, event, (constructStripeEvent_ok hs.left).mpr ⟨hw, hp⟩⟩ h

theorem mapError_ok {result : Except Coded StripeEvent} :
    result.mapError Coded.code = .ok event ↔ result = .ok event := by
  cases result
  case ok    => simp [Except.mapError]
  case error => simp [Except.mapError]

theorem stripeEvent?_isSome {payload : String} : (∃ event, stripeEvent? payload = some event) ↔
    ∃ json type, Json.parse? payload = some json ∧ json.get? "type" = some (.str type) := by
  rw [stripeEvent?]
  cases Json.parse? payload
  case none => simp
  case some json =>
    simp only [Option.bind_eq_bind, Option.bind_some, Option.some.injEq, exists_and_left,
      exists_eq_left']
    constructor
    case mp =>
      rintro ⟨event, h⟩
      split at h
      case h_1 type ht => exact ⟨type, ht⟩
      case h_2         => nomatch h
    case mpr =>
      rintro ⟨type, ht⟩
      rw [ht]
      exact ⟨_, rfl⟩

-- Two headers with the same timestamp and the same signatures, in any order and any number.
structure SameHeader (header header' : String) : Prop where
  timestamp  : lastTimestamp header = lastTimestamp header'
  signatures : ∀ v1, HasSignature header v1 ↔ HasSignature header' v1

theorem SameHeader.signed {header header' payload : String} (h : SameHeader header header')
    {t v1 : List Char} (hs : Signed hmac payload header secret nowSec t v1) :
    Signed hmac payload header' secret nowSec t v1 :=
  { hs with
    timestamp := h.timestamp ▸ hs.timestamp
    part      := (h.signatures v1).mp hs.part }

theorem SameHeader.symm {header header' : String} (h : SameHeader header header') :
    SameHeader header' header :=
  ⟨h.timestamp.symm, fun v1 => (h.signatures v1).symm⟩

theorem signedWith_congr {payload : String} {signature' : Option String}
    (h : Option.Rel SameHeader signature signature') :
    SignedWith hmac payload signature nowSec secret ↔
      SignedWith hmac payload signature' nowSec secret := by
  cases h
  case none   => exact Iff.rfl
  case some h =>
    constructor
    case mp  => exact fun ⟨_, hh, t, v1, hs⟩ => ⟨_, rfl, t, v1, h.signed (Option.some.inj hh ▸ hs)⟩
    case mpr =>
      exact fun ⟨_, hh, t, v1, hs⟩ => ⟨_, rfl, t, v1, h.symm.signed (Option.some.inj hh ▸ hs)⟩

theorem isSecret_congr {secrets' : List String} (h : ∀ s, s ∈ secrets ↔ s ∈ secrets') :
    IsSecret secrets secret ↔ IsSecret secrets' secret := by
  simp only [IsSecret, h]

end

-- An event is accepted if and only if it was signed recently with one of the secrets. The order of
-- the secrets and of the signatures does not matter, nor how often each of them occurs.
theorem signature_accepted_iff (hmac : String → String → Digest) (rawBody : RawBody)
    (signature : Option String) (secrets : List String) (nowSec : Seconds) :
    ((∃ event, constructStripeEventWithSecrets hmac rawBody signature secrets nowSec = .ok event) ↔
      (∃ header secret t v1, signature = some header ∧ IsSecret secrets secret ∧
        Signed hmac rawBody.payload header secret nowSec t v1) ∧
      ∃ json type, Json.parse? rawBody.payload = some json ∧
        json.get? "type" = some (.str type)) ∧
    ∀ signature' secrets', Option.Rel SameHeader signature signature' →
      (∀ s, s ∈ secrets ↔ s ∈ secrets') →
      (constructStripeEventWithSecrets hmac rawBody signature secrets nowSec).mapError Coded.code =
        (constructStripeEventWithSecrets hmac rawBody signature' secrets' nowSec).mapError
          Coded.code := by
  constructor
  case left =>
    simp only [← mapError_ok, constructStripeEventWithSecrets_eq, ← stripeEvent?_isSome]
    rw [outcome]
    constructor
    case mp =>
      rintro ⟨event, h⟩
      split at h
      case isFalse => nomatch h
      case isTrue =>
        split at h
        case isFalse => nomatch h
        case isTrue hs =>
          have ⟨secret, hs, header, hh, t, v1, hw⟩ := hs
          refine ⟨⟨header, secret, t, v1, hh, hs, hw⟩, ?_⟩
          cases hp : stripeEvent? rawBody.payload
          case none       => nomatch hp ▸ h
          case some event => exact ⟨event, rfl⟩
    case mpr =>
      rintro ⟨⟨header, secret, t, v1, hh, hs, hw⟩, event, hp⟩
      rw [if_pos ⟨secret, hs⟩, if_pos ⟨secret, hs, header, hh, t, v1, hw⟩, hp]
      exact ⟨event, rfl⟩
  case right =>
    intro signature' secrets' hr hm
    have hi : IsSecret secrets = IsSecret secrets' := funext fun _ => propext (isSecret_congr hm)
    have hw : SignedWith hmac rawBody.payload signature nowSec =
        SignedWith hmac rawBody.payload signature' nowSec :=
      funext fun _ => propext (signedWith_congr hr)
    rw [constructStripeEventWithSecrets_eq, constructStripeEventWithSecrets_eq, outcome, outcome,
      hi, hw]

-- The second secret fits.
theorem signature_accepted_iff_second :
    let hmac : String → String → Digest := fun secret _ =>
      ⟨List.replicate 32 (if secret = "whsec_b" then 0xAB else 0), List.length_replicate⟩
    let header := "t=1700000000,v0=1,v1=" ++ String.ofList (hexEncode (List.replicate 32 0xAB))
    ∃ event, constructStripeEventWithSecrets hmac (.text "\x7b\"type\":\"a\"\x7d") (some header)
      ["whsec_a", " whsec_b"] ⟨1700000200, by decide⟩ = .ok event := by
  intro hmac header
  refine (signature_accepted_iff hmac _ _ _ _).left.mpr ⟨⟨header, "whsec_b", "1700000000".toList,
    hexEncode (List.replicate 32 0xAB), rfl, ?_, ?_⟩, ?_⟩
  case refine_1 => exact ⟨by decide, " whsec_b", by decide, by decide +kernel⟩
  case refine_2 =>
    exact ⟨by decide +kernel, by decide, List.all_eq_true.mp (by decide), by decide +kernel,
      by unfold HasSignature; decide +kernel, by decide +kernel⟩
  case refine_3 => exact ⟨.obj [("type", .str "a")], "a", rfl, rfl⟩

end Payments
