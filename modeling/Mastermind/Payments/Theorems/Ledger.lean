import Mathlib.Algebra.Order.BigOperators.Group.List
import Mastermind.Effects.System
import Mastermind.Payments.Logic
import Mastermind.Script.Shortest

open Effects Js

namespace Payments

-- A player and the player's donations.
structure Ledger where
  player    : LedgerPlayer
  donations : List LedgerDonation

inductive LedgerOp
  | credit (input : CreditInput) (at' : ℤ)
  | refund (i : Nat) (refundedCents : ℤ)

namespace Ledger

def new : Ledger where
  player    := { supporter := false, supporterSince := none, totalDonatedCents := 0 }
  donations := []

def existing? (l : Ledger) (sessionId : String) : Option LedgerDonation :=
  l.donations.find? (·.stripeCheckoutSessionId = sessionId)

-- What is returned is stored if it has been applied.
def next (m : Arithmetic) (l : Ledger) : LedgerOp → Ledger
  | .credit input at' =>
    let next := creditCompletedSession m (l.existing? input.stripeCheckoutSessionId) input l.player at'
    if next.applied then { player := next.player, donations := l.donations ++ [next.donation] } else l
  | .refund i refundedCents =>
    let next := applyChargeRefund m l.donations[i]? refundedCents l.player
    match next.applied, next.donation with
    | true, some donation => { player := next.player, donations := l.donations.set i donation }
    | _, _                => l

end Ledger

@[reducible]
def ledger (m : Arithmetic) : System where
  State := Ledger
  Event := LedgerOp
  next  := Ledger.next m

-- What is left of a donation.
def LedgerDonation.kept (d : LedgerDonation) : ℤ :=
  d.amountCents - d.refundedCents

def LedgerDonation.refundTo (d : LedgerDonation) (cents : ℤ) : LedgerDonation :=
  { d with
    refundedCents := cents
    status        := if d.amountCents ≤ cents then .refunded else .completed }

-- The refunded amount of a donation after a charge has been refunded up to an amount.
def LedgerDonation.refunded (d : LedgerDonation) (cents : ℤ) : ℤ :=
  min d.amountCents (max d.refundedCents cents)

def LedgerPlayer.plus (p : LedgerPlayer) (cents at' : ℤ) : LedgerPlayer where
  supporter         := 0 < p.totalDonatedCents + cents
  supporterSince    := p.supporterSince.or (if 0 < p.totalDonatedCents + cents then some at' else none)
  totalDonatedCents := p.totalDonatedCents + cents

def LedgerPlayer.minus (p : LedgerPlayer) (cents : ℤ) : LedgerPlayer where
  supporter         := 0 < max 0 (p.totalDonatedCents - cents)
  supporterSince    := if 0 < max 0 (p.totalDonatedCents - cents) then p.supporterSince else none
  totalDonatedCents := max 0 (p.totalDonatedCents - cents)

-- The refund of a donation stays within the donation and settles its status.
structure LedgerDonation.Sound (d : LedgerDonation) : Prop where
  nonneg : 0 ≤ d.refundedCents
  le     : d.refundedCents ≤ d.amountCents
  status : d.status = .refunded ↔ d.refundedCents = d.amountCents

-- The player's record agrees with the sum of what is left of the donations.
structure LedgerPlayer.Agrees (p : LedgerPlayer) (sum : ℤ) : Prop where
  total     : p.totalDonatedCents = sum
  supporter : p.supporter = true ↔ 0 < sum
  since     : p.supporterSince.isSome = true ↔ 0 < sum

structure Ledger.Exact (l : Ledger) : Prop where
  donations : ∀ d ∈ l.donations, d.Sound
  player    : l.player.Agrees (l.donations.map LedgerDonation.kept).sum

variable {l : Ledger} {d : LedgerDonation} {p : LedgerPlayer} {input : CreditInput} {op : LedgerOp}
  {cents sum at' n : ℤ} {i : Nat}

-- A credit does nothing, or it adds a positive amount.
theorem creditCompletedSession_cases {existing : Option LedgerDonation} :
    ((creditCompletedSession .exact existing input p at').applied = false) ∨
    ∃ cents, (0 < cents) ∧ (existing = none) ∧ (input.amountCents.integer? = some cents) ∧
      creditCompletedSession .exact existing input p at' =
        { donation := input.donation cents, player := p.plus cents at', applied := true } := by
  unfold creditCompletedSession
  split
  case h_1 => exact .inl rfl
  case h_2 => exact .inl rfl
  case h_3 cents hc =>
    split
    case isTrue    => exact .inl rfl
    case isFalse h => exact .inr ⟨cents, Int.not_le.mp h, rfl, hc, rfl⟩

-- A refund does nothing, or it raises the refunded amount of the donation.
theorem applyChargeRefund_some :
    applyChargeRefund .exact (some d) cents p =
      if d.refunded cents ≤ d.refundedCents then
        { donation := some d, player := p, applied := false, delta := 0 }
      else {
        donation := some (d.refundTo (d.refunded cents))
        player   := p.minus (d.refunded cents - d.refundedCents)
        applied  := true
        delta    := d.refunded cents - d.refundedCents } := by
  simp only [applyChargeRefund, Arithmetic.exact, sub_nonpos]
  rfl

namespace Ledger

theorem next_credit : (l.next .exact (.credit input at') = l) ∨ ∃ cents, (0 < cents) ∧
    (l.existing? input.stripeCheckoutSessionId = none) ∧ (input.amountCents.integer? = some cents) ∧
    l.next .exact (.credit input at') =
      { player := l.player.plus cents at', donations := l.donations ++ [input.donation cents] } := by
  have hc :
      (creditCompletedSession .exact (l.existing? input.stripeCheckoutSessionId) input l.player at').applied =
        false ∨ _ := creditCompletedSession_cases
  cases hc
  case inl h => exact .inl (by simp [next, h])
  case inr h =>
    have ⟨cents, hc, he, hi, h⟩ := h
    exact .inr ⟨cents, hc, he, hi, by simp [next, h]⟩

theorem next_refund_of_none (h : l.donations[i]? = none) : l.next .exact (.refund i cents) = l := by
  simp [next, h, applyChargeRefund]

theorem next_refund_of_some (h : l.donations[i]? = some d) :
    l.next .exact (.refund i cents) =
      if d.refunded cents ≤ d.refundedCents then l
      else {
        player    := l.player.minus (d.refunded cents - d.refundedCents)
        donations := l.donations.set i (d.refundTo (d.refunded cents)) } := by
  rw [next, h, applyChargeRefund_some]
  by_cases hc : d.refunded cents ≤ d.refundedCents
  case pos => simp [hc]
  case neg => simp [hc]

end Ledger

theorem CreditInput.donation_sound (h : 0 < cents) : (input.donation cents).Sound where
  nonneg := le_rfl
  le     := h.le
  status := by simp [CreditInput.donation, h.ne]

theorem LedgerDonation.Sound.refundTo (h : d.Sound) (hl : d.refundedCents ≤ cents)
    (hu : cents ≤ d.amountCents) : (d.refundTo cents).Sound where
  nonneg := h.nonneg.trans hl
  le     := hu
  status := by
    have he : d.amountCents ≤ cents ↔ cents = d.amountCents := ⟨fun hl => le_antisymm hu hl, Eq.ge⟩
    simp [LedgerDonation.refundTo, he]

theorem LedgerPlayer.Agrees.plus (h : p.Agrees sum) (hs : 0 ≤ sum) (hc : 0 < cents) :
    (p.plus cents at').Agrees (sum + cents) where
  total     := congrArg (· + cents) h.total
  supporter := by simp [LedgerPlayer.plus, h.total]
  since     := by simp [LedgerPlayer.plus, h.total, Int.add_pos_of_nonneg_of_pos hs hc]

theorem LedgerPlayer.Agrees.minus (h : p.Agrees sum) (hc : 0 ≤ cents) (hs : cents ≤ sum) :
    (p.minus cents).Agrees (sum - cents) := by
  have ht : max 0 (p.totalDonatedCents - cents) = sum - cents := by rw [h.total]; omega
  constructor
  case total     => exact ht
  case supporter => simp [LedgerPlayer.minus, ht]
  case since     =>
    simp only [LedgerPlayer.minus, ht]
    split
    case isTrue hp  => simpa [h.since] using ⟨fun _ => by omega, fun _ => by omega⟩
    case isFalse hp => simpa using hp

theorem sum_kept_nonneg {ds : List LedgerDonation} (h : ∀ d ∈ ds, d.Sound) :
    0 ≤ (ds.map LedgerDonation.kept).sum := by
  refine List.sum_nonneg fun x hx => ?_
  have ⟨d, hd, he⟩ := List.mem_map.mp hx
  exact he ▸ Int.sub_nonneg.mpr (h d hd).le

-- What is left of one donation is at most what is left of all of them.
theorem kept_le_sum {ds : List LedgerDonation} (h : ∀ d ∈ ds, d.Sound) (hd : d ∈ ds) :
    d.kept ≤ (ds.map LedgerDonation.kept).sum := by
  refine List.single_le_sum (fun x hx => ?_) _ (List.mem_map_of_mem hd)
  have ⟨d, hd, he⟩ := List.mem_map.mp hx
  exact he ▸ Int.sub_nonneg.mpr (h d hd).le

theorem sum_kept_refundTo {ds : List LedgerDonation} (h : ds[i]? = some d) :
    ((ds.set i (d.refundTo cents)).map LedgerDonation.kept).sum =
      (ds.map LedgerDonation.kept).sum - (cents - d.refundedCents) := by
  have ⟨hi, hd⟩ := List.getElem?_eq_some_iff.mp h
  rw [List.map_set, List.sum_set']
  simp [hi, hd, LedgerDonation.kept, LedgerDonation.refundTo]
  omega

theorem Ledger.Exact.credit (h : l.Exact) (hc : 0 < cents) :
    Ledger.Exact {
      player    := l.player.plus cents at'
      donations := l.donations ++ [input.donation cents] } where
  donations d hd := by
    cases List.mem_append.mp hd
    case inl hd => exact h.donations d hd
    case inr hd => exact List.mem_singleton.mp hd ▸ CreditInput.donation_sound hc
  player := by
    rw [List.map_append, List.sum_append]
    simpa [LedgerDonation.kept, CreditInput.donation] using
      h.player.plus (sum_kept_nonneg h.donations) hc

theorem Ledger.Exact.refund (h : l.Exact) (hd : l.donations[i]? = some d)
    (hl : d.refundedCents ≤ cents) (hu : cents ≤ d.amountCents) :
    Ledger.Exact {
      player    := l.player.minus (cents - d.refundedCents)
      donations := l.donations.set i (d.refundTo cents) } where
  donations d' hd' := by
    cases List.mem_or_eq_of_mem_set hd'
    case inl hd' => exact h.donations d' hd'
    case inr hd' => exact hd' ▸ (h.donations d (List.mem_of_getElem? hd)).refundTo hl hu
  player := by
    rw [sum_kept_refundTo hd]
    have hk : d.kept ≤ _ := kept_le_sum h.donations (List.mem_of_getElem? hd)
    exact h.player.minus (Int.sub_nonneg.mpr hl) ((Int.sub_le_sub_right hu _).trans hk)

theorem Ledger.Exact.next (h : l.Exact) : (l.next .exact op).Exact := by
  cases op
  case credit input at' =>
    have hc : l.next .exact (.credit input at') = l ∨ _ := Ledger.next_credit
    cases hc
    case inl he => rwa [he]
    case inr he =>
      have ⟨cents, hc, _, _, he⟩ := he
      exact he ▸ h.credit hc
  case refund i cents =>
    cases hd : l.donations[i]?
    case none   => rwa [Ledger.next_refund_of_none hd]
    case some d =>
      rw [Ledger.next_refund_of_some hd]
      split
      case isTrue     => exact h
      case isFalse hn => exact h.refund hd (by omega) (min_le_left _ _)

-- `Number.isSafeInteger(n)`
def IsSafeInteger (n : ℤ) : Prop :=
  n.natAbs < 2 ^ 53

instance : DecidablePred IsSafeInteger :=
  fun n => n.natAbs.decLt (2 ^ 53)

-- The total and what is left of each donation are safe integers.
structure Ledger.Safe (l : Ledger) : Prop where
  total : IsSafeInteger l.player.totalDonatedCents
  kept  : ∀ d ∈ l.donations, IsSafeInteger d.kept

-- A new session does not take the total to 2^53.
def Ledger.Fits (l : Ledger) : LedgerOp → Prop
  | .credit input _ => l.existing? input.stripeCheckoutSessionId = none →
    ∀ cents ∈ input.amountCents.integer?, l.player.totalDonatedCents + cents < 2 ^ 53
  | .refund _ _     => True

instance : Decidable (l.Fits op) := by
  unfold Ledger.Fits
  split <;> infer_instance

namespace Arithmetic

theorem toNumber_neg (n : Nat) : toNumber (-n) = -toNumber n := by
  by_cases hn : n = 0
  case pos => subst hn; rfl
  case neg =>
    have hp : (0 : ℚ) < n := by exact_mod_cast Nat.pos_of_ne_zero hn
    simp only [toNumber, Int.cast_neg, Int.cast_natCast, Number.round_neg hp]
    cases Number.round n <;> simp [Number.neg]

theorem toNumber_nonneg (n : Nat) : 0 ≤ toNumber n := by
  rw [toNumber, Int.cast_natCast, Number.round_eq]
  split
  case h_1 q h =>
    split at h
    case isTrue  =>
      have hq : (Number.roundInt n : ℚ) = q := Number.fin.inj h
      simp [← hq]
    case isFalse => cases h
  case h_2 => exact Int.natCast_nonneg n

theorem toNumber_nonpos (h : n ≤ 0) : toNumber n ≤ 0 := by
  have ⟨k, hk⟩ := Int.exists_eq_neg_ofNat h
  rw [hk, toNumber_neg]
  exact Int.neg_nonpos_of_nonneg (toNumber_nonneg k)

theorem toNumber_of_lt {n : Nat} (h : n < 2 ^ 53) : toNumber n = n := by
  simp [toNumber, Number.round_natCast h]

-- Safe integers are numbers.
theorem toNumber_of_safe (h : IsSafeInteger n) : toNumber n = n := by
  cases n.natAbs_eq
  case inl hn => rw [hn, toNumber_of_lt h]
  case inr hn => rw [hn, toNumber_neg, toNumber_of_lt h]

theorem max_toNumber (h : n < 2 ^ 53) : max 0 (toNumber n) = max 0 n := by
  by_cases hn : n ≤ 0
  case pos => rw [max_eq_left hn, max_eq_left (toNumber_nonpos hn)]
  case neg =>
    have hs : IsSafeInteger n := by
      rw [IsSafeInteger]
      omega
    rw [toNumber_of_safe hs]

end Arithmetic

-- On safe integers numbers are exact.
theorem creditCompletedSession_numbers {existing : Option LedgerDonation}
    (hp : 0 ≤ p.totalDonatedCents)
    (h : existing = none → ∀ cents ∈ input.amountCents.integer?, p.totalDonatedCents + cents < 2 ^ 53) :
    creditCompletedSession .numbers existing input p at' =
      creditCompletedSession .exact existing input p at' := by
  unfold creditCompletedSession
  split
  case h_1 => rfl
  case h_2 => rfl
  case h_3 cents hc =>
    split
    case isTrue    => rfl
    case isFalse _ =>
      have hs : IsSafeInteger (p.totalDonatedCents + cents) := by
        have hb := h rfl cents hc
        rw [IsSafeInteger]
        omega
      have ha : Arithmetic.numbers.add p.totalDonatedCents cents =
          Arithmetic.exact.add p.totalDonatedCents cents := Arithmetic.toNumber_of_safe hs
      rw [ha]

theorem applyChargeRefund_numbers (hp : IsSafeInteger p.totalDonatedCents) (hd : IsSafeInteger d.kept) :
    applyChargeRefund .numbers (some d) cents p = applyChargeRefund .exact (some d) cents p := by
  rw [LedgerDonation.kept, IsSafeInteger] at hd
  have hr : d.refunded cents = min d.amountCents (max d.refundedCents cents) := rfl
  have hs : IsSafeInteger (d.refunded cents - d.refundedCents) := by
    rw [IsSafeInteger, hr]
    omega
  simp only [applyChargeRefund, Arithmetic.numbers, Arithmetic.exact, ← hr,
    Arithmetic.toNumber_of_safe hs]
  by_cases hl : d.refunded cents - d.refundedCents ≤ 0
  case pos => rw [if_pos hl, if_pos hl]
  case neg =>
    have hm : p.totalDonatedCents - (d.refunded cents - d.refundedCents) < 2 ^ 53 := by
      rw [IsSafeInteger] at hp
      omega
    rw [if_neg hl, if_neg hl, Arithmetic.max_toNumber hm]

theorem Ledger.Safe.next_refund (h : l.Safe) :
    l.next .numbers (.refund i cents) = l.next .exact (.refund i cents) := by
  cases hd : l.donations[i]?
  case none   => simp only [Ledger.next, hd, applyChargeRefund]
  case some d =>
    simp only [Ledger.next, hd, applyChargeRefund_numbers h.total (h.kept d (List.mem_of_getElem? hd))]

theorem Ledger.Exact.total_nonneg (h : l.Exact) : 0 ≤ l.player.totalDonatedCents :=
  h.player.total ▸ sum_kept_nonneg h.donations

-- What is left of a donation is at most the total.
theorem Ledger.Exact.safe (h : l.Exact) (ht : l.player.totalDonatedCents < 2 ^ 53) : l.Safe where
  total := by
    have hn := h.total_nonneg
    rw [IsSafeInteger]
    omega
  kept d hd := by
    have hk := kept_le_sum h.donations hd
    have hl : 0 ≤ d.kept := Int.sub_nonneg.mpr (h.donations d hd).le
    rw [← h.player.total] at hk
    rw [IsSafeInteger]
    omega

theorem Ledger.Exact.next_numbers (h : l.Exact) (ht : l.player.totalDonatedCents < 2 ^ 53)
    (hf : l.Fits op) : l.next .numbers op = l.next .exact op := by
  cases op
  case credit input at' =>
    rw [Ledger.next, creditCompletedSession_numbers h.total_nonneg hf]
    rfl
  case refund => exact (h.safe ht).next_refund

theorem Ledger.next_lt (ht : l.player.totalDonatedCents < 2 ^ 53)
    (hf : l.Fits op) : (l.next .exact op).player.totalDonatedCents < 2 ^ 53 := by
  cases op
  case credit input at' =>
    have hc : l.next .exact (.credit input at') = l ∨ _ := Ledger.next_credit
    cases hc
    case inl he => rwa [he]
    case inr he =>
      have ⟨cents, _, hx, hi, he⟩ := he
      exact he ▸ hf hx cents hi
  case refund i cents =>
    cases hd : l.donations[i]?
    case none   => rwa [Ledger.next_refund_of_none hd]
    case some d =>
      rw [Ledger.next_refund_of_some hd]
      split
      case isTrue    => exact ht
      case isFalse _ => exact max_lt (by decide) (by omega)

-- In every reachable state of the ledger the player's record is exact.
theorem ledger_exact {ops : List LedgerOp} (h : (ledger .numbers).Meets Ledger.Fits .new ops) :
    ((ledger .numbers).run .new ops).Exact := by
  have hn : ∀ (l : Ledger) op, l.Exact ∧ l.player.totalDonatedCents < 2 ^ 53 → l.Fits op →
      (l.next .numbers op).Exact ∧ (l.next .numbers op).player.totalDonatedCents < 2 ^ 53 :=
    fun l op ⟨he, ht⟩ hf => he.next_numbers ht hf ▸ ⟨he.next, Ledger.next_lt ht hf⟩
  refine (System.invariant (S := ledger .numbers) hn ⟨?_, by decide⟩ h).left
  constructor
  case donations => exact fun _ hd => nomatch hd
  case player    => constructor <;> simp [Ledger.new]

-- Two donations, one of them delivered twice, then a partial refund and a full one.
def Ledger.sampleOps : List LedgerOp := [
  .credit ⟨"cs_1", some "pi_1", .fin 1000⟩ 5,
  .credit ⟨"cs_2", some "pi_2", .fin 2500⟩ 6,
  .credit ⟨"cs_1", some "pi_1", .fin 1000⟩ 7,
  .refund 0 400,
  .refund 1 2500]

theorem ledger_exact_refunded :
    ((ledger .numbers).run .new Ledger.sampleOps).Exact ∧
    ((ledger .numbers).run .new Ledger.sampleOps).player =
      { supporter := true, supporterSince := some 5, totalDonatedCents := 600 } :=
  ⟨ledger_exact (by decide +kernel), by decide +kernel⟩

end Payments
