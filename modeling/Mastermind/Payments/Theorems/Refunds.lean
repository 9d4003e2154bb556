import Mastermind.Payments.Theorems.Ledger

open Effects

namespace Payments

-- The refund events of a ledger: the donation and the cumulative amount that has been refunded.
@[reducible]
def refunds (m : Arithmetic) : System where
  State := Ledger
  Event := Nat × ℤ
  next l := fun (i, cents) => l.next m (.refund i cents)

variable {l : Ledger} {d : LedgerDonation} {p : LedgerPlayer} {cents cents' sum a b : ℤ} {i j : Nat}
  {es es' : List (Nat × ℤ)}

theorem LedgerPlayer.minus_minus (ha : 0 ≤ b) : (p.minus a).minus b = p.minus (a + b) := by
  have ht : max 0 (max 0 (p.totalDonatedCents - a) - b) = max 0 (p.totalDonatedCents - (a + b)) := by
    omega
  simp only [minus, ht, mk.injEq, true_and, and_true]
  split
  case isFalse    => rfl
  case isTrue hp  => rw [if_pos (by omega)]

theorem LedgerDonation.refunded_refundTo :
    (d.refundTo (d.refunded cents)).refunded cents' = d.refunded (max cents cents') := by
  simp only [refunded, refundTo]
  omega

-- The larger amount decides.
theorem LedgerDonation.refunded_max :
    d.refunded (max cents cents') = max (d.refunded cents) (d.refunded cents') := by
  simp only [refunded]
  omega

namespace Ledger

-- Raises the refunded amount of a donation that has been refunded less so far.
def raise (l : Ledger) (i : Nat) (d : LedgerDonation) (cents : ℤ) : Ledger where
  player    := l.player.minus (cents - d.refundedCents)
  donations := l.donations.set i (d.refundTo cents)

theorem next_refund (h : l.donations[i]? = some d) :
    l.next .exact (.refund i cents) =
      if d.refunded cents ≤ d.refundedCents then l else l.raise i d (d.refunded cents) :=
  next_refund_of_some h

theorem raise_getElem? (h : l.donations[i]? = some d) :
    (l.raise i d cents).donations[i]? = some (d.refundTo cents) := by
  have ⟨hi, _⟩ := List.getElem?_eq_some_iff.mp h
  simp [raise, hi]

theorem raise_getElem?_ne (h : i ≠ j) :
    (l.raise i d cents).donations[j]? = l.donations[j]? :=
  List.getElem?_set_ne h

theorem raise_raise (h : cents ≤ cents') :
    (l.raise i d cents).raise i (d.refundTo cents) cents' = l.raise i d cents' := by
  have hs : cents - d.refundedCents + (cents' - cents) = cents' - d.refundedCents := by omega
  have hc : (d.refundTo cents).refundedCents = cents := rfl
  rw [raise, raise, raise, List.set_set, hc, LedgerPlayer.minus_minus (Int.sub_nonneg.mpr h), hs]
  rfl

theorem raise_comm {d' : LedgerDonation} (h : i ≠ j) (hd : d.refundedCents ≤ cents)
    (hd' : d'.refundedCents ≤ cents') :
    (l.raise i d cents).raise j d' cents' = (l.raise j d' cents').raise i d cents := by
  simp only [raise, LedgerPlayer.minus_minus (Int.sub_nonneg.mpr hd),
    LedgerPlayer.minus_minus (Int.sub_nonneg.mpr hd'), List.set_comm _ _ h, add_comm]

-- Two refunds of one donation amount to the refund of the larger amount.
theorem next_refund_refund :
    (l.next .exact (.refund i cents)).next .exact (.refund i cents') =
      l.next .exact (.refund i (max cents cents')) := by
  cases hd : l.donations[i]?
  case none => rw [next_refund_of_none hd, next_refund_of_none hd, next_refund_of_none hd]
  case some d =>
    rw [next_refund hd, next_refund hd, LedgerDonation.refunded_max]
    split
    case isTrue hle =>
      rw [next_refund hd]
      by_cases hle' : d.refunded cents' ≤ d.refundedCents
      case pos => rw [if_pos hle', if_pos (max_le hle hle')]
      case neg => rw [if_neg hle', if_neg (by omega), max_eq_right (by omega)]
    case isFalse hlt =>
      rw [if_neg (by omega), next_refund (raise_getElem? hd), LedgerDonation.refunded_refundTo,
        LedgerDonation.refunded_max]
      split
      case isTrue hle' =>
        have hle' : d.refunded cents' ≤ d.refunded cents := le_of_max_le_right hle'
        rw [max_eq_left hle']
      case isFalse     => exact raise_raise (le_max_left _ _)

theorem next_refund_comm :
    (l.next .exact (.refund i cents)).next .exact (.refund j cents') =
      (l.next .exact (.refund j cents')).next .exact (.refund i cents) := by
  by_cases hij : i = j
  case pos => rw [hij, next_refund_refund, next_refund_refund, max_comm]
  case neg =>
    have hr : ∀ {d cents}, (l.raise i d cents).donations[j]? = l.donations[j]? :=
      raise_getElem?_ne hij
    have hr' : ∀ {d cents}, (l.raise j d cents).donations[i]? = l.donations[i]? :=
      raise_getElem?_ne (Ne.symm hij)
    cases hi : l.donations[i]? <;> cases hj : l.donations[j]?
    case none.none => rw [next_refund_of_none hi, next_refund_of_none hj, next_refund_of_none hi]
    case none.some d' =>
      rw [next_refund_of_none hi, next_refund hj]
      split
      case isTrue  => rw [next_refund_of_none hi]
      case isFalse => rw [next_refund_of_none (hr'.trans hi)]
    case some.none d =>
      rw [next_refund_of_none hj, next_refund hi]
      split
      case isTrue  => rw [next_refund_of_none hj]
      case isFalse => rw [next_refund_of_none (hr.trans hj)]
    case some.some d d' =>
      rw [next_refund hi, next_refund hj]
      split <;> split
      case isTrue.isTrue hd hd'   => rw [next_refund hi, next_refund hj, if_pos hd, if_pos hd']
      case isTrue.isFalse hd hd'  =>
        rw [next_refund hj, next_refund (hr'.trans hi), if_pos hd, if_neg hd']
      case isFalse.isTrue hd hd'  =>
        rw [next_refund hi, next_refund (hr.trans hj), if_neg hd, if_pos hd']
      case isFalse.isFalse hd hd' =>
        rw [next_refund (hr.trans hj), next_refund (hr'.trans hi), if_neg hd, if_neg hd']
        exact raise_comm hij (by omega) (by omega)

end Ledger

theorem LedgerDonation.kept_refundTo (h : ¬d.refunded cents ≤ d.refundedCents) :
    0 ≤ (d.refundTo (d.refunded cents)).kept ∧ (d.refundTo (d.refunded cents)).kept ≤ d.kept := by
  simp only [refunded, kept, refundTo] at h ⊢
  omega

-- A refund lowers the total and what is left of the donation, but not below zero.
theorem Ledger.Safe.next (h : l.Safe) : (l.next .exact (.refund i cents)).Safe := by
  cases hd : l.donations[i]?
  case none   => rwa [Ledger.next_refund_of_none hd]
  case some d =>
    rw [Ledger.next_refund_of_some hd]
    split
    case isTrue     => exact h
    case isFalse hn =>
      constructor
      case total =>
        have ht := h.total
        simp only [IsSafeInteger, LedgerPlayer.minus] at ht ⊢
        omega
      case kept =>
        intro d' hd'
        cases List.mem_or_eq_of_mem_set hd'
        case inl hd' => exact h.kept d' hd'
        case inr hd' =>
          have hk := h.kept d (List.mem_of_getElem? hd)
          have hr := LedgerDonation.kept_refundTo hn
          rw [IsSafeInteger] at hk
          rw [hd', IsSafeInteger]
          omega

-- As long as the integers are safe, numbers are exact.
theorem refunds_run_numbers (h : l.Safe) : (refunds .numbers).run l es = (refunds .exact).run l es := by
  induction es generalizing l
  case nil          => rfl
  case cons e es hi =>
    have hn : (refunds .numbers).next l e = (refunds .exact).next l e := h.next_refund
    rw [System.run_cons, System.run_cons, hn]
    exact hi h.next

theorem refunds_commutes : (refunds .exact).Commutes :=
  fun _ _ _ => Ledger.next_refund_comm

theorem refunds_idempotent : (refunds .exact).Idempotent := by
  intro l e
  exact Ledger.next_refund_refund.trans (by rw [max_self])

-- The order of the refund events and their repetitions do not matter.
theorem refunds_congr (hl : l.Safe) (h : ∀ e, e ∈ es ↔ e ∈ es') :
    (refunds .numbers).run l es = (refunds .numbers).run l es' := by
  rw [refunds_run_numbers hl, refunds_run_numbers hl]
  exact refunds_commutes.run_congr refunds_idempotent h

-- A player with two donations.
def Ledger.sample : Ledger :=
  (ledger .exact).run .new [
    .credit ⟨"cs_1", some "pi_1", .fin 1000⟩ 5,
    .credit ⟨"cs_2", some "pi_2", .fin 2500⟩ 6]

theorem refunds_congr_reversed :
    (refunds .numbers).run .sample [(0, 400), (1, 2500), (0, 1000)] =
      (refunds .numbers).run .sample [(0, 1000), (0, 400), (1, 2500), (0, 400)] :=
  refunds_congr ⟨by decide +kernel, by decide +kernel⟩ (by simp; omega)

end Payments
