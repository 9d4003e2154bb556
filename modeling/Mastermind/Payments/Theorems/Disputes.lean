import Mastermind.Payments.Theorems.Order

open Effects Prog Js

namespace Payments

-- The events that take money of a payment back. The amount of a refund is cumulative, the amount of a
-- lost dispute is not.
inductive Reversal (pi : String)
  | refund  (object : Json) (cents : ℤ) (parsed : parseChargeRefund object = some ⟨pi, cents⟩)
  | dispute (object : Json) (cents : ℤ) (parsed : parseLostDispute object = some ⟨pi, cents⟩)

namespace Reversal

variable {pi : String}

def cents : Reversal pi → ℤ
  | refund _ cents _ | dispute _ cents _ => cents

def webhook : Reversal pi → WebhookEvent
  | refund object _ _  => ⟨"charge.refunded", object⟩
  | dispute object _ _ => ⟨"charge.dispute.closed", object⟩

-- Handles events of a payment, each with the time since the event before.
def handle (s : Store) (es : List (Reversal pi × Nat)) : Store :=
  webhooks.run s (es.map fun (e, ms) => (e.webhook, ms))

-- The amount that has been refunded last: refunds are cumulative, so this is the largest amount.
def lastRefund : List (Reversal pi) → ℤ
  | []                     => 0
  | refund _ cents _ :: es => max cents (lastRefund es)
  | dispute .. :: es       => lastRefund es

-- The amounts of the lost disputes.
def disputed : List (Reversal pi) → List ℤ
  | []                      => []
  | refund .. :: es         => disputed es
  | dispute _ cents _ :: es => cents :: disputed es

-- What the events take back of a donation.
def taken (amount : ℤ) (es : List (Reversal pi)) : ℤ :=
  min amount (lastRefund es + (disputed es).sum)

-- One event takes the whole donation, or at most one of the refunds and disputes takes anything.
def Alone (amount : ℤ) (es : List (Reversal pi)) : Prop :=
  (∃ e ∈ es, amount ≤ e.cents) ∨ disputed es = [] ∨ (lastRefund es = 0 ∧ (disputed es).length = 1)

-- The largest amount of the events.
def largest : List (Reversal pi) → ℤ
  | []      => 0
  | e :: es => max e.cents (largest es)

variable {es : List (Reversal pi)} {amount : ℤ} {e : Reversal pi}

theorem disputed_pos {cents : ℤ} (h : cents ∈ disputed es) : 0 < cents := by
  induction es
  case nil => nomatch h
  case cons e es hi =>
    cases e
    case refund  => exact hi h
    case dispute object cents' hp =>
      cases List.mem_cons.mp h
      case inr h => exact hi h
      case inl h =>
        unfold parseLostDispute at hp
        grind

theorem lastRefund_nonneg : 0 ≤ lastRefund es := by
  induction es
  case nil => exact le_rfl
  case cons e es hi =>
    cases e
    case refund  => exact hi.trans (le_max_right _ _)
    case dispute => exact hi

theorem lastRefund_le_largest : lastRefund es ≤ largest es := by
  induction es
  case nil => exact le_rfl
  case cons e es hi =>
    cases e
    case refund  => exact max_le_max le_rfl hi
    case dispute => exact hi.trans (le_max_right _ _)

theorem disputed_le_largest {cents : ℤ} (h : cents ∈ disputed es) : cents ≤ largest es := by
  induction es
  case nil => nomatch h
  case cons e es hi =>
    cases e
    case refund => exact (hi h).trans (le_max_right _ _)
    case dispute =>
      cases List.mem_cons.mp h
      case inl h => exact h ▸ le_max_left _ _
      case inr h => exact (hi h).trans (le_max_right _ _)

-- The largest amount is the one of the refunds or that of one of the disputes.
theorem largest_cases : largest es = lastRefund es ∨ largest es ∈ disputed es := by
  induction es
  case nil => exact .inl rfl
  case cons e es hi =>
    have hl : lastRefund es ≤ largest es := lastRefund_le_largest
    cases e <;> simp only [largest, lastRefund, disputed, Reversal.cents, List.mem_cons] <;> grind

-- The largest amount reaches a positive amount if and only if one of the events does.
theorem le_largest_iff (ha : 0 < amount) : amount ≤ largest es ↔ ∃ e ∈ es, amount ≤ e.cents := by
  induction es
  case nil          => simpa [largest] using ha
  case cons e es hi => simp [largest, hi]

theorem sum_disputed_nonneg : 0 ≤ (disputed es).sum :=
  List.sum_nonneg fun _ h => (disputed_pos h).le

-- The largest amount is the total if and only if nothing else is taken.
theorem largest_eq_total_iff : largest es = lastRefund es + (disputed es).sum ↔
    disputed es = [] ∨ (lastRefund es = 0 ∧ (disputed es).length = 1) := by
  have hr : 0 ≤ lastRefund es := lastRefund_nonneg
  constructor
  case mp =>
    intro h
    cases @largest_cases _ es
    case inl hl =>
      have hs : (disputed es).sum = 0 := by omega
      refine .inl (List.eq_nil_iff_forall_not_mem.mpr fun cents hm => ?_)
      have hp := disputed_pos hm
      have := List.single_le_sum (fun _ h => (disputed_pos h).le) cents hm
      omega
    case inr hl =>
      have hs := List.sum_erase hl
      have hp : ∀ cents ∈ (disputed es).erase (largest es), 0 < cents :=
        fun _ h => disputed_pos (List.mem_of_mem_erase h)
      have hn : 0 ≤ ((disputed es).erase (largest es)).sum := List.sum_nonneg fun _ h => (hp _ h).le
      have he : (disputed es).erase (largest es) = [] := by
        refine List.eq_nil_iff_forall_not_mem.mpr fun cents hm => ?_
        have := List.single_le_sum (fun _ h => (hp _ h).le) cents hm
        have := hp cents hm
        omega
      have hc := List.length_erase_of_mem hl
      have hz := List.length_pos_of_mem hl
      rw [he, List.length_nil] at hc
      exact .inr ⟨by omega, by omega⟩
  case mpr =>
    intro h
    cases h
    case inl h =>
      have hl : largest es = lastRefund es ∨ largest es ∈ disputed es := largest_cases
      simpa [h] using hl
    case inr h =>
      have ⟨hz, cents, hd⟩ : lastRefund es = 0 ∧ ∃ cents, disputed es = [cents] :=
        ⟨h.left, List.length_eq_one_iff.mp h.right⟩
      have hp : 0 < cents := @disputed_pos _ es _ (by simp [hd])
      have hc : cents ≤ largest es := disputed_le_largest (by simp [hd])
      have hl : largest es = lastRefund es ∨ largest es ∈ disputed es := largest_cases
      simp only [hd, hz, List.mem_singleton, List.sum_singleton] at hl ⊢
      omega

theorem largest_le_total : largest es ≤ lastRefund es + (disputed es).sum := by
  have hs : 0 ≤ (disputed es).sum := sum_disputed_nonneg
  have hr : 0 ≤ lastRefund es := lastRefund_nonneg
  cases @largest_cases _ es
  case inl h => omega
  case inr h =>
    have := List.single_le_sum (fun _ h => (disputed_pos h).le) _ h
    omega

theorem taken_eq_iff (ha : 0 < amount) : min amount (largest es) = taken amount es ↔
    Alone amount es := by
  have hl : largest es ≤ lastRefund es + (disputed es).sum := largest_le_total
  rw [Alone, ← le_largest_iff ha, ← largest_eq_total_iff, taken]
  omega

end Reversal

variable {s : Store} {pi : String} {d : Donation} {row : Player} {i : DonationId} {cents : ℤ}
  {e : Reversal pi} {es : List (Reversal pi × Nat)}

-- A charge stays the charge of its donation, which is refunded up to the amount.
theorem Store.charge?_refundCharge (hc : s.charge? pi = some (i, d, row))
    (hr : d.refundedCents ≤ d.amountCents) : ∃ d' row',
      ((s.refundCharge pi cents).charge? pi = some (i, d', row')) ∧
      (d'.amountCents = d.amountCents) ∧ d'.refundedCents = d.refunded cents := by
  simp only [Store.refundCharge, hc]
  split
  case isTrue h =>
    have he : d.refundedCents = d.refunded cents := by
      simp only [LedgerDonation.refunded] at h ⊢
      omega
    exact ⟨d, row, hc, rfl, he⟩
  case isFalse h =>
    obtain ⟨⟨_, _⟩, he, hc⟩ := Option.bind_eq_some_iff.mp hc
    obtain ⟨_, hr, hc⟩ := Option.bind_eq_some_iff.mp hc
    cases hc
    have hf : (s.refund i d row cents).charge? pi = some (i, (d.refundData cents s.clock).apply d,
        { row with toLedgerPlayer := row.minus (d.refunded cents - d.refundedCents) }) := by
      simp only [Store.charge?, Store.refund]
      rw [Table.find?_entries_modify (f := (d.refundData cents s.clock).apply) fun _ _ => rfl, he]
      simp [players_setPlayer, DonationData.apply]
    exact ⟨_, _, hf, rfl, rfl⟩

theorem handle_cons_reversal {ms : Nat} :
    Reversal.handle s ((e, ms) :: es) =
      Reversal.handle (((handleWebhook e.webhook).run [] (s.elapse ms)).state) es :=
  rfl

-- Both kinds of events are handled as refunds.
theorem state_reversal :
    ((handleWebhook e.webhook).run [] s).state = s.refundCharge pi e.cents := by
  have hs : handleWebhook e.webhook = refundPaymentIntent pi e.cents := by
    cases e
    case refund object cents hp =>
      change Payments.refundCharge (parseChargeRefund object) = _
      rw [hp]
      rfl
    case dispute object cents hp =>
      change Payments.refundCharge (parseLostDispute object) = _
      rw [hp]
      rfl
  rw [hs]
  exact wp_run_nil wp_refundPaymentIntent

-- The donation is refunded up to the largest amount of the events.
theorem Reversal.handle_charge? (hc : s.charge? pi = some (i, d, row)) (hn : 0 ≤ d.refundedCents)
    (hr : d.refundedCents ≤ d.amountCents) : ∃ d' row',
      ((Reversal.handle s es).charge? pi = some (i, d', row')) ∧
      d'.refundedCents = d.refunded (Reversal.largest (es.map Prod.fst)) := by
  induction es generalizing s d row
  case nil =>
    have he : d.refundedCents = d.refunded 0 := by
      simp only [LedgerDonation.refunded]
      omega
    exact ⟨d, row, hc, he⟩
  case cons e es hi =>
    obtain ⟨e, ms⟩ := e
    have hc : (s.elapse ms).charge? pi = some (i, d, row) := hc
    obtain ⟨d', row', hc', ha, hd⟩ := @Store.charge?_refundCharge _ _ _ _ _ e.cents hc hr
    have hn' : 0 ≤ d'.refundedCents := by
      simp only [hd, LedgerDonation.refunded]
      omega
    have hr' : d'.refundedCents ≤ d'.amountCents := by
      simp only [ha, hd, LedgerDonation.refunded]
      omega
    obtain ⟨d₂, row₂, hc₂, hd₂⟩ := hi hc' hn' hr'
    rw [handle_cons_reversal, state_reversal]
    refine ⟨d₂, row₂, hc₂, ?_⟩
    simp only [hd₂, hd, ha, LedgerDonation.refunded, Reversal.largest, List.map_cons]
    omega

-- The refunds and lost disputes of a donation add up if and only if one of them takes the whole
-- donation, or nothing is taken besides the refunds or besides one dispute.
theorem refundedCents_adds_up_iff (hc : s.charge? pi = some (i, d, row)) (hz : d.refundedCents = 0)
    (ha : 0 < d.amountCents) (es : List (Reversal pi × Nat)) :
    (((Reversal.handle s es).donations[i]?).map (·.refundedCents) =
        some (Reversal.taken d.amountCents (es.map Prod.fst))) ↔
      Reversal.Alone d.amountCents (es.map Prod.fst) := by
  have ⟨d', row', hc', hd⟩ := @Reversal.handle_charge? _ _ _ _ _ es hc hz.ge (hz.le.trans ha.le)
  have ⟨⟨_, _⟩, he, hp⟩ := Option.bind_eq_some_iff.mp hc'
  have ⟨_, _, hp⟩ := Option.bind_eq_some_iff.mp hp
  cases hp
  have hi : (Reversal.handle s es).donations[i]? = some d' :=
    Table.mem_entries.mp (List.mem_of_find?_eq_some he)
  have hm : d'.refundedCents = min d.amountCents (Reversal.largest (es.map Prod.fst)) := by
    have hl : 0 ≤ Reversal.largest (es.map Prod.fst) :=
      Reversal.lastRefund_nonneg.trans Reversal.lastRefund_le_largest
    simp only [hd, LedgerDonation.refunded, hz]
    omega
  simp only [hi, Option.map_some, Option.some.injEq, hm]
  exact Reversal.taken_eq_iff ha

-- The donation of the session `cs_1`.
def Store.donated : Store :=
  Payment.handle .sample [((.completed : Payment.sample.Event), 5)]

def Reversal.sampleRefund : Reversal "cs_1" :=
  .refund (refundEvent "cs_1" 300).object 300 (by decide +kernel)

-- A dispute that is lost.
def disputeEvent (id : String) (cents : Nat) : WebhookEvent where
  type   := "charge.dispute.closed"
  object := .obj [("status", .str "lost"), ("payment_intent", .str id), ("amount", .ofNat cents)]

def Reversal.sampleDispute : Reversal "cs_1" :=
  .dispute (disputeEvent "cs_1" 500).object 500 (by decide +kernel)

def Reversal.wholeDispute : Reversal "cs_1" :=
  .dispute (disputeEvent "cs_1" 1000).object 1000 (by decide +kernel)

theorem refundedCents_adds_up_whole :
    ((Reversal.handle .donated [(.sampleRefund, 5), (.wholeDispute, 9)]).donations[0]?).map
      (·.refundedCents) = some (Reversal.taken 1000 [.sampleRefund, .wholeDispute]) :=
  have hc : Store.donated.charge? "cs_1" = some ((Store.donated.charge? "cs_1").get (by decide +kernel)) :=
    (Option.some_get _).symm
  (refundedCents_adds_up_iff hc (by decide +kernel) (by decide +kernel) _).mpr
    (.inl ⟨.wholeDispute, by simp, by decide +kernel⟩)

-- 300 of 1000 have been refunded, and a dispute about other 500 has been lost.
theorem refundedCents_misses_dispute :
    (Reversal.taken 1000 [.sampleRefund, .sampleDispute] = 800) ∧
    ((Reversal.handle .donated [(.sampleRefund, 5), (.sampleDispute, 9)]).donations[0]?).map
      (·.refundedCents) = some 500 := by
  decide +kernel

end Payments
