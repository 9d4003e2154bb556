import Mastermind.Payments.Theorems.Totals

open Effects Prog Js

namespace Payments

-- The webhook events, each with the time that has passed since the event before. They are handled one
-- after the other.
@[reducible]
def webhooks : System where
  State := Store
  Event := WebhookEvent × Nat
  next s := fun (e, ms) => ((handleWebhook e).run [] (s.elapse ms)).state

-- A payment: the object of its completed event and the id that its refunds refer to.
structure Payment where
  object  : Json
  paid    : PaidCheckout
  intent  : String
  parsed  : parsePaidCheckoutSession object = some paid
  charged : paid.paymentIntentId = some intent

-- The events of a payment. The amounts of refunds are cumulative.
inductive Payment.Event (pay : Payment)
  | completed
  | refunded (object : Json) (cents : ℤ) (parsed : parseChargeRefund object = some ⟨pay.intent, cents⟩)

namespace Payment

variable {pay : Payment}

def Event.webhook : pay.Event → WebhookEvent
  | completed           => ⟨"checkout.session.completed", pay.object⟩
  | refunded object _ _ => ⟨"charge.refunded", object⟩

-- The largest amount that is refunded by some events.
def largest : ℤ → List pay.Event → ℤ
  | m, []                       => m
  | m, .completed :: es         => largest m es
  | m, .refunded _ cents _ :: es => largest (max m cents) es

-- The largest amount that is refunded after the completed event has been delivered.
def lateRefund : List pay.Event → ℤ
  | []                   => 0
  | .completed :: es     => largest 0 es
  | .refunded _ _ _ :: es => lateRefund es

-- Handles events of the payment, each with the time since the event before.
def handle (s : Store) (es : List (pay.Event × Nat)) : Store :=
  webhooks.run s (es.map fun (e, ms) => (e.webhook, ms))

-- The payment is not known to the database.
structure Unknown (pay : Payment) (s : Store) : Prop where
  session : ∀ d ∈ s.donations, d.stripeCheckoutSessionId ≠ pay.paid.sessionId
  charge  : ∀ d ∈ s.donations, d.stripePaymentIntentId ≠ some pay.intent

-- The player that the payment is credited to.
def player? (pay : Payment) (s : Store) : Option Player :=
  s.player? pay.paid.playerId pay.paid.steamId pay.paid.serverInstanceId pay.paid.orgId

-- What the events of a payment are about.
structure Outcome where
  donation : Option (ℤ × ℤ × DonationStatus)
  total    : Option ℤ
  deriving DecidableEq

def outcome (pay : Payment) (s : Store) : Outcome where
  donation := (s.donation? pay.paid.sessionId).map fun d => (d.amountCents, d.refundedCents, d.status)
  total    := (s.players pay.paid.playerId).map (·.totalDonatedCents)

end Payment

variable {s s₀ : Store} {paid : PaidCheckout} {pay : Payment} {object : Json} {ms : Nat} {m : ℤ}
  {d : Donation} {row : Player} {pi : String} {cents : ℤ} {es es₁ es₂ : List (pay.Event × Nat)}

-- The credit of a session that is not stored yet.
def Store.credit (s : Store) (paid : PaidCheckout) (row : Player) (item : Option String) : Store :=
  { s.setPlayer paid.playerId row (row.plus paid.amountCents s.clock) with
    donations := s.donations ++ [paid.donation item s.clock] }

-- The refund of a donation that has been refunded less so far.
def Store.refund (s : Store) (i : DonationId) (d : Donation) (row : Player) (cents : ℤ) : Store :=
  { s.setPlayer d.playerId row (row.minus (d.refunded cents - d.refundedCents)) with
    donations := s.donations.modify i (d.refundData cents s.clock).apply }

theorem wp_readItems {Q : Result Exception Unit → Store → Prop} (h : Q (.ok ()) s) :
    (readItems paid).wp (under stripe .none) Q s := by
  rw [readItems]
  split
  case isTrue  => exact h
  case isFalse => exact wp_step rfl h fun _ _ h => h.elim

theorem wp_primaryItem {Q : Result Exception (Option String) → Store → Prop}
    (h : ∀ item, Q (.ok item) s) : (primaryItem paid).wp (under stripe .none) Q s := by
  unfold primaryItem
  split
  case h_1 => exact h none
  case h_2 => exact wp_step rfl (h _) fun _ _ h => h.elim

theorem wp_storeCredit {item : Option String} (hd : s.donation? paid.sessionId = none)
    (hr : s.players paid.playerId = some row) :
    (storeCredit paid row.toLedgerPlayer item s.clock).wp (under stripe .none)
      (fun _ s' => s' = s.credit paid row item) s := by
  rw [storeCredit, credit_paid]
  apply wp_handle.mpr
  have hx : exec (.creditPlayer (paid.donation item s.clock)
      (row.plus paid.amountCents s.clock) row.toLedgerPlayer) s =
        (.ok (), s.credit paid row item) := by
    have hd : s.donation? (paid.donation item s.clock).stripeCheckoutSessionId = none := hd
    have hr : s.players (paid.donation item s.clock).playerId = some row := hr
    simp only [exec, hd, hr]
    rfl
  exact wp_last hx rfl fun _ _ h => h.elim

theorem player?_eq_some {id steamId serverInstanceId orgId : Id}
    (h : s.player? id steamId serverInstanceId orgId = some row) : s.players id = some row :=
  (Option.filter_eq_some_iff.mp h).left

theorem wp_creditPlayer (hd : s.donation? paid.sessionId = none)
    (hr : s.players paid.playerId = some row) :
    (creditPlayer paid row.toLedgerPlayer).wp (under stripe .none)
      (fun _ s' => ∃ item, s' = s.credit paid row item) s := by
  have hx : exec (.findDonation paid.sessionId) s = (.ok none, s) := by simp [exec, hd]
  refine wp_step hx ?_ fun _ _ h => h.elim
  apply wp_bind.mpr
  apply wp_readItems
  apply wp_bind.mpr
  apply wp_primaryItem
  intro item
  refine wp_step rfl ?_ fun _ _ h => h.elim
  exact wp_mono (wp_storeCredit hd hr) fun _ _ h => ⟨item, h⟩

-- A completed event does nothing if the player is not there or the session is stored already.
theorem wp_creditPaidSession (hp : parsePaidCheckoutSession object = some paid) :
    (creditPaidSession object).wp (under stripe .none)
      (fun _ s' => match s.player? paid.playerId paid.steamId paid.serverInstanceId paid.orgId,
          s.donation? paid.sessionId with
        | some row, none => ∃ item, s' = s.credit paid row item
        | _, _           => s' = s) s := by
  rw [creditPaidSession, hp]
  refine wp_step rfl ?_ fun _ _ h => h.elim
  cases hr : s.player? paid.playerId paid.steamId paid.serverInstanceId paid.orgId
  case none => rfl
  case some row =>
    cases hd : s.donation? paid.sessionId
    case none => exact wp_creditPlayer hd (player?_eq_some hr)
    case some d =>
      have hx : exec (.findDonation paid.sessionId) s = (.ok (some d), s) := by simp [exec, hd]
      exact wp_step hx rfl fun _ _ h => h.elim

-- The refund of a charge, which does nothing if the charge is not known.
def Store.refundCharge (s : Store) (pi : String) (cents : ℤ) : Store :=
  match s.charge? pi with
  | none             => s
  | some (i, d, row) => if d.refunded cents ≤ d.refundedCents then s else s.refund i d row cents

theorem wp_refundPaymentIntent :
    (refundPaymentIntent pi cents).wp (under stripe .none)
      (fun _ s' => s' = s.refundCharge pi cents) s := by
  rw [refundPaymentIntent]
  refine wp_step rfl ?_ fun _ _ h => h.elim
  simp only [Store.refundCharge]
  cases hc : s.charge? pi
  case none => rfl
  case some charge =>
    obtain ⟨i, d, row⟩ := charge
    refine wp_step rfl ?_ fun _ _ h => h.elim
    have ⟨⟨_, _⟩, he, hc⟩ := Option.bind_eq_some_iff.mp hc
    have ⟨_, hr, hc⟩ := Option.bind_eq_some_iff.mp hc
    cases hc
    have hd : s.donations[i]? = some d := Table.mem_entries.mp (List.mem_of_find?_eq_some he)
    rw [storeRefund_eq]
    by_cases h : d.refunded cents ≤ d.refundedCents
    case pos => simp only [if_pos h]; rfl
    case neg =>
      simp only [if_neg h]
      have hx : exec (.refundPlayer i (d.refundData cents s.clock) d.playerId
          (row.minus (d.refunded cents - d.refundedCents)) (d, row.toLedgerPlayer)) s =
            (.ok (), s.refund i d row cents) := by
        simp only [exec, hd, hr]
        rfl
      exact wp_last hx rfl fun _ _ h => h.elim

-- The payment has not been credited.
structure Before (s₀ s : Store) : Prop where
  donations : s.donations = s₀.donations
  players   : s.players = s₀.players

-- The amount that is refunded when the charge has been refunded up to `m`.
def Payment.refunded (pay : Payment) (m : ℤ) : ℤ :=
  min pay.paid.amountCents m

def Payment.status (pay : Payment) (m : ℤ) : DonationStatus :=
  if pay.paid.amountCents ≤ pay.refunded m then .refunded else .completed

-- The total of the player, where `t` is the total without the payment.
def Payment.total (pay : Payment) (t m : ℤ) : ℤ :=
  if pay.refunded m = 0 then t + pay.paid.amountCents
  else max 0 (t + pay.paid.amountCents - pay.refunded m)

-- The donation of a payment.
structure Payment.Donated (pay : Payment) (m : ℤ) (d : Donation) : Prop where
  session  : d.stripeCheckoutSessionId = pay.paid.sessionId
  charge   : d.stripePaymentIntentId = some pay.intent
  player   : d.playerId = pay.paid.playerId
  amount   : d.amountCents = pay.paid.amountCents
  refunded : d.refundedCents = pay.refunded m
  status   : d.status = pay.status m

-- The payment has been credited to the player, and `m` has been refunded of it.
def After (pay : Payment) (s₀ : Store) (t m : ℤ) (s : Store) : Prop :=
  ∃ d row, (s.donations = s₀.donations ++ [d]) ∧ pay.Donated m d ∧
    (s.players pay.paid.playerId = some row) ∧ row.totalDonatedCents = pay.total t m

variable {t : ℤ}

theorem Payment.donation?_none (h : pay.Unknown s) : s.donation? pay.paid.sessionId = none :=
  List.find?_eq_none.mpr fun d hd => by simpa using h.session d hd

theorem Payment.charge?_none (h : pay.Unknown s) : s.charge? pay.intent = none := by
  have hf : (s.donations.entries.find? fun e => e.2.stripePaymentIntentId = some pay.intent) = none := by
    refine List.find?_eq_none.mpr fun ⟨i, d⟩ hd => ?_
    simpa using h.charge d (List.mem_of_getElem? (Table.mem_entries.mp hd))
  simp [Store.charge?, hf]

theorem After.donation? (h : After pay s₀ t m s) (hu : pay.Unknown s₀) :
    ∃ d, s.donation? pay.paid.sessionId = some d ∧ pay.Donated m d := by
  have ⟨d, _, hd, hp, _⟩ := h
  have hn := Payment.donation?_none hu
  refine ⟨d, ?_, hp⟩
  rw [Store.donation?] at hn ⊢
  rw [hd, List.find?_append, hn]
  simp [hp.session]

theorem After.charge? (h : After pay s₀ t m s) (hu : pay.Unknown s₀) : ∃ d row,
    (s.charge? pay.intent = some (s₀.donations.length, d, row)) ∧ pay.Donated m d ∧
    (s.donations = s₀.donations ++ [d]) ∧ (s.players pay.paid.playerId = some row) ∧
    row.totalDonatedCents = pay.total t m := by
  have ⟨d, row, hd, hp, hr, ht⟩ := h
  refine ⟨d, row, ?_, hp, hd, hr, ht⟩
  have hf : (s.donations.entries.find? fun e => e.2.stripePaymentIntentId = some pay.intent) =
      some (s₀.donations.length, d) := by
    have hn : (s₀.donations.entries.find? fun e => e.2.stripePaymentIntentId = some pay.intent) = none := by
      refine List.find?_eq_none.mpr fun ⟨i, d⟩ hd => ?_
      simpa using hu.charge d (List.mem_of_getElem? (Table.mem_entries.mp hd))
    rw [Table.entries] at hn ⊢
    rw [hd, List.zipIdx_append, List.map_append, List.find?_append, hn]
    simp [hp.charge]
  simp [Store.charge?, hf, hp.player, hr]

theorem Payment.Donated.refund (h : pay.Donated m d)
    (hl : ¬d.refunded cents ≤ d.refundedCents) {at' : ℤ} :
    pay.Donated (max m cents) ((d.refundData cents at').apply d) := by
  have hp := pay.paid.amountCents.property
  have hr : d.refunded cents = pay.refunded (max m cents) := by
    simp only [LedgerDonation.refunded, Payment.refunded, h.amount, h.refunded] at hl ⊢
    omega
  constructor
  case session  => exact h.session
  case charge   => exact h.charge
  case player   => exact h.player
  case amount   => exact h.amount
  case refunded => exact hr
  case status   =>
    change (if d.amountCents ≤ d.refunded cents then _ else _) = _
    rw [hr, h.amount]
    rfl

theorem Payment.Donated.keeps (h : pay.Donated m d) (hl : d.refunded cents ≤ d.refundedCents) :
    pay.refunded (max m cents) = pay.refunded m := by
  have hp := pay.paid.amountCents.property
  simp only [LedgerDonation.refunded, Payment.refunded, h.amount, h.refunded] at hl ⊢
  omega

-- A refund of the payment moves the amount that has been refunded.
theorem After.refund (h : After pay s₀ t m s) (hu : pay.Unknown s₀) (hm : 0 ≤ m) :
    After pay s₀ t (max m cents) (s.refundCharge pay.intent cents) := by
  have ⟨d, row, hc, hp, hd, hr, ht⟩ := h.charge? hu
  simp only [Store.refundCharge, hc]
  by_cases hl : d.refunded cents ≤ d.refundedCents
  case pos =>
    have he := hp.keeps hl
    rw [if_pos hl]
    exact ⟨d, row, hd, ⟨hp.session, hp.charge, hp.player, hp.amount, he ▸ hp.refunded,
      by rw [hp.status, Payment.status, Payment.status, he]⟩, hr, by rw [ht, Payment.total, Payment.total, he]⟩
  case neg =>
    have hp' : pay.Donated (max m cents) ((d.refundData cents s.clock).apply d) := hp.refund hl
    rw [if_neg hl]
    refine ⟨(d.refundData cents s.clock).apply d,
      { row with toLedgerPlayer := row.minus (d.refunded cents - d.refundedCents) }, ?_, hp', ?_, ?_⟩
    case refine_1 => simp [Store.refund, hd, List.modify_eq_set_getElem?]
    case refine_2 => simp [Store.refund, players_setPlayer, hp.player]
    case refine_3 =>
      have hr : d.refunded cents = pay.refunded (max m cents) := hp'.refunded
      have hz : pay.refunded m = 0 ∨ 0 < pay.refunded m := by
        have := pay.paid.amountCents.property
        simp only [Payment.refunded]
        omega
      simp only [LedgerPlayer.minus, ht, Payment.total, hr, hp.refunded] at hl ⊢
      split <;> split <;> omega

theorem After.credit (h : Before s₀ s) {item : Option String} :
    After pay s₀ row.totalDonatedCents 0 (s.credit pay.paid row item) := by
  have hp := pay.paid.amountCents.property
  have hr : pay.refunded 0 = 0 := min_eq_right hp.le
  refine ⟨pay.paid.donation item s.clock, _, by rw [Store.credit, h.donations], ?_,
    by rw [Store.credit]; exact players_setPlayer.trans (if_pos rfl), ?_⟩
  case refine_1 =>
    exact ⟨rfl, pay.charged, rfl, rfl, hr.symm, by rw [Payment.status, hr, if_neg hp.not_ge]; rfl⟩
  case refine_2 => simp [Payment.total, hr, LedgerPlayer.plus]

theorem Before.elapse (h : Before s₀ s) : Before s₀ (s.elapse ms) :=
  ⟨h.donations, h.players⟩

theorem After.elapse (h : After pay s₀ t m s) : After pay s₀ t m (s.elapse ms) :=
  h

theorem Before.player? (h : Before s₀ s) : pay.player? s = pay.player? s₀ := by
  simp [Payment.player?, Store.player?, h.players]

theorem Before.unknown (h : Before s₀ s) (hu : pay.Unknown s₀) : pay.Unknown s :=
  ⟨h.donations ▸ hu.session, h.donations ▸ hu.charge⟩

theorem handle_cons {e : pay.Event × Nat} :
    Payment.handle s (e :: es) =
      Payment.handle ((handleWebhook e.1.webhook).run [] (s.elapse e.2)).state es :=
  rfl

theorem state_completed :
    ((handleWebhook (Payment.Event.completed : pay.Event).webhook).run [] s).state =
      ((creditPaidSession pay.object).run [] s).state :=
  rfl

theorem state_refunded {hp : parseChargeRefund object = some ⟨pay.intent, cents⟩} :
    ((handleWebhook (Payment.Event.webhook (.refunded object cents hp))).run [] s).state =
      s.refundCharge pay.intent cents := by
  have hs : handleWebhook (Payment.Event.webhook (.refunded object cents hp)) =
      refundPaymentIntent pay.intent cents := by
    change Payments.refundCharge (parseChargeRefund object) = _
    rw [hp]
    rfl
  rw [hs]
  exact wp_run_nil wp_refundPaymentIntent

-- After the credit, the refunds accumulate.
theorem After.handle (h : After pay s₀ t m s) (hu : pay.Unknown s₀) (hm : 0 ≤ m) :
    After pay s₀ t (Payment.largest m (es.map Prod.fst)) (Payment.handle s es) := by
  induction es generalizing s m
  case nil => exact h
  case cons e es hi =>
    obtain ⟨e, ms⟩ := e
    rw [handle_cons]
    cases e
    case refunded object cents hp =>
      rw [state_refunded]
      exact hi (h.elapse.refund hu hm) (hm.trans (le_max_left _ _))
    case completed =>
      have h : After pay s₀ t m (s.elapse ms) := h.elapse
      have ⟨d, hd, _⟩ := h.donation? hu
      have hs := wp_run_nil (wp_creditPaidSession (s := s.elapse ms) pay.parsed)
      rw [hd] at hs
      have hs : ((creditPaidSession pay.object).run [] (s.elapse ms)).state = s.elapse ms := by
        split at hs
        case h_1 hn => nomatch hn
        case h_2    => exact hs
      rw [state_completed, hs]
      exact hi h hm

-- Without the player nothing happens.
theorem Before.handle (h : Before s₀ s) (hu : pay.Unknown s₀) (hn : pay.player? s₀ = none) :
    Before s₀ (Payment.handle s es) := by
  induction es generalizing s
  case nil => exact h
  case cons e es hi =>
    obtain ⟨e, ms⟩ := e
    have h : Before s₀ (s.elapse ms) := h.elapse
    rw [handle_cons]
    cases e
    case refunded object cents hp =>
      rw [state_refunded, Store.refundCharge, Payment.charge?_none (h.unknown hu)]
      exact hi h
    case completed =>
      have hs := wp_run_nil (wp_creditPaidSession (s := s.elapse ms) pay.parsed)
      have hp : (s.elapse ms).player? pay.paid.playerId pay.paid.steamId pay.paid.serverInstanceId
          pay.paid.orgId = none := h.player?.trans hn
      rw [hp] at hs
      rw [state_completed, hs]
      exact hi h

-- The first delivery of the completed event credits the payment. Earlier refunds are lost.
theorem Before.handle_credited (h : Before s₀ s) (hu : pay.Unknown s₀)
    (hr : pay.player? s₀ = some row) (hc : .completed ∈ es.map Prod.fst) :
    After pay s₀ row.totalDonatedCents (Payment.lateRefund (es.map Prod.fst))
      (Payment.handle s es) := by
  induction es generalizing s
  case nil => nomatch hc
  case cons e es hi =>
    obtain ⟨e, ms⟩ := e
    have h : Before s₀ (s.elapse ms) := h.elapse
    rw [handle_cons]
    cases e
    case refunded object cents hp =>
      rw [state_refunded, Store.refundCharge, Payment.charge?_none (h.unknown hu)]
      exact hi h ((List.mem_cons.mp hc).resolve_left fun h => nomatch h)
    case completed =>
      have hs := wp_run_nil (wp_creditPaidSession (s := s.elapse ms) pay.parsed)
      have hp : (s.elapse ms).player? pay.paid.playerId pay.paid.steamId pay.paid.serverInstanceId
          pay.paid.orgId = some row := h.player?.trans hr
      rw [hp, Payment.donation?_none (h.unknown hu)] at hs
      have ⟨item, hs⟩ := hs
      rw [state_completed, hs]
      exact (After.credit h).handle hu le_rfl

theorem After.outcome (h : After pay s₀ t m s) (hu : pay.Unknown s₀) :
    pay.outcome s = {
      donation := some (pay.paid.amountCents, pay.refunded m, pay.status m)
      total    := some (pay.total t m) } := by
  have ⟨d, hd, hp⟩ := h.donation? hu
  have ⟨_, row, _, _, hr, ht⟩ := h
  simp [Payment.outcome, hd, hr, ht, hp.amount, hp.refunded, hp.status]

-- The payment of the session `cs_1`.
def Payment.sample : Payment where
  object  := (paidEvent "cs_1" 1000).object
  paid    := (parsePaidCheckoutSession (paidEvent "cs_1" 1000).object).get (by decide +kernel)
  intent  := "cs_1"
  parsed  := (Option.some_get _).symm
  charged := by decide +kernel

def Payment.sampleRefund : Payment.sample.Event :=
  .refunded (refundEvent "cs_1" 300).object 300 (by decide +kernel)

end Payments
