import Mastermind.Effects.Pool
import Mastermind.Payments.Service
import Mastermind.Payments.Theorems.Ledger

open Effects Prog Js

namespace Payments

abbrev Handlers :=
  Pool stripe WebhookEvent Unit

def Store.elapse (ms : Nat) (s : Store) : Store :=
  { s with clock := s.clock + ms }

-- The handlers of webhook events, interleaved at each read and at each transaction.
@[reducible]
def interleaved : System :=
  Pool.system handleWebhook Store.elapse

-- What is left of a player's donations.
def Store.kept (s : Store) (id : Id) : ℤ :=
  ((s.donations.filter (·.playerId = id)).map (·.kept)).sum

-- The totals of the players are the sums over their donations.
structure Store.Balanced (s : Store) : Prop where
  donations : ∀ d ∈ s.donations, 0 ≤ d.refundedCents ∧ d.refundedCents ≤ d.amountCents
  totals    : ∀ id p, s.players id = some p → p.totalDonatedCents = s.kept id

-- The player's total is still the one that has been read.
def Store.stillTotals (s : Store) (id : Id) (read : LedgerPlayer) : Bool :=
  (s.players id).all (·.totalDonatedCents = read.totalDonatedCents)

-- A transaction whose handler has read the present state of what it writes.
def Store.upToDate (s : Store) : Cmd → Bool
  | .creditPlayer d _ read =>
    (s.donation? d.stripeCheckoutSessionId).isSome || s.stillTotals d.playerId read
  | .refundPlayer id _ playerId _ (d, read) =>
    decide (s.donations[id]? = some d) && s.stillTotals playerId read
  | _ => true

-- No handler overwrites what another one has written since it was read.
def NoOverwrite (p : Handlers) : Pool.Event WebhookEvent Nat → Prop
  | .serve i => (p.next? i).all (p.state.upToDate ·.2) = true
  | _        => True

instance {p : Handlers} {e : Pool.Event WebhookEvent Nat} : Decidable (NoOverwrite p e) := by
  unfold NoOverwrite
  split <;> infer_instance

-- The transactions are computed from what has been read.
def Computed : Cmd → Prop
  | .creditPlayer d player read =>
    ∃ at', (0 < d.amountCents) ∧ (d.refundedCents = 0) ∧ player = read.plus d.amountCents at'
  | .refundPlayer _ data playerId player (d, read) =>
    (playerId = d.playerId) ∧ (d.refundedCents < data.refundedCents) ∧
    (data.refundedCents ≤ d.amountCents) ∧ player = read.minus (data.refundedCents - d.refundedCents)
  | _ => True

variable {s : Store} {paid : PaidCheckout} {player : LedgerPlayer} {c : Cmd} {id k : Id}
  {d : Donation} {p : Handlers}

theorem credit_paid {at' : ℤ} : creditCompletedSession .exact none paid.input player at' = {
    donation := paid.input.donation paid.amountCents
    player   := player.plus paid.amountCents at'
    applied  := true } := by
  have hi : paid.input.amountCents.integer? = some paid.amountCents.val := by
    simp [PaidCheckout.input, Number.integer?]
  have hp := Int.not_le.mpr paid.amountCents.property
  simp only [creditCompletedSession, hi, if_neg hp]
  rfl

theorem storeCredit_computed {shopItemId : Option String} {at' : ℤ} :
    Only Computed (storeCredit paid player shopItemId at') := by
  rw [storeCredit, credit_paid]
  refine .ite (.handle (.perform ⟨at', paid.amountCents.property, rfl, rfl⟩) fun e => ?_) .pure
  cases e <;> trivial

theorem creditPlayer_computed : Only Computed (creditPlayer paid player) := by
  refine .bind (.perform trivial) fun _ => .ite .pure ?_
  have hr : Only Computed (readItems paid) := .ite .pure (.bind (.perform trivial) fun _ => .pure)
  have hp : Only Computed (primaryItem paid) := by
    unfold primaryItem
    split
    case h_1 => exact .pure
    case h_2 => exact .bind (.perform trivial) fun _ => .pure
  exact .bind hr fun _ => .bind hp fun _ => .bind (.perform trivial) fun _ => storeCredit_computed

theorem creditPaidSession_computed {object : Json} : Only Computed (creditPaidSession object) := by
  unfold creditPaidSession
  split
  case h_1 => exact .pure
  case h_2 =>
    refine .bind (.perform trivial) fun r => ?_
    cases r
    case none => exact .pure
    case some => exact creditPlayer_computed

-- What a refund writes to the row of a donation.
def Donation.refundData (d : Donation) (cents at' : ℤ) : DonationData where
  refundedCents := d.refunded cents
  status        := (d.refundTo (d.refunded cents)).status
  refundedAt    := if (d.refundTo (d.refunded cents)).status = .refunded then some at' else d.refundedAt

theorem storeRefund_eq {i : DonationId} {cents at' : ℤ} :
    storeRefund i d player cents at' =
      if d.refunded cents ≤ d.refundedCents then pure ()
      else send (.refundPlayer i (d.refundData cents at') d.playerId
        (player.minus (d.refunded cents - d.refundedCents)) (d, player)) := by
  simp only [storeRefund]
  rw [applyChargeRefund_some]
  by_cases h : d.refunded cents ≤ d.refundedCents
  case pos => rw [if_pos h, if_pos h]
  case neg => rw [if_neg h, if_neg h]; rfl

theorem storeRefund_computed {i : DonationId} {cents at' : ℤ} :
    Only Computed (storeRefund i d player cents at') := by
  rw [storeRefund_eq]
  split
  case isTrue    => exact .pure
  case isFalse h => exact .perform ⟨rfl, Int.not_le.mp h, min_le_left _ _, rfl⟩

theorem refundCharge_computed {charge : Option RefundedCharge} :
    Only Computed (refundCharge charge) := by
  cases charge
  case none => exact .pure
  case some =>
    refine .bind (.perform trivial) fun r => ?_
    cases r
    case none => exact .pure
    case some => exact .bind (.perform trivial) fun _ => storeRefund_computed

theorem handleWebhook_computed {e : WebhookEvent} : Only Computed (handleWebhook e) :=
  .ite creditPaidSession_computed <|
    .ite refundCharge_computed <| .ite refundCharge_computed .pure

theorem kept_eq_sum : s.kept k = (s.donations.map fun d => if d.playerId = k then d.kept else 0).sum := by
  rw [Store.kept]
  induction s.donations
  case nil          => rfl
  case cons d ds hi => by_cases h : d.playerId = k <;> simp [h, hi]

theorem Store.Balanced.kept_le (h : s.Balanced) (hd : d ∈ s.donations) :
    d.amountCents - d.refundedCents ≤ s.kept d.playerId := by
  refine List.single_le_sum (fun x hx => ?_) _ (List.mem_map_of_mem (List.mem_filter.mpr ⟨hd, by simp⟩))
  have ⟨d', hd', he⟩ := List.mem_map.mp hx
  exact he ▸ Int.sub_nonneg.mpr (h.donations d' (List.mem_filter.mp hd').left).right

theorem players_setPlayer {row : Player} :
    (s.setPlayer id row player).players k =
      if k = id then some { row with toLedgerPlayer := player } else s.players k := by
  by_cases h : k = id
  case pos => subst h; simp [Store.setPlayer]
  case neg => simp [Store.setPlayer, h]

-- A transaction that moves the total of a player by as much as the sum over the donations.
theorem Store.Balanced.write {ds : Table Donation} {row : Player} {cents : ℤ} (h : s.Balanced)
    (hr : s.players id = some row) (hp : player.totalDonatedCents = row.totalDonatedCents + cents)
    (hd : ∀ d ∈ ds, 0 ≤ d.refundedCents ∧ d.refundedCents ≤ d.amountCents)
    (hk : ∀ k, ({ s with donations := ds } : Store).kept k = s.kept k + if k = id then cents else 0) :
    ({ s.setPlayer id row player with donations := ds } : Store).Balanced where
  donations := hd
  totals k p hs := by
    have hs : (s.setPlayer id row player).players k = some p := hs
    rw [players_setPlayer] at hs
    refine Eq.trans ?_ (hk k).symm
    split at hs
    case isTrue he =>
      cases hs
      rw [if_pos he, hp, h.totals id row hr, he]
    case isFalse he => rw [if_neg he, h.totals k p hs, add_zero]

theorem kept_append : ({ s with donations := s.donations ++ [d] } : Store).kept k =
    s.kept k + if k = d.playerId then d.kept else 0 := by
  simp [kept_eq_sum, eq_comm]

theorem kept_refund {i : DonationId} {data : DonationData} (h : s.donations[i]? = some d) :
    ({ s with donations := s.donations.modify i data.apply } : Store).kept k =
      s.kept k + if k = d.playerId then d.refundedCents - data.refundedCents else 0 := by
  rw [kept_eq_sum, kept_eq_sum, Table.sum_map_modify h]
  by_cases hk : k = d.playerId
  case pos => simp [DonationData.apply, LedgerDonation.kept, hk]
  case neg => simp [DonationData.apply, hk, Ne.symm hk]

theorem stillTotals_iff {read : LedgerPlayer} {row : Player} (h : s.players id = some row) :
    s.stillTotals id read = true ↔ row.totalDonatedCents = read.totalDonatedCents := by
  simp [Store.stillTotals, h]

theorem Store.Balanced.credit {read : LedgerPlayer} (h : s.Balanced)
    (hc : Computed (.creditPlayer d player read))
    (hu : s.upToDate (.creditPlayer d player read) = true) :
    (exec (.creditPlayer d player read) s).2.Balanced := by
  have ⟨at', hp, hz, he⟩ := hc
  simp only [exec]
  split
  case h_1 => exact h
  case h_2 => exact h
  case h_3 row hd hr =>
    have ht : s.stillTotals d.playerId read = true := by simpa [upToDate, hd] using hu
    have ht := (stillTotals_iff hr).mp ht
    have ht : player.totalDonatedCents = row.totalDonatedCents + d.amountCents := by rw [he, ht]; rfl
    refine h.write hr ht ?_ fun k => ?_
    case refine_1 =>
      intro d' hd'
      cases List.mem_append.mp hd'
      case inl hd' => exact h.donations d' hd'
      case inr hd' => cases List.mem_singleton.mp hd'; omega
    case refine_2 =>
      rw [kept_append, LedgerDonation.kept, hz, sub_zero]

theorem Store.Balanced.refund {i : DonationId} {data : DonationData} {read : Donation × LedgerPlayer}
    (h : s.Balanced) (hc : Computed (.refundPlayer i data id player read))
    (hu : s.upToDate (.refundPlayer i data id player read) = true) :
    (exec (.refundPlayer i data id player read) s).2.Balanced := by
  obtain ⟨d, read⟩ := read
  obtain ⟨rfl, hl, ha, he⟩ := hc
  simp only [upToDate, Bool.and_eq_true, decide_eq_true_eq] at hu
  obtain ⟨hd, ht⟩ := hu
  simp only [exec, hd]
  split
  case h_2 => exact h
  case h_1 row _ hr =>
    have ht := (stillTotals_iff hr).mp ht
    have hm := List.mem_of_getElem? hd
    have hk := h.kept_le hm
    have hp : player.totalDonatedCents = row.totalDonatedCents + (d.refundedCents - data.refundedCents) := by
      rw [he, ← h.totals _ _ hr] at *
      simp only [LedgerPlayer.minus]
      omega
    refine h.write hr hp ?_ fun k => kept_refund hd
    intro d' hd'
    obtain ⟨j, hj⟩ := List.getElem?_of_mem hd'
    rw [List.getElem?_modify] at hj
    obtain ⟨d₀, hd₀, he⟩ := Option.map_eq_some_iff.mp hj
    split at he
    case isFalse => exact he ▸ h.donations d₀ (List.mem_of_getElem? hd₀)
    case isTrue hij =>
      cases (hij ▸ hd).symm.trans hd₀
      have hn := (h.donations d hm).left
      rw [← he]
      exact ⟨hn.trans hl.le, ha⟩

theorem Store.Balanced.exec (h : s.Balanced) (hc : Computed c) (hu : s.upToDate c = true) :
    (exec c s).2.Balanced := by
  cases c
  case creditPlayer  => exact h.credit hc hu
  case refundPlayer  => exact h.refund hc hu
  case createSession => exact ⟨h.donations, h.totals⟩
  all_goals exact h

theorem next_balanced {e : Pool.Event WebhookEvent Nat} (h : p.Issues Computed ∧ p.state.Balanced)
    (hc : NoOverwrite p e) :
    (interleaved.next p e).Issues Computed ∧ (interleaved.next p e).state.Balanced := by
  cases e
  case start e  => exact ⟨h.left.start handleWebhook_computed, h.right⟩
  case world ms => exact ⟨h.left, h.right.donations, h.right.totals⟩
  case fail i   => exact ⟨h.left.fail, (Pool.fail_state (p := p) (i := i)) ▸ h.right⟩
  case serve i  =>
    refine ⟨h.left.serve, ?_⟩
    change (p.serve i).state.Balanced
    obtain hs | ⟨q, c, k, hi, hs⟩ := p.serve_cases i <;> rw [hs]
    case inl => exact h.right
    case inr =>
      have hn : p.next? i = some (q, c) := Pool.next?_eq_some.mpr ⟨k, hi⟩
      have hu : p.state.upToDate c = true := by simpa [NoOverwrite, hn] using hc
      exact h.right.exec (h.left.next? hn) hu

-- As long as no handler overwrites what another one has written since it was read, the players'
-- totals are the sums over their donations.
theorem totals_exact {es : List (Pool.Event WebhookEvent Nat)} (h : s.Balanced)
    (hm : interleaved.Meets NoOverwrite (Pool.idle s) es) :
    ∀ id p, (interleaved.run (Pool.idle s) es).state.players id = some p →
      p.totalDonatedCents = (interleaved.run (Pool.idle s) es).state.kept id := by
  have h₀ : (Pool.idle s : Handlers).Issues Computed ∧ (Pool.idle s : Handlers).state.Balanced :=
    ⟨Pool.Issues.idle, h⟩
  exact (System.invariant (S := interleaved) (fun _ _ => next_balanced) h₀ hm).right.totals

-- A player who has not donated yet.
def Player.sample : Player where
  supporter         := false
  supporterSince    := none
  totalDonatedCents := 0
  orgId             := ⟨"corg", by decide⟩
  serverInstanceId  := ⟨"cserver", by decide⟩
  steamId           := some "76561198000000000"
  name              := "Steve"

def Store.sample : Store where
  clock   := 0
  players := fun id => if id.val = "cplayer" then some .sample else none

theorem Store.sample_balanced : Store.sample.Balanced where
  donations _ hd := nomatch hd
  totals id p hp := by
    have hp : (if id.val = "cplayer" then some Player.sample else none) = some p := hp
    split at hp
    case isTrue  => cases hp; rfl
    case isFalse => nomatch hp

-- The player has paid the session, whose payment has the id of the session.
def paidEvent (id : String) (cents : Nat) : WebhookEvent where
  type   := "checkout.session.completed"
  object := .obj [("id", .str id), ("payment_status", .str "paid"), ("amount_total", .ofNat cents),
    ("payment_intent", .str id),
    ("metadata", .obj [("playerId", .str "cplayer"), ("steamId", .str "76561198000000000"),
      ("serverInstanceId", .str "cserver"), ("orgId", .str "corg")])]

def refundEvent (id : String) (cents : Nat) : WebhookEvent where
  type   := "charge.refunded"
  object := .obj [("payment_intent", .str id), ("amount_refunded", .ofNat cents)]

-- Two sessions of one player are credited, and then a part of one of them is refunded. The first
-- session is delivered twice.
def oneByOne : List (Pool.Event WebhookEvent Nat) :=
  [.start (paidEvent "cs_1" 1000), .start (paidEvent "cs_1" 1000), .serve 0, .serve 1, .serve 1,
    .serve 0, .serve 0, .serve 0, .serve 1, .serve 1,
    .start (paidEvent "cs_2" 500), .serve 2, .serve 2, .serve 2, .serve 2,
    .start (refundEvent "cs_1" 300), .serve 3, .serve 3, .serve 3]

theorem totals_exact_oneByOne :
    (∀ id p, (interleaved.run (Pool.idle .sample) oneByOne).state.players id = some p →
      p.totalDonatedCents = (interleaved.run (Pool.idle .sample) oneByOne).state.kept id) ∧
    (interleaved.run (Pool.idle .sample) oneByOne).state.kept ⟨"cplayer", by decide⟩ = 1200 :=
  ⟨totals_exact Store.sample_balanced (by decide +kernel), by decide +kernel⟩

-- Both handlers read the player before one of them writes.
def atOnce : List (Pool.Event WebhookEvent Nat) :=
  [.start (paidEvent "cs_1" 1000), .start (paidEvent "cs_2" 500), .serve 0,
    .serve 1, .serve 1, .serve 1, .serve 1, .serve 0, .serve 0, .serve 0]

theorem totals_wrong_atOnce :
    ((List.range 2).map (interleaved.run (Pool.idle .sample) atOnce).returned? = [some (), some ()]) ∧
    (((interleaved.run (Pool.idle .sample) atOnce).state.players ⟨"cplayer", by decide⟩).map
      (·.totalDonatedCents) = some 1000) ∧
    (interleaved.run (Pool.idle .sample) atOnce).state.kept ⟨"cplayer", by decide⟩ = 1500 := by
  decide +kernel

end Payments
