import Mastermind.Payments.Checkout
import Mastermind.Payments.Theorems.Order

open Effects Prog Js

namespace Payments

-- The object of a session that has been paid. Stripe returns the metadata unchanged.
structure CheckoutSession.Paid (session : CheckoutSession) (object : Json) (sessionId : String)
    (cents : ℤ) : Prop where
  id       : stripeObjectId (object.get? "id") = some sessionId
  status   : object.get? "payment_status" = some (.str "paid")
  amount   : object.get? "amount_total" = some (.num (.fin cents))
  positive : 0 < cents
  metadata : object.get? "metadata" = some (.obj (session.metadata.map fun (k, v) => (k, .str v)))

-- The session is delivered at least once, with the given times between the deliveries.
def delivered (s : Store) (object : Json) (mss : List Nat) : Store :=
  webhooks.run s (mss.map fun ms => (⟨"checkout.session.completed", object⟩, ms))

variable {s s' : Store} {id : Id} {row : Player} {player : CheckoutPlayer} {input : CheckoutInput}
  {session : CheckoutSession} {object : Json} {sessionId : String} {cents : ℤ} {mss : List Nat}
  {paid : PaidCheckout} {auth : SessionAuth} {amountCents shopItemId shopItemIds : Option Json}

-- What all sessions for a player have in common.
def CheckoutPlayer.Owns (player : CheckoutPlayer) (session : CheckoutSession) : Prop :=
  ∃ lineItems, session.metadata = CheckoutInput.metadata {
    playerId         := player.id
    steamId          := player.syntheticSteam
    serverInstanceId := player.serverInstanceId
    orgId            := player.orgId
    lineItems        := lineItems }

-- A checkout creates no session, or one for its player.
def OneSession (player : CheckoutPlayer) (s s' : Store) : Prop :=
  (s'.sessions = s.sessions) ∨
  ∃ session, (s'.sessions = s.sessions ++ [session]) ∧ player.Owns session

theorem wp_tryCheckout {lineItems : List CheckoutLineItem} :
    (tryCheckout {
      playerId         := player.id
      steamId          := player.syntheticSteam
      serverInstanceId := player.serverInstanceId
      orgId            := player.orgId
      lineItems        := lineItems }).wp (under stripe .none) (fun _ => OneSession player s) s := by
  apply wp_handle.mpr
  rw [createCheckoutSession]
  split
  case isTrue  => exact .inl rfl
  case isFalse => exact wp_last rfl (.inr ⟨_, rfl, lineItems, rfl⟩) fun _ _ h => h.elim

theorem wp_createCheckout :
    (createCheckout player amountCents shopItemId shopItemIds).wp (under stripe .none)
      (fun _ => OneSession player s) s := by
  rw [createCheckout]
  split
  case isTrue  => exact .inl rfl
  case isFalse =>
    refine wp_step rfl ?_ fun _ _ h => h.elim
    split
    case isFalse => exact .inl rfl
    case isTrue  =>
      split
      case h_1 =>
        refine wp_step rfl ?_ fun _ _ h => h.elim
        split
        case isTrue  => exact .inl rfl
        case isFalse => exact wp_tryCheckout
      case h_2 =>
        unfold createSingleCheckout
        split
        case h_1 =>
          refine wp_step rfl ?_ fun _ _ h => h.elim
          split
          case h_1 => exact .inl rfl
          case h_2 => exact wp_tryCheckout
        case h_2 =>
          split
          case h_1 => exact .inl rfl
          case h_2 => exact wp_tryCheckout

theorem id?_val : id? id.val = some id :=
  dif_pos id.property

theorem syntheticSteam_ne : player.syntheticSteam ≠ "" := by
  rw [CheckoutPlayer.syntheticSteam, orElse]
  split
  case isTrue    => simp [String.ext_iff]
  case isFalse h => exact h

-- The fields of the metadata that identify the player are read as they have been written.
theorem CheckoutSession.Paid.get? (hp : session.Paid object sessionId cents)
    (ho : player.Owns session) :
    ((object.get? "metadata").getD (.obj [])).get? "playerId" = some (.str player.id) ∧
    ((object.get? "metadata").getD (.obj [])).get? "steamId" = some (.str player.syntheticSteam) ∧
    ((object.get? "metadata").getD (.obj [])).get? "serverInstanceId" =
      some (.str player.serverInstanceId) ∧
    ((object.get? "metadata").getD (.obj [])).get? "orgId" = some (.str player.orgId) := by
  have ⟨_, ho⟩ := ho
  rw [hp.metadata, Option.getD_some, ho]
  simp [CheckoutInput.metadata, Json.get?, List.lookup_cons]

-- Every session that has been paid is read as a session of its player.
theorem CheckoutSession.Paid.parsed (hp : session.Paid object sessionId cents)
    (ho : player.Owns session) : ∃ paid, (parsePaidCheckoutSession object = some paid) ∧
      (paid.sessionId = sessionId) ∧ (paid.playerId = player.id) ∧
      (paid.steamId.val = player.syntheticSteam) ∧
      (paid.serverInstanceId = player.serverInstanceId) ∧ (paid.orgId = player.orgId) ∧
      paid.amountCents.val = cents := by
  have ⟨hi, hs, hv, hg⟩ := hp.get? ho
  have hn : id? player.syntheticSteam = some ⟨player.syntheticSteam, syntheticSteam_ne⟩ :=
    dif_pos syntheticSteam_ne
  have ha : integerOrNull (object.get? "amount_total") = some cents := by
    rw [hp.amount, integerOrNull, Number.integer?]
    simp
  have hm : metadataPlayerId object ((object.get? "metadata").getD (.obj [])) = some player.id.val := by
    rw [metadataPlayerId, hi]
  simp only [parsePaidCheckoutSession, hp.status, hp.id, ha, hm, hs, hv, hg, textOrEmpty, hn, id?_val,
    Option.bind_some, dif_pos hp.positive]
  exact ⟨_, rfl, rfl, rfl, rfl, rfl, rfl, rfl⟩

-- Further deliveries of a session that is stored change nothing.
theorem delivered_stored (hp : parsePaidCheckoutSession object = some paid)
    (hd : (s.donation? paid.sessionId).isSome = true) :
    (delivered s object mss).donations = s.donations := by
  induction mss generalizing s
  case nil => rfl
  case cons ms mss hi =>
    have ⟨d, hd⟩ := Option.isSome_iff_exists.mp hd
    have hd : (s.elapse ms).donation? paid.sessionId = some d := hd
    have hs := wp_run_nil (wp_creditPaidSession (s := s.elapse ms) hp)
    rw [hd] at hs
    have hs : ((creditPaidSession object).run [] (s.elapse ms)).state = s.elapse ms := by
      split at hs
      case h_1 hn => nomatch hn
      case h_2    => exact hs
    have he : delivered s object (ms :: mss) = delivered (s.elapse ms) object mss :=
      congrArg (delivered · object mss) hs
    rw [he, hi (by simp [hd])]
    rfl

-- A session whose player is not found is never credited.
theorem delivered_ignored (hp : parsePaidCheckoutSession object = some paid)
    (hn : s.player? paid.playerId paid.steamId paid.serverInstanceId paid.orgId = none) :
    (delivered s object mss).donations = s.donations := by
  induction mss generalizing s
  case nil => rfl
  case cons ms mss hi =>
    have hn : (s.elapse ms).player? paid.playerId paid.steamId paid.serverInstanceId paid.orgId =
      none := hn
    have hs := wp_run_nil (wp_creditPaidSession (s := s.elapse ms) hp)
    rw [hn] at hs
    have he : delivered s object (ms :: mss) = delivered (s.elapse ms) object mss :=
      congrArg (delivered · object mss) hs
    rw [he, hi hn]
    rfl

theorem delivered_credited (hp : parsePaidCheckoutSession object = some paid)
    (hr : s.player? paid.playerId paid.steamId paid.serverInstanceId paid.orgId = some row)
    (hd : s.donation? paid.sessionId = none) (hm : mss ≠ []) : ∃ d,
      ((delivered s object mss).donations = s.donations ++ [d]) ∧ (d.playerId = paid.playerId) ∧
      d.amountCents = paid.amountCents.val := by
  obtain ⟨ms, mss, rfl⟩ := List.exists_cons_of_ne_nil hm
  have hr : (s.elapse ms).player? paid.playerId paid.steamId paid.serverInstanceId paid.orgId =
    some row := hr
  have hd : (s.elapse ms).donation? paid.sessionId = none := hd
  have hs := wp_run_nil (wp_creditPaidSession (s := s.elapse ms) hp)
  rw [hr, hd] at hs
  obtain ⟨item, hs⟩ := hs
  have he : delivered s object (ms :: mss) =
      delivered ((s.elapse ms).credit paid row item) object mss :=
    congrArg (delivered · object mss) hs
  refine ⟨paid.donation item (s.elapse ms).clock, ?_, rfl, rfl⟩
  rw [he, delivered_stored hp (by simp [Store.donation?, Store.credit, PaidCheckout.donation])]
  rfl

theorem CheckoutPlayer.syntheticSteam_eq_iff :
    player.steamId = some player.syntheticSteam ↔ player.steamId.getD "" ≠ "" := by
  rw [syntheticSteam, orElse]
  cases player.steamId
  case none        => simp
  case some steam  =>
    by_cases h : steam = ""
    case pos => simp [h, String.ext_iff]
    case neg => simp [h]

-- The object that Stripe delivers after a session has been paid.
def CheckoutSession.paidObject (session : CheckoutSession) (cents : Nat) : Json :=
  .obj [("id", .str "cs_1"), ("payment_status", .str "paid"), ("amount_total", .ofNat cents),
    ("metadata", .obj (session.metadata.map fun (k, v) => (k, .str v)))]

def Player.sampleId : Id :=
  ⟨"cplayer", by decide⟩

-- The player donates five dollars.
def fiveDollars (row : Player) (auth : SessionAuth) (s : Store) : Store :=
  ((createCheckout (row.signedIn Player.sampleId auth) (some (.ofNat 500)) none none).run
    [] s).state

def CheckoutSession.sample : CheckoutSession where
  clientReferenceId := "cplayer"
  metadata          := [("playerId", "cplayer"), ("steamId", "76561198000000000"),
    ("serverInstanceId", "cserver"), ("orgId", "corg")]
  lineItems         := [{
    amountCents := 500, name := "Server support", description := "Support tied to Steam ending 0000"
    shopItemId  := none }]

-- A player without a Steam id.
def Player.nameOnly : Player :=
  { Player.sample with steamId := none }

def Store.nameOnly : Store where
  clock   := 0
  players := fun id => if id.val = "cplayer" then some .nameOnly else none

end Payments
