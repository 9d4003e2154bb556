import Mastermind.Script.Digits
import Mastermind.Donations.Service
import Mastermind.Payments.Theorems.Checkout

open Effects Prog Js

namespace Payments

-- A text that stays what it is in a list whose elements are separated by commas.
structure Part (s : String) : Prop where
  nonempty : s ≠ ""
  plain    : ∀ c ∈ s.toList, c ≠ ',' ∧ isSpace c = false

section

variable {parts ids : List String} {s : String} {c : Char} {entries : List Json} {n : Nat}

theorem splitParts_joinParts (hn : parts ≠ []) (hp : ∀ part ∈ parts, Part part) :
    splitParts (joinParts parts) = parts := by
  have hc : ∀ cs ∈ parts.map String.toList, ',' ∉ cs := by
    intro cs hm h
    have ⟨part, hm, he⟩ := List.mem_map.mp hm
    exact ((hp part hm).plain ',' (he ▸ h)).left rfl
  have hs : (joinParts parts).toList.splitOn ',' = parts.map String.toList := by
    rw [joinParts, String.toList_intercalate]
    exact List.splitOn_intercalate ',' hc (by simpa using hn)
  have ht : ∀ part ∈ parts, String.ofList (trimChars part.toList) = part := by
    intro part hm
    rw [trimChars_eq_self fun c hc => ((hp part hm).plain c hc).right]
    exact String.ofList_toList
  rw [splitParts, hs, List.map_map]
  exact (List.map_congr_left ht).trans (List.map_id _)

theorem splitParts_blank (h : trim s = "") : splitParts s = [""] := by
  have ht : trimChars s.toList = [] := String.ofList_injective h
  have hc : ',' ∉ s.toList := fun hm => nomatch trimChars_eq_nil_iff.mp ht ',' hm
  rw [splitParts, List.splitOn_eq_singleton hc, List.map_singleton, ht]

-- A list with elements does not count as missing.
theorem trim_joinParts (hn : parts ≠ []) (hp : ∀ part ∈ parts, Part part) :
    trim (joinParts parts) ≠ "" := by
  intro h
  have hs := (splitParts_joinParts hn hp).symm.trans (splitParts_blank h)
  exact (hp "" (hs ▸ List.mem_singleton_self "")).nonempty rfl

theorem idChar_plain (h : (c.isAlphanum || c = '_' || c = '-') = true) :
    c ≠ ',' ∧ isSpace c = false := by
  have hr : c.toNat = 45 ∨ (48 ≤ c.toNat ∧ c.toNat ≤ 122) := by
    simp only [Bool.or_eq_true, decide_eq_true_eq] at h
    obtain (h | rfl) | rfl := h
    case inl.inl =>
      have := Char.toNat_of_isAlphanum h
      omega
    all_goals decide
  constructor
  case left =>
    rintro rfl
    exact absurd hr (by decide)
  case right =>
    simp only [isSpace, Bool.or_eq_false_iff, Bool.and_eq_false_iff, decide_eq_false_iff_not]
    omega

theorem isShopItemId_part (h : isShopItemId s.toList = true) : Part s := by
  simp only [isShopItemId, Bool.and_eq_true, decide_eq_true_eq, List.all_eq_true] at h
  refine ⟨?_, fun c hc => ?_⟩
  case refine_1 =>
    rintro rfl
    exact absurd h.left.left (by decide)
  case refine_2 =>
    exact idChar_plain (by simpa using h.right c hc)

theorem toString_part : Part (toString n) := by
  have ht : (toString n).toList = Nat.toDigits 10 n := by
    rw [Nat.toString_eq_ofList_toDigits, String.toList_ofList]
  constructor
  case nonempty =>
    intro he
    rw [he] at ht
    exact Nat.toDigits_ne_nil ht.symm
  case plain =>
    intro c hc
    have hd := isDigit_toDigits (ht ▸ hc)
    refine ⟨?_, isSpace_digit hd⟩
    rintro rfl
    nomatch hd

end

-- A price in cents is positive. Below 2⁵³ all integers are numbers, and the column has 32 bits.
def IsPrice (cents : ℤ) : Prop :=
  0 < cents ∧ cents < 2 ^ 53

section

variable {cents : ℤ} {prices : List ℤ}

theorem IsPrice.part (h : IsPrice cents) : Part (toString cents) := by
  obtain ⟨n, rfl⟩ := Int.eq_ofNat_of_zero_le (Int.le_of_lt h.left)
  exact toString_part (n := n)

theorem IsPrice.read (h : IsPrice cents) :
    (stringToNumber (toString cents)).integer? = some cents := by
  obtain ⟨n, rfl⟩ := Int.eq_ofNat_of_zero_le (Int.le_of_lt h.left)
  have hn : n < 2 ^ 53 := by have := h.right; omega
  have hs : stringToNumber (toString (n : ℤ)) = .fin n := stringToNumber_toString hn
  rw [hs, Number.integer?_natCast]

-- None of the amounts is dropped.
theorem readAmounts (hp : ∀ cents ∈ prices, IsPrice cents) :
    (((prices.map toString).filterMap fun part => (stringToNumber part).integer?).filter (0 < ·)) =
      prices := by
  induction prices
  case nil => rfl
  case cons cents prices hi =>
    have ⟨hc, hp⟩ := List.forall_mem_cons.mp hp
    simp only [List.map_cons, List.filterMap_cons, hc.read, List.filter_cons, hc.left, decide_true,
      if_true, hi hp]

end

-- What `parseShopItemIds` makes sure of.
structure CartIds (ids : List String) : Prop where
  nonempty : ids ≠ []
  valid    : ∀ id ∈ ids, isShopItemId id.toList = true
  distinct : ids.Nodup

section

variable {raw : List Json} {cart : Option Json} {entry metadata : Json} {id : String}
  {ids ids' : List String} {prices : List ℤ}

theorem parseShopItemId_some (h : parseShopItemId entry = some id) :
    isShopItemId id.toList = true := by
  cases entry
  case str s =>
    rw [parseShopItemId] at h
    split at h
    case isTrue hs => exact Option.some.inj h ▸ hs
    case isFalse   => nomatch h
  all_goals nomatch h

theorem parseCartEntries_some (h : parseCartEntries ids raw = some ids') (hd : ids.Nodup)
    (hv : ∀ id ∈ ids, isShopItemId id.toList = true) :
    ids'.Nodup ∧ (∀ id ∈ ids', isShopItemId id.toList = true) ∧
    ids'.length = ids.length + raw.length := by
  induction raw generalizing ids
  case nil =>
    cases h
    exact ⟨hd, hv, rfl⟩
  case cons entry raw hi =>
    rw [parseCartEntries] at h
    split at h
    case h_2 => nomatch h
    case h_1 id he =>
      split at h
      case isTrue     => nomatch h
      case isFalse hc =>
        have hm : id ∉ ids := by simpa using hc
        have hd : (ids ++ [id]).Nodup :=
          hd.append (List.nodup_singleton id) (List.disjoint_singleton.mpr hm)
        have hv : ∀ id' ∈ ids ++ [id], isShopItemId id'.toList = true := by
          intro id' hm
          cases List.mem_append.mp hm
          case inl hm => exact hv id' hm
          case inr hm => exact List.mem_singleton.mp hm ▸ parseShopItemId_some he
        have ⟨hd, hv, hl⟩ := hi h hd hv
        rw [List.length_append, List.length_singleton] at hl
        rw [List.length_cons]
        exact ⟨hd, hv, by omega⟩

theorem parseShopItemIds_some (h : parseShopItemIds cart = some ids) : CartIds ids := by
  unfold parseShopItemIds at h
  split at h
  case h_2     => nomatch h
  case h_1 raw =>
    split at h
    case isTrue     => nomatch h
    case isFalse hn =>
      have ⟨hd, hv, hl⟩ := parseCartEntries_some h List.nodup_nil (List.forall_mem_nil _)
      refine ⟨?_, hv, hd⟩
      rintro rfl
      rw [List.length_nil, Nat.zero_add] at hl
      omega

theorem CartIds.read (h : CartIds ids)
    (hi : metadata.get? "shopItemIds" = some (.str (joinParts ids))) :
    metadataItemIds metadata = ids := by
  have hp : ∀ id ∈ ids, Part id := fun id hm => isShopItemId_part (h.valid id hm)
  rw [metadataItemIds, hi]
  simp only [textOrEmpty, if_pos (trim_joinParts h.nonempty hp), splitParts_joinParts h.nonempty hp]
  exact List.filter_eq_self.mpr h.valid

theorem readLineAmounts (hn : prices ≠ []) (hp : ∀ cents ∈ prices, IsPrice cents)
    (ha : metadata.get? "lineAmounts" = some (.str (joinParts (prices.map toString)))) :
    metadataLineAmounts metadata = prices := by
  have hn : prices.map toString ≠ [] := by simpa using hn
  have hs : ∀ part ∈ prices.map toString, Part part := by
    intro part hm
    have ⟨cents, hm, he⟩ := List.mem_map.mp hm
    exact he ▸ (hp cents hm).part
  rw [metadataLineAmounts, ha]
  simp only [textOrEmpty, if_pos (trim_joinParts hn hs), splitParts_joinParts hn hs]
  exact readAmounts hp

end

-- The ids of a cart are those of items that can be bought. They are the primary key of the items.
structure Cart (s : Store) (orgId : Id) (ids : List String) (items : List ShopItem) : Prop where
  key    : (s.shopItems.map ShopItem.id).Nodup
  rows   : ∀ item ∈ items, item ∈ s.shopItems ∧ item.orgId = orgId ∧ item.active = true
  ids    : items.map ShopItem.id = ids
  prices : ∀ item ∈ items, IsPrice item.priceCents

-- What a cart is turned into.
def CheckoutPlayer.cartInput (player : CheckoutPlayer) (steamId : String) (items : List ShopItem) :
    CheckoutInput where
  playerId         := player.id
  steamId          := steamId
  serverInstanceId := player.serverInstanceId
  orgId            := player.orgId
  lineItems        := items.map fun item => {
    amountCents := item.priceCents
    name        := item.name
    description := orElse item.description (cartDescription player steamId)
    shopItemId  := some item.id }

def CheckoutInput.session (input : CheckoutInput) : CheckoutSession where
  clientReferenceId := input.playerId
  metadata          := input.metadata
  lineItems         := input.lineItems.map CheckoutLineItem.cut

section

variable {s : Store} {orgId : Id} {ids : List String} {items : List ShopItem}
  {player : CheckoutPlayer} {steamId : String} {object : Json} {sessionId : String} {cents : ℤ}
  {paid : PaidCheckout} {input : CheckoutInput}

-- The rows that a cart reads.
def Store.offered (s : Store) (ids : List String) (orgId : Id) : List ShopItem :=
  s.shopItems.filter fun i => ids.contains i.id && i.orgId = orgId && (i.active || !true)

theorem offered_key (h : (s.shopItems.map ShopItem.id).Nodup) :
    ((s.offered ids orgId).map ShopItem.id).Nodup :=
  h.sublist (List.filter_sublist.map _)

theorem Cart.mem_offered (h : Cart s orgId ids items) {item : ShopItem} :
    item ∈ s.offered ids orgId ↔ item ∈ items := by
  constructor
  case mp =>
    intro hm
    have ⟨hm, hp⟩ := List.mem_filter.mp hm
    have hi : item.id ∈ ids := by simp_all
    have ⟨item', hm', he⟩ := List.mem_map.mp (h.ids ▸ hi)
    exact List.inj_on_of_nodup_map h.key (h.rows item' hm').left hm he ▸ hm'
  case mpr =>
    intro hm
    have ⟨hs, ho, ha⟩ := h.rows item hm
    have hi : item.id ∈ ids := h.ids ▸ List.mem_map_of_mem hm
    exact List.mem_filter.mpr ⟨hs, by simp [hi, ho, ha]⟩

-- All items are found.
theorem Cart.offered_length (h : Cart s orgId ids items) (hd : ids.Nodup) :
    (s.offered ids orgId).length = ids.length := by
  have hi : (items.map ShopItem.id).Nodup := h.ids ▸ hd
  have hp : (s.offered ids orgId).Perm items :=
    (List.perm_ext_iff_of_nodup (offered_key h.key).of_map hi.of_map).mpr fun _ => h.mem_offered
  rw [hp.length_eq, ← h.ids, List.length_map]

-- The items are put into the order of the ids again.
theorem Cart.ordered (h : Cart s orgId ids items) :
    (ids.filterMap fun id => (s.offered ids orgId).find? (·.id = id)) = items := by
  have hf : ∀ item ∈ items, (s.offered ids orgId).find? (·.id = item.id) = some item :=
    fun item hm => find?_key ShopItem.id (offered_key h.key) (h.mem_offered.mpr hm)
  calc (ids.filterMap fun id => (s.offered ids orgId).find? (·.id = id))
    _ = (items.map ShopItem.id).filterMap fun id => (s.offered ids orgId).find? (·.id = id) := by
      rw [h.ids]
    _ = items.filterMap some := by
      rw [List.filterMap_map]
      exact List.filterMap_congr hf
    _ = items := List.filterMap_some

theorem Cart.nonempty (h : Cart s orgId ids items) (hc : CartIds ids) : items ≠ [] := by
  rintro rfl
  exact hc.nonempty h.ids.symm

-- The session is not refused.
theorem Cart.cartInput_chargeable (h : Cart s orgId ids items) (hc : CartIds ids) :
    ¬((player.cartInput steamId items).lineItems.isEmpty = true ∨
      (player.cartInput steamId items).lineItems.any (·.amountCents ≤ 0) = true) := by
  rintro (he | ha)
  case inl => exact h.nonempty hc (by simpa [CheckoutPlayer.cartInput] using he)
  case inr =>
    have ⟨line, hl, ha⟩ := List.any_eq_true.mp ha
    have ⟨item, hm, he⟩ := List.mem_map.mp hl
    have hp := (h.prices item hm).left
    exact absurd (of_decide_eq_true ha) (not_le.mpr (he ▸ hp))

theorem wp_createCartCheckout (h : Cart s player.orgId ids items) (hc : CartIds ids) :
    (createCartCheckout player steamId ids).wp (under stripe .none)
      (fun _ s' => s' = { s with
        sessions := s.sessions ++ [(player.cartInput steamId items).session] }) s := by
  refine wp_step (rfl : exec (.findShopItems ids player.orgId true) s =
    (.ok (s.offered ids player.orgId), s)) ?_ fun _ _ h => h.elim
  split
  case isTrue hn => exact absurd (h.offered_length hc.distinct) hn
  case isFalse   =>
    change (tryCheckout (player.cartInput steamId
      (ids.filterMap fun id => (s.offered ids player.orgId).find? (·.id = id)))).wp _ _ s
    rw [h.ordered]
    apply wp_handle.mpr
    rw [createCheckoutSession, if_neg (h.cartInput_chargeable hc)]
    exact wp_last rfl rfl fun _ _ h => h.elim

theorem Cart.listed (h : Cart s orgId ids items) (hc : CartIds ids) (player : CheckoutPlayer)
    (steamId : String) :
    ((player.cartInput steamId items).lineItems.filterMap (·.shopItemId)).filter (· ≠ "") =
      ids := by
  have hi : (player.cartInput steamId items).lineItems.filterMap (·.shopItemId) = ids := by
    rw [CheckoutPlayer.cartInput, List.filterMap_map, ← h.ids, ← List.filterMap_eq_map]
    rfl
  rw [hi]
  refine List.filter_eq_self.mpr fun id hm => ?_
  exact decide_eq_true (isShopItemId_part (hc.valid id hm)).nonempty

-- What a session lists is what it has been given.
theorem metadata_get?
    (hi : (input.lineItems.filterMap (·.shopItemId)).filter (· ≠ "") = ids) (hn : ids ≠ []) :
    (Json.obj (input.metadata.map fun (k, v) => (k, .str v))).get? "shopItemIds" =
        some (.str (joinParts ids)) ∧
      (Json.obj (input.metadata.map fun (k, v) => (k, .str v))).get? "lineAmounts" =
        some (.str (joinParts (input.lineItems.map fun item => toString item.amountCents))) := by
  have he : ids.isEmpty = false := by simpa using hn
  simp only [CheckoutInput.metadata, hi, he]
  simp [Json.get?, List.lookup_cons]

theorem parsed_cart (h : parsePaidCheckoutSession object = some paid) :
    (paid.shopItemIds = metadataItemIds ((object.get? "metadata").getD (.obj []))) ∧
    paid.lineAmounts = metadataLineAmounts ((object.get? "metadata").getD (.obj [])) := by
  simp only [parsePaidCheckoutSession] at h
  split at h
  case h_2 => cases h
  case h_1 =>
    split at h
    case h_2 => cases h
    case h_1 =>
      split at h
      case isFalse => cases h
      case isTrue  =>
        cases h
        simp only [and_self]

-- The session of a cart is read as it has been written.
theorem Cart.parsed (h : Cart s orgId ids items) (hc : CartIds ids)
    (hp : (player.cartInput player.syntheticSteam items).session.Paid object sessionId cents) :
    ∃ paid, (parsePaidCheckoutSession object = some paid) ∧ (paid.orgId = player.orgId) ∧
      (paid.shopItemIds = ids) ∧ paid.lineAmounts = items.map ShopItem.priceCents := by
  have ⟨paid, hpp, _, _, _, _, ho, _⟩ := hp.parsed ⟨_, rfl⟩
  have ⟨hi, ha⟩ := parsed_cart hpp
  rw [hp.metadata, Option.getD_some] at hi ha
  have ⟨hgi, hga⟩ := metadata_get? (h.listed hc player player.syntheticSteam) hc.nonempty
  have hl : (player.cartInput player.syntheticSteam items).lineItems.map (toString ·.amountCents) =
      (items.map ShopItem.priceCents).map toString := by
    rw [CheckoutPlayer.cartInput, List.map_map, List.map_map]
    rfl
  rw [hl] at hga
  have hn : items.map ShopItem.priceCents ≠ [] := by simpa using h.nonempty hc
  have hr := readLineAmounts hn (List.forall_mem_map.mpr h.prices) hga
  exact ⟨paid, hpp, ho, hi.trans (hc.read hgi), ha.trans hr⟩

end

-- The rows of the database by their ids.
structure Keys where
  org    : String → Jobs.OrgId
  server : String → Jobs.ServerId
  player : String → Donations.PlayerId
  item   : String → Donations.ShopItemId

def PaidCheckout.keyed (paid : PaidCheckout) (keys : Keys) : Donations.Paid where
  orgId            := keys.org paid.orgId
  serverInstanceId := keys.server paid.serverInstanceId
  playerId         := keys.player paid.playerId
  shopItemIds      := paid.shopItemIds.map keys.item
  lineAmounts      := paid.lineAmounts

-- The line of a shop item that has been bought for some price. It keeps its price even if the shop
-- does not have the item anymore.
structure BoughtLine (t : Donations.Store) (orgId : Jobs.OrgId) (id : Donations.ShopItemId)
    (cents : ℤ) (line : Donations.LineRow) : Prop where
  amountCents : line.amountCents = cents
  quantity    : line.quantity = 1
  shopItemId  : line.shopItemId = ((t.shopItems[id]?).filter (·.orgId = orgId)).map fun _ => id

section

variable {s : Store} {t : Donations.Store} {keys : Keys} {player : CheckoutPlayer}
  {cart : Option Json} {ids : List String} {items : List ShopItem} {paid : Donations.Paid}

-- The lines before those without an amount are dropped.
def donationLines (t : Donations.Store) (paid : Donations.Paid) : List Donations.LineRow :=
  let items := t.shopItems.entries.filter fun (id, item) =>
    item.orgId = paid.orgId && paid.shopItemIds.contains id
  paid.shopItemIds.mapIdx fun index id =>
    Donations.buildDonationLine items paid.lineAmounts id index

theorem wp_buildDonationLines (hn : paid.shopItemIds ≠ []) :
    (Donations.buildDonationLines paid).wp (under Donations.shop .none)
      (fun r t' => t' = t ∧ r = .ok ((donationLines t paid).filter (·.amountCents > 0))) t := by
  rw [Donations.buildDonationLines, if_neg (by simpa using hn)]
  exact wp_step rfl ⟨rfl, rfl⟩ fun _ _ h => h.elim

theorem donationLines_bought {index : Nat} {id : Donations.ShopItemId} {cents : ℤ}
    (hi : paid.shopItemIds[index]? = some id) (ha : paid.lineAmounts[index]? = some cents) :
    ∃ line, ((donationLines t paid)[index]? = some line) ∧
      BoughtLine t paid.orgId id cents line := by
  have hm : id ∈ paid.shopItemIds := List.mem_of_getElem? hi
  refine ⟨_, by rw [donationLines, List.getElem?_mapIdx, hi]; rfl, ?_, rfl, ?_⟩
  case refine_1 => simp [Donations.buildDonationLine, ha]
  case refine_2 =>
    simp only [Donations.buildDonationLine, Table.lookup_filter_entries]
    simp [hm]

-- One line for each item, in the order of the items.
theorem donationLines_items {key : ShopItem → Donations.ShopItemId}
    (hi : paid.shopItemIds = items.map key)
    (ha : paid.lineAmounts = items.map ShopItem.priceCents) :
    List.Forall₂ (fun item line => BoughtLine t paid.orgId (key item) item.priceCents line) items
      (donationLines t paid) := by
  have hl : (donationLines t paid).length = items.length := by
    rw [donationLines, List.length_mapIdx, hi, List.length_map]
  refine List.forall₂_iff_get.mpr ⟨hl.symm, fun index hn hm => ?_⟩
  have hi : paid.shopItemIds[index]? = some (key (items.get ⟨index, hn⟩)) := by
    rw [hi, List.getElem?_map, List.getElem?_eq_getElem hn]
    rfl
  have ha : paid.lineAmounts[index]? = some (items.get ⟨index, hn⟩).priceCents := by
    rw [ha, List.getElem?_map, List.getElem?_eq_getElem hn]
    rfl
  have ⟨line, hg, hb⟩ := donationLines_bought (t := t) hi ha
  have hg : line = (donationLines t paid).get ⟨index, hm⟩ :=
    Option.some.inj (hg.symm.trans (List.getElem?_eq_getElem hm))
  exact hg ▸ hb

-- None of the lines is dropped.
theorem bought_filter {key : ShopItem → Donations.ShopItemId} {orgId : Jobs.OrgId}
    {lines : List Donations.LineRow}
    (h : List.Forall₂ (fun item line => BoughtLine t orgId (key item) item.priceCents line) items
      lines)
    (hp : ∀ item ∈ items, IsPrice item.priceCents) : lines.filter (·.amountCents > 0) = lines := by
  induction h
  case nil => rfl
  case cons item line items lines hb _ hi =>
    have ⟨hp, hps⟩ := List.forall_mem_cons.mp hp
    have hd : decide (line.amountCents > 0) = true := decide_eq_true (hb.amountCents ▸ hp.left)
    simp only [List.filter_cons, hd, if_true, hi hps]

-- A cart comes back from its paid session as it was, and makes one line for each of its items,
-- whose amount is the price that the item had at the checkout. This does not depend on what the
-- shop has become in the meantime.
theorem cart_round_trip (hc : parseShopItemIds cart = some ids)
    (hi : Cart s player.orgId ids items) : ∃ session,
      (((createCartCheckout player player.syntheticSteam ids).run [] s).state.sessions =
        s.sessions ++ [session]) ∧
      ∀ object sessionId cents, session.Paid object sessionId cents → ∃ paid,
        (parsePaidCheckoutSession object = some paid) ∧ (paid.shopItemIds = ids) ∧
        (paid.lineAmounts = items.map ShopItem.priceCents) ∧
        ∀ (keys : Keys) (t : Donations.Store), ∃ lines,
          (((Donations.buildDonationLines (paid.keyed keys)).run [] t).result = .ok lines) ∧
          List.Forall₂ (fun item line => BoughtLine t (keys.org player.orgId) (keys.item item.id)
            item.priceCents line) items lines := by
  have hc := parseShopItemIds_some hc
  refine ⟨_, congrArg Store.sessions (wp_run_nil (wp_createCartCheckout hi hc)), ?_⟩
  intro object sessionId cents hp
  have ⟨paid, hpp, ho, hpi, hpa⟩ := hi.parsed hc hp
  refine ⟨paid, hpp, hpi, hpa, fun keys t => ?_⟩
  have hk : (paid.keyed keys).shopItemIds = items.map fun item => keys.item item.id := by
    rw [PaidCheckout.keyed, hpi, ← hi.ids, List.map_map]
    rfl
  have hn : (paid.keyed keys).shopItemIds ≠ [] := by
    rw [hk]
    simpa using hi.nonempty hc
  have hl := donationLines_items (t := t) hk hpa
  have hr := (wp_run_nil (wp_buildDonationLines (t := t) hn)).right
  rw [bought_filter hl hi.prices] at hr
  exact ⟨_, hr, ho ▸ hl⟩

end

def ShopItem.sample (id : String) (priceCents : ℤ) : ShopItem where
  id          := id
  orgId       := Player.sample.orgId
  name        := "Sword"
  description := ""
  priceCents  := priceCents
  active      := true

-- A shop with two items.
def Store.stocked : Store :=
  { Store.sample with shopItems := [.sample "iron_sword_1" 250, .sample "gold_apple_2" 1000] }

def CheckoutPlayer.sample : CheckoutPlayer :=
  Player.sample.signedIn Player.sampleId .steam

theorem paidObject_paid (session : CheckoutSession) :
    session.Paid (session.paidObject 1250) "cs_1" 1250 where
  id       :=
    have hs : stripeObjectId (some (.str "cs_1")) = some "cs_1" := by decide +kernel
    hs
  status   := rfl
  amount   := rfl
  positive := by decide
  metadata := rfl

theorem stocked_cart : Cart .stocked CheckoutPlayer.sample.orgId ["gold_apple_2", "iron_sword_1"]
    [.sample "gold_apple_2" 1000, .sample "iron_sword_1" 250] where
  key    := by decide
  rows   := by
    simp [Store.stocked, ShopItem.sample, CheckoutPlayer.sample, Player.signedIn, Player.sample]
  ids    := rfl
  prices := by simp [IsPrice, ShopItem.sample]

def Keys.sample : Keys where
  org _    := 0
  server _ := 0
  player _ := 0
  item id  := if id = "iron_sword_1" then 0 else 1

-- The items are bought in an order of the player's choice, and deleted before they are paid.
theorem cart_round_trip_deleted : ∃ session paid lines,
    (((createCartCheckout .sample CheckoutPlayer.sample.syntheticSteam
      ["gold_apple_2", "iron_sword_1"]).run [] .stocked).state.sessions = [session]) ∧
    (parsePaidCheckoutSession (session.paidObject 1250) = some paid) ∧
    (((Donations.buildDonationLines (paid.keyed .sample)).run [] {}).result = .ok lines) ∧
    lines.map (·.amountCents) = [1000, 250] := by
  have hc : parseShopItemIds (some (.arr [.str " gold_apple_2 ", .str "iron_sword_1"])) =
      some ["gold_apple_2", "iron_sword_1"] := by decide +kernel
  have ⟨session, hs, hr⟩ := cart_round_trip hc stocked_cart
  have ⟨paid, hp, _, _, hl⟩ := hr _ _ _ (paidObject_paid session)
  have ⟨lines, hb, hl⟩ := hl .sample {}
  refine ⟨session, paid, lines, hs, hp, hb, ?_⟩
  cases hl
  case cons h₁ hl =>
    cases hl
    case cons h₂ hl =>
      cases hl
      simp [h₁.amountCents, h₂.amountCents, ShopItem.sample]

end Payments
