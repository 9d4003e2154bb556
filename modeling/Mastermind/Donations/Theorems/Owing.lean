import Mastermind.Donations.Theorems.Store

open Effects Prog Jobs

namespace Donations

-- The item still has to be given, or its job has not been answered.
def LineGrantItem.owed (item : LineGrantItem) : Bool :=
  item.status = .pending || item.status = .queued

def LineGrantItem.known (item : LineGrantItem) : Prop :=
  item.owed = true ∨ item.status = .delivered ∨ item.status = .failed

variable {s : Store} {line : DonationLine} {data : LineData} {id : LineId}
  {items before after rest : List LineGrantItem} {item grant : LineGrantItem}
  {lines : List (LineId × DonationLine)} {n : Nat} {c : Cmd}

theorem owed_iff : item.owed = true ↔ item.status = .pending ∨ item.status = .queued := by
  simp [LineGrantItem.owed]

theorem aggregateGrantStatus_of_owed (h : item ∈ items) (ho : item.owed = true) :
    aggregateGrantStatus items = "pending" ∨ aggregateGrantStatus items = "queued" := by
  have hd : ¬items.all (·.status = .delivered) = true := by
    intro hd
    have hd : item.status = .delivered := by simpa using List.all_eq_true.mp hd item h
    simp [LineGrantItem.owed, hd, ItemStatus.delivered, ItemStatus.pending, ItemStatus.queued] at ho
  have hf : ¬items.all (·.status = .failed) = true := by
    intro hf
    have hf : item.status = .failed := by simpa using List.all_eq_true.mp hf item h
    simp [LineGrantItem.owed, hf, ItemStatus.failed, ItemStatus.pending, ItemStatus.queued] at ho
  have hn : ¬items.isEmpty = true := by simp [List.ne_nil_of_mem h]
  simp only [aggregateGrantStatus, hn, hd, hf, if_false, Bool.false_eq_true]
  cases owed_iff.mp ho
  case inl hp =>
    have ha : items.any (·.status = .pending) = true :=
      List.any_eq_true.mpr ⟨item, h, decide_eq_true hp⟩
    exact .inl (if_pos ha)
  case inr hq =>
    have ha : items.any (·.status = .queued) = true :=
      List.any_eq_true.mpr ⟨item, h, decide_eq_true hq⟩
    by_cases hp : items.any (·.status = .pending) = true
    case pos => exact .inl (if_pos hp)
    case neg => exact .inr ((if_neg hp).trans (if_pos ha))

theorem aggregateGrantStatus_of_settled
    (h : ∀ item ∈ items, item.status = .delivered ∨ item.status = .failed) :
    aggregateGrantStatus items ∈ ["none", "delivered", "failed", "partial"] := by
  have ho : ∀ item ∈ items, item.status ≠ .pending ∧ item.status ≠ .queued := by
    intro item hm
    cases h item hm <;> rename_i hs <;> simp only [hs] <;> decide
  rw [aggregateGrantStatus]
  split
  case isTrue  => decide
  case isFalse =>
    split
    case isTrue     => decide
    case isFalse hd =>
      split
      case isTrue     => decide
      case isFalse hf =>
        have hp : items.any (·.status = .pending) = false := by simpa using fun i hi => (ho i hi).left
        have hq : items.any (·.status = .queued) = false := by simpa using fun i hi => (ho i hi).right
        -- Both statuses occur, since neither is the status of all items.
        have hd : items.any (·.status = .failed) = true := by
          simp only [List.all_eq_true, decide_eq_true_eq, not_forall] at hd
          have ⟨i, hi, hn⟩ := hd
          exact List.any_eq_true.mpr ⟨i, hi, decide_eq_true ((h i hi).resolve_left hn)⟩
        have hf : items.any (·.status = .delivered) = true := by
          simp only [List.all_eq_true, decide_eq_true_eq, not_forall] at hf
          have ⟨i, hi, hn⟩ := hf
          exact List.any_eq_true.mpr ⟨i, hi, decide_eq_true ((h i hi).resolve_right hn)⟩
        simp [hp, hq, hd, hf]

theorem aggregateGrantStatus_owes (h : ∀ item ∈ items, item.known) :
    (aggregateGrantStatus items = "pending" ∨ aggregateGrantStatus items = "queued") ↔
      ∃ item ∈ items, item.owed = true := by
  constructor
  case mpr => exact fun ⟨item, hm, ho⟩ => aggregateGrantStatus_of_owed hm ho
  case mp  =>
    intro ha
    by_contra hn
    have hs := aggregateGrantStatus_of_settled fun item hm =>
      (h item hm).resolve_left fun ho => hn ⟨item, hm, ho⟩
    cases ha <;> rename_i ha <;> rw [ha] at hs <;> exact absurd hs (by decide)

-- The status of a line tells whether the line owes an item.
structure Sound (line : DonationLine) : Prop where
  known : ∀ item ∈ line.items, item.known
  owes  : line.owes = true ↔ ∃ item ∈ line.items, item.owed = true

theorem owes_iff : line.owes = true ↔ line.grantStatus = "pending" ∨ line.grantStatus = "queued" := by
  simp [DonationLine.owes]

theorem Sound.of_aggregate (hk : ∀ item ∈ line.items, item.known)
    (hs : line.grantStatus = aggregateGrantStatus line.items) : Sound line where
  known := hk
  owes  := by rw [owes_iff, hs]; exact aggregateGrantStatus_owes hk

-- All items are written, together with their summary.
theorem Sound.write (hd : data.grantItems = some items)
    (hs : data.grantStatus = some (aggregateGrantStatus items))
    (hl : items.length = line.items.length) (hk : ∀ item ∈ items, item.known) :
    Sound (data.apply line) := by
  have hi := items_apply hd hl
  apply Sound.of_aggregate <;> rw [hi]
  case hk => exact hk
  case hs => simp [LineData.apply, hs]

-- The status is written alone while an item is owed.
theorem Sound.restore (h : Sound line) (hd : data.grantItems = none)
    (hs : data.grantStatus = some "pending") (ho : ∃ item ∈ line.items, item.owed = true) :
    Sound (data.apply line) := by
  have hi : (data.apply line).items = line.items := items_apply_none hd
  constructor <;> rw [hi]
  case known => exact h.known
  case owes  => exact iff_of_true (owes_iff.mpr <| .inl <| by simp [LineData.apply, hs]) ho

def AllSound (s : Store) : Prop :=
  ∀ id line, s.line? id = some line → Sound line

theorem AllSound.updateLine (h : AllSound s)
    (hd : ∀ line, s.line? id = some line → Sound (data.apply line)) :
    AllSound (s.updateLine id data) := by
  intro k line hk
  rw [line?_updateLine] at hk
  split at hk
  case isFalse => exact h k line hk
  case isTrue hik =>
    subst hik
    have ⟨line', hl, he⟩ := Option.map_eq_some_iff.mp hk
    exact he ▸ hd line' hl

-- A delivery that has treated the first items of a line. The lines that follow are as they were read.
structure Delivering (id : LineId) (n : Nat) (rest : List LineGrantItem)
    (lines : List (LineId × DonationLine)) (s : Store) : Prop where
  sound  : AllSound s
  line   : ∃ line treated, s.line? id = some line ∧ line.items = treated ++ rest ∧ treated.length = n
  others : ∀ e ∈ lines, e.1 ≠ id ∧ s.line? e.1 = some e.2

theorem Delivering.next (h : Delivering id n (grant :: after) lines s) :
    Delivering id (n + 1) after lines s where
  sound  := h.sound
  others := h.others
  line   := by
    have ⟨line, treated, hl, hi, hn⟩ := h.line
    exact ⟨line, treated ++ [grant], hl, by simp [hi], by simp [hn]⟩

theorem Delivering.known (h : Delivering id n (grant :: after) lines s) :
    ∀ item ∈ grant :: after, item.known := by
  intro item hm
  have ⟨line, treated, hl, hi, _⟩ := h.line
  exact (h.sound id line hl).known item (hi ▸ List.mem_append_right _ hm)

theorem Delivering.updateLine {rest' : List LineGrantItem} (h : Delivering id n rest lines s)
    (hs : ∀ line, s.line? id = some line → Sound (data.apply line))
    (hi : ∀ line treated, s.line? id = some line → line.items = treated ++ rest →
      treated.length = n → ∃ treated', (data.apply line).items = treated' ++ rest' ∧ treated'.length = n) :
    Delivering id n rest' lines (s.updateLine id data) where
  sound := h.sound.updateLine hs
  line  := by
    have ⟨line, treated, hl, ht, hn⟩ := h.line
    have ⟨treated', ht', hn'⟩ := hi line treated hl ht hn
    exact ⟨data.apply line, treated', by simp [line?_updateLine, hl], ht', hn'⟩
  others e he := by
    have ⟨hn, hl⟩ := h.others e he
    exact ⟨hn, by rw [line?_updateLine, if_neg hn.symm]; exact hl⟩

-- All items are written, those from the current one on being given by `rest'`.
theorem Delivering.write {rest' : List LineGrantItem} (h : Delivering id before.length rest lines s)
    (hl : rest'.length = rest.length) (hk : ∀ item ∈ before ++ rest', item.known)
    (hd : data.grantItems = some (before ++ rest'))
    (hs : data.grantStatus = some (aggregateGrantStatus (before ++ rest'))) :
    Delivering id before.length rest' lines (s.updateLine id data) := by
  have hlen : ∀ (line : DonationLine) treated, line.items = treated ++ rest →
      treated.length = before.length → (before ++ rest').length = line.items.length := by
    intro line treated ht hn
    simp [ht, hn, hl]
  apply h.updateLine
  case hs =>
    intro line hline
    have ⟨line', treated, hline', ht, hn⟩ := h.line
    cases hline.symm.trans hline'
    exact Sound.write hd hs (hlen line treated ht hn) hk
  case hi => exact fun line treated _ ht hn => ⟨before, items_apply hd (hlen line treated ht hn), rfl⟩

-- The item at which the delivery stands is owed.
def Standing (id : LineId) (n : Nat) (after : List LineGrantItem)
    (lines : List (LineId × DonationLine)) (s : Store) : Prop :=
  ∃ grant, grant.owed = true ∧ Delivering id n (grant :: after) lines s

theorem Standing.restore (h : Standing id n after lines s) (hd : data.grantItems = none)
    (hs : data.grantStatus = some "pending") : Standing id n after lines (s.updateLine id data) := by
  have ⟨grant, ho, h⟩ := h
  refine ⟨grant, ho, h.updateLine ?_ ?_⟩
  case refine_1 =>
    intro line hline
    have ⟨line', treated, hline', ht, _⟩ := h.line
    cases hline.symm.trans hline'
    exact (h.sound id line hline).restore hd hs ⟨grant, by simp [ht], ho⟩
  case refine_2 =>
    intro line treated _ ht hn
    exact ⟨treated, by rw [items_apply_none hd, ht], hn⟩

-- The commands of `queueShopGrantJob`: either all items of the line are written or the status alone.
def Queues (id : LineId) (items : List LineGrantItem) : Cmd → Prop
  | .now | .createJob _  => True
  | .updateLine k data _ => k = id ∧
    ((data.grantItems = some items ∧ data.grantStatus = some (aggregateGrantStatus items)) ∨
      (data.grantItems = none ∧ data.grantStatus = some "pending"))
  | _ => False

theorem queueShopGrantJob_only {orgId : OrgId} {userId : UserId} {serverInstanceId : ServerId}
    {command : String} {index : Nat} {seen : List LineGrantItem} (hi : data.grantItems = some items)
    (hs : data.grantStatus = some (aggregateGrantStatus items)) :
    (queueShopGrantJob orgId userId serverInstanceId id command data index seen).Only
      (Queues id items) := by
  refine .handle ?_ fun _ => ?_
  case refine_1 =>
    refine .bind (.perform trivial) fun now => .bind (.perform ⟨rfl, .inl ⟨hi, hs⟩⟩) fun _ => ?_
    exact .bind (.perform trivial) fun _ => .pure
  case refine_2 =>
    exact .bind (.handle (.perform ⟨rfl, .inr ⟨rfl, rfl⟩⟩) fun _ => .pure) fun _ => .pure

theorem Standing.exec (h : Standing id before.length after lines s) (ho : grant.owed = true)
    (hk : ∀ item ∈ before ++ grant :: after, item.known)
    (hc : Queues id (before ++ grant :: after) c) :
    Standing id before.length after lines (exec c s).2 := by
  cases c
  case now       => exact h
  case createJob =>
    have ⟨grant, ho, h⟩ := h
    exact ⟨grant, ho, h.sound, h.line, h.others⟩
  case updateLine k data basis =>
    have ⟨_, _, hd⟩ := h
    have ⟨line, _, hl, _⟩ := hd.line
    obtain ⟨rfl, ⟨hi, hs⟩ | ⟨hi, hs⟩⟩ := hc <;> rw [exec_updateLine hl]
    case inl => exact ⟨grant, ho, hd.write (by simp) hk hi hs⟩
    case inr => exact h.restore hi hs
  all_goals exact hc.elim

theorem owed_of_isDue {stale : Bool} (h : isDue stale grant = true) : grant.owed = true := by
  simp only [isDue, Bool.or_eq_true, Bool.and_eq_true, decide_eq_true_eq] at h
  exact owed_iff.mpr (h.imp id And.left)

-- The status of all lines is right, and the given lines have not been written since they were read.
structure Remaining (lines : List (LineId × DonationLine)) (s : Store) : Prop where
  sound : AllSound s
  read  : ∀ e ∈ lines, s.line? e.1 = some e.2

theorem Delivering.remaining (h : Delivering id n rest lines s) : Remaining lines s :=
  ⟨h.sound, fun e he => (h.others e he).right⟩

section

variable {d : Delivery} {userId : UserId} {stale : Bool} {seen : List LineGrantItem} {queued : Nat}

theorem Delivering.wp_deliverItems (h : Delivering id before.length rest lines s)
    (hb : ∀ item ∈ before, item.known) :
    (deliverItems d userId id stale seen before queued rest).wp (under shop .any)
      (fun _ => Remaining lines) s := by
  induction rest generalizing s before seen queued
  case nil => exact h.remaining
  case cons grant after hi =>
    -- What is known of the items if the current one gets a known status.
    have hk : ∀ {g : LineGrantItem}, g.known → ∀ item ∈ before ++ g :: after, item.known := by
      intro g hg item hm
      cases List.mem_append.mp hm
      case inl hm => exact hb item hm
      case inr hm =>
        cases List.mem_cons.mp hm
        case inl he => exact he ▸ hg
        case inr hm => exact h.known item (List.mem_cons_of_mem _ hm)
    have hb' : ∀ {g : LineGrantItem}, g.known → ∀ item ∈ before ++ [g], item.known := by
      intro g hg item hm
      exact hk hg item (List.mem_append.mpr <| (List.mem_append.mp hm).imp_right (by simp +contextual))
    have hg : grant.known := h.known grant List.mem_cons_self
    rw [deliverItems]
    split
    case isTrue  => exact h.remaining
    case isFalse =>
      split
      case isFalse    => exact hi (by simpa using h.next) (hb' hg)
      case isTrue hdue =>
        have ho : grant.owed = true := owed_of_isDue hdue.left
        split
        case h_1 =>
          have hf : grant.rejected.known := .inr (.inr rfl)
          have ⟨line, _, hl, _⟩ := h.line
          refine wp_step (exec_updateLine hl) ?_ fun _ _ _ => ⟨h.remaining, h.remaining⟩
          refine hi ?_ (hb' hf)
          rw [List.length_append]
          exact Delivering.next (h.write (by simp) (hk hf) rfl rfl)
        case h_2 =>
          have ht : (grant.tried hdue.right).owed = true := rfl
          have hp : grant.postponed.owed = true := rfl
          have hx : ∀ s c, Queues id (before ++ grant.tried hdue.right :: after) c →
              Standing id before.length after lines s →
              Standing id before.length after lines (exec c s).2 :=
            fun s c hc hs => hs.exec ht (hk (.inl ht)) hc
          refine wp_bind_via (Only.wp_under (queueShopGrantJob_only rfl rfl) hx ⟨grant, ho, h⟩) ?_ ?_
          case refine_1 => exact fun s ⟨_, _, h⟩ => h.remaining
          case refine_2 =>
            intro ok s ⟨_, _, h⟩
            split
            case isTrue  => exact hi (by simpa using h.next) (hb' (.inl ht))
            case isFalse => exact hi (by simpa using h.next) (hb' (.inl hp))

theorem Remaining.wp_deliverLines {staleBefore : ℤ} (h : Remaining lines s)
    (hd : (lines.map Prod.fst).Nodup) :
    (deliverLines d userId staleBefore queued lines).wp (under shop .any) (fun _ => AllSound) s := by
  induction lines generalizing s queued
  case nil => exact h.sound
  case cons e lines hi =>
    have ⟨hn, hd⟩ := List.nodup_cons.mp hd
    have hr : Remaining lines s := ⟨h.sound, fun e he => h.read e (List.mem_cons_of_mem _ he)⟩
    rw [deliverLines]
    split
    case isTrue  => exact h.sound
    case isFalse =>
      split
      case isTrue  => exact hi hr hd
      case isFalse =>
        have hs : Delivering e.1 [].length e.2.items lines s := {
          sound  := h.sound
          line   := ⟨e.2, [], h.read e List.mem_cons_self, rfl, rfl⟩
          others := fun e' he => ⟨fun hk => hn (List.mem_map.mpr ⟨e', he, hk⟩), hr.read e' he⟩ }
        exact wp_bind_via (hs.wp_deliverItems (fun _ h => nomatch h)) (fun _ h => h.sound)
          fun _ _ h => hi h hd

end

theorem AllSound.wp_deliverShopGrantLines {d : Delivery} (h : AllSound s) :
    (deliverShopGrantLines d).wp (under shop .any) (fun _ => AllSound) s := by
  refine wp_step (rfl : exec (.findFirstMember d.orgId) s = (.ok _, s)) ?_ fun _ _ _ => ⟨h, h⟩
  split
  case h_1 => exact h
  case h_2 =>
    refine wp_step (rfl : exec .now s = (.ok s.clock, s)) ?_ fun _ _ _ => ⟨h, h⟩
    refine wp_step (rfl : exec (.findDueLines d.playerId d.orgId d.serverInstanceId) s = (.ok _, s)) ?_
      fun _ _ _ => ⟨h, h⟩
    have hs : List.Sublist ((s.dueLines d.playerId d.orgId d.serverInstanceId).take 16) s.lines.entries :=
      (List.take_sublist _ _).trans List.filter_sublist
    have hr : Remaining ((s.dueLines d.playerId d.orgId d.serverInstanceId).take 16) s :=
      ⟨h, fun e he => Table.mem_entries.mp (hs.subset he)⟩
    exact hr.wp_deliverLines ((hs.map _).nodup Table.entries_keys_nodup)

theorem answeredItems_known {a : Answer} {target : Option Nat} (h : ∀ item ∈ items, item.known) :
    ∀ item ∈ answeredItems a items target, item.known := by
  cases target
  case none => exact h
  case some index =>
    intro item hm
    have ⟨i, hi⟩ := List.getElem?_of_mem hm
    rw [answeredItems, List.getElem?_modify] at hi
    have ⟨g, hg, he⟩ := Option.map_eq_some_iff.mp hi
    split at he
    case isFalse => exact he ▸ h g (List.mem_of_getElem? hg)
    case isTrue  =>
      rw [← he]
      cases ho : a.outcome <;> simp [LineGrantItem.known, LineGrantItem.owed, GrantOutcome.next]

theorem length_answeredItems {a : Answer} {target : Option Nat} :
    (answeredItems a items target).length = items.length := by
  cases target <;> simp [answeredItems]

-- Looking at the clock changes nothing.
theorem wp_grantTime {D : Disturbance shop} {grantStatus : String} :
    (grantTime grantStatus).wp (under shop D) (fun r s' => r.isOk = true ∧ s' = s) s := by
  rw [grantTime]
  split
  case isTrue  => exact wp_step (rfl : exec .now s = (.ok s.clock, s)) ⟨rfl, rfl⟩ fun _ h => nomatch h
  case isFalse => exact ⟨rfl, rfl⟩

theorem AllSound.wp_finishShopGrant {payload : GrantPayload} {a : Answer} (h : AllSound s) :
    (finishShopGrant payload a).wp (under shop .any) (fun _ => AllSound) s := by
  rw [finishShopGrant]
  split
  case isTrue  => exact h
  case isFalse =>
    refine wp_step (rfl : exec (.findLine payload.donationLineId) s = (.ok _, s)) ?_
      fun _ _ _ => ⟨h, h⟩
    split
    case h_1 => exact h
    case h_2 line hl =>
      have hk : ∀ item ∈ answeredItems a line.items (targetItem payload line.items), item.known :=
        answeredItems_known (h _ _ hl).known
      refine wp_bind_via (wp_mono wp_grantTime fun _ _ h => h.right) (fun _ he => he ▸ h)
        fun grantedAt _ he => ?_
      subst he
      refine wp_last (exec_updateLine hl) ?_ fun _ _ _ => ⟨h, h⟩
      apply h.updateLine
      intro line' hl'
      cases hl.symm.trans hl'
      exact Sound.write rfl rfl length_answeredItems hk

theorem length_shopItemGrants {item : Option ShopItem} :
    (shopItemGrants item).length ≤ maxGrantItems := by
  rw [shopItemGrants.eq_def]
  split
  case h_1 h => exact length_parseGrantItemList h
  case h_2   =>
    simp only
    generalize hp : parseGrantItemList _ = specs
    cases specs
    case none => exact Nat.zero_le _
    case some => exact length_parseGrantItemList hp

-- A line whose items nobody has tried to give.
def Fresh (line : DonationLine) : Prop :=
  (∃ specs, line.items = snapshotLineGrants specs) ∧ line.grantStatus = aggregateGrantStatus line.items

theorem Fresh.of_row {items : List (ShopItemId × ShopItem)} {amounts : List ℤ} {shopItemId : ShopItemId}
    {index : Nat} {donationId : DonationId} :
    Fresh { buildDonationLine items amounts shopItemId index with donationId } := by
  have hi : DonationLine.items { buildDonationLine items amounts shopItemId index with donationId } =
      snapshotLineGrants (shopItemGrants (items.lookup shopItemId)) := by
    apply lineGrantItems_of_short
    case hl => simpa using length_shopItemGrants
    case hn => exact fun h => congrArg (fun items => items.head?.map (·.name.val)) h
  exact ⟨⟨_, hi⟩, by rw [hi]; rfl⟩

theorem Fresh.sound (h : Fresh line) : Sound line := by
  have ⟨⟨specs, hi⟩, hs⟩ := h
  refine Sound.of_aggregate (fun item hm => ?_) hs
  have ⟨spec, _, he⟩ := List.mem_map.mp (hi ▸ hm)
  exact he ▸ .inl rfl

-- Fresh lines have been added.
def Stocked (s s' : Store) : Prop :=
  s'.jobs = s.jobs ∧ ∃ new, s'.lines = s.lines ++ new ∧ ∀ line ∈ new, Fresh line

theorem Stocked.refl : Stocked s s :=
  ⟨rfl, [], by simp, fun _ h => nomatch h⟩

theorem Stocked.old_or_fresh {s' : Store} (h : Stocked s s') (hl : s'.line? id = some line) :
    s.line? id = some line ∨ Fresh line := by
  have ⟨_, new, he, hf⟩ := h
  simp only [Store.line?, he, List.getElem?_append] at hl
  split at hl
  case isTrue  => exact .inl hl
  case isFalse => exact .inr (hf line (List.mem_of_getElem? hl))

-- The rows that `buildDonationLines` returns.
def Built (s : Store) : Result Exception (List LineRow) → Store → Prop
  | .ok rows, s' => s' = s ∧
    ∀ row ∈ rows, ∃ items amounts shopItemId index, row = buildDonationLine items amounts shopItemId index
  | _, s'        => s' = s

theorem wp_buildDonationLines {paid : Paid} :
    (buildDonationLines paid).wp (under shop .any) (Built s) s := by
  rw [buildDonationLines]
  split
  case isTrue  => exact ⟨rfl, fun _ h => nomatch h⟩
  case isFalse =>
    refine wp_step (rfl : exec (.findShopItems paid.orgId paid.shopItemIds) s = (.ok _, s)) ?_
      fun _ _ _ => ⟨rfl, rfl⟩
    refine ⟨rfl, fun row hm => ?_⟩
    have ⟨index, hi, he⟩ := List.mem_mapIdx.mp (List.mem_of_mem_filter hm)
    exact ⟨_, _, _, index, he.symm⟩

theorem wp_completeSession {paid : Paid} :
    (completeSession paid).wp (under shop .any) (fun _ => Stocked s) s := by
  apply wp_bind.mpr
  apply wp_mono wp_buildDonationLines
  intro r s' hb
  cases r
  case error => exact hb ▸ .refl
  case ended => exact hb ▸ .refl
  case ok rows =>
    obtain ⟨rfl, hb⟩ := hb
    refine wp_last (rfl : exec (.createDonation _ rows) s' = (.ok (), _)) ?_
      fun _ _ _ => ⟨.refl, .refl⟩
    refine ⟨rfl, _, rfl, fun line hm => ?_⟩
    have ⟨row, hm, he⟩ := List.mem_map.mp hm
    have ⟨_, _, _, _, hr⟩ := hb row hm
    exact he ▸ hr ▸ .of_row

theorem AllSound.next {op : Op} (h : AllSound s) : AllSound (sequential.next s op) := by
  have hd : ∀ r : Run shop Unit, Run.Within .any r := fun _ _ _ _ => trivial
  cases op
  case complete paid fates =>
    have hs : Stocked s ((completeSession paid).run fates s).state := wp_run wp_completeSession (hd _)
    exact fun id line hl => (hs.old_or_fresh hl).elim (h id line) Fresh.sound
  case deliver d fates     => exact wp_run h.wp_deliverShopGrantLines (hd _)
  case elapse ms           => exact h
  case answer id a fates   =>
    simp only
    split
    case h_1 => exact wp_run (AllSound.wp_finishShopGrant (s := s.answer id a) h) (hd _)
    case h_2 => exact h

-- The status of a line tells whether the line owes an item, so that the query for the deliveries
-- finds the lines that do.
theorem owing_exact {ops : List Op} (hs : s.lines = [])
    (h : (sequential.run s ops).line? id = some line) :
    ((line.grantStatus = "pending" ∨ line.grantStatus = "queued") ↔
      ∃ item ∈ lineGrantItems line.grantItems line.grantItemName line.grantQuantity,
        item.status = .pending ∨ item.status = .queued) ∧
    ∀ playerId orgId serverInstanceId,
      (id, line) ∈ (sequential.run s ops).dueLines playerId orgId serverInstanceId ↔
        (∃ item ∈ line.items, item.status = .pending ∨ item.status = .queued) ∧
        ∃ d, ((sequential.run s ops).donations[line.donationId]? = some d) ∧
          d.playerId = playerId ∧ d.orgId = orgId ∧ d.serverInstanceId = serverInstanceId ∧
          d.status = "completed" := by
  have ha : AllSound (sequential.run s ops) := by
    apply System.always fun _ _ h => h.next
    intro id line hl
    simp [Store.line?, hs] at hl
  have ho := (ha id line h).owes
  simp only [owed_iff] at ho
  refine ⟨owes_iff.symm.trans ho, fun playerId orgId serverInstanceId => ?_⟩
  have hm : (id, line) ∈ (sequential.run s ops).lines.entries := Table.mem_entries.mpr h
  simp only [Store.dueLines, List.mem_filter, hm, true_and, Bool.and_eq_true, Option.any_eq_true,
    decide_eq_true_eq, ho, and_assoc]

-- The job of the first item is created and succeeds, that of the second item is not created.
def halfDelivered : List Op :=
  [.complete .sample [], .deliver .sample [.served, .served, .served, .served, .served, .failed],
    .elapse 1000, .answer 0 { runStatus := "success", output := "Gave 2 [Diamond] to Steve" } []]

theorem owing_exact_halfDelivered :
    ∃ line, ((sequential.run .sample halfDelivered).line? 0 = some line) ∧
      ((line.grantStatus = "pending" ∨ line.grantStatus = "queued") ↔
        ∃ item ∈ lineGrantItems line.grantItems line.grantItemName line.grantQuantity,
          item.status = .pending ∨ item.status = .queued) ∧
      ∀ playerId orgId serverInstanceId,
        (0, line) ∈ (sequential.run .sample halfDelivered).dueLines playerId orgId serverInstanceId ↔
          (∃ item ∈ line.items, item.status = .pending ∨ item.status = .queued) ∧
          ∃ d, ((sequential.run .sample halfDelivered).donations[line.donationId]? = some d) ∧
            d.playerId = playerId ∧ d.orgId = orgId ∧ d.serverInstanceId = serverInstanceId ∧
            d.status = "completed" := by
  have h : ((sequential.run .sample halfDelivered).line? 0).isSome = true := by decide +kernel
  have ⟨line, hl⟩ := Option.isSome_iff_exists.mp h
  exact ⟨line, hl, owing_exact rfl hl⟩

end Donations
