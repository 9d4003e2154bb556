import Mastermind.Donations.Theorems.Course

open Effects Prog Jobs

namespace Donations

variable {os : List Outcome} {o : Outcome} {items : List LineGrantItem} {n i : Nat} {ok : Bool}
  {d : Delivery} {s : Store} {line before after : DonationLine} {id : LineId} {fates : List Fate}

-- The outcome of an item for which the creation of a job was tried.
def Outcome.ofTry (ok : Bool) : Outcome :=
  if ok then created else thrown

theorem mem_triesFrom : (i, ok) ∈ triesFrom n os ↔ ∃ k, i = n + k ∧ os[k]? = some (.ofTry ok) := by
  induction os generalizing n
  case nil => simp [triesFrom]
  case cons o os hi =>
    have ht : (∃ k, i = n + 1 + k ∧ os[k]? = some (.ofTry ok)) ↔
        ∃ k, i = n + (k + 1) ∧ (o :: os)[k + 1]? = some (.ofTry ok) := by
      simp only [List.getElem?_cons_succ]
      exact exists_congr fun k => by rw [show n + 1 + k = n + (k + 1) by omega]
    have hs : (∃ k, i = n + k ∧ (o :: os)[k]? = some (.ofTry ok)) ↔
        (i = n ∧ o = .ofTry ok) ∨ ∃ k, i = n + (k + 1) ∧ (o :: os)[k + 1]? = some (.ofTry ok) := by
      constructor
      case mp =>
        rintro ⟨_ | k, hk, ho⟩
        case zero => exact .inl ⟨hk, Option.some.inj ho⟩
        case succ => exact .inr ⟨k, hk, ho⟩
      case mpr =>
        rintro (⟨hk, ho⟩ | ⟨k, hk, ho⟩)
        case inl => exact ⟨0, hk, congrArg some ho⟩
        case inr => exact ⟨k + 1, hk, ho⟩
    rw [hs, ← ht, ← hi]
    cases o <;> cases ok <;> simp [triesFrom, Outcome.ofTry]

-- Nothing was tried if and only if nothing happened.
theorem triesFrom_eq_nil (h : .rejected ∉ os) : triesFrom n os = [] ↔ os.all (· = .kept) = true := by
  induction os generalizing n
  case nil => simp [triesFrom]
  case cons o os hi =>
    have hi := hi (n := n + 1) fun hm => h (List.mem_cons_of_mem _ hm)
    cases o
    case rejected => exact absurd List.mem_cons_self h
    all_goals simp [triesFrom, hi]

-- What is stored is the memory of the call, except for the last item that was tried if its job was
-- not created.
theorem persisted_cases (h : .rejected ∉ os) :
    (persisted os = os ∧ ∀ i, (triesFrom 0 os).getLast? ≠ some (i, false)) ∨
      ∃ i, ((triesFrom 0 os).getLast? = some (i, false)) ∧ (persisted os)[i]? = some .created := by
  induction os using List.reverseRecOn
  case nil => exact .inl ⟨rfl, by rintro _ ⟨⟩⟩
  case append_singleton os o hi =>
    have hi := hi fun hm => h (List.mem_append_left _ hm)
    rw [triesFrom_append]
    cases o
    case rejected => exact absurd (List.mem_append_right _ List.mem_cons_self) h
    case created  => exact .inl ⟨persisted_append_written (.inl rfl), by simp [triesFrom]⟩
    case thrown   => exact .inr ⟨os.length, by simp [triesFrom], by simp⟩
    case kept     =>
      simp only [triesFrom, List.append_nil, persisted_append_kept]
      cases hi
      case inl hi => exact .inl ⟨by rw [hi.left], hi.right⟩
      case inr hi =>
        obtain ⟨i, hl, hp⟩ := hi
        exact .inr ⟨i, hl, Table.getElem?_append_of_some hp⟩

-- A failed creation of a job costs nothing: the items whose job was created are queued and have one
-- more attempt, the other items have their status and attempts from before, and the status of the
-- line is that of its items.
structure Costless (before after : DonationLine) (tried : List (Nat × Bool)) : Prop where
  created : ∀ i item, (i, true) ∈ tried → before.items[i]? = some item →
    ∃ item', (after.items[i]? = some item') ∧ item'.status = .queued ∧
      item'.attempts.val = item.attempts.val + 1
  others  : ∀ i item, (i, true) ∉ tried → before.items[i]? = some item →
    ∃ item', (after.items[i]? = some item') ∧ item'.status = item.status ∧
      item'.attempts = item.attempts
  status  : after.grantStatus = aggregateGrantStatus after.items

-- The last job that was tried for the line was created, and the items of the others were pending. A
-- line for which no job was tried had the status of its items before.
def Recovers (before : DonationLine) (tried : List (Nat × Bool)) : Prop :=
  if tried = [] then before.grantStatus = aggregateGrantStatus before.items
  else (∀ i, tried.getLast? ≠ some (i, false)) ∧
    ∀ i item, (i, false) ∈ tried → before.items[i]? = some item → item.status = .pending

theorem Delivered.getElem? {item : LineGrantItem} (h : Delivered d before after os)
    (hb : before.items[i]? = some item) :
    after.items[i]? = some (((persisted os).getD i .kept).apply item) := by
  rw [h.items, getElem?_applied, hb, Option.map_some]

theorem applied_of_kept (h : os.all (· = .kept) = true) : applied os items = items := by
  induction os generalizing items
  case nil          => exact applied_nil
  case cons o os hi =>
    have ⟨ho, h⟩ := Bool.and_eq_true_iff.mp h
    cases items
    case nil  => rfl
    case cons => simp [applied, of_decide_eq_true ho, Outcome.apply, hi h]

theorem getElem?_of_mem_tries (h : (i, ok) ∈ triesFrom 0 os) : os[i]? = some (.ofTry ok) := by
  have ⟨k, hk, ho⟩ := mem_triesFrom.mp h
  rwa [hk, Nat.zero_add]

theorem mem_tries_of_getElem? (h : os[i]? = some (.ofTry ok)) : (i, ok) ∈ triesFrom 0 os :=
  mem_triesFrom.mpr ⟨i, (Nat.zero_add i).symm, h⟩

theorem not_mem_tries (h : (i, false) ∈ triesFrom 0 os) : (i, true) ∉ triesFrom 0 os :=
  fun h' => nomatch (getElem?_of_mem_tries h).symm.trans (getElem?_of_mem_tries h')

-- A line for which nothing was tried is as it was.
theorem Delivered.costless_iff_of_kept (h : Delivered d before after os)
    (hk : os.all (· = .kept) = true) :
    Costless before after [] ↔ before.grantStatus = aggregateGrantStatus before.items := by
  have hi : after.items = before.items := by rw [h.items, persisted_of_kept hk, applied_of_kept hk]
  have hs : after.grantStatus = before.grantStatus := h.status.trans (if_pos hk)
  constructor
  case mp  => exact fun hc => hs ▸ hi ▸ hc.status
  case mpr =>
    intro hb
    constructor
    case created => exact fun _ _ h => nomatch h
    case others  => exact fun i item _ hb => ⟨item, hi ▸ hb, rfl, rfl⟩
    case status  => rw [hs, hi, hb]

-- The last item that was tried keeps its additional attempt if its job was not created.
theorem Delivered.not_costless (h : Delivered d before after os)
    (hl : (triesFrom 0 os).getLast? = some (i, false)) (hp : (persisted os)[i]? = some .created) :
    ¬Costless before after (triesFrom 0 os) := by
  intro hc
  have hm := List.mem_of_getLast? hl
  have ⟨item, hb, ha, _⟩ := h.tried i false hm
  have ⟨item', hi, _, he⟩ := hc.others i item (not_mem_tries hm) hb
  have hg := h.getElem? hb
  rw [List.getD_eq_getElem?_getD, hp, Option.getD_some, Outcome.apply, dif_pos ha] at hg
  cases hg.symm.trans hi
  have := congrArg Subtype.val he
  simp [LineGrantItem.tried] at this

theorem Delivered.costless_iff (h : Delivered d before after os) (hr : .rejected ∉ os) :
    Costless before after (triesFrom 0 os) ↔ Recovers before (triesFrom 0 os) := by
  by_cases hn : triesFrom 0 os = []
  case pos =>
    rw [Recovers, if_pos hn, hn]
    exact h.costless_iff_of_kept ((triesFrom_eq_nil hr).mp hn)
  case neg =>
    rw [Recovers, if_neg hn]
    cases persisted_cases hr
    case inr hp =>
      have ⟨i, hl, hp⟩ := hp
      exact iff_of_false (h.not_costless hl hp) fun hc => hc.left i hl
    case inl hp =>
      have ⟨hp, hl⟩ := hp
      have hg : ∀ {i item}, before.items[i]? = some item →
          after.items[i]? = some ((os.getD i .kept).apply item) := fun hb => hp ▸ h.getElem? hb
      constructor
      case mp =>
        refine fun hc => ⟨hl, fun i item hm hb => ?_⟩
        have ⟨item', hi, hs, _⟩ := hc.others i item (not_mem_tries hm) hb
        have hg := hg hb
        rw [List.getD_eq_getElem?_getD, getElem?_of_mem_tries hm] at hg
        cases hg.symm.trans hi
        exact hs.symm
      case mpr =>
        intro ⟨_, ht⟩
        constructor
        case created =>
          intro i item hm hb
          have ⟨item', hb', ha, _⟩ := h.tried i true hm
          cases hb.symm.trans hb'
          have hg := hg hb
          rw [List.getD_eq_getElem?_getD, getElem?_of_mem_tries hm] at hg
          exact ⟨_, hg.trans (congrArg some (dif_pos ha)), rfl, rfl⟩
        case others =>
          intro i item hm hb
          refine ⟨_, hg hb, ?_⟩
          rw [List.getD_eq_getElem?_getD]
          cases ho : os[i]?
          case none   => exact ⟨rfl, rfl⟩
          case some o =>
            cases o
            case kept     => exact ⟨rfl, rfl⟩
            case rejected => exact absurd (List.mem_of_getElem? ho) hr
            case created  => exact absurd (mem_tries_of_getElem? ho) hm
            case thrown   =>
              have hf : (i, false) ∈ triesFrom 0 os := mem_tries_of_getElem? ho
              exact ⟨(ht i item hf hb).symm, rfl⟩
        case status =>
          have hk : ¬os.all (· = .kept) = true := fun hk => hn ((triesFrom_eq_nil hr).mpr hk)
          rw [h.status, if_neg hk, if_pos hp]

-- If a job was tried for some item, the player can be addressed and no item is rejected.
theorem Call.not_rejected {course : LineId → List Outcome} {s₀ : Store} {log : Log} {k : LineId}
    (h : Call d s₀ course s log) (ht : tries log k ≠ []) (hb : s₀.line? id = some before) :
    .rejected ∉ course id := by
  intro hm
  have ⟨_, _, hd⟩ := h.lines id before hb
  have hn := (hd.target _ hm).left rfl
  rw [h.tried] at ht
  cases hk : s₀.line? k
  case none      => exact ht (by rw [h.known k hk]; rfl)
  case some line =>
    have ⟨_, _, hd⟩ := h.lines k line hk
    have ⟨⟨i, ok⟩, hi⟩ := List.exists_mem_of_ne_nil _ ht
    have ho := List.mem_of_getElem? (getElem?_of_mem_tries hi)
    cases ok
    case false => exact (hd.target _ ho).right (.inr rfl) hn
    case true  => exact (hd.target _ ho).right (.inl rfl) hn

-- A delivery in which the creation of some jobs fails, costs a line nothing if and only if the last
-- job that it tries for the line is created and the others belong to pending items.
theorem enqueue_costless_iff {k : LineId}
    (hf : Run.Within enqueueFails ((deliverShopGrantLines d).run fates s))
    (ht : tries ((deliverShopGrantLines d).run fates s).log k ≠ []) (hb : s.line? id = some before)
    (ha : ((deliverShopGrantLines d).run fates s).state.line? id = some after) :
    Costless before after (tries ((deliverShopGrantLines d).run fates s).log id) ↔
      Recovers before (tries ((deliverShopGrantLines d).run fates s).log id) := by
  have ⟨course, hc⟩ := deliver_call hf
  have ⟨line, hl, hd⟩ := hc.lines id before hb
  cases hl.symm.trans ha
  rw [hc.tried]
  exact hd.costless_iff (hc.not_rejected ht hb)

-- The kit has been bought.
def Store.bought : Store :=
  sequential.run .sample [.complete .sample []]

-- The delivery of the kit, with the fates of its accesses.
def delivery (fates : List Fate) : Run shop Unit :=
  (deliverShopGrantLines .sample).run fates .bought

-- The first job is not created, the second is.
def firstFails : List Fate :=
  [.served, .served, .served, .failed]

theorem enqueue_costless_iff_firstFails : ∃ before after,
    (Store.bought.line? 0 = some before) ∧ ((delivery firstFails).state.line? 0 = some after) ∧
      (Costless before after (tries (delivery firstFails).log 0) ↔
        Recovers before (tries (delivery firstFails).log 0)) := by
  have hb : (Store.bought.line? 0).isSome = true := by decide +kernel
  have ha : ((delivery firstFails).state.line? 0).isSome = true := by decide +kernel
  have hf : Run.Within enqueueFails (delivery firstFails) := by decide +kernel
  have ht : tries (delivery firstFails).log 0 ≠ [] := by decide +kernel
  have ⟨before, hb⟩ := Option.isSome_iff_exists.mp hb
  have ⟨after, ha⟩ := Option.isSome_iff_exists.mp ha
  exact ⟨before, after, hb, ha, enqueue_costless_iff hf ht hb ha⟩

-- The first job is created, the second is not.
def lastFails : List Fate :=
  [.served, .served, .served, .served, .served, .failed]

theorem enqueue_costs_lastFails : ∃ before after,
    (Store.bought.line? 0 = some before) ∧ ((delivery lastFails).state.line? 0 = some after) ∧
      (tries (delivery lastFails).log 0 = [(0, true), (1, false)]) ∧
      ¬Costless before after (tries (delivery lastFails).log 0) := by
  have ht : tries (delivery lastFails).log 0 = [(0, true), (1, false)] := by decide +kernel
  have hb : ((Store.bought.line? 0).bind fun l => l.items[1]?.map (·.attempts.val)) = some 0 := by
    decide +kernel
  have ha : (((delivery lastFails).state.line? 0).bind fun l => l.items[1]?.map (·.attempts.val)) =
      some 1 := by decide +kernel
  have ⟨before, hb, hb'⟩ := Option.bind_eq_some_iff.mp hb
  have ⟨after, ha, ha'⟩ := Option.bind_eq_some_iff.mp ha
  have ⟨item, hi, hz⟩ := Option.map_eq_some_iff.mp hb'
  refine ⟨before, after, hb, ha, ht, fun hc => ?_⟩
  have ⟨item', hi', _, he⟩ := hc.others 1 item (by simp [ht]) hi
  rw [hi', Option.map_some, he, hz] at ha'
  nomatch ha'

end Donations
