import Mastermind.Donations.Theorems.Store

open Effects Js Prog Jobs

namespace Donations

-- What the items of a list are, without what has become of them.
def grantSpecs (items : List LineGrantItem) : List GrantItemSpec :=
  items.map (·.toGrantItemSpec)

-- What the items of each line are.
abbrev Lists :=
  LineId → Option (List GrantItemSpec)

def Store.lists (s : Store) : Lists :=
  fun id => (s.line? id).map fun line => grantSpecs line.items

variable {m : Lists} {s : Store} {line : DonationLine} {id : LineId} {userId : UserId} {d : Delivery}
  {items items' before after : List LineGrantItem} {grant grant' : LineGrantItem} {c : Cmd}
  {job : GiveJob} {n : Nat}

theorem length_eq_of_grantSpecs (h : grantSpecs items = grantSpecs items') :
    items.length = items'.length := by
  simpa [grantSpecs] using congrArg List.length h

theorem grantSpecs_replace (h : grant'.toGrantItemSpec = grant.toGrantItemSpec) :
    grantSpecs (before ++ grant' :: after) = grantSpecs (before ++ grant :: after) := by
  simp [grantSpecs, h]

theorem grantSpecs_answeredItems {a : Answer} {target : Option Nat} :
    grantSpecs (answeredItems a items target) = grantSpecs items := by
  cases target
  case none => rfl
  case some index =>
    apply List.ext_getElem?
    intro i
    simp only [grantSpecs, answeredItems, List.getElem?_map, List.getElem?_modify]
    split <;> cases items[i]? <;> rfl

-- The index in the payload of a job denotes the item that the command of the job gives.
def Names (m : Lists) (job : GiveJob) : Prop :=
  ∃ index specs spec, (job.payload.grantItemIndex = some index) ∧
    (m job.payload.donationLineId = some specs) ∧ (specs[index]? = some spec) ∧
    ∃ playerName uuid, buildGiveCommand playerName spec.name.val spec.quantity.val uuid =
      some job.payload.command

-- The calls write the items that they have read, with another status, and the lines that they read
-- have the items of `m`.
def keeping (m : Lists) : Environment shop Unit where
  allows _
    | .updateLine id data _ => ∀ items, data.grantItems = some items → m id = grantSpecs items
    | .createJob job        => Names m job
    | .createDonation ..    => False
    | _                     => True
  answers _
    | .findDueLines .., .ok lines, _   => ∀ e ∈ lines, m e.1 = grantSpecs e.2.items
    | .findLine id, .ok (some line), _ => m id = grantSpecs line.items
    | _, _, _                          => True
  ends _ _ := False

abbrev Keeps {α : Type} (m : Lists) (p : Service α) : Prop :=
  p.wp (keeping m) (fun _ _ => True) ()

section

variable {α β : Type} {p : Service α} {f : α → Service β}

theorem keeps_bind (h : Keeps m p) (hf : ∀ a, Keeps m (f a)) : Keeps m (p >>= f) :=
  wp_bind_keeps h fun a _ _ => hf a

theorem keeps_handle {f : Exception → Service α} (h : Keeps m p) (hf : ∀ e, Keeps m (f e)) :
    Keeps m (p.handle f) :=
  wp_handle_keeps h fun e _ _ => hf e

-- A command at the beginning of a call.
theorem keeps_send_bind {f : c.Ans → Service β} (hc : (keeping m).allows () c)
    (hf : ∀ a, (keeping m).answers () c (.ok a) () → Keeps m (f a)) : Keeps m (send c >>= f) := by
  refine wp_bind.mpr <| wp_perform.mpr ⟨hc, ?_, nofun⟩
  intro r _ hr
  cases r
  case ok a  => exact hf a hr
  case error => trivial

theorem keeps_send (hc : (keeping m).allows () c) : Keeps m (send c) := by
  refine wp_perform.mpr ⟨hc, ?_, nofun⟩
  intro r _ _
  cases r <;> trivial

end

theorem keeps_queueShopGrantJob {orgId : OrgId} {serverInstanceId : ServerId} {command : String}
    {status : LineData} {index : Nat} {seen : List LineGrantItem}
    (hs : ∀ items, status.grantItems = some items → m id = grantSpecs items)
    (hj : Names m (giveJob orgId userId serverInstanceId id command index)) :
    Keeps m (queueShopGrantJob orgId userId serverInstanceId id command status index seen) := by
  apply keeps_handle
  case h =>
    refine keeps_bind (keeps_send trivial) fun _ => ?_
    refine keeps_bind (keeps_send hs) fun _ => ?_
    exact keeps_bind (keeps_send hj) fun _ => trivial
  case hf =>
    intro _
    exact keeps_bind (keeps_handle (keeps_send nofun) fun _ => trivial) fun _ => trivial

theorem keeps_deliverItems {stale : Bool} {seen : List LineGrantItem} {n : Nat}
    (h : m id = grantSpecs (before ++ after)) :
    Keeps m (deliverItems d userId id stale seen before n after) := by
  induction after generalizing seen before n
  case nil => trivial
  case cons grant after hi =>
    have hw {g : LineGrantItem} (hg : g.toGrantItemSpec = grant.toGrantItemSpec) :
        m id = grantSpecs (before ++ g :: after) :=
      h.trans <| congrArg some (grantSpecs_replace hg).symm
    have hn {g : LineGrantItem} {seen : List LineGrantItem} {n : Nat}
        (hg : g.toGrantItemSpec = grant.toGrantItemSpec) :
        Keeps m (deliverItems d userId id stale seen (before ++ [g]) n after) :=
      hi <| (List.append_assoc ..).symm ▸ hw hg
    rw [deliverItems]
    split
    case isTrue  => trivial
    case isFalse =>
      split
      case isFalse     => exact hn rfl
      case isTrue hd =>
        split
        case h_1 =>
          refine keeps_bind (keeps_send ?_) fun _ => hn rfl
          rintro _ ⟨⟩
          exact hw rfl
        case h_2 command hc =>
          refine keeps_bind (keeps_queueShopGrantJob ?_ ?_) fun ok => ?_
          case refine_1 =>
            rintro _ ⟨⟩
            exact hw rfl
          case refine_2 =>
            have hg : (grantSpecs (before ++ grant :: after))[before.length]? = grant.toGrantItemSpec := by
              simp [grantSpecs]
            exact ⟨before.length, _, grant.toGrantItemSpec, rfl, h, hg, d.playerName, d.uuid, hc⟩
          case refine_3 => cases ok <;> exact hn rfl

theorem keeps_deliverLines {staleBefore : ℤ} {n : Nat} {lines : List (LineId × DonationLine)}
    (h : ∀ e ∈ lines, m e.1 = grantSpecs e.2.items) :
    Keeps m (deliverLines d userId staleBefore n lines) := by
  induction lines generalizing n
  case nil => trivial
  case cons e lines hi =>
    have hi {n : Nat} := hi (n := n) fun e he => h e (List.mem_cons_of_mem _ he)
    rw [deliverLines]
    split
    case isTrue  => trivial
    case isFalse =>
      split
      case isTrue  => exact hi
      case isFalse => exact keeps_bind (keeps_deliverItems (h e List.mem_cons_self)) fun _ => hi

theorem keeps_deliverShopGrantLines : Keeps m (deliverShopGrantLines d) := by
  refine keeps_bind (keeps_send trivial) fun member => ?_
  cases member
  case none => trivial
  case some userId =>
    refine keeps_bind (keeps_send trivial) fun _ => ?_
    exact keeps_send_bind trivial fun _ hl => keeps_deliverLines hl

theorem keeps_grantTime {grantStatus : String} : Keeps m (grantTime grantStatus) := by
  rw [grantTime]
  split
  case isTrue  => exact keeps_bind (keeps_send trivial) fun _ => trivial
  case isFalse => trivial

theorem keeps_finishShopGrant {payload : GrantPayload} {a : Answer} :
    Keeps m (finishShopGrant payload a) := by
  rw [finishShopGrant]
  split
  case isTrue  => trivial
  case isFalse =>
    refine keeps_send_bind trivial fun line hl => ?_
    cases line
    case none => trivial
    case some line =>
      refine keeps_bind keeps_grantTime fun _ => keeps_send ?_
      rintro _ ⟨⟩
      exact hl.trans <| congrArg some grantSpecs_answeredItems.symm

theorem keeps_serve {q : Request} : Keeps m q.serve := by
  cases q
  case deliver => exact keeps_deliverShopGrantLines
  case finish  => exact keeps_finishShopGrant

-- The items of the lines are those of `m`, and the jobs from the `n`-th on name items of the lines.
structure Listed (m : Lists) (n : Nat) (s : Store) : Prop where
  lists : s.lists = m
  jobs  : ∀ k job, n ≤ k → s.job? k = some job → Names m job

theorem Listed.specs (h : Listed m n s) (hl : s.line? id = some line) :
    m id = grantSpecs line.items := by
  rw [← h.lists, Store.lists, hl, Option.map_some]

theorem Listed.updateLine {data : LineData} (h : Listed m n s)
    (hd : ∀ items, data.grantItems = some items → m id = grantSpecs items) :
    Listed m n (s.updateLine id data) where
  jobs  := h.jobs
  lists := by
    refine Eq.trans (funext fun k => ?_) h.lists
    simp only [Store.lists, line?_updateLine]
    split
    case isFalse => rfl
    case isTrue hk =>
      subst hk
      cases hl : s.line? id
      case none => rfl
      case some line =>
        simp only [Option.map_some]
        cases hg : data.grantItems
        case none => rw [items_apply_none hg]
        case some items =>
          have he : grantSpecs items = grantSpecs line.items :=
            Option.some.inj <| (hd items hg).symm.trans (h.specs hl)
          rw [items_apply hg (length_eq_of_grantSpecs he), he]

theorem Listed.exec (hc : (keeping m).allows () c) (h : Listed m n s) :
    (keeping m).answers () c (exec c s).1 () ∧ Listed m n (exec c s).2 := by
  cases c
  case now             => exact ⟨trivial, h⟩
  case findFirstMember => exact ⟨trivial, h⟩
  case findShopItems   => exact ⟨trivial, h⟩
  case createDonation  => exact hc.elim
  case findLine id =>
    refine ⟨?_, h⟩
    simp only [Donations.exec]
    cases hl : s.line? id
    case none => trivial
    case some => exact h.specs hl
  case findDueLines =>
    refine ⟨fun e he => ?_, h⟩
    obtain ⟨he, _⟩ := List.mem_filter.mp (List.mem_of_mem_take he)
    exact h.specs (Table.mem_entries.mp he)
  case updateLine id data basis =>
    cases hl : s.line? id
    case none =>
      simp only [Donations.exec, hl, Option.isSome_none, Bool.false_eq_true, if_false]
      exact ⟨trivial, h⟩
    case some =>
      rw [exec_updateLine hl]
      exact ⟨trivial, h.updateLine hc⟩
  case createJob job =>
    refine ⟨trivial, h.lists, fun k job' hk hj => ?_⟩
    have hj : (s.jobs ++ [job])[k]? = some job' := hj
    rw [List.getElem?_append] at hj
    split at hj
    case isTrue  => exact h.jobs k job' hk hj
    case isFalse => exact List.mem_singleton.mp (List.mem_of_getElem? hj) ▸ hc

theorem Listed.answer {a : Answer} {k : JobId} (h : Listed m n s) : Listed m n (s.answer k a) where
  lists := h.lists
  jobs  := by
    intro j job hj hk
    simp only [Store.answer, Store.job?, List.getElem?_modify] at hk
    have ⟨job', hk, he⟩ := Option.map_eq_some_iff.mp hk
    have hn := h.jobs j job' hj hk
    split at he <;> subst he <;> exact hn

theorem Listed.next {p : Calls} {e : Event} (h : p.Abides (keeping m) (Listed m n)) :
    Pool.Abides (keeping m) (Listed m n) (interleaved.next p e) := by
  cases e
  case deliver d => exact h.start keeps_serve
  case serve i   => exact h.serve fun c s => Listed.exec
  case fail i    => exact h.fail fun c _ => by cases c <;> trivial
  case elapse ms => exact h.world ⟨h.state.lists, h.state.jobs⟩
  case answer k a =>
    simp only [Calls.answer]
    split
    case h_1 => exact (h.world h.state.answer).start keeps_serve
    case h_2 => exact h

-- The payload of a job names an item of its line, and this is the item that the command gives.
def GiveJob.NamesItem (job : GiveJob) (s : Store) : Prop :=
  ∃ line index item, (s.line? job.payload.donationLineId = some line) ∧
    (job.payload.grantItemIndex = some index) ∧ (targetItem job.payload line.items = some index) ∧
    (line.items[index]? = some item) ∧
    ∃ playerName uuid, buildGiveCommand playerName item.name.val item.quantity.val uuid =
      some job.payload.command

theorem Listed.namesItem (h : Listed m n s) (hn : Names m job) : job.NamesItem s := by
  have ⟨index, specs, spec, hi, hm, hs, playerName, uuid, hc⟩ := hn
  have ⟨line, hl, hg⟩ := Option.map_eq_some_iff.mp (show s.lists _ = some specs from h.lists ▸ hm)
  rw [← hg, grantSpecs, List.getElem?_map] at hs
  have ⟨item, hit, hs⟩ := Option.map_eq_some_iff.mp hs
  subst hs
  have hlt : index < line.items.length := (List.getElem?_eq_some_iff.mp hit).choose
  have ht : targetItem job.payload line.items = some index := by
    simp [targetItem, hi, Option.filter, hlt]
  exact ⟨line, index, item, hl, hi, ht, hit, playerName, uuid, hc⟩

-- A stored list of items reads as itself, whatever has become of its items. In every state of a run
-- the items of a line are those that it had at first, and the index under which an item was queued
-- denotes this item.
theorem grantItems_stable :
    (∀ (raw : Json) (grantItemName : Option String) (grantQuantity : Option ℤ),
      (lineGrantItems (storedItems (lineGrantItems raw grantItemName grantQuantity)) grantItemName
        grantQuantity = lineGrantItems raw grantItemName grantQuantity) ∧
      ∀ items, grantSpecs items = grantSpecs (lineGrantItems raw grantItemName grantQuantity) →
        lineGrantItems (storedItems items) grantItemName grantQuantity = items) ∧
    ∀ (s : Store) (es : List Event),
      (∀ id, (interleaved.run (Pool.idle s) es).state.lists id = s.lists id) ∧
      ∀ k job, s.jobs.length ≤ k → (interleaved.run (Pool.idle s) es).state.job? k = some job →
        job.NamesItem (interleaved.run (Pool.idle s) es).state := by
  constructor
  case left =>
    intro raw grantItemName grantQuantity
    constructor
    case left  => exact lineGrantItems_storedItems rfl
    case right => exact fun _ h => lineGrantItems_storedItems (length_eq_of_grantSpecs h)
  case right =>
    intro s es
    have hs : Listed s.lists s.jobs.length s := by
      constructor
      case lists => rfl
      case jobs  =>
        intro k job hk hj
        exact absurd (List.getElem?_eq_some_iff.mp hj).choose (Nat.not_lt.mpr hk)
    have h : Pool.Abides (keeping s.lists) (Listed s.lists s.jobs.length)
        (interleaved.run (Pool.idle s) es) :=
      System.always (fun _ _ => Listed.next) (Pool.Abides.idle hs)
    constructor
    case left  => exact congrFun h.state.lists
    case right => exact fun k job hk hj => h.state.namesItem (h.state.jobs k job hk hj)

-- The kit is paid, and both of its items are queued.
def Store.sold : Store :=
  sequential.next .sample (.complete .sample [])

def kitDelivery : List Event :=
  .deliver .sample :: List.replicate 9 (.serve 0)

theorem grantItems_stable_kit :
    ∃ job, ((interleaved.run (Pool.idle .sold) kitDelivery).state.job? 1 = some job) ∧
      job.NamesItem (interleaved.run (Pool.idle .sold) kitDelivery).state := by
  have hj : ((interleaved.run (Pool.idle .sold) kitDelivery).state.job? 1).isSome = true := by
    decide +kernel
  have ⟨job, hj⟩ := Option.isSome_iff_exists.mp hj
  exact ⟨job, hj, (grantItems_stable.right _ _).right 1 job (by decide +kernel) hj⟩

end Donations
