import Mastermind.Donations.Theorems.Exhausted
import Mastermind.Donations.Theorems.Stable

open Effects Js Prog Jobs

namespace Donations

def statusAt (items : List LineGrantItem) (i : Nat) : Option ItemStatus :=
  items[i]?.map (·.status)

def GiveJob.about (k : LineId) (i : Nat) (job : GiveJob) : Bool :=
  job.payload.item = (k, some i)

-- The job may still be answered.
def GiveJob.opens (k : LineId) (i : Nat) (job : GiveJob) : Bool :=
  job.about k i && job.answer.isNone

-- The job has given its item.
def GiveJob.gives (k : LineId) (i : Nat) (job : GiveJob) : Bool :=
  job.about k i && job.answer.any fun a => a.outcome = .delivered

def creates (k : LineId) (i : Nat) : Cmd → Bool
  | .createJob job => job.about k i
  | _              => false

-- The call is about to create a job of the item, or has yet to report an answer that did not give
-- it.
def working (k : LineId) (i : Nat) (th : Thread shop Request Unit) : Bool :=
  match th.request with
  | .deliver _          => th.prog.next?.any (creates k i)
  | .finish _ payload a =>
    payload.item = (k, some i) && a.outcome ≠ .delivered && th.prog.next?.isSome

-- The call has yet to report that the item was given.
def reporting (k : LineId) (i : Nat) (th : Thread shop Request Unit) : Bool :=
  match th.request with
  | .deliver _          => false
  | .finish _ payload a =>
    payload.item = (k, some i) && a.outcome = .delivered && th.prog.next?.isSome

def Request.isDelivery : Request → Bool
  | .deliver _ => true
  | .finish .. => false

namespace Store

variable (s : Store) (k : LineId) (i : Nat)

def status? : Option ItemStatus :=
  (s.line? k).bind fun line => statusAt line.items i

-- The number of jobs that the item has had, of those that may still be answered, and of those that
-- have given the item.
def queuings : Nat :=
  s.jobs.countP (GiveJob.about k i)

def opens : Nat :=
  s.jobs.countP (GiveJob.opens k i)

def gifts : Nat :=
  s.jobs.countP (GiveJob.gives k i)

end Store

namespace Calls

variable (p : Calls) (k : LineId) (i : Nat)

def working : Nat :=
  p.threads.countP (Donations.working k i)

def reporting : Nat :=
  p.threads.countP (Donations.reporting k i)

-- All jobs of the item were answered in vain, and no call creates or reports one.
def Idle : Prop :=
  p.state.opens k i + p.working k i + p.reporting k i + p.state.gifts k i = 0

-- What a write may make of the status of an item. A delivery writes about an item as it is stored,
-- and if it is stored as queued, while nothing of the item is under way. The other items keep their
-- status, but an item whose job could not be created may be pending again.
def Permits (q : Request) (basis : Basis) (items stored : List LineGrantItem) : Prop :=
  if basis.item = some i then
    q.isDelivery = true → statusAt basis.seen i = statusAt stored i ∧
      (statusAt stored i = some .queued → p.Idle k i)
  else
    statusAt items i = statusAt stored i ∨
      (statusAt stored i = some .queued ∧ statusAt items i = some .pending ∧ p.Idle k i)

end Calls

def Careful (p : Calls) : Event → Prop
  | .serve j =>
    match Pool.next? p j with
    | some (q, .updateLine k data (some basis)) =>
      ∀ items ∈ data.grantItems, ∀ line ∈ p.state.line? k, ∀ i < line.items.length,
        p.Permits k i q basis items line.items
    | _ => True
  | _ => True

-- A call has just stored the item as queued, or it has reported an answer.
inductive Mode
  | ready
  | claims (k : LineId) (i : Nat)
  | done

-- The mode after an answer.
def Mode.after (q : Request) : (c : Cmd) → Except Exception c.Ans → Mode
  | .updateLine k data (some basis), .ok _ =>
    match q, basis.item with
    | .finish .., _      => .done
    | .deliver _, some i =>
      if data.grantItems.bind (statusAt · i) = some .queued then .claims k i else .ready
    | .deliver _, none   => .ready
  | _, _ => .ready

-- A delivery creates the job of the item that it has just stored as queued.
def Delivers (m : Mode) : Cmd → Prop
  | .createJob job =>
    ∃ k i, m = .claims k i ∧ job.payload.item = (k, some i) ∧ job.answer = none
  | .updateLine _ data (some basis) =>
    ∃ items i old new, (data.grantItems = some items) ∧ (basis.item = some i) ∧
      (statusAt basis.seen i = some old) ∧ (old = .pending ∨ old = .queued) ∧
      (statusAt items i = some new) ∧ (new = .queued ∨ new = .failed)
  | .updateLine _ data none => data.grantItems = none
  | .createDonation ..      => False
  | _                       => True

-- A call that reports an answer writes once.
def Reports (payload : GrantPayload) (a : Answer) (m : Mode) : Cmd → Prop
  | .updateLine k data basis => (m ≠ .done) ∧ (k = payload.donationLineId) ∧
    ∃ seen, (basis = some { seen, item := targetItem payload seen }) ∧
      data.grantItems = some (answeredItems a seen (targetItem payload seen))
  | .createJob _       => False
  | .createDonation .. => False
  | _                  => m ≠ .done

def acting (q : Request) : Environment shop Mode where
  allows m c :=
    match q with
    | .deliver _          => Delivers m c
    | .finish _ payload a => Reports payload a m c
  answers _ c r m := m = Mode.after q c r
  ends _ _ := False

variable {p p' : Calls} {k : LineId} {i n : Nat} {s s' : Store} {d : Delivery} {userId : UserId}
  {items before after seen : List LineGrantItem} {payload : GrantPayload} {a : Answer} {q : Request}

section

variable {α β : Type} {x : Service α} {f : α → Service β}

-- The program keeps to the environment from any mode on.
abbrev Acts (q : Request) (x : Service α) : Prop :=
  ∀ m, x.wp (acting q) (fun _ _ => True) m

theorem acts_ret {v : α} : Acts q (pure v) :=
  fun _ => trivial

theorem acts_bind (h : Acts q x) (hf : ∀ v, Acts q (f v)) : Acts q (x >>= f) :=
  fun m => wp_bind_keeps (h m) fun v m _ => hf v m

theorem acts_handle {f : Exception → Service α} (h : Acts q x) (hf : ∀ e, Acts q (f e)) :
    Acts q (x.handle f) :=
  fun m => wp_handle_keeps (h m) fun e m _ => hf e m

theorem acts_send {c : Cmd} (h : ∀ m, Delivers m c) : Acts (.deliver d) (send c) := by
  intro m
  refine wp_perform.mpr ⟨h m, ?_, False.elim⟩
  intro r _ _
  cases r <;> trivial

end

theorem acts_queueShopGrantJob {orgId : OrgId} {serverInstanceId : ServerId} {command : String}
    {status : LineData} {id : LineId} {index : Nat} {old : ItemStatus}
    (hs : status.grantItems = some items) (ho : statusAt seen index = some old)
    (hd : old = .pending ∨ old = .queued) (hn : statusAt items index = some .queued) :
    Acts (.deliver d)
      (queueShopGrantJob orgId userId serverInstanceId id command status index seen) := by
  apply acts_handle
  case hf =>
    intro _
    exact acts_bind (acts_handle (acts_send fun _ => rfl) fun _ => acts_ret) fun _ => acts_ret
  case h =>
    refine acts_bind (acts_send fun _ => trivial) fun now m => ?_
    refine wp_bind.mpr (wp_perform.mpr ⟨?_, ?_, False.elim⟩)
    case refine_1 => exact ⟨items, index, old, _, hs, rfl, ho, hd, hn, .inl rfl⟩
    case refine_2 =>
      intro r m hm
      cases r
      case error => trivial
      case ok    =>
        have hb : status.grantItems.bind (statusAt · index) = some .queued := by rw [hs]; exact hn
        have hm : m = .claims id index := hm.trans (if_pos hb)
        refine wp_bind.mpr (wp_perform.mpr ⟨⟨id, index, hm, rfl, rfl⟩, ?_, False.elim⟩)
        intro r _ _
        cases r <;> trivial

theorem acts_deliverItems {id : LineId} {stale : Bool}
    (h : ∃ b, b.length = before.length ∧ seen = b ++ after) :
    Acts (.deliver d) (deliverItems d userId id stale seen before n after) := by
  induction after generalizing seen before n
  case nil => exact acts_ret
  case cons grant after hi =>
    obtain ⟨b, hb, rfl⟩ := h
    have hn {g g' : LineGrantItem} {c : List LineGrantItem} (hc : c.length = before.length)
        {n : Nat} : Acts (.deliver d)
          (deliverItems d userId id stale (c ++ g :: after) (before ++ [g']) n after) :=
      hi ⟨c ++ [g], by simp [hc], by simp⟩
    have ho : statusAt (b ++ grant :: after) before.length = some grant.status := by
      simp [statusAt, ← hb]
    rw [deliverItems]
    split
    case isTrue  => exact acts_ret
    case isFalse =>
      split
      case isFalse   => exact hn hb
      case isTrue hd =>
        have hd : grant.status = .pending ∨ grant.status = .queued := by
          have hd := hd.left
          simp only [isDue, Bool.or_eq_true, Bool.and_eq_true, decide_eq_true_eq] at hd
          exact hd.imp_right And.left
        split
        case h_1 =>
          refine acts_bind (acts_send fun _ => ?_) fun _ => hn rfl
          exact ⟨_, before.length, _, .failed, rfl, rfl, ho, hd,
            by simp [statusAt, LineGrantItem.rejected], .inr rfl⟩
        case h_2 =>
          refine acts_bind (acts_queueShopGrantJob rfl ho hd ?_) fun ok => ?_
          case refine_1 => simp [statusAt, LineGrantItem.tried]
          case refine_2 => cases ok <;> exact hn rfl

theorem acts_deliverLines {staleBefore : ℤ} {lines : List (LineId × DonationLine)} :
    Acts (.deliver d) (deliverLines d userId staleBefore n lines) := by
  induction lines generalizing n
  case nil => exact acts_ret
  case cons e lines hi =>
    rw [deliverLines]
    split
    case isTrue  => exact acts_ret
    case isFalse =>
      split
      case isTrue  => exact hi
      case isFalse => exact acts_bind (acts_deliverItems ⟨[], rfl, rfl⟩) fun _ => hi

theorem acts_deliverShopGrantLines : Acts (.deliver d) (deliverShopGrantLines d) := by
  refine acts_bind (acts_send fun _ => trivial) fun member => ?_
  cases member
  case none        => exact acts_ret
  case some userId =>
    refine acts_bind (acts_send fun _ => trivial) fun _ => ?_
    exact acts_bind (acts_send fun _ => trivial) fun _ => acts_deliverLines

section

variable {id : JobId}

-- A reporting call does nothing but read before its write.
theorem reports_send {c : Cmd} (hc : Reports payload a .ready c)
    (hm : ∀ r, Mode.after (.finish id payload a) c r = .ready) :
    (send c).wp (acting (.finish id payload a)) (fun _ m => m = .ready) .ready := by
  refine wp_perform.mpr ⟨hc, ?_, False.elim⟩
  intro r m hr
  have he : m = .ready := hr.trans (hm r)
  cases r <;> exact he

theorem reports_grantTime {grantStatus : String} :
    (grantTime grantStatus).wp (acting (.finish id payload a)) (fun _ m => m = .ready) .ready := by
  rw [grantTime]
  split
  case isTrue  => exact wp_bind_keeps (reports_send (by rintro ⟨⟩) fun _ => rfl) fun _ _ h => h
  case isFalse => rfl

theorem reports_finishShopGrant :
    (finishShopGrant payload a).wp (acting (.finish id payload a)) (fun _ _ => True) .ready := by
  rw [finishShopGrant]
  split
  case isTrue  => trivial
  case isFalse =>
    refine wp_bind_via (reports_send (by rintro ⟨⟩) fun _ => rfl) (fun _ _ => trivial) ?_
    rintro line _ rfl
    cases line
    case none      => trivial
    case some line =>
      refine wp_bind_via reports_grantTime (fun _ _ => trivial) ?_
      rintro time _ rfl
      refine wp_perform.mpr ⟨⟨by rintro ⟨⟩, rfl, line.items, rfl, rfl⟩, ?_, False.elim⟩
      intro r _ _
      cases r <;> trivial

end

theorem acts_serve : q.serve.wp (acting q) (fun _ _ => True) .ready := by
  cases q
  case deliver => exact acts_deliverShopGrantLines .ready
  case finish  => exact reports_finishShopGrant

-- At most one job of an item may still give it or has given it. Unless the item is stored as
-- queued, nothing of it is under way; and what is pending has not been given.
structure Held (p : Calls) (k : LineId) (i : Nat) : Prop where
  single  : p.state.opens k i + p.working k i + p.state.gifts k i ≤ 1
  reports : p.reporting k i ≤ p.state.gifts k i
  idle    : p.state.status? k i ≠ some .queued →
    p.state.opens k i + p.working k i + p.reporting k i = 0
  unspent : p.state.status? k i = some .pending → p.state.gifts k i = 0

theorem Held.idle_of_pending (h : Held p k i) (hs : p.state.status? k i = some .pending) :
    p.Idle k i := by
  have hg := h.unspent hs
  have hi := h.idle (by rw [hs]; decide)
  rw [Calls.Idle]
  omega

-- A step in which the item keeps its status.
theorem Held.calm (p' : Calls) (h : Held p k i) (hs : p'.state.status? k i = p.state.status? k i)
    (ho : p'.state.opens k i + p'.working k i ≤ p.state.opens k i + p.working k i)
    (hr : p'.reporting k i ≤ p.reporting k i) (hg : p'.state.gifts k i = p.state.gifts k i) :
    Held p' k i where
  single  := by have := h.single; omega
  reports := by have := h.reports; omega
  idle    := by
    intro hq
    have := h.idle (hs ▸ hq)
    omega
  unspent := by
    intro hp
    have := h.unspent (hs ▸ hp)
    omega

-- A step before which nothing of the item is under way.
theorem Held.fresh (p' : Calls) (h : p.Idle k i)
    (ho : p'.state.opens k i + p'.working k i ≤ p.state.opens k i + p.working k i + 1)
    (hq : p'.state.status? k i ≠ some .queued →
      p'.state.opens k i + p'.working k i ≤ p.state.opens k i + p.working k i)
    (hr : p'.reporting k i ≤ p.reporting k i) (hg : p'.state.gifts k i = p.state.gifts k i) :
    Held p' k i := by
  rw [Calls.Idle] at h
  constructor
  case single  => omega
  case reports => omega
  case unspent => exact fun _ => by omega
  case idle    =>
    intro hn
    have := hq hn
    omega

-- A step keeps the promises about an item. An item that has been delivered stays delivered, and no
-- other job is created for it.
structure Advances (p p' : Calls) (k : LineId) (i : Nat) : Prop where
  held : Held p' k i
  kept : p.state.status? k i = some .delivered →
    p'.state.status? k i = some .delivered ∧ p'.state.queuings k i = p.state.queuings k i

section

variable {th : Thread shop Request Unit} {c : Cmd} {f : Except Exception c.Ans → Service Unit}
  {r : Except Exception c.Ans} {j : Nat} {id : JobId} {data : LineData} {basis : Basis}

-- A call begins.
def Calls.begin (p : Calls) (q : Request) : Calls :=
  p.start Request.serve q

-- A call has moved on.
def Calls.move (p : Calls) (j : Nat) (th : Thread shop Request Unit) (s : Store) : Calls :=
  { state := s, threads := p.threads.set j th }

theorem working_move (th' : Thread shop Request Unit) (h : p.threads[j]? = some th) :
    (p.move j th' s).working k i + (working k i th).toNat =
      p.working k i + (working k i th').toNat :=
  Table.countP_set h

theorem reporting_move (th' : Thread shop Request Unit) (h : p.threads[j]? = some th) :
    (p.move j th' s).reporting k i + (reporting k i th).toNat =
      p.reporting k i + (reporting k i th').toNat :=
  Table.countP_set h

theorem working_pos (hj : p.threads[j]? = some th) (h : working k i th = true) :
    0 < p.working k i :=
  List.countP_pos_iff.mpr ⟨th, List.mem_of_getElem? hj, h⟩

-- A call is about to create a job only after it has stored the item as queued.
theorem working_after {prog : Service Unit} {m : Mode}
    (hw : prog.wp (acting q) (fun _ _ => True) m) (h : working k i ⟨q, prog⟩ = true) :
    m = .claims k i ∨ ∀ c f, working k i ⟨q, .call c f⟩ = true := by
  cases q
  case finish =>
    simp only [working, Bool.and_eq_true] at h ⊢
    exact .inr fun _ _ => ⟨h.left, rfl⟩
  case deliver =>
    cases prog
    case ret   => cases h
    case throw => cases h
    case call c f =>
      cases c
      case createJob job =>
        obtain ⟨k', i', hm, hp, _⟩ := hw.1
        have h : job.payload.item = (k, some i) := of_decide_eq_true h
        cases hp.symm.trans h
        exact .inl hm
      all_goals cases h

theorem not_working_of_ready {prog : Service Unit}
    (hw : prog.wp (acting (.deliver d)) (fun _ _ => True) .ready) :
    working k i ⟨.deliver d, prog⟩ = false := by
  cases h : working k i ⟨.deliver d, prog⟩
  case false => rfl
  case true  =>
    cases working_after hw h
    case inl h => cases h
    case inr h => cases h .now fun _ => .ret ()

theorem reporting_after {prog : Service Unit} (h : reporting k i ⟨q, prog⟩ = true) :
    reporting k i ⟨q, .call c f⟩ = true := by
  cases q
  case deliver => cases h
  case finish  =>
    simp only [reporting, Bool.and_eq_true] at h ⊢
    exact ⟨h.left, rfl⟩

theorem working_over {prog : Service Unit} (h : prog.next? = none) :
    working k i ⟨q, prog⟩ = false := by
  cases q <;> simp [working, h]

theorem reporting_over {prog : Service Unit} (h : prog.next? = none) :
    reporting k i ⟨q, prog⟩ = false := by
  cases q <;> simp [reporting, h]

theorem reporting_move_le (hj : p.threads[j]? = some ⟨q, .call c f⟩) :
    (p.move j ⟨q, f r⟩ s).reporting k i ≤ p.reporting k i := by
  have h := reporting_move (s := s) (k := k) (i := i) ⟨q, f r⟩ hj
  cases hr : reporting k i ⟨q, f r⟩
  case false => rw [hr, Bool.toNat_false] at h; omega
  case true  => rw [hr, reporting_after hr] at h; omega

theorem working_move_le (hj : p.threads[j]? = some ⟨q, .call c f⟩)
    (hw : (f r).wp (acting q) (fun _ _ => True) (Mode.after q c r))
    (hm : Mode.after q c r ≠ .claims k i) :
    (p.move j ⟨q, f r⟩ s).working k i ≤ p.working k i := by
  have h := working_move (s := s) (k := k) (i := i) ⟨q, f r⟩ hj
  cases hr : working k i ⟨q, f r⟩
  case false => rw [hr, Bool.toNat_false] at h; omega
  case true  => rw [hr, (working_after hw hr).resolve_left hm] at h; omega

-- A call that has reported is over.
theorem next?_of_done {prog : Service Unit}
    (hw : prog.wp (acting (.finish id payload a)) (fun _ _ => True) .done) : prog.next? = none := by
  cases prog
  case ret   => rfl
  case throw => rfl
  case call c f =>
    have hc := hw.1
    cases c
    case createJob      => exact hc.elim
    case createDonation => exact hc.elim
    case updateLine     => exact absurd rfl hc.left
    all_goals exact absurd rfl hc

-- A step that leaves the jobs and the status of the item alone.
theorem Advances.calm (h : Held p k i) (hj : p.threads[j]? = some ⟨q, .call c f⟩)
    (hw : (f r).wp (acting q) (fun _ _ => True) (Mode.after q c r))
    (hm : Mode.after q c r ≠ .claims k i) (hs : s.status? k i = p.state.status? k i)
    (ho : s.jobs = p.state.jobs) : Advances p (p.move j ⟨q, f r⟩ s) k i where
  held := by
    apply Held.calm (p.move j ⟨q, f r⟩ s) h hs
    case ho =>
      have := working_move_le (s := s) hj hw hm
      simp only [Store.opens, Calls.move, ho] at this ⊢
      omega
    case hr => exact reporting_move_le hj
    case hg => exact congrArg (List.countP _) ho
  kept hd := ⟨hs.trans hd, congrArg (List.countP _) ho⟩

-- The job of the item that was just stored as queued is created.
theorem Advances.create {job : GiveJob} {f : Except Exception JobId → Service Unit}
    {r : Except Exception JobId} (h : Held p k i)
    (hj : p.threads[j]? = some ⟨.deliver d, .call (.createJob job) f⟩)
    (hw : (f r).wp (acting (.deliver d)) (fun _ _ => True) .ready) (ha : job.answer = none) :
    Advances p (p.move j ⟨.deliver d, f r⟩ { p.state with jobs := p.state.jobs ++ [job] }) k i := by
  have hn : working k i ⟨.deliver d, f r⟩ = false := not_working_of_ready hw
  have ho : working k i ⟨.deliver d, .call (.createJob job) f⟩ = job.about k i := rfl
  have hm := working_move (s := { p.state with jobs := p.state.jobs ++ [job] }) (k := k) (i := i)
    ⟨.deliver d, f r⟩ hj
  rw [hn, ho, Bool.toNat_false] at hm
  constructor
  case held =>
    apply Held.calm (p.move j ⟨.deliver d, f r⟩ { p.state with jobs := p.state.jobs ++ [job] })
    case h  => exact h
    case hs => rfl
    case hr => exact reporting_move_le hj
    case hg => simp [Store.gifts, Calls.move, GiveJob.gives, ha]
    case ho =>
      have he : (p.move j ⟨.deliver d, f r⟩
          { p.state with jobs := p.state.jobs ++ [job] }).state.opens k i =
            p.state.opens k i + (job.about k i).toNat := by
        cases hb : job.about k i <;> simp [Store.opens, Calls.move, GiveJob.opens, ha, hb]
      omega
  case kept =>
    intro hd
    refine ⟨hd, ?_⟩
    have hi := h.idle (by rw [hd]; decide)
    cases hb : job.about k i
    case false => simp [Store.queuings, Calls.move, hb]
    case true  =>
      have := working_pos hj (ho.trans hb)
      omega

theorem status?_updateLine {line : DonationLine} {id : LineId} (hl : s.line? id = some line)
    (hd : data.grantItems = some items) (hn : items.length = line.items.length) :
    (s.updateLine id data).status? k i = if k = id then statusAt items i else s.status? k i := by
  rw [Store.status?, line?_updateLine]
  by_cases hk : k = id
  case pos =>
    subst hk
    rw [if_pos rfl, if_pos rfl, hl, Option.map_some, Option.bind_some, items_apply hd hn]
  case neg => rw [if_neg (Ne.symm hk), if_neg hk, Store.status?]

theorem status?_updateLine_none {id : LineId} (hd : data.grantItems = none) :
    (s.updateLine id data).status? k i = s.status? k i := by
  rw [Store.status?, line?_updateLine]
  split
  case isFalse => rfl
  case isTrue  => cases hl : s.line? k <;> simp [Store.status?, hl, items_apply_none hd]

section

variable {line : DonationLine} {id : LineId} {g : Except Exception Unit → Service Unit}
  {old new : ItemStatus} {μ : Mode}

theorem status?_of_line (hl : s.line? id = some line) : s.status? id i = statusAt line.items i := by
  rw [Store.status?, hl, Option.bind_some]

theorem lt_of_statusAt (h : statusAt items i = some old) : i < items.length := by
  obtain ⟨_, h, _⟩ := Option.map_eq_some_iff.mp h
  exact (List.getElem?_eq_some_iff.mp h).choose

-- A write leaves an item alone that it is not about, or makes it pending again.
theorem Advances.aside (h : Held p k i) (hj : p.threads[j]? = some ⟨q, .call c f⟩)
    (hw : (f r).wp (acting q) (fun _ _ => True) (Mode.after q c r))
    (hm : Mode.after q c r ≠ .claims k i) (ho : s.jobs = p.state.jobs)
    (hs : s.status? k i = p.state.status? k i ∨
      (p.state.status? k i = some .queued ∧ s.status? k i = some .pending ∧ p.Idle k i)) :
    Advances p (p.move j ⟨q, f r⟩ s) k i := by
  obtain hs | ⟨hq, _, hi⟩ := hs
  case inl => exact .calm h hj hw hm hs ho
  case inr =>
    have hn := working_move_le (s := s) hj hw hm
    have he : (p.move j ⟨q, f r⟩ s).state.opens k i = p.state.opens k i :=
      congrArg (List.countP _) ho
    constructor
    case kept => exact fun hd => absurd (hq.symm.trans hd) (by decide)
    case held =>
      apply Held.fresh (p.move j ⟨q, f r⟩ s) hi
      case ho => omega
      case hq => exact fun _ => by omega
      case hr => exact reporting_move_le hj
      case hg => exact congrArg (List.countP _) ho

-- A write of the items of a line, as for the items that it is not about.
theorem Advances.elsewhere (hl : p.state.line? id = some line)
    (hj : p.threads[j]? = some ⟨q, .call (.updateLine id data (some basis)) g⟩)
    (hw : (g (.ok ())).wp (acting q) (fun _ _ => True)
      (Mode.after q (.updateLine id data (some basis)) (.ok ())))
    (hm : Mode.after q (.updateLine id data (some basis)) (.ok ()) ≠ .claims k i)
    (hd : data.grantItems = some items) (hn : items.length = line.items.length)
    (hc : ∀ i < line.items.length, p.Permits id i q basis items line.items)
    (hb : k = id → basis.item ≠ some i) (hk : Held p k i) :
    Advances p (p.move j ⟨q, g (.ok ())⟩ (p.state.updateLine id data)) k i := by
  refine .aside hk hj hw hm rfl ?_
  rw [status?_updateLine hl hd hn]
  by_cases hki : k = id
  case neg => exact .inl (if_neg hki)
  case pos =>
    subst hki
    rw [if_pos rfl, status?_of_line hl]
    by_cases hlt : i < line.items.length
    case pos =>
      have hp := hc i hlt
      rwa [Calls.Permits, if_neg (hb rfl)] at hp
    case neg =>
      have hz {l : List LineGrantItem} (hl : l.length ≤ i) : statusAt l i = none := by
        rw [statusAt, List.getElem?_eq_none hl, Option.map_none]
      exact .inl (by rw [hz (hn ▸ Nat.le_of_not_lt hlt), hz (Nat.le_of_not_lt hlt)])

-- The write of a delivery.
theorem Advances.deliver (hl : p.state.line? id = some line)
    (hj : p.threads[j]? = some ⟨.deliver d, .call (.updateLine id data (some basis)) g⟩)
    (hw : (g (.ok ())).wp (acting (.deliver d)) (fun _ _ => True)
      (Mode.after (.deliver d) (.updateLine id data (some basis)) (.ok ())))
    (ha : Delivers μ (.updateLine id data (some basis)))
    (hn : ∀ items, data.grantItems = some items → items.length = line.items.length)
    (hc : ∀ items ∈ data.grantItems, ∀ i < line.items.length,
      p.Permits id i (.deliver d) basis items line.items) (hk : Held p k i) :
    Advances p (p.move j ⟨.deliver d, g (.ok ())⟩ (p.state.updateLine id data)) k i := by
  obtain ⟨items, i₀, old, new, hd, hb, ho, hdue, hnew, hst⟩ := ha
  have hn := hn items hd
  have hc := hc items hd
  have hm : Mode.after (.deliver d) (.updateLine id data (some basis)) (.ok ()) =
      if new = .queued then .claims id i₀ else .ready := by
    simp [Mode.after, hb, hd, hnew]
  by_cases he : k = id ∧ i = i₀
  case neg =>
    refine .elsewhere hl hj hw ?_ hd hn hc ?_ hk
    case refine_1 =>
      rw [hm]
      split
      case isTrue  => rintro ⟨⟩; exact he ⟨rfl, rfl⟩
      case isFalse => rintro ⟨⟩
    case refine_2 => exact fun hk hi => he ⟨hk, Option.some.inj (hi.symm.trans hb)⟩
  case pos =>
    obtain ⟨rfl, rfl⟩ := he
    have hp := hc i (hn ▸ lt_of_statusAt hnew)
    rw [Calls.Permits, if_pos hb] at hp
    have hp := hp rfl
    have hstored : p.state.status? k i = some old :=
      (status?_of_line hl).trans (hp.left.symm.trans ho)
    have hidle : p.Idle k i := by
      cases hdue
      case inl hd => exact hk.idle_of_pending (hd ▸ hstored)
      case inr hd => exact hp.right ((status?_of_line hl).symm.trans (hd ▸ hstored))
    constructor
    case kept =>
      intro hd
      have hd := Option.some.inj (hstored.symm.trans hd)
      cases hdue
      case inl hp => exact absurd (hp.symm.trans hd) (by decide)
      case inr hp => exact absurd (hp.symm.trans hd) (by decide)
    case held =>
      have hmv := working_move (s := p.state.updateLine k data) (k := k) (i := i)
        ⟨.deliver d, g (.ok ())⟩ hj
      have hle := Bool.toNat_le (working k i ⟨.deliver d, g (.ok ())⟩)
      have he : (p.move j ⟨.deliver d, g (.ok ())⟩ (p.state.updateLine k data)).state.opens k i =
        p.state.opens k i := rfl
      apply Held.fresh (p.move j ⟨.deliver d, g (.ok ())⟩ (p.state.updateLine k data)) hidle
      case ho => omega
      case hr => exact reporting_move_le hj
      case hg => rfl
      case hq =>
        -- The item was rejected.
        intro hq
        have hq : new ≠ .queued := by
          rintro rfl
          exact hq ((status?_updateLine hl hd hn).trans ((if_pos rfl).trans hnew))
        rw [if_neg hq] at hm
        have := working_move_le (s := p.state.updateLine k data) (k := k) (i := i) hj hw
          (by rw [hm]; rintro ⟨⟩)
        omega

theorem statusAt_answeredItems (h : i < items.length) :
    statusAt (answeredItems a items (some i)) i = some a.outcome.next := by
  simp [statusAt, answeredItems, List.getElem?_eq_getElem h]

theorem targetItem_of_lt (hi : payload.grantItemIndex = some i) (h : i < items.length) :
    targetItem payload items = some i := by
  simp [targetItem, hi, Option.filter, h]

-- The write of a call that reports an answer.
theorem Advances.finish {job : JobId} (hl : p.state.line? payload.donationLineId = some line)
    (hj : p.threads[j]? = some ⟨.finish job payload a, .call
      (.updateLine payload.donationLineId data (some { seen, item := some n })) g⟩)
    (hw : (g (.ok ())).wp (acting (.finish job payload a)) (fun _ _ => True) .done)
    (hi : payload.grantItemIndex = some n) (hlt : n < line.items.length)
    (hd : data.grantItems = some (answeredItems a seen (some n)))
    (hn : seen.length = line.items.length)
    (hc : ∀ items ∈ data.grantItems, ∀ i < line.items.length,
      p.Permits payload.donationLineId i (.finish job payload a) { seen, item := some n } items
        line.items) (hk : Held p k i) :
    Advances p (p.move j ⟨.finish job payload a, g (.ok ())⟩
      (p.state.updateLine payload.donationLineId data)) k i := by
  have hlen : (answeredItems a seen (some n)).length = line.items.length := by
    simp [answeredItems, hn]
  by_cases he : k = payload.donationLineId ∧ i = n
  case neg =>
    refine .elsewhere hl hj hw (by rintro ⟨⟩) hd hlen (hc _ hd) ?_ hk
    exact fun hk hi => he ⟨hk, (Option.some.inj hi).symm⟩
  case pos =>
    obtain ⟨rfl, rfl⟩ := he
    have hitem : payload.item = (payload.donationLineId, some i) := by rw [GrantPayload.item, hi]
    have hover := next?_of_done hw
    have hmw := working_move (s := p.state.updateLine payload.donationLineId data)
      (k := payload.donationLineId) (i := i) ⟨.finish job payload a, g (.ok ())⟩ hj
    have hmr := reporting_move (s := p.state.updateLine payload.donationLineId data)
      (k := payload.donationLineId) (i := i) ⟨.finish job payload a, g (.ok ())⟩ hj
    rw [working_over hover] at hmw
    rw [reporting_over hover] at hmr
    have hs := (status?_updateLine (k := payload.donationLineId) (i := i) hl hd hlen).trans
      ((if_pos rfl).trans (statusAt_answeredItems (hn ▸ hlt)))
    obtain ⟨h₁, h₂, h₃, h₄⟩ := hk
    have hw₀ : working payload.donationLineId i ⟨.finish job payload a, .call
        (.updateLine payload.donationLineId data (some { seen, item := some i })) g⟩ =
          decide (a.outcome ≠ .delivered) := by
      simp [working, hitem, next?]
    have hr₀ : reporting payload.donationLineId i ⟨.finish job payload a, .call
        (.updateLine payload.donationLineId data (some { seen, item := some i })) g⟩ =
          decide (a.outcome = .delivered) := by
      simp [reporting, hitem, next?]
    rw [hw₀] at hmw
    rw [hr₀] at hmr
    -- The call's own answer is all that is under way.
    have hq : p.state.status? payload.donationLineId i = some .queued := by
      by_contra hq
      have := h₃ hq
      by_cases ho : a.outcome = .delivered <;> simp [ho] at hmw hmr <;> omega
    constructor
    case kept => exact fun hd => absurd (hq.symm.trans hd) (by decide)
    case held =>
      have hop : (p.move j ⟨.finish job payload a, g (.ok ())⟩ (p.state.updateLine
        payload.donationLineId data)).state.opens payload.donationLineId i =
          p.state.opens payload.donationLineId i := rfl
      have hgi : (p.move j ⟨.finish job payload a, g (.ok ())⟩ (p.state.updateLine
        payload.donationLineId data)).state.gifts payload.donationLineId i =
          p.state.gifts payload.donationLineId i := rfl
      by_cases ho : a.outcome = .delivered <;> simp [ho] at hmw hmr
      case pos =>
        constructor
        case single  => omega
        case reports => omega
        case idle    => exact fun _ => by omega
        case unspent =>
          rw [ho] at hs
          exact fun hp => absurd (hs.symm.trans hp) (by decide)
      case neg =>
        constructor
        case single  => omega
        case reports => omega
        case idle    => exact fun _ => by omega
        case unspent => exact fun _ => by omega

end

-- What holds of the calls in the course of a run.
structure Once (m : Lists) (p : Calls) : Prop where
  abides  : p.Abides (keeping m) (Listed m 0)
  threads : ∀ th ∈ p.threads, ∃ μ, th.prog.wp (acting th.request) (fun _ _ => True) μ
  named   : ∀ th ∈ p.threads, ∀ id payload a, th.request = .finish id payload a →
    ∃ i specs, (payload.grantItemIndex = some i) ∧ (m payload.donationLineId = some specs) ∧
      i < specs.length
  held    : ∀ k i, Held p k i

variable {m : Lists} {μ : Mode}

theorem Mode.after_error {e : Exception} : Mode.after q c (.error e) = .ready := by
  cases c
  case updateLine basis => cases basis <;> rfl
  all_goals rfl

-- The step of a call that is served.
theorem Once.advances (h : Once m p) (hc : Careful p (.serve j))
    (hj : p.threads[j]? = some ⟨q, .call c f⟩)
    (hw : (Prog.call c f).wp (acting q) (fun _ _ => True) μ) :
    Advances p (p.move j ⟨q, f (exec c p.state).1⟩ (exec c p.state).2) k i := by
  have hk := h.held k i
  have hn := hw.2.1 (exec c p.state).1 _ rfl
  have ha := hw.1
  have hl := (h.abides.threads _ (List.mem_of_getElem? hj)).1
  have hx : Pool.next? p j = some (q, c) := Pool.next?_eq_some.mpr ⟨f, hj⟩
  simp only [Careful, hx] at hc
  cases c
  case now             => exact .calm hk hj hn (by rintro ⟨⟩) rfl rfl
  case findFirstMember => exact .calm hk hj hn (by rintro ⟨⟩) rfl rfl
  case findShopItems   => exact .calm hk hj hn (by rintro ⟨⟩) rfl rfl
  case findDueLines    => exact .calm hk hj hn (by rintro ⟨⟩) rfl rfl
  case findLine        => exact .calm hk hj hn (by rintro ⟨⟩) rfl rfl
  case createDonation  => cases q <;> exact ha.elim
  case createJob job   =>
    cases q
    case finish  => exact ha.elim
    case deliver =>
      obtain ⟨_, _, _, _, ha⟩ := ha
      exact .create hk hj hn ha
  case updateLine id data basis =>
    cases hz : p.state.line? id
    case none =>
      have hx : exec (.updateLine id data basis) p.state = (.error .storage, p.state) := by
        simp [exec, hz]
      rw [hx] at hn ⊢
      exact .calm hk hj hn (by rw [Mode.after_error]; rintro ⟨⟩) rfl rfl
    case some line =>
      rw [exec_updateLine hz] at hn ⊢
      have hlen {items : List LineGrantItem} (hd : data.grantItems = some items) :
          items.length = line.items.length :=
        length_eq_of_grantSpecs <| Option.some.inj <|
          (hl items hd).symm.trans (h.abides.state.specs hz)
      cases q
      case deliver =>
        cases basis
        case none       => exact .calm hk hj hn (by rintro ⟨⟩) (status?_updateLine_none ha) rfl
        case some basis =>
          have ha : Delivers μ (.updateLine id data (some basis)) := ha
          exact .deliver hz hj hn ha (fun _ => hlen) (fun items hd => hc items hd line hz) hk
      case finish job payload a =>
        obtain ⟨_, rfl, seen, rfl, hd⟩ := ha
        obtain ⟨i₀, specs, hi, hs, hlt⟩ := h.named _ (List.mem_of_getElem? hj) job payload a rfl
        have hlen := hlen hd
        have hseen : seen.length = line.items.length :=
          (length_eq_of_grantSpecs grantSpecs_answeredItems).symm.trans hlen
        have hspecs : specs.length = line.items.length := by
          rw [h.abides.state.specs hz] at hs
          simp [← Option.some.inj hs, grantSpecs]
        have ht : targetItem payload seen = some i₀ := targetItem_of_lt hi (by omega)
        rw [ht] at hd hj hc
        exact .finish hz hj hn hi (by omega) hd hseen (fun items hd => hc items hd line hz) hk

-- A call is over or moves on, and keeps to its environment.
theorem Once.move {r : Except Exception c.Ans} {s : Store} (h : Once m p)
    (hj : p.threads[j]? = some ⟨q, .call c f⟩)
    (ha : (p.move j ⟨q, f r⟩ s).Abides (keeping m) (Listed m 0))
    (hs : ∀ k i, Advances p (p.move j ⟨q, f r⟩ s) k i) : Once m (p.move j ⟨q, f r⟩ s) where
  abides  := ha
  held k i := (hs k i).held
  threads := by
    intro th hm
    cases List.mem_or_eq_of_mem_set hm
    case inl hm => exact h.threads th hm
    case inr he =>
      subst he
      obtain ⟨μ, hw⟩ := h.threads _ (List.mem_of_getElem? hj)
      exact ⟨_, hw.2.1 r _ rfl⟩
  named := by
    intro th hm
    cases List.mem_or_eq_of_mem_set hm
    case inl hm => exact h.named th hm
    case inr he =>
      subst he
      exact h.named ⟨q, .call c f⟩ (List.mem_of_getElem? hj)

theorem Once.serve (h : Once m p) (hc : Careful p (.serve j)) :
    Once m (p.serve j) ∧ ∀ k i, Advances p (p.serve j) k i := by
  have ha := h.abides.serve (i := j) fun c s => Listed.exec
  obtain hs | ⟨q, c, f, hj, hs⟩ := p.serve_cases j
  case inl =>
    rw [hs]
    exact ⟨h, fun k i => ⟨h.held k i, fun hd => ⟨hd, rfl⟩⟩⟩
  case inr =>
    obtain ⟨μ, hw⟩ := h.threads _ (List.mem_of_getElem? hj)
    have hadv (k : LineId) (i : Nat) := h.advances (k := k) (i := i) hc hj hw
    rw [hs] at ha ⊢
    exact ⟨h.move hj ha hadv, hadv⟩

theorem Once.fail (h : Once m p) : Once m (p.fail j) ∧ ∀ k i, Advances p (p.fail j) k i := by
  have ha := h.abides.fail (i := j) fun c _ => by cases c <;> trivial
  obtain hs | ⟨q, c, f, hj, hs⟩ := p.fail_cases j
  case inl =>
    rw [hs]
    exact ⟨h, fun k i => ⟨h.held k i, fun hd => ⟨hd, rfl⟩⟩⟩
  case inr =>
    obtain ⟨μ, hw⟩ := h.threads _ (List.mem_of_getElem? hj)
    have hadv (k : LineId) (i : Nat) :
        Advances p (p.move j ⟨q, f (.error shop.fault)⟩ p.state) k i :=
      .calm (h.held k i) hj (hw.2.1 _ _ rfl) (by rw [Mode.after_error]; rintro ⟨⟩) rfl rfl
    rw [hs] at ha ⊢
    exact ⟨h.move hj ha hadv, hadv⟩

end

theorem Once.begin (h : Once m p)
    (ha : (Calls.begin { p with state := s } q).Abides (keeping m) (Listed m 0))
    (hn : ∀ id payload a, q = .finish id payload a → ∃ i specs, (payload.grantItemIndex = some i) ∧
      (m payload.donationLineId = some specs) ∧ i < specs.length)
    (hs : ∀ k i, Held (Calls.begin { p with state := s } q) k i) :
    Once m (Calls.begin { p with state := s } q) where
  abides  := ha
  held    := hs
  threads := by
    intro th hm
    cases List.mem_append.mp hm
    case inl hm => exact h.threads th hm
    case inr hm =>
      cases List.mem_singleton.mp hm
      exact ⟨.ready, acts_serve⟩
  named := by
    intro th hm
    cases List.mem_append.mp hm
    case inl hm => exact h.named th hm
    case inr hm =>
      cases List.mem_singleton.mp hm
      exact hn

theorem working_begin :
    (p.begin q).working k i = p.working k i + (working k i ⟨q, q.serve⟩).toNat := by
  have h : (p.begin q).working k i =
    (p.threads ++ [(⟨q, q.serve⟩ : Thread shop Request Unit)]).countP (working k i) := rfl
  rw [h, List.countP_append, Calls.working]
  cases h : working k i ⟨q, q.serve⟩ <;> simp [h]

theorem reporting_begin :
    (p.begin q).reporting k i = p.reporting k i + (reporting k i ⟨q, q.serve⟩).toNat := by
  have h : (p.begin q).reporting k i =
    (p.threads ++ [(⟨q, q.serve⟩ : Thread shop Request Unit)]).countP (reporting k i) := rfl
  rw [h, List.countP_append, Calls.reporting]
  cases h : reporting k i ⟨q, q.serve⟩ <;> simp [h]

theorem Once.deliver (h : Once m p) :
    Once m (p.begin (.deliver d)) ∧ ∀ k i, Advances p (p.begin (.deliver d)) k i := by
  have hs (k : LineId) (i : Nat) : Held (p.begin (.deliver d)) k i := by
    apply Held.calm (p.begin (.deliver d)) (h.held k i) rfl
    case ho => rw [working_begin, not_working_of_ready acts_serve]; exact le_rfl
    case hr => exact le_of_eq reporting_begin
    case hg => rfl
  exact ⟨h.begin (h.abides.start keeps_serve) (by rintro _ _ _ ⟨⟩) hs,
    fun k i => ⟨hs k i, fun hd => ⟨hd, rfl⟩⟩⟩

-- The agent answers a job, and the call that reports the answer begins.
theorem Advances.answer {id : JobId} {job : GiveJob} (h : Held p k i)
    (hj : p.state.openJob? id = some job) :
    Advances p (Calls.begin { p with state := p.state.answer id a } (.finish id job.payload a))
      k i := by
  obtain ⟨hj, ho⟩ := Option.filter_eq_some_iff.mp hj
  have ho : job.answer = none := Option.isNone_iff_eq_none.mp ho
  have hcount (f : GiveJob → Bool) : (p.state.answer id a).jobs.countP f + (f job).toNat =
      p.state.jobs.countP f + (f (job.answered a)).toNat := Table.countP_modify hj
  have hopens : (p.state.answer id a).opens k i + (job.about k i).toNat = p.state.opens k i := by
    have h := hcount (GiveJob.opens k i)
    rwa [show job.opens k i = job.about k i by simp [GiveJob.opens, ho],
      show (job.answered a).opens k i = false by simp [GiveJob.opens, GiveJob.answered]] at h
  have hgifts : (p.state.answer id a).gifts k i =
      p.state.gifts k i + (job.about k i && a.outcome = .delivered).toNat := by
    have h := hcount (GiveJob.gives k i)
    rwa [show job.gives k i = false by simp [GiveJob.gives, ho]] at h
  have hqueuings : (p.state.answer id a).queuings k i = p.state.queuings k i :=
    Nat.add_right_cancel (hcount (GiveJob.about k i))
  have hand (b c : Bool) : (b && c).toNat ≤ b.toNat := by cases b <;> simp [Bool.toNat_le]
  have hw : (Calls.begin { p with state := p.state.answer id a } (.finish id job.payload a)).working
      k i ≤ p.working k i + (job.about k i && a.outcome ≠ .delivered).toNat := by
    rw [working_begin]
    exact Nat.add_le_add_left (hand _ _) _
  have hr : (Calls.begin { p with state := p.state.answer id a }
      (.finish id job.payload a)).reporting k i ≤
        p.reporting k i + (job.about k i && a.outcome = .delivered).toNat := by
    rw [reporting_begin]
    exact Nat.add_le_add_left (hand _ _) _
  have hs : (Calls.begin { p with state := p.state.answer id a } (.finish id job.payload a)).state =
    p.state.answer id a := rfl
  obtain ⟨h₁, h₂, h₃, h₄⟩ := h
  refine ⟨?_, fun hd => ⟨hd, hqueuings⟩⟩
  rw [← hs] at hopens hgifts
  -- An answer of another item changes nothing. The item of an open job is stored as queued.
  cases hb : job.about k i
  case false =>
    rw [hb] at hopens hgifts hw hr
    simp only [Bool.false_and, Bool.toNat_false, Nat.add_zero] at hopens hgifts hw hr
    constructor
    case single  => omega
    case reports => omega
    case idle    =>
      intro hq
      have := h₃ hq
      omega
    case unspent => exact fun hp => hgifts.trans (h₄ hp)
  case true =>
    rw [hb] at hopens hgifts hw hr
    have hq : p.state.status? k i = some .queued := by
      by_contra hq
      have := h₃ hq
      simp only [Bool.toNat_true] at hopens
      omega
    constructor
    case idle    => exact absurd hq
    case unspent => exact fun hp => absurd (hq.symm.trans hp) (by decide)
    case single  =>
      by_cases ho : a.outcome = .delivered <;> simp [ho] at hopens hgifts hw hr <;> omega
    case reports =>
      by_cases ho : a.outcome = .delivered <;> simp [ho] at hopens hgifts hw hr <;> omega

theorem Once.answer {id : JobId} (h : Once m p) :
    Once m (p.answer id a) ∧ ∀ k i, Advances p (p.answer id a) k i := by
  rw [Calls.answer]
  split
  case h_2 => exact ⟨h, fun k i => ⟨h.held k i, fun hd => ⟨hd, rfl⟩⟩⟩
  case h_1 job hj =>
    have ha (k : LineId) (i : Nat) := Advances.answer (a := a) (h.held k i) hj
    refine ⟨?_, ha⟩
    have hj := (Option.filter_eq_some_iff.mp hj).left
    obtain ⟨i, specs, spec, hi, hm, hs, _⟩ := h.abides.state.jobs id job (Nat.zero_le _) hj
    apply h.begin
    case ha => exact (h.abides.world h.abides.state.answer).start keeps_serve
    case hs => exact fun k i => (ha k i).held
    case hn =>
      rintro _ _ _ ⟨⟩
      exact ⟨i, specs, hi, hm, (List.getElem?_eq_some_iff.mp hs).choose⟩

theorem Once.next {e : Event} (h : Once m p) (hc : Careful p e) :
    Once m (interleaved.next p e) ∧ ∀ k i, Advances p (interleaved.next p e) k i := by
  cases e
  case deliver d => exact h.deliver
  case answer    => exact h.answer
  case serve j   => exact h.serve hc
  case fail j    => exact h.fail
  case elapse ms =>
    have hs (k : LineId) (i : Nat) : Held { p with state := p.state.elapse ms } k i :=
      Held.calm { p with state := p.state.elapse ms } (h.held k i) rfl le_rfl le_rfl rfl
    exact ⟨⟨h.abides.world ⟨h.abides.state.lists, h.abides.state.jobs⟩, h.threads, h.named, hs⟩,
      fun k i => ⟨hs k i, fun hd => ⟨hd, rfl⟩⟩⟩

theorem Once.idle (hj : s.jobs = []) : Once s.lists (Pool.idle s) := by
  have hl : Listed s.lists 0 s := by
    constructor
    case lists => rfl
    case jobs  => intro k job _ hk; simp [Store.job?, hj] at hk
  constructor
  case abides  => exact Pool.Abides.idle hl
  case threads => exact fun _ hm => absurd hm List.not_mem_nil
  case named   => exact fun _ hm => absurd hm List.not_mem_nil
  case held    =>
    intro k i
    constructor <;> simp [Store.opens, Store.gifts, hj, Calls.working, Calls.reporting, Pool.idle]

instance {p : Calls} {q : Request} {basis : Basis} {items stored : List LineGrantItem} :
    Decidable (p.Permits k i q basis items stored) := by
  unfold Calls.Permits Calls.Idle
  infer_instance

def decidableCareful (p : Calls) (next : Option (Request × Cmd)) : Decidable <|
    match next with
    | some (q, .updateLine k data (some basis)) =>
      ∀ items ∈ data.grantItems, ∀ line ∈ p.state.line? k, ∀ i < line.items.length,
        p.Permits k i q basis items line.items
    | _ => True := by
  split <;> infer_instance

instance {p : Calls} {e : Event} : Decidable (Careful p e) :=
  match e with
  | .serve j => decidableCareful p (Pool.next? p j)
  | .deliver _ | .answer .. | .fail _ | .elapse _ => inferInstanceAs (Decidable True)

-- In a run whose calls write with care, at most one job of an item gives it, and an item that is
-- stored as delivered stays so and is never queued again.
theorem delivered_once {es : List Event} (hj : s.jobs = [])
    (hm : interleaved.Meets Careful (Pool.idle s) es) :
    (∀ k i, (interleaved.run (Pool.idle s) es).state.gifts k i ≤ 1) ∧
    ∀ es', interleaved.Meets Careful (interleaved.run (Pool.idle s) es) es' → ∀ k i,
      (interleaved.run (Pool.idle s) es).state.status? k i = some .delivered →
      ((interleaved.run (Pool.idle s) (es ++ es')).state.status? k i = some .delivered) ∧
        (interleaved.run (Pool.idle s) (es ++ es')).state.queuings k i =
          (interleaved.run (Pool.idle s) es).state.queuings k i := by
  have h : Once s.lists (interleaved.run (Pool.idle s) es) :=
    System.invariant (fun _ _ h hc => (h.next hc).left) (Once.idle hj) hm
  constructor
  case left  => exact fun k i => by have := (h.held k i).single; omega
  case right =>
    intro es' hm' k i hd
    rw [System.run_append]
    generalize interleaved.run (Pool.idle s) es = p at h hm' hd
    have hi := System.invariant (S := interleaved)
      (fun (p' : Calls) e (h : Once s.lists p' ∧ (p'.state.status? k i = some .delivered ∧
        p'.state.queuings k i = p.state.queuings k i)) hc => by
          obtain ⟨h, hd, hq⟩ := h
          obtain ⟨h', ha⟩ := h.next hc
          obtain ⟨hd', hq'⟩ := (ha k i).kept hd
          exact ⟨h', hd', hq'.trans hq⟩) ⟨h, hd, rfl⟩ hm'
    exact hi.right

def gaveItem : Answer where
  runStatus := "success"
  output    := some "Gave 2 [Diamond] to Steve"

-- The first item of the kit is delivered, and the player is not there for the second one.
def halfGiven : List Event :=
  kitDelivery ++
    [.answer 0 gaveItem, .serve 1, .serve 1, .answer 1 absent, .serve 2, .serve 2]

theorem delivered_once_halfGiven :
    ((interleaved.run (Pool.idle .sold) halfGiven).state.gifts 0 0 ≤ 1) ∧
    ((interleaved.run (Pool.idle .sold)
      (halfGiven ++ .deliver .sample :: List.replicate 6 (.serve 3))).state.status? 0 0 =
        some .delivered) ∧
    (interleaved.run (Pool.idle .sold)
      (halfGiven ++ .deliver .sample :: List.replicate 6 (.serve 3))).state.queuings 0 0 =
        (interleaved.run (Pool.idle .sold) halfGiven).state.queuings 0 0 :=
  have hm : interleaved.Meets Careful (Pool.idle .sold) halfGiven := by decide +kernel
  have h := delivered_once rfl hm
  ⟨h.left 0 0, h.right _ (by decide +kernel) 0 0 (by decide +kernel)⟩

-- The jobs of the kit are not answered for six minutes, and its items are queued again.
def answeredLate : List Event :=
  kitDelivery ++ [.elapse 360000, .deliver .sample] ++ List.replicate 9 (.serve 1) ++
    [.answer 0 gaveItem, .answer 2 gaveItem]

theorem delivered_twice_answeredLate :
    (interleaved.run (Pool.idle .sold) answeredLate).state.gifts 0 0 = 2 := by
  decide +kernel

end Donations
