import Mastermind.Donations.Theorems.Owing

open Effects Prog Jobs

namespace Donations

-- What a delivery does with an item: it leaves the item as it is, rejects it, creates its job, or
-- tries to create its job and fails.
inductive Outcome
  | kept
  | rejected
  | created
  | thrown
  deriving DecidableEq

-- The item in the memory of the call.
def Outcome.apply : Outcome → LineGrantItem → LineGrantItem
  | kept, grant     => grant
  | rejected, grant => grant.rejected
  | created, grant  =>
    if h : grant.attempts.val < maxGrantAttempts then grant.tried h else grant
  | thrown, grant   => grant.postponed

-- The items after the outcomes of the first of them.
def applied : List Outcome → List LineGrantItem → List LineGrantItem
  | o :: os, grant :: items => o.apply grant :: applied os items
  | _, items                => items

-- The outcomes as they are stored. The item of a job that was not created is stored as queued until
-- the call writes the line again.
def persisted : List Outcome → List Outcome
  | []      => []
  | o :: os =>
    if o = .thrown ∧ os.all (· = .kept) then .created :: os else o :: persisted os

-- The items for which the creation of a job was tried, and whether it succeeded.
def triesFrom (n : Nat) : List Outcome → List (Nat × Bool)
  | []             => []
  | .created :: os => (n, true) :: triesFrom (n + 1) os
  | .thrown :: os  => (n, false) :: triesFrom (n + 1) os
  | _ :: os        => triesFrom (n + 1) os

variable {os : List Outcome} {o : Outcome} {items before after : List LineGrantItem}
  {grant : LineGrantItem} {n i : Nat}

@[simp]
theorem applied_nil : applied [] items = items := by
  cases items <;> rfl

theorem length_applied : (applied os items).length = items.length := by
  induction os generalizing items
  case nil          => rw [applied_nil]
  case cons o os hi => cases items <;> simp [applied, hi]

theorem getElem?_applied : (applied os items)[i]? = items[i]?.map (os.getD i .kept).apply := by
  induction os generalizing items i
  case nil => cases h : items[i]? <;> simp [Outcome.apply, h]
  case cons o os hi =>
    cases items
    case nil => simp [applied]
    case cons =>
      cases i
      case zero => simp [applied]
      case succ => simp [applied, hi]

-- The next item is treated.
theorem applied_append (h : applied os items = before ++ grant :: after)
    (hn : os.length = before.length) :
    applied (os ++ [o]) items = before ++ o.apply grant :: after := by
  induction os generalizing items before
  case nil =>
    cases List.eq_nil_of_length_eq_zero hn.symm
    rw [applied_nil] at h
    simp [h, applied]
  case cons o' os hi =>
    cases before
    case nil => simp at hn
    case cons b before =>
      cases items
      case nil => simp [applied] at h
      case cons g items =>
        have ⟨hb, ht⟩ := List.cons.inj h
        have hi := hi ht (Nat.succ.inj hn)
        simp [applied, hb, hi]

theorem persisted_cons : persisted (o :: os) =
    if o = .thrown ∧ os.all (· = .kept) then .created :: os else o :: persisted os :=
  rfl

@[simp]
theorem persisted_append_kept : persisted (os ++ [.kept]) = persisted os ++ [.kept] := by
  induction os
  case nil          => rfl
  case cons o os hi =>
    have hk : (os ++ [Outcome.kept]).all (· = .kept) = os.all (· = .kept) := by simp
    rw [List.cons_append, persisted_cons, persisted_cons, hk, hi]
    split
    case isTrue  => rfl
    case isFalse => rfl

-- A line that has just been written is stored as it is in the memory of the call.
theorem persisted_append_written (h : o = .created ∨ o = .rejected) :
    persisted (os ++ [o]) = os ++ [o] := by
  have hn : o ≠ .kept := by obtain rfl | rfl := h <;> decide
  induction os
  case nil           => obtain rfl | rfl := h <;> rfl
  case cons o' os hi =>
    have hk : ¬(o' = .thrown ∧ (os ++ [o]).all (· = .kept) = true) := by simp [hn]
    rw [List.cons_append, persisted_cons, if_neg hk, hi]

@[simp]
theorem persisted_append_thrown : persisted (os ++ [.thrown]) = os ++ [.created] := by
  induction os
  case nil           => rfl
  case cons o' os hi =>
    have hk : ¬(o' = .thrown ∧ (os ++ [Outcome.thrown]).all (· = .kept) = true) := by simp
    rw [List.cons_append, persisted_cons, if_neg hk, hi]
    rfl

theorem persisted_of_kept (h : os.all (· = .kept) = true) : persisted os = os := by
  induction os
  case nil          => rfl
  case cons o os hi =>
    have ⟨ho, h⟩ := Bool.and_eq_true_iff.mp h
    have hn : ¬(o = .thrown ∧ os.all (· = .kept) = true) := by simp [of_decide_eq_true ho]
    rw [persisted_cons, if_neg hn, hi h]

theorem triesFrom_append :
    triesFrom n (os ++ [o]) = triesFrom n os ++ triesFrom (n + os.length) [o] := by
  induction os generalizing n
  case nil           => simp [triesFrom]
  case cons o' os hi =>
    have hl : n + 1 + os.length = n + (os.length + 1) := by omega
    cases o' <;> simp [triesFrom, hi, hl]

theorem applied_append_kept : applied (os ++ [.kept]) items = applied os items := by
  induction os generalizing items
  case nil          => cases items <;> simp [applied, Outcome.apply]
  case cons o os hi => cases items <;> simp [applied, hi]

-- Only the creation of a job fails.
def enqueueFails : Disturbance shop :=
  fun c fate => fate = .failed ∧ c matches .createJob _

instance {c : Cmd} {fate : Fate} : Decidable (enqueueFails c fate) :=
  inferInstanceAs (Decidable (_ ∧ _))

instance {α : Type} {r : Run shop α} : Decidable (Run.Within enqueueFails r) :=
  inferInstanceAs (Decidable (∀ e ∈ r.log, e.2 ≠ .served → enqueueFails e.1 e.2))

abbrev Log :=
  List (Cmd × Fate)

def attempt? (id : LineId) : Cmd × Fate → Option (Nat × Bool)
  | (.createJob job, fate) =>
    if job.payload.donationLineId = id then job.payload.grantItemIndex.map (·, fate = .served)
    else none
  | _ => none

-- The items of a line for which a call has tried to create a job.
def tries (log : Log) (id : LineId) : List (Nat × Bool) :=
  log.filterMap (attempt? id)

def created? : Cmd × Fate → Option GiveJob
  | (.createJob job, .served) => some job
  | _                         => none

-- The jobs that a call has created.
def createdJobs (log : Log) : List GiveJob :=
  log.filterMap created?

-- The name by which the player of a delivery can be addressed.
def Delivery.target (d : Delivery) : Option String :=
  grantPlayerTarget d.playerName d.uuid

variable {d : Delivery} {s s₀ : Store} {line line₀ : DonationLine} {id : LineId} {log : Log}
  {data : LineData} {course : LineId → List Outcome}

-- A line before a delivery, and the line when its first items have been treated.
structure Delivered (d : Delivery) (line₀ line : DonationLine) (os : List Outcome) : Prop where
  items  : line.items = applied (persisted os) line₀.items
  status : line.grantStatus =
    if os.all (· = .kept) then line₀.grantStatus
    else if persisted os = os then aggregateGrantStatus line.items
    else "pending"
  tried  : ∀ i ok, (i, ok) ∈ triesFrom 0 os →
    ∃ item, line₀.items[i]? = some item ∧ item.attempts.val < maxGrantAttempts ∧ item.owed = true
  target : ∀ o ∈ os, (o = .rejected → d.target = none) ∧ (o = .created ∨ o = .thrown → d.target ≠ none)

theorem Delivered.refl : Delivered d line line [] where
  items      := by simp [persisted]
  status     := rfl
  tried _ _  := nofun
  target _ h := nomatch h

theorem Delivered.length (h : Delivered d line₀ line os) : line.items.length = line₀.items.length :=
  h.items ▸ length_applied

theorem Delivered.keep (h : Delivered d line₀ line os) : Delivered d line₀ line (os ++ [.kept]) where
  items  := by rw [h.items, persisted_append_kept, applied_append_kept]
  status := by simpa [persisted_append_kept] using h.status
  tried  := by simpa [triesFrom_append, triesFrom] using h.tried
  target := by simpa [or_imp, forall_and] using h.target

-- The item that is treated next has not been changed.
theorem getElem?_of_applied (h : applied os items = before ++ grant :: after)
    (hn : os.length = before.length) : items[os.length]? = some grant := by
  have hg : (applied os items)[os.length]? = some grant := by simp [h, hn]
  rw [getElem?_applied] at hg
  have ⟨item, hi, he⟩ := Option.map_eq_some_iff.mp hg
  have hd : os.getD os.length .kept = .kept := by simp
  rw [hd] at he
  exact he ▸ hi

-- The conditions for the outcome of an item.
structure Possible (d : Delivery) (grant : LineGrantItem) (o : Outcome) : Prop where
  tried  : o = .created ∨ o = .thrown → grant.attempts.val < maxGrantAttempts ∧ grant.owed = true
  target : (o = .rejected → d.target = none) ∧ (o = .created ∨ o = .thrown → d.target ≠ none)

theorem Delivered.tried_append (h : Delivered d line₀ line os)
    (hg : line₀.items[os.length]? = some grant) (hp : Possible d grant o) :
    ∀ i ok, (i, ok) ∈ triesFrom 0 (os ++ [o]) →
      ∃ item, line₀.items[i]? = some item ∧ item.attempts.val < maxGrantAttempts ∧
        item.owed = true := by
  intro i ok hm
  rw [triesFrom_append, Nat.zero_add] at hm
  cases List.mem_append.mp hm
  case inl hm => exact h.tried i ok hm
  case inr hm =>
    cases o
    case kept     => nomatch hm
    case rejected => nomatch hm
    case created  => cases List.mem_singleton.mp hm; exact ⟨grant, hg, hp.tried (.inl rfl)⟩
    case thrown   => cases List.mem_singleton.mp hm; exact ⟨grant, hg, hp.tried (.inr rfl)⟩

theorem Delivered.target_append (h : Delivered d line₀ line os) (hp : Possible d grant o) :
    ∀ o' ∈ os ++ [o], (o' = .rejected → d.target = none) ∧
      (o' = .created ∨ o' = .thrown → d.target ≠ none) := by
  intro o' hm
  cases List.mem_append.mp hm
  case inl hm => exact h.target o' hm
  case inr hm => cases List.mem_singleton.mp hm; exact hp.target

-- All items are written, after the outcome for the next one was found.
theorem Delivered.write {line' : DonationLine} (h : Delivered d line₀ line os)
    (ha : applied os line₀.items = before ++ grant :: after) (hn : os.length = before.length)
    (hp : Possible d grant o) (ho : o = .created ∨ o = .rejected)
    (hi : line'.items = before ++ o.apply grant :: after)
    (hs : line'.grantStatus = aggregateGrantStatus line'.items) :
    Delivered d line₀ line' (os ++ [o]) where
  items  := by rw [hi, persisted_append_written ho, applied_append ha hn]
  status := by
    have hk : (os ++ [o]).all (· = .kept) = false := by obtain rfl | rfl := ho <;> simp
    rw [hs, hk, if_neg Bool.false_ne_true, if_pos (persisted_append_written ho)]
  tried  := h.tried_append (getElem?_of_applied ha hn) hp
  target := h.target_append hp

-- The line was written as if the job was created, then its status alone was set back.
theorem Delivered.restore {line' : DonationLine} (h : Delivered d line₀ line os)
    (ha : applied os line₀.items = before ++ grant :: after) (hn : os.length = before.length)
    (hp : Possible d grant .thrown)
    (hi : line'.items = before ++ Outcome.created.apply grant :: after)
    (hs : line'.grantStatus = "pending") : Delivered d line₀ line' (os ++ [.thrown]) where
  items  := by rw [hi, persisted_append_thrown, applied_append ha hn]
  status := by simp [hs]
  tried  := h.tried_append (getElem?_of_applied ha hn) hp
  target := h.target_append hp

-- The course of a delivery: what has become of the items of each line since its start, given the
-- commands that it has issued.
structure Call (d : Delivery) (s₀ : Store) (course : LineId → List Outcome) (s : Store) (log : Log) :
    Prop where
  size  : s.lines.length = s₀.lines.length
  known : ∀ id, s₀.line? id = none → course id = []
  lines : ∀ id line₀, s₀.line? id = some line₀ →
    ∃ line, s.line? id = some line ∧ Delivered d line₀ line (course id)
  tried : ∀ id, tries log id = triesFrom 0 (course id)
  jobs  : s.jobs = s₀.jobs ++ createdJobs log
  fresh : ∀ job ∈ createdJobs log, job.answer = none ∧ job.payload.grantKind = "item" ∧
    job.payload.grantItemIndex.isSome = true

-- A command that leaves lines and jobs as they are.
theorem Call.aside {c : Cmd} (h : Call d s₀ course s log) (hc : ∀ job, c ≠ .createJob job) :
    Call d s₀ course s (log ++ [(c, .served)]) := by
  have ht : ∀ id, tries (log ++ [(c, .served)]) id = tries log id := by
    intro id
    cases c <;> simp_all [tries, attempt?]
  have hj : createdJobs (log ++ [(c, .served)]) = createdJobs log := by
    cases c <;> simp_all [createdJobs, created?]
  exact ⟨h.size, h.known, h.lines, fun id => (ht id).trans (h.tried id), hj ▸ h.jobs, hj ▸ h.fresh⟩

-- The course of a call after the outcome of the next item of a line.
def extend (course : LineId → List Outcome) (id : LineId) (o : Outcome) : LineId → List Outcome :=
  Function.update course id (course id ++ [o])

@[simp]
theorem extend_self : extend course id o id = course id ++ [o] :=
  Function.update_self ..

theorem extend_of_ne {k : LineId} (h : k ≠ id) : extend course id o k = course k :=
  Function.update_of_ne h ..

-- The next item of a line is treated.
theorem Call.step {s' : Store} {log' : Log} (h : Call d s₀ course s log) (new : List GiveJob)
    (h₀ : s₀.line? id = some line₀) (hz : s'.lines.length = s.lines.length)
    (hk : ∀ k, k ≠ id → s'.line? k = s.line? k)
    (hd : ∀ line, s.line? id = some line → Delivered d line₀ line (course id) →
      ∃ line', s'.line? id = some line' ∧ Delivered d line₀ line' (course id ++ [o]))
    (ht : tries log' id = tries log id ++ triesFrom (course id).length [o])
    (ht' : ∀ k, k ≠ id → tries log' k = tries log k)
    (hj : s'.jobs = s.jobs ++ new) (hc : createdJobs log' = createdJobs log ++ new)
    (hf : ∀ job ∈ new, job.answer = none ∧ job.payload.grantKind = "item" ∧
      job.payload.grantItemIndex.isSome = true) :
    Call d s₀ (extend course id o) s' log' where
  size  := hz.trans h.size
  known k hn := by
    have hne : k ≠ id := by
      rintro rfl
      cases h₀.symm.trans hn
    exact (extend_of_ne hne).trans (h.known k hn)
  lines k line₁ h₁ := by
    have ⟨line, hl, hs⟩ := h.lines k line₁ h₁
    by_cases he : k = id
    case pos =>
      subst he
      cases h₀.symm.trans h₁
      simpa using hd line hl hs
    case neg => exact ⟨line, (hk k he).trans hl, extend_of_ne he ▸ hs⟩
  tried k := by
    by_cases he : k = id
    case pos =>
      subst he
      simp [ht, h.tried, triesFrom_append]
    case neg => rw [ht' k he, h.tried, extend_of_ne he]
  jobs  := by rw [hj, hc, h.jobs, List.append_assoc]
  fresh job hm := by
    rw [hc] at hm
    exact (List.mem_append.mp hm).elim (h.fresh job) (hf job)

section

variable {orgId : OrgId} {userId : UserId} {serverInstanceId : ServerId} {command : String}
  {index : Nat} {seen : List LineGrantItem} {stale : Bool} {queued : Nat}

-- The write of `queueShopGrantJob`.
def queuedData (data : LineData) (now : Time) : LineData :=
  { data with grantQueuedAt := some now, grantError := some none }

-- The commands of `queueShopGrantJob` with the fate of the creation of the job.
def queueLog (s : Store) (id : LineId) (data : LineData) (index : Nat) (seen : List LineGrantItem)
    (job : GiveJob) (fate : Fate) : Log :=
  [(.now, .served),
    (.updateLine id (queuedData data s.clock) (some { seen, item := some index }), .served),
    (.createJob job, fate)]

theorem wp_queueShopGrantJob {Q : Result Exception Bool → Store × Log → Prop}
    (hl : s.line? id = some line)
    (hc : ∀ job, job = giveJob orgId userId serverInstanceId id command index →
      Q (.ok true) ({ s.updateLine id (queuedData data s.clock) with jobs := s.jobs ++ [job] },
        log ++ queueLog s id data index seen job .served))
    (ht : ∀ job, job = giveJob orgId userId serverInstanceId id command index →
      Q (.ok false) ((s.updateLine id (queuedData data s.clock)).updateLine id
          { grantStatus := some "pending" },
        log ++ queueLog s id data index seen job .failed ++
          [(.updateLine id { grantStatus := some "pending" } none, .served)])) :
    (queueShopGrantJob orgId userId serverInstanceId id command data index seen).wp
      (logged shop enqueueFails) Q (s, log) := by
  have hn : ∀ {c : Cmd} fate, (∀ job, c ≠ .createJob job) → ¬enqueueFails c fate := by
    intro c fate hc h
    cases c <;> simp_all [enqueueFails]
  apply wp_handle.mpr
  refine wp_step_logged (rfl : exec .now s = (.ok s.clock, s)) ?_ fun _ => hn _ nofun
  refine wp_step_logged (exec_updateLine hl) ?_ fun _ => hn _ nofun
  have hq : ∀ job fate, log ++ queueLog s id data index seen job fate =
      log ++ [(.now, .served)] ++
        [(.updateLine id (queuedData data s.clock) (some { seen, item := some index }), .served)] ++
        [(.createJob job, fate)] := by simp [queueLog]
  simp only [hq] at hc ht
  refine wp_call_logged.mpr ⟨hc _ rfl, fun _ _ => ?_, fun _ h => nomatch h.left⟩
  have hl' : (s.updateLine id (queuedData data s.clock)).line? id =
      some ((queuedData data s.clock).apply line) := by simp [line?_updateLine, hl]
  -- The handler sets the status back and returns.
  have hw : (Prog.handle (send (.updateLine id { grantStatus := some "pending" } none))
      fun _ => pure ()).wp (logged shop enqueueFails)
      (seqPost (logged shop enqueueFails) Q fun _ => (pure false : Service Bool))
      (s.updateLine id (queuedData data s.clock), _) :=
    wp_handle.mpr <| wp_last_logged (exec_updateLine hl') (ht _ rfl) fun _ => hn _ nofun
  have hw := wp_bind.mpr hw
  exact hw

theorem buildGiveCommand_eq_none :
    buildGiveCommand d.playerName grant.name.val grant.quantity.val d.uuid = none ↔
      d.target = none := by
  simp only [buildGiveCommand, Option.map_some, parseGrantItemName_str, parseGrantQuantity_ofNat]
  cases h : grantPlayerTarget d.playerName d.uuid <;> simp [Delivery.target, h]

@[simp]
theorem tries_queueLog {k : LineId} {fate : Fate} :
    tries (queueLog s id data index seen (giveJob orgId userId serverInstanceId id command index) fate) k =
      if id = k then [(index, decide (fate = .served))] else [] := by
  by_cases h : id = k <;> simp [tries, queueLog, List.filterMap_cons, attempt?, giveJob, h]

@[simp]
theorem createdJobs_queueLog {job : GiveJob} {fate : Fate} :
    createdJobs (queueLog s id data index seen job fate) = if fate = .served then [job] else [] := by
  cases fate <;> rfl

@[simp]
theorem tries_updateLine {k : LineId} {basis : Option Basis} {fate : Fate} :
    tries [(.updateLine id data basis, fate)] k = [] :=
  rfl

@[simp]
theorem createdJobs_updateLine {basis : Option Basis} {fate : Fate} :
    createdJobs [(.updateLine id data basis, fate)] = [] :=
  rfl

theorem tries_append {log' : Log} {k : LineId} : tries (log ++ log') k = tries log k ++ tries log' k :=
  List.filterMap_append

theorem createdJobs_append {log' : Log} : createdJobs (log ++ log') = createdJobs log ++ createdJobs log' :=
  List.filterMap_append

theorem Call.keep (h : Call d s₀ course s log) (h₀ : s₀.line? id = some line₀) :
    Call d s₀ (extend course id .kept) s log := by
  apply h.step [] h₀
  case hz  => rfl
  case hk  => exact fun _ _ => rfl
  case hd  => exact fun line hl hd => ⟨line, hl, hd.keep⟩
  case ht  => simp [triesFrom]
  case ht' => exact fun _ _ => rfl
  case hj  => simp
  case hc  => simp
  case hf  => exact fun _ h => nomatch h

-- All items of the line are written and the next one is replaced by `o.apply grant`.
theorem Delivered.apply (hd : Delivered d line₀ line (course id))
    (ha : applied (course id) line₀.items = before ++ grant :: after)
    (hn : (course id).length = before.length) (ho : o = .created ∨ o = .rejected)
    (hp : Possible d grant o) (hi : data.grantItems = some (before ++ o.apply grant :: after))
    (hs : data.grantStatus = some (aggregateGrantStatus (before ++ o.apply grant :: after))) :
    Delivered d line₀ (data.apply line) (course id ++ [o]) := by
  have hlen : (before ++ o.apply grant :: after).length = line.items.length := by
    have hl := congrArg List.length ha
    simp only [length_applied, List.length_append, List.length_cons] at hl
    simp [hd.length, hl]
  have hw : (data.apply line).items = before ++ o.apply grant :: after := items_apply hi hlen
  exact hd.write ha hn hp ho hw (by rw [hw]; simp [LineData.apply, hs])

theorem lines_updateLine : (s.updateLine id data).lines.length = s.lines.length := by
  simp [Store.updateLine]

theorem Call.reject {basis : Option Basis} (h : Call d s₀ course s log)
    (h₀ : s₀.line? id = some line₀) (ha : applied (course id) line₀.items = before ++ grant :: after)
    (hn : (course id).length = before.length) (hp : Possible d grant .rejected)
    (hi : data.grantItems = some (before ++ grant.rejected :: after))
    (hs : data.grantStatus = some (aggregateGrantStatus (before ++ grant.rejected :: after))) :
    Call d s₀ (extend course id .rejected) (s.updateLine id data)
      (log ++ [(.updateLine id data basis, .served)]) := by
  apply h.step [] h₀
  case hz  => exact lines_updateLine
  case hk  => exact fun k hk => by rw [line?_updateLine, if_neg hk.symm]
  case hd  =>
    intro line hl hd
    exact ⟨data.apply line, by simp [line?_updateLine, hl], hd.apply ha hn (.inr rfl) hp hi hs⟩
  case ht  => simp [tries_append, triesFrom]
  case ht' => simp [tries_append]
  case hj  => simp [Store.updateLine]
  case hc  => simp [createdJobs_append]
  case hf  => exact fun _ h => by cases h

section

variable {grants : List LineGrantItem} {job : GiveJob}

theorem Call.create (h : Call d s₀ course s log) (h₀ : s₀.line? id = some line₀)
    (ha : applied (course id) line₀.items = before ++ grant :: after)
    (hn : (course id).length = before.length) (hp : Possible d grant .created)
    (hi : data.grantItems = some (before ++ Outcome.created.apply grant :: after))
    (hs : data.grantStatus =
      some (aggregateGrantStatus (before ++ Outcome.created.apply grant :: after)))
    (hj : job = giveJob orgId userId serverInstanceId id command before.length) :
    Call d s₀ (extend course id .created)
      { s.updateLine id (queuedData data s.clock) with jobs := s.jobs ++ [job] }
      (log ++ queueLog s id data before.length seen job .served) := by
  subst hj
  apply h.step [giveJob orgId userId serverInstanceId id command before.length] h₀
  case hz  => exact lines_updateLine
  case hk  =>
    intro k hk
    exact line?_updateLine.trans (if_neg hk.symm)
  case hd  =>
    intro line hl hd
    refine ⟨(queuedData data s.clock).apply line, ?_, hd.apply ha hn (.inl rfl) hp hi hs⟩
    exact line?_updateLine.trans (by simp [hl])
  case ht  => simp [tries_append, triesFrom, hn]
  case ht' => exact fun k hk => by simp [tries_append, hk.symm]
  case hj  => rfl
  case hc  => simp [createdJobs_append]
  case hf  => simp [giveJob]

theorem Call.postpone {pending : LineData} (h : Call d s₀ course s log)
    (h₀ : s₀.line? id = some line₀) (ha : applied (course id) line₀.items = before ++ grant :: after)
    (hn : (course id).length = before.length) (hp : Possible d grant .thrown)
    (hi : data.grantItems = some (before ++ Outcome.created.apply grant :: after))
    (hs : data.grantStatus =
      some (aggregateGrantStatus (before ++ Outcome.created.apply grant :: after)))
    (hj : job = giveJob orgId userId serverInstanceId id command before.length)
    (hpi : pending.grantItems = none) (hps : pending.grantStatus = some "pending") :
    Call d s₀ (extend course id .thrown)
      ((s.updateLine id (queuedData data s.clock)).updateLine id pending)
      (log ++ queueLog s id data before.length seen job .failed ++
        [(.updateLine id pending none, .served)]) := by
  subst hj
  apply h.step [] h₀
  case hz  => rw [lines_updateLine, lines_updateLine]
  case hk  =>
    intro k hk
    rw [line?_updateLine, if_neg hk.symm, line?_updateLine, if_neg hk.symm]
  case hd  =>
    intro line hl hd
    let line' := (queuedData data s.clock).apply line
    have hc : Possible d grant .created :=
      ⟨fun _ => hp.tried (.inr rfl), by rintro ⟨⟩, fun _ => hp.target.right (.inr rfl)⟩
    have hw : Delivered d line₀ line' (course id ++ [.created]) := hd.apply ha hn (.inl rfl) hc hi hs
    have hi' : line'.items = before ++ Outcome.created.apply grant :: after := by
      rw [hw.items, persisted_append_written (.inl rfl), applied_append ha hn]
    refine ⟨pending.apply line', by simp [line?_updateLine, hl, line'], ?_⟩
    apply hd.restore ha hn hp
    case hi => rw [items_apply_none hpi, hi']
    case hs => simp [LineData.apply, hps]
  case ht  => simp [tries_append, triesFrom, hn]
  case ht' => exact fun k hk => by simp [tries_append, hk.symm]
  case hj  => simp [Store.updateLine]
  case hc  => simp [createdJobs_append]
  case hf  => exact fun _ h => by cases h

end

-- A call from here on treats no other line.
def OnLine (d : Delivery) (s₀ : Store) (course : LineId → List Outcome) (id : LineId) {α : Type} :
    Result Exception α → Store × Log → Prop :=
  fun _ m => ∃ course', Call d s₀ course' m.1 m.2 ∧ ∀ k, k ≠ id → course' k = course k

theorem Call.wp_deliverItems {rest : List LineGrantItem} (h : Call d s₀ course s log)
    (h₀ : s₀.line? id = some line₀) (ha : applied (course id) line₀.items = before ++ rest)
    (hn : (course id).length = before.length) :
    (deliverItems d userId id stale seen before queued rest).wp (logged shop enqueueFails)
      (OnLine d s₀ course id) (s, log) := by
  induction rest generalizing s log course before seen queued
  case nil => exact ⟨course, h, fun _ _ => rfl⟩
  case cons grant after hi =>
    obtain ⟨line, hl, hd⟩ := h.lines id line₀ h₀
    -- The rest of the loop after an outcome.
    have next : ∀ {o s' log' seen' queued'}, Call d s₀ (extend course id o) s' log' →
        (deliverItems d userId id stale seen' (before ++ [o.apply grant]) queued' after).wp
          (logged shop enqueueFails) (OnLine d s₀ course id) (s', log') := by
      intro o s' log' seen' queued' hc
      have ha' := applied_append (o := o) ha hn
      refine wp_mono (hi hc (by simp [ha']) (by simp [hn])) ?_
      rintro _ _ ⟨course', hc', he⟩
      exact ⟨course', hc', fun k hk => (he k hk).trans (extend_of_ne hk)⟩
    rw [deliverItems]
    split
    case isTrue  => exact ⟨course, h, fun _ _ => rfl⟩
    case isFalse =>
      split
      case isFalse =>
        exact next (o := .kept) (h.keep h₀)
      case isTrue hdue =>
        have ho : grant.owed = true := owed_of_isDue hdue.left
        have hc : Outcome.created.apply grant = grant.tried hdue.right := dif_pos hdue.right
        simp only [← hc]
        split
        case h_1 hb =>
          have hp : Possible d grant .rejected :=
            ⟨fun ho => absurd ho (by decide), fun _ => buildGiveCommand_eq_none.mp hb,
              fun ho => absurd ho (by decide)⟩
          exact wp_step_logged (exec_updateLine hl)
            (next (o := .rejected) (h.reject h₀ ha hn hp rfl rfl)) fun _ h => by cases h.right
        case h_2 command hb =>
          have ht : d.target ≠ none := fun ht => by
            cases (buildGiveCommand_eq_none.mpr ht).symm.trans hb
          apply wp_bind.mpr
          apply wp_queueShopGrantJob hl
          case hc =>
            intro job hj
            have hp : Possible d grant .created :=
              ⟨fun _ => ⟨hdue.right, ho⟩, by rintro ⟨⟩, fun _ => ht⟩
            exact next (o := .created) (h.create h₀ ha hn hp rfl rfl hj)
          case ht =>
            intro job hj
            have hp : Possible d grant .thrown :=
              ⟨fun _ => ⟨hdue.right, ho⟩, by rintro ⟨⟩, fun _ => ht⟩
            exact next (o := .thrown) (h.postpone h₀ ha hn hp rfl rfl hj rfl rfl)

theorem Call.wp_deliverLines {staleBefore : ℤ} {lines : List (LineId × DonationLine)}
    (h : Call d s₀ course s log) (hd : (lines.map Prod.fst).Nodup)
    (hr : ∀ e ∈ lines, s₀.line? e.1 = some e.2 ∧ course e.1 = []) :
    (deliverLines d userId staleBefore queued lines).wp (logged shop enqueueFails)
      (fun _ m => ∃ course', Call d s₀ course' m.1 m.2) (s, log) := by
  induction lines generalizing s log course queued
  case nil => exact ⟨course, h⟩
  case cons e lines hi =>
    have ⟨hn, hd⟩ := List.nodup_cons.mp hd
    have ⟨h₀, hc⟩ := hr e List.mem_cons_self
    have hr := fun e' he => hr e' (List.mem_cons_of_mem e he)
    rw [deliverLines]
    split
    case isTrue  => exact ⟨course, h⟩
    case isFalse =>
      split
      case isTrue  => exact hi h hd hr
      case isFalse =>
        have hw : (deliverItems d userId e.1 (e.2.grantQueuedAt.all fun t => t < staleBefore) e.2.items
            [] queued e.2.items).wp (logged shop enqueueFails) (OnLine d s₀ course e.1) (s, log) :=
          h.wp_deliverItems h₀ (by simp [hc]) (by simp [hc])
        apply wp_bind.mpr
        apply wp_mono hw
        rintro r ⟨s', log'⟩ ⟨course', h', he⟩
        cases r
        case error => exact ⟨course', h'⟩
        case ended => exact ⟨course', h'⟩
        case ok    =>
          refine hi h' hd fun e' hm => ⟨(hr e' hm).left, ?_⟩
          have hne : e'.1 ≠ e.1 := fun hk => hn (List.mem_map.mpr ⟨e', hm, hk⟩)
          exact (he e'.1 hne).trans (hr e' hm).right

end

theorem Call.refl : Call d s (fun _ => []) s [] where
  size            := rfl
  known _ _       := rfl
  lines _ line hl := ⟨line, hl, .refl⟩
  tried _         := rfl
  jobs            := by simp [createdJobs]
  fresh _ h       := nomatch h

theorem Call.wp_deliverShopGrantLines :
    (deliverShopGrantLines d).wp (logged shop enqueueFails)
      (fun _ m => ∃ course, Call d s course m.1 m.2) (s, []) := by
  have hn : ∀ {c : Cmd} fate, (∀ job, c ≠ .createJob job) → ¬enqueueFails c fate := by
    intro c fate hc h
    cases c <;> simp_all [enqueueFails]
  have h₁ := Call.refl.aside (d := d) (s := s) (c := .findFirstMember d.orgId) nofun
  refine wp_step_logged (rfl : exec (.findFirstMember d.orgId) s = (.ok _, s)) ?_ fun _ => hn _ nofun
  split
  case h_1 => exact ⟨_, h₁⟩
  case h_2 =>
    have h₂ := h₁.aside (c := .now) nofun
    have h₃ := h₂.aside (c := .findDueLines d.playerId d.orgId d.serverInstanceId) nofun
    refine wp_step_logged (rfl : exec .now s = (.ok s.clock, s)) ?_ fun _ => hn _ nofun
    refine wp_step_logged (rfl : exec (.findDueLines d.playerId d.orgId d.serverInstanceId) s = (.ok _, s))
      ?_ fun _ => hn _ nofun
    have hs := (List.take_sublist 16 _).trans
      (List.filter_sublist : List.Sublist (s.dueLines d.playerId d.orgId d.serverInstanceId) s.lines.entries)
    refine h₃.wp_deliverLines ((hs.map _).nodup Table.entries_keys_nodup) fun e he => ⟨?_, rfl⟩
    exact Table.mem_entries.mp (hs.subset he)

-- What a delivery has done, if only the creation of jobs has failed.
theorem deliver_call {fates : List Fate}
    (h : Run.Within enqueueFails ((deliverShopGrantLines d).run fates s)) :
    ∃ course, Call d s course ((deliverShopGrantLines d).run fates s).state
      ((deliverShopGrantLines d).run fates s).log :=
  wp_run_logged Call.wp_deliverShopGrantLines h fun _ h => nomatch h.left

end Donations
