import Mastermind.Donations.Theorems.Enqueue

open Effects Prog Jobs

namespace Donations

-- The item of a line.
def Store.item? (s : Store) (id : LineId) (i : Nat) : Option LineGrantItem :=
  (s.line? id).bind (·.items[i]?)

-- Some job of the item has not been answered.
def Store.outstanding (s : Store) (id : LineId) (i : Nat) : Bool :=
  s.jobs.any fun job => job.answer.isNone && job.payload.item = (id, some i)

-- Every item that has no attempts left is settled or waits for an answer.
def NoneStuck (s : Store) : Prop :=
  ∀ id i item, s.item? id i = some item → maxGrantAttempts ≤ item.attempts.val → item.owed = true →
    s.outstanding id i = true

-- The jobs belong to items.
def Grounded (s : Store) : Prop :=
  ∀ job ∈ s.jobs, job.payload.grantKind = "item" ∧
    ∃ i, job.payload.grantItemIndex = some i ∧ (s.item? job.payload.donationLineId i).isSome = true

-- Accesses to the database succeed; only the creation of a job may fail.
def Undisturbed (s : Store) : Op → Prop
  | .deliver d fates   => Run.Within enqueueFails ((deliverShopGrantLines d).run fates s)
  | .answer _ _ fates  => fates = []
  | _                  => True

-- The item has attempts left after another one, or some job of it has not been answered.
def Store.spares (s : Store) (id : LineId) (i n : Nat) : Bool :=
  (s.item? id i).all (fun item => item.attempts.val + n < maxGrantAttempts) || s.outstanding id i

-- The last attempt of an item is not lost: it is not the one whose job is not created, and its answer
-- does not ask for another attempt.
def Spares (s : Store) : Op → Prop
  | .deliver d fates =>
    ((List.range s.lines.length).all fun id =>
      match (tries ((deliverShopGrantLines d).run fates s).log id).getLast? with
      | some (i, false) => s.spares id i 1
      | _               => true) = true
  | .answer id a _ =>
    (s.openJob? id).all (fun job => a.outcome ≠ .retry ||
      job.payload.grantItemIndex.all fun i =>
        (s.answer id a).spares job.payload.donationLineId i 0) = true
  | _ => True

variable {s s' : Store} {line : DonationLine} {id k : LineId} {item : LineGrantItem} {i : Nat}
  {os : List Outcome} {o : Outcome} {d : Delivery} {log : Log} {course : LineId → List Outcome}
  {job : GiveJob}

theorem item?_eq_some : s.item? id i = some item ↔
    ∃ line, s.line? id = some line ∧ line.items[i]? = some item :=
  Option.bind_eq_some_iff

theorem outstanding_iff : s.outstanding id i = true ↔
    ∃ job ∈ s.jobs, job.answer = none ∧ job.payload.item = (id, some i) := by
  simp [Store.outstanding]

theorem attempt?_eq_true {e : Cmd × Fate} : attempt? id e = some (i, true) ↔
    ∃ job, created? e = some job ∧ job.payload.item = (id, some i) := by
  obtain ⟨c, fate⟩ := e
  cases c
  case createJob job =>
    have hp : job.payload.item = (id, some i) ↔
        job.payload.donationLineId = id ∧ job.payload.grantItemIndex = some i := by
      simp [GrantPayload.item]
    cases fate <;> simp [attempt?, created?, hp, Option.map_eq_some_iff, ite_eq_iff]
  all_goals simp [attempt?, created?]

theorem mem_tries_true : (i, true) ∈ tries log id ↔
    ∃ job ∈ createdJobs log, job.payload.item = (id, some i) := by
  simp only [tries, createdJobs, List.mem_filterMap, attempt?_eq_true]
  constructor
  case mp =>
    rintro ⟨e, hm, job, hj, hi⟩
    exact ⟨job, ⟨e, hm, hj⟩, hi⟩
  case mpr =>
    rintro ⟨job, ⟨e, hm, hj⟩, hi⟩
    exact ⟨e, hm, job, hj, hi⟩

theorem length_persisted : (persisted os).length = os.length := by
  induction os using List.reverseRecOn
  case nil => rfl
  case append_singleton os o hi =>
    cases o <;> simp [persisted_append_written, hi]

-- An outcome that is stored is the outcome itself, or it stands for the last item that was tried.
theorem getElem?_persisted (h : (persisted os)[i]? = some o) :
    os[i]? = some o ∨ (o = .created ∧ (triesFrom 0 os).getLast? = some (i, false)) := by
  induction os using List.reverseRecOn
  case nil => exact .inl h
  case append_singleton os o' hi =>
    cases o'
    case created  => exact .inl (by rwa [persisted_append_written (.inl rfl)] at h)
    case rejected => exact .inl (by rwa [persisted_append_written (.inr rfl)] at h)
    case kept     =>
      rw [persisted_append_kept, List.getElem?_append, length_persisted] at h
      rw [triesFrom_append, List.getElem?_append]
      split at h
      case isTrue hlt   => simpa [triesFrom, hlt] using hi h
      case isFalse hnlt => exact .inl (by rwa [if_neg hnlt])
    case thrown   =>
      rw [persisted_append_thrown, List.getElem?_append] at h
      rw [triesFrom_append, List.getElem?_append]
      split at h
      case isTrue hlt   => exact .inl (by rwa [if_pos hlt])
      case isFalse hnlt =>
        obtain ⟨hz, ho⟩ := List.getElem?_eq_some_iff.mp h
        have hi : i = os.length := by simp at hz; omega
        subst hi
        exact .inr ⟨by simpa using ho.symm, by simp [triesFrom]⟩

theorem outstanding_append {new : List GiveJob} (hj : s'.jobs = s.jobs ++ new)
    (h : s.outstanding id i = true) : s'.outstanding id i = true := by
  have ⟨job, hm, hp⟩ := outstanding_iff.mp h
  exact outstanding_iff.mpr ⟨job, hj ▸ List.mem_append_left _ hm, hp⟩

-- The items after a delivery come from items before it.
theorem Call.item? {item' : LineGrantItem} (h : Call d s course s' log)
    (hi : s'.item? id i = some item') : ∃ item, (s.item? id i = some item) ∧
      item' = ((persisted (course id)).getD i .kept).apply item ∧
      ∀ ok, (i, ok) ∈ triesFrom 0 (course id) →
        item.attempts.val < maxGrantAttempts ∧ item.owed = true := by
  have ⟨line', hl', hi'⟩ := item?_eq_some.mp hi
  have hlt : id < s.lines.length := h.size ▸ (List.getElem?_eq_some_iff.mp hl').choose
  have hl : s.line? id = some s.lines[id] := List.getElem?_eq_getElem hlt
  have ⟨_, hl₁, hd⟩ := h.lines id _ hl
  cases hl'.symm.trans hl₁
  rw [hd.items, getElem?_applied] at hi'
  have ⟨item, hb, he⟩ := Option.map_eq_some_iff.mp hi'
  refine ⟨item, item?_eq_some.mpr ⟨_, hl, hb⟩, he.symm, fun ok hm => ?_⟩
  have ⟨item₁, hb₁, hp⟩ := hd.tried i ok hm
  cases hb.symm.trans hb₁
  exact hp

-- A delivery loses no item that has no attempts left.
theorem NoneStuck.call (h : NoneStuck s) (hc : Call d s course s' log)
    (hs : ∀ id i, (tries log id).getLast? = some (i, false) → s.spares id i 1 = true) :
    NoneStuck s' := by
  intro id i item' hi' hm ho
  have ⟨item, hi, he, ht⟩ := hc.item? hi'
  subst he
  cases hp : (persisted (course id))[i]?
  case none =>
    rw [List.getD_eq_getElem?_getD, hp] at hm ho
    exact outstanding_append hc.jobs (h id i item hi hm ho)
  case some o =>
    rw [List.getD_eq_getElem?_getD, hp] at hm ho
    cases o
    case kept     => exact outstanding_append hc.jobs (h id i item hi hm ho)
    case rejected => nomatch ho
    case thrown   =>
      have hf : (i, false) ∈ triesFrom 0 (course id) :=
        mem_tries_of_getElem? ((getElem?_persisted hp).resolve_right fun h => nomatch h.left)
      exact absurd (ht false hf).left (Nat.not_lt.mpr hm)
    case created  =>
      cases getElem?_persisted hp
      case inl hg =>
        -- The job was created.
        have hm : (i, true) ∈ tries log id := hc.tried id ▸ mem_tries_of_getElem? hg
        have ⟨job, hj, hi⟩ := mem_tries_true.mp hm
        exact outstanding_iff.mpr
          ⟨job, hc.jobs ▸ List.mem_append_right _ hj, (hc.fresh job hj).left, hi⟩
      case inr hg =>
        -- The job was not created, and the additional attempt is stored.
        have hl := hg.right
        have hf := (ht false (List.mem_of_getLast? hl)).left
        have hs := hs id i (hc.tried id ▸ hl)
        simp only [Store.spares, hi, Option.all_some, Bool.or_eq_true, decide_eq_true_eq] at hs
        cases hs
        case inr hs => exact outstanding_append hc.jobs hs
        case inl hs =>
          simp only [Option.getD_some, Outcome.apply, dif_pos hf, LineGrantItem.tried] at hm
          omega

theorem Call.item?_isSome (h : Call d s course s' log) (hi : (s.item? id i).isSome = true) :
    (s'.item? id i).isSome = true := by
  have ⟨item, hi⟩ := Option.isSome_iff_exists.mp hi
  have ⟨line, hl, hi⟩ := item?_eq_some.mp hi
  have ⟨line', hl', hd⟩ := h.lines id line hl
  exact Option.isSome_iff_exists.mpr ⟨_, item?_eq_some.mpr ⟨line', hl', hd.getElem? hi⟩⟩

theorem Grounded.call (h : Grounded s) (hc : Call d s course s' log) : Grounded s' := by
  intro job hm
  rw [hc.jobs] at hm
  cases List.mem_append.mp hm
  case inl hm =>
    obtain ⟨hk, i, hi, hs⟩ := h job hm
    exact ⟨hk, i, hi, hc.item?_isSome hs⟩
  case inr hm =>
    obtain ⟨_, hk, hs⟩ := hc.fresh job hm
    obtain ⟨i, hi⟩ := Option.isSome_iff_exists.mp hs
    refine ⟨hk, i, hi, hc.item?_isSome ?_⟩
    have ht : (i, true) ∈ triesFrom 0 (course job.payload.donationLineId) :=
      hc.tried _ ▸ mem_tries_true.mpr ⟨job, hm, by rw [GrantPayload.item, hi]⟩
    cases hl : s.line? job.payload.donationLineId
    case none      => simp [hc.known _ hl, triesFrom] at ht
    case some line =>
      obtain ⟨_, _, hd⟩ := hc.lines _ line hl
      obtain ⟨item, hb, _⟩ := hd.tried i true ht
      exact Option.isSome_iff_exists.mpr ⟨item, item?_eq_some.mpr ⟨line, hl, hb⟩⟩

-- The report of an answer writes the items of the line.
theorem wp_finishShopGrant {payload : GrantPayload} {a : Answer} (hk : payload.grantKind = "item")
    (hl : s.line? payload.donationLineId = some line) :
    (finishShopGrant payload a).wp (under shop .none)
      (fun _ s' => ∃ data : LineData,
        (data.grantItems = some (answeredItems a line.items (targetItem payload line.items))) ∧
        s' = s.updateLine payload.donationLineId data) s := by
  have hn : ¬payload.grantKind = "chat_color" := by rw [hk]; decide
  rw [finishShopGrant, if_neg hn]
  refine wp_step (rfl : exec (.findLine payload.donationLineId) s = (.ok (s.line? _), s)) ?_
    fun _ _ h => h.elim
  simp only [hl]
  apply wp_bind.mpr
  apply wp_mono wp_grantTime
  rintro r s' ⟨hr, rfl⟩
  cases r
  case ok    => exact wp_last (exec_updateLine hl) ⟨_, rfl, rfl⟩ fun _ _ h => h.elim
  case error => cases hr
  case ended => cases hr

-- The items after the report of an answer to a job of the item `i`.
theorem item?_answered {data : LineData} {a : Answer} {j : Nat} (hl : s.line? id = some line)
    (hd : data.grantItems = some (answeredItems a line.items (some i))) :
    (s.updateLine id data).item? k j =
      if k = id ∧ j = i then
        (s.item? k j).map fun item => { item with status := a.outcome.next, error := a.error }
      else s.item? k j := by
  have hw := items_apply hd length_answeredItems
  simp only [Store.item?, line?_updateLine]
  by_cases hk : id = k
  case neg => simp [hk, Ne.symm hk]
  case pos =>
    subst hk
    simp only [hl, if_true, Option.map_some, Option.bind_some, hw, answeredItems, true_and,
      List.getElem?_modify]
    by_cases hj : i = j
    case pos => simp [hj]
    case neg => simp [hj, Ne.symm hj]

theorem openJob?_eq_some {n : JobId} : s.openJob? n = some job ↔ s.job? n = some job ∧ job.answer = none := by
  simp [Store.openJob?, Option.filter_eq_some_iff]

-- The report of an answer to a job writes the job's item.
theorem Grounded.finish {n : JobId} {a : Answer} (h : Grounded s) (hj : s.openJob? n = some job) :
    ∃ i data line, (job.payload.grantItemIndex = some i) ∧
      (s.line? job.payload.donationLineId = some line) ∧
      (data.grantItems = some (answeredItems a line.items (some i))) ∧
      ((finishShopGrant job.payload a).run [] (s.answer n a)).state =
        (s.answer n a).updateLine job.payload.donationLineId data := by
  have ⟨hk, i, hi, hs⟩ := h job (List.mem_of_getElem? (openJob?_eq_some.mp hj).left)
  have ⟨item, hs⟩ := Option.isSome_iff_exists.mp hs
  have ⟨line, hl, hb⟩ := item?_eq_some.mp hs
  have hlt : i < line.items.length := (List.getElem?_eq_some_iff.mp hb).choose
  have ht : targetItem job.payload line.items = some i := by
    simp [targetItem, hi, Option.filter, hlt]
  have ⟨data, hd, he⟩ := wp_run_nil (wp_finishShopGrant (s := s.answer n a) (a := a) hk hl)
  exact ⟨i, data, line, hi, hl, ht ▸ hd, he⟩

theorem outstanding_answer {n : JobId} {a : Answer} (hj : s.openJob? n = some job)
    (hp : job.payload.item ≠ (id, some i)) (h : s.outstanding id i = true) :
    (s.answer n a).outstanding id i = true := by
  have ⟨job', hm, ho, hi⟩ := outstanding_iff.mp h
  have ⟨m, hm⟩ := List.getElem?_of_mem hm
  have hn : n ≠ m := by
    rintro rfl
    cases (openJob?_eq_some.mp hj).left.symm.trans hm
    exact hp hi
  have hm : (s.answer n a).jobs[m]? = some job' := (List.getElem?_modify_ne _ _ hn).trans hm
  exact outstanding_iff.mpr ⟨job', List.mem_of_getElem? hm, ho, hi⟩

theorem NoneStuck.finish {n : JobId} {a : Answer} (h : NoneStuck s) (hg : Grounded s)
    (hj : s.openJob? n = some job) (hs : Spares s (.answer n a [])) :
    NoneStuck ((finishShopGrant job.payload a).run [] (s.answer n a)).state := by
  obtain ⟨i, data, line, hi, hl, hd, he⟩ := hg.finish (a := a) hj
  have hit := fun k j => item?_answered (s := s.answer n a) (k := k) (j := j) hl hd
  rw [he]
  intro k j item' hi' hm ho
  rw [hit] at hi'
  split at hi'
  case isFalse hne =>
    have hp : job.payload.item ≠ (k, some j) := by
      intro hp
      rw [GrantPayload.item, hi] at hp
      cases hp
      exact hne ⟨rfl, rfl⟩
    exact outstanding_answer hj hp (h k j item' hi' hm ho)
  case isTrue hkj =>
    obtain ⟨rfl, rfl⟩ := hkj
    obtain ⟨item, hi₀, he'⟩ := Option.map_eq_some_iff.mp hi'
    subst he'
    cases hr : a.outcome
    case delivered =>
      simp [LineGrantItem.owed, GrantOutcome.next, hr] at ho
      exact absurd ho (by decide)
    case failed =>
      simp [LineGrantItem.owed, GrantOutcome.next, hr] at ho
      exact absurd ho (by decide)
    case retry     =>
      simp only [Spares, hj, hr, ne_eq, not_true, decide_false, Bool.false_or] at hs
      simp only [hi, Option.all_some, Store.spares, hi₀, Bool.or_eq_true, decide_eq_true_eq] at hs
      cases hs
      case inl hs => exact absurd hs (Nat.not_lt.mpr hm)
      case inr hs => exact hs

theorem Grounded.finish_keeps {n : JobId} {a : Answer} (h : Grounded s) (hj : s.openJob? n = some job) :
    Grounded ((finishShopGrant job.payload a).run [] (s.answer n a)).state := by
  have ⟨i, data, line, hi, hl, hd, he⟩ := h.finish (a := a) hj
  rw [he]
  intro job' hm
  have ⟨m, hm⟩ := List.getElem?_of_mem hm
  have ⟨job₀, hm, hp⟩ : ∃ job₀ ∈ s.jobs, job'.payload = job₀.payload := by
    have hm : (s.jobs.modify n (GiveJob.answered a))[m]? = some job' := hm
    rw [List.getElem?_modify] at hm
    have ⟨job₀, hm, hp⟩ := Option.map_eq_some_iff.mp hm
    refine ⟨job₀, List.mem_of_getElem? hm, ?_⟩
    rw [← hp]
    split <;> rfl
  have ⟨hk, i', hi', hs⟩ := h job₀ hm
  refine ⟨hp ▸ hk, i', hp ▸ hi', ?_⟩
  rw [hp, item?_answered (s := s.answer n a) hl hd]
  split
  case isFalse => exact hs
  case isTrue  => rw [Option.isSome_map]; exact hs

-- New lines have all attempts left.
theorem NoneStuck.stocked (h : NoneStuck s) (hs : Stocked s s') : NoneStuck s' := by
  intro id i item hi hm ho
  have ⟨line, hl, hb⟩ := item?_eq_some.mp hi
  cases hs.old_or_fresh hl
  case inl hl =>
    have ho := h id i item (item?_eq_some.mpr ⟨line, hl, hb⟩) hm ho
    exact outstanding_append (by rw [hs.left, List.append_nil]) ho
  case inr hf =>
    have ⟨⟨specs, hf⟩, _⟩ := hf
    have ⟨spec, _, he⟩ := List.mem_map.mp (hf ▸ List.mem_of_getElem? hb)
    subst he
    exact absurd hm (by simp [maxGrantAttempts])

theorem Grounded.stocked (h : Grounded s) (hs : Stocked s s') : Grounded s' := by
  have ⟨hj, new, hn, _⟩ := hs
  intro job hm
  have ⟨hk, i, hi, hs⟩ := h job (hj ▸ hm)
  have ⟨item, hs⟩ := Option.isSome_iff_exists.mp hs
  have ⟨line, hl, hb⟩ := item?_eq_some.mp hs
  have hl : s'.line? job.payload.donationLineId = some line :=
    (congrArg (·[job.payload.donationLineId]?) hn).trans (Table.getElem?_append_of_some hl)
  exact ⟨hk, i, hi, Option.isSome_iff_exists.mpr ⟨item, item?_eq_some.mpr ⟨line, hl, hb⟩⟩⟩

theorem NoneStuck.next {op : Op} (h : NoneStuck s ∧ Grounded s) (hu : Undisturbed s op)
    (hs : Spares s op) : NoneStuck (sequential.next s op) ∧ Grounded (sequential.next s op) := by
  cases op
  case elapse ms => exact h
  case complete paid fates =>
    have hs : Stocked s ((completeSession paid).run fates s).state :=
      wp_run wp_completeSession fun _ _ _ => trivial
    exact ⟨h.left.stocked hs, h.right.stocked hs⟩
  case deliver d fates =>
    have ⟨course, hc⟩ := deliver_call hu
    refine ⟨h.left.call hc fun id i hl => ?_, h.right.call hc⟩
    have hlt : id < s.lines.length := by
      cases hz : s.line? id
      case none   => simp [hc.tried, hc.known id hz, triesFrom] at hl
      case some _ => exact (List.getElem?_eq_some_iff.mp hz).choose
    have hs := List.all_eq_true.mp hs id (List.mem_range.mpr hlt)
    simpa [hl] using hs
  case answer n a fates =>
    cases hu
    simp only
    split
    case h_2        => exact h
    case h_1 job hj => exact ⟨h.left.finish h.right hj hs, h.right.finish_keeps hj⟩

instance {op : Op} : Decidable (Undisturbed s op) := by
  unfold Undisturbed
  split <;> infer_instance

instance {op : Op} : Decidable (Spares s op) := by
  unfold Spares
  split <;> infer_instance

-- An item that has no attempts left is settled by the answer to its last job, as long as no last
-- attempt is lost.
theorem exhausted_settled {ops : List Op} (hl : s.lines = []) (hj : s.jobs = [])
    (hu : sequential.Meets Undisturbed s ops) (hs : sequential.Meets Spares s ops) :
    (∀ id i item, (sequential.run s ops).item? id i = some item →
      maxGrantAttempts ≤ item.attempts.val → item.status = .pending ∨ item.status = .queued →
      (sequential.run s ops).outstanding id i = true) ∧
    ∀ n a job i item, (sequential.run s ops).openJob? n = some job →
      job.payload.grantItemIndex = some i →
      (sequential.run s ops).item? job.payload.donationLineId i = some item →
      maxGrantAttempts ≤ item.attempts.val →
      ((sequential.run s ops).answer n a).outstanding job.payload.donationLineId i = false →
      Spares (sequential.run s ops) (.answer n a []) →
      ∃ item', ((sequential.next (sequential.run s ops) (.answer n a [])).item?
        job.payload.donationLineId i = some item') ∧
        (item'.status = .delivered ∨ item'.status = .failed) := by
  have h₀ : NoneStuck s ∧ Grounded s := by
    constructor
    case left  => intro id i item hi; simp [Store.item?, Store.line?, hl] at hi
    case right => intro job hm; simp [hj] at hm
  have hn : ∀ s op, NoneStuck s ∧ Grounded s → Undisturbed s op ∧ Spares s op →
      NoneStuck (sequential.next s op) ∧ Grounded (sequential.next s op) :=
    fun _ _ h hc => NoneStuck.next h hc.left hc.right
  obtain ⟨h, hg⟩ := System.invariant hn h₀ (hu.and hs)
  refine ⟨fun id i item hi hm ho => h id i item hi hm (owed_iff.mpr ho), ?_⟩
  intro n a job i item hj hi hit hm ho hsp
  have hr : a.outcome ≠ .retry := by
    intro hr
    simp only [Spares, hj, hr, hi, Option.all_some, ne_eq, not_true, decide_false, Bool.false_or,
      Store.spares, ho, Bool.or_false] at hsp
    have hit : ((sequential.run s ops).answer n a).item? job.payload.donationLineId i = some item := hit
    simp only [hit, Option.all_some, decide_eq_true_eq] at hsp
    omega
  obtain ⟨i', data, line, hi', hl, hd, he⟩ := hg.finish (a := a) hj
  cases hi.symm.trans hi'
  refine ⟨{ item with status := a.outcome.next, error := a.error }, ?_, ?_⟩
  case refine_1 =>
    simp only [hj, he]
    rw [item?_answered (s := (sequential.run s ops).answer n a) hl hd, if_pos ⟨rfl, rfl⟩]
    exact congrArg (Option.map _) hit
  case refine_2 =>
    cases ho : a.outcome
    case delivered => exact .inl rfl
    case failed    => exact .inr rfl
    case retry     => exact absurd ho hr

-- The server answers that the player is not there.
def absent : Answer where
  runStatus := "success"
  output    := "No player was found"

-- A shop that sells a single torch.
def Store.torch : Store where
  clock     := 0
  members   := [{ orgId := 0, userId := 0, createdAt := 0 }]
  shopItems := [{
    orgId := 0, name := "Torch", priceCents := 500, grantItemName := none, grantQuantity := 1
    grantItems := .arr [.obj [("name", .str "torch"), ("quantity", .ofNat 1)]] }]

-- The torch is tried `n` times, each time in vain.
def tried (n : Nat) : List Op :=
  .complete .sample [] ::
    (List.range n).flatMap fun i => [.deliver .sample [], .answer i absent []]

theorem exhausted_settled_lastTry :
    (∀ id i item, (sequential.run .torch (tried 7 ++ [.deliver .sample []])).item? id i = some item →
      maxGrantAttempts ≤ item.attempts.val → item.status = .pending ∨ item.status = .queued →
      (sequential.run .torch (tried 7 ++ [.deliver .sample []])).outstanding id i = true) ∧
    (sequential.run .torch (tried 7 ++ [.deliver .sample []])).outstanding 0 0 = true :=
  ⟨(exhausted_settled rfl rfl (by decide +kernel) (by decide +kernel)).left, by decide +kernel⟩

theorem exhausted_stuck_eightTries :
    (((sequential.run .torch (tried 8)).item? 0 0).map fun item =>
      (item.status.val, item.attempts.val)) = some ("pending", 8) ∧
    (sequential.run .torch (tried 8)).outstanding 0 0 = false := by
  decide +kernel

end Donations
