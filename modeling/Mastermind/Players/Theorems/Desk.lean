import Mastermind.Players.Theorems.View

open Effects Js Jobs Triggers

namespace Players

-- The fires and the jobs that give what they promise.
structure Desk where
  fires : Table (Row TriggerFire)
  jobs  : Table Job

def Store.desk (s : Store) : Desk where
  fires := s.fires
  jobs  := s.jobs

def Job.isFor (id : FireId) (job : Job) : Bool :=
  job.payload.triggerFireId = some id

namespace Desk

def fire? (d : Desk) (id : FireId) : Option TriggerFire :=
  live? d.fires id

-- A job for a fire that has not been reported yet.
def Outstanding (d : Desk) (id : FireId) (j : JobId) : Prop :=
  ∃ job, d.jobs[j]? = some job ∧ job.isFor id = true ∧ job.reported = false

-- The number of jobs that there have been for a fire.
def jobsFor (d : Desk) (id : FireId) : Nat :=
  d.jobs.countP (·.isFor id)

def isDelivered (d : Desk) (id : FireId) : Bool :=
  d.fires[id]?.any (·.data.status = .delivered)

def update (d : Desk) (id : FireId) (data : FireData) : Desk :=
  { d with fires := d.fires.modify id (Row.modify data.apply) }

def enqueue (d : Desk) (job : Job) : Desk :=
  { d with jobs := d.jobs ++ [job] }

def create (d : Desk) (fire : TriggerFire) : Desk :=
  { d with fires := d.fires ++ [⟨fire, true⟩] }

def close (d : Desk) (j : JobId) : Desk :=
  { d with jobs := d.jobs.modify j Job.close }

end Desk

-- Each fire has one job at a time, which the fire waits for.
structure Orderly (d : Desk) : Prop where
  distinct : ∀ k k' f f', d.fire? k = some f → d.fire? k' = some f' → f.mark = f'.mark → k = k'
  known    : ∀ (j : JobId) job id, d.jobs[j]? = some job → job.isFor id = true → id < d.fires.length
  queued   : ∀ id j f, d.Outstanding id j → d.fire? id = some f → f.status = .queued
  single   : ∀ id j j', d.Outstanding id j → d.Outstanding id j' → j = j'

-- What has been delivered stays delivered, and nothing is enqueued for it again.
def Desk.Keeps (d d' : Desk) : Prop :=
  ∀ id, d.isDelivered id = true → d'.isDelivered id = true ∧ d'.jobsFor id = d.jobsFor id

variable {d d' d'' : Desk} {id : FireId} {fire : TriggerFire} {data : FireData} {j : JobId} {job : Job}

theorem Desk.Keeps.refl : d.Keeps d :=
  fun _ h => ⟨h, rfl⟩

theorem Desk.Keeps.trans (h : d.Keeps d') (h' : d'.Keeps d'') : d.Keeps d'' :=
  fun id hd => ⟨(h' id (h id hd).left).left, (h' id (h id hd).left).right.trans (h id hd).right⟩

-- All jobs for a fire have been reported.
def Desk.Idle (d : Desk) (id : FireId) : Prop :=
  ∀ job ∈ d.jobs, job.isFor id = true → job.reported = true

theorem Desk.idle_iff : d.Idle id ↔ ∀ j, ¬d.Outstanding id j := by
  constructor
  case mp =>
    intro h j ⟨job, hj, hk, hr⟩
    rw [h job (List.mem_of_getElem? hj) hk] at hr
    nomatch hr
  case mpr =>
    intro h job hm hk
    have ⟨j, hj⟩ := List.getElem?_of_mem hm
    cases hr : job.reported
    case true  => rfl
    case false => exact absurd ⟨job, hj, hk, hr⟩ (h j)

theorem Orderly.idle_of_status (h : Orderly d) (hf : d.fire? id = some fire)
    (hs : fire.status ≠ .queued) : d.Idle id :=
  Desk.idle_iff.mpr fun j ho => hs <| h.queued id j fire ho hf

@[simp]
theorem Desk.fire?_update {k : FireId} :
    (d.update id data).fire? k = if id = k then (d.fire? k).map data.apply else d.fire? k :=
  live?_modify

theorem Desk.isDelivered_of_fire (hf : d.fire? id = some fire) :
    d.isDelivered id = decide (fire.status = .delivered) := by
  have hf : d.fires[id]? = some ⟨fire, true⟩ := live?_eq_some.mp hf
  simp [Desk.isDelivered, hf]

-- Fires may be deleted, and those that nothing is on its way for may get any status.
theorem Orderly.of_fires {fires : Table (Row TriggerFire)} (h : Orderly d)
    (hl : fires.length = d.fires.length)
    (hf : ∀ k f, live? fires k = some f →
      ∃ f', d.fire? k = some f' ∧ f'.mark = f.mark ∧ (f.status = f'.status ∨ d.Idle k)) :
    Orderly { d with fires } := by
  constructor
  case distinct =>
    intro k k' f f' hk hk' hm
    have ⟨g, hg, he, _⟩ := hf k f hk
    have ⟨g', hg', he', _⟩ := hf k' f' hk'
    exact h.distinct k k' g g' hg hg' (he.trans (hm.trans he'.symm))
  case known => exact fun j job k hj hk => hl ▸ h.known j job k hj hk
  case single => exact h.single
  case queued =>
    intro k j f ho hk
    have ⟨f', hf', _, hs⟩ := hf k f hk
    cases hs
    case inl hs => exact hs.trans (h.queued k j f' ho hf')
    case inr hi => exact absurd ho (Desk.idle_iff.mp hi j)

theorem Orderly.update (h : Orderly d) (hi : d.Idle id) : Orderly (d.update id data) := by
  apply h.of_fires
  case hl => simp
  case hf =>
    intro k f hk
    rw [live?_modify] at hk
    split at hk
    case isFalse => exact ⟨f, hk, rfl, .inl rfl⟩
    case isTrue he =>
      obtain ⟨f', hf', rfl⟩ := Option.map_eq_some_iff.mp hk
      exact ⟨f', hf', rfl, .inr (he ▸ hi)⟩

theorem Desk.Keeps.update (hf : d.fire? id = some fire) (hs : fire.status ≠ .delivered) :
    d.Keeps (d.update id data) := by
  intro k hk
  refine ⟨?_, rfl⟩
  have hn : id ≠ k := by
    rintro rfl
    rw [isDelivered_of_fire hf] at hk
    exact hs (of_decide_eq_true hk)
  simpa [isDelivered, Desk.update, List.getElem?_modify, hn] using hk

theorem Desk.outstanding_enqueue {k : FireId} (h : (d.enqueue job).Outstanding k j) :
    d.Outstanding k j ∨ (j = d.jobs.length ∧ job.isFor k = true) := by
  obtain ⟨job', hj, hk, hr⟩ := h
  rw [Desk.enqueue, List.getElem?_append] at hj
  split at hj
  case isTrue  => exact .inl ⟨job', hj, hk, hr⟩
  case isFalse hl =>
    have ⟨he, hj⟩ : j - d.jobs.length = 0 ∧ job = job' := by
      simpa [List.getElem?_singleton] using hj
    exact .inr ⟨Nat.le_antisymm (Nat.le_of_sub_eq_zero he) (Nat.le_of_not_lt hl), hj ▸ hk⟩

theorem Job.isFor_iff : job.isFor id = true ↔ job.payload.triggerFireId = some id := by
  simp [Job.isFor]

-- The fire of a new job waits for it.
theorem Orderly.enqueue (h : Orderly d) (hi : d.Idle id) (hf : d.fire? id = some fire)
    (hj : job.payload.triggerFireId = some id) (hs : data.status = .queued) :
    Orderly ((d.enqueue job).update id data) := by
  have hnew : ∀ {k j}, (d.enqueue job).Outstanding k j →
      (k ≠ id ∧ d.Outstanding k j) ∨ (k = id ∧ j = d.jobs.length) := by
    intro k j ho
    cases Desk.outstanding_enqueue ho
    case inl ho => exact .inl ⟨fun he => Desk.idle_iff.mp hi j (he ▸ ho), ho⟩
    case inr hn =>
      have hk : k = id := Option.some.inj <| (Job.isFor_iff.mp hn.right).symm.trans hj
      exact .inr ⟨hk, hn.left⟩
  have hu : Orderly (d.update id data) := h.update hi
  constructor
  case distinct => exact hu.distinct
  case known =>
    intro j job' k hj' hk
    rw [Desk.update, List.length_modify]
    change (d.jobs ++ [job])[j]? = some job' at hj'
    rw [List.getElem?_append] at hj'
    split at hj'
    case isTrue  => exact h.known j job' k hj' hk
    case isFalse =>
      obtain rfl := List.mem_singleton.mp <| List.mem_of_getElem? hj'
      obtain rfl := Option.some.inj <| (Job.isFor_iff.mp hk).symm.trans hj
      have hf := live?_eq_some.mp hf
      exact (List.getElem?_eq_some_iff.mp hf).choose
  case queued =>
    intro k j f ho hk
    cases hnew ho
    case inl hn => exact hu.queued k j f hn.right hk
    case inr hn =>
      change live? (d.fires.modify id (Row.modify data.apply)) k = some f at hk
      rw [live?_modify, if_pos hn.left.symm] at hk
      obtain ⟨f', _, rfl⟩ := Option.map_eq_some_iff.mp hk
      exact hs
  case single =>
    intro k j j' ho ho'
    rcases hnew ho with ⟨hn, ho⟩ | ⟨hk, hl⟩ <;> rcases hnew ho' with ⟨hn', ho'⟩ | ⟨hk', hl'⟩
    case inl.inl => exact h.single k j j' ho ho'
    case inl.inr => exact absurd hk' hn
    case inr.inl => exact absurd hk hn'
    case inr.inr => exact hl.trans hl'.symm

theorem Desk.Keeps.enqueue (hf : d.fire? id = some fire) (hs : fire.status ≠ .delivered)
    (hj : job.payload.triggerFireId = some id) : d.Keeps ((d.enqueue job).update id data) := by
  intro k hk
  have hu : d.Keeps (d.update id data) := .update hf hs
  have ⟨hd, _⟩ := hu k hk
  have hn : job.isFor k = false := by
    cases hfor : job.isFor k
    case false => rfl
    case true  =>
      obtain rfl := Option.some.inj <| hj.symm.trans (Job.isFor_iff.mp hfor)
      rw [isDelivered_of_fire hf] at hk
      exact absurd (of_decide_eq_true hk) hs
  exact ⟨hd, by simp [jobsFor, Desk.update, Desk.enqueue, hn]⟩

-- A new fire promises something that no other fire promises.
theorem Orderly.create (h : Orderly d) (hn : ∀ k f, d.fire? k = some f → f.mark ≠ fire.mark) :
    Orderly (d.create fire) := by
  have hnew : ∀ {k f}, (d.create fire).fire? k = some f →
      (k ≠ d.fires.length ∧ d.fire? k = some f) ∨ (k = d.fires.length ∧ f = fire) := by
    intro k f hk
    change live? (d.fires ++ [⟨fire, true⟩]) k = some f at hk
    rw [live?_append] at hk
    split at hk
    case isTrue he  => exact .inr ⟨he, (Option.some.inj hk).symm⟩
    case isFalse he => exact .inl ⟨he, hk⟩
  constructor
  case distinct =>
    intro k k' f f' hk hk' hm
    rcases hnew hk with ⟨_, hf⟩ | ⟨he, rfl⟩ <;> rcases hnew hk' with ⟨_, hf'⟩ | ⟨he', rfl⟩
    case inl.inl => exact h.distinct k k' f f' hf hf' hm
    case inl.inr => exact absurd hm (hn k f hf)
    case inr.inl => exact absurd hm.symm (hn k' f' hf')
    case inr.inr => exact he.trans he'.symm
  case known =>
    intro j job k hj hk
    simpa [Desk.create] using Nat.lt_succ_of_lt (h.known j job k hj hk)
  case single => exact h.single
  case queued =>
    intro k j f ho hk
    cases hnew hk
    case inl hk => exact h.queued k j f ho hk.right
    case inr hk =>
      have ⟨job, hj, hfor, _⟩ := ho
      exact absurd (h.known j job k hj hfor) (hk.left ▸ Nat.lt_irrefl _)

theorem Orderly.idle_create (h : Orderly d) : (d.create fire).Idle d.fires.length := by
  refine Desk.idle_iff.mpr fun j ⟨job, hj, hfor, _⟩ => ?_
  exact Nat.lt_irrefl _ (h.known j job _ hj hfor)

theorem Desk.Keeps.create : d.Keeps (d.create fire) := by
  intro k hk
  refine ⟨?_, rfl⟩
  simp only [isDelivered] at hk ⊢
  cases hr : d.fires[k]?
  case none   => rw [hr] at hk; nomatch hk
  case some r =>
    rw [hr] at hk
    rwa [Desk.create, Table.getElem?_append_of_some hr]

theorem Desk.outstanding_close {k : FireId} {j' : JobId} (h : (d.close j).Outstanding k j') :
    j' ≠ j ∧ d.Outstanding k j' := by
  obtain ⟨job, hj, hk, hr⟩ := h
  rw [Desk.close, List.getElem?_modify] at hj
  split at hj
  case isTrue =>
    obtain ⟨job', _, rfl⟩ := Option.map_eq_some_iff.mp hj
    nomatch hr
  case isFalse hn => exact ⟨fun he => hn he.symm, job, by simpa using hj, hk, hr⟩

theorem Orderly.close (h : Orderly d) : Orderly (d.close j) := by
  constructor
  case distinct => exact h.distinct
  case queued   => exact fun k j f ho => h.queued k j f (Desk.outstanding_close ho).right
  case single   =>
    exact fun k j j' ho ho' =>
      h.single k j j' (Desk.outstanding_close ho).right (Desk.outstanding_close ho').right
  case known =>
    intro j' job k hj hk
    rw [Desk.close, List.getElem?_modify] at hj
    split at hj
    case isFalse => exact h.known j' job k (by simpa using hj) hk
    case isTrue  =>
      obtain ⟨job', hj', rfl⟩ := Option.map_eq_some_iff.mp hj
      exact h.known j' job' k hj' hk

-- The job that is reported was the only one for its fire.
theorem Orderly.idle_close (h : Orderly d) (ho : d.Outstanding id j) : (d.close j).Idle id := by
  refine Desk.idle_iff.mpr fun j' ho' => ?_
  have ⟨hn, ho'⟩ := Desk.outstanding_close ho'
  exact hn (h.single id j' j ho' ho)

theorem Desk.Keeps.close : d.Keeps (d.close j) := by
  intro k hk
  refine ⟨hk, ?_⟩
  have hm : (d.jobs.modify j Job.close).map (·.isFor k) = d.jobs.map (·.isFor k) :=
    map_modify fun _ => rfl
  have hc : ∀ jobs : Table Job, jobs.countP (·.isFor k) = (jobs.map (·.isFor k)).countP id := by
    exact fun jobs => (List.countP_map).symm ▸ rfl
  rw [jobsFor, jobsFor, hc, hc, Desk.close, hm]

-- What a program does that serves one fire.
structure Served (d d' : Desk) (id : FireId) : Prop where
  orderly : Orderly d'
  keeps   : d.Keeps d'
  frame   : ∀ k ≠ id, d'.fire? k = d.fire? k

theorem Served.refl (h : Orderly d) : Served d d id where
  orderly := h
  keeps   := .refl
  frame   := fun _ _ => rfl

theorem Served.update (h : Orderly d) (hi : d.Idle id) (hf : d.fire? id = some fire)
    (hs : fire.status ≠ .delivered) : Served d (d.update id data) id where
  orderly := h.update hi
  keeps   := .update hf hs
  frame   := fun k hk => by rw [Desk.fire?_update, if_neg hk.symm]

theorem Served.enqueue {job : Job} (h : Orderly d) (hi : d.Idle id) (hf : d.fire? id = some fire)
    (hs : fire.status ≠ .delivered) (hj : job.payload.triggerFireId = some id)
    (hq : data.status = .queued) : Served d ((d.enqueue job).update id data) id where
  orderly := h.enqueue hi hf hj hq
  keeps   := .enqueue hf hs hj
  frame   := fun k hk => by rw [Desk.fire?_update, if_neg hk.symm]; rfl

section

variable {s : Store} {triggerId : TriggerId} {playerId : PlayerId} {eventKey : String} {orgId : OrgId}
  {serverInstanceId : ServerId} {staleBefore : ℤ} {select : Trigger → PlayerId → Player → Bool}

-- The fire that is found again is the fire that it is about.
theorem fired?_of_fire (h : Orderly s.desk) (hf : s.fire? id = some fire) :
    ∃ f, s.fired? fire.triggerId fire.playerId fire.eventKey = some (id, f) := by
  cases hk : s.fired? fire.triggerId fire.playerId fire.eventKey
  case none =>
    have hn := List.find?_eq_none.mp hk _ <| mem_liveEntries.mpr hf
    simp at hn
  case some e =>
    obtain ⟨id', f⟩ := e
    have hp := List.find?_some hk
    have hm := mem_liveEntries.mp <| List.mem_of_find?_eq_some hk
    simp only [Bool.and_eq_true, decide_eq_true_eq] at hp
    have hmark : f.mark = fire.mark := by simp [TriggerFire.mark, hp]
    exact ⟨f, by rw [h.distinct id' id f fire hm hf hmark]⟩

theorem fired?_none_mark (hn : s.fired? triggerId playerId eventKey = none) {k : FireId}
    {f : TriggerFire} (hf : s.fire? k = some f) : f.mark ≠ (triggerId, playerId, eventKey) := by
  intro he
  have hn := List.find?_eq_none.mp hn _ <| mem_liveEntries.mpr hf
  simp only [TriggerFire.mark, Prod.mk.injEq] at he
  simp [he] at hn

-- A fire that waits for another attempt, as it was read together with its player.
structure Waits (s : Store) (row : FireRow) : Prop where
  fire   : s.fire? row.1 = some row.2.1
  status : row.2.1.status = .pending
  player : row.2.2.2.1 = row.2.1.playerId

theorem waits_of_mem {row : FireRow} (h : row ∈ s.pendingFires select) : Waits s row := by
  simp only [Store.pendingFires, List.mem_filterMap, Prod.exists] at h
  obtain ⟨id, f, hm, he⟩ := h
  have hf := mem_liveEntries.mp hm
  simp only [Option.bind_eq_bind, Option.bind_eq_some_iff] at he
  obtain ⟨trigger, _, player, _, he⟩ := he
  split at he
  case isFalse => cases he
  case isTrue hs =>
    obtain rfl := Option.some.inj he
    exact ⟨hf, hs.left, rfl⟩

theorem pendingFires_nodup : ((s.pendingFires select).map Prod.fst).Nodup := by
  refine nodup_liveEntries.sublist <| Table.keys_filterMap fun e e' he => ?_
  simp only [Option.bind_eq_bind, Option.bind_eq_some_iff] at he
  obtain ⟨_, _, _, _, he⟩ := he
  split at he
  case isTrue  => rw [← Option.some.inj he]
  case isFalse => cases he

def Store.resetFires (s : Store) (orgId : OrgId) (serverInstanceId : ServerId) (staleBefore : ℤ) :
    Table (Row TriggerFire) :=
  s.fires.map fun r =>
    if s.isStale orgId serverInstanceId staleBefore r then r.modify staleFire.apply else r

-- The fires that are reset have been queued, and nothing is on its way for them.
theorem Orderly.reset (h : Orderly s.desk)
    (hi : ∀ e ∈ s.fires.entries, s.isStale orgId serverInstanceId staleBefore e.2 = true →
      s.desk.Idle e.1) :
    Orderly { s.desk with fires := s.resetFires orgId serverInstanceId staleBefore } := by
  apply h.of_fires
  case hl => exact List.length_map _
  case hf =>
    intro k f hk
    have hk := live?_eq_some.mp hk
    simp only [Store.resetFires, List.getElem?_map, Option.map_eq_some_iff] at hk
    obtain ⟨r, hr, he⟩ := hk
    split at he
    case isFalse => exact ⟨f, live?_eq_some.mpr (he ▸ hr), rfl, .inl rfl⟩
    case isTrue hs =>
      obtain ⟨f', live⟩ := r
      cases he
      exact ⟨f', live?_eq_some.mpr hr, rfl, .inr <| hi (k, _) (Table.mem_entries.mpr hr) hs⟩

-- Fires that have been delivered are not touched.
theorem Desk.Keeps.of_map {g : Row TriggerFire → Row TriggerFire}
    (hg : ∀ r, r.data.status = .delivered → (g r).data.status = .delivered) :
    d.Keeps { d with fires := d.fires.map g } := by
  intro k hk
  refine ⟨?_, rfl⟩
  simp only [Desk.isDelivered, List.getElem?_map] at hk ⊢
  cases hr : d.fires[k]? <;> rw [hr] at hk
  case none   => cases hk
  case some r => simpa using hg r (by simpa using hk)

theorem keeps_reset :
    s.desk.Keeps { s.desk with fires := s.resetFires orgId serverInstanceId staleBefore } := by
  refine .of_map fun r hr => ?_
  have hn : s.isStale orgId serverInstanceId staleBefore r = false := by simp [Store.isStale, hr]
  rw [hn]
  exact hr

theorem outstanding_openJob {j : JobId} {job : Job} (h : s.openJob? j = some job)
    (hid : job.payload.triggerFireId = some id) : s.desk.Outstanding id j := by
  have ⟨hj, hr⟩ := Option.filter_eq_some_iff.mp h
  exact ⟨job, hj, Job.isFor_iff.mpr hid, by simpa using hr⟩

theorem Orderly.empty (hf : s.fires = []) (hj : s.jobs = []) : Orderly s.desk where
  distinct := fun k _ f _ hk => by simp [Desk.fire?, Store.desk, hf, live?] at hk
  known    := fun j job _ h => by simp [Store.desk, hj] at h
  queued   := fun _ j _ ⟨_, h, _⟩ => by simp [Store.desk, hj] at h
  single   := fun _ j _ ⟨_, h, _⟩ => by simp [Store.desk, hj] at h

end

end Players
