import Mastermind.Effects.System
import Mastermind.Jobs.Theorems.Footprint
import Mastermind.Jobs.Theorems.Store

open Effects Prog

namespace Jobs

-- What is left of a queue without an entry.
def without (orgId : OrgId) (id : RunId) (queue : List QueueEntry) : List QueueEntry :=
  queue.filter fun e => !(e.orgId = orgId && e.data.jobRunId = id)

-- The entries of the queue of an organisation, in the order in which they were enqueued.
def Store.entries (s : Store) (orgId : OrgId) : List QueueEntry :=
  s.queue.filter (·.orgId = orgId)

-- The entries that a poll gets to see.
def Store.listed (s : Store) (orgId : OrgId) : List QueueEntry :=
  s.bullmq.getJobs (s.entries orgId)

-- A removal of an entry that the queue has and a change of delay of one that it has delayed resolve.
structure BullMQ.Resolves (L : BullMQ) : Prop where
  remove      : ∀ e, L.remove (some e) = true
  changeDelay : ∀ e, L.changeDelay (some e) = true

-- Fewer than 500 entries are listed newest first, if none of them is delayed.
def BullMQ.NewestFirst (L : BullMQ) : Prop :=
  ∀ queue, queue.length < 500 → (∀ e ∈ queue, e.delay = 0) → L.getJobs queue = queue.reverse

theorem BullMQ.documented_resolves : BullMQ.documented.Resolves where
  remove _      := rfl
  changeDelay _ := rfl

theorem BullMQ.documented_newestFirst : BullMQ.documented.NewestFirst := by
  intro queue hl hd
  have hw : queue.filter (·.delay = 0) = queue :=
    List.filter_eq_self.mpr fun e he => decide_eq_true (hd e he)
  have hn : queue.filter (0 < ·.delay) = [] :=
    List.filter_eq_nil_iff.mpr fun e he => by simp [hd e he]
  simp only [BullMQ.documented, hw, hn]
  rw [List.take_of_length_le (by simpa using hl.le)]
  exact List.append_nil _

-- The entries that a poll of a host may hand out.
def QueueEntry.allowed (hostId : HostId) (busy : Bool) (e : QueueEntry) : Bool :=
  e.data.hostId = hostId && !(busy && !isReadOnly e.data.type)

def Store.allowed (s : Store) (hostId : HostId) (busy : Bool) : List QueueEntry :=
  match s.hosts[hostId]? with
  | none      => []
  | some host => (s.entries host.orgId).filter (·.allowed hostId busy)

-- The accesses to the queues when nothing happens concurrently.
inductive QueueOp
  | addJob (orgId : OrgId) (data : QueueJobData)
  | poll   (hostId : HostId) (waitMs : Nat) (busy : Bool)

def QueueOp.serve : QueueOp → Service (Option QueueJobData)
  | addJob orgId data => do
    Jobs.addJob orgId data
    return none
  | poll hostId waitMs busy => Jobs.poll hostId waitMs busy

@[reducible]
def queueing : System where
  State := Store
  Event := QueueOp
  next s op := (op.serve.run [] s).state

-- A poll gets to see all entries of the queue, newest first.
def ListsAll (s : Store) : QueueOp → Prop
  | .addJob ..      => True
  | .poll hostId .. => ∀ host ∈ s.hosts[hostId]?, s.listed host.orgId = (s.entries host.orgId).reverse

-- A poll does not take an entry while it leaves an earlier one that it may take.
def InOrder (s : Store) : QueueOp → Prop
  | .addJob .. => True
  | .poll hostId waitMs busy =>
    ∀ e₁ e₂, [e₁, e₂].Sublist (s.allowed hostId busy) →
      e₂ ∈ (queueing.next s (.poll hostId waitMs busy)).queue

-- Few enough entries for one listing.
def Few (s : Store) : QueueOp → Prop
  | .addJob ..      => True
  | .poll hostId .. => ∀ host ∈ s.hosts[hostId]?, (s.entries host.orgId).length < 500

-- A poll has no choice.
def NoChoice (s : Store) : QueueOp → Prop
  | .addJob ..          => True
  | .poll hostId _ busy => (s.allowed hostId busy).length ≤ 1

instance {s : Store} {op : QueueOp} : Decidable (Few s op) := by
  unfold Few
  split <;> infer_instance

instance {s : Store} {op : QueueOp} : Decidable (NoChoice s op) := by
  unfold NoChoice
  split <;> infer_instance

section

variable {s s' : Store} {orgId : OrgId} {hostId : HostId} {busy : Bool} {waitMs : Nat}
  {e entry : QueueEntry} {entries queue : List QueueEntry} {id : RunId}

theorem not_mem_without (ho : e.orgId = orgId) : e ∉ without orgId e.data.jobRunId queue := by
  simp [without, ho]

theorem entry?_of_mem (hm : e ∈ s.queue) (ho : e.orgId = orgId) :
    (s.entry? orgId e.data.jobRunId).isSome := by
  rw [Store.entry?, List.find?_isSome]
  exact ⟨e, hm, by simp [ho]⟩

theorem delayed?_of_mem (hm : e ∈ s.queue) (ho : e.orgId = orgId) (hd : 0 < e.delay) :
    (s.delayed? orgId e.data.jobRunId).isSome := by
  rw [Store.delayed?, List.find?_isSome]
  exact ⟨e, hm, by simp [ho, hd]⟩

theorem exec_queueRemove (hb : s.bullmq.Resolves) (h : (s.entry? orgId id).isSome) :
    exec (.queueRemove orgId id) s = (.ok (), { s with queue := without orgId id s.queue }) := by
  have ⟨e, he⟩ := Option.isSome_iff_exists.mp h
  rw [exec, if_pos (he ▸ hb.remove e), without]

-- The delay of an entry does not matter to the rest of its queue.
theorem exec_queueChangeDelay (hb : s.bullmq.Resolves) (h : (s.entry? orgId id).isSome)
    (hd : (s.delayed? orgId id).isSome) :
    ∃ t, (exec (.queueChangeDelay orgId id 0) s = (.ok (), t)) ∧ t.bullmq = s.bullmq ∧
      (t.entry? orgId id).isSome ∧ without orgId id t.queue = without orgId id s.queue := by
  have hd : s.bullmq.changeDelay (s.delayed? orgId id) = true := by
    have ⟨e, he⟩ := Option.isSome_iff_exists.mp hd
    exact he ▸ hb.changeDelay e
  let queue := s.queue.map fun e =>
    if e.orgId = orgId ∧ e.data.jobRunId = id then { e with delay := 0 } else e
  have hx : exec (.queueChangeDelay orgId id 0) s = (.ok (), { s with queue }) := by
    rw [exec, if_pos hd]
  refine ⟨_, hx, rfl, ?_, ?_⟩
  case refine_1 =>
    rw [Store.entry?, List.find?_isSome] at h ⊢
    obtain ⟨e, hm, he⟩ := h
    have he : e.orgId = orgId ∧ e.data.jobRunId = id := by simpa using he
    exact ⟨{ e with delay := 0 }, List.mem_map.mpr ⟨e, hm, if_pos he⟩, by simp [he]⟩
  case refine_2 =>
    simp only [without, queue]
    generalize s.queue = queue
    induction queue
    case nil          => rfl
    case cons e es hi =>
      by_cases he : e.orgId = orgId ∧ e.data.jobRunId = id
      case pos => simpa [he] using hi
      case neg =>
        simp only [List.map_cons, if_neg he, List.filter_cons, hi]

-- The job of an entry is handed out and the entry is taken.
def Hands (s : Store) (orgId : OrgId) (found : Option QueueEntry) :
    Result Exception (Option QueueJobData) → Store → Prop
  | .ok data, t => data = found.map QueueEntry.data ∧ t.bullmq = s.bullmq ∧
    t.queue = found.elim s.queue fun e => without orgId e.data.jobRunId s.queue
  | _, _        => False

theorem hands_claimEntry (hb : s.bullmq.Resolves) (hm : entry ∈ s.queue) (ho : entry.orgId = orgId) :
    (claimEntry orgId entry).wp (under controlPlane .none) (Hands s orgId (some entry)) s := by
  let Q := handlePost (under controlPlane .none) (Hands s orgId (some entry)) fun _ => return none
  have hr : ∀ t, t.bullmq = s.bullmq → (t.entry? orgId entry.data.jobRunId).isSome →
      without orgId entry.data.jobRunId t.queue = without orgId entry.data.jobRunId s.queue →
      wp (under controlPlane .none) Q
        (do send (.queueRemove orgId entry.data.jobRunId); return some entry.data) t := by
    intro t ht he hw
    exact wp_step (exec_queueRemove (ht ▸ hb) he) ⟨rfl, ht, hw⟩ fun _ _ => False.elim
  have he := entry?_of_mem hm ho
  apply wp_handle.mpr
  split
  case isFalse => exact hr s rfl he rfl
  case isTrue hd =>
    obtain ⟨t, hx, ht, he', hw⟩ := exec_queueChangeDelay hb he (delayed?_of_mem hm ho hd)
    exact wp_step hx (hr t ht he' hw) fun _ _ => False.elim

-- The first of the listed entries that may be handed out, is handed out.
theorem hands_claimFirst (hb : s.bullmq.Resolves) (hm : ∀ e ∈ entries, e ∈ s.queue ∧ e.orgId = orgId) :
    (claimFirst orgId hostId busy entries).wp (under controlPlane .none)
      (Hands s orgId (entries.find? (·.allowed hostId busy))) s := by
  induction entries
  case nil => exact ⟨rfl, rfl, rfl⟩
  case cons entry entries hi =>
    have hi := hi fun e he => hm e (List.mem_cons_of_mem _ he)
    have ⟨hq, ho⟩ := hm entry List.mem_cons_self
    rw [claimFirst]
    split
    case isTrue hn => rwa [List.find?_cons_of_neg (by simp [QueueEntry.allowed, hn])]
    case isFalse hh =>
      split
      case isTrue ha => rwa [List.find?_cons_of_neg (by simp [QueueEntry.allowed, ha])]
      case isFalse ha =>
        have hh : entry.data.hostId = hostId := not_not.mp hh
        have ha : (busy && !isReadOnly entry.data.type) = false := by simpa using ha
        rw [List.find?_cons_of_pos (by simp [QueueEntry.allowed, hh, ha])]
        apply wp_bind.mpr
        apply wp_mono (hands_claimEntry hb hq ho)
        intro r s' h
        match r with
        | .ok none        => nomatch h.left
        | .ok (some data) => exact h
        | .error _        => exact h
        | .ended          => exact h

-- The first of the entries that a poll gets to see and may hand out, is handed out.
theorem hands_listed (hb : s.bullmq.Resolves) (orgId : OrgId) (hostId : HostId) (busy : Bool) :
    (getNextJobForHost orgId hostId busy).wp (under controlPlane .none)
      (Hands s orgId ((s.listed orgId).find? (·.allowed hostId busy))) s := by
  have hx : exec (.queueJobs orgId) s = (.ok (s.listed orgId), s) := rfl
  refine wp_step hx ?_ fun _ _ => False.elim
  apply hands_claimFirst hb
  intro e he
  simpa [Store.entries] using s.bullmq.getJobs_sub _ he

-- The queue lists its newest entries first.
theorem hands_getNextJobForHost (hostId : HostId) (busy : Bool) (hb : s.bullmq.Resolves)
    (hl : s.listed orgId = (s.entries orgId).reverse) :
    (getNextJobForHost orgId hostId busy).wp (under controlPlane .none)
      (Hands s orgId ((s.entries orgId).filter (·.allowed hostId busy)).getLast?) s := by
  have hh := hands_listed hb orgId hostId busy
  rwa [hl, ← List.getLast?_filter] at hh

theorem queue_markJobRunStarted :
    (markJobRunStarted hostId id).wp (under controlPlane .none) (fun _ s' => s'.queue = s.queue)
      s := by
  apply markJobRunStarted_only.wp_under
  case hs => rfl
  case hc =>
    intro s' c hc hq
    obtain h | ⟨_, _, rfl, _⟩ | ⟨_, _, _, rfl, _⟩ | ⟨_, _, rfl, _⟩ := exec_queue c s'
    case inl         => exact h.trans hq
    case inr.inl     => exact hc.elim
    case inr.inr.inl => exact hc.elim
    case inr.inr.inr => exact hc.elim

-- The rounds of a poll that finds nothing.
theorem idle_pollRounds {deadline : Time} {rounds : Nat} (hb : s.bullmq.Resolves)
    (hl : s.listed orgId = (s.entries orgId).reverse)
    (hn : (s.entries orgId).filter (·.allowed hostId busy) = []) :
    (pollRounds orgId hostId busy deadline rounds).wp (under controlPlane .none)
      (fun _ s' => s'.queue = s.queue) s := by
  induction rounds generalizing s
  case zero           => rfl
  case succ rounds hi =>
    have hh := hands_getNextJobForHost hostId busy hb hl
    rw [hn] at hh
    apply wp_bind.mpr
    apply wp_mono hh
    intro r s' h
    match r with
    | .ok (some _) => nomatch h.left
    | .error _     => exact h.elim
    | .ended       => exact h.elim
    | .ok none     =>
      obtain ⟨-, hs, hq⟩ := h
      have hq : s'.queue = s.queue := hq
      have he : s'.entries orgId = s.entries orgId := by rw [Store.entries, hq, Store.entries]
      have hl : s'.listed orgId = (s'.entries orgId).reverse := by rwa [Store.listed, he, hs]
      refine wp_step (rfl : exec .now s' = (.ok s'.clock, s')) ?_ fun _ _ => False.elim
      split
      case isTrue  => exact hq
      case isFalse => exact hq ▸ hi (hs ▸ hb) hl (he ▸ hn)

-- What a poll leaves of the queue: everything but the newest of the entries that it may hand out.
theorem queue_pollRounds {deadline : Time} {rounds : Nat} (hb : s.bullmq.Resolves)
    (hl : s.listed orgId = (s.entries orgId).reverse) :
    (pollRounds orgId hostId busy deadline (rounds + 1)).wp (under controlPlane .none)
      (fun _ s' => s'.queue = ((s.entries orgId).filter (·.allowed hostId busy)).getLast?.elim s.queue
        fun e => without orgId e.data.jobRunId s.queue) s := by
  by_cases hn : (s.entries orgId).filter (·.allowed hostId busy) = []
  case pos =>
    simp only [hn, List.getLast?_nil, Option.elim_none]
    exact idle_pollRounds hb hl hn
  case neg =>
    have hh := List.getLast?_eq_some_getLast hn
    generalize ((s.entries orgId).filter (·.allowed hostId busy)).getLast hn = e at hh
    apply wp_bind.mpr
    apply wp_mono (hands_getNextJobForHost hostId busy hb hl)
    intro r s' h
    rw [hh] at h
    match r with
    | .ok none        => nomatch h.left
    | .error _        => exact h.elim
    | .ended          => exact h.elim
    | .ok (some data) =>
      rw [hh, ← h.right.right]
      exact wp_bind_keeps queue_markJobRunStarted fun _ _ h => h

theorem queue_poll (hb : s.bullmq.Resolves) (hl : ListsAll s (.poll hostId waitMs busy)) :
    (queueing.next s (.poll hostId waitMs busy)).queue =
      (s.allowed hostId busy).getLast?.elim s.queue fun e => without e.orgId e.data.jobRunId s.queue := by
  have hx : exec (.findHost hostId) s = (.ok s.hosts[hostId]?, s) := rfl
  apply wp_run_nil (p := poll hostId waitMs busy) (Q := fun _ (s' : Store) => s'.queue = _)
  refine wp_step hx ?_ fun _ _ => False.elim
  rw [Store.allowed]
  cases hh : s.hosts[hostId]?
  case none      => rfl
  case some host =>
    refine wp_step (rfl : exec .now s = (.ok s.clock, s)) ?_ fun _ _ => False.elim
    apply wp_mono (queue_pollRounds hb (hl host hh))
    intro _ s' h
    rw [h]
    cases he : ((s.entries host.orgId).filter (·.allowed hostId busy)).getLast?
    case none   => rfl
    case some e =>
      have hm := (List.mem_filter.mp <| List.mem_of_getLast? he).left
      have ho : e.orgId = host.orgId := by simpa using (List.mem_filter.mp hm).right
      simp only [Option.elim_some, ho]

-- The library of the queue stays the same.
theorem next_bullmq (s : Store) (op : QueueOp) : (queueing.next s op).bullmq = s.bullmq := by
  apply wp_run_nil (p := op.serve) (Q := fun _ (t : Store) => t.bullmq = s.bullmq)
  exact Only.always.wp_under (fun t c _ h => (exec_bullmq c t).trans h) rfl

theorem inOrder_iff {op : QueueOp} (hb : s.bullmq.Resolves) (hl : ListsAll s op) :
    InOrder s op ↔ NoChoice s op := by
  cases op
  case addJob => exact Iff.rfl
  case poll hostId waitMs busy =>
    constructor
    case mpr =>
      intro h e₁ e₂ hs
      exact absurd (hs.length_le.trans h) (by simp)
    case mp =>
      intro h
      by_contra hn
      have hn : 2 ≤ (s.allowed hostId busy).length := Nat.lt_of_not_le hn
      -- The newest entry is taken, and there is one before it.
      have ⟨es, e, he⟩ := List.eq_nil_or_concat' (s.allowed hostId busy) |>.resolve_left fun h => by
        simp [h] at hn
      have hes : es ≠ [] := by
        rintro rfl
        simp [he] at hn
      have hs : [es.head hes, e].Sublist (s.allowed hostId busy) := by
        rw [he]
        exact (List.singleton_sublist.mpr (List.head_mem hes)).append_right [e]
      have hq := h _ e hs
      rw [queue_poll hb hl, he, List.getLast?_concat, Option.elim_some] at hq
      exact not_mem_without rfl hq

-- No entry is delayed when jobs are added, and polls only take entries away.
theorem next_undelayed {op : QueueOp} (hb : s.bullmq.Resolves) (hl : ListsAll s op)
    (hd : ∀ e ∈ s.queue, e.delay = 0) : ∀ e ∈ (queueing.next s op).queue, e.delay = 0 := by
  cases op
  case poll hostId waitMs busy =>
    rw [queue_poll hb hl]
    cases (s.allowed hostId busy).getLast?
    case none   => exact hd
    case some e => exact fun e he => hd e (List.mem_of_mem_filter he)
  case addJob orgId data =>
    apply wp_run_nil (p := QueueOp.serve (.addJob orgId data)) 
      (Q := fun _ (t : Store) => ∀ e ∈ t.queue, e.delay = 0)
    have hx : exec (.queueAdd orgId data) s = (.ok (), (exec (.queueAdd orgId data) s).2) := by
      simp only [exec]
      split <;> rfl
    refine wp_step hx ?_ fun _ _ => False.elim
    intro e he
    rw [exec] at he
    split at he
    case isTrue  => exact hd e he
    case isFalse =>
      obtain he | he := List.mem_append.mp he
      case inl => exact hd e he
      case inr => exact List.mem_singleton.mp he ▸ rfl

-- Fewer than 500 waiting entries are listed newest first.
theorem listsAll_of_few {ops : List QueueOp} (hb : s.bullmq.Resolves) (hn : s.bullmq.NewestFirst)
    (hd : ∀ e ∈ s.queue, e.delay = 0) (hf : queueing.Meets Few s ops) : queueing.Meets ListsAll s ops := by
  induction ops generalizing s
  case nil => trivial
  case cons op ops hi =>
    have hl : ListsAll s op := by
      cases op
      case addJob => trivial
      case poll   =>
        exact fun host hh => hn _ (hf.left host hh) fun e he => hd e (List.mem_of_mem_filter he)
    have hq := next_bullmq s op
    exact ⟨hl, hi (hq ▸ hb) (hq ▸ hn) (next_undelayed hb hl hd) hf.right⟩

end

-- Jobs are handed out in the order in which they were enqueued as long as there is never more than
-- one to choose from.
theorem jobs_inOrder_iff {s : Store} {ops : List QueueOp} (hb : s.bullmq.Resolves)
    (hl : queueing.Meets ListsAll s ops) :
    queueing.Meets InOrder s ops ↔ queueing.Meets NoChoice s ops := by
  have hb : queueing.Meets (fun s _ => s.bullmq.Resolves) s ops := by
    apply System.meets_of_always (S := queueing) (I := fun s => s.bullmq.Resolves)
    case hn => exact fun s op h => next_bullmq s op ▸ h
    case h  => exact hb
  exact (hb.and hl).congr fun _ _ h => inOrder_iff h.left h.right

-- A job of a server, as `createJob` enqueues it.
def QueueJobData.sample (id : JobId) (type : String) : QueueJobData where
  jobId            := id
  jobRunId         := id
  hostId           := 0
  serverInstanceId := some 0
  type             := type
  payload          := .obj []

-- A single job is enqueued, and the next one follows when the first one has been handed out.
def oneByOne : List QueueOp :=
  [ .addJob 0 (.sample 0 "SERVER_STOP"), .poll 0 0 false
  , .addJob 0 (.sample 1 "SERVER_START"), .poll 0 0 false]

theorem jobs_inOrder_oneByOne :
    queueing.Meets ListsAll .sample oneByOne ∧
    (queueing.Meets InOrder .sample oneByOne ↔ queueing.Meets NoChoice .sample oneByOne) ∧
    queueing.Meets NoChoice .sample oneByOne := by
  have hl : queueing.Meets ListsAll .sample oneByOne :=
    listsAll_of_few BullMQ.documented_resolves BullMQ.documented_newestFirst nofun (by decide +kernel)
  exact ⟨hl, jobs_inOrder_iff BullMQ.documented_resolves hl, by decide +kernel⟩

-- A server is stopped and then started.
def stopThenStart : List QueueOp :=
  [.addJob 0 (.sample 0 "SERVER_STOP"), .addJob 0 (.sample 1 "SERVER_START")]

theorem start_before_stop :
    (queueing.Meets ListsAll .sample (stopThenStart ++ [.poll 0 0 false])) ∧
    ¬queueing.Meets InOrder .sample (stopThenStart ++ [.poll 0 0 false]) ∧
    (queueing.run .sample (stopThenStart ++ [.poll 0 0 false])).queue =
      [⟨0, .sample 0 "SERVER_STOP", 0⟩] := by
  refine ⟨?_, ?_, rfl⟩
  case refine_1 =>
    exact listsAll_of_few BullMQ.documented_resolves BullMQ.documented_newestFirst nofun (by decide +kernel)
  intro h
  have hq := ((System.meets_append.mp h).right.left : InOrder _ _)
  have hs : (⟨0, .sample 1 "SERVER_START", 0⟩ : QueueEntry) ∈ [⟨0, .sample 0 "SERVER_STOP", 0⟩] :=
    hq ⟨0, .sample 0 "SERVER_STOP", 0⟩ _ (List.Sublist.refl _)
  simp [QueueJobData.sample] at hs

-- A poll finds a job when there is one, while nothing else happens to the queue.
def Serves (s : Store) (orgId : OrgId) (hostId : HostId) (busy : Bool) : Prop :=
  ((getNextJobForHost orgId hostId busy).run [] s).result = .ok none →
    ∀ e ∈ s.entries orgId, e.allowed hostId busy = false

section

variable {s : Store} {orgId : OrgId} {hostId : HostId} {busy : Bool}

theorem result_getNextJobForHost (hb : s.bullmq.Resolves) (orgId : OrgId) (hostId : HostId) (busy : Bool) :
    ((getNextJobForHost orgId hostId busy).run [] s).result =
      .ok (((s.listed orgId).find? (·.allowed hostId busy)).map QueueEntry.data) := by
  have hh := wp_run_nil (hands_listed hb orgId hostId busy)
  match hr : ((getNextJobForHost orgId hostId busy).run [] s).result with
  | .ok data => rw [hr] at hh; rw [hh.left]
  | .error _ => rw [hr] at hh; exact hh.elim
  | .ended   => rw [hr] at hh; exact hh.elim

-- A poll finds nothing exactly if it may hand out none of the entries that it gets to see.
theorem idle_getNextJobForHost (hb : s.bullmq.Resolves) :
    ((getNextJobForHost orgId hostId busy).run [] s).result = .ok none ↔
      ∀ e ∈ s.listed orgId, e.allowed hostId busy = false := by
  simp [result_getNextJobForHost hb]

end

-- A host is served exactly if the queue lists one of the entries that the host may get.
theorem getNextJobForHost_serves_iff {s : Store} (hb : s.bullmq.Resolves) (orgId : OrgId) (hostId : HostId)
    (busy : Bool) :
    Serves s orgId hostId busy ↔
      ((∃ e ∈ s.entries orgId, e.allowed hostId busy) →
        ∃ e ∈ s.listed orgId, e.allowed hostId busy) := by
  rw [Serves, idle_getNextJobForHost hb, ← not_imp_not]
  simp

-- The documented listing consists of the newest waiting and the newest delayed entries.
theorem mem_listed {s : Store} {orgId : OrgId} {e : QueueEntry} (hb : s.bullmq = .documented) :
    e ∈ s.listed orgId ↔
      e ∈ ((s.entries orgId).filter (·.delay = 0)).reverse.take 500 ∨
      e ∈ ((s.entries orgId).filter (0 < ·.delay)).reverse.take 500 := by
  rw [Store.listed, hb]
  exact List.mem_append

-- A job of the host 0 with a delay, and then `n` jobs of the host 1.
def Store.crowded (delay n : Nat) : Store :=
  { Store.sample with
    queue := ⟨0, .sample 0 "SERVER_STOP", delay⟩ ::
      (List.range n).map fun i => ⟨0, { QueueJobData.sample (i + 1) "SERVER_STOP" with hostId := 1 }, 0⟩ }

theorem entries_crowded {delay n : Nat} :
    (Store.crowded delay n).entries 0 = (Store.crowded delay n).queue := by
  apply List.filter_eq_self.mpr
  simp [Store.crowded]

-- The job of a host is delayed, and the waiting jobs of another host do not hide it.
theorem getNextJobForHost_serves_delayed : Serves (Store.crowded 1 500) 0 0 false := by
  refine (getNextJobForHost_serves_iff BullMQ.documented_resolves 0 0 false).mpr fun _ => ?_
  refine ⟨⟨0, .sample 0 "SERVER_STOP", 1⟩, (mem_listed rfl).mpr (.inr ?_), rfl⟩
  have hf : ((Store.crowded 1 500).queue.filter (0 < ·.delay)) = [⟨0, .sample 0 "SERVER_STOP", 1⟩] := by
    simp [Store.crowded]
  rw [entries_crowded, hf]
  exact List.mem_singleton_self _

-- The job of a host is behind 500 newer ones of another host.
theorem getNextJobForHost_starves : ¬Serves (Store.crowded 0 500) 0 0 false := by
  intro h
  have hl : ∀ e ∈ (Store.crowded 0 500).listed 0, e.data.hostId = 1 := by
    have hw : ((Store.crowded 0 500).queue.filter (·.delay = 0)) = (Store.crowded 0 500).queue := by
      apply List.filter_eq_self.mpr
      simp [Store.crowded]
    have hd : ((Store.crowded 0 500).queue.filter (0 < ·.delay)) = [] := by
      simp [Store.crowded]
    intro e he
    obtain he | he := (mem_listed rfl).mp he <;> rw [entries_crowded] at he
    case inl =>
      rw [hw, Store.crowded, List.reverse_cons, List.take_left' (by simp)] at he
      have ⟨i, _, hi⟩ := List.mem_map.mp (List.mem_reverse.mp he)
      exact hi ▸ rfl
    case inr =>
      rw [hd] at he
      nomatch he
  have hn := h <| (idle_getNextJobForHost BullMQ.documented_resolves).mpr fun e he => by
    simp [QueueEntry.allowed, hl e he]
  have hf := hn ⟨0, .sample 0 "SERVER_STOP", 0⟩ (by simp [Store.entries, Store.crowded])
  simp [QueueEntry.allowed, QueueJobData.sample] at hf

end Jobs
