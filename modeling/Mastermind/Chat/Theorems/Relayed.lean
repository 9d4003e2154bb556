import Mastermind.Chat.Theorems.Service

open Effects Js Prog Jobs

namespace Chat

-- The answers to the attempts to send an event to the webhook of a rule.
def Store.tries (s : Store) (ruleId : RuleId) (eventId : EventId) : List SendResult :=
  (s.attempts ruleId eventId).map (·.result)

-- The number of times that the webhook of a rule has taken an event.
def Store.delivered (s : Store) (ruleId : RuleId) (eventId : EventId) : Nat :=
  (s.tries ruleId eventId).count .ok

-- An event says that the relay of another one is pending.
def Row (s : Store) (k : EventId) (orgId : OrgId) (serverInstanceId : ServerId) (e : EventId) : Prop :=
  ∃ context error, context.eventId = e ∧
    s.event? k = some ⟨orgId, serverInstanceId, .playerChatRelayPending context error⟩

def Store.Pending (s : Store) (e : EventId) : Prop :=
  ∃ k orgId serverInstanceId, Row s k orgId serverInstanceId e

-- Either all attempts of a broadcast succeed, or all fail and the last one says why.
def Whole (results : List SendResult) : Prop :=
  (∀ r ∈ results, r = .ok) ∨ ((∀ r ∈ results, r ≠ .ok) ∧ results.getLast? ≠ some (.error ""))

-- The webhooks of a server answer each broadcast of an event in the same way.
def Uniform (s : Store) : Prop :=
  ∀ orgId serverInstanceId e n, Whole ((s.webhooks orgId serverInstanceId).map fun id => s.webhook id e n)

-- No attempt was made to relay an event.
structure Untouched (s : Store) (e : EventId) : Prop where
  tries   : ∀ id, s.tries id e = []
  pending : ¬s.Pending e

variable {orgId orgId' : OrgId} {serverInstanceId serverInstanceId' : ServerId} {e e' k k' : EventId}
  {s s' : Store} {context : RelayContext} {results : List SendResult} {webhooks : List RuleId}
  {serverInstanceName : String} {chat : ChatText} {lower : String → String}

section

variable (orgId serverInstanceId)

-- No webhook has taken the event, and one event says that its relay is pending.
structure Waiting (s : Store) (e : EventId) : Prop where
  tries : ∃ n, ∀ id ∈ s.webhooks orgId serverInstanceId, (s.tries id e).length = n
  none  : ∀ id, .ok ∉ s.tries id e
  row   : ∃ k, Row s k orgId serverInstanceId e ∧
    ∀ k' orgId' serverInstanceId', Row s k' orgId' serverInstanceId' e → k' = k

-- Every webhook has taken the event.
structure Done (s : Store) (e : EventId) : Prop where
  once    : ∀ id, s.delivered id e ≤ 1
  all     : ∀ id ∈ s.webhooks orgId serverInstanceId, s.delivered id e = 1
  pending : ¬s.Pending e

def Relaying (s : Store) (e : EventId) : Prop :=
  Waiting orgId serverInstanceId s e ∨ Done orgId serverInstanceId s e

end

theorem failed_of_ok (h : ∀ r ∈ results, r = .ok) : (Relay.of results).failed = false := by
  have he : ∀ (l : List SendResult) relay, (∀ r ∈ l, r = .ok) → relay.error = none →
      (l.foldl Relay.add relay).error = none := by
    intro l
    induction l
    case nil => exact fun _ _ h => h
    case cons r l hi =>
      intro relay h hr
      have ⟨hok, hl⟩ := List.forall_mem_cons.mp h
      subst hok
      exact hi _ hl hr
  simp [Relay.failed, Relay.sent, Relay.of, he results {} h rfl]

theorem failed_of_error (hn : results ≠ []) (h : ∀ r ∈ results, r ≠ .ok)
    (hl : results.getLast? ≠ some (.error "")) : (Relay.of results).failed = true := by
  obtain ⟨l, r, rfl⟩ := (List.eq_nil_or_concat' results).resolve_left hn
  cases r
  case ok => exact absurd rfl (h .ok (by simp))
  case error error =>
    have he : error ≠ "" := by simpa using hl
    simp [Relay.of, Relay.add, Relay.failed, Relay.sent, he]

-- A broadcast adds one attempt for each webhook.
theorem Broadcast.tries (h : Broadcast context webhooks s s') (hn : webhooks.Nodup) (id : RuleId) :
    s'.tries id e =
      s.tries id e ++ if e = context.eventId ∧ id ∈ webhooks then [s.answer e id] else [] := by
  have ⟨sent, hs, hk⟩ := h
  let key (t : RuleId × EventId × SendResult) : Bool := t.1 = id && t.2.1 = e
  have hf : ((sent.filter fun x => x.ruleId = id && x.eventId = e).map (·.result)) =
      ((sent.map fun x => (x.ruleId, x.eventId, x.result)).filter key).map (·.2.2) := by
    rw [List.filter_map, List.map_map]
    rfl
  have hw : ((webhooks.map fun id => (id, context.eventId, s.answer context.eventId id)).filter key).map
      (·.2.2) = if e = context.eventId ∧ id ∈ webhooks then [s.answer e id] else [] := by
    rw [List.filter_map, List.map_map]
    by_cases he : e = context.eventId
    case neg =>
      have hz : webhooks.filter (key ∘ fun id => (id, context.eventId, s.answer context.eventId id)) = [] :=
        List.filter_eq_nil_iff.mpr fun id' _ => by simp [key, Ne.symm he]
      simp [hz, he]
    case pos =>
      subst he
      have hp : (key ∘ fun id => (id, context.eventId, s.answer context.eventId id)) = (· == id) := by
        funext id'
        simp [key, beq_eq_decide]
      by_cases hm : id ∈ webhooks
      case pos => simp [hp, List.filter_beq, hn.count, hm]
      case neg => simp [hp, List.filter_beq, List.count_eq_zero_of_not_mem hm, hm]
  rw [Store.tries, Store.attempts, hs, List.filter_append, List.map_append, hf, hk, hw]
  rfl

-- What the webhooks and the pending relays say about an event is the same.
structure Same (e : EventId) (s s' : Store) : Prop where
  tries : ∀ id, s'.tries id e = s.tries id e
  row   : ∀ k orgId serverInstanceId, Row s' k orgId serverInstanceId e ↔ Row s k orgId serverInstanceId e

theorem Same.refl : Same e s s :=
  ⟨fun _ => rfl, fun _ _ _ => Iff.rfl⟩

theorem Same.trans {s₁ : Store} (h : Same e s s₁) (h' : Same e s₁ s') : Same e s s' :=
  ⟨fun id => (h'.tries id).trans (h.tries id), fun k o i => (h'.row k o i).trans (h.row k o i)⟩

theorem Same.pending (h : Same e s s') : s'.Pending e ↔ s.Pending e := by
  simp only [Store.Pending, h.row]

-- The rules and the answers of the webhooks do not change.
structure Fixed (s s' : Store) : Prop where
  servers : s'.servers = s.servers
  rules   : s'.rules = s.rules
  webhook : s'.webhook = s.webhook

theorem Fixed.refl : Fixed s s :=
  ⟨rfl, rfl, rfl⟩

theorem Fixed.trans {s₁ : Store} (h : Fixed s s₁) (h' : Fixed s₁ s') : Fixed s s' :=
  ⟨h'.1.trans h.1, h'.2.trans h.2, h'.3.trans h.3⟩

theorem Fixed.insert {x : Event} : Fixed s (s.insert x) :=
  ⟨rfl, rfl, rfl⟩

theorem Fixed.judge {v : Verdict} : Fixed s (s.judge v) :=
  ⟨rfl, rfl, rfl⟩

theorem Fixed.webhooks_eq (h : Fixed s s') :
    s'.webhooks orgId serverInstanceId = s.webhooks orgId serverInstanceId := by
  rw [Store.webhooks, Store.orgRules, h.rules]
  rfl

theorem Untouched.congr (h : Untouched s e) (hs : Same e s s') : Untouched s' e :=
  ⟨fun id => (hs.tries id).trans (h.tries id), mt hs.pending.mp h.pending⟩

theorem Relaying.congr (h : Relaying orgId serverInstanceId s e) (hs : Same e s s') (hf : Fixed s s') :
    Relaying orgId serverInstanceId s' e := by
  obtain ⟨ht, hn, hr⟩ | ⟨ho, ha, hp⟩ := h
  case inl =>
    refine .inl ⟨?_, fun id => hs.tries id ▸ hn id, ?_⟩
    case refine_1 => simpa only [hf.webhooks_eq, hs.tries] using ht
    case refine_2 => simpa only [hs.row] using hr
  case inr =>
    refine .inr ⟨?_, ?_, mt hs.pending.mp hp⟩ <;>
      simpa only [Store.delivered, hs.tries, hf.webhooks_eq]

theorem Untouched.not_row (h : Untouched s e) : ¬Row s k orgId serverInstanceId e :=
  fun hr => h.pending ⟨_, _, _, hr⟩

theorem Broadcast.fixed (h : Broadcast context webhooks s s') : Fixed s s' := by
  have ⟨_, hs, _⟩ := h
  exact hs ▸ ⟨rfl, rfl, rfl⟩

theorem Broadcast.row (h : Broadcast context webhooks s s') :
    Row s' k orgId serverInstanceId e ↔ Row s k orgId serverInstanceId e := by
  have ⟨_, hs, _⟩ := h
  rw [hs]
  rfl

theorem Broadcast.same (h : Broadcast context webhooks s s') (hn : webhooks.Nodup)
    (he : e ≠ context.eventId) : Same e s s' :=
  ⟨fun id => by rw [h.tries hn, if_neg (fun h => he h.1), List.append_nil], fun _ _ _ => h.row⟩

-- The answers of the webhooks to the next broadcast of an event.
theorem whole_answers {n : Nat} (hu : Uniform s)
    (ht : ∀ id ∈ s.webhooks orgId serverInstanceId, (s.tries id e).length = n) :
    Whole ((s.webhooks orgId serverInstanceId).map (s.answer e)) := by
  have ha : (s.webhooks orgId serverInstanceId).map (s.answer e) =
      (s.webhooks orgId serverInstanceId).map fun id => s.webhook id e n :=
    List.map_congr_left fun id hm => by
      rw [Store.answer, ← ht id hm, Store.tries, List.length_map]
  exact ha ▸ hu orgId serverInstanceId e n

-- A broadcast of an event that no webhook has taken is taken by all of them or by none.
theorem Broadcast.outcome
    (h : Broadcast context (s.webhooks context.orgId context.serverInstanceId) s s') (hu : Uniform s)
    (ht : ∃ n, ∀ id ∈ s.webhooks context.orgId context.serverInstanceId,
      (s.tries id context.eventId).length = n)
    (hz : ∀ id, .ok ∉ s.tries id context.eventId) :
    if (s.relay context).failed then
      (∃ n, ∀ id ∈ s.webhooks context.orgId context.serverInstanceId,
        (s'.tries id context.eventId).length = n) ∧
        ∀ id, .ok ∉ s'.tries id context.eventId
    else
      (∀ id, s'.delivered id context.eventId ≤ 1) ∧
        ∀ id ∈ s.webhooks context.orgId context.serverInstanceId,
          s'.delivered id context.eventId = 1 := by
  have ⟨n, ht⟩ := ht
  have htries (id : RuleId) := h.tries (e := context.eventId) nodup_webhooks id
  simp only [true_and] at htries
  obtain hw | ⟨hw, hl⟩ := whole_answers hu ht
  case inl =>
    have hd (id : RuleId) : s'.delivered id context.eventId =
        if id ∈ s.webhooks context.orgId context.serverInstanceId then 1 else 0 := by
      rw [Store.delivered, htries id, List.count_append, List.count_eq_zero_of_not_mem (hz id)]
      split
      case isTrue hm  => rw [hw _ (List.mem_map_of_mem hm)]; rfl
      case isFalse hm => rfl
    rw [if_neg (by rw [Store.relay, failed_of_ok hw]; exact Bool.false_ne_true)]
    refine ⟨fun id => ?_, fun id hm => by rw [hd, if_pos hm]⟩
    rw [hd]
    split <;> decide
  case inr =>
    have hnone (id : RuleId) : .ok ∉ s'.tries id context.eventId := by
      rw [htries id, List.mem_append, not_or]
      refine ⟨hz id, ?_⟩
      split
      case isTrue hm  => simpa [eq_comm] using hw _ (List.mem_map_of_mem hm)
      case isFalse hm => nofun
    by_cases he : s.webhooks context.orgId context.serverInstanceId = []
    case pos =>
      have hf : (s.relay context).failed = false := by rw [Store.relay, he]; rfl
      simp [hf, he, Store.delivered, List.count_eq_zero_of_not_mem (hnone _)]
    case neg =>
      have hf : (s.relay context).failed = true :=
        failed_of_error (mt List.map_eq_nil_iff.mp he) hw hl
      rw [if_pos hf]
      refine ⟨⟨n + 1, fun id hm => ?_⟩, hnone⟩
      rw [htries id, if_pos hm, List.length_append, ht id hm]
      rfl

theorem event?_insert {x : Event} :
    (s.insert x).event? k = if k = s.events.length then some x else s.event? k := by
  rw [Store.event?, Store.insert, Store.event?, List.getElem?_append]
  split
  case isTrue h  => rw [if_neg (Nat.ne_of_lt h)]
  case isFalse h =>
    by_cases hk : k = s.events.length
    case pos => simp [hk]
    case neg =>
      have hl : s.events.length < k := lt_of_le_of_ne (Nat.not_lt.mp h) (Ne.symm hk)
      simp [hk, List.getElem?_eq_none (Nat.le_of_lt hl), Nat.sub_ne_zero_of_lt hl]

theorem event?_length : s.event? s.events.length = none := by
  simp [Store.event?]

-- An event that says nothing about the relay of another one.
theorem row_insert {x : Event}
    (h : ∀ context error, context.eventId = e → x.data ≠ .playerChatRelayPending context error) :
    Row (s.insert x) k orgId serverInstanceId e ↔ Row s k orgId serverInstanceId e := by
  simp only [Row, event?_insert]
  split
  case isFalse => rfl
  case isTrue hk =>
    subst hk
    constructor
    case mp =>
      rintro ⟨context, error, he, hx⟩
      exact absurd (congrArg Event.data (Option.some.inj hx)) (h context error he)
    case mpr =>
      rintro ⟨context, error, he, hx⟩
      exact nomatch event?_length.symm.trans hx

theorem same_insert {x : Event}
    (h : ∀ context error, context.eventId = e → x.data ≠ .playerChatRelayPending context error) :
    Same e s (s.insert x) :=
  ⟨fun _ => rfl, fun _ _ _ => row_insert h⟩

-- A new event that says that the relay of another one is pending.
theorem row_remember {error : Option String} :
    Row (s.insert ⟨orgId, serverInstanceId, .playerChatRelayPending context error⟩) k orgId'
        serverInstanceId' context.eventId ↔
      Row s k orgId' serverInstanceId' context.eventId ∨
        (k = s.events.length ∧ orgId = orgId' ∧ serverInstanceId = serverInstanceId') := by
  simp only [Row, event?_insert]
  split
  case isFalse hk => simp [hk]
  case isTrue hk =>
    subst hk
    constructor
    case mp =>
      rintro ⟨context', error', _, hx⟩
      obtain ⟨ho, hi, _⟩ := Event.mk.inj (Option.some.inj hx)
      exact .inr ⟨rfl, ho, hi⟩
    case mpr =>
      rintro (⟨context', error', _, hx⟩ | ⟨_, rfl, rfl⟩)
      case inl => exact nomatch event?_length.symm.trans hx
      case inr => exact ⟨context, error, rfl, rfl⟩

theorem row_delete :
    Row { s with events := s.events.set k none } k' orgId serverInstanceId e ↔
      k ≠ k' ∧ Row s k' orgId serverInstanceId e := by
  by_cases hk : k = k'
  case neg => simp only [Row, event?_delete hk, ne_eq, hk, not_false_eq_true, true_and]
  case pos =>
    subst hk
    have hn : Store.event? { s with events := s.events.set k none } k = none := by
      simp only [Store.event?, List.getElem?_set_self']
      cases s.events[k]? <;> rfl
    simp [Row, hn]

theorem Moderated.same (h : Moderated s s') : Same e s s' := by
  obtain ⟨actions, he, ha⟩ := h.events
  refine ⟨fun id => by rw [Store.tries, Store.attempts, h.sends]; rfl, fun k o i => ?_⟩
  -- The actions are inserted one after the other.
  have hl : ∀ (l : List Event) s₀, (∀ x ∈ l, ∃ id name message reason action,
      x.data = .chatModerationAction id name message reason action) →
      (Row { s₀ with events := s₀.events ++ l.map some } k o i e ↔ Row s₀ k o i e) := by
    intro l
    induction l
    case nil => simp
    case cons x l hi =>
      intro s₀ hx
      obtain ⟨⟨_, _, _, _, _, hd⟩, hx⟩ := List.forall_mem_cons.mp hx
      have := hi (s₀.insert x) hx
      simp only [Store.insert, List.append_assoc, List.singleton_append] at this
      rw [List.map_cons, this]
      exact row_insert fun _ _ _ hp => by cases hd.symm.trans hp
  have := hl actions s ha
  rwa [Row, Store.event?, ← he] at this

theorem Moderated.fixed (h : Moderated s s') : Fixed s s' :=
  ⟨h.servers, h.rules, h.webhook⟩

theorem Moderated.length_le (h : Moderated s s') : s.events.length ≤ s'.events.length := by
  have ⟨_, he, _⟩ := h.events
  simp [he]

theorem Uniform.congr (h : Uniform s) (hf : Fixed s s') : Uniform s' := by
  intro o i e n
  rw [hf.webhooks_eq, hf.webhook]
  exact h o i e n

-- The verdict on a message that moderation let through comes with the relay of the message.
def Judged (s : Store) (v : Verdict) : Prop :=
  v.moderated = false → ∃ server, s.servers[v.serverInstanceId]? = some server ∧
    Relaying server.orgId v.serverInstanceId s v.eventId

theorem Judged.congr {v : Verdict} (h : Judged s v) (hs : Same v.eventId s s') (hf : Fixed s s') :
    Judged s' v := by
  intro hv
  have ⟨server, hsrv, hr⟩ := h hv
  exact ⟨server, hf.servers ▸ hsrv, hr.congr hs hf⟩

-- Every event is either not relayed or relayed to all webhooks of a server or to none of them.
structure Sound (s : Store) : Prop where
  uniform : Uniform s
  fresh   : ∀ e, s.events.length ≤ e → Untouched s e
  stage   : ∀ e, Untouched s e ∨ ∃ orgId serverInstanceId, Relaying orgId serverInstanceId s e
  known   : ∀ v ∈ s.verdicts, v.eventId < s.events.length
  judged  : ∀ v ∈ s.verdicts, Judged s v

-- A step that is about one event.
theorem Sound.change (h : Sound s) (hs : ∀ e', e' ≠ e → Same e' s s') (hf : Fixed s s')
    (hl : s.events.length ≤ s'.events.length) (he : e < s'.events.length)
    (hst : Untouched s' e ∨ ∃ orgId serverInstanceId, Relaying orgId serverInstanceId s' e)
    (hv : ∀ v ∈ s'.verdicts, (v ∈ s.verdicts ∧ v.eventId ≠ e) ∨ (v.eventId = e ∧ Judged s' v)) :
    Sound s' where
  uniform := h.uniform.congr hf
  fresh e' hle := by
    have hn : e' ≠ e := Nat.ne_of_gt (Nat.lt_of_lt_of_le he hle)
    exact (h.fresh e' (hl.trans hle)).congr (hs e' hn)
  stage e' := by
    by_cases hn : e' = e
    case pos => exact hn ▸ hst
    case neg =>
      exact (h.stage e').imp (fun hu => hu.congr (hs e' hn))
        fun ⟨o, i, hr⟩ => ⟨o, i, hr.congr (hs e' hn) hf⟩
  known v hm := by
    obtain ⟨hm, _⟩ | ⟨hve, _⟩ := hv v hm
    case inl => exact Nat.lt_of_lt_of_le (h.known v hm) hl
    case inr => exact hve ▸ he
  judged v hm := by
    obtain ⟨hm, hn⟩ | ⟨_, hj⟩ := hv v hm
    case inl => exact (h.judged v hm).congr (hs _ hn) hf
    case inr => exact hj

theorem Remembered.fixed (h : Remembered orgId serverInstanceId context s s') : Fixed s s' := by
  have ⟨s₁, hb, hs⟩ := h
  rw [hs]
  split
  case isTrue  => exact hb.fixed.trans .insert
  case isFalse => exact hb.fixed

theorem Broadcast.events (h : Broadcast context webhooks s s') : s'.events = s.events := by
  have ⟨_, hs, _⟩ := h
  rw [hs]

theorem Broadcast.verdicts (h : Broadcast context webhooks s s') : s'.verdicts = s.verdicts := by
  have ⟨_, hs, _⟩ := h
  rw [hs]

theorem Remembered.length_le (h : Remembered orgId serverInstanceId context s s') :
    s.events.length ≤ s'.events.length := by
  have ⟨s₁, hb, hs⟩ := h
  rw [hs]
  split <;> simp [Store.insert, hb.events]

theorem Remembered.verdicts (h : Remembered orgId serverInstanceId context s s') :
    s'.verdicts = s.verdicts := by
  have ⟨s₁, hb, hs⟩ := h
  rw [hs]
  split <;> exact hb.verdicts

theorem Remembered.same (h : Remembered orgId serverInstanceId context s s')
    (he : e ≠ context.eventId) : Same e s s' := by
  have ⟨s₁, hb, hs⟩ := h
  rw [hs]
  split
  case isFalse => exact hb.same nodup_webhooks he
  case isTrue =>
    refine (hb.same nodup_webhooks he).trans (same_insert fun context' error hc hp => ?_)
    cases hp
    exact he hc.symm

-- The first broadcast of a message.
theorem Remembered.relaying
    (h : Remembered context.orgId context.serverInstanceId context s s') (hu : Uniform s)
    (hn : Untouched s context.eventId) :
    Relaying context.orgId context.serverInstanceId s' context.eventId := by
  have hf := h.fixed
  have ⟨s₁, hb, hs⟩ := h
  have ho := hb.outcome hu ⟨0, fun id _ => by rw [hn.tries]; rfl⟩ fun id => by simp [hn.tries]
  have hrow {k o i} : ¬Row s₁ k o i context.eventId := fun hr => hn.not_row (hb.row.mp hr)
  split at hs
  case isTrue hfail =>
    rw [if_pos hfail] at ho
    refine .inl ⟨?_, ?_, s₁.events.length, ?_, ?_⟩
    case refine_1 => rw [hf.webhooks_eq, hs]; exact ho.left
    case refine_2 => rw [hs]; exact ho.right
    case refine_3 => rw [hs]; exact row_remember.mpr (.inr ⟨rfl, rfl, rfl⟩)
    case refine_4 =>
      intro k o i hr
      rw [hs] at hr
      exact ((row_remember.mp hr).resolve_left hrow).left
  case isFalse hfail =>
    rw [if_neg hfail] at ho
    subst hs
    exact .inr ⟨ho.left, hf.webhooks_eq ▸ ho.right, fun ⟨k, o, i, hr⟩ => hrow hr⟩

theorem Handled.fixed (h : Handled orgId serverInstanceId serverInstanceName chat s s') : Fixed s s' := by
  cases h
  case duplicate     => exact .refl
  case moderated hm  => exact Fixed.insert.trans (hm.fixed.trans .judge)
  case relayed hm hr => exact Fixed.insert.trans (hm.fixed.trans (Fixed.judge.trans hr.fixed))

-- A line of chat is handled.
theorem Handled.sound {server : ServerInstance}
    (h : Handled server.orgId serverInstanceId serverInstanceName chat s s') (hs : Sound s)
    (hserver : s.servers[serverInstanceId]? = some server) : Sound s' := by
  have hf := h.fixed
  -- The new event is the one that is judged and relayed.
  have hnew {s₁} (moderated : Bool)
      (hm : Moderated (s.insert {
        orgId := server.orgId, sourceId := serverInstanceId
        data  := .playerChat chat "Global" serverInstanceName }) s₁) :
      let s₂ := s₁.judge { serverInstanceId, eventId := s.events.length, chat, moderated }
      (∀ e, Same e s s₂) ∧ s.events.length < s₂.events.length := by
    have hl := hm.length_le
    simp only [Store.insert, List.length_append, List.length_singleton] at hl
    refine ⟨fun e => (same_insert ?_).trans (hm.same.trans ⟨fun _ => rfl, fun _ _ _ => Iff.rfl⟩), hl⟩
    exact fun _ _ _ hp => EventData.noConfusion hp
  have hold {v} (hm : v ∈ s.verdicts) : v.eventId ≠ s.events.length := Nat.ne_of_lt (hs.known v hm)
  have hfresh := hs.fresh s.events.length le_rfl
  cases h
  case duplicate => exact hs
  case moderated s₁ hn hm =>
    have ⟨hsame, hlt⟩ := hnew true hm
    refine hs.change (fun e _ => hsame e) hf hlt.le hlt (.inl (hfresh.congr (hsame _))) fun v hv => ?_
    rw [Store.judge, hm.verdicts, List.mem_append, List.mem_singleton] at hv
    obtain hv | rfl := hv
    case inl => exact .inl ⟨hv, hold hv⟩
    case inr => exact .inr ⟨rfl, fun h => nomatch h⟩
  case relayed s₁ hn hm hr =>
    have ⟨hsame, hlt⟩ := hnew false hm
    have hu : Uniform (s₁.judge { serverInstanceId, eventId := s.events.length, chat, moderated := false }) :=
      hs.uniform.congr (Fixed.insert.trans (hm.fixed.trans .judge))
    have hrel := hr.relaying hu (hfresh.congr (hsame _))
    refine hs.change (fun e he => (hsame e).trans (hr.same he)) hf
      (hlt.le.trans hr.length_le) (Nat.lt_of_lt_of_le hlt hr.length_le)
      (.inr ⟨_, _, hrel⟩) fun v hv => ?_
    rw [hr.verdicts, Store.judge, hm.verdicts, List.mem_append, List.mem_singleton] at hv
    obtain hv | rfl := hv
    case inl => exact .inl ⟨hv, hold hv⟩
    case inr => exact .inr ⟨rfl, fun _ => ⟨server, hf.servers ▸ hserver, hrel⟩⟩

theorem Row.inj {k : EventId} (h : Row s k orgId serverInstanceId e)
    (h' : Row s k orgId' serverInstanceId' e') :
    orgId = orgId' ∧ serverInstanceId = serverInstanceId' ∧ e = e' := by
  have ⟨context, error, he, hk⟩ := h
  have ⟨context', error', he', hk'⟩ := h'
  cases hk.symm.trans hk'
  exact ⟨rfl, rfl, he.symm.trans he'⟩

-- An event whose relay is pending waits for the server that the row names.
theorem Relaying.waiting (h : Relaying orgId serverInstanceId s e)
    (hr : Row s k orgId' serverInstanceId' e) :
    Waiting orgId' serverInstanceId' s e ∧ orgId = orgId' ∧ serverInstanceId = serverInstanceId' := by
  obtain h | h := h
  case inr => exact absurd ⟨_, _, _, hr⟩ h.pending
  case inl =>
    have ⟨k', hr', hk'⟩ := h.row
    obtain rfl := hk' _ _ _ hr
    obtain ⟨rfl, rfl, _⟩ := hr'.inj hr
    exact ⟨h, rfl, rfl⟩

theorem Retried.fixed {row : EventId × RelayContext} (h : Retried orgId serverInstanceId row s s') :
    Fixed s s' := by
  have ⟨s₁, hb, hs⟩ := h
  rw [hs]
  split
  case isTrue  => exact hb.fixed
  case isFalse => exact hb.fixed.trans ⟨rfl, rfl, rfl⟩

theorem Retried.verdicts {row : EventId × RelayContext} (h : Retried orgId serverInstanceId row s s') :
    s'.verdicts = s.verdicts := by
  have ⟨s₁, hb, hs⟩ := h
  rw [hs]
  split <;> exact hb.verdicts

theorem Retried.length {row : EventId × RelayContext} (h : Retried orgId serverInstanceId row s s') :
    s'.events.length = s.events.length := by
  have ⟨s₁, hb, hs⟩ := h
  rw [hs]
  split <;> simp [hb.events]

theorem Retried.same {row : EventId × RelayContext} (h : Retried orgId serverInstanceId row s s')
    (hr : Row s row.1 orgId serverInstanceId row.2.eventId) (he : e ≠ row.2.eventId) : Same e s s' := by
  have ⟨s₁, hb, hs⟩ := h
  rw [hs]
  split
  case isTrue  => exact hb.same nodup_webhooks he
  case isFalse =>
    refine (hb.same nodup_webhooks he).trans ⟨fun _ => rfl, fun k o i => ?_⟩
    rw [row_delete]
    constructor
    case mp  => exact And.right
    case mpr =>
      refine fun hk => ⟨?_, hk⟩
      rintro rfl
      exact he ((hb.row.mp hk).inj hr).2.2

-- The rows of other relays are still there.
theorem Retried.event? {row : EventId × RelayContext} (h : Retried orgId serverInstanceId row s s')
    (hk : row.1 ≠ k) : s'.event? k = s.event? k := by
  have ⟨s₁, hb, hs⟩ := h
  rw [hs]
  split
  case isTrue  => rw [hb.event?]
  case isFalse => rw [event?_delete hk, hb.event?]

-- Another broadcast of a message.
theorem Retried.relaying {row : EventId × RelayContext} (h : Retried orgId serverInstanceId row s s')
    (hu : Uniform s) (hw : Waiting orgId serverInstanceId s row.2.eventId)
    (hr : Row s row.1 orgId serverInstanceId row.2.eventId) :
    Relaying orgId serverInstanceId s' row.2.eventId := by
  have hf := h.fixed
  have ⟨s₁, hb, hs⟩ := h
  have ho := hb.outcome hu hw.tries hw.none
  have ⟨k, hk, hu⟩ := hw.row
  obtain rfl := hu _ _ _ hr
  split at hs
  case isTrue hfail =>
    rw [if_pos hfail] at ho
    subst hs
    exact .inl ⟨hf.webhooks_eq ▸ ho.left, ho.right, row.1, hb.row.mpr hr, fun k o i hr =>
      hu k o i (hb.row.mp hr)⟩
  case isFalse hfail =>
    rw [if_neg hfail] at ho
    refine .inr ⟨?_, ?_, ?_⟩
    case refine_1 => rw [hs]; exact ho.left
    case refine_2 => rw [hf.webhooks_eq, hs]; exact ho.right
    case refine_3 =>
      rintro ⟨k, o, i, hk⟩
      rw [hs, row_delete] at hk
      exact hk.left (hu k o i (hb.row.mp hk.right)).symm

theorem Retried.sound {row : EventId × RelayContext} (h : Retried orgId serverInstanceId row s s')
    (hs : Sound s) (hr : Row s row.1 orgId serverInstanceId row.2.eventId) : Sound s' := by
  have hw : Waiting orgId serverInstanceId s row.2.eventId := by
    obtain hu | ⟨_, _, hrel⟩ := hs.stage row.2.eventId
    case inl => exact absurd hr hu.not_row
    case inr => exact (hrel.waiting hr).left
  have hrel := h.relaying hs.uniform hw hr
  have he : row.2.eventId < s'.events.length := by
    rw [h.length]
    exact Nat.lt_of_not_le fun hle => (hs.fresh _ hle).not_row hr
  refine hs.change (fun e => h.same hr) h.fixed h.length.ge he (.inr ⟨_, _, hrel⟩) fun v hv => ?_
  rw [h.verdicts] at hv
  by_cases hve : v.eventId = row.2.eventId
  case neg => exact .inl ⟨hv, hve⟩
  case pos =>
    refine .inr ⟨hve, fun hm => ?_⟩
    have ⟨server, hserver, hj⟩ := hs.judged v hv hm
    obtain ⟨_, ho, hi⟩ := (hve ▸ hj).waiting hr
    exact ⟨server, h.fixed.servers ▸ hserver, by rw [hve, ho, hi]; exact hrel⟩

-- A step that concerns no relay.
theorem Sound.congr (h : Sound s) (hs : ∀ e, Same e s s') (hf : Fixed s s')
    (he : s'.events = s.events) (hv : s'.verdicts = s.verdicts) : Sound s' where
  uniform := h.uniform.congr hf
  fresh e hle := (h.fresh e (he ▸ hle)).congr (hs e)
  stage e := (h.stage e).imp (·.congr (hs e)) fun ⟨o, i, hr⟩ => ⟨o, i, hr.congr (hs e) hf⟩
  known v hm := he ▸ h.known v (hv ▸ hm)
  judged v hm := (h.judged v (hv ▸ hm)).congr (hs _) hf

theorem parseChat_sound {server : ServerInstance} {content : String} (h : Sound s)
    (hserver : s.servers[serverInstanceId]? = some server) :
    wp (under logs .none) (returns Sound)
      (parseChat lower server.orgId serverInstanceId serverInstanceName content) s := by
  rw [parseChat]
  refine wp_step rfl ?_ fun _ _ => False.elim
  refine wp_step rfl ?_ fun _ _ => False.elim
  let I (_ : List ChatText) (s' : Store) : Prop :=
    Sound s' ∧ s'.servers[serverInstanceId]? = some server
  refine wp_returns_mono (wp_forEach (I := I) (fun chat chats s₁ ⟨hs, hsrv⟩ => ?_) ?_) fun _ h => h.left
  case refine_1 =>
    exact wp_returns_mono wp_handleChat fun s₂ h => ⟨h.sound hs hsrv, h.fixed.servers ▸ hsrv⟩
  case refine_2 =>
    exact ⟨h.congr (fun _ => ⟨fun _ => rfl, fun _ _ _ => Iff.rfl⟩) ⟨rfl, rfl, rfl⟩ rfl rfl, hserver⟩

theorem retryChatRelays_sound (h : Sound s) :
    wp (under logs .none) (returns Sound) (retryChatRelays orgId serverInstanceId) s := by
  refine wp_step rfl ?_ fun _ _ => False.elim
  -- The rows that are left have not been deleted.
  let I (rows : List (EventId × RelayContext)) (s' : Store) : Prop :=
    Sound s' ∧ (rows.map Prod.fst).Nodup ∧ ∀ row ∈ rows, ∃ error,
      s'.event? row.1 = some ⟨orgId, serverInstanceId, .playerChatRelayPending row.2 error⟩
  refine wp_returns_mono (wp_forEach (I := I) (fun row rows s₁ hI => ?_) ?_) fun _ h => h.left
  case refine_1 =>
    have ⟨hs, hn, he⟩ := hI
    have ⟨hr, hn⟩ := List.nodup_cons.mp hn
    have ⟨⟨error, he⟩, hes⟩ := List.forall_mem_cons.mp he
    refine wp_returns_mono (wp_retryChatRelay (by rw [he]; rfl)) fun s₂ h => ⟨?_, hn, fun row' hm => ?_⟩
    case refine_1 => exact h.sound hs ⟨_, error, rfl, he⟩
    case refine_2 =>
      have hk : row.1 ≠ row'.1 := fun hk => hr (hk ▸ List.mem_map_of_mem hm)
      exact h.event? hk ▸ hes row' hm
  case refine_2 =>
    refine ⟨h, nodup_relaysPending.sublist ((List.take_sublist _ _).map _), fun row hm => ?_⟩
    exact mem_relaysPending.mp (List.mem_of_mem_take hm)

theorem Sound.next {e : Message} (h : Sound s) : Sound ((messages lower).next s e) := by
  cases e
  case elapse => exact h.congr (fun _ => ⟨fun _ => rfl, fun _ _ _ => Iff.rfl⟩) ⟨rfl, rfl, rfl⟩ rfl rfl
  case chunk id content =>
    simp only
    split
    case h_1 hserver => exact (wp_run_nil (parseChat_sound h hserver)).state
    case h_2         => exact h
  case retry id =>
    simp only
    split
    case h_1 => exact (wp_run_nil (retryChatRelays_sound h)).state
    case h_2 => exact h

-- Nothing has been recorded, sent or judged.
structure Blank (s : Store) : Prop where
  events   : s.events = []
  sends    : s.sends = []
  verdicts : s.verdicts = []

theorem Blank.sound (h : Blank s) (hu : Uniform s) : Sound s := by
  have hn e : Untouched s e := by
    refine ⟨fun id => by simp [Store.tries, Store.attempts, h.sends], ?_⟩
    rintro ⟨k, o, i, context, error, _, hk⟩
    simp [Store.event?, h.events] at hk
  exact ⟨hu, fun e _ => hn e, fun e => .inl (hn e), by simp [h.verdicts], by simp [h.verdicts]⟩

theorem Untouched.delivered (h : Untouched s e) (id : RuleId) : s.delivered id e = 0 := by
  rw [Store.delivered, h.tries]
  rfl

theorem Waiting.delivered (h : Waiting orgId serverInstanceId s e) (id : RuleId) :
    s.delivered id e = 0 :=
  List.count_eq_zero_of_not_mem (h.none id)

-- If every broadcast of a message is accepted by all webhooks of its server, or refused by all of
-- them with an error that is not empty, no webhook takes a message twice, and the relay of a message
-- that moderation let through is pending as long as a webhook has not taken it.
theorem relayed_once {lower : String → String} {s : Store} (hs : Blank s) (hu : Uniform s)
    (es : List Message) :
    let s' := (messages lower).run s es
    (∀ id e, s'.delivered id e ≤ 1) ∧
      ∀ v ∈ s'.verdicts, v.moderated = false → ∃ server, s'.servers[v.serverInstanceId]? = some server ∧
        ((∃ id ∈ s'.webhooks server.orgId v.serverInstanceId, s'.delivered id v.eventId = 0) →
          s'.Pending v.eventId) := by
  have h : Sound ((messages lower).run s es) :=
    System.always (S := messages lower) (fun _ _ h => h.next) (hs.sound hu)
  refine ⟨fun id e => ?_, fun v hv hm => ?_⟩
  case refine_1 =>
    obtain hn | ⟨_, _, hw | hd⟩ := h.stage e
    case inl         => exact (hn.delivered id).le.trans (Nat.zero_le _)
    case inr.inl     => exact (hw.delivered id).le.trans (Nat.zero_le _)
    case inr.inr     => exact hd.once id
  case refine_2 =>
    have ⟨server, hserver, hr⟩ := h.judged v hv hm
    refine ⟨server, hserver, fun ⟨id, hid, hz⟩ => ?_⟩
    obtain hw | hd := hr
    case inl =>
      have ⟨k, hk, _⟩ := hw.row
      exact ⟨k, _, _, hk⟩
    case inr => exact absurd hz (by rw [hd.all id hid]; decide)

-- A server whose chat is relayed to two webhooks.
def linked (webhook : RuleId → EventId → Nat → SendResult) : Store where
  servers := [{ orgId := 0, name := "survival" }]
  rules   := ["first", "second"].map fun name => {
    orgId := 0, condition := .chatRelay none
    channel := { type := "discord", webhookUrl := "https://discord.com/api/webhooks/" ++ name } }
  webhook

-- Both webhooks refuse the first attempt.
def outage (_ : RuleId) (_ : EventId) : Nat → SendResult
  | 0     => .error "Bad Gateway"
  | _ + 1 => .ok

-- The second webhook refuses the first attempt.
def hiccup (error : String) : RuleId → EventId → Nat → SendResult
  | 1, _, 0 => .error error
  | _, _, _ => .ok

def hello : List Message :=
  [.chunk 0 "[20:15:01] [Server thread/INFO]: <Alex> hello\n"]

theorem relayed_once_outage :
    let s' := (messages toLowerCase).run (linked outage) (hello ++ [.retry 0])
    (∀ id e, s'.delivered id e ≤ 1) ∧
      ∀ v ∈ s'.verdicts, v.moderated = false → ∃ server, s'.servers[v.serverInstanceId]? = some server ∧
        ((∃ id ∈ s'.webhooks server.orgId v.serverInstanceId, s'.delivered id v.eventId = 0) →
          s'.Pending v.eventId) := by
  refine relayed_once ⟨rfl, rfl, rfl⟩ (fun o i e n => ?_) _
  cases n
  case succ => exact .inl (by simp [linked, outage])
  case zero => exact .inr ⟨by simp [linked, outage], fun h => by simpa [linked, outage] using List.mem_of_getLast? h⟩

def EventData.isPending : EventData → Bool
  | .playerChatRelayPending .. => true
  | _                          => false

-- The retry gives the message to the first webhook again. And an error without a text counts as a
-- success: the second webhook never gets the message.
theorem relayed_twice :
    (((messages toLowerCase).run (linked (hiccup "Bad Gateway")) (hello ++ [.retry 0])).delivered 0 0 = 2) ∧
      (let s' := (messages toLowerCase).run (linked (hiccup "")) hello
       (s'.verdicts.map fun v => (v.eventId, v.moderated)) = [(0, false)] ∧
         s'.webhooks 0 0 = [0, 1] ∧ s'.delivered 1 0 = 0 ∧ ¬s'.Pending 0) := by
  have hp : ∀ o ∈ ((messages toLowerCase).run (linked (hiccup "")) hello).events,
      o.all fun e => !e.data.isPending := by decide +kernel
  refine ⟨by decide +kernel, by decide +kernel, by decide +kernel, by decide +kernel, ?_⟩
  rintro ⟨k, o, i, context, error, _, hk⟩
  exact absurd (hp _ (List.mem_of_getElem? (Option.join_eq_some_iff.mp hk))) Bool.false_ne_true

end Chat
