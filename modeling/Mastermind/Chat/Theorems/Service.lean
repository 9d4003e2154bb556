import Mastermind.Chat.Service
import Mastermind.Effects.Fated

open Effects Js Prog Jobs

namespace Chat

-- The webhooks that relay the chat of a server.
def Store.webhooks (s : Store) (orgId : OrgId) (serverInstanceId : ServerId) : List RuleId :=
  (((s.orgRules orgId).filter (·.2.enabled)).filter (·.2.relays serverInstanceId)).filterMap
    fun (id, rule) => rule.webhookUrl?.map fun _ => id

-- What the webhook of a rule answers to the next attempt to send an event.
def Store.answer (s : Store) (eventId : EventId) (ruleId : RuleId) : SendResult :=
  s.webhook ruleId eventId (s.attempts ruleId eventId).length

def Relay.add (relay : Relay) : SendResult → Relay
  | .ok          => { relay with configured := true }
  | .error error => { configured := true, error }

def Relay.of (results : List SendResult) : Relay :=
  results.foldl Relay.add {}

-- A message was given to webhooks.
def Broadcast (context : RelayContext) (webhooks : List RuleId) (s s' : Store) : Prop :=
  ∃ sent : List Send, (s' = { s with sends := s.sends ++ sent }) ∧
    sent.map (fun e => (e.ruleId, e.eventId, e.result)) =
      webhooks.map fun id => (id, context.eventId, s.answer context.eventId id)

variable {lower : String → String} {orgId : OrgId} {serverInstanceId : ServerId}
  {serverInstanceName : String} {s s' : Store} {context : RelayContext}

theorem answer_after {ruleId : RuleId} {sent : Send} {eventId : EventId} (h : sent.ruleId ≠ ruleId) :
    Store.answer { s with sends := s.sends ++ [sent] } eventId ruleId = s.answer eventId ruleId := by
  simp [Store.answer, Store.attempts, List.filter_append, h]

-- The rules among some rules that send to a webhook.
def sending (rules : List (RuleId × AlertRule)) : List RuleId :=
  rules.filterMap fun (id, rule) => rule.webhookUrl?.map fun _ => id

theorem sending_cons_none {e : RuleId × AlertRule} {rules : List (RuleId × AlertRule)}
    (h : e.2.webhookUrl? = none) : sending (e :: rules) = sending rules := by
  simp [sending, h]

theorem sending_cons_some {e : RuleId × AlertRule} {rules : List (RuleId × AlertRule)}
    {webhookUrl : String} (h : e.2.webhookUrl? = some webhookUrl) :
    sending (e :: rules) = e.1 :: sending rules := by
  simp [sending, h]

theorem sending_sublist {rules : List (RuleId × AlertRule)} :
    (sending rules).Sublist (rules.map Prod.fst) := by
  induction rules
  case nil => exact .refl _
  case cons e rules hi =>
    cases hu : e.2.webhookUrl?
    case none => exact (sending_cons_none hu).symm ▸ hi.cons _
    case some => exact (sending_cons_some hu).symm ▸ hi.cons_cons _

theorem wp_relayTo {relay : Relay} {rules : List (RuleId × AlertRule)}
    (hn : (rules.map Prod.fst).Nodup) :
    wp (under logs .none)
      (fun r s' =>
        r = .ok (((sending rules).map (s.answer context.eventId)).foldl Relay.add relay) ∧
          Broadcast context (sending rules) s s')
      (relayTo context rules relay) s := by
  induction rules generalizing s relay
  case nil => exact ⟨rfl, [], by simp, rfl⟩
  case cons e rules hi =>
    obtain ⟨id, rule⟩ := e
    have ⟨hid, hn⟩ := List.nodup_cons.mp hn
    rw [relayTo]
    cases hu : rule.webhookUrl?
    case none =>
      have hs : sending ((id, rule) :: rules) = sending rules := sending_cons_none hu
      rw [hs]
      exact hi hn
    case some webhookUrl =>
      have hs : sending ((id, rule) :: rules) = id :: sending rules := sending_cons_some hu
      rw [hs]
      refine wp_step rfl ?_ fun _ _ => False.elim
      let sent : Send := {
        ruleId := id, eventId := context.eventId, webhookUrl, embed := embed context s.clock
        result := s.answer context.eventId id }
      have hx : logs.exec (.discord id context.eventId webhookUrl (embed context s.clock)) s =
          (.ok (s.answer context.eventId id), { s with sends := s.sends ++ [sent] }) := rfl
      refine wp_step hx ?_ fun _ _ => False.elim
      have ha : ∀ id' ∈ sending rules,
          Store.answer { s with sends := s.sends ++ [sent] } context.eventId id' =
            s.answer context.eventId id' :=
        fun id' hm => answer_after fun (he : id = id') => hid (he ▸ sending_sublist.subset hm)
      have hrest : wp (under logs .none)
          (fun r s' =>
            r = .ok (((id :: sending rules).map (s.answer context.eventId)).foldl Relay.add relay) ∧
              Broadcast context (id :: sending rules) s s')
          (relayTo context rules (relay.add (s.answer context.eventId id)))
          { s with sends := s.sends ++ [sent] } := by
        refine wp_mono (hi hn) fun r s' ⟨hr, new, hs', hnew⟩ => ⟨?_, sent :: new, ?_, ?_⟩
        case refine_1 => rw [hr, List.map_congr_left ha, List.map_cons, List.foldl_cons]
        case refine_2 => rw [hs', List.append_assoc, List.singleton_append]
        case refine_3 =>
          rw [List.map_cons, List.map_cons, hnew]
          exact congrArg _ (List.map_congr_left fun id' hm => by rw [ha id' hm])
      cases hr : s.answer context.eventId id <;> rw [hr] at hrest <;> exact hrest

theorem nodup_orgRules : ((s.orgRules orgId).map Prod.fst).Nodup :=
  (Table.entries_keys_nodup (t := s.rules)).sublist (List.filter_sublist.map _)

theorem nodup_webhooks : (s.webhooks orgId serverInstanceId).Nodup :=
  ((nodup_orgRules.sublist ((List.filter_sublist.trans List.filter_sublist).map _)).sublist
    sending_sublist)

-- A broadcast gives a message to each webhook of the server.
theorem wp_relayPlayerChat :
    wp (under logs .none)
      (fun r s' =>
        let webhooks := s.webhooks context.orgId context.serverInstanceId
        r = .ok (.of (webhooks.map (s.answer context.eventId))) ∧ Broadcast context webhooks s s')
      (relayPlayerChat context) s := by
  refine wp_step rfl ?_ fun _ _ => False.elim
  exact wp_relayTo (nodup_orgRules.sublist ((List.filter_sublist.trans List.filter_sublist).map _))

-- A state in which moderation may have acted on a message.
structure Moderated (s s' : Store) : Prop where
  servers  : s'.servers = s.servers
  rules    : s'.rules = s.rules
  buffers  : s'.chatLineBuffers = s.chatLineBuffers
  webhook  : s'.webhook = s.webhook
  sends    : s'.sends = s.sends
  verdicts : s'.verdicts = s.verdicts
  events   : ∃ actions : List Event, s'.events = s.events ++ actions.map some ∧
    ∀ e ∈ actions, ∃ id name message reason action,
      e.data = .chatModerationAction id name message reason action

-- The commands of the moderation.
def Moderates : Cmd → Prop
  | .now | .findRules _ | .moderation | .setModeration _ | .enqueueCommand .. => True
  | .createEvent e =>
    ∃ id name message reason action, e.data = .chatModerationAction id name message reason action
  | _ => False

theorem exec_moderates {s₀ : Store} {c : Cmd} (h : Moderates c) (hs : Moderated s₀ s) :
    ∃ a s', logs.exec c s = (.ok a, s') ∧ Moderated s₀ s' := by
  cases c
  case createEvent e =>
    have ⟨actions, he, ha⟩ := hs.events
    refine ⟨_, _, rfl, { hs with events := ⟨actions ++ [e], ?_, ?_⟩ }⟩
    case refine_1 => simp [he]
    case refine_2 => exact List.forall_mem_append.mpr ⟨ha, List.forall_mem_singleton.mpr h⟩
  case enqueueCommand =>
    simp only [exec]
    split <;> exact ⟨_, _, rfl, { hs with }⟩
  all_goals first | exact h.elim | exact ⟨_, _, rfl, { hs with }⟩

theorem sure_moderateChat {playerId : PlayerId} {playerName message : String} :
    Sure Moderates (moderateChat lower orgId serverInstanceId playerId playerName message) := by
  have hs {c : Cmd} (h : Moderates c) : Sure Moderates (send c) := .perform h
  refine .bind (.bind (hs trivial) fun _ => .pure) fun cfg => .ite .pure ?_
  refine .bind (hs trivial) fun now => .bind (hs trivial) fun m => .bind (hs trivial) fun _ => ?_
  split
  case h_1 => exact .pure
  case h_2 =>
    refine .bind (hs ⟨_, _, _, _, _, rfl⟩) fun _ => .bind (hs trivial) fun _ => .ite .pure ?_
    exact .bind (hs trivial) fun _ => .bind (hs trivial) fun _ => .pure

theorem Moderated.refl : Moderated s s :=
  ⟨rfl, rfl, rfl, rfl, rfl, rfl, [], by simp, nofun⟩

theorem wp_moderateChat {playerId : PlayerId} {playerName message : String} {f} :
    wp (under logs .none) (returns (Moderated s))
      ((moderateChat lower orgId serverInstanceId playerId playerName message).handle f) s :=
  sure_moderateChat.handle.wp (fun _ _ => exec_moderates) .refl

-- A relay that has to be tried again.
def Relay.failed (relay : Relay) : Bool :=
  relay.configured && !relay.sent

def Store.relay (s : Store) (context : RelayContext) : Relay :=
  .of ((s.webhooks context.orgId context.serverInstanceId).map (s.answer context.eventId))

def Store.insert (s : Store) (e : Event) : Store :=
  { s with events := s.events ++ [some e] }

-- A message was relayed, or remembered if the relay has failed.
def Remembered (orgId : OrgId) (serverInstanceId : ServerId) (context : RelayContext)
    (s s' : Store) : Prop :=
  ∃ s₁, Broadcast context (s.webhooks context.orgId context.serverInstanceId) s s₁ ∧
    s' = if (s.relay context).failed then
      s₁.insert {
        orgId, sourceId := serverInstanceId
        data := .playerChatRelayPending context (s.relay context).error }
    else s₁

theorem wp_relayOrRemember :
    wp (under logs .none) (returns (Remembered orgId serverInstanceId context s))
      (relayOrRemember orgId serverInstanceId context) s := by
  refine wp_bind.mpr <| wp_mono wp_relayPlayerChat fun r s₁ ⟨hr, hb⟩ => ?_
  subst hr
  have hf : (s.relay context).failed = true ↔
      (s.relay context).configured = true ∧ (s.relay context).sent = false := by
    simp [Relay.failed]
  change wp _ _ (if (s.relay context).configured = true ∧ (s.relay context).sent = false then _ else _) s₁
  split
  case isTrue h  => exact wp_step rfl ⟨s₁, hb, by rw [if_pos (hf.mpr h)]; rfl⟩ fun _ _ => False.elim
  case isFalse h => exact ⟨s₁, hb, by rw [if_neg (mt hf.mp h)]⟩

-- The line has been recorded, as far as its timestamp tells.
def Store.Known (s : Store) (orgId : OrgId) (serverInstanceId : ServerId) (chat : ChatText) : Prop :=
  chat.logTimestamp ≠ "" ∧ ∃ chat' ∈ s.chats orgId serverInstanceId,
    chat'.logTimestamp = chat.logTimestamp

instance {chat : ChatText} : Decidable (s.Known orgId serverInstanceId chat) :=
  inferInstanceAs (Decidable (_ ∧ _))

def Store.judge (s : Store) (verdict : Verdict) : Store :=
  { s with verdicts := s.verdicts ++ [verdict] }

-- What happens to a line of chat.
inductive Handled (orgId : OrgId) (serverInstanceId : ServerId) (serverInstanceName : String)
    (chat : ChatText) (s : Store) : Store → Prop
  | duplicate (h : s.Known orgId serverInstanceId chat) :
    Handled orgId serverInstanceId serverInstanceName chat s s
  | moderated {s₁ : Store} (hn : ¬s.Known orgId serverInstanceId chat)
    (hm : Moderated (s.insert {
      orgId, sourceId := serverInstanceId, data := .playerChat chat "Global" serverInstanceName }) s₁) :
    Handled orgId serverInstanceId serverInstanceName chat s
      (s₁.judge { serverInstanceId, eventId := s.events.length, chat, moderated := true })
  | relayed {s₁ s' : Store} (hn : ¬s.Known orgId serverInstanceId chat)
    (hm : Moderated (s.insert {
      orgId, sourceId := serverInstanceId, data := .playerChat chat "Global" serverInstanceName }) s₁)
    (hr : Remembered orgId serverInstanceId {
      eventId := s.events.length, orgId, serverInstanceId, serverInstanceName
      playerName := chat.playerName, playerId := chat.playerId, channel := "Global"
      message := chat.message }
      (s₁.judge { serverInstanceId, eventId := s.events.length, chat, moderated := false }) s') :
    Handled orgId serverInstanceId serverInstanceName chat s s'

theorem wp_handleChat {chat : ChatText} :
    wp (under logs .none) (returns (Handled orgId serverInstanceId serverInstanceName chat s))
      (handleChat lower orgId serverInstanceId serverInstanceName chat) s := by
  have hd : wp (under logs .none)
      (fun r s' => ∃ d, r = .ok d ∧ s' = s ∧ (d = true ↔ s.Known orgId serverInstanceId chat))
      (isDuplicate orgId serverInstanceId chat) s := by
    rw [isDuplicate]
    split
    case isTrue h => exact ⟨false, rfl, rfl, by simp [Store.Known, h]⟩
    case isFalse h =>
      refine wp_last rfl ⟨_, rfl, rfl, ?_⟩ fun _ _ => False.elim
      simp [Store.Known, h]
  refine wp_bind.mpr <| wp_mono hd fun r s' ⟨d, hr, hs, hk⟩ => ?_
  subst hr hs
  cases d
  case true => exact .duplicate (hk.mp rfl)
  case false =>
    have hn : ¬s'.Known orgId serverInstanceId chat := fun h => nomatch hk.mpr h
    refine wp_step rfl ?_ fun _ _ => False.elim
    refine wp_bind_returns wp_moderateChat fun moderated s₁ hm => ?_
    refine wp_step rfl ?_ fun _ _ => False.elim
    cases moderated
    case true  => exact .moderated hn hm
    case false => exact wp_returns_mono wp_relayOrRemember fun _ hr => .relayed hn hm hr

-- A failed relay was tried again. It is forgotten if it has succeeded.
def Retried (orgId : OrgId) (serverInstanceId : ServerId) (row : EventId × RelayContext)
    (s s' : Store) : Prop :=
  let context := { row.2 with orgId, serverInstanceId }
  ∃ s₁, Broadcast context (s.webhooks orgId serverInstanceId) s s₁ ∧
    s' = if (s.relay context).failed then s₁ else { s₁ with events := s₁.events.set row.1 none }

theorem wp_retryChatRelay {row : EventId × RelayContext} (h : (s.event? row.1).isSome) :
    wp (under logs .none) (returns (Retried orgId serverInstanceId row s))
      (retryChatRelay orgId serverInstanceId row) s := by
  refine wp_bind.mpr <| wp_mono wp_relayPlayerChat fun r s₁ ⟨hr, hb⟩ => ?_
  subst hr
  have hf : (s.relay { row.2 with orgId, serverInstanceId }).failed = true ↔
      ¬((s.relay { row.2 with orgId, serverInstanceId }).sent = true ∨
        (s.relay { row.2 with orgId, serverInstanceId }).configured = false) := by
    simp [Relay.failed, and_comm]
  change wp _ _ (if (s.relay { row.2 with orgId, serverInstanceId }).sent = true ∨
    (s.relay { row.2 with orgId, serverInstanceId }).configured = false then _ else _) s₁
  split
  case isFalse h => exact ⟨s₁, hb, by rw [if_pos (hf.mpr h)]⟩
  case isTrue hc =>
    have ⟨sent, hs, _⟩ := hb
    have hx : logs.exec (.deleteEvent row.1) s₁ =
        (.ok (), { s₁ with events := s₁.events.set row.1 none }) := by
      have h : (s₁.event? row.1).isSome := by rw [hs]; exact h
      simp only [exec, h, if_true]
    exact wp_last hx ⟨s₁, hb, by rw [if_neg (mt hf.mp (not_not.mpr hc))]⟩ fun _ _ => False.elim

theorem mem_liveEvents {k : EventId} {e : Event} : (k, e) ∈ s.liveEvents ↔ s.event? k = some e := by
  simp only [Store.liveEvents, List.mem_filterMap, Prod.exists, Table.mem_entries, Store.event?,
    Option.map_eq_some_iff, Prod.mk.injEq, Option.join_eq_some_iff]
  constructor
  case mp  => exact fun ⟨_, _, h, _, he, hk, hv⟩ => hk ▸ hv ▸ he ▸ h
  case mpr => exact fun h => ⟨k, some e, h, e, rfl, rfl, rfl⟩

theorem mem_relaysPending {k : EventId} :
    (k, context) ∈ s.relaysPending orgId serverInstanceId ↔
      ∃ error, s.event? k = some ⟨orgId, serverInstanceId, .playerChatRelayPending context error⟩ := by
  simp only [Store.relaysPending, List.mem_filterMap, Prod.exists, mem_liveEvents]
  constructor
  case mp =>
    rintro ⟨k', ⟨o, i, data⟩, he, hs⟩
    by_cases h : o = orgId ∧ i = serverInstanceId
    case neg => simp [h] at hs
    case pos =>
      obtain ⟨rfl, rfl⟩ := h
      cases data <;> simp at hs
      obtain ⟨rfl, rfl⟩ := hs
      exact ⟨_, he⟩
  case mpr => exact fun ⟨error, he⟩ => ⟨k, _, he, by simp⟩

theorem nodup_relaysPending : ((s.relaysPending orgId serverInstanceId).map Prod.fst).Nodup := by
  have hl : (s.liveEvents.map Prod.fst).Sublist (s.events.entries.map Prod.fst) := by
    refine Table.keys_filterMap fun e e' h => ?_
    have ⟨_, _, he⟩ := Option.map_eq_some_iff.mp h
    exact he ▸ rfl
  have hp : ((s.relaysPending orgId serverInstanceId).map Prod.fst).Sublist
      (s.liveEvents.map Prod.fst) := by
    refine Table.keys_filterMap fun ⟨k, o, i, data⟩ e' h => ?_
    have ⟨_, h⟩ := Option.ite_none_right_eq_some.mp h
    cases data <;> cases h
    rfl
  exact Table.entries_keys_nodup.sublist (hp.trans hl)

theorem event?_delete {k k' : EventId} (h : k ≠ k') :
    Store.event? { s with events := s.events.set k none } k' = s.event? k' := by
  rw [Store.event?, Store.event?, List.getElem?_set_ne h]

theorem Broadcast.event? {webhooks : List RuleId} (h : Broadcast context webhooks s s') :
    s'.event? = s.event? := by
  have ⟨_, hs, _⟩ := h
  rw [hs]
  rfl

end Chat
