import Mastermind.Chat.Theorems.Lines
import Mastermind.Chat.Theorems.Service

open Effects Js Prog Jobs
open Players (sliceEnd splitLines)

namespace Chat

-- The lines of chat that are recorded, if lines with some timestamps are known.
def recorded : List String → List ChatText → List ChatText
  | _, []                => []
  | known, chat :: chats =>
    if chat.logTimestamp ≠ "" ∧ chat.logTimestamp ∈ known then recorded known chats
    else chat :: recorded (known ++ [chat.logTimestamp]) chats

section

variable {known : List String} {chats chats' : List ChatText}

theorem recorded_append :
    recorded known (chats ++ chats') =
      recorded known chats ++
        recorded (known ++ (recorded known chats).map (·.logTimestamp)) chats' := by
  induction chats generalizing known
  case nil => simp [recorded]
  case cons chat chats hi =>
    rw [List.cons_append, recorded, recorded]
    split
    case isTrue  => exact hi
    case isFalse => simp [hi]

theorem length_recorded : (recorded known chats).length ≤ chats.length := by
  induction chats generalizing known
  case nil => exact le_rfl
  case cons chat chats hi =>
    rw [recorded]
    split
    case isTrue  => exact hi.trans (Nat.le_succ _)
    case isFalse => exact Nat.succ_le_succ hi

-- All lines are recorded if and only if their timestamps are new and differ.
theorem recorded_eq_self (h : ∀ chat ∈ chats, chat.logTimestamp ≠ "") :
    recorded known chats = chats ↔
      (chats.map (·.logTimestamp)).Nodup ∧ ∀ chat ∈ chats, chat.logTimestamp ∉ known := by
  induction chats generalizing known
  case nil => simp [recorded]
  case cons chat chats hi =>
    have ⟨hc, hcs⟩ := List.forall_mem_cons.mp h
    rw [recorded]
    split
    case isTrue hk =>
      constructor
      case mp =>
        intro he
        have := congrArg List.length he
        have hl : (recorded known chats).length ≤ chats.length := length_recorded
        rw [List.length_cons] at this
        omega
      case mpr => exact fun hn => absurd hk.right (hn.right chat List.mem_cons_self)
    case isFalse hk =>
      have hk : chat.logTimestamp ∉ known := fun hm => hk ⟨hc, hm⟩
      rw [List.cons.injEq, hi hcs, List.map_cons, List.nodup_cons]
      simp only [true_and, List.forall_mem_cons, List.mem_append, List.mem_singleton, not_or, hk,
        not_false_eq_true, List.mem_map, not_exists, not_and]
      constructor
      case mp  => exact fun ⟨hn, hm⟩ => ⟨⟨fun c hc => (hm c hc).2, hn⟩, fun c hc => (hm c hc).1⟩
      case mpr => exact fun ⟨⟨hm, hn⟩, hm'⟩ => ⟨hn, fun c hc => ⟨hm' c hc, hm c hc⟩⟩

end

-- The chat of a server in an event.
def Event.chat? (orgId : OrgId) (serverInstanceId : ServerId) (e : Event) : Option ChatText :=
  if e.orgId = orgId ∧ e.sourceId = serverInstanceId then
    match e.data with
    | .playerChat chat .. => some chat
    | _                   => none
  else none

-- The messages of a server that moderation was given.
def Store.heard (s : Store) (serverInstanceId : ServerId) : List ChatText :=
  (s.verdicts.filter (·.serverInstanceId = serverInstanceId)).map (·.chat)

def Store.stamps (s : Store) (orgId : OrgId) (serverInstanceId : ServerId) : List String :=
  (s.chats orgId serverInstanceId).map (·.logTimestamp)

-- The unfinished line of a server.
def Store.buffer (s : Store) (serverInstanceId : ServerId) : String :=
  (s.chatLineBuffers.lookup serverInstanceId).getD ""

variable {lower : String → String} {orgId orgId' : OrgId} {id id' : ServerId}
  {serverInstanceName : String} {s s' : Store} {context : RelayContext} {e : Event} {chat : ChatText}

theorem chats_eq : s.chats orgId id = s.events.filterMap (·.bind (Event.chat? orgId id)) := by
  have h : s.events.entries.map Prod.snd = s.events := by
    simp [Table.entries, Function.comp_def, List.zipIdx_map_fst]
  conv_rhs => rw [← h, List.filterMap_map]
  rw [Store.chats, Store.liveEvents, List.filterMap_filterMap]
  apply List.filterMap_congr
  rintro ⟨k, _ | e⟩ _ <;> rfl

theorem chats_insert : (s.insert e).chats orgId id = s.chats orgId id ++ (e.chat? orgId id).toList := by
  simp only [chats_eq, Store.insert, List.filterMap_append, List.filterMap_cons, List.filterMap_nil,
    Option.bind_some]
  cases e.chat? orgId id <;> rfl

-- An event that is no chat is deleted.
theorem chats_delete {k : EventId} (h : ∀ e, s.event? k = some e → e.chat? orgId id = none) :
    Store.chats { s with events := s.events.set k none } orgId id = s.chats orgId id := by
  have hl : ∀ (l : List (Option Event)) k, (∀ e, l[k]?.join = some e → e.chat? orgId id = none) →
      (l.set k none).filterMap (·.bind (Event.chat? orgId id)) =
        l.filterMap (·.bind (Event.chat? orgId id)) := by
    intro l
    induction l
    case nil => exact fun _ _ => rfl
    case cons o l hi =>
      intro k h
      cases k
      case succ k => simp only [List.set_cons_succ, List.filterMap_cons, hi k h]
      case zero =>
        have ho : o.bind (Event.chat? orgId id) = none := by
          cases o
          case none   => rfl
          case some e => exact h e rfl
        simp [ho]
  simpa only [chats_eq] using hl s.events k h

-- What concerns the chat of a server is the same.
structure Unmoved (orgId : OrgId) (id : ServerId) (s s' : Store) : Prop where
  servers : s'.servers = s.servers
  buffer  : s'.buffer id = s.buffer id
  chats   : s'.chats orgId id = s.chats orgId id
  heard   : s'.heard id = s.heard id

theorem Unmoved.refl : Unmoved orgId id s s :=
  ⟨rfl, rfl, rfl, rfl⟩

theorem Unmoved.trans {s₁ : Store} (h : Unmoved orgId id s s₁) (h' : Unmoved orgId id s₁ s') :
    Unmoved orgId id s s' :=
  ⟨h'.1.trans h.1, h'.2.trans h.2, h'.3.trans h.3, h'.4.trans h.4⟩

theorem Unmoved.insert (h : e.chat? orgId id = none) : Unmoved orgId id s (s.insert e) :=
  ⟨rfl, rfl, by rw [chats_insert, h]; exact List.append_nil _, rfl⟩

theorem Moderated.unmoved (h : Moderated s s') : Unmoved orgId id s s' := by
  refine ⟨h.servers, by rw [Store.buffer, h.buffers]; rfl, ?_, by rw [Store.heard, h.verdicts]; rfl⟩
  have ⟨actions, he, ha⟩ := h.events
  have hn : (actions.map some).filterMap (·.bind (Event.chat? orgId id)) = [] := by
    rw [List.filterMap_eq_nil_iff]
    intro o ho
    have ⟨e, he, hs⟩ := List.mem_map.mp ho
    have ⟨_, _, _, _, _, hd⟩ := ha e he
    subst hs
    simp [Event.chat?, hd]
  rw [chats_eq, chats_eq, he, List.filterMap_append, hn, List.append_nil]

theorem Broadcast.unmoved {webhooks : List RuleId} (h : Broadcast context webhooks s s') :
    Unmoved orgId id s s' := by
  have ⟨_, hs, _⟩ := h
  exact hs ▸ ⟨rfl, rfl, rfl, rfl⟩

theorem Remembered.unmoved (h : Remembered orgId' id' context s s') : Unmoved orgId id s s' := by
  have ⟨s₁, hb, hs⟩ := h
  rw [hs]
  split
  case isTrue  => exact hb.unmoved.trans (.insert (by simp [Event.chat?]))
  case isFalse => exact hb.unmoved

theorem known_iff :
    s.Known orgId id chat ↔ chat.logTimestamp ≠ "" ∧ chat.logTimestamp ∈ s.stamps orgId id := by
  simp [Store.Known, Store.stamps]

theorem heard_judge {verdict : Verdict} :
    (s.judge verdict).heard id =
      s.heard id ++ if verdict.serverInstanceId = id then [verdict.chat] else [] := by
  rw [Store.heard, Store.heard, Store.judge, List.filter_append, List.map_append]
  split <;> simp [*]

-- A line of chat that is new is recorded and given to moderation.
theorem Handled.recorded (h : Handled orgId id serverInstanceName chat s s') :
    (s'.servers = s.servers) ∧ s'.buffer id = s.buffer id ∧
      if s.Known orgId id chat then s'.chats orgId id = s.chats orgId id ∧ s'.heard id = s.heard id
      else s'.chats orgId id = s.chats orgId id ++ [chat] ∧ s'.heard id = s.heard id ++ [chat] := by
  have hi {s₁ s'} {moderated : Bool}
      (hm : Moderated (s.insert {
        orgId, sourceId := id, data := .playerChat chat "Global" serverInstanceName }) s₁)
      (hu : Unmoved orgId id
        (s₁.judge { serverInstanceId := id, eventId := s.events.length, chat, moderated }) s') :
      (s'.servers = s.servers) ∧ s'.buffer id = s.buffer id ∧
        s'.chats orgId id = s.chats orgId id ++ [chat] ∧ s'.heard id = s.heard id ++ [chat] := by
    have hm : Unmoved orgId id _ s₁ := hm.unmoved
    have hc : (s₁.judge { serverInstanceId := id, eventId := s.events.length, chat, moderated }).chats
        orgId id = s₁.chats orgId id := rfl
    refine ⟨hu.servers.trans hm.servers, hu.buffer.trans hm.buffer, ?_, ?_⟩
    case refine_1 =>
      rw [hu.chats, hc, hm.chats, chats_insert]
      simp [Event.chat?]
    case refine_2 =>
      rw [hu.heard, heard_judge, hm.heard, if_pos rfl]
      rfl
  cases h
  case duplicate h => exact ⟨rfl, rfl, by rw [if_pos h]; exact ⟨rfl, rfl⟩⟩
  case moderated hn hm =>
    rw [if_neg hn]
    exact hi hm .refl
  case relayed hn hm hr =>
    rw [if_neg hn]
    exact hi hm hr.unmoved

-- The chat of other servers does not matter.
theorem Handled.unmoved (h : Handled orgId' id' serverInstanceName chat s s') (hn : id' ≠ id) :
    Unmoved orgId id s s' := by
  have hi {s₁} {moderated : Bool}
      (hm : Moderated (s.insert {
        orgId := orgId', sourceId := id', data := .playerChat chat "Global" serverInstanceName }) s₁) :
      Unmoved orgId id s
        (s₁.judge { serverInstanceId := id', eventId := s.events.length, chat, moderated }) := by
    refine (Unmoved.insert (by simp [Event.chat?, hn])).trans (hm.unmoved.trans ⟨rfl, rfl, rfl, ?_⟩)
    rw [heard_judge, if_neg hn, List.append_nil]
  cases h
  case duplicate         => exact .refl
  case moderated hm      => exact hi hm
  case relayed hm hr     => exact (hi hm).trans hr.unmoved

-- The lines of chat that a chunk completes.
def Store.lines (s : Store) (id : ServerId) (content : String) : List ChatText :=
  (splitLines (s.buffer id ++ content)).1.filterMap parseChatLine

theorem buffer_set {text : String} :
    Store.buffer { s with
      chatLineBuffers := (id', text) :: s.chatLineBuffers.filter fun (id, _) => id ≠ id' } id =
      if id' = id then text else s.buffer id := by
  by_cases h : id' = id
  case pos => simp [Store.buffer, h]
  case neg =>
    have hb : (id == id') = false := by simpa using Ne.symm h
    rw [if_neg h, Store.buffer, List.lookup_cons, hb]
    exact congrArg (Option.getD · "") (lookup_filter h)

-- A chunk of the server's log was processed.
structure Chunked (orgId : OrgId) (id : ServerId) (content : String) (s s' : Store) : Prop where
  servers : s'.servers = s.servers
  buffer  : s'.buffer id = sliceEnd (splitLines (s.buffer id ++ content)).2 4096
  chats   : s'.chats orgId id =
    s.chats orgId id ++ recorded (s.stamps orgId id) (s.lines id content)
  heard   : s'.heard id = s.heard id ++ recorded (s.stamps orgId id) (s.lines id content)

theorem wp_parseChat {content : String} :
    wp (under logs .none) (returns (Chunked orgId id content s))
      (parseChat lower orgId id serverInstanceName content) s := by
  rw [parseChat]
  refine wp_step rfl ?_ fun _ _ => False.elim
  refine wp_step rfl ?_ fun _ _ => False.elim
  let I (chats : List ChatText) (s' : Store) : Prop :=
    (s'.servers = s.servers) ∧
      s'.buffer id = sliceEnd (splitLines (s.buffer id ++ content)).2 4096 ∧
      s'.chats orgId id ++ recorded (s'.stamps orgId id) chats =
        s.chats orgId id ++ recorded (s.stamps orgId id) (s.lines id content) ∧
      s'.heard id ++ recorded (s'.stamps orgId id) chats =
        s.heard id ++ recorded (s.stamps orgId id) (s.lines id content)
  have hstep : ∀ chat chats s₁, I (chat :: chats) s₁ →
      wp (under logs .none) (returns (I chats)) (handleChat lower orgId id serverInstanceName chat) s₁ := by
    intro chat chats s₁ ⟨hs, hb, hc, hh⟩
    refine wp_returns_mono wp_handleChat fun s₂ h => ?_
    have ⟨hs', hb', hr⟩ := h.recorded
    refine ⟨hs'.trans hs, hb'.trans hb, ?_⟩
    rw [recorded] at hc hh
    simp only [← known_iff] at hc hh
    split at hr
    case isTrue hk =>
      rw [if_pos hk] at hc hh
      rw [Store.stamps, hr.1, hr.2]
      exact ⟨hc, hh⟩
    case isFalse hk =>
      rw [if_neg hk] at hc hh
      rw [Store.stamps, hr.1, hr.2]
      simpa [Store.stamps] using ⟨hc, hh⟩
  refine wp_returns_mono (wp_forEach (I := I) hstep ?_) fun s' h => ?_
  case refine_1 => exact ⟨rfl, by rw [buffer_set, if_pos rfl]; rfl, rfl, rfl⟩
  case refine_2 =>
    have ⟨hs, hb, hc, hh⟩ := h
    simp only [recorded, List.append_nil] at hc hh
    exact ⟨hs, hb, hc, hh⟩

theorem wp_parseChat_other {content : String} (hn : id' ≠ id) :
    wp (under logs .none) (returns (Unmoved orgId id s))
      (parseChat lower orgId' id' serverInstanceName content) s := by
  rw [parseChat]
  refine wp_step rfl ?_ fun _ _ => False.elim
  refine wp_step rfl ?_ fun _ _ => False.elim
  refine wp_forEach (I := fun _ => Unmoved orgId id s) (fun chat chats s₁ hu => ?_) ?_
  case refine_1 => exact wp_returns_mono wp_handleChat fun s₂ h => hu.trans (h.unmoved hn)
  case refine_2 => exact ⟨rfl, by rw [buffer_set, if_neg hn], rfl, rfl⟩

theorem Retried.unmoved {row : EventId × RelayContext} (h : Retried orgId' id' row s s')
    (he : ∀ e, s.event? row.1 = some e → e.chat? orgId id = none) : Unmoved orgId id s s' := by
  have ⟨s₁, hb, hs⟩ := h
  rw [hs]
  split
  case isTrue  => exact hb.unmoved
  case isFalse => exact hb.unmoved.trans ⟨rfl, rfl, chats_delete (hb.event? ▸ he), rfl⟩

theorem wp_retryChatRelays :
    wp (under logs .none) (returns (Unmoved orgId id s)) (retryChatRelays orgId' id') s := by
  refine wp_step rfl ?_ fun _ _ => False.elim
  -- The rows that are left are no chat.
  let I (rows : List (EventId × RelayContext)) (s' : Store) : Prop :=
    Unmoved orgId id s s' ∧ (rows.map Prod.fst).Nodup ∧
      ∀ row ∈ rows, ∃ e, s'.event? row.1 = some e ∧ e.chat? orgId id = none
  refine wp_returns_mono (wp_forEach (I := I) (fun row rows s₁ hI => ?_) ?_) fun _ h => h.left
  case refine_1 =>
    have ⟨hu, hn, he⟩ := hI
    have ⟨hr, hn⟩ := List.nodup_cons.mp hn
    have ⟨⟨e, he, hc⟩, hes⟩ := List.forall_mem_cons.mp he
    refine wp_returns_mono (wp_retryChatRelay (by rw [he]; rfl)) fun s₂ h => ⟨?_, hn, fun row' hm => ?_⟩
    case refine_1 =>
      exact hu.trans <| h.unmoved fun e' he' => Option.some.inj (he.symm.trans he') ▸ hc
    case refine_2 =>
      have hk : row.1 ≠ row'.1 := fun hk => hr (hk ▸ List.mem_map_of_mem hm)
      have ⟨s₃, hb, hs⟩ := h
      rw [hs]
      split
      case isTrue  => exact hb.event? ▸ hes row' hm
      case isFalse => exact (event?_delete hk).symm ▸ hb.event? ▸ hes row' hm
  case refine_2 =>
    refine ⟨.refl, nodup_relaysPending.sublist ((List.take_sublist _ _).map _), fun row hm => ?_⟩
    have ⟨_, he⟩ := mem_relaysPending.mp (List.mem_of_mem_take hm)
    exact ⟨_, he, by simp [Event.chat?]⟩

-- The chunks of a server's log.
def uploads (id : ServerId) (es : List Message) : List String :=
  es.filterMap fun
    | .chunk id' content => if id' = id then some content else none
    | _                  => none

variable {server : ServerInstance}

-- Other messages than the chunks of a server do not matter to its chat.
theorem next_unmoved {e : Message} (h : uploads id [e] = []) :
    Unmoved orgId id s ((messages lower).next s e) := by
  cases e
  case elapse => exact ⟨rfl, rfl, rfl, rfl⟩
  case retry id' =>
    simp only
    split
    case h_1 => exact (wp_run_nil wp_retryChatRelays).state
    case h_2 => exact .refl
  case chunk id' content =>
    have hn : id' ≠ id := by
      rintro rfl
      simp [uploads] at h
    simp only
    split
    case h_1 => exact (wp_run_nil (wp_parseChat_other hn)).state
    case h_2 => exact .refl

theorem uploads_cases (id : ServerId) (e : Message) : uploads id [e] = [] ∨ ∃ content, e = .chunk id content := by
  cases e
  case retry  => exact .inl rfl
  case elapse => exact .inl rfl
  case chunk id' content =>
    by_cases h : id' = id
    case pos => exact .inr ⟨content, by rw [h]⟩
    case neg => exact .inl (by simp [uploads, h])

-- What is recorded is what the timestamps let through.
theorem run_recorded {es : List Message} (hs : s.servers[id]? = some server)
    (hk : Kept (s.buffer id) (uploads id es)) :
    let new := recorded (s.stamps server.orgId id)
      ((completed (s.buffer id) (uploads id es)).filterMap parseChatLine)
    ((messages lower).run s es).chats server.orgId id = s.chats server.orgId id ++ new ∧
      ((messages lower).run s es).heard id = s.heard id ++ new := by
  induction es generalizing s
  case nil => exact ⟨(List.append_nil _).symm, (List.append_nil _).symm⟩
  case cons e es hi =>
    obtain he | ⟨content, rfl⟩ := uploads_cases id e
    case inl =>
      have hu : uploads id (e :: es) = uploads id es := by
        rw [show uploads id (e :: es) = uploads id [e] ++ uploads id es from
          List.filterMap_append (l := [e]), he, List.nil_append]
      have h : Unmoved server.orgId id s ((messages lower).next s e) := next_unmoved he
      rw [hu] at hk ⊢
      have := hi (s := (messages lower).next s e) (by rw [h.servers]; exact hs) (by rwa [h.buffer])
      rw [Store.stamps, h.chats, h.buffer, h.heard] at this
      exact this
    case inr =>
      have hu : uploads id (.chunk id content :: es) = content :: uploads id es := by simp [uploads]
      rw [hu] at hk ⊢
      have ⟨hs', hb, hc, hh⟩ : Chunked server.orgId id content s
          ((parseChat lower server.orgId id server.name content).run [] s).state :=
        (wp_run_nil wp_parseChat).state
      have hn : (messages lower).next s (.chunk id content) =
          ((parseChat lower server.orgId id server.name content).run [] s).state := by
        simp [hs]
      rw [sliceEnd_eq_self hk.left] at hb
      have := hi (s := (messages lower).next s (.chunk id content)) (by rw [hn, hs']; exact hs)
        (by rw [hn, hb]; exact hk.right)
      rw [Store.stamps, hn, hc, hb, hh, List.map_append] at this
      have hl : (completed (s.buffer id) (content :: uploads id es)).filterMap parseChatLine =
          s.lines id content ++
            (completed (splitLines (s.buffer id ++ content)).2 (uploads id es)).filterMap parseChatLine :=
        List.filterMap_append
      rw [System.run_cons, hn, hl, recorded_append]
      exact ⟨this.left.trans (List.append_assoc ..), this.right.trans (List.append_assoc ..)⟩

theorem logTimestamp_ne_empty (line : ChatLine) : line.text.logTimestamp ≠ "" := by
  intro h
  have h : line.stamp = [] := by simpa [ChatLine.text] using congrArg String.toList h
  nomatch h

theorem logTimestamp_inj {line line' : ChatLine} :
    line.text.logTimestamp = line'.text.logTimestamp ↔ line.clock = line'.clock := by
  rw [← stamp_inj]
  constructor
  case mp  => exact fun h => by simpa [ChatLine.text] using congrArg String.toList h
  case mpr => exact fun h => congrArg String.ofList h

-- Every line of chat that a server writes is recorded once and given to moderation, if and only if
-- no two of the lines are of the same time of day, and no line that was recorded before is.
theorem chat_recorded_iff {lower : String → String} {s : Store} {id : ServerId}
    {server : ServerInstance} {e : LineEnd} {lines : List ChatLine} {es : List Message}
    (hs : s.servers[id]? = some server) (hb : s.buffer id = "")
    (hw : (uploads id es).flatMap String.toList = written e lines) (hk : Kept "" (uploads id es)) :
    (((messages lower).run s es).chats server.orgId id =
        s.chats server.orgId id ++ lines.map ChatLine.text ∧
      ((messages lower).run s es).heard id = s.heard id ++ lines.map ChatLine.text) ↔
    (lines.map ChatLine.clock).Nodup ∧
      ∀ line ∈ lines, ∀ chat ∈ s.chats server.orgId id, chat.logTimestamp ≠ line.text.logTimestamp := by
  have ⟨hc, hh⟩ : ((messages lower).run s es).chats server.orgId id = _ ∧
      ((messages lower).run s es).heard id = _ := run_recorded hs (hb ▸ hk)
  rw [hb, completed_written hw] at hc hh
  have hn : ((lines.map ChatLine.text).map (·.logTimestamp)).Nodup ↔ (lines.map ChatLine.clock).Nodup := by
    rw [List.map_map, List.Nodup, List.Nodup, List.pairwise_map, List.pairwise_map]
    simp only [Function.comp_apply, ne_eq, logTimestamp_inj]
  have ht : ∀ chat ∈ lines.map ChatLine.text, chat.logTimestamp ≠ "" := by
    simp only [List.forall_mem_map]
    exact fun line _ => logTimestamp_ne_empty line
  rw [hc, hh, List.append_cancel_left_eq, List.append_cancel_left_eq, and_self, recorded_eq_self ht, hn]
  simp [Store.stamps]

-- Two players write in the evening.
def greeting (seconds : Fin 60) : ChatLine where
  hours         := ⟨20, by decide⟩
  minutes       := ⟨15, by decide⟩
  seconds       := seconds
  source        := "Server thread/INFO".toList
  name          := "Alex".toList
  message       := "hello".toList
  source_plain  := List.all_iff_forall_prop.mp (by decide +kernel)
  name_plain    := List.all_iff_forall_prop.mp (by decide +kernel)
  name_size     := by decide +kernel
  name_text     := by decide +kernel
  message_plain := List.all_iff_forall_prop.mp (by decide +kernel)
  message_text  := by decide +kernel

def insult (seconds : Fin 60) : ChatLine where
  hours         := ⟨20, by decide⟩
  minutes       := ⟨15, by decide⟩
  seconds       := seconds
  source        := "Server thread/INFO".toList
  name          := "Steve".toList
  message       := "noob".toList
  source_plain  := List.all_iff_forall_prop.mp (by decide +kernel)
  name_plain    := List.all_iff_forall_prop.mp (by decide +kernel)
  name_size     := by decide +kernel
  name_text     := by decide +kernel
  message_plain := List.all_iff_forall_prop.mp (by decide +kernel)
  message_text  := by decide +kernel

-- A server on which a word is blocked.
def strict : Store where
  servers := [{ orgId := 0, name := "survival" }]
  rules   := [{
    orgId := 0, channel := { type := "dashboard" }
    condition := .chatModeration 0 { badWordRules := some [("noob", some .kick)] } }]

def evening (lines : List ChatLine) : List Message :=
  [.chunk 0 (.ofList (written .lf lines))]

theorem chat_recorded_iff_evening :
    (((messages toLowerCase).run strict (evening [greeting 1, insult 2])).chats 0 0 =
        strict.chats 0 0 ++ [greeting 1, insult 2].map ChatLine.text ∧
      ((messages toLowerCase).run strict (evening [greeting 1, insult 2])).heard 0 =
        strict.heard 0 ++ [greeting 1, insult 2].map ChatLine.text) :=
  have hs : strict.servers[0]? = some { orgId := 0, name := "survival" } := rfl
  have hw : (uploads 0 (evening [greeting 1, insult 2])).flatMap String.toList =
      written .lf [greeting 1, insult 2] := by simp [uploads, evening]
  (chat_recorded_iff hs rfl hw ⟨by decide +kernel, trivial⟩).mpr ⟨by decide, by decide⟩

-- The insult falls into the second of the greeting: it is not recorded, and moderation does not see it.
theorem chat_lost_sameSecond :
    (((messages toLowerCase).run strict (evening [greeting 1, insult 1])).chats 0 0 =
        [(greeting 1).text]) ∧
      ((messages toLowerCase).run strict (evening [greeting 1, insult 1])).heard 0 = [(greeting 1).text] := by
  decide +kernel

end Chat
