import Mastermind.Logs.Keywords

open Effects Effects.Prog Js Jobs Search

namespace Keywords

-- The event that records the match of a rule.
def event? (lower : Units → Units) (orgId : OrgId) (serverInstanceId : ServerId) (prior : Nat)
    (searchable : Units) : RuleId × AlertRule → Option MatchEvent
  | (ruleId, rule) =>
    rule.condition.bind fun c =>
      (c.match? lower serverInstanceId prior searchable).map fun excerpt => {
        orgId, sourceId := serverInstanceId, ruleId, ruleName := rule.name, keyword := c.keyword
        excerpt }

-- The store once a chunk has been accepted.
def Store.scan (s : Store) (lower : Units → Units) (orgId : OrgId) (id : ServerId)
    (content : Units) : Store :=
  let searchable := s.scanTail id ++ content
  { s with
    logs      := s.logs ++ [(id, content)]
    scanTails := (id, searchable.rtake 256) :: s.scanTails.filter fun (id', _) => id' ≠ id
    events    := s.events ++ (s.enabledRules orgId).filterMap
      (event? lower orgId id (s.scanTail id).length searchable) }

-- The text that has come from a server in the course of a run.
def textOf (id : ServerId) (es : List LogEvent) : Units :=
  es.flatMap fun
    | .chunk id' content => if id' = id ∧ content.length ≤ 65536 then content else []
    | .rules _           => []

section

variable {lower : Units → Units} {s : Store} {id : ServerId} {server : ServerInstance}
  {orgId : OrgId} {content searchable : Units} {prior : Nat} {name : Option String}
  {rule : AlertRule} {k : RuleId}

theorem wp_matchRule {e : RuleId × AlertRule} :
    wp (under logs .none) (returns fun s' => s' = { s with
        events := s.events ++ (event? lower orgId id prior searchable e).toList })
      (matchRule lower orgId id name prior searchable e) s := by
  have ⟨k, rule⟩ := e
  rw [matchRule, event?]
  cases hc : rule.condition
  case none => simp [returns]
  case some c =>
    simp only [Option.bind_some]
    cases hm : c.match? lower id prior searchable
    case none => simp [returns]
    case some excerpt =>
      refine wp_step rfl ?_ fun _ _ => False.elim
      apply wp_handle.mpr
      apply wp_perform_under.mpr
      refine ⟨?_, fun _ => False.elim, fun _ => False.elim⟩
      simp only [exec]
      split <;> rfl

theorem wp_matchKeywordAlerts :
    wp (under logs .none)
      (returns fun s' => s' = { s.scan lower orgId id content with logs := s.logs })
      (matchKeywordAlerts lower orgId id content) s := by
  rw [matchKeywordAlerts]
  refine wp_step rfl ?_ fun _ _ => False.elim
  refine wp_step rfl ?_ fun _ _ => False.elim
  refine wp_step rfl ?_ fun _ _ => False.elim
  refine wp_step rfl ?_ fun _ _ => False.elim
  -- The events of the rules that are left are those that are missing.
  let I (rules : List (RuleId × AlertRule)) (s' : Store) : Prop :=
    let rest := rules.filterMap
      (event? lower orgId id (s.scanTail id).length (s.scanTail id ++ content))
    { s' with events := s'.events ++ rest } = { s.scan lower orgId id content with logs := s.logs }
  refine wp_returns_mono (wp_forEach (I := I) (fun e rules s₁ h => ?_) ?_) fun s' h => ?_
  case refine_1 =>
    refine wp_returns_mono wp_matchRule fun s₂ hs => ?_
    subst hs
    refine Eq.trans ?_ h
    cases he : event? lower orgId id (s.scanTail id).length (s.scanTail id ++ content) e
    case none   => simp [List.filterMap_cons_none he]
    case some x => simp [List.filterMap_cons_some he]
  case refine_2 => rfl
  case refine_3 =>
    refine Eq.trans ?_ h
    simp

theorem wp_append (hs : s.servers[id]? = some server) :
    wp (under logs .none) (fun _ s' => s' = if content ≠ [] ∧ content.length ≤ 65536 then
        s.scan lower server.orgId id content else s) (append lower id content) s := by
  rw [append]
  by_cases hn : content = []
  case pos => simp [hn]
  case neg =>
    by_cases hl : 65536 < content.length
    case pos => simp [hn, hl, Nat.not_le_of_lt hl]
    case neg =>
      have hf : exec (.findServer id) s = (.ok (some server), s) := by rw [exec, hs]
      rw [if_neg hn, if_neg hl, if_pos ⟨hn, Nat.le_of_not_lt hl⟩]
      refine wp_step hf ?_ fun _ _ => False.elim
      refine wp_step rfl ?_ fun _ _ => False.elim
      apply wp_handle.mpr
      apply wp_mono wp_matchKeywordAlerts
      intro r s' h
      cases r
      case ok    => exact h
      case error => exact h.elim
      case ended => exact h.elim

theorem append_state (lower : Units → Units) (content : Units) (hs : s.servers[id]? = some server) :
    ((append lower id content).run [] s).state =
      if content ≠ [] ∧ content.length ≤ 65536 then s.scan lower server.orgId id content else s :=
  wp_run_nil (wp_append hs)

-- A chunk of a server that is unknown changes nothing.
theorem wp_append_unknown (hs : s.servers[id]? = none) :
    wp (under logs .none) (fun _ s' => s' = s) (append lower id content) s := by
  rw [append]
  by_cases hn : content = []
  case pos => simp [hn]
  case neg =>
    by_cases hl : 65536 < content.length
    case pos => simp [hn, hl]
    case neg =>
      have hf : exec (.findServer id) s = (.ok none, s) := by rw [exec, hs]
      rw [if_neg hn, if_neg hl]
      exact wp_step hf rfl fun _ _ => False.elim

theorem scanTail_set {text : Units} {id' : ServerId} {s' : Store}
    (h : s'.scanTails = (id', text) :: s.scanTails.filter fun (id, _) => id ≠ id') :
    s'.scanTail id = if id' = id then text else s.scanTail id := by
  rw [Store.scanTail, h]
  by_cases hi : id' = id
  case pos => simp [hi]
  case neg =>
    have hb : (id == id') = false := by simpa using Ne.symm hi
    rw [if_neg hi, List.lookup_cons, hb]
    exact congrArg (Option.getD · []) (lookup_filter hi)

-- A message brings a piece of the text of a server, of which the tail is kept.
theorem next_scanTail {text : Units} (e : LogEvent) (hs : s.servers[id]? = some server)
    (ht : s.scanTail id = text.rtake 256) :
    ((scanning lower).next s e).servers = s.servers ∧
    ((scanning lower).next s e).scanTail id = (text ++ textOf id [e]).rtake 256 := by
  cases e
  case rules => exact ⟨rfl, by simpa [textOf, Store.scanTail] using ht⟩
  case chunk id' content =>
    simp only [textOf, List.flatMap_singleton]
    cases hs' : s.servers[id']?
    case none =>
      have hi : id' ≠ id := by
        rintro rfl
        exact nomatch hs'.symm.trans hs
      have hx : ((append lower id' content).run [] s).state = s := wp_run_nil (wp_append_unknown hs')
      rw [hx, if_neg fun h => hi h.left, List.append_nil]
      exact ⟨rfl, ht⟩
    case some server' =>
      rw [append_state lower content hs']
      by_cases hc : content ≠ [] ∧ content.length ≤ 65536
      case neg =>
        have hz : (if id' = id ∧ content.length ≤ 65536 then content else []) = [] := by
          by_cases hn : content = []
          case pos => rw [hn, ite_self]
          case neg => exact if_neg fun h => hc ⟨hn, h.right⟩
        rw [if_neg hc, hz, List.append_nil]
        exact ⟨rfl, ht⟩
      case pos =>
        rw [if_pos hc]
        refine ⟨rfl, (scanTail_set rfl).trans ?_⟩
        by_cases hi : id' = id
        case pos =>
          subst hi
          rw [if_pos rfl, if_pos ⟨rfl, hc.right⟩, ht, rtake_append_rtake]
        case neg => rw [if_neg hi, if_neg fun h => hi h.left, List.append_nil, ht]

theorem scanTail_run (lower : Units → Units) (es : List LogEvent) (h₀ : s.scanTail id = [])
    (hs : s.servers[id]? = some server) :
    ((scanning lower).run s es).servers = s.servers ∧
    ((scanning lower).run s es).scanTail id = (textOf id es).rtake 256 := by
  induction es using List.reverseRecOn
  case nil => exact ⟨rfl, h₀.trans (List.rtake_nil 256).symm⟩
  case append_singleton es e hi =>
    have ⟨hv, ht⟩ := next_scanTail e (hi.left ▸ hs) hi.right
    rw [System.run_append, System.run_cons, System.run_nil, textOf, List.flatMap_append]
    exact ⟨hv.trans hi.left, ht⟩

theorem nodup_enabledRules : ((s.enabledRules orgId).map Prod.fst).Nodup := by
  refine Table.entries_keys_nodup.sublist <| Table.keys_filterMap fun e e' he => ?_
  have ⟨_, _, he⟩ := Option.map_eq_some_iff.mp he
  exact he ▸ rfl

theorem mem_enabledRules (h : s.rules[k]? = some (some rule)) (ho : rule.orgId = orgId)
    (he : rule.enabled = true) : (k, rule) ∈ s.enabledRules orgId :=
  List.mem_filterMap.mpr ⟨(k, some rule), Table.mem_entries.mpr h, by simp [Option.filter, ho, he]⟩

-- The chunk is matched if the keyword ends in it.
theorem event?_keywordRule (lower : Units → Units) (stream content : Units) (k : RuleId)
    {keyword : String} (hr : keywordRule orgId id keyword true = .ok rule) :
    let tail := stream.rtake 256
    (event? lower orgId id tail.length (tail ++ content) (k, rule)).isSome ↔
      EndsIn (units (trim keyword)) stream content := by
  rw [keywordRule] at hr
  split at hr
  case isTrue => nomatch hr
  case isFalse hk =>
    obtain rfl := Except.ok.inj hr
    have ⟨hn, hl⟩ := not_or.mp hk
    have hl : (units (trim keyword)).length ≤ 256 := by omega
    rw [← lastIndexOf_rtake hl]
    simp only [event?, Option.bind_some, Option.isSome_map, KeywordCondition.match?, hn, ne_eq,
      not_true_eq_false, or_self, if_false, if_true]
    cases lastIndexOf (units (trim keyword)) (stream.rtake 256 ++ content)
    case none   => simp
    case some i =>
      by_cases h : i + (units (trim keyword)).length ≤ (stream.rtake 256).length
      case pos => simp [h]
      case neg => simp [h, Nat.lt_of_not_le h]

end

-- Each chunk is matched once by the rule if the text so far has an occurrence of the keyword that
-- ends in the chunk, and not at all if it has none.
theorem keyword_matches (lower : Units → Units) (s₀ : Store) (es : List LogEvent) (id : ServerId)
    (keyword : String) (content : Units) {server : ServerInstance} {rule : AlertRule} {k : RuleId}
    (h₀ : s₀.scanTail id = []) (hs : s₀.servers[id]? = some server)
    (hr : keywordRule server.orgId id keyword true = .ok rule)
    (hk : ((scanning lower).run s₀ es).rules[k]? = some (some rule))
    (hn : content ≠ []) (hl : content.length ≤ 65536) :
    ∃ new, ((scanning lower).run s₀ (es ++ [.chunk id content])).events =
        ((scanning lower).run s₀ es).events ++ new ∧
      (EndsIn (units (trim keyword)) (textOf id es) content →
        (new.filter (·.ruleId = k)).length = 1) ∧
      (¬EndsIn (units (trim keyword)) (textOf id es) content →
        new.filter (·.ruleId = k) = []) := by
  have ⟨hv, ht⟩ := scanTail_run lower es h₀ hs
  rw [System.run_append, System.run_cons, System.run_nil]
  generalize (scanning lower).run s₀ es = s at hk hv ht
  have hx := append_state lower content (hv ▸ hs)
  rw [if_pos ⟨hn, hl⟩] at hx
  refine ⟨_, congrArg Store.events hx, ?_⟩
  have ⟨ho, he⟩ : rule.orgId = server.orgId ∧ rule.enabled = true := by
    rw [keywordRule] at hr
    split at hr
    case isTrue  => nomatch hr
    case isFalse => exact Except.ok.inj hr ▸ ⟨rfl, rfl⟩
  have hf : ∀ (e : RuleId × AlertRule) (b : MatchEvent),
      event? lower server.orgId id (s.scanTail id).length (s.scanTail id ++ content) e = some b →
        b.ruleId = e.1 := by
    intro e b hb
    have ⟨_, _, hb⟩ := Option.bind_eq_some_iff.mp hb
    have ⟨_, _, hb⟩ := Option.map_eq_some_iff.mp hb
    exact hb ▸ rfl
  rw [Table.filter_filterMap MatchEvent.ruleId hf nodup_enabledRules (mem_enabledRules hk ho he), ht]
  have hm := event?_keywordRule lower (textOf id es) content k hr
  constructor
  case left =>
    intro h
    have ⟨b, hb⟩ := Option.isSome_iff_exists.mp (hm.mpr h)
    rw [hb]
    rfl
  case right =>
    intro h
    rw [Option.not_isSome_iff_eq_none.mp (mt hm.mp h)]
    rfl

-- The keyword of a rule is split between two chunks. The rule has been created without the blank.
theorem keyword_matches_split :
    let s₀ := ((createKeywordRule 0 0 " abc" true).run [] { servers := [⟨0, "survival"⟩] }).state
    let es : List LogEvent := [.chunk 0 [0x61, 0x62]]
    ∃ new, ((scanning id).run s₀ (es ++ [.chunk 0 [0x63]])).events =
        ((scanning id).run s₀ es).events ++ new ∧
      (new.filter (·.ruleId = 0)).length = 1 := by
  intro s₀ es
  have hr : keywordRule 0 0 " abc" true = .ok ⟨0, "Log: abc", true, some ⟨0, "abc", true⟩⟩ := by
    decide +kernel
  have hk : ((scanning id).run s₀ es).rules[0]? =
      some (some ⟨0, "Log: abc", true, some ⟨0, "abc", true⟩⟩) := by decide +kernel
  have hs : s₀.servers[0]? = some ⟨0, "survival"⟩ := by with_unfolding_all rfl
  have ⟨new, he, hm, _⟩ :=
    keyword_matches id s₀ es 0 " abc" [0x63] (by decide +kernel) hs hr hk (by decide) (by decide)
  exact ⟨new, he, hm ⟨[], [], by decide +kernel, by decide⟩⟩

end Keywords
