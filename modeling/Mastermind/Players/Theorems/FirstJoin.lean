import Mastermind.Players.Theorems.Account

open Effects Js Jobs Triggers

namespace Players

variable {a : Account} {k : TriggerId} {seen : Bool} {s : Store} {serverInstanceId : ServerId}
  {key : IdentityKey} {name : String} {steamId : Option String} {id : PlayerId} {p : Player}

-- A player who stands for the account is known.
def Store.knows (s : Store) (a : Account) : Bool :=
  (liveEntries s.players).any fun (_, p) => a.owns p.identity

theorem identity_of_player (h : s.player? id = some p) :
    s.view.identities[id]? = some ⟨p.identity, true⟩ := by
  have h : s.players[id]? = some ⟨p, true⟩ := live?_eq_some.mp h
  simp [Store.view, h, Row.map]

theorem player_of_identity {i : ServerId × IdentityKey} (h : s.view.identities[id]? = some ⟨i, true⟩) :
    ∃ p, s.player? id = some p ∧ p.identity = i := by
  simp only [Store.view, List.getElem?_map, Option.map_eq_some_iff] at h
  obtain ⟨⟨p, live⟩, hr, he⟩ := h
  cases he
  exact ⟨p, live?_eq_some.mpr hr, rfl⟩

theorem knows_iff : s.knows a = true ↔ s.view.alive a := by
  simp only [Store.knows, List.any_eq_true, Prod.exists, mem_liveEntries]
  constructor
  case mp => exact fun ⟨id, p, hp, ha⟩ => ⟨id, _, identity_of_player hp, ha⟩
  case mpr =>
    intro ⟨id, i, hi, ha⟩
    have ⟨p, hp, he⟩ := player_of_identity hi
    exact ⟨id, p, hp, he ▸ ha⟩

theorem view_promote : (s.promote id key steamId).view = s.view.rename id key := by
  have h : (s.players.modify id (Row.modify
        ({ identityKey := key, steamId := some steamId } : PlayerData).apply)).map
        (Row.map Player.identity) =
      (s.players.map (Row.map Player.identity)).modify id
        fun r => { r with data := (r.data.1, key) } := by
    apply List.ext_getElem?
    intro j
    simp only [List.getElem?_map, List.getElem?_modify]
    split
    case isTrue  => cases s.players[j]? <;> rfl
    case isFalse => simp
  simp only [Store.promote, Store.view, View.rename, h]

theorem view_merge {id' : PlayerId} {data : PlayerData} (hd : data.identityKey = none) :
    (s.merge id id' data).view = s.view.kill id' := by
  have hp : ((s.players.modify id (Row.modify data.apply)).modify id' Row.kill).map
        (Row.map Player.identity) = (s.players.map (Row.map Player.identity)).modify id' Row.kill := by
    rw [← map_modify (identity_apply hd) (t := s.players) (k := id)]
    apply List.ext_getElem?
    intro j
    simp only [List.getElem?_map, List.getElem?_modify]
    split
    case isTrue  => simp [Option.map_map, Function.comp_def, Row.map, Row.kill]
    case isFalse => simp
  have hf : (s.fires.map fun r => if r.data.playerId = id' then r.kill else r).map
      (fun r => r.data.mark) = s.fires.map fun r => r.data.mark :=
    map_map_of_eq fun r => by split <;> rfl
  simp only [Store.merge, Store.view, View.kill, hp, hf]

theorem keyed?_identity (h : s.keyed? serverInstanceId key = some (id, p)) :
    s.view.identities[id]? = some ⟨(serverInstanceId, key), true⟩ := by
  have ⟨hp, hs, hk⟩ := keyed?_some h
  have he : p.identity = (serverInstanceId, key) := by simp [Player.identity, hs, hk]
  exact he ▸ identity_of_player hp

theorem keyed?_isSome (hp : s.player? id = some p) :
    (s.keyed? p.serverInstanceId p.identityKey).isSome = true := by
  cases hk : s.keyed? p.serverInstanceId p.identityKey
  case some => rfl
  case none => exact absurd rfl <| keyed?_none hk hp rfl

theorem Account.owns_iff : a.owns (serverInstanceId, key) = true ↔
    serverInstanceId = a.serverInstanceId ∧ a.hasKey key = true := by
  simp [Account.owns]

-- A fire that exists leaves its mark.
theorem fired?_eq_none {triggerId : TriggerId}
    (h : (triggerId, id, eventKeyForFirstJoin) ∉ s.view.firstJoins) :
    s.fired? triggerId id eventKeyForFirstJoin = none := by
  cases hf : s.fired? triggerId id eventKeyForFirstJoin
  case none => rfl
  case some e =>
    obtain ⟨fireId, f⟩ := e
    have hp := List.find?_some hf
    have hm := live?_eq_some.mp <| mem_liveEntries.mp <| List.mem_of_find?_eq_some hf
    simp only [Bool.and_eq_true, decide_eq_true_eq] at hp
    obtain ⟨⟨rfl, rfl⟩, hk⟩ := hp
    refine absurd ?_ h
    simp only [Store.view, List.mem_filter, List.mem_map, decide_eq_true_eq]
    exact ⟨⟨_, List.mem_of_getElem? hm, by simp [TriggerFire.mark, hk]⟩, trivial⟩

-- A row that is there is no new sight of the account.
theorem Settled.again (h : Settled a k seen s.view)
    (hk : s.keyed? serverInstanceId key = some (id, p)) :
    Settled a k (seen || a.owns (serverInstanceId, key)) s.view := by
  have ho : a.owns (serverInstanceId, key) = true → seen = true := fun ho =>
    h.alive_iff.mp ⟨id, _, keyed?_identity hk, ho⟩
  exact (Bool.or_eq_left_iff_imp.mpr ho).symm ▸ h

section

variable [Naming]

-- A sighting under a key and a name belongs to the account by its key just if it does by its name.
def Account.Agrees (a : Account) (serverInstanceId : ServerId) (key : IdentityKey) (name : String) :
    Prop :=
  serverInstanceId = a.serverInstanceId → a.hasKey key = a.isCalled name

theorem Account.Agrees.owns_eq (h : a.Agrees serverInstanceId key name) :
    a.owns (serverInstanceId, key) = a.owns (serverInstanceId, fallbackKey name) := by
  by_cases hs : serverInstanceId = a.serverInstanceId
  case pos => simpa [Account.owns, Account.isCalled, hs] using h hs
  case neg => simp [Account.owns, hs]

theorem Settled.reconcile (h : Settled a k seen s.view) (steamId : Option String)
    (ha : a.Agrees serverInstanceId key name) :
    Settled a k seen (s.reconcile serverInstanceId key name steamId).view := by
  rw [Store.reconcile]
  cases hk : key.isName
  case true => exact h
  case false =>
    simp only [Bool.false_eq_true, if_false]
    split
    case h_1 => exact h
    case h_2 fallbackId _ hf _ =>
      rw [view_promote]
      exact h.rename (keyed?_identity hf) ha.owns_eq
    case h_3 fallbackId _ canonicalId _ hf hc =>
      have hn : key ≠ fallbackKey name := fun hn => by simp [hn, fallbackKey, IdentityKey.isName] at hk
      rw [view_merge rfl]
      exact h.kill (keyed?_identity hf) (keyed?_identity hc) (keyed?_ne hn hc hf)
        fun ho => ha.owns_eq.trans ho

section

open Effects.Prog

variable {triggerId : TriggerId} {trigger : Trigger} {player : TriggerPlayer}
  {triggers : List (TriggerId × Trigger)} {orgId : OrgId} {eventKey : String}

theorem wp_grantedFire (h : (triggerId, player.id, eventKeyForFirstJoin) ∉ s.view.firstJoins) :
    wp (under roster .none)
      (fun _ s' => s'.view = s.view.reward [(triggerId, player.id, eventKeyForFirstJoin)])
      (grantedFire triggerId player eventKeyForFirstJoin true) s := by
  apply wp_handle_keeps
  case hf => exact fun _ _ h => h
  case h =>
    have hx : ∀ status, exec (.createFire triggerId player.id eventKeyForFirstJoin status) s =
        (.ok s.fires.length, { s with fires := s.fires ++ [⟨{
          triggerId, playerId := player.id, eventKey := eventKeyForFirstJoin, status
          createdAt := s.clock }, true⟩] }) := fun _ => by simp [exec, fired?_eq_none h]
    refine wp_step (hx _) ?_ fun _ _ => False.elim
    simp [Store.view, View.reward, TriggerFire.mark]

-- A trigger whose action is valid fires for a player it has not fired for.
theorem wp_fireOnce (h : (triggerId, player.id, eventKeyForFirstJoin) ∉ s.view.firstJoins) :
    wp (under roster .none)
      (returns fun s' => s'.view = s.view.reward
        (if (parseGrantItemsActionConfig (some trigger.actionConfig)).isOk
          then [(triggerId, player.id, eventKeyForFirstJoin)] else []))
      (ignoreErrors (fireOnce triggerId trigger player eventKeyForFirstJoin)) s := by
  apply wp_handle_returns
  case hf => exact fun _ _ h => h
  case h =>
    refine wp_step rfl ?_ fun _ _ => False.elim
    rw [fired?_eq_none h]
    simp only [enqueueGrantItems]
    cases parseGrantItemsActionConfig (some trigger.actionConfig)
    case error => exact View.reward_nil.symm
    case ok action =>
      refine wp_bind_keeps (wp_grantedFire h) fun fireId s' hs => ?_
      cases fireId
      case none => exact hs
      case some => exact wp_quiet quiet_giveItems hs

-- The fires of a player that come with a run, of which `n` are of the trigger.
def Rewarded (k : TriggerId) (n : Nat) (id : PlayerId) (v v' : View) : Prop :=
  ∃ marks : List Mark, v' = v.reward marks ∧ (∀ m ∈ marks, m.2.1 = id) ∧
    marks.countP (fun m => m.1 = k) = n

def valid (k : TriggerId) (e : TriggerId × Trigger) : Bool :=
  e.1 = k && (parseGrantItemsActionConfig (some e.2.actionConfig)).isOk

theorem wp_fireAll (hn : (triggers.map Prod.fst).Nodup)
    (hf : ∀ m ∈ s.view.firstJoins, m.2.1 = player.id → m.1 ∉ triggers.map Prod.fst) :
    wp (under roster .none)
      (returns fun s' => Rewarded k (triggers.countP (valid k)) player.id s.view s'.view)
      (fireAll player (fun _ => some eventKeyForFirstJoin) triggers) s := by
  induction triggers generalizing s
  case nil => exact ⟨[], View.reward_nil.symm, nofun, rfl⟩
  case cons e triggers hi =>
    obtain ⟨triggerId, trigger⟩ := e
    have ⟨hm, hn⟩ := List.nodup_cons.mp hn
    have hnew : (triggerId, player.id, eventKeyForFirstJoin) ∉ s.view.firstJoins :=
      fun h => hf _ h rfl List.mem_cons_self
    refine wp_bind_returns (wp_fireOnce hnew) fun _ s' hs => ?_
    refine wp_returns_mono (hi (s := s') hn fun m hmem hid => ?_) ?_
    case refine_1 =>
      rw [hs] at hmem
      cases List.mem_append.mp hmem
      case inl h => exact fun h' => hf m h hid (List.mem_cons_of_mem _ h')
      case inr h =>
        split at h
        case isTrue  => exact List.mem_singleton.mp h ▸ hm
        case isFalse => nomatch h
    case refine_2 =>
      intro s'' ⟨marks, hv, hid, hc⟩
      refine ⟨_, hv.trans (hs ▸ View.reward_reward), fun m h => ?_, ?_⟩
      case refine_1 =>
        cases List.mem_append.mp h
        case inr h => exact hid m h
        case inl h =>
          split at h
          case isTrue  => exact List.mem_singleton.mp h ▸ rfl
          case isFalse => nomatch h
      case refine_2 =>
        rw [List.countP_append, hc, List.countP_cons, Nat.add_comm]
        by_cases hk : triggerId = k <;>
          cases hp : (parseGrantItemsActionConfig (some trigger.actionConfig)).isOk <;>
          simp [valid, hk, hp]

-- A trigger that welcomes the players of a server fires once for a new player.
theorem wp_evaluateFirstJoin (hf : ∀ m ∈ s.view.firstJoins, m.2.1 ≠ player.id) :
    wp (under roster .none)
      (returns fun s' => ∃ n, Rewarded k n player.id s.view s'.view ∧
        ∀ t, s.view.rules[k]? = some t → t.Welcomes s.view.servers serverInstanceId →
          t.orgId = orgId → n = 1)
      (ignoreErrors (evaluateFirstJoin orgId serverInstanceId player)) s := by
  apply wp_handle_returns
  case hf => exact fun _ _ h => h
  case h =>
    refine wp_step rfl ?_ fun _ _ => False.elim
    have hn := s.triggers.entries_keys_nodup.sublist <| (List.filter_sublist (p := fun e =>
      e.2.orgId = orgId && e.2.serverInstanceId = serverInstanceId && e.2.enabled &&
      e.2.eventType = TRIGGER_EVENT_FIRST_JOIN)).map Prod.fst
    have hall := wp_fireAll (k := k) hn fun m hm hid => absurd hid (hf m hm)
    refine wp_mono hall fun r s' h => ⟨_, h.state, fun t ht hw ho => ?_⟩
    simp only [Store.view, List.getElem?_map, Option.map_eq_some_iff] at ht
    obtain ⟨t, ht, rfl⟩ := ht
    have hm : (k, t) ∈ s.triggers.entries := Table.mem_entries.mpr ht
    apply Table.countP_eq_one hn (e := (k, t))
    case he =>
      refine List.mem_filter.mpr ⟨hm, ?_⟩
      simpa [Trigger.rule] using ⟨⟨⟨ho, hw.serverId⟩, hw.enabled⟩, hw.eventType⟩
    case hp => simpa [valid, Trigger.rule] using hw.action
    case hk => exact fun e' he => of_decide_eq_true (Bool.and_eq_true_iff.mp he).left

end

-- A sighting that creates a row: there is none with the key, and none to be promoted.
def Store.isNew (s : Store) (serverInstanceId : ServerId) (key : IdentityKey) (name : String) : Bool :=
  (s.keyed? serverInstanceId key).isNone &&
    (key.isName || (s.keyed? serverInstanceId (fallbackKey name)).isNone)

theorem reconcile_of_none
    (h : (s.reconcile serverInstanceId key name steamId).keyed? serverInstanceId key = none) :
    s.reconcile serverInstanceId key name steamId = s ∧ s.isNew serverInstanceId key name = true := by
  rw [Store.reconcile] at h ⊢
  cases hk : key.isName
  case true =>
    simp only [hk, if_true] at h ⊢
    simp [Store.isNew, h, hk]
  case false =>
    simp only [hk, Bool.false_eq_true, if_false] at h ⊢
    split at h
    case h_1 hf => simp [hf, Store.isNew, h]
    case h_2 fallbackId fallback hf hc =>
      obtain ⟨hp, hs, _⟩ := keyed?_some hf
      have hp : (s.promote fallbackId key steamId).player? fallbackId =
          some (({ identityKey := key, steamId := some steamId } : PlayerData).apply fallback) := by
        have hp : live? s.players fallbackId = some fallback := hp
        simp [Store.player?, Store.promote, live?_modify, hp]
      exact absurd rfl <| keyed?_none h hp hs
    case h_3 fallbackId fallback canonicalId canonical hf hc =>
      have hn : key ≠ fallbackKey name := fun hn => by simp [hn, fallbackKey, IdentityKey.isName] at hk
      obtain ⟨hp, hs, hk'⟩ := keyed?_some hc
      have hp : (s.merge canonicalId fallbackId (mergeData canonical fallback steamId)).player?
          canonicalId = some ((mergeData canonical fallback steamId).apply canonical) := by
        simp [player?_merge, hp, keyed?_ne hn hc hf]
      have hne := keyed?_none h hp hs
      exact absurd hk' hne

section

open Effects.Prog

variable {create : Player} {update : PlayerData}

-- A player is updated, or it is a new one.
theorem wp_upsert {β : Type} {f : PlayerId × Player → Service β} {Q : Result Exception β → Store → Prop}
    (hu : update.identityKey = none) (hc : create.identity = (serverInstanceId, key))
    (hf : ∀ id p s', s.keyed? serverInstanceId key = some (id, p) → s'.view = s.view →
      wp (under roster .none) Q (f (id, update.apply p)) s')
    (hn : ∀ s', s.keyed? serverInstanceId key = none →
      s'.view = s.view.add (serverInstanceId, key) [] →
      wp (under roster .none) Q (f (s.players.length, create)) s') :
    wp (under roster .none) Q (send (.upsertPlayer serverInstanceId key create update) >>= f) s := by
  cases hk : s.keyed? serverInstanceId key
  case some e =>
    have hx : exec (.upsertPlayer serverInstanceId key create update) s =
      (.ok (e.1, update.apply e.2),
        { s with players := s.players.modify e.1 (Row.modify update.apply) }) := by rw [exec, hk]
    refine wp_step hx (hf e.1 e.2 _ hk ?_) fun _ _ => False.elim
    simp [Store.view, map_modify (identity_apply hu)]
  case none =>
    have hx : exec (.upsertPlayer serverInstanceId key create update) s =
      (.ok (s.players.length, create), { s with players := s.players ++ [⟨create, true⟩] }) := by
        rw [exec, hk]
    refine wp_step hx (hn _ hk ?_) fun _ _ => False.elim
    simp [Store.view, View.add, Row.map, hc]

end

-- The lines and rows after which the promise about first joins still holds: who is meant is clear, a
-- line with a UUID does not create the first row of the account, and a player who comes online does
-- not get a second one.
def FirstRow (a : Account) (serverInstanceId : ServerId) (s : Store) (key : IdentityKey)
    (name : String) : Prop :=
  serverInstanceId = a.serverInstanceId → a.hasKey key = true →
    s.isNew serverInstanceId key name = true → s.knows a = false

def NoFirstRow (a : Account) (serverInstanceId : ServerId) (s : Store) (key : IdentityKey)
    (name : String) : Prop :=
  serverInstanceId = a.serverInstanceId → a.hasKey key = true →
    s.isNew serverInstanceId key name = true → s.knows a = true

section

open Effects.Prog

variable {orgId : OrgId} {uuid : String}

theorem wp_handleUuid (h : Settled a k seen s.view) (ha : a.Agrees serverInstanceId (.uuid uuid) name)
    (hn : NoFirstRow a serverInstanceId s (.uuid uuid) name) :
    wp (under roster .none) (returns fun s' => Settled a k seen s'.view)
      (handleUuid orgId serverInstanceId name uuid) s := by
  rw [handleUuid]
  apply wp_bind.mpr
  apply wp_reconcileNameFallback
  refine wp_step rfl ?_ fun _ _ => False.elim
  have hr := h.reconcile none ha
  refine wp_upsert rfl rfl (fun _ _ s' _ hv => ?_) fun s' hk hv => ?_
  case refine_1 => exact show Settled a k seen s'.view from hv ▸ hr
  case refine_2 =>
    have ⟨hs, hnew⟩ := reconcile_of_none hk
    have ho : a.owns (serverInstanceId, .uuid uuid) = true → seen = true := by
      intro ho
      have ⟨hs, hk⟩ := Account.owns_iff.mp ho
      exact h.alive_iff.mp <| knows_iff.mp <| hn hs hk hnew
    have he : (seen || a.owns (serverInstanceId, .uuid uuid)) = seen := Bool.or_eq_left_iff_imp.mpr ho
    have hadd : Settled a k seen s'.view := hv ▸ he ▸ hr.add nofun fun h => by simp [ho h]
    exact hadd

variable {serverInstanceName : String} {now : Time}

-- A new player is welcomed with a fire.
theorem wp_welcome_new {v : View} {player : TriggerPlayer} (h : Settled a k seen v)
    (hv : s.view = v.add (serverInstanceId, key) []) (hid : player.id = v.identities.length)
    (ho : v.servers[serverInstanceId]?.map (·.orgId) = some orgId)
    (hf : a.owns (serverInstanceId, key) = true → seen = false) :
    wp (under roster .none)
      (returns fun s' => Settled a k (seen || a.owns (serverInstanceId, key)) s'.view)
      (welcome orgId serverInstanceId none player) s := by
  have hm : ∀ m ∈ s.view.firstJoins, m.2.1 ≠ player.id := by
    intro m hm he
    have hm : m ∈ v.firstJoins := by simpa [hv, View.add] using hm
    exact absurd (h.range m hm) (he ▸ hid ▸ Nat.lt_irrefl _)
  refine wp_returns_mono (wp_evaluateFirstJoin hm (k := k)) ?_
  rintro s' ⟨n, ⟨marks, hs, hp, hc⟩, hn⟩
  have hadd : s'.view = v.add (serverInstanceId, key) marks := hs.trans (hv ▸ View.reward_add)
  refine hadd ▸ h.add (fun m h => (hp m h).trans hid) fun how => ?_
  obtain ⟨t, ht, hw⟩ := h.trigger
  obtain rfl := (Account.owns_iff.mp how).left
  have hn : n = 1 := hn t (hv ▸ ht) (hv ▸ hw) <| Option.some.inj <| hw.server.symm.trans ho
  simp [hc, hn, hf how]

theorem wp_handleJoined {existing : Option Player} (h : Settled a k seen s.view)
    (ho : s.servers[serverInstanceId]?.map (·.orgId) = some orgId)
    (hx : existing.isSome = (s.keyed? serverInstanceId key).isSome)
    (hf : s.keyed? serverInstanceId key = none → a.owns (serverInstanceId, key) = true →
      seen = false) :
    wp (under roster .none)
      (returns fun s' => Settled a k (seen || a.owns (serverInstanceId, key)) s'.view)
      (handleJoined orgId serverInstanceId serverInstanceName name key existing now) s := by
  have hrest : ∀ {id : PlayerId}, Keeps (do
      openSession existing id now
      connect orgId serverInstanceId serverInstanceName existing id name key.uuid?) :=
    .bind keeps_openSession fun _ => keeps_connect
  refine wp_upsert rfl rfl (fun id p s' hk hv => ?_) fun s' hk hv => ?_
  case refine_1 =>
    have ⟨q, hq⟩ : ∃ q, existing = some q := Option.isSome_iff_exists.mp (by rw [hx, hk]; rfl)
    subst hq
    exact hrest.wp (hv ▸ h.again hk)
  case refine_2 =>
    obtain rfl : existing = none := Option.isNone_iff_eq_none.mp (by simp [← Option.not_isSome, hx, hk])
    refine wp_bind_returns (wp_welcome_new h hv ?_ ho (hf hk)) fun _ _ hs => hrest.wp hs
    simp [TriggerPlayer.ofRow, Store.view]

-- A player who is not the fallback for the name survives the reconciliation.
theorem player?_reconcile (hp : s.player? id = some p) (hk : p.identityKey ≠ fallbackKey name) :
    ((s.reconcile serverInstanceId key name steamId).player? id).isSome = true := by
  rw [Store.reconcile]
  split
  case isTrue => simp [hp]
  case isFalse =>
    split
    case h_1 => simp [hp]
    case h_2 fallbackId fallback hf _ =>
      have hp : live? s.players id = some p := hp
      simp only [Store.player?, Store.promote, live?_modify, hp]
      split <;> rfl
    case h_3 fallbackId fallback canonicalId canonical hf hc =>
      have hn : id ≠ fallbackId := fun he => by
        obtain ⟨hf, _, hk'⟩ := keyed?_some hf
        obtain rfl := Option.some.inj <| hp.symm.trans (he ▸ hf)
        exact hk hk'
      rw [player?_merge, if_neg hn, hp]
      split <;> rfl

theorem keyed?_of_namedUuid (h : s.namedUuid? serverInstanceId name = some (id, p)) :
    (s.keyed? serverInstanceId p.identityKey).isSome = true := by
  have ⟨hp, hs, _⟩ := namedUuid?_some h
  exact hs ▸ keyed?_isSome hp

-- The key that a line with a name is about.
def Store.lineKey (s : Store) (serverInstanceId : ServerId) (name : String) : IdentityKey :=
  namedKey (s.namedUuid? serverInstanceId name) name

-- What was found by name is what is found by key after the reconciliation.
theorem wp_handleNamed {joined : Bool} {Q : Result Exception Unit → Store → Prop} {s₁ : Store}
    (hs : s₁ = s.reconcile serverInstanceId (s.lineKey serverInstanceId name) name none)
    (h : ∀ existing now, existing.isSome =
          (s₁.keyed? serverInstanceId (s.lineKey serverInstanceId name)).isSome →
        (∀ e ∈ existing, (s₁.player? e.1).isSome = true) →
        wp (under roster .none) Q
          (if joined then
            handleJoined orgId serverInstanceId serverInstanceName name
              (s.lineKey serverInstanceId name) (existing.map Prod.snd) now
          else
            handleLeft orgId serverInstanceId serverInstanceName name
              (s.lineKey serverInstanceId name) existing now) s₁) :
    wp (under roster .none) Q
      (handleNamed orgId serverInstanceId serverInstanceName joined name) s := by
  rw [handleNamed]
  refine wp_step rfl ?_ fun _ _ => False.elim
  apply wp_bind.mpr
  apply wp_reconcileNameFallback
  refine wp_step rfl ?_ fun _ _ => False.elim
  have hl : namedKey (s.namedUuid? serverInstanceId name) name = s.lineKey serverInstanceId name := rfl
  simp only [hl, ← hs]
  cases hn : s.namedUuid? serverInstanceId name
  case none =>
    refine wp_step rfl ?_ fun _ _ => False.elim
    have hkey : s.lineKey serverInstanceId name = namedKey none name := by simp [Store.lineKey, hn]
    have h := h (s₁.keyed? serverInstanceId (s.lineKey serverInstanceId name)) s₁.clock rfl
      fun e he => by rw [(keyed?_some he).left]; rfl
    simpa only [hkey] using h
  case some e =>
    obtain ⟨id, p⟩ := e
    have hkey : s.lineKey serverInstanceId name = p.identityKey := by
      simp [Store.lineKey, namedKey, hn]
    have ⟨hp, _, hu⟩ := namedUuid?_some hn
    have hk : p.identityKey ≠ fallbackKey name := fun hk => by
      simp [hk, fallbackKey, IdentityKey.uuid?] at hu
    refine h (some (id, p)) _ ?_ fun e he => ?_
    case refine_1 =>
      cases hk₁ : s₁.keyed? serverInstanceId (s.lineKey serverInstanceId name)
      case some => rfl
      case none =>
        rw [hs] at hk₁
        rw [(reconcile_of_none hk₁).left, hkey] at hk₁
        exact absurd (keyed?_of_namedUuid hn) (by simp [hk₁])
    case refine_2 =>
      obtain rfl := Option.some.inj he
      exact hs ▸ player?_reconcile hp hk

theorem wp_handleLeft {v : View} {existing : Option (PlayerId × Player)} (hv : s.view = v)
    (he : ∀ e ∈ existing, (s.player? e.1).isSome = true) :
    wp (under roster .none) (returns fun s' => s'.view = v)
      (handleLeft orgId serverInstanceId serverInstanceName name key existing now) s := by
  cases existing
  case none => exact hv
  case some e =>
    rw [handleLeft]
    split
    case isFalse => exact hv
    case isTrue  =>
      refine wp_bind_returns (wp_endSession (he e rfl) rfl) fun _ s' hs => ?_
      exact keeps_farewell.wp (I := fun v' => v' = v) (hs.trans hv)

end

-- The lines of a log and the rows of a roster after which the promise about first joins still holds.
def LineClear (a : Account) (serverInstanceId : ServerId) (s : Store) : LogLine → Prop
  | .uuid name uuid =>
    a.Agrees serverInstanceId (.uuid uuid) name ∧
    NoFirstRow a serverInstanceId s (.uuid uuid) name
  | .joined name =>
    a.Agrees serverInstanceId (s.lineKey serverInstanceId name) name ∧
    FirstRow a serverInstanceId s (s.lineKey serverInstanceId name) name
  | .left name => a.Agrees serverInstanceId (s.lineKey serverInstanceId name) name
  | .other     => True

def RowClear (a : Account) (serverInstanceId : ServerId) (s : Store) (row : PlayerRosterRow) : Prop :=
  a.Agrees serverInstanceId row.identityKey row.name ∧
  FirstRow a serverInstanceId s row.identityKey row.name

instance : Decidable (a.Agrees serverInstanceId key name) :=
  inferInstanceAs (Decidable (_ → _))

instance : Decidable (FirstRow a serverInstanceId s key name) :=
  inferInstanceAs (Decidable (_ → _ → _ → _))

instance : Decidable (NoFirstRow a serverInstanceId s key name) :=
  inferInstanceAs (Decidable (_ → _ → _ → _))

instance : (line : LogLine) → Decidable (LineClear a serverInstanceId s line)
  | .uuid ..   => inferInstanceAs (Decidable (_ ∧ _))
  | .joined .. => inferInstanceAs (Decidable (_ ∧ _))
  | .left name => inferInstanceAs (Decidable (a.Agrees _ _ name))
  | .other     => .isTrue trivial

instance {row : PlayerRosterRow} : Decidable (RowClear a serverInstanceId s row) :=
  inferInstanceAs (Decidable (_ ∧ _))

-- The account is seen online.
def LogLine.shows (a : Account) (serverInstanceId : ServerId) : LogLine → Bool
  | .joined name => a.owns (serverInstanceId, fallbackKey name)
  | _            => false

def PlayerRosterRow.shows (a : Account) (serverInstanceId : ServerId) (row : PlayerRosterRow) : Bool :=
  a.owns (serverInstanceId, row.identityKey)

section

open Effects.Prog

variable {orgId : OrgId} {serverInstanceName : String} {now : Time}

theorem FirstRow.unseen (h : Settled a k seen s.view)
    (hf : FirstRow a serverInstanceId s key name)
    (hk : (s.reconcile serverInstanceId key name steamId).keyed? serverInstanceId key = none)
    (ho : a.owns (serverInstanceId, key) = true) : seen = false := by
  have ⟨hs, hkey⟩ := Account.owns_iff.mp ho
  have hn := hf hs hkey (reconcile_of_none hk).right
  cases hseen : seen
  case false => rfl
  case true =>
    have := knows_iff.mpr <| h.alive_iff.mpr hseen
    rw [hn] at this
    nomatch this

theorem servers_reconcile :
    (s.reconcile serverInstanceId key name steamId).servers = s.servers := by
  rw [Store.reconcile]
  split
  case isTrue  => rfl
  case isFalse => split <;> rfl

theorem wp_handleLine {line : LogLine} (h : Settled a k seen s.view)
    (ho : s.servers[serverInstanceId]?.map (·.orgId) = some orgId)
    (hc : LineClear a serverInstanceId s line) :
    wp (under roster .none)
      (returns fun s' => Settled a k (seen || line.shows a serverInstanceId) s'.view)
      (handleLine orgId serverInstanceId serverInstanceName line) s := by
  cases line
  case other => simpa [handleLine, LogLine.shows, returns] using h
  case uuid name uuid =>
    simpa [LogLine.shows, handleLine] using wp_handleUuid h hc.left hc.right
  case joined name =>
    have ⟨ha, hf⟩ := hc
    refine wp_handleNamed rfl fun existing now hx _ => ?_
    rw [LogLine.shows, ← ha.owns_eq]
    exact wp_handleJoined (h.reconcile none ha) (by rw [servers_reconcile, ho]) (by simpa using hx)
      fun hk => hf.unseen h hk
  case left name =>
    have hr := h.reconcile none hc
    refine wp_handleNamed rfl fun existing now _ he => ?_
    refine wp_returns_mono (wp_handleLeft rfl he) fun s' hs => ?_
    simpa [LogLine.shows, hs] using hr

theorem wp_applyRow {row : PlayerRosterRow} (h : Settled a k seen s.view)
    (ho : s.servers[serverInstanceId]?.map (·.orgId) = some orgId)
    (hc : RowClear a serverInstanceId s row) :
    wp (under roster .none)
      (returns fun s' => Settled a k (seen || row.shows a serverInstanceId) s'.view)
      (applyRow orgId serverInstanceId serverInstanceName now row) s := by
  have hr := h.reconcile row.steamId hc.left
  rw [applyRow]
  apply wp_bind.mpr
  apply wp_reconcileNameFallback
  refine wp_step rfl ?_ fun _ _ => False.elim
  refine wp_upsert rfl rfl (fun id p s' hk hv => ?_) fun s' hk hv => ?_
  case refine_1 =>
    rw [hk]
    refine (keeps_openSession.bind fun _ => .bind .pure fun _ => keeps_connect.bind fun _ =>
      keeps_ignoreErrors quiet_evaluatePlaytime).wp (hv ▸ hr.again hk)
  case refine_2 =>
    rw [hk]
    refine wp_bind_returns (keeps_openSession s') fun _ s₂ hs => ?_
    refine wp_bind_returns (wp_welcome_new hr (hs.trans hv) ?_ ?_ (hc.right.unseen h hk))
      fun _ _ hs => (keeps_connect.bind fun _ => keeps_ignoreErrors quiet_evaluatePlaytime).wp hs
    case refine_1 => simp [TriggerPlayer.ofRow, Store.view]
    case refine_2 =>
      change ((s.reconcile serverInstanceId row.identityKey row.name row.steamId).servers[
        serverInstanceId]?).map (·.orgId) = _
      rw [servers_reconcile, ho]

-- The lines of a chunk and the rows of a roster are sightings, which are handled one after the other.
theorem wp_sightings {α : Type} {f : α → Service Unit} {C : Store → α → Prop} {shows : α → Bool}
    {xs : List α}
    (hf : ∀ x seen s, Settled a k seen s.view →
      s.servers[serverInstanceId]?.map (·.orgId) = some orgId → C s x →
      wp (under roster .none) (returns fun s' => Settled a k (seen || shows x) s'.view) (f x) s)
    (h : Settled a k seen s.view) (ho : s.servers[serverInstanceId]?.map (·.orgId) = some orgId)
    (ha : Along f C xs s) :
    wp (under roster .none) (returns fun s' => Settled a k (seen || xs.any shows) s'.view)
      (forEach f xs) s := by
  let I (ys : List α) (s : Store) : Prop :=
    s.servers[serverInstanceId]?.map (·.orgId) = some orgId ∧
    ∃ before, Settled a k before s.view ∧ (before || ys.any shows) = (seen || xs.any shows)
  have hstep : ∀ x ys s, I (x :: ys) s → C s x → wp (under roster .none) (returns (I ys)) (f x) s := by
    intro x ys s ⟨ho, before, hb, he⟩ hc
    refine wp_mono (wp_and (hf x before s hb ho hc) wp_servers) fun r s' ⟨hr, hs⟩ => ?_
    cases r
    case error => exact hr
    case ended => exact hr
    case ok    => exact ⟨hs ▸ ho, _, hr, by simpa [Bool.or_assoc] using he⟩
  refine wp_returns_mono (wp_forEach_along hstep (show I xs s from ⟨ho, _, h, rfl⟩) ha) ?_
  exact fun s' ⟨_, before, hb, he⟩ => he ▸ (Bool.or_false before).symm ▸ hb

-- The players that are set offline are those that were found.
theorem wp_missing {v : View} {missing : List (PlayerId × Player)} (hv : s.view = v)
    (hm : ∀ e ∈ missing, ∃ i, v.identities[e.1]? = some ⟨i, true⟩) :
    wp (under roster .none) (returns fun s' => s'.view = v)
      (forEach (applyMissing orgId serverInstanceId serverInstanceName now) missing) s := by
  let I (es : List (PlayerId × Player)) (s : Store) : Prop :=
    s.view = v ∧ ∀ e ∈ es, ∃ i, v.identities[e.1]? = some ⟨i, true⟩
  have hstep : ∀ e es s, I (e :: es) s → wp (under roster .none) (returns (I es))
      (applyMissing orgId serverInstanceId serverInstanceName now e) s := by
    intro e es s ⟨hv, hm⟩
    have hp : (s.player? e.1).isSome = true := by
      have ⟨i, hi⟩ := hm e List.mem_cons_self
      have ⟨p, hp, _⟩ := player_of_identity (hv ▸ hi)
      simp [hp]
    refine wp_bind_returns (wp_endSession hp rfl) fun _ s₁ hs => ?_
    refine keeps_farewell.wp
      (I := fun v' => v' = v ∧ ∀ e ∈ es, ∃ i, v.identities[e.1]? = some ⟨i, true⟩) ?_
    exact ⟨hs.trans hv, fun e he => hm e (List.mem_cons_of_mem _ he)⟩
  exact wp_returns_mono (wp_forEach hstep ⟨hv, hm⟩) fun _ h => h.left

theorem wp_applyPlayerRoster {rows : List PlayerRosterRow} (h : Settled a k seen s.view)
    (ho : s.servers[serverInstanceId]?.map (·.orgId) = some orgId)
    (hn : s.servers[serverInstanceId]?.map (·.name) = some serverInstanceName)
    (ha : Along (applyRow orgId serverInstanceId serverInstanceName s.clock)
      (RowClear a serverInstanceId) rows s) :
    wp (under roster .none)
      (returns fun s' => Settled a k (seen || rows.any (·.shows a serverInstanceId)) s'.view)
      (applyPlayerRoster orgId serverInstanceId rows) s := by
  rw [applyPlayerRoster]
  refine wp_step rfl ?_ fun _ _ => False.elim
  refine wp_step rfl ?_ fun _ _ => False.elim
  rw [hn]
  have hrows := wp_sightings (fun _ _ _ h ho hc => wp_applyRow h ho hc) h ho ha
  refine wp_bind_returns hrows fun _ s₁ h₁ => ?_
  refine wp_step rfl ?_ fun _ _ => False.elim
  refine wp_bind_returns (wp_missing rfl fun e he => ?_) fun _ s₂ h₂ => ?_
  case refine_1 =>
    have hp := mem_liveEntries.mp (List.mem_filter.mp he).left
    exact ⟨_, identity_of_player hp⟩
  case refine_2 =>
    have hrest : Keeps (do
        ignoreErrors (send (.notify (.enqueuePendingShopGrants orgId serverInstanceId)))
        ignoreErrors (retryPendingItemGrants orgId serverInstanceId)) :=
      .bind (keeps_ignoreErrors <| quiet_send trivial) fun _ =>
        keeps_ignoreErrors quiet_retryPendingItemGrants
    exact hrest.wp (h₂ ▸ h₁)

end

-- The lines that are complete once a chunk has been received, and the buffer that is left.
def Store.lines (s : Store) (serverInstanceId : ServerId) (content : String) : List LogLine :=
  (splitLines ((s.lineBuffers.lookup serverInstanceId).getD "" ++ content)).1.map parseLine

def Store.buffer (s : Store) (serverInstanceId : ServerId) (content : String) : Store :=
  let last := (splitLines ((s.lineBuffers.lookup serverInstanceId).getD "" ++ content)).2
  (exec (.setLineBuffer serverInstanceId (sliceEnd last 4096)) s).2

-- The promise about first joins holds for the runs whose messages are clear.
def Clear (a : Account) (s : Store) : Message → Prop
  | .chunk serverInstanceId content =>
    ∀ server ∈ s.servers[serverInstanceId]?,
      Prog.Along (handleLine server.orgId serverInstanceId server.name) (LineClear a serverInstanceId)
        (s.lines serverInstanceId content) (s.buffer serverInstanceId content)
  | .roster serverInstanceId players =>
    ∀ server ∈ s.servers[serverInstanceId]?,
      Prog.Along (applyRow server.orgId serverInstanceId server.name s.clock)
        (RowClear a serverInstanceId) (minecraftRows players) s
  | .report .. => True
  | .elapse _  => True

instance : (e : Message) → Decidable (Clear a s e)
  | .chunk ..  => inferInstanceAs (Decidable (∀ server ∈ s.servers[_]?, _))
  | .roster .. => inferInstanceAs (Decidable (∀ server ∈ s.servers[_]?, _))
  | .report .. => .isTrue trivial
  | .elapse _  => .isTrue trivial

-- A message shows the account online.
def Store.shows (s : Store) (a : Account) : Message → Bool
  | .chunk serverInstanceId content =>
    s.servers[serverInstanceId]?.isSome &&
      (s.lines serverInstanceId content).any (·.shows a serverInstanceId)
  | .roster serverInstanceId players =>
    s.servers[serverInstanceId]?.isSome && (minecraftRows players).any (·.shows a serverInstanceId)
  | .report .. => false
  | .elapse _  => false

def observed (a : Account) : Store → List Message → Bool
  | _, []      => false
  | s, e :: es => s.shows a e || observed a (messages.next s e) es

section

open Effects.Prog

theorem wp_parsePlayers {server : ServerInstance} {content : String} (h : Settled a k seen s.view)
    (hs : s.servers[serverInstanceId]? = some server)
    (ha : Along (handleLine server.orgId serverInstanceId server.name) (LineClear a serverInstanceId)
      (s.lines serverInstanceId content) (s.buffer serverInstanceId content)) :
    wp (under roster .none)
      (returns fun s' => Settled a k
        (seen || (s.lines serverInstanceId content).any (·.shows a serverInstanceId)) s'.view)
      (parsePlayers server.orgId serverInstanceId server.name content) s := by
  rw [parsePlayers]
  refine wp_step rfl ?_ fun _ _ => False.elim
  refine wp_step rfl ?_ fun _ _ => False.elim
  have ho : (s.buffer serverInstanceId content).servers[serverInstanceId]?.map (·.orgId) =
      some server.orgId := by simp [Store.buffer, exec, hs]
  exact wp_sightings (fun _ _ _ h ho hc => wp_handleLine h ho hc) h ho ha

theorem Settled.next {e : Message} (h : Settled a k seen s.view) (hc : Clear a s e) :
    Settled a k (seen || s.shows a e) (messages.next s e).view := by
  cases e
  case elapse =>
    rw [Store.shows, Bool.or_false]
    exact h
  case chunk serverInstanceId content =>
    simp only [Store.shows]
    split
    case h_2 hs => simpa [hs] using h
    case h_1 server hs =>
      rw [hs]
      exact (wp_run_nil (wp_parsePlayers h hs (hc server hs))).state
  case roster serverInstanceId players =>
    simp only [Store.shows]
    split
    case h_2 hs => simpa [hs] using h
    case h_1 server hs =>
      rw [hs]
      exact (wp_run_nil (wp_applyPlayerRoster h (by simp [hs]) (by simp [hs]) (hc server hs))).state
  case report id runStatus output =>
    simp only [Store.shows, Bool.or_false, Store.report]
    split
    case h_2 => exact h
    case h_1 =>
      rw [run_quiet quiet_completeItemGrant]
      exact h

theorem Settled.run {es : List Message} (h : Settled a k seen s.view)
    (hm : messages.Meets (Clear a) s es) :
    Settled a k (seen || observed a s es) (messages.run s es).view := by
  induction es generalizing s seen
  case nil =>
    rw [observed, Bool.or_false]
    exact h
  case cons e es hi =>
    have := hi (h.next hm.left) hm.right
    rwa [Bool.or_assoc] at this

end

end

-- The first-join fires of a trigger for the rows that stand, or have stood, for an account.
def Store.firstJoins (s : Store) (a : Account) (k : TriggerId) : Nat :=
  s.fires.countP fun r =>
    r.data.triggerId = k && r.data.eventKey = eventKeyForFirstJoin &&
    (s.players[r.data.playerId]?).any fun p => a.owns p.data.identity

theorem firstJoins_eq_rewards : s.firstJoins a k = s.view.rewards a k := by
  have ho : ∀ id, s.view.owned a id = (s.players[id]?).any fun p => a.owns p.data.identity := by
    intro id
    simp [View.owned, Store.view, Row.map, Option.any_map]
  simp only [Store.firstJoins, View.rewards, ho]
  simp only [Store.view, List.countP_filter, List.countP_map]
  apply List.countP_congr
  intro r _
  simp [TriggerFire.mark, and_right_comm]

-- An account that is new to a server with a first-join trigger.
structure NewAccount (a : Account) (k : TriggerId) (s : Store) : Prop where
  trigger : ∃ t, s.triggers[k]? = some t ∧ t.Welcomes s.servers a.serverInstanceId
  players : ∀ r ∈ s.players, a.owns r.data.identity = false
  fires   : ∀ r ∈ s.fires, r.data.playerId < s.players.length

theorem NewAccount.settled (h : NewAccount a k s) : Settled a k false s.view := by
  have hn : ∀ id, s.view.owned a id = false := by
    intro id
    simp only [View.owned, Store.view, List.getElem?_map]
    cases hr : s.players[id]?
    case none   => rfl
    case some r => simpa [Row.map] using h.players r (List.mem_of_getElem? hr)
  refine { trigger := ?_, range := fun m hm => ?_, unseen := fun _ => hn, seen := by rintro ⟨⟩ }
  case refine_1 =>
    obtain ⟨t, ht, hw⟩ := h.trigger
    exact ⟨t.rule, by simp [Store.view, ht], hw.server, hw.serverId, hw.enabled, hw.eventType, hw.action⟩
  case refine_2 =>
    obtain ⟨r, hr, rfl⟩ := List.mem_map.mp (List.mem_filter.mp hm).left
    simpa [Store.view, TriggerFire.mark] using h.fires r hr

-- Once the account has been seen online, and never before, there is one fire for its first join.
theorem firstJoin_once [Naming] {es : List Message} (h : NewAccount a k s)
    (hm : messages.Meets (Clear a) s es) :
    (messages.run s es).firstJoins a k = if observed a s es then 1 else 0 := by
  have hs := h.settled.run hm
  rw [firstJoins_eq_rewards, hs.rewards_eq, Bool.false_or]
  cases observed a s es <;> rfl

attribute [local instance] Naming.ascii

-- A server that gives a bread to those who join it for the first time.
def Trigger.bread : Trigger where
  orgId            := 0
  serverInstanceId := 0
  enabled          := true
  eventType        := TRIGGER_EVENT_FIRST_JOIN
  eventConfig      := .obj []
  actionType       := TRIGGER_ACTION_GRANT_ITEMS
  actionConfig     := .obj [("items", .arr [
    .obj [("name", .str "minecraft:bread"), ("quantity", .ofNat 1)]])]
  createdById      := none

def Store.welcoming : Store where
  clock    := 1000000
  servers  := [{ orgId := 0, name := "Survival" }]
  triggers := [.bread]

def Account.steve : Account where
  serverInstanceId := 0
  uuid             := "069a79f4-44e9-4726-a5be-fca90e38aaf5"
  names            := ["steve"]

def uuidLine : String :=
  "[12:00:00 INFO]: UUID of player Steve is 069a79f4-44e9-4726-a5be-fca90e38aaf5\n"

def joinedLine : String :=
  "[12:00:01 INFO]: Steve joined the game\n"

-- A player whom a roster shows before the log does.
def rosterFirst : List Message :=
  [.roster 0 [("Steve", some "069a79f4-44e9-4726-a5be-fca90e38aaf5")], .chunk 0 joinedLine]

theorem isOk_bread : (parseGrantItemsActionConfig (some Trigger.bread.actionConfig)).isOk = true := by
  decide +kernel

theorem newAccount_welcoming : NewAccount .steve 0 .welcoming where
  trigger := ⟨.bread, rfl, rfl, rfl, rfl, rfl, isOk_bread⟩
  players := fun _ h => absurd h List.not_mem_nil
  fires   := fun _ h => absurd h List.not_mem_nil

theorem firstJoin_once_rosterFirst :
    (messages.run .welcoming rosterFirst).firstJoins .steve 0 =
      if observed .steve .welcoming rosterFirst then 1 else 0 :=
  firstJoin_once newAccount_welcoming (by decide +kernel)

-- At a first visit the log tells the UUID before it tells that the player has joined.
theorem firstJoin_missed :
    NewAccount .steve 0 .welcoming ∧
    observed .steve .welcoming [.chunk 0 (uuidLine ++ joinedLine)] = true ∧
    (messages.run .welcoming [.chunk 0 (uuidLine ++ joinedLine)]).firstJoins .steve 0 = 0 :=
  ⟨newAccount_welcoming, by decide +kernel, by decide +kernel⟩

end Players
