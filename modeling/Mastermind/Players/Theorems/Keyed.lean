import Mastermind.Players.Theorems.Sessions

open Effects Effects.Prog Js Jobs Triggers

namespace Players

variable [Naming]

-- A key that a player with the name can have.
def IdentityKey.Names (key : IdentityKey) (name : String) : Prop :=
  key.uuid?.isSome = true ∨ key = fallbackKey name

-- The keys of the players are unique, and they are UUIDs or the names of their players.
structure Keyed (s : Store) : Prop where
  unique : ∀ id id' p p', s.player? id = some p → s.player? id' = some p' →
    p.identity = p'.identity → id = id'
  named  : ∀ id p, s.player? id = some p → p.identityKey.Names p.name

def Write.Proper : Write → Prop
  | .updatePlayer _ data => data.identityKey = none ∧ data.name = none
  | _                    => True

-- The commands that respect the keys: all but the one that gives a player a new key.
def Cmd.Proper : Cmd → Prop
  | .upsertPlayer serverInstanceId key create update =>
    create.identity = (serverInstanceId, key) ∧ key.Names create.name ∧
      update.identityKey = none ∧ ∀ name ∈ update.name, key.Names name
  | .transaction writes => ∀ w ∈ writes, w.Proper
  | _                   => True

variable {s s' : Store} {id : PlayerId} {p : Player} {orgId : OrgId} {serverInstanceId : ServerId}
  {serverInstanceName : String} {key : IdentityKey} {name : String} {steamId : Option String}
  {now : Time} {data : PlayerData}

theorem Keyed.congr (h : Keyed s) (hp : s'.players = s.players) : Keyed s' := by
  have he (id : PlayerId) : s'.player? id = s.player? id := by rw [Store.player?, hp, Store.player?]
  constructor
  case unique => exact fun id id' p p' h₁ h₂ => h.unique id id' p p' (he id ▸ h₁) (he id' ▸ h₂)
  case named  => exact fun id p h₁ => h.named id p (he id ▸ h₁)

theorem Keyed.update (h : Keyed s) (hk : data.identityKey = none)
    (hn : ∀ p name, s.player? id = some p → data.name = some name → p.identityKey.Names name) :
    Keyed (s.update id data) := by
  have hold : ∀ id' p', (s.update id data).player? id' = some p' →
      ∃ p, s.player? id' = some p ∧ p'.identity = p.identity ∧ p'.identityKey.Names p'.name := by
    intro id' p' hp
    rw [player?_update] at hp
    split at hp
    case isFalse => exact ⟨p', hp, rfl, h.named id' p' hp⟩
    case isTrue he =>
      obtain ⟨p, hs, ha⟩ := Option.map_eq_some_iff.mp hp
      subst he ha
      refine ⟨p, hs, by simp [Player.identity, PlayerData.apply, hk], ?_⟩
      cases hd : data.name
      case none      => simpa [PlayerData.apply, hk, hd] using h.named _ p hs
      case some name => simpa [PlayerData.apply, hk, hd] using hn p name hs hd
  constructor
  case unique =>
    intro id₁ id₂ p₁ p₂ h₁ h₂ hi
    obtain ⟨q₁, hq₁, he₁, _⟩ := hold id₁ p₁ h₁
    obtain ⟨q₂, hq₂, he₂, _⟩ := hold id₂ p₂ h₂
    exact h.unique id₁ id₂ q₁ q₂ hq₁ hq₂ (he₁.symm.trans (hi.trans he₂))
  case named =>
    intro id' p' hp
    obtain ⟨_, _, _, hn⟩ := hold id' p' hp
    exact hn

theorem Keyed.create (h : Keyed s) (hk : ∀ id q, s.player? id = some q → q.identity ≠ p.identity)
    (hn : p.identityKey.Names p.name) : Keyed (s.create p) := by
  constructor
  case unique =>
    intro id₁ id₂ p₁ p₂ h₁ h₂ hi
    rw [player?_create] at h₁ h₂
    split at h₁ <;> split at h₂
    case isTrue.isTrue he₁ he₂ => exact he₁.trans he₂.symm
    case isTrue.isFalse =>
      cases h₁
      exact absurd hi.symm (hk id₂ p₂ h₂)
    case isFalse.isTrue =>
      cases h₂
      exact absurd hi (hk id₁ p₁ h₁)
    case isFalse.isFalse => exact h.unique id₁ id₂ p₁ p₂ h₁ h₂ hi
  case named =>
    intro id' p' hp
    rw [player?_create] at hp
    split at hp
    case isTrue  => cases hp; exact hn
    case isFalse => exact h.named id' p' hp

-- Some players are deleted.
theorem Keyed.sub (h : Keyed s) (hold : ∀ id p, s'.player? id = some p → s.player? id = some p) :
    Keyed s' := by
  constructor
  case unique =>
    exact fun id₁ id₂ p₁ p₂ h₁ h₂ => h.unique id₁ id₂ p₁ p₂ (hold id₁ p₁ h₁) (hold id₂ p₂ h₂)
  case named => exact fun id' p' h' => h.named id' p' (hold id' p' h')

theorem Write.exec_proper {w : Write} (h : Keyed s) (hw : w.Proper) (hx : w.exec s = some s') :
    Keyed s' := by
  cases w
  case moveSessions => cases hx; exact h.congr rfl
  case endSessions  => cases hx; exact h.congr rfl
  case deletePlayer id =>
    obtain ⟨_, _, he⟩ := Option.map_eq_some_iff.mp hx
    subst he
    refine h.sub fun id' p hp => ?_
    rw [Store.player?, live?_kill] at hp
    split at hp
    case isTrue  => cases hp
    case isFalse => exact hp
  case updatePlayer id data =>
    obtain ⟨_, _, he⟩ := Option.map_eq_some_iff.mp hx
    subst he
    refine h.update hw.left fun _ name _ hn => ?_
    rw [hw.right] at hn
    cases hn

theorem foldlM_proper {ws : List Write} (h : Keyed s) (hw : ∀ w ∈ ws, w.Proper)
    (hx : ws.foldlM (fun s w => w.exec s) s = some s') : Keyed s' := by
  induction ws generalizing s
  case nil => cases hx; exact h
  case cons w ws hi =>
    have ⟨hw, hws⟩ := List.forall_mem_cons.mp hw
    rw [List.foldlM_cons] at hx
    have ⟨s₁, h₁, hx⟩ := Option.bind_eq_some_iff.mp hx
    exact hi (w.exec_proper h hw h₁) hws hx

theorem exec_proper {c : Cmd} (h : Keyed s) (hc : c.Proper) : Keyed (exec c s).2 := by
  cases c
  case transaction ws =>
    rw [exec]
    split
    case h_1 s' hx => exact foldlM_proper h hc hx
    case h_2       => exact h
  case upsertPlayer serverInstanceId key create update =>
    obtain ⟨hi, hn, hk, hu⟩ := hc
    rw [exec]
    cases hf : s.keyed? serverInstanceId key
    case some e =>
      obtain ⟨hp, _, hkey⟩ := keyed?_some hf
      refine h.update hk fun p name hp' hname => ?_
      rw [hp] at hp'
      cases hp'
      exact hkey ▸ hu name hname
    case none =>
      refine h.create (fun id q hq he => ?_) ?_
      case refine_1 =>
        have he := he.trans hi
        exact keyed?_none hf hq (congrArg Prod.fst he) (congrArg Prod.snd he)
      case refine_2 =>
        have hk : create.identityKey = key := congrArg Prod.snd hi
        rwa [hk]
  all_goals
    rw [exec]
    try split
  all_goals exact h.congr rfl

section

variable {canonicalId fallbackId : PlayerId} {canonical fallback : Player}

theorem Keyed.promote (h : Keyed s) (hf : s.player? fallbackId = some fallback)
    (hs : fallback.serverInstanceId = serverInstanceId) (hk : s.keyed? serverInstanceId key = none)
    (hu : key.uuid?.isSome = true) : Keyed (s.promote fallbackId key steamId) := by
  have hold : ∀ id p, (s.promote fallbackId key steamId).player? id = some p →
      (id = fallbackId ∧ p.identity = (serverInstanceId, key)) ∨ s.player? id = some p := by
    intro id p hp
    rw [Store.player?, Store.promote, live?_modify] at hp
    split at hp
    case isFalse => exact .inr hp
    case isTrue he =>
      subst he
      obtain ⟨_, hp, ha⟩ := Option.map_eq_some_iff.mp hp
      cases hf.symm.trans hp
      exact .inl ⟨rfl, ha ▸ by rw [← hs]; rfl⟩
  have hfree : ∀ id p, s.player? id = some p → p.identity ≠ (serverInstanceId, key) :=
    fun _ _ hp hi => keyed?_none hk hp (congrArg Prod.fst hi) (congrArg Prod.snd hi)
  constructor
  case unique =>
    intro id₁ id₂ p₁ p₂ h₁ h₂ hi
    cases hold id₁ p₁ h₁ <;> cases hold id₂ p₂ h₂
    case inl.inl h₁ h₂ => exact h₁.left.trans h₂.left.symm
    case inl.inr h₁ h₂ => exact absurd (hi.symm.trans h₁.right) (hfree id₂ p₂ h₂)
    case inr.inl h₁ h₂ => exact absurd (hi.trans h₂.right) (hfree id₁ p₁ h₁)
    case inr.inr h₁ h₂ => exact h.unique id₁ id₂ p₁ p₂ h₁ h₂ hi
  case named =>
    intro id p hp
    cases hold id p hp
    case inr hp => exact h.named id p hp
    case inl hp =>
      have hk : p.identityKey = key := congrArg Prod.snd hp.right
      exact .inl (hk ▸ hu)

theorem Keyed.merge (h : Keyed s) :
    Keyed (s.merge canonicalId fallbackId (mergeData canonical fallback steamId)) := by
  have hu : Keyed (s.update canonicalId (mergeData canonical fallback steamId)) :=
    h.update rfl fun _ _ _ hn => nomatch (hn : none = some _)
  refine hu.sub fun id p hp => ?_
  rw [player?_merge] at hp
  rw [player?_update]
  split at hp
  case isTrue  => nomatch hp
  case isFalse =>
    split at hp
    case isTrue he  => rwa [if_pos he.symm]
    case isFalse he => rwa [if_neg (Ne.symm he)]

theorem Keyed.reconcile (h : Keyed s) (hk : key.Names name) :
    Keyed (s.reconcile serverInstanceId key name steamId) := by
  rw [Store.reconcile]
  split
  case isTrue     => exact h
  case isFalse hn =>
    have hu := hk.resolve_right fun he => hn (by rw [he]; rfl)
    split
    case h_1 => exact h
    case h_2 hf hc =>
      obtain ⟨hp, hs, _⟩ := keyed?_some hf
      exact h.promote hp hs hc hu
    case h_3 => exact h.merge

end

section

variable {α : Type} {existing : Option Player} {line : LogLine} {row : PlayerRosterRow}
  {content : String}

theorem OnTriggers.proper {c : Cmd} (h : OnTriggers (fun _ _ _ => True) c) : c.Proper := by
  cases c <;> first | exact h.elim | trivial

theorem proper_of_onTriggers {p : Service α} (h : Only (OnTriggers fun _ _ _ => True) p) :
    Only Cmd.Proper p :=
  h.mono fun _ => OnTriggers.proper

theorem proper_ignoreErrors {p : Service Unit} (h : Only Cmd.Proper p) :
    Only Cmd.Proper (ignoreErrors p) :=
  .handle h fun _ => .pure

theorem proper_notify {notice : Notice} : Only Cmd.Proper (ignoreErrors (send (.notify notice))) :=
  proper_ignoreErrors (.perform trivial)

theorem proper_evaluatePlaytime {player : TriggerPlayer} {previous next : Int} :
    Only Cmd.Proper
      (ignoreErrors (evaluatePlaytime orgId serverInstanceId player previous next)) :=
  proper_ignoreErrors <| proper_of_onTriggers <| onTriggers_evaluatePlaytime fun _ _ _ _ => trivial

theorem proper_welcome {player : TriggerPlayer} :
    Only Cmd.Proper (welcome orgId serverInstanceId existing player) :=
  .ite (proper_ignoreErrors <| proper_of_onTriggers <| onTriggers_evaluateFirstJoin fun _ => trivial)
    .pure

theorem proper_openSession : Only Cmd.Proper (openSession existing id now) :=
  .ite .pure (.perform trivial)

theorem proper_connect {uuid : Option String} :
    Only Cmd.Proper
      (connect orgId serverInstanceId serverInstanceName existing id name uuid) :=
  .ite .pure <| .bind (proper_ignoreErrors <| proper_of_onTriggers
    onTriggers_retryPendingItemGrantsForPlayer) fun _ => proper_notify

theorem proper_endSession {endedAt : Time} {duration : Nat} (hk : data.identityKey = none)
    (hn : data.name = none) : Only Cmd.Proper (endSession id data endedAt duration) := by
  refine .perform fun w hw => ?_
  simp only [sessionEnd, List.mem_cons, List.not_mem_nil, or_false] at hw
  rcases hw with rfl | rfl
  case inl => exact ⟨hk, hn⟩
  case inr => trivial

theorem proper_farewell {player : TriggerPlayer} {previous next : Int} {notice : Notice} :
    Only Cmd.Proper (do
      ignoreErrors (evaluatePlaytime orgId serverInstanceId player previous next)
      ignoreErrors (send (.notify notice))) :=
  proper_evaluatePlaytime.bind fun _ => proper_notify

theorem proper_handleJoined (hk : key.Names name) :
    Only Cmd.Proper
      (handleJoined orgId serverInstanceId serverInstanceName name key existing now) :=
  .bind (.perform ⟨rfl, hk, rfl, fun _ hn => Option.some.inj hn ▸ hk⟩) fun _ =>
    proper_welcome.bind fun _ => proper_openSession.bind fun _ => proper_connect

theorem proper_handleLeft {existing : Option (PlayerId × Player)} :
    Only Cmd.Proper
      (handleLeft orgId serverInstanceId serverInstanceName name key existing now) := by
  cases existing
  case none => exact .pure
  case some => exact .ite ((proper_endSession rfl rfl).bind fun _ => proper_farewell) .pure

theorem wp_proper {p : Service α} (h : Only Cmd.Proper p) (hs : Keyed s) :
    wp (under roster .none) (fun _ => Keyed) p s :=
  h.wp_under (fun _ _ hc hs => exec_proper hs hc) hs

-- A program that begins with a reconciliation.
theorem Keyed.wp_reconcile {p : Service α} (h : Keyed s) (hk : key.Names name) (hp : Only Cmd.Proper p) :
    wp (under roster .none) (fun _ => Keyed)
      (reconcileNameFallback serverInstanceId key name steamId >>= fun _ => p) s := by
  apply wp_bind.mpr
  apply wp_reconcileNameFallback
  exact wp_proper hp (h.reconcile hk)

theorem Keyed.wp_handleLine (h : Keyed s) :
    wp (under roster .none) (fun _ => Keyed)
      (handleLine orgId serverInstanceId serverInstanceName line) s := by
  have hnamed : ∀ joined name, wp (under roster .none) (fun _ => Keyed)
      (handleNamed orgId serverInstanceId serverInstanceName joined name) s := by
    intro joined name
    refine wp_step rfl ?_ fun _ _ => False.elim
    have hk : (namedKey (s.namedUuid? serverInstanceId name) name).Names name := by
      cases hn : s.namedUuid? serverInstanceId name
      case none   => exact .inr rfl
      case some e => exact .inl (namedUuid?_some hn).right.right
    have hrest : ∀ now (existing : Option (PlayerId × Player)), Only Cmd.Proper
        (if joined then
          handleJoined orgId serverInstanceId serverInstanceName name
            (namedKey (s.namedUuid? serverInstanceId name) name) (existing.map Prod.snd) now
        else
          handleLeft orgId serverInstanceId serverInstanceName name
            (namedKey (s.namedUuid? serverInstanceId name) name) existing now) :=
      fun _ _ => .ite (proper_handleJoined hk) proper_handleLeft
    refine h.wp_reconcile hk <| .bind (.perform trivial) fun now => ?_
    exact .ite (hrest now _) (.bind (.perform trivial) fun _ => hrest now _)
  cases line
  case joined => exact hnamed true _
  case left   => exact hnamed false _
  case other  => exact h
  case uuid name uuid =>
    have hk : (IdentityKey.uuid uuid).Names name := .inl rfl
    refine h.wp_reconcile hk <| .bind (.perform trivial) fun _ => .bind (.perform ?_) fun _ => .pure
    exact ⟨rfl, hk, rfl, fun _ hn => Option.some.inj hn ▸ hk⟩

theorem Keyed.wp_parsePlayers (h : Keyed s) :
    wp (under roster .none) (fun _ => Keyed)
      (parsePlayers orgId serverInstanceId serverInstanceName content) s := by
  refine wp_step rfl ?_ fun _ _ => False.elim
  refine wp_step rfl ?_ fun _ _ => False.elim
  exact wp_forEach_keeps (fun _ _ _ h => h.wp_handleLine) (h.congr rfl)

theorem Keyed.wp_applyRow (h : Keyed s) (hk : row.identityKey.Names row.name) :
    wp (under roster .none) (fun _ => Keyed)
      (applyRow orgId serverInstanceId serverInstanceName now row) s := by
  refine h.wp_reconcile hk <| .bind (.perform trivial) fun existing => .bind ?_ fun e => ?_
  case refine_1 => exact .perform ⟨rfl, hk, rfl, fun _ hn => Option.some.inj hn ▸ hk⟩
  case refine_2 =>
    exact proper_openSession.bind fun _ => proper_welcome.bind fun _ => proper_connect.bind fun _ =>
      proper_evaluatePlaytime

theorem proper_applyMissing {e : PlayerId × Player} :
    Only Cmd.Proper (applyMissing orgId serverInstanceId serverInstanceName now e) :=
  .bind (proper_endSession rfl rfl) fun _ => proper_farewell

theorem Keyed.wp_applyPlayerRoster {rows : List PlayerRosterRow} (h : Keyed s)
    (hk : ∀ row ∈ rows, row.identityKey.Names row.name) :
    wp (under roster .none) (fun _ => Keyed) (applyPlayerRoster orgId serverInstanceId rows) s := by
  refine wp_step rfl ?_ fun _ _ => False.elim
  refine wp_step rfl ?_ fun _ _ => False.elim
  refine wp_bind_keeps ?_ fun _ s hs => wp_proper ?_ hs
  case refine_1 => exact wp_forEach_keeps (fun row s hr h => h.wp_applyRow (hk row hr)) h
  case refine_2 =>
    refine .bind (.perform trivial) fun missing => .bind (.forEach fun _ => proper_applyMissing) fun _ => ?_
    exact proper_notify.bind fun _ => proper_ignoreErrors <| proper_of_onTriggers
      onTriggers_retryPendingItemGrants

theorem names_minecraftRow {uuid : Option String} :
    (minecraftRow name uuid).identityKey.Names (minecraftRow name uuid).name := by
  cases uuid
  case none => exact .inr rfl
  case some => exact .inl rfl

-- Every message keeps the keys in order.
theorem Keyed.next {m : Message} (h : Keyed s) : Keyed (messages.next s m) := by
  cases m
  case elapse => exact h.congr rfl
  case chunk =>
    simp only
    split
    case h_1 => exact wp_run_nil h.wp_parsePlayers
    case h_2 => exact h
  case roster serverInstanceId players =>
    simp only
    split
    case h_2 => exact h
    case h_1 =>
      refine wp_run_nil (h.wp_applyPlayerRoster fun row hr => ?_)
      have ⟨_, _, he⟩ := List.mem_map.mp hr
      exact he ▸ names_minecraftRow
  case report id runStatus output =>
    simp only [Store.report]
    split
    case h_2 => exact h
    case h_1 =>
      have hc : Keyed (s.closeJob id) := h.congr rfl
      exact wp_run_nil (wp_proper (proper_of_onTriggers onTriggers_completeItemGrant) hc)

theorem keyed_of_players_nil (h : s.players = []) : Keyed s := by
  have hn : ∀ id, s.player? id = none := fun id => by rw [Store.player?, h]; rfl
  constructor
  case unique => exact fun id _ _ _ hp => by cases (hn id).symm.trans hp
  case named  => exact fun id _ hp => by cases (hn id).symm.trans hp

-- The keys are in order in every state that messages lead to.
theorem keyed_run {ms : List Message} (h : s.players = []) : Keyed (messages.run s ms) :=
  System.always (S := messages) (fun _ _ h => h.next) (keyed_of_players_nil h)

end

end Players
