import Mastermind.Players.Theorems.FirstJoin
import Mastermind.Players.Theorems.Sessions

open Effects Effects.Prog Js Jobs Triggers

namespace Players

variable {s s' : Store} {id : PlayerId} {p : Player} {orgId : OrgId} {serverInstanceId : ServerId}
  {serverInstanceName : String} {key : IdentityKey} {name : String} {steamId : Option String}
  {now : Time} {existing : Option Player}

-- A player was seen, and a session has to be opened unless the player was online before.
def Seen (existing : Option Player) (id : PlayerId) (now : Time) (s : Store) : Prop :=
  if existing.any (·.online) then Books s else Books (s.open id now)

theorem Seen.congr (h : Seen existing id now s) (hb : Beside s s') : Seen existing id now s' := by
  rw [Seen] at h ⊢
  split at h
  case isTrue ho  => rw [if_pos ho]; exact h.congr hb
  case isFalse ho =>
    rw [if_neg ho]
    exact h.congr ⟨hb.players, by simp only [Store.open, hb.sessions]⟩

theorem not_identity_of_none {new : Player} (hk : s.keyed? serverInstanceId key = none)
    (hi : new.identity = (serverInstanceId, key)) :
    ∀ id q, s.player? id = some q → q.identity ≠ new.identity := by
  intro id q hq he
  have hi : q.identity = (serverInstanceId, key) := he.trans hi
  exact keyed?_none hk hq (congrArg Prod.fst hi) (congrArg Prod.snd hi)

theorem Books.keyed? (h : Books s) (hp : s.player? id = some p)
    (hi : p.identity = (serverInstanceId, key)) : s.keyed? serverInstanceId key = some (id, p) := by
  obtain ⟨rfl, rfl⟩ := Prod.mk.inj hi
  have ⟨⟨id', p'⟩, hk⟩ := Option.isSome_iff_exists.mp (keyed?_isSome hp)
  have ⟨hp', hs, hk'⟩ := keyed?_some hk
  obtain rfl := h.unique _ _ _ _ hp hp' (by rw [Player.identity, Player.identity, hs, hk'])
  rw [hk, Option.some.inj (hp.symm.trans hp')]

section

variable [Naming]

-- A player with a better key than its name is still there after a reconciliation, and online if the
-- player with the name was.
theorem Books.reconciled (h : Books s) (hp : s.player? id = some p)
    (hi : p.identity = (serverInstanceId, key)) (hn : key.isName = false) :
    ∃ p', (s.reconcile serverInstanceId key name steamId).player? id = some p' ∧
      p'.identity = p.identity ∧
        p'.online = (p.online || (s.keyed? serverInstanceId (fallbackKey name)).any (·.2.online)) := by
  have hk := h.keyed? hp hi
  cases hf : s.keyed? serverInstanceId (fallbackKey name)
  case none =>
    have hr : s.reconcile serverInstanceId key name steamId = s := by simp [Store.reconcile, hn, hf]
    exact ⟨p, by rw [hr, hp], rfl, by simp⟩
  case some e =>
    obtain ⟨fallbackId, fallback⟩ := e
    have hne : key ≠ fallbackKey name := fun he => by simp [he, fallbackKey, IdentityKey.isName] at hn
    rw [reconcile_of_pair hn hf hk]
    refine ⟨(mergeData p fallback steamId).apply p, ?_, rfl, by simp [PlayerData.apply, mergeData]⟩
    rw [player?_merge, if_neg (keyed?_ne hne hk hf), if_pos rfl, hp, Option.map_some]

theorem Seen.wp_openSession (h : Seen existing id now s) :
    wp (under roster .none) (returns Books) (openSession existing id now) s := by
  rw [Seen] at h
  rw [openSession]
  split at h
  case isTrue ho  => rw [if_pos ho]; exact h
  case isFalse ho => rw [if_neg ho]; exact wp_last rfl h fun _ _ => False.elim

theorem Spares.wp_books {α : Type} {p : Service α} (h : Spares p) (hs : Books s) :
    wp (under roster .none) (returns Books) p s :=
  wp_returns_mono (h s) fun _ hb => hs.congr hb

-- A player is updated, or it is a new one.
theorem Books.wp_upsert {β : Type} {create : Player} {update : PlayerData}
    {f : PlayerId × Player → Service β} {Q : Result Exception β → Store → Prop}
    (hf : ∀ id p, s.keyed? serverInstanceId key = some (id, p) →
      wp (under roster .none) Q (f (id, update.apply p)) (s.update id update))
    (hn : s.keyed? serverInstanceId key = none →
      wp (under roster .none) Q (f (s.players.length, create)) (s.create create)) :
    wp (under roster .none) Q (send (.upsertPlayer serverInstanceId key create update) >>= f) s := by
  cases hk : s.keyed? serverInstanceId key
  case some e =>
    have hx : exec (.upsertPlayer serverInstanceId key create update) s =
      (.ok (e.1, update.apply e.2), s.update e.1 update) := by rw [exec, hk]; rfl
    exact wp_step hx (hf e.1 e.2 hk) fun _ _ => False.elim
  case none =>
    have hx : exec (.upsertPlayer serverInstanceId key create update) s =
      (.ok (s.players.length, create), s.create create) := by rw [exec, hk]; rfl
    exact wp_step hx (hn hk) fun _ _ => False.elim

-- The data of a player who is seen online.
structure Login (existing : Option Player) (now : Time) (create : Player) (update : PlayerData) : Prop where
  online    : create.online = true
  started   : create.currentSessionStartedAt = some now
  lifetime  : create.lifetimeSeconds = 0
  key'      : update.identityKey = none
  online'   : update.online = some true
  started'  : update.currentSessionStartedAt =
    if existing.any (·.online) then none else some (some now)
  lifetime' : update.lifetimeSeconds = 0

theorem Books.wp_login {β : Type} {create : Player} {update : PlayerData}
    {f : PlayerId × Player → Service β} {Q : Result Exception β → Store → Prop} (h : Books s)
    (hx : existing.any (·.online) = (s.keyed? serverInstanceId key).any (·.2.online))
    (hi : create.identity = (serverInstanceId, key)) (hl : Login existing now create update)
    (hf : ∀ id p s', Seen existing id now s' → wp (under roster .none) Q (f (id, p)) s') :
    wp (under roster .none) Q (send (.upsertPlayer serverInstanceId key create update) >>= f) s := by
  refine Books.wp_upsert (fun id p hk => hf _ _ _ ?_) fun hk => hf _ _ _ ?_
  case refine_1 =>
    have ⟨hp, _, _⟩ := keyed?_some hk
    have hx : existing.any (·.online) = p.online := by simpa [hk] using hx
    have hs := hl.started'
    rw [hx] at hs
    rw [Seen, hx]
    cases ho : p.online
    case true =>
      rw [ho] at hs
      exact h.update _ hp (by simp [PlayerData.apply, hl.online', ho]) (by simp [PlayerData.apply, hs])
        hl.lifetime' (h.identity_ne hp hl.key')
    case false =>
      rw [ho] at hs
      exact h.login hp ho hl.key' hl.online' hs hl.lifetime'
  case refine_2 =>
    have hx : existing.any (·.online) = false := by simpa [hk] using hx
    rw [Seen, hx]
    exact h.create_open (not_identity_of_none hk hi) hl.online (by rw [hl.started]; rfl) hl.lifetime

theorem Books.wp_handleUuid {uuid : String} (h : Books s) (ha : s.Apart serverInstanceId (.uuid uuid) name) :
    wp (under roster .none) (returns Books) (handleUuid orgId serverInstanceId name uuid) s := by
  rw [handleUuid]
  apply wp_bind.mpr
  apply wp_reconcileNameFallback
  refine wp_step rfl ?_ fun _ _ => False.elim
  have hr : Books (s.reconcile serverInstanceId (.uuid uuid) name none) := h.reconcile ha
  refine Books.wp_upsert (fun id p hk => ?_) fun hk => ?_
  case refine_1 =>
    obtain ⟨hp, _, _⟩ := keyed?_some hk
    exact hr.update _ hp rfl rfl rfl (hr.identity_ne hp rfl)
  case refine_2 => exact hr.create (not_identity_of_none hk rfl) rfl rfl rfl

theorem Books.wp_handleJoined (h : Books s)
    (hx : existing.any (·.online) = (s.keyed? serverInstanceId key).any (·.2.online)) :
    wp (under roster .none) (returns Books)
      (handleJoined orgId serverInstanceId serverInstanceName name key existing now) s := by
  refine h.wp_login hx rfl
    (show Login existing now _ _ from ⟨rfl, rfl, rfl, rfl, rfl, rfl, rfl⟩) fun id p s' hs => ?_
  refine wp_bind_returns (spares_welcome s') fun _ s₂ hb => ?_
  refine wp_bind_returns (hs.congr hb).wp_openSession fun _ s₃ h₃ => ?_
  exact spares_connect.wp_books h₃

theorem Books.wp_endSession {data : PlayerData} {endedAt : Time} {duration : Nat} (h : Books s)
    (hp : s.player? id = some p) (hon : p.online = true) (hd : data.identityKey = none) :
    wp (under roster .none)
      (returns fun s' => Books s' ∧ ∀ id', id' ≠ id → s'.player? id' = s.player? id')
      (endSession id data endedAt duration) s := by
  let data' : PlayerData := { data with
    online                  := some false
    currentSessionStartedAt := some none
    lastLogoutAt            := some endedAt
    lifetimeSeconds         := duration }
  have hx : exec (.transaction (sessionEnd id data endedAt duration)) s =
      (.ok (), s.logout id data' endedAt duration) := by
    simp only [exec, sessionEnd, List.foldlM, Write.exec, hp]
    rfl
  refine wp_last hx ⟨h.logout hp hon hd rfl rfl rfl, fun id' hn => ?_⟩ fun _ _ => False.elim
  change (s.update id data').player? id' = _
  rw [player?_update, if_neg (Ne.symm hn)]

theorem Books.wp_handleLeft {existing : Option (PlayerId × Player)} (h : Books s)
    (hx : ∀ e ∈ existing, e.2.online = true → ∃ p, s.player? e.1 = some p ∧ p.online = true) :
    wp (under roster .none) (returns Books)
      (handleLeft orgId serverInstanceId serverInstanceName name key existing now) s := by
  cases existing
  case none => exact h
  case some e =>
    rw [handleLeft]
    split
    case isFalse   => exact h
    case isTrue ho =>
      obtain ⟨p, hp, hon⟩ := hx e rfl ho
      refine wp_bind_returns (h.wp_endSession hp hon rfl) fun _ s' hs => ?_
      exact (spares_evaluatePlaytime.bind fun _ => spares_notify).wp_books hs.left

-- The lines of a log after which the books still balance. What a joined line says is not compared
-- with a fallback row that it merges.
def LineApart (serverInstanceId : ServerId) (s : Store) : LogLine → Prop
  | .uuid name uuid => s.Apart serverInstanceId (.uuid uuid) name
  | .joined name    =>
    (s.namedUuid? serverInstanceId name).isSome = true →
      ∀ fallback ∈ s.keyed? serverInstanceId (fallbackKey name), fallback.2.online = false
  | .left name      => s.Apart serverInstanceId (s.lineKey serverInstanceId name) name
  | .other          => True

instance : (line : LogLine) → Decidable (LineApart serverInstanceId s line)
  | .uuid name uuid => inferInstanceAs (Decidable (s.Apart _ (.uuid uuid) name))
  | .joined _       => inferInstanceAs (Decidable (_ → _))
  | .left name      => inferInstanceAs (Decidable (s.Apart _ _ name))
  | .other          => .isTrue trivial

theorem Books.wp_handleNamed (joined : Bool) (h : Books s)
    (ha : LineApart serverInstanceId s (if joined then .joined name else .left name)) :
    wp (under roster .none) (returns Books)
      (handleNamed orgId serverInstanceId serverInstanceName joined name) s := by
  rw [handleNamed]
  refine wp_step rfl ?_ fun _ _ => False.elim
  apply wp_bind.mpr
  apply wp_reconcileNameFallback
  refine wp_step rfl ?_ fun _ _ => False.elim
  cases hn : s.namedUuid? serverInstanceId name
  case none =>
    -- A line about a player who is only known by name merges no rows.
    have hr : s.reconcile serverInstanceId (namedKey none name) name none = s := by
      simp [Store.reconcile, namedKey, fallbackKey, IdentityKey.isName]
    refine wp_step rfl ?_ fun _ _ => False.elim
    rw [hr]
    split
    case isTrue => exact h.wp_handleJoined (by cases s.keyed? _ _ <;> rfl)
    case isFalse =>
      refine h.wp_handleLeft fun e he ho => ?_
      exact ⟨e.2, (keyed?_some he).left, ho⟩
  case some e =>
    obtain ⟨id, p⟩ := e
    obtain ⟨hp, hs, hu⟩ := namedUuid?_some hn
    have hi : p.identity = (serverInstanceId, p.identityKey) := by rw [Player.identity, hs]
    have hk : p.identityKey.isName = false := by
      cases hk : p.identityKey <;> simp [hk, IdentityKey.uuid?, IdentityKey.isName] at hu ⊢
    have hl : s.lineKey serverInstanceId name = p.identityKey := by simp [Store.lineKey, hn, namedKey]
    obtain ⟨p', hp', hi', ho'⟩ :
        ∃ p', (s.reconcile serverInstanceId p.identityKey name none).player? id = some p' ∧ _ :=
      h.reconciled hp hi hk
    change wp _ _ (if joined = true then _ else _)
      (s.reconcile serverInstanceId p.identityKey name none)
    cases joined
    case false =>
      have ha : s.Apart serverInstanceId p.identityKey name := hl ▸ (show s.Apart _ (s.lineKey _ _) _ from ha)
      have hr : Books (s.reconcile serverInstanceId p.identityKey name none) := h.reconcile ha
      rw [if_neg Bool.false_ne_true]
      refine hr.wp_handleLeft fun e he ho => ?_
      obtain rfl := Option.some.inj he
      exact ⟨p', hp', by rw [ho', ho]; rfl⟩
    case true =>
      have ha := ha (by rw [hn]; rfl)
      have hr : Books (s.reconcile serverInstanceId p.identityKey name none) :=
        h.reconcile (.inr fun _ _ fallback hf _ => ha fallback hf)
      refine hr.wp_handleJoined ?_
      have hf : (s.keyed? serverInstanceId (fallbackKey name)).any (·.2.online) = false := by
        cases hf : s.keyed? serverInstanceId (fallbackKey name)
        case none   => rfl
        case some q => exact ha q hf
      change p.online = ((s.reconcile serverInstanceId p.identityKey name none).keyed? serverInstanceId
        p.identityKey).any (·.2.online)
      rw [hr.keyed? hp' (hi'.trans hi), Option.any_some, ho', hf, Bool.or_false]

theorem Books.wp_handleLine {line : LogLine} (h : Books s) (ha : LineApart serverInstanceId s line) :
    wp (under roster .none) (returns Books)
      (handleLine orgId serverInstanceId serverInstanceName line) s := by
  cases line
  case uuid   => exact h.wp_handleUuid ha
  case joined => exact h.wp_handleNamed true ha
  case left   => exact h.wp_handleNamed false ha
  case other  => exact h

def RowApart (serverInstanceId : ServerId) (s : Store) (row : PlayerRosterRow) : Prop :=
  s.Apart serverInstanceId row.identityKey row.name

instance {row : PlayerRosterRow} : Decidable (RowApart serverInstanceId s row) :=
  inferInstanceAs (Decidable (s.Apart ..))

theorem Books.wp_applyRow {row : PlayerRosterRow} (h : Books s) (ha : RowApart serverInstanceId s row) :
    wp (under roster .none) (returns Books)
      (applyRow orgId serverInstanceId serverInstanceName now row) s := by
  rw [applyRow]
  apply wp_bind.mpr
  apply wp_reconcileNameFallback
  refine wp_step rfl ?_ fun _ _ => False.elim
  have hr : Books (s.reconcile serverInstanceId row.identityKey row.name row.steamId) := h.reconcile ha
  refine hr.wp_login (by cases Store.keyed? _ _ _ <;> rfl) rfl
    (show Login _ now _ _ from ⟨rfl, rfl, rfl, rfl, rfl, rfl, rfl⟩) fun id p s' hs => ?_
  refine wp_bind_returns hs.wp_openSession fun _ s₁ h₁ => ?_
  exact (spares_welcome.bind fun _ => spares_connect.bind fun _ => spares_evaluatePlaytime).wp_books h₁

-- The players that are set offline are online when their turn comes.
theorem Books.wp_missing {missing : List (PlayerId × Player)} (h : Books s)
    (hn : (missing.map Prod.fst).Nodup)
    (hm : ∀ e ∈ missing, s.player? e.1 = some e.2 ∧ e.2.online = true) :
    wp (under roster .none) (returns Books)
      (forEach (applyMissing orgId serverInstanceId serverInstanceName now) missing) s := by
  let I (es : List (PlayerId × Player)) (s : Store) : Prop :=
    Books s ∧ (es.map Prod.fst).Nodup ∧ ∀ e ∈ es, s.player? e.1 = some e.2 ∧ e.2.online = true
  have hstep : ∀ e es s, I (e :: es) s → wp (under roster .none) (returns (I es))
      (applyMissing orgId serverInstanceId serverInstanceName now e) s := by
    intro e es s ⟨h, hn, hm⟩
    have ⟨he, hn⟩ := List.nodup_cons.mp hn
    have ⟨⟨hp, ho⟩, hm⟩ := List.forall_mem_cons.mp hm
    refine wp_bind_returns (h.wp_endSession hp ho rfl) fun _ s₁ ⟨h₁, hs⟩ => ?_
    refine wp_returns_mono ((spares_evaluatePlaytime.bind fun _ => spares_notify) s₁) fun s₂ hb => ?_
    refine ⟨h₁.congr hb, hn, fun e' he' => ?_⟩
    have hne : e'.1 ≠ e.1 := fun hne => he (hne ▸ List.mem_map_of_mem he')
    rw [hb.player?, hs _ hne]
    exact hm e' he'
  exact wp_returns_mono (wp_forEach hstep ⟨h, hn, hm⟩) fun _ h => h.left

theorem Books.wp_applyPlayerRoster {rows : List PlayerRosterRow} (h : Books s)
    (hn : s.servers[serverInstanceId]?.map (·.name) = some serverInstanceName)
    (ha : Along (applyRow orgId serverInstanceId serverInstanceName s.clock)
      (RowApart serverInstanceId) rows s) :
    wp (under roster .none) (returns Books) (applyPlayerRoster orgId serverInstanceId rows) s := by
  rw [applyPlayerRoster]
  refine wp_step rfl ?_ fun _ _ => False.elim
  refine wp_step rfl ?_ fun _ _ => False.elim
  rw [hn]
  refine wp_bind_returns (wp_forEach_along (I := fun _ => Books)
    (fun row rows s h hc => h.wp_applyRow hc) h ha) fun _ s₁ h₁ => ?_
  refine wp_step rfl ?_ fun _ _ => False.elim
  refine wp_bind_returns (h₁.wp_missing ?_ fun e he => ?_) fun _ s₂ h₂ => ?_
  case refine_1 => exact nodup_liveEntries.sublist (List.filter_sublist.map _)
  case refine_2 =>
    obtain ⟨hm, hp⟩ := List.mem_filter.mp he
    simp only [Bool.and_eq_true] at hp
    exact ⟨mem_liveEntries.mp hm, hp.1.2⟩
  case refine_3 =>
    have ht : Spares (ignoreErrors (retryPendingItemGrants orgId serverInstanceId)) :=
      spares_ignoreErrors (onTriggers_retryPendingItemGrants.mono fun _ => OnTriggers.bypass)
    exact (spares_notify.bind fun _ => ht).wp_books h₂

theorem Books.wp_parsePlayers {content : String} (h : Books s)
    (ha : Along (handleLine orgId serverInstanceId serverInstanceName) (LineApart serverInstanceId)
      (s.lines serverInstanceId content) (s.buffer serverInstanceId content)) :
    wp (under roster .none) (returns Books)
      (parsePlayers orgId serverInstanceId serverInstanceName content) s := by
  rw [parsePlayers]
  refine wp_step rfl ?_ fun _ _ => False.elim
  refine wp_step rfl ?_ fun _ _ => False.elim
  have hb : Books (s.buffer serverInstanceId content) := h.congr ⟨rfl, rfl⟩
  exact wp_forEach_along (I := fun _ => Books) (fun line lines s h hc => h.wp_handleLine hc) hb ha

-- The events after which the books still balance: no two players who are both online are merged.
def EventApart (s : Store) : PlayerEvent → Prop
  | .message (.chunk serverInstanceId content) =>
    ∀ server ∈ s.servers[serverInstanceId]?,
      Prog.Along (handleLine server.orgId serverInstanceId server.name) (LineApart serverInstanceId)
        (s.lines serverInstanceId content) (s.buffer serverInstanceId content)
  | .message (.roster serverInstanceId players) =>
    ∀ server ∈ s.servers[serverInstanceId]?,
      Prog.Along (applyRow server.orgId serverInstanceId server.name s.clock)
        (RowApart serverInstanceId) (minecraftRows players) s
  | .message (.report ..) => True
  | .message (.elapse _)  => True
  | .reconcile serverInstanceId identityKey name _ => s.Apart serverInstanceId identityKey name

instance : (e : PlayerEvent) → Decidable (EventApart s e)
  | .message (.chunk ..)  => inferInstanceAs (Decidable (∀ server ∈ s.servers[_]?, _))
  | .message (.roster ..) => inferInstanceAs (Decidable (∀ server ∈ s.servers[_]?, _))
  | .message (.report ..) => .isTrue trivial
  | .message (.elapse _)  => .isTrue trivial
  | .reconcile ..         => inferInstanceAs (Decidable (s.Apart ..))

theorem Books.next {e : PlayerEvent} (h : Books s) (ha : EventApart s e) :
    Books (playerEvents.next s e) := by
  cases e
  case reconcile =>
    simp only [run_reconcileNameFallback]
    exact h.reconcile ha
  case message m =>
    cases m
    case elapse => exact h.congr ⟨rfl, rfl⟩
    case chunk serverInstanceId content =>
      simp only
      split
      case h_1 server hs => exact (wp_run_nil (h.wp_parsePlayers (ha server hs))).state
      case h_2           => exact h
    case roster serverInstanceId players =>
      simp only
      split
      case h_1 server hs =>
        exact (wp_run_nil (h.wp_applyPlayerRoster (by simp [hs]) (ha server hs))).state
      case h_2 => exact h
    case report id runStatus output =>
      simp only [Store.report]
      split
      case h_1 =>
        have hc : Books (s.closeJob id) := h.congr ⟨rfl, rfl⟩
        exact hc.congr (wp_run_nil (wp_bypass (K := fun _ _ _ => True)
          (onTriggers_completeItemGrant.mono fun _ => OnTriggers.bypass)))
      case h_2 => exact h

-- In every run in which no two players who are both online are merged, every player is balanced.
theorem sessions_balanced {s : Store} {es : List PlayerEvent} (h : Books s)
    (hm : playerEvents.Meets EventApart s es) {id : PlayerId} {p : Player}
    (hp : (playerEvents.run s es).player? id = some p) : Balanced (playerEvents.run s es) id p :=
  (System.invariant (S := playerEvents) (fun _ _ h ha => h.next ha) h hm).balanced id p hp

end

attribute [local instance] Naming.ascii

def leftLine : String :=
  "[13:00:01 INFO]: Steve left the game\n"

def uuidOfSteve : String :=
  "069a79f4-44e9-4726-a5be-fca90e38aaf5"

def Store.empty : Store where
  clock   := 1000000
  servers := [{ orgId := 0, name := "Survival" }]

theorem books_empty : Books .empty where
  unique _ _ _ _ h := nomatch h
  owned _ h        := nomatch h
  balanced _ _ h   := nomatch h

-- A player is known by name before the UUID is known, plays for an hour and leaves.
def evening : List PlayerEvent :=
  [ .message (.chunk 0 joinedLine), .message (.roster 0 [("Steve", some uuidOfSteve)])
  , .message (.elapse 3600000), .message (.chunk 0 leftLine)]

theorem sessions_balanced_evening :
    ∃ p, (playerEvents.run .empty evening).player? 0 = some p ∧
      Balanced (playerEvents.run .empty evening) 0 p := by
  have hp : ((playerEvents.run .empty evening).player? 0).isSome = true := by decide +kernel
  have ⟨p, hp⟩ := Option.isSome_iff_exists.mp hp
  exact ⟨p, hp, sessions_balanced books_empty (by decide +kernel) hp⟩

-- Steve has played under another name, and is seen under both. Or a roster without UUIDs shows
-- Steve before the log does.
def renamed : List PlayerEvent :=
  [ .message (.roster 0 [("Alex", some uuidOfSteve)]), .message (.chunk 0 joinedLine)
  , .message (.roster 0 [("Steve", some uuidOfSteve)]), .message (.elapse 3600000)
  , .message (.chunk 0 leftLine)]

def nameless : List PlayerEvent :=
  [ .message (.roster 0 [("Steve", some uuidOfSteve)]), .message (.roster 0 [("Steve", none)])
  , .message (.chunk 0 joinedLine)]

theorem sessions_unbalanced :
    (((playerEvents.run .empty renamed).player? 0).map (·.lifetimeSeconds) = some 3600 ∧
      (playerEvents.run .empty renamed).endedSeconds 0 = 7200) ∧
    ((playerEvents.run .empty nameless).player? 0).map (·.online) = some true ∧
      (playerEvents.run .empty nameless).openSessions 0 = 2 := by
  decide +kernel

end Players
