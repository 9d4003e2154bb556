import Mathlib.Data.List.Nodup
import Mastermind.Players.Theorems.Balance
import Mastermind.Players.Theorems.Keyed

open Effects Effects.Prog Js Jobs Triggers

namespace Players

def Notice.isFarewell : Notice → Bool
  | .disconnected .. => true
  | _                => false

namespace Store

-- The messages about players who have left.
def farewells (s : Store) : List Notice :=
  s.notices.filter (·.isFarewell)

-- An open session of a player.
def openAt (s : Store) (k : Nat) (id : PlayerId) : Bool :=
  s.sessions[k]?.any (·.isOpen id)

-- A player of a server who is online.
def OnlineAt (s : Store) (serverInstanceId : ServerId) (id : PlayerId) (p : Player) : Prop :=
  s.player? id = some p ∧ p.serverInstanceId = serverInstanceId ∧ p.online = true

end Store

-- The farewell to a player who is not on the roster any more.
def Player.farewell (orgId : OrgId) (serverInstanceId : ServerId) (serverInstanceName : String)
    (now : Time) (p : Player) : Notice :=
  .disconnected orgId serverInstanceId serverInstanceName p.name p.identityKey.uuid?
    (secondsBetween p.currentSessionStartedAt (if p.lastSeenAt < now then p.lastSeenAt else now))

-- The players who are online but not on the roster.
def Store.missing (s : Store) (serverInstanceId : ServerId) (rows : List PlayerRosterRow) :
    List (PlayerId × Player) :=
  (liveEntries s.players).filter fun (_, p) =>
    p.serverInstanceId = serverInstanceId && p.online &&
      !(rows.map (·.identityKey)).contains p.identityKey

section

variable {s s' t t' u : Store} {id canonicalId fallbackId : PlayerId} {p : Player} {k : Nat}
  {serverInstanceId : ServerId} {endedAt : Time} {duration : Nat} {data : PlayerData}
  {missing todo : List (PlayerId × Player)} {farewell : Player → Notice} {e : PlayerId × Player}
  {rows : List PlayerRosterRow}

-- The players, their sessions and the farewells are the same.
structure Quietly (s s' : Store) : Prop extends Beside s s' where
  farewells : s'.farewells = s.farewells

theorem Quietly.refl : Quietly s s :=
  ⟨.refl, rfl⟩

theorem Quietly.trans {s₁ : Store} (h : Quietly s s₁) (h' : Quietly s₁ s') : Quietly s s' :=
  ⟨h.toBeside.trans h'.toBeside, h'.farewells.trans h.farewells⟩

theorem openAt_iff : s.openAt k id = true ↔ ∃ r, s.sessions[k]? = some r ∧ r.isOpen id = true :=
  Option.any_eq_true _ _

theorem openAt_congr (h : s'.sessions = s.sessions) : s'.openAt k id = s.openAt k id := by
  rw [Store.openAt, h, Store.openAt]

theorem openAt_append {r : Row PlayerSession} (h : s'.sessions = s.sessions ++ [r])
    (ho : s.openAt k id = true) : s'.openAt k id = true := by
  have ⟨r', hr, ho⟩ := openAt_iff.mp ho
  exact openAt_iff.mpr ⟨r', h ▸ Table.getElem?_append_of_some hr, ho⟩

theorem identity_of_keyed? {key : IdentityKey} (h : s.keyed? serverInstanceId key = some (id, p)) :
    s.player? id = some p ∧ p.identity = (serverInstanceId, key) := by
  have ⟨hp, hs, hk⟩ := keyed?_some h
  exact ⟨hp, by rw [Player.identity, hs, hk]⟩

theorem not_keyed {key : IdentityKey} (h : s.keyed? serverInstanceId key = none)
    (hp : s.player? id = some p) : p.identity ≠ (serverInstanceId, key) :=
  fun hi => keyed?_none h hp (congrArg Prod.fst hi) (congrArg Prod.snd hi)

theorem openAt_merge (hn : canonicalId ≠ fallbackId) {data : PlayerData} (hi : id ≠ fallbackId) :
    (s.merge canonicalId fallbackId data).openAt k id =
      (s.openAt k id || (decide (id = canonicalId) && s.openAt k fallbackId)) := by
  rw [Store.openAt, sessions_merge, List.getElem?_map, Store.openAt, Store.openAt]
  cases s.sessions[k]?
  case none   => simp
  case some r =>
    have h := isOpen_moved (r := r) hn hi
    simp only [Option.map_some, Option.any_some]
    revert h
    by_cases hc : id = canonicalId <;> simp only [hc, if_true, if_false] <;>
      cases (r.moved canonicalId fallbackId).isOpen _ <;> cases r.isOpen _ <;>
      cases r.isOpen fallbackId <;> simp

-- One player goes offline with a farewell.
structure Departs (farewell : Notice) (id : PlayerId) (s s' : Store) : Prop where
  offline   : ∀ p, s'.player? id = some p → p.online = false
  others    : ∀ id', id' ≠ id → s'.player? id' = s.player? id'
  sessions  : ∀ k id', id' ≠ id → s.openAt k id' = true → s'.openAt k id' = true
  farewells : s'.farewells = s.farewells ++ [farewell]

-- What has been done when some of the players who are missing are left to do.
structure Left (farewell : Player → Notice) (missing : List (PlayerId × Player)) (s : Store)
    (todo : List (PlayerId × Player)) (t : Store) : Prop where
  distinct  : (todo.map Prod.fst).Nodup
  sub       : todo ⊆ missing
  waiting   : ∀ e ∈ todo, t.player? e.1 = some e.2
  offline   : ∀ e ∈ missing, e ∈ todo ∨ ∀ p, t.player? e.1 = some p → p.online = false
  others    : ∀ id, id ∉ missing.map Prod.fst → t.player? id = s.player? id
  sessions  : ∀ k id, id ∉ missing.map Prod.fst → s.openAt k id = true → t.openAt k id = true
  farewells : ∃ new, t.farewells = s.farewells ++ new ∧
    (∀ notice ∈ new, ∃ e ∈ missing, notice = farewell e.2) ∧
    ∀ e ∈ missing, e ∈ todo ∨ farewell e.2 ∈ new

theorem openAt_logout {id' : PlayerId} (hn : id' ≠ id) :
    (s.logout id data endedAt duration).openAt k id' = s.openAt k id' := by
  simp only [Store.openAt, Store.logout, List.getElem?_map]
  cases s.sessions[k]?
  case none => rfl
  case some r =>
    simp only [Option.map_some, Option.any_some]
    split
    case isFalse   => rfl
    case isTrue hr => simp [Row.isOpen, Row.modify, PlayerSession.finish, hr, hn.symm]

theorem Left.step (h : Left farewell missing s (e :: todo) t) (hx : Departs (farewell e.2) e.1 t t') :
    Left farewell missing s todo t' := by
  have ⟨hn, hd⟩ := List.nodup_cons.mp h.distinct
  have ⟨hm, hsub⟩ := List.cons_subset.mp h.sub
  have hne : ∀ id, id ∉ missing.map Prod.fst → id ≠ e.1 :=
    fun id hi he => hi (he ▸ List.mem_map_of_mem hm)
  constructor
  case distinct => exact hd
  case sub      => exact hsub
  case waiting =>
    intro e' he'
    rw [hx.others e'.1 fun he => hn (he ▸ List.mem_map_of_mem he')]
    exact h.waiting e' (List.mem_cons_of_mem _ he')
  case offline =>
    intro e' he'
    by_cases he : e'.1 = e.1
    case pos => exact .inr (he ▸ hx.offline)
    case neg =>
      refine (h.offline e' he').imp (fun hm => ?_) fun ho => (hx.others e'.1 he).symm ▸ ho
      exact (List.mem_cons.mp hm).resolve_left fun hc => he (hc ▸ rfl)
  case others   => exact fun id hi => (hx.others id (hne id hi)).trans (h.others id hi)
  case sessions => exact fun k id hi ho => hx.sessions k id (hne id hi) (h.sessions k id hi ho)
  case farewells =>
    have ⟨new, he, hfrom, hto⟩ := h.farewells
    refine ⟨new ++ [farewell e.2], by rw [hx.farewells, he, List.append_assoc], fun n hn => ?_, ?_⟩
    case refine_1 =>
      cases List.mem_append.mp hn
      case inl hn => exact hfrom n hn
      case inr hn => exact ⟨e, hm, List.mem_singleton.mp hn⟩
    case refine_2 =>
      intro e' he'
      cases hto e' he'
      case inr hn => exact .inr (List.mem_append_left _ hn)
      case inl hm =>
        cases List.mem_cons.mp hm
        case inl hc => exact .inr (List.mem_append_right _ (List.mem_singleton.mpr (hc ▸ rfl)))
        case inr hm => exact .inl hm

theorem mem_missing : (id, p) ∈ s.missing serverInstanceId rows ↔
    s.OnlineAt serverInstanceId id p ∧ p.identityKey ∉ rows.map (·.identityKey) := by
  simp only [Store.missing, List.mem_filter, mem_liveEntries, Bool.and_eq_true, decide_eq_true_eq,
    Bool.not_eq_true', List.contains_eq_mem, decide_eq_false_iff_not, Store.OnlineAt, Store.player?,
    and_assoc]

theorem Left.onlineAt (h : Left farewell (t.missing serverInstanceId rows) t [] u) :
    u.OnlineAt serverInstanceId id p ↔
      t.OnlineAt serverInstanceId id p ∧ p.identityKey ∈ rows.map (·.identityKey) := by
  by_cases hm : id ∈ (t.missing serverInstanceId rows).map Prod.fst
  case pos =>
    have ⟨⟨id', q⟩, hmem, he⟩ := List.mem_map.mp hm
    obtain rfl : id' = id := he
    have ho := (h.offline _ hmem).resolve_left List.not_mem_nil
    have ⟨hq, hk⟩ := mem_missing.mp hmem
    refine iff_of_false (fun hp => ?_) fun ⟨hp, hk'⟩ => ?_
    case refine_1 => exact Bool.false_ne_true ((ho p hp.left).symm.trans hp.right.right)
    case refine_2 =>
      cases hq.left.symm.trans hp.left
      exact hk hk'
  case neg =>
    have he : u.OnlineAt serverInstanceId id p ↔ t.OnlineAt serverInstanceId id p := by
      rw [Store.OnlineAt, h.others id hm, Store.OnlineAt]
    refine he.trans ⟨fun hp => ⟨hp, ?_⟩, fun hp => hp.left⟩
    by_contra hk
    exact hm (List.mem_map_of_mem (mem_missing.mpr ⟨hp, hk⟩))

end

section

variable [Naming]

-- The account of an entry of a roster has the key of the entry or, as long as the account is only
-- known by name, that of the name. An entry without a UUID is about every player with the name that is
-- not another entry's.
def PlayerRosterRow.IsOf (rows : List PlayerRosterRow) (row : PlayerRosterRow) (p : Player) : Prop :=
  p.identityKey = row.identityKey ∨ p.identityKey = fallbackKey row.name ∨
    (row.identityKey.isName = true ∧ Naming.toLowerCase p.name = Naming.toLowerCase row.name ∧
      p.identityKey ∉ rows.map (·.identityKey))

-- A farewell is to the account of an entry if the UUIDs say so or, where one of them is missing, the
-- names.
def Notice.IsTo (row : PlayerRosterRow) : Notice → Prop
  | .disconnected _ _ _ playerName uuid _ =>
    match row.identityKey.uuid?, uuid with
    | some known, some uuid => known = uuid
    | _, _                  => Naming.toLowerCase playerName = Naming.toLowerCase row.name
  | _ => False

-- The players are those on the roster.
structure Mirrors (serverInstanceId : ServerId) (rows : List PlayerRosterRow) (s s' : Store) : Prop where
  -- An account on the roster has one row that is online.
  each   : ∀ row ∈ rows, ∃! id, ∃ p, s'.OnlineAt serverInstanceId id p ∧ row.IsOf rows p
  -- An account that was online keeps its open sessions, and there is no farewell to it.
  kept   : ∀ row ∈ rows, ∀ id p, s.OnlineAt serverInstanceId id p → row.IsOf rows p →
    (∀ k, s.openAt k id = true →
      ∃ id' p', s'.OnlineAt serverInstanceId id' p' ∧ row.IsOf rows p' ∧ s'.openAt k id' = true) ∧
    ∃ new, s'.farewells = s.farewells ++ new ∧ ∀ notice ∈ new, ¬notice.IsTo row
  -- All others are offline.
  others : ∀ id p, s'.OnlineAt serverInstanceId id p → ∃ row ∈ rows, row.IsOf rows p

section

variable {s s' : Store} {orgId : OrgId} {serverInstanceId : ServerId} {serverInstanceName name : String}
  {existing : Option Player} {id : PlayerId} {player : TriggerPlayer} {previous next : Int}

-- The commands about triggers, and the messages that are not farewells.
def Tactful (c : Cmd) : Prop :=
  OnTriggers (fun _ _ _ => True) c ∨ ∃ notice, c = .notify notice ∧ notice.isFarewell = false

theorem exec_tactful {c : Cmd} (h : Tactful c) : Quietly s (exec c s).2 := by
  cases h
  case inr h =>
    have ⟨notice, hc, hn⟩ := h
    subst hc
    exact ⟨⟨rfl, rfl⟩, by simp [exec, Store.farewells, hn]⟩
  case inl h =>
    refine ⟨exec_bypass h.bypass, ?_⟩
    have hn : (exec c s).2.notices = s.notices := by
      cases c <;> first | exact h.elim | rw [exec]
      all_goals try split
      all_goals rfl
    rw [Store.farewells, hn, Store.farewells]

-- A program that returns, and that leaves the players, their sessions and the farewells alone.
abbrev Behaves {α : Type} (p : Service α) : Prop :=
  Leads (B := roster) Quietly p

theorem behaves_pure {α : Type} {x : α} : Behaves (pure x) :=
  .pure fun _ => .refl

theorem Behaves.then {α β : Type} {p : Service α} {f : α → Service β} (h : Behaves p)
    (hf : ∀ x, Behaves (f x)) : Behaves (p >>= f) :=
  .bind (fun _ _ _ => Quietly.trans) h hf

theorem behaves_ignoreErrors {p : Service Unit} (h : Only Tactful p) : Behaves (ignoreErrors p) :=
  .ignore (fun _ => .refl) (fun _ _ _ => Quietly.trans) (fun _ _ => exec_tactful) h

theorem behaves_onTriggers {p : Service Unit} (h : Only (OnTriggers fun _ _ _ => True) p) :
    Behaves (ignoreErrors p) :=
  behaves_ignoreErrors <| h.mono fun _ => .inl

theorem behaves_notify {notice : Notice} (h : notice.isFarewell = false) :
    Behaves (ignoreErrors (send (.notify notice))) :=
  behaves_ignoreErrors <| .perform <| .inr ⟨notice, rfl, h⟩

theorem behaves_evaluatePlaytime :
    Behaves (ignoreErrors (evaluatePlaytime orgId serverInstanceId player previous next)) :=
  behaves_onTriggers <| onTriggers_evaluatePlaytime fun _ _ _ _ => trivial

theorem behaves_welcome : Behaves (welcome orgId serverInstanceId existing player) :=
  .ite (behaves_onTriggers <| onTriggers_evaluateFirstJoin fun _ => trivial) behaves_pure

theorem behaves_connect {uuid : Option String} :
    Behaves (connect orgId serverInstanceId serverInstanceName existing id name uuid) :=
  .ite behaves_pure <| Behaves.then (behaves_onTriggers onTriggers_retryPendingItemGrantsForPlayer)
    fun _ => behaves_notify rfl

end

-- The rows that an entry of a roster takes up: those with its key and with its name's.
def PlayerRosterRow.Takes (serverInstanceId : ServerId) (row : PlayerRosterRow) (p : Player) : Prop :=
  p.identity = (serverInstanceId, row.identityKey) ∨
    p.identity = (serverInstanceId, fallbackKey row.name)

-- The rows that an entry takes up become one row, which has their open sessions.
structure Gathers (serverInstanceId : ServerId) (row : PlayerRosterRow) (s s' : Store) : Prop where
  keyed     : Keyed s'
  gone      : row.identityKey.isName = false →
    ∀ id p, s'.player? id = some p → p.identity ≠ (serverInstanceId, fallbackKey row.name)
  others    : ∀ id p, ¬row.Takes serverInstanceId p → (s'.player? id = some p ↔ s.player? id = some p)
  kept      : ∀ k id p, s.player? id = some p → ¬row.Takes serverInstanceId p → s.openAt k id = true →
    s'.openAt k id = true
  moved     : ∀ k id p, s.player? id = some p → row.Takes serverInstanceId p → s.openAt k id = true →
    ∃ id' p', s'.player? id' = some p' ∧ p'.identity = (serverInstanceId, row.identityKey) ∧
      s'.openAt k id' = true
  farewells : s'.farewells = s.farewells

section

variable {s s' t : Store} {serverInstanceId : ServerId} {row : PlayerRosterRow} {id : PlayerId}
  {k : Nat} {p : Player}

-- The row of the entry changes or is a new one.
theorem Gathers.seat (h : Gathers serverInstanceId row s t) (hk : Keyed s') (hp : s'.player? id = some p)
    (hi : p.identity = (serverInstanceId, row.identityKey))
    (hn : ∀ id', id' ≠ id → s'.player? id' = t.player? id')
    (ho : ∀ q, t.player? id = some q → q.identity = (serverInstanceId, row.identityKey))
    (hs : ∀ k id', t.openAt k id' = true → s'.openAt k id' = true)
    (hf : s'.farewells = t.farewells) : Gathers serverInstanceId row s s' where
  keyed     := hk
  farewells := hf.trans h.farewells
  kept k id' p' hp' ht hopen := hs k id' (h.kept k id' p' hp' ht hopen)
  gone hname id' p' hp' := by
    by_cases he : id' = id
    case neg => exact h.gone hname id' p' (hn id' he ▸ hp')
    case pos =>
      subst he
      cases hp.symm.trans hp'
      intro hi'
      have hk : row.identityKey = fallbackKey row.name := congrArg Prod.snd (hi.symm.trans hi')
      rw [hk] at hname
      nomatch hname
  others id' p' ht := by
    by_cases he : id' = id
    case neg => rw [hn id' he, h.others id' p' ht]
    case pos =>
      subst he
      rw [← h.others id' p' ht]
      refine iff_of_false (fun hp' => ?_) fun hp' => ht (.inl (ho p' hp'))
      cases hp.symm.trans hp'
      exact ht (.inl hi)
  moved k id' p' hp' ht hopen := by
    have ⟨id₁, p₁, hp₁, hi₁, hopen₁⟩ := h.moved k id' p' hp' ht hopen
    by_cases he : id₁ = id
    case neg => exact ⟨id₁, p₁, (hn id₁ he).trans hp₁, hi₁, hs k id₁ hopen₁⟩
    case pos => exact ⟨id, p, hp, hi, he ▸ hs k id₁ hopen₁⟩

-- Nothing has to be gathered if the entry takes up no row with another key than its own.
theorem gathers_self (h : Keyed s) (hg : row.identityKey.isName = false →
      ∀ id p, s.player? id = some p → p.identity ≠ (serverInstanceId, fallbackKey row.name))
    (ht : ∀ id p, s.player? id = some p → row.Takes serverInstanceId p →
      p.identity = (serverInstanceId, row.identityKey)) :
    Gathers serverInstanceId row s s where
  keyed     := h
  gone      := hg
  farewells := rfl
  others _ _ _           := Iff.rfl
  kept _ _ _ _ _ ho      := ho
  moved _ id p hp hm ho  := ⟨id, p, hp, ht id p hp hm, ho⟩

theorem ne_fallbackKey {key : IdentityKey} {name : String} (h : key.isName = false) :
    key ≠ fallbackKey name := by
  intro he
  rw [he] at h
  nomatch h

section

variable {fallbackId canonicalId : PlayerId} {fallback canonical : Player} {steamId : Option String}

-- The row of the name gets the key of the entry.
theorem gathers_promote (h : Keyed s) (hn : row.identityKey.isName = false)
    (hk : Keyed (s.promote fallbackId row.identityKey steamId))
    (hf : s.keyed? serverInstanceId (fallbackKey row.name) = some (fallbackId, fallback))
    (hc : s.keyed? serverInstanceId row.identityKey = none) :
    Gathers serverInstanceId row s (s.promote fallbackId row.identityKey steamId) := by
  obtain ⟨hp, hi⟩ := identity_of_keyed? hf
  have hnew : ∃ p, (s.promote fallbackId row.identityKey steamId).player? fallbackId = some p ∧
      p.identity = (serverInstanceId, row.identityKey) := by
    rw [Store.player?, Store.promote, live?_modify, if_pos rfl]
    refine ⟨_, congrArg (Option.map _) hp, ?_⟩
    have hs : fallback.serverInstanceId = serverInstanceId := congrArg Prod.fst hi
    simp [Player.identity, PlayerData.apply, hs]
  have hold : ∀ id, id ≠ fallbackId →
      (s.promote fallbackId row.identityKey steamId).player? id = s.player? id := by
    intro id he
    rw [Store.player?, Store.promote, live?_modify, if_neg (Ne.symm he), Store.player?]
  obtain ⟨new, hnew, hnewi⟩ := hnew
  constructor
  case keyed     => exact hk
  case farewells => rfl
  case kept      => exact fun k id p _ _ ho => ho
  case gone =>
    intro _ id p hp' hi'
    by_cases he : id = fallbackId
    case pos =>
      subst he
      cases hnew.symm.trans hp'
      exact ne_fallbackKey hn (congrArg Prod.snd (hnewi.symm.trans hi'))
    case neg =>
      rw [hold id he] at hp'
      exact he (h.unique _ _ _ _ hp' hp (hi'.trans hi.symm))
  case others =>
    intro id p ht
    by_cases he : id = fallbackId
    case neg => rw [hold id he]
    case pos =>
      subst he
      refine iff_of_false (fun hp' => ht (.inl ?_)) fun hp' => ht (.inr ?_)
      case refine_1 => cases hnew.symm.trans hp'; exact hnewi
      case refine_2 => cases hp.symm.trans hp'; exact hi
  case moved =>
    intro k id p hp' ht ho
    have hi' := ht.resolve_left (not_keyed hc hp')
    cases h.unique _ _ _ _ hp' hp (hi'.trans hi.symm)
    exact ⟨fallbackId, new, hnew, hnewi, ho⟩

-- The row of the name is merged into the row of the entry.
theorem gathers_merge (h : Keyed s) (hn : row.identityKey.isName = false)
    (hf : s.keyed? serverInstanceId (fallbackKey row.name) = some (fallbackId, fallback))
    (hc : s.keyed? serverInstanceId row.identityKey = some (canonicalId, canonical)) :
    Gathers serverInstanceId row s
      (s.merge canonicalId fallbackId (mergeData canonical fallback steamId)) := by
  have hne := keyed?_ne (ne_fallbackKey hn) hc hf
  have ⟨hf, hfi⟩ := identity_of_keyed? hf
  have ⟨hc, hci⟩ := identity_of_keyed? hc
  have hnew : (s.merge canonicalId fallbackId (mergeData canonical fallback steamId)).player?
      canonicalId = some ((mergeData canonical fallback steamId).apply canonical) := by
    rw [player?_merge, if_neg hne, if_pos rfl, hc, Option.map_some]
  have hold : ∀ id p, (s.merge canonicalId fallbackId (mergeData canonical fallback steamId)).player?
      id = some p → (id = canonicalId ∧ p.identity = (serverInstanceId, row.identityKey)) ∨
        (id ≠ fallbackId ∧ s.player? id = some p) := by
    intro id p hp
    rw [player?_merge] at hp
    split at hp
    case isTrue     => nomatch hp
    case isFalse he =>
      split at hp
      case isFalse     => exact .inr ⟨he, hp⟩
      case isTrue he' =>
        subst he'
        rw [hc, Option.map_some] at hp
        exact .inl ⟨rfl, Option.some.inj hp ▸ hci⟩
  -- A row that the entry does not take up is neither of the two.
  have hfree : ∀ id p, s.player? id = some p → ¬row.Takes serverInstanceId p →
      id ≠ fallbackId ∧ id ≠ canonicalId := by
    intro id p hp ht
    constructor
    case left =>
      intro he
      cases (he ▸ hp).symm.trans hf
      exact ht (.inr hfi)
    case right =>
      intro he
      cases (he ▸ hp).symm.trans hc
      exact ht (.inl hci)
  constructor
  case keyed     => exact h.merge
  case farewells => rfl
  case gone =>
    intro _ id p hp hi
    cases hold id p hp
    case inl hp => exact ne_fallbackKey hn (congrArg Prod.snd (hp.right.symm.trans hi))
    case inr hp => exact hp.left (h.unique _ _ _ _ hp.right hf (hi.trans hfi.symm))
  case others =>
    intro id p ht
    constructor
    case mp =>
      intro hp
      cases hold id p hp
      case inl hp => exact absurd (.inl hp.right) ht
      case inr hp => exact hp.right
    case mpr =>
      intro hp
      have ⟨hf', hc'⟩ := hfree id p hp ht
      rw [player?_merge, if_neg hf', if_neg hc', hp]
  case kept =>
    intro k id p hp ht ho
    rw [openAt_merge hne (hfree id p hp ht).left, ho, Bool.true_or]
  case moved =>
    intro k id p hp ht ho
    refine ⟨canonicalId, _, hnew, hci, ?_⟩
    rw [openAt_merge hne hne]
    cases ht
    case inl hi =>
      cases h.unique _ _ _ _ hp hc (hi.trans hci.symm)
      rw [ho, Bool.true_or]
    case inr hi =>
      cases h.unique _ _ _ _ hp hf (hi.trans hfi.symm)
      simp [ho]

-- The rows that come together in a reconciliation.
theorem gathers_reconcile (h : Keyed s) (hk : row.identityKey.Names row.name) :
    Gathers serverInstanceId row s
      (s.reconcile serverInstanceId row.identityKey row.name steamId) := by
  have hkeyed : Keyed (s.reconcile serverInstanceId row.identityKey row.name steamId) :=
    h.reconcile hk
  rw [Store.reconcile] at hkeyed ⊢
  cases hn : row.identityKey.isName
  case true =>
    refine gathers_self h (by simp [hn]) fun id p _ ht => ?_
    have he : row.identityKey = fallbackKey row.name := by
      refine hk.resolve_left fun hu => ?_
      cases he : row.identityKey <;> simp [he, IdentityKey.uuid?, IdentityKey.isName] at hu hn
    exact ht.elim (fun hi => hi) fun hi => he ▸ hi
  case false =>
    rw [if_neg (by simp [hn])] at hkeyed ⊢
    cases hf : s.keyed? serverInstanceId (fallbackKey row.name)
    case none =>
      exact gathers_self h (fun _ _ _ hp => not_keyed hf hp) fun _ _ hp ht =>
        ht.resolve_right (not_keyed hf hp)
    case some e =>
      cases hc : s.keyed? serverInstanceId row.identityKey
      case none =>
        simp only [hf, hc] at hkeyed
        exact gathers_promote h hn hkeyed hf hc
      case some e' => exact gathers_merge h hn hf hc

end

-- The sessions of the same players, of which more may be open.
theorem Gathers.more (h : Gathers serverInstanceId row s t) (hp : s'.players = t.players)
    (hs : ∀ k id, t.openAt k id = true → s'.openAt k id = true) (hf : s'.farewells = t.farewells) :
    Gathers serverInstanceId row s s' := by
  have he : ∀ id, s'.player? id = t.player? id := fun id => by rw [Store.player?, hp, Store.player?]
  constructor
  case keyed     => exact h.keyed.congr hp
  case gone      => exact fun hn id p hp => h.gone hn id p (he id ▸ hp)
  case others    => exact fun id p ht => he id ▸ h.others id p ht
  case kept      => exact fun k id p hp ht ho => hs k id (h.kept k id p hp ht ho)
  case farewells => exact hf.trans h.farewells
  case moved =>
    intro k id p hp ht ho
    obtain ⟨id', p', hp', hi, ho⟩ := h.moved k id p hp ht ho
    exact ⟨id', p', (he id').trans hp', hi, hs k id' ho⟩

-- The entry has taken up its rows, and it has a row that is online.
structure Seats (serverInstanceId : ServerId) (row : PlayerRosterRow) (s s' : Store) : Prop extends
    Gathers serverInstanceId row s s' where
  seat : ∃ id p, s'.player? id = some p ∧ p.identity = (serverInstanceId, row.identityKey) ∧
    p.online = true

theorem Seats.more (h : Seats serverInstanceId row s t) (hp : s'.players = t.players)
    (hs : ∀ k id, t.openAt k id = true → s'.openAt k id = true) (hf : s'.farewells = t.farewells) :
    Seats serverInstanceId row s s' where
  toGathers := h.toGathers.more hp hs hf
  seat      := by
    have ⟨id, p, hp', h⟩ := h.seat
    exact ⟨id, p, by rw [Store.player?, hp]; exact hp', h⟩

theorem Gathers.update {data : PlayerData} (h : Gathers serverInstanceId row s t)
    (hk : row.identityKey.Names row.name)
    (hp : t.keyed? serverInstanceId row.identityKey = some (id, p)) (hd : data.identityKey = none)
    (hn : data.name = some row.name) (ho : data.online = some true) :
    Seats serverInstanceId row s (t.update id data) := by
  have ⟨hp, hi⟩ := identity_of_keyed? hp
  have hp' : (t.update id data).player? id = some (data.apply p) := by
    rw [player?_update, if_pos rfl, hp, Option.map_some]
  have hi' : (data.apply p).identity = (serverInstanceId, row.identityKey) := by
    rw [← hi]
    simp [Player.identity, PlayerData.apply, hd]
  refine { toGathers := h.seat ?_ hp' hi' (fun id' he => ?_) (fun q hq => ?_) (fun _ _ ho => ho) rfl,
           seat      := ⟨id, _, hp', hi', by simp [PlayerData.apply, ho]⟩ }
  case refine_1 =>
    refine h.keyed.update hd fun q name hq hname => ?_
    cases hp.symm.trans hq
    cases hn.symm.trans hname
    have hkey : p.identityKey = row.identityKey := congrArg Prod.snd hi
    rwa [hkey]
  case refine_2 => rw [player?_update, if_neg (Ne.symm he)]
  case refine_3 => exact Option.some.inj (hp.symm.trans hq) ▸ hi

theorem Gathers.create {new : Player} (h : Gathers serverInstanceId row s t)
    (hk : row.identityKey.Names row.name) (hc : t.keyed? serverInstanceId row.identityKey = none)
    (hi : new.identity = (serverInstanceId, row.identityKey)) (hn : new.name = row.name)
    (ho : new.online = true) : Seats serverInstanceId row s (t.create new) := by
  have hp : (t.create new).player? t.players.length = some new := by rw [player?_create, if_pos rfl]
  refine { toGathers := h.seat ?_ hp hi (fun id' he => ?_) (fun q hq => ?_) (fun _ _ ho => ho) rfl,
           seat      := ⟨_, new, hp, hi, ho⟩ }
  case refine_1 =>
    refine h.keyed.create (not_identity_of_none hc hi) ?_
    have hkey : new.identityKey = row.identityKey := congrArg Prod.snd hi
    rwa [hkey, hn]
  case refine_2 => rw [player?_create, if_neg he]
  case refine_3 => exact absurd (player?_lt hq) (Nat.lt_irrefl _)

section

variable {α : Type} {orgId : OrgId} {serverInstanceName : String} {now : Time}

theorem Seats.wp_behaves {p : Service α} (h : Seats serverInstanceId row s t) (hp : Behaves p) :
    wp (under roster .none) (returns (Seats serverInstanceId row s)) p t :=
  wp_returns_mono (hp t) fun _ hq =>
    h.more hq.players (fun _ _ ho => openAt_congr hq.sessions ▸ ho) hq.farewells

theorem Seats.wp_openSession {existing : Option Player} (h : Seats serverInstanceId row s t) :
    wp (under roster .none) (returns (Seats serverInstanceId row s)) (openSession existing id now) t := by
  rw [openSession]
  split
  case isTrue  => exact h
  case isFalse => exact wp_last rfl (h.more rfl (fun _ _ => openAt_append rfl) rfl) fun _ _ => False.elim

theorem wp_applyRow_seats (h : Keyed s) (hk : row.identityKey.Names row.name) :
    wp (under roster .none) (returns (Seats serverInstanceId row s))
      (applyRow orgId serverInstanceId serverInstanceName now row) s := by
  rw [applyRow]
  apply wp_bind.mpr
  apply wp_reconcileNameFallback
  have hg : Gathers serverInstanceId row s
    (s.reconcile serverInstanceId row.identityKey row.name row.steamId) := gathers_reconcile h hk
  refine wp_step rfl ?_ fun _ _ => False.elim
  have hrest : ∀ existing id p t, Seats serverInstanceId row s t →
      wp (under roster .none) (returns (Seats serverInstanceId row s)) (do
        openSession existing id now
        welcome orgId serverInstanceId existing (.ofRow id p)
        connect orgId serverInstanceId serverInstanceName existing id p.name row.identityKey.uuid?
        let projected := projectedLifetime now p
        ignoreErrors (evaluatePlaytime orgId serverInstanceId
          { TriggerPlayer.ofRow id p with lifetimeSeconds := projected }
          ((existing.map (·.lifetimeSeconds)).getD 0) projected)) t := by
    intro existing id p t ht
    refine wp_bind_returns ht.wp_openSession fun _ t ht => ht.wp_behaves ?_
    exact behaves_welcome.then fun _ => behaves_connect.then fun _ => behaves_evaluatePlaytime
  refine Books.wp_upsert (fun id p hp => hrest _ _ _ _ ?_) fun hn => hrest _ _ _ _ ?_
  case refine_1 => exact hg.update hk hp rfl rfl rfl
  case refine_2 => exact hg.create hk hn rfl rfl rfl

end

end

-- The entries of a roster have proper keys, and no two have the same name.
structure Sound (rows : List PlayerRosterRow) : Prop where
  names    : ∀ row ∈ rows, row.identityKey.Names row.name
  distinct : ∀ row ∈ rows, ∀ row' ∈ rows,
    Naming.toLowerCase row.name = Naming.toLowerCase row'.name → row = row'

-- What has been done when some entries are left to do.
structure Seated (serverInstanceId : ServerId) (rows : List PlayerRosterRow) (s : Store)
    (todo : List PlayerRosterRow) (t : Store) : Prop where
  sub       : todo ⊆ rows
  keyed     : Keyed t
  online    : ∀ row ∈ rows, row ∈ todo ∨ ∃ id p, t.player? id = some p ∧
    p.identity = (serverInstanceId, row.identityKey) ∧ p.online = true
  gone      : ∀ row ∈ rows, row.identityKey.isName = false → row ∈ todo ∨
    ∀ id p, t.player? id = some p → p.identity ≠ (serverInstanceId, fallbackKey row.name)
  others    : ∀ id p, (∀ row ∈ rows, ¬row.Takes serverInstanceId p) →
    (t.player? id = some p ↔ s.player? id = some p)
  sessions  : ∀ row ∈ rows, ∀ id p k, s.player? id = some p → row.Takes serverInstanceId p →
    s.openAt k id = true → (row ∈ todo ∧ t.player? id = some p ∧ t.openAt k id = true) ∨
      ∃ id' p', t.player? id' = some p' ∧ p'.identity = (serverInstanceId, row.identityKey) ∧
        t.openAt k id' = true
  farewells : t.farewells = s.farewells

section

variable {rows todo : List PlayerRosterRow} {s t t' : Store} {serverInstanceId : ServerId}
  {row row' : PlayerRosterRow} {p : Player} {orgId : OrgId} {serverInstanceName : String} {now : Time}

theorem fallbackKey_inj {name name' : String} (h : fallbackKey name = fallbackKey name') :
    Naming.toLowerCase name = Naming.toLowerCase name' :=
  IdentityKey.name.inj h

theorem IdentityKey.Names.of_isName {key : IdentityKey} {name : String} (h : key.Names name)
    (hn : key.isName = true) : key = fallbackKey name := by
  refine h.resolve_left fun hu => ?_
  cases key <;> simp [uuid?, isName] at hu hn

-- Entries that take up the same row have the same key.
theorem Sound.key_eq (h : Sound rows) (hr : row ∈ rows) (hr' : row' ∈ rows)
    (ht : row.Takes serverInstanceId p) (ht' : row'.Takes serverInstanceId p) :
    row.identityKey = row'.identityKey := by
  have hname : fallbackKey row.name = fallbackKey row'.name → row.identityKey = row'.identityKey :=
    fun he => h.distinct row hr row' hr' (fallbackKey_inj he) ▸ rfl
  have hfb : ∀ {row name}, row ∈ rows → row.identityKey = fallbackKey name →
      fallbackKey row.name = fallbackKey name :=
    fun hr he => ((h.names _ hr).of_isName (he ▸ rfl)).symm.trans he
  cases ht <;> cases ht'
  case inl.inl hi hi' => exact congrArg Prod.snd (hi.symm.trans hi')
  case inl.inr hi hi' => exact hname (hfb hr (congrArg Prod.snd (hi.symm.trans hi')))
  case inr.inl hi hi' => exact hname (hfb hr' (congrArg Prod.snd (hi'.symm.trans hi))).symm
  case inr.inr hi hi' => exact hname (congrArg Prod.snd (hi.symm.trans hi'))

theorem Seated.step (hs : Sound rows) (h : Seated serverInstanceId rows s (row :: todo) t)
    (hx : Seats serverInstanceId row t t') : Seated serverInstanceId rows s todo t' := by
  have ⟨hrow, hsub⟩ := List.cons_subset.mp h.sub
  constructor
  case sub       => exact hsub
  case keyed     => exact hx.keyed
  case farewells => exact hx.farewells.trans h.farewells
  case others    => exact fun id p hn => (hx.others id p (hn row hrow)).trans (h.others id p hn)
  case online =>
    intro r hr
    have hseat : r.identityKey = row.identityKey → ∃ id p, t'.player? id = some p ∧
        p.identity = (serverInstanceId, r.identityKey) ∧ p.online = true := fun he => he ▸ hx.seat
    rcases h.online r hr with hm | ⟨id, p, hp, hi, ho⟩
    case inl =>
      cases List.mem_cons.mp hm
      case inl he => exact .inr (hseat (he ▸ rfl))
      case inr hm => exact .inl hm
    case inr =>
      refine .inr ?_
      by_cases ht : row.Takes serverInstanceId p
      case pos => exact hseat (hs.key_eq hr hrow (.inl hi) ht)
      case neg => exact ⟨id, p, (hx.others id p ht).mpr hp, hi, ho⟩
  case gone =>
    intro r hr hn
    have hgone : r = row ∨ (∀ id p, t.player? id = some p →
        p.identity ≠ (serverInstanceId, fallbackKey r.name)) →
        ∀ id p, t'.player? id = some p → p.identity ≠ (serverInstanceId, fallbackKey r.name) := by
      rintro hg id p hp hi
      by_cases ht : row.Takes serverInstanceId p
      case pos =>
        have he := hs.key_eq hr hrow (.inr hi) ht
        cases ht
        case inl hi' => exact ne_fallbackKey hn (he.trans (congrArg Prod.snd (hi'.symm.trans hi)))
        case inr hi' => exact hx.gone (he ▸ hn) id p hp hi'
      case neg =>
        cases hg
        case inl he => exact ht (.inr (he ▸ hi))
        case inr hg => exact hg id p ((hx.others id p ht).mp hp) hi
    cases h.gone r hr hn
    case inr hg => exact .inr (hgone (.inr hg))
    case inl hm =>
      cases List.mem_cons.mp hm
      case inl he => exact .inr (hgone (.inl he))
      case inr hm => exact .inl hm
  case sessions =>
    intro r hr id p k hp ht ho
    -- What the entry takes up, it keeps under the key of the other entry as well.
    have hmoved : ∀ id p, t.player? id = some p → r.Takes serverInstanceId p →
        row.Takes serverInstanceId p → t.openAt k id = true →
        ∃ id' p', t'.player? id' = some p' ∧ p'.identity = (serverInstanceId, r.identityKey) ∧
          t'.openAt k id' = true := by
      intro id p hp ht htrow ho
      rw [hs.key_eq hr hrow ht htrow]
      exact hx.moved k id p hp htrow ho
    rcases h.sessions r hr id p k hp ht ho with ⟨hm, hp, ho⟩ | ⟨id', p', hp', hi', ho'⟩
    case inl =>
      by_cases htrow : row.Takes serverInstanceId p
      case pos => exact .inr (hmoved id p hp ht htrow ho)
      case neg =>
        refine .inl ⟨(List.mem_cons.mp hm).resolve_left fun he => htrow (he ▸ ht), ?_, ?_⟩
        case refine_1 => exact (hx.others id p htrow).mpr hp
        case refine_2 => exact hx.kept k id p hp htrow ho
    case inr =>
      refine .inr ?_
      by_cases htrow : row.Takes serverInstanceId p'
      case pos => exact hmoved id' p' hp' (.inl hi') htrow ho'
      case neg => exact ⟨id', p', (hx.others id' p' htrow).mpr hp', hi', hx.kept k id' p' hp' htrow ho'⟩

-- All entries have been seated.
theorem wp_rows (h : Keyed s) (hs : Sound rows) :
    wp (under roster .none) (returns (Seated serverInstanceId rows s []))
      (forEach (applyRow orgId serverInstanceId serverInstanceName now) rows) s := by
  have hstep : ∀ row todo t, Seated serverInstanceId rows s (row :: todo) t →
      wp (under roster .none) (returns (Seated serverInstanceId rows s todo))
        (applyRow orgId serverInstanceId serverInstanceName now row) t := by
    intro row todo t ht
    have hrow := ht.sub List.mem_cons_self
    exact wp_returns_mono (wp_applyRow_seats ht.keyed (hs.names row hrow)) fun _ hx => ht.step hs hx
  refine wp_forEach hstep ?_
  constructor
  case sub       => exact fun _ hr => hr
  case keyed     => exact h
  case farewells => rfl
  case others    => exact fun _ _ _ => Iff.rfl
  case online    => exact fun _ hr => .inl hr
  case gone      => exact fun _ hr _ => .inl hr
  case sessions  => exact fun _ hr _ _ _ hp _ ho => .inl ⟨hr, hp, ho⟩

end

section

variable {s t t' : Store} {serverInstanceId : ServerId} {id : PlayerId} {p : Player} {orgId : OrgId}
  {serverInstanceName : String} {now endedAt : Time} {duration : Nat} {data : PlayerData} {k : Nat}
  {missing todo : List (PlayerId × Player)} {farewell : Player → Notice} {e : PlayerId × Player}

theorem wp_applyMissing (hp : s.player? id = some p) :
    wp (under roster .none)
      (returns (Departs (p.farewell orgId serverInstanceId serverInstanceName now) id s))
      (applyMissing orgId serverInstanceId serverInstanceName now (id, p)) s := by
  rw [applyMissing]
  have hx : ∀ (data : PlayerData) (endedAt : Time) (duration : Nat), ∃ data' : PlayerData,
      data'.online = some false ∧ exec (.transaction (sessionEnd id data endedAt duration)) s =
        (.ok (), s.logout id data' endedAt duration) := by
    intro data endedAt duration
    refine ⟨{ data with
      online                  := some false
      currentSessionStartedAt := some none
      lastLogoutAt            := some endedAt
      lifetimeSeconds         := duration }, rfl, ?_⟩
    simp only [exec, sessionEnd, List.foldlM, Write.exec, hp]
    rfl
  obtain ⟨data, ho, hx⟩ := hx {} (if p.lastSeenAt < now then p.lastSeenAt else now)
    (secondsBetween p.currentSessionStartedAt (if p.lastSeenAt < now then p.lastSeenAt else now))
  refine wp_step hx ?_ fun _ _ => False.elim
  refine wp_bind_returns (behaves_evaluatePlaytime _) fun _ t hq => ?_
  refine wp_handle.mpr <| wp_last rfl ?_ fun _ _ => False.elim
  have he : ∀ id', t.player? id' = (s.update id data).player? id' := fun _ => hq.toBeside.player?
  constructor
  case offline =>
    intro p' hp'
    change t.player? id = some p' at hp'
    rw [he, player?_update, if_pos rfl, hp, Option.map_some] at hp'
    cases hp'
    simp [PlayerData.apply, ho]
  case others =>
    intro id' hn
    change t.player? id' = _
    rw [he, player?_update, if_neg (Ne.symm hn)]
  case sessions =>
    intro k id' hn hopen
    change t.openAt k id' = true
    rw [openAt_congr hq.sessions, openAt_logout hn, hopen]
  case farewells =>
    change List.filter _ (t.notices ++ _) = _
    rw [List.filter_append]
    exact congrArg (· ++ _) hq.farewells

-- All players who are missing have left.
theorem wp_left (hd : (missing.map Prod.fst).Nodup) (hm : ∀ e ∈ missing, s.player? e.1 = some e.2) :
    wp (under roster .none)
      (returns (Left (Player.farewell orgId serverInstanceId serverInstanceName now) missing s []))
      (forEach (applyMissing orgId serverInstanceId serverInstanceName now) missing) s := by
  refine wp_forEach (fun e todo t ht => ?_) ?_
  case refine_1 =>
    have hp := ht.waiting e List.mem_cons_self
    exact wp_returns_mono (wp_applyMissing hp) fun _ hx => ht.step hx
  case refine_2 =>
    constructor
    case distinct  => exact hd
    case sub       => exact fun _ he => he
    case waiting   => exact hm
    case offline   => exact fun _ he => .inl he
    case others    => exact fun _ _ => rfl
    case sessions  => exact fun _ _ _ ho => ho
    case farewells => exact ⟨[], (List.append_nil _).symm, nofun, fun _ he => .inl he⟩

end

-- What the synchronisation with a roster does to the players of a server.
structure Synced (farewell : Player → Notice) (serverInstanceId : ServerId)
    (rows : List PlayerRosterRow) (s s' : Store) : Prop where
  online    : ∀ row ∈ rows, ∃ id p, s'.OnlineAt serverInstanceId id p ∧ p.identityKey = row.identityKey
  listed    : ∀ id p, s'.OnlineAt serverInstanceId id p → p.identityKey ∈ rows.map (·.identityKey)
  unique    : ∀ id id' p p', s'.OnlineAt serverInstanceId id p → s'.OnlineAt serverInstanceId id' p' →
    p.identityKey = p'.identityKey → id = id'
  gone      : ∀ row ∈ rows, row.identityKey.isName = false →
    ∀ id p, s'.OnlineAt serverInstanceId id p → p.identityKey ≠ fallbackKey row.name
  sessions  : ∀ row ∈ rows, ∀ id p k, s.player? id = some p → row.Takes serverInstanceId p →
    s.openAt k id = true → ∃ id' p', s'.OnlineAt serverInstanceId id' p' ∧
      p'.identityKey = row.identityKey ∧ s'.openAt k id' = true
  farewells : ∃ new, s'.farewells = s.farewells ++ new ∧ ∀ notice, notice ∈ new ↔
    ∃ id p, s.OnlineAt serverInstanceId id p ∧ (∀ row ∈ rows, ¬row.Takes serverInstanceId p) ∧
      notice = farewell p

section

variable {rows : List PlayerRosterRow} {s t u s' : Store} {serverInstanceId : ServerId}
  {row : PlayerRosterRow} {p : Player} {id : PlayerId} {farewell : Player → Notice} {orgId : OrgId}

theorem takes_iff : row.Takes serverInstanceId p ↔ p.serverInstanceId = serverInstanceId ∧
    (p.identityKey = row.identityKey ∨ p.identityKey = fallbackKey row.name) := by
  simp only [PlayerRosterRow.Takes, Player.identity, Prod.mk.injEq, and_or_left]

-- Nobody takes up a row with a key that is not on the roster.
theorem Seated.not_takes (h : Seated serverInstanceId rows s [] t) (hs : Sound rows)
    (hp : t.player? id = some p) (hk : p.identityKey ∉ rows.map (·.identityKey)) :
    ∀ row ∈ rows, ¬row.Takes serverInstanceId p := by
  intro row hr ht
  have hkey : p.identityKey ≠ row.identityKey := fun he => hk (he ▸ List.mem_map_of_mem hr)
  have ⟨hserver, ht⟩ := takes_iff.mp ht
  have hname := ht.resolve_left hkey
  cases hn : row.identityKey.isName
  case true  => exact hkey (hname.trans ((hs.names row hr).of_isName hn).symm)
  case false =>
    have hg := (h.gone row hr hn).resolve_left List.not_mem_nil
    exact hg id p hp (by rw [Player.identity, hserver, hname])

-- The entries are seated, and then those leave who are missing.
theorem Seated.synced (h : Seated serverInstanceId rows s [] t) (hs : Sound rows)
    (hl : Left farewell (t.missing serverInstanceId rows) t [] u) (hq : Quietly u s') :
    Synced farewell serverInstanceId rows s s' := by
  have hon : ∀ {id p}, s'.OnlineAt serverInstanceId id p ↔
      t.OnlineAt serverInstanceId id p ∧ p.identityKey ∈ rows.map (·.identityKey) := by
    intro id p
    rw [Store.OnlineAt, hq.toBeside.player?]
    exact hl.onlineAt
  have hseat : ∀ {id p row}, row ∈ rows → t.player? id = some p → p.online = true →
      p.identity = (serverInstanceId, row.identityKey) →
        s'.OnlineAt serverInstanceId id p ∧ p.identityKey = row.identityKey := by
    intro id p row hr hp ho hi
    have hk : p.identityKey = row.identityKey := congrArg Prod.snd hi
    exact ⟨hon.mpr ⟨⟨hp, congrArg Prod.fst hi, ho⟩, hk ▸ List.mem_map_of_mem hr⟩, hk⟩
  have hid : ∀ {id p}, t.OnlineAt serverInstanceId id p → p.identity = (serverInstanceId, p.identityKey) :=
    fun hp => by rw [Player.identity, hp.right.left]
  constructor
  case online =>
    intro row hr
    obtain ⟨id, p, hp, hi, ho⟩ := (h.online row hr).resolve_left List.not_mem_nil
    exact ⟨id, p, hseat hr hp ho hi⟩
  case listed => exact fun id p hp => (hon.mp hp).right
  case unique =>
    intro id id' p p' hp hp' hk
    obtain ⟨hp, _⟩ := hon.mp hp
    obtain ⟨hp', _⟩ := hon.mp hp'
    exact h.keyed.unique id id' p p' hp.left hp'.left ((hid hp).trans (hk ▸ (hid hp').symm))
  case gone =>
    intro row hr hn id p hp hk
    obtain ⟨hp, _⟩ := hon.mp hp
    have hg := (h.gone row hr hn).resolve_left List.not_mem_nil
    exact hg id p hp.left (hk ▸ hid hp)
  case sessions =>
    intro row hr id p k hp ht ho
    obtain ⟨id', p', hp', hi', ho'⟩ := (h.sessions row hr id p k hp ht ho).resolve_left fun hm =>
      List.not_mem_nil hm.left
    obtain ⟨id₁, p₁, hp₁, hi₁, hon₁⟩ := (h.online row hr).resolve_left List.not_mem_nil
    obtain rfl := h.keyed.unique id' id₁ p' p₁ hp' hp₁ (hi'.trans hi₁.symm)
    cases hp'.symm.trans hp₁
    obtain ⟨hon', hk'⟩ := hseat hr hp' hon₁ hi'
    refine ⟨id', p', hon', hk', ?_⟩
    rw [openAt_congr hq.sessions]
    refine hl.sessions k id' (fun hm => ?_) ho'
    obtain ⟨⟨_, q⟩, hmem, he⟩ := List.mem_map.mp hm
    subst he
    obtain ⟨hq, hk⟩ := mem_missing.mp hmem
    cases hq.left.symm.trans hp'
    exact hk (hk' ▸ List.mem_map_of_mem hr)
  case farewells =>
    obtain ⟨new, he, hfrom, hto⟩ := hl.farewells
    refine ⟨new, by rw [hq.farewells, he, h.farewells], fun notice => ⟨fun hn => ?_, ?_⟩⟩
    case refine_1 =>
      obtain ⟨⟨id, p⟩, hm, he⟩ := hfrom notice hn
      obtain ⟨hp, hk⟩ := mem_missing.mp hm
      have hnot := h.not_takes hs hp.left hk
      exact ⟨id, p, ⟨(h.others id p hnot).mp hp.left, hp.right⟩, hnot, he⟩
    case refine_2 =>
      rintro ⟨id, p, hp, hnot, rfl⟩
      have hp' : t.OnlineAt serverInstanceId id p := ⟨(h.others id p hnot).mpr hp.left, hp.right⟩
      have hm : (id, p) ∈ t.missing serverInstanceId rows := by
        refine mem_missing.mpr ⟨hp', fun hk => ?_⟩
        obtain ⟨row, hr, he⟩ := List.mem_map.mp hk
        exact hnot row hr (takes_iff.mpr ⟨hp'.right.left, .inl he.symm⟩)
      exact (hto _ hm).resolve_left List.not_mem_nil

theorem wp_applyPlayerRoster_synced (h : Keyed s) (hs : Sound rows) :
    wp (under roster .none)
      (returns (Synced (Player.farewell orgId serverInstanceId
        ((s.servers[serverInstanceId]?.map (·.name)).getD "Minecraft Server") s.clock)
        serverInstanceId rows s))
      (applyPlayerRoster orgId serverInstanceId rows) s := by
  rw [applyPlayerRoster]
  refine wp_step rfl ?_ fun _ _ => False.elim
  refine wp_step rfl ?_ fun _ _ => False.elim
  refine wp_bind_returns (wp_rows h hs) fun _ t ht => ?_
  refine wp_step rfl ?_ fun _ _ => False.elim
  change wp _ _ (forEach _ (t.missing serverInstanceId rows) >>= _) t
  have hd : ((t.missing serverInstanceId rows).map Prod.fst).Nodup :=
    nodup_liveEntries.sublist (List.filter_sublist.map _)
  have hm : ∀ e ∈ t.missing serverInstanceId rows, t.player? e.1 = some e.2 :=
    fun _ he => (mem_missing.mp he).left.left
  refine wp_bind_returns (wp_left hd hm) fun _ u hu => ?_
  refine wp_returns_mono (Behaves.then (behaves_notify rfl) (fun _ => ?_) u) fun _ hq => ht.synced hs hu hq
  exact behaves_onTriggers onTriggers_retryPendingItemGrants

theorem run_applyPlayerRoster_synced (orgId : OrgId) (serverInstanceId : ServerId) (h : Keyed s)
    (hs : Sound rows) :
    Synced (Player.farewell orgId serverInstanceId
        ((s.servers[serverInstanceId]?.map (·.name)).getD "Minecraft Server") s.clock)
      serverInstanceId rows s ((applyPlayerRoster orgId serverInstanceId rows).run [] s).state :=
  (wp_run_nil (wp_applyPlayerRoster_synced h hs)).state

end

-- An entry without a UUID has the name of no player who is online under a UUID, other entries' players
-- apart.
def Recognizes (serverInstanceId : ServerId) (rows : List PlayerRosterRow) (s : Store) : Prop :=
  ∀ row ∈ rows, row.identityKey.isName = true → ∀ id p, s.OnlineAt serverInstanceId id p →
    Naming.toLowerCase p.name = Naming.toLowerCase row.name → p.identityKey ∈ rows.map (·.identityKey)

section

variable {rows : List PlayerRosterRow} {s s' : Store} {serverInstanceId : ServerId}
  {row : PlayerRosterRow} {p : Player} {id : PlayerId} {orgId : OrgId} {serverInstanceName : String}
  {now : Time}

theorem isTo_farewell_of_name (hn : row.identityKey.isName = true)
    (h : Naming.toLowerCase p.name = Naming.toLowerCase row.name) :
    (p.farewell orgId serverInstanceId serverInstanceName now).IsTo row := by
  cases hk : row.identityKey <;> simp [hk, IdentityKey.isName] at hn
  simpa [Player.farewell, Notice.IsTo, hk, IdentityKey.uuid?] using h

-- A farewell that is to an entry is to a row that the entry takes up, unless it has only the name of
-- the entry.
theorem takes_of_isTo (hs : Keyed s) (hp : s.OnlineAt serverInstanceId id p)
    (hr : row.identityKey.Names row.name)
    (h : (p.farewell orgId serverInstanceId serverInstanceName now).IsTo row) :
    row.Takes serverInstanceId p ∨
      (row.identityKey.isName = true ∧ Naming.toLowerCase p.name = Naming.toLowerCase row.name) := by
  simp only [Player.farewell, Notice.IsTo] at h
  cases hn : row.identityKey.isName
  case true =>
    have hu : row.identityKey.uuid? = none := by rw [hr.of_isName hn]; rfl
    rw [hu] at h
    exact .inr ⟨rfl, h⟩
  case false =>
    refine .inl (takes_iff.mpr ⟨hp.right.left, ?_⟩)
    have hu := hr.resolve_right (ne_fallbackKey hn)
    have ⟨u, hu⟩ := Option.isSome_iff_exists.mp hu
    rw [hu] at h
    cases hpu : p.identityKey.uuid? <;> rw [hpu] at h
    case some u' =>
      refine .inl ?_
      cases hk : row.identityKey <;> cases hpk : p.identityKey <;>
        simp_all [IdentityKey.uuid?]
    case none =>
      have hk := (hs.named id p hp.left).resolve_left (by simp [hpu])
      exact .inr (hk.trans (congrArg IdentityKey.name h))

theorem Synced.mirrors (h : Synced (Player.farewell orgId serverInstanceId serverInstanceName now)
      serverInstanceId rows s s') (hk : Keyed s) (hs : Sound rows)
    (hr : Recognizes serverInstanceId rows s) : Mirrors serverInstanceId rows s s' := by
  constructor
  case others =>
    intro id p hp
    have ⟨row, hrow, he⟩ := List.mem_map.mp (h.listed id p hp)
    exact ⟨row, hrow, .inl he.symm⟩
  case each =>
    intro row hrow
    have ⟨id, p, hp, hkey⟩ := h.online row hrow
    refine ⟨id, ⟨p, hp, .inl hkey⟩, ?_⟩
    rintro id' ⟨p', hp', hof⟩
    refine h.unique id' id p' p hp' hp (Eq.trans ?_ hkey.symm)
    rcases hof with he | he | ⟨_, _, hnot⟩
    case inl     => exact he
    case inr.inr => exact absurd (h.listed id' p' hp') hnot
    case inr.inl =>
      cases hn : row.identityKey.isName
      case true  => exact he.trans ((hs.names row hrow).of_isName hn).symm
      case false => exact absurd he (h.gone row hrow hn id' p' hp')
  case kept =>
    intro row hrow id p hp hof
    constructor
    case left =>
      intro k ho
      have ht : row.Takes serverInstanceId p := by
        refine takes_iff.mpr ⟨hp.right.left, ?_⟩
        rcases hof with he | he | ⟨hn, hname, hnot⟩
        case inl     => exact .inl he
        case inr.inl => exact .inr he
        case inr.inr => exact absurd (hr row hrow hn id p hp hname) hnot
      have ⟨id', p', hp', hkey, ho'⟩ := h.sessions row hrow id p k hp.left ht ho
      exact ⟨id', p', hp', .inl hkey, ho'⟩
    case right =>
      have ⟨new, he, hnew⟩ := h.farewells
      refine ⟨new, he, fun notice hn hto => ?_⟩
      obtain ⟨id', p', hp', hnot, rfl⟩ := (hnew notice).mp hn
      rcases takes_of_isTo hk hp' (hs.names row hrow) hto with ht | ⟨hn, hname⟩
      case inl => exact hnot row hrow ht
      case inr =>
        have ⟨row', hrow', he⟩ := List.mem_map.mp (hr row hrow hn id' p' hp' hname)
        exact hnot row' hrow' (takes_iff.mpr ⟨hp'.right.left, .inl he.symm⟩)

-- A player who is online under a UUID gets a farewell if the roster has only the name.
theorem Synced.recognizes (h : Synced (Player.farewell orgId serverInstanceId serverInstanceName now)
      serverInstanceId rows s s') (hk : Keyed s) (hs : Sound rows)
    (hm : Mirrors serverInstanceId rows s s') : Recognizes serverInstanceId rows s := by
  intro row hrow hn id p hp hname
  by_contra hnot
  have ⟨new, he, hnew⟩ := h.farewells
  have hfree : ∀ row' ∈ rows, ¬row'.Takes serverInstanceId p := by
    intro row' hrow' ht
    have hne : p.identityKey ≠ row'.identityKey := fun he => hnot (he ▸ List.mem_map_of_mem hrow')
    have he := (takes_iff.mp ht).right.resolve_left hne
    have hself := (hk.named id p hp.left).of_isName (he ▸ rfl)
    have hrowk := (hs.names row hrow).of_isName hn
    have hkey : p.identityKey = row.identityKey :=
      hself.trans ((congrArg IdentityKey.name hname).trans hrowk.symm)
    exact hnot (hkey ▸ List.mem_map_of_mem hrow)
  have hmem := (hnew _).mpr ⟨id, p, hp, hfree, rfl⟩
  have ⟨_, new', he', hnone⟩ := hm.kept row hrow id p hp (.inr (.inr ⟨hn, hname, hnot⟩))
  have hnew' : new' = new := List.append_cancel_left (he'.symm.trans he)
  exact hnone _ (hnew' ▸ hmem) (isTo_farewell_of_name hn hname)

variable {showNumber : Number → String} {result : Option Json}

theorem names_rosterRow {item : Json} (h : rosterRow showNumber item = some row) :
    row.identityKey.Names row.name := by
  cases item
  case obj fields =>
    simp only [rosterRow] at h
    split at h
    case isTrue  => nomatch h
    case isFalse => exact Option.some.inj h ▸ names_minecraftRow
  all_goals nomatch h

theorem sound_parseMinecraftRoster (h : parseMinecraftRoster showNumber result = some rows)
    (hd : (rows.map fun row => Naming.toLowerCase row.name).Nodup) : Sound rows where
  distinct := fun _ hr _ hr' he => List.inj_on_of_nodup_map hd hr hr' he
  names row hr := by
    have ⟨l, _, he⟩ := Option.map_eq_some_iff.mp h
    have ⟨item, _, hi⟩ := List.mem_filterMap.mp (List.mem_of_mem_take (he ▸ hr))
    exact names_rosterRow hi

end

-- The players mirror the roster just if its entries without a UUID are recognized. Two names that
-- differ only in case are the same name.
theorem roster_mirrors_iff {showNumber : Number → String} {result : Option Json}
    {rows : List PlayerRosterRow} {orgId : OrgId} {serverInstanceId : ServerId} {s : Store}
    {ms : List Message} (h : s.players = [])
    (hr : parseMinecraftRoster showNumber result = some rows)
    (hd : (rows.map fun row => Naming.toLowerCase row.name).Nodup) :
    Mirrors serverInstanceId rows (messages.run s ms)
      ((applyPlayerRoster orgId serverInstanceId rows).run [] (messages.run s ms)).state ↔
    Recognizes serverInstanceId rows (messages.run s ms) := by
  have hk : Keyed (messages.run s ms) := keyed_run h
  have hs := sound_parseMinecraftRoster hr hd
  have hx := run_applyPlayerRoster_synced orgId serverInstanceId hk hs
  constructor
  case mp  => exact hx.recognizes hk hs
  case mpr => exact hx.mirrors hk hs

end

attribute [local instance] Naming.ascii

-- `String(n)` for an integer
def showInteger : Number → String
  | .fin q => toString q.floor
  | _      => ""

-- Agents list the names of the players. A UUID may come with a name.
def listed (uuid : Option String) : Option Json :=
  some (.obj [("players", .arr [.obj (("name", .str "Steve") :: (uuid.map fun u => ("uuid", .str u)).toList)])])

-- Steve is known by name, and the roster tells the UUID.
theorem roster_mirrors_iff_joined :
    Mirrors 0 [minecraftRow "Steve" (some uuidOfSteve)] (messages.run .empty [.chunk 0 joinedLine])
      ((applyPlayerRoster 0 0 [minecraftRow "Steve" (some uuidOfSteve)]).run []
        (messages.run .empty [.chunk 0 joinedLine])).state := by
  have hr : parseMinecraftRoster showInteger (listed uuidOfSteve) =
    some [minecraftRow "Steve" (some uuidOfSteve)] := by decide +kernel
  refine (roster_mirrors_iff rfl hr (by decide +kernel)).mpr fun row hm hn => ?_
  rw [List.mem_singleton.mp hm] at hn
  nomatch hn

-- The log tells the UUID of Steve, who joins. The roster has only the name, and Steve goes offline under
-- the UUID with a farewell.
theorem roster_unrecognized :
    let rows := [minecraftRow "Steve" none]
    let s := messages.run .empty [.chunk 0 (uuidLine ++ joinedLine)]
    parseMinecraftRoster showInteger (listed none) = some rows ∧
    (rows.map fun row => Naming.toLowerCase row.name).Nodup ∧
    ¬Mirrors 0 rows s ((applyPlayerRoster 0 0 rows).run [] s).state := by
  intro rows s
  have hr : parseMinecraftRoster showInteger (listed none) = some rows := by decide +kernel
  have hd : (rows.map fun row => Naming.toLowerCase row.name).Nodup := by decide +kernel
  refine ⟨hr, hd, fun hm => ?_⟩
  have hk : Keyed s := keyed_run rfl
  have hs := sound_parseMinecraftRoster hr hd
  have hx := (run_applyPlayerRoster_synced 0 0 hk hs).recognizes hk hs hm
  have hp : (s.player? 0).map (fun p => (p.serverInstanceId, p.online, p.name, p.identityKey)) =
    some (0, true, "Steve", .uuid uuidOfSteve) := by decide +kernel
  have ⟨p, hp, he⟩ := Option.map_eq_some_iff.mp hp
  simp only [Prod.mk.injEq] at he
  have ⟨hserver, ho, hname, hkey⟩ := he
  have hlisted := hx _ List.mem_cons_self rfl 0 p ⟨hp, hserver, ho⟩ (congrArg Naming.toLowerCase hname)
  rw [hkey] at hlisted
  exact absurd hlisted (by decide +kernel)

end Players
