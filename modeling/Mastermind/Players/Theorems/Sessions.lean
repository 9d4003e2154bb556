import Mastermind.Players.Theorems.View

open Effects Js Jobs Triggers

namespace Players

-- The open sessions of a player.
def Row.isOpen (id : PlayerId) (r : Row PlayerSession) : Bool :=
  r.live && r.data.playerId = id && r.data.endedAt.isNone

def Store.openSessions (s : Store) (id : PlayerId) : Nat :=
  s.sessions.countP (·.isOpen id)

-- The time that the ended sessions of a player have lasted.
def Row.seconds (id : PlayerId) (r : Row PlayerSession) : Nat :=
  if r.live ∧ r.data.playerId = id ∧ r.data.endedAt.isSome then r.data.durationSeconds.getD 0 else 0

def Store.endedSeconds (s : Store) (id : PlayerId) : Nat :=
  (s.sessions.map (·.seconds id)).sum

-- A player is online just if a session has started, and just if one session is open. The lifetime is
-- that of the ended sessions.
structure Balanced (s : Store) (id : PlayerId) (p : Player) : Prop where
  started  : p.currentSessionStartedAt.isSome = p.online
  opened   : s.openSessions id = if p.online then 1 else 0
  lifetime : p.lifetimeSeconds = s.endedSeconds id

-- The keys of the players are unique, sessions belong to players, and every player is balanced.
structure Books (s : Store) : Prop where
  unique   : ∀ id id' p p', s.player? id = some p → s.player? id' = some p' →
    p.identity = p'.identity → id = id'
  owned    : ∀ r ∈ s.sessions, r.live = true → r.data.playerId < s.players.length
  balanced : ∀ id p, s.player? id = some p → Balanced s id p

variable {s s' : Store} {id id' : PlayerId} {p q : Player} {data : PlayerData} {now endedAt : Time}
  {duration : Nat} {serverInstanceId : ServerId} {key : IdentityKey} {name : String}
  {steamId : Option String}

theorem Beside.player? (h : Beside s s') : s'.player? id = s.player? id := by
  rw [Store.player?, h.players, Store.player?]

theorem Beside.keyed? (h : Beside s s') :
    s'.keyed? serverInstanceId key = s.keyed? serverInstanceId key := by
  rw [Store.keyed?, h.players, Store.keyed?]

theorem Books.congr (h : Books s) (hb : Beside s s') : Books s' where
  unique id id' p p' hp hp' := h.unique id id' p p' (hb.player? ▸ hp) (hb.player? ▸ hp')
  owned := by
    rw [hb.sessions, hb.players]
    exact h.owned
  balanced id p hp := by
    have ⟨hs, ho, hl⟩ := h.balanced id p (hb.player? ▸ hp)
    refine ⟨hs, ?_, ?_⟩
    case refine_1 => rwa [Store.openSessions, hb.sessions]
    case refine_2 => rwa [Store.endedSeconds, hb.sessions]

-- One player changes, or is new. Others may be deleted.
theorem Books.change (id : PlayerId) (p : Player) (h : Books s) (hp : s'.player? id = some p)
    (hb : Balanced s' id p)
    (hn : ∀ r ∈ s'.sessions, r.live = true → r.data.playerId < s'.players.length)
    (ho : ∀ id' q, id' ≠ id → s'.player? id' = some q →
      s.player? id' = some q ∧ q.identity ≠ p.identity ∧
        s'.openSessions id' = s.openSessions id' ∧ s'.endedSeconds id' = s.endedSeconds id') :
    Books s' where
  owned := hn
  unique id₁ id₂ p₁ p₂ h₁ h₂ hi := by
    by_cases he₁ : id₁ = id
    case pos =>
      subst he₁
      obtain rfl := Option.some.inj (h₁.symm.trans hp)
      exact Decidable.byContradiction fun he => (ho id₂ p₂ (Ne.symm he) h₂).2.1 hi.symm
    case neg =>
      have ⟨h₁', hn, _⟩ := ho id₁ p₁ he₁ h₁
      by_cases he₂ : id₂ = id
      case neg => exact h.unique _ _ _ _ h₁' (ho id₂ p₂ he₂ h₂).1 hi
      case pos =>
        subst he₂
        obtain rfl := Option.some.inj (h₂.symm.trans hp)
        exact absurd hi hn
  balanced id' q hq := by
    by_cases he : id' = id
    case pos =>
      subst he
      exact Option.some.inj (hp.symm.trans hq) ▸ hb
    case neg =>
      have ⟨hq, _, hopen, hend⟩ := ho id' q he hq
      have hb := h.balanced id' q hq
      exact ⟨hb.started, hopen.trans hb.opened, hb.lifetime.trans (by rw [hend])⟩

-- The data of a player is updated.
def Store.update (s : Store) (id : PlayerId) (data : PlayerData) : Store :=
  { s with players := s.players.modify id (Row.modify data.apply) }

def Store.create (s : Store) (p : Player) : Store :=
  { s with players := s.players ++ [⟨p, true⟩] }

-- A session is opened.
def Store.open (s : Store) (id : PlayerId) (now : Time) : Store :=
  { s with sessions := s.sessions ++ [⟨{ playerId := id, startedAt := now }, true⟩] }

-- The open sessions of a player are ended.
def Store.logout (s : Store) (id : PlayerId) (data : PlayerData) (endedAt : Time) (duration : Nat) :
    Store :=
  { s.update id data with
    sessions := s.sessions.map fun r =>
      if r.live ∧ r.data.playerId = id ∧ r.data.endedAt = none then
        r.modify (.finish endedAt duration)
      else r }

theorem player?_update :
    (s.update id data).player? id' = if id = id' then (s.player? id').map data.apply else s.player? id' :=
  live?_modify

theorem player?_create :
    (s.create p).player? id = if id = s.players.length then some p else s.player? id :=
  live?_append

theorem openSessions_open :
    (s.open id now).openSessions id' = s.openSessions id' + if id = id' then 1 else 0 := by
  simp only [Store.openSessions, Store.open, List.countP_append, List.countP_singleton, Row.isOpen]
  by_cases h : id = id' <;> simp [h]

theorem endedSeconds_open : (s.open id now).endedSeconds id' = s.endedSeconds id' := by
  simp [Store.endedSeconds, Store.open, Row.seconds]

section

variable {t : Table (Row PlayerSession)} {f : Row PlayerSession → Row PlayerSession}

theorem countP_congr (h : ∀ r, (f r).isOpen id = r.isOpen id) :
    (t.map f).countP (·.isOpen id) = t.countP (·.isOpen id) := by
  simp only [List.countP_map, Function.comp_def, h]

theorem sum_congr (h : ∀ r, (f r).seconds id = r.seconds id) :
    ((t.map f).map (·.seconds id)).sum = (t.map (·.seconds id)).sum := by
  simp only [List.map_map, Function.comp_def, h]

end

theorem openSessions_logout :
    (s.logout id data endedAt duration).openSessions id' =
      if id = id' then 0 else s.openSessions id' := by
  by_cases h : id = id'
  case pos =>
    subst h
    simp only [Store.openSessions, Store.logout, if_true, List.countP_eq_zero, List.mem_map]
    rintro _ ⟨r, _, rfl⟩
    split
    case isTrue hr  => simp [Row.isOpen, Row.modify, PlayerSession.finish]
    case isFalse hr => simpa [Row.isOpen, ← Option.ne_none_iff_isSome] using hr
  case neg =>
    rw [if_neg h]
    refine countP_congr fun r => ?_
    split
    case isTrue hr  => simp [Row.isOpen, Row.modify, PlayerSession.finish, hr, h]
    case isFalse hr => rfl

theorem endedSeconds_logout :
    (s.logout id data endedAt duration).endedSeconds id' =
      s.endedSeconds id' + if id = id' then s.openSessions id' * duration else 0 := by
  by_cases h : id = id'
  case neg =>
    rw [if_neg h]
    refine sum_congr fun r => ?_
    split
    case isTrue hr  => simp [Row.seconds, Row.modify, PlayerSession.finish, hr, h]
    case isFalse hr => rfl
  case pos =>
    subst h
    simp only [Store.endedSeconds, Store.openSessions, Store.logout, if_true]
    induction s.sessions
    case nil => simp
    case cons r t hi =>
      simp only [List.map_cons, List.sum_cons, List.countP_cons]
      rw [hi]
      split
      case isTrue hr =>
        simp [Row.seconds, Row.isOpen, Row.modify, PlayerSession.finish, hr]
        ring
      case isFalse hr =>
        have ho : r.isOpen id = false := by simpa [Row.isOpen, ← Option.ne_none_iff_isSome] using hr
        simp only [ho, Bool.false_eq_true, if_false]
        ring

section

variable {canonicalId fallbackId : PlayerId} {canonical fallback : Player} {r : Row PlayerSession}

-- What becomes of a session when the fallback row is merged into the canonical one.
def Row.moved (canonicalId fallbackId : PlayerId) (r : Row PlayerSession) : Row PlayerSession :=
  let r := if r.live ∧ r.data.playerId = fallbackId then r.modify (.moveTo canonicalId) else r
  if r.data.playerId = fallbackId then r.kill else r

theorem sessions_merge :
    (s.merge canonicalId fallbackId data).sessions = s.sessions.map (·.moved canonicalId fallbackId) :=
  List.map_map

theorem moved_of_ne (h : r.data.playerId ≠ fallbackId) : r.moved canonicalId fallbackId = r := by
  simp [Row.moved, h]

theorem moved_of_dead (h : r.live = false) : (r.moved canonicalId fallbackId).live = false := by
  by_cases hk : r.data.playerId = fallbackId <;> simp [Row.moved, Row.kill, h, hk]

theorem moved_of_eq (hn : canonicalId ≠ fallbackId) (hl : r.live = true)
    (h : r.data.playerId = fallbackId) :
    r.moved canonicalId fallbackId = r.modify (.moveTo canonicalId) := by
  simp [Row.moved, Row.modify, PlayerSession.moveTo, hl, h, hn]

theorem isOpen_moved (hn : canonicalId ≠ fallbackId) (hi : id ≠ fallbackId) :
    ((r.moved canonicalId fallbackId).isOpen id).toNat =
      (r.isOpen id).toNat + if id = canonicalId then (r.isOpen fallbackId).toNat else 0 := by
  cases hl : r.live
  case false => simp [Row.isOpen, moved_of_dead hl, hl]
  case true  =>
    by_cases hk : r.data.playerId = fallbackId
    case neg => simp [moved_of_ne hk, Row.isOpen, hk]
    case pos =>
      rw [moved_of_eq hn hl hk]
      by_cases hc : id = canonicalId
      case pos => simp [Row.isOpen, Row.modify, PlayerSession.moveTo, hl, hk, hc, hn.symm]
      case neg => simp [Row.isOpen, Row.modify, PlayerSession.moveTo, hl, hk, hc, hi.symm, Ne.symm hc]

theorem seconds_moved (hn : canonicalId ≠ fallbackId) (hi : id ≠ fallbackId) :
    (r.moved canonicalId fallbackId).seconds id =
      r.seconds id + if id = canonicalId then r.seconds fallbackId else 0 := by
  cases hl : r.live
  case false => simp [Row.seconds, moved_of_dead hl, hl]
  case true  =>
    by_cases hk : r.data.playerId = fallbackId
    case neg => simp [moved_of_ne hk, Row.seconds, hk]
    case pos =>
      rw [moved_of_eq hn hl hk]
      by_cases hc : id = canonicalId
      case pos => simp [Row.seconds, Row.modify, PlayerSession.moveTo, hl, hk, hc, hn.symm]
      case neg => simp [Row.seconds, Row.modify, PlayerSession.moveTo, hl, hk, hc, hi.symm, Ne.symm hc]

theorem openSessions_merge (hn : canonicalId ≠ fallbackId) (hi : id ≠ fallbackId) :
    (s.merge canonicalId fallbackId data).openSessions id =
      s.openSessions id + if id = canonicalId then s.openSessions fallbackId else 0 := by
  simp only [Store.openSessions, sessions_merge]
  induction s.sessions
  case nil => simp
  case cons r t hi' =>
    have h := isOpen_moved (r := r) hn hi
    have ht (b : Bool) : b.toNat = if b then 1 else 0 := Bool.cond_eq_ite b 1 0
    simp only [List.map_cons, List.countP_cons, hi', ht] at h ⊢
    by_cases hc : id = canonicalId <;> simp only [hc, if_true, if_false] at h ⊢ <;> omega

theorem endedSeconds_merge (hn : canonicalId ≠ fallbackId) (hi : id ≠ fallbackId) :
    (s.merge canonicalId fallbackId data).endedSeconds id =
      s.endedSeconds id + if id = canonicalId then s.endedSeconds fallbackId else 0 := by
  simp only [Store.endedSeconds, sessions_merge]
  induction s.sessions
  case nil => simp
  case cons r t hi' =>
    have h := seconds_moved (r := r) hn hi
    simp only [List.map_cons, List.sum_cons, hi', h]
    by_cases hc : id = canonicalId <;> simp only [hc, if_true, if_false] <;> omega

end

theorem Books.owned_update (h : Books s) :
    ∀ r ∈ (s.update id data).sessions, r.live = true → r.data.playerId < (s.update id data).players.length := by
  rw [Store.update, List.length_modify]
  exact h.owned

-- A player is updated without a change of what the sessions tell.
theorem Books.update (data : PlayerData) (h : Books s) (hp : s.player? id = some p)
    (ho : (data.apply p).online = p.online)
    (hs : (data.apply p).currentSessionStartedAt.isSome = p.currentSessionStartedAt.isSome)
    (hl : data.lifetimeSeconds = 0)
    (hi : ∀ id' q, id' ≠ id → s.player? id' = some q → q.identity ≠ (data.apply p).identity) :
    Books (s.update id data) := by
  have ⟨hs', ho', hl'⟩ := h.balanced id p hp
  refine h.change id (data.apply p) ?_ ?_ h.owned_update fun id' q hn hq => ?_
  case refine_1 => rw [player?_update, if_pos rfl, hp, Option.map_some]
  case refine_2 =>
    refine ⟨hs.trans (hs'.trans ho.symm), ho'.trans (by rw [ho]), ?_⟩
    exact (show p.lifetimeSeconds + _ = _ by rw [hl, Int.add_zero]).trans hl'
  case refine_3 =>
    rw [player?_update, if_neg (Ne.symm hn)] at hq
    exact ⟨hq, hi id' q hn hq, rfl, rfl⟩

-- Updates do not change who a player is if they do not set a key.
theorem Books.identity_ne (h : Books s) (hp : s.player? id = some p) (hd : data.identityKey = none) :
    ∀ id' q, id' ≠ id → s.player? id' = some q → q.identity ≠ (data.apply p).identity := by
  intro id' q hn hq hi
  have hi : q.identity = p.identity := by
    rw [hi, Player.identity, Player.identity]
    simp [PlayerData.apply, hd]
  exact hn (h.unique _ _ _ _ hq hp hi)

theorem Books.owned_open (h : Books s) (hp : id < s'.players.length)
    (hl : s.players.length ≤ s'.players.length) (hs : s'.sessions = s.sessions) :
    ∀ r ∈ (s'.open id now).sessions, r.live = true → r.data.playerId < (s'.open id now).players.length := by
  simp only [Store.open, hs, List.mem_append, List.mem_singleton]
  rintro r (hr | rfl) hl'
  case inl => exact Nat.lt_of_lt_of_le (h.owned r hr hl') hl
  case inr => exact hp

theorem player?_lt (hp : s.player? id = some p) : id < s.players.length :=
  (List.getElem?_eq_some_iff.mp (live?_eq_some.mp hp)).choose

-- A player comes online.
theorem Books.login (h : Books s) (hp : s.player? id = some p) (hoff : p.online = false)
    (hd : data.identityKey = none) (ho : data.online = some true)
    (hs : data.currentSessionStartedAt = some (some now)) (hl : data.lifetimeSeconds = 0) :
    Books ((s.update id data).open id now) := by
  have ⟨_, ho', hl'⟩ := h.balanced id p hp
  refine h.change id (data.apply p) ?_ ?_ ?_ fun id' q hn hq => ?_
  case refine_1 =>
    change (s.update id data).player? id = _
    rw [player?_update, if_pos rfl, hp, Option.map_some]
  case refine_2 =>
    refine ⟨by simp [PlayerData.apply, hs, ho], ?_, ?_⟩
    case refine_1 =>
      have ho' : (s.update id data).openSessions id = 0 := ho'.trans (by rw [hoff]; rfl)
      rw [openSessions_open, ho']
      simp [PlayerData.apply, ho]
    case refine_2 =>
      rw [endedSeconds_open]
      exact (show p.lifetimeSeconds + _ = _ by rw [hl, Int.add_zero]).trans hl'
  case refine_3 =>
    have hlen : (s.update id data).players.length = s.players.length := List.length_modify ..
    exact h.owned_open (hlen ▸ player?_lt hp) hlen.ge rfl
  case refine_4 =>
    change (s.update id data).player? id' = some q at hq
    rw [player?_update, if_neg (Ne.symm hn)] at hq
    refine ⟨hq, h.identity_ne hp hd id' q hn hq, ?_, endedSeconds_open⟩
    rw [openSessions_open, if_neg (Ne.symm hn)]
    rfl

section

variable {new : Player}

-- A new player has no sessions.
theorem Books.fresh (h : Books s) :
    s.openSessions s.players.length = 0 ∧ s.endedSeconds s.players.length = 0 := by
  constructor
  case left =>
    refine List.countP_eq_zero.mpr fun r hr ho => ?_
    simp only [Row.isOpen, Bool.and_eq_true, decide_eq_true_eq] at ho
    exact Nat.ne_of_lt (h.owned r hr ho.1.1) ho.1.2
  case right =>
    refine List.sum_eq_zero fun n hn => ?_
    obtain ⟨r, hr, rfl⟩ := List.mem_map.mp hn
    refine if_neg fun ⟨hl, hk, _⟩ => Nat.ne_of_lt (h.owned r hr hl) hk

theorem Books.create (h : Books s) (hk : ∀ id q, s.player? id = some q → q.identity ≠ new.identity)
    (ho : new.online = false) (hs : new.currentSessionStartedAt = none)
    (hl : new.lifetimeSeconds = 0) : Books (s.create new) := by
  have ⟨ho', hl'⟩ := h.fresh
  refine h.change s.players.length new ?_ ?_ ?_ fun id' q hn hq => ?_
  case refine_1 => rw [player?_create, if_pos rfl]
  case refine_2 =>
    refine ⟨by rw [hs, ho]; rfl, ?_, ?_⟩
    case refine_1 => rw [ho]; exact ho'
    case refine_2 =>
      rw [hl]
      exact (congrArg Int.ofNat hl').symm
  case refine_3 =>
    intro r hr hlive
    simp only [Store.create, List.length_append, List.length_singleton] at hr ⊢
    exact Nat.lt_succ_of_lt (h.owned r hr hlive)
  case refine_4 =>
    rw [player?_create, if_neg hn] at hq
    exact ⟨hq, hk id' q hq, rfl, rfl⟩

theorem Books.create_open (h : Books s)
    (hk : ∀ id q, s.player? id = some q → q.identity ≠ new.identity) (ho : new.online = true)
    (hs : new.currentSessionStartedAt.isSome = true) (hl : new.lifetimeSeconds = 0) :
    Books ((s.create new).open s.players.length now) := by
  have ⟨ho', hl'⟩ := h.fresh
  refine h.change s.players.length new ?_ ?_ ?_ fun id' q hn hq => ?_
  case refine_1 =>
    change (s.create new).player? _ = _
    rw [player?_create, if_pos rfl]
  case refine_2 =>
    have ho' : (s.create new).openSessions s.players.length = 0 := ho'
    refine ⟨hs.trans ho.symm, ?_, ?_⟩
    case refine_1 => rw [openSessions_open, ho', ho]; simp
    case refine_2 =>
      rw [hl, endedSeconds_open]
      exact (congrArg Int.ofNat hl').symm
  case refine_3 =>
    have hlt : s.players.length < (s.create new).players.length := by simp [Store.create]
    exact h.owned_open hlt hlt.le rfl
  case refine_4 =>
    change (s.create new).player? id' = some q at hq
    rw [player?_create, if_neg hn] at hq
    refine ⟨hq, hk id' q hq, ?_, endedSeconds_open⟩
    rw [openSessions_open, if_neg (Ne.symm hn)]
    rfl

end

-- A player goes offline.
theorem Books.logout (h : Books s) (hp : s.player? id = some p) (hon : p.online = true)
    (hd : data.identityKey = none) (ho : data.online = some false)
    (hs : data.currentSessionStartedAt = some none) (hl : data.lifetimeSeconds = duration) :
    Books (s.logout id data endedAt duration) := by
  have ⟨_, ho', hl'⟩ := h.balanced id p hp
  refine h.change id (data.apply p) ?_ ?_ ?_ fun id' q hn hq => ?_
  case refine_1 =>
    change (s.update id data).player? id = _
    rw [player?_update, if_pos rfl, hp, Option.map_some]
  case refine_2 =>
    refine ⟨by simp [PlayerData.apply, hs, ho], ?_, ?_⟩
    case refine_1 =>
      rw [openSessions_logout, if_pos rfl]
      simp [PlayerData.apply, ho]
    case refine_2 =>
      rw [endedSeconds_logout, if_pos rfl, ho', hon]
      simp [PlayerData.apply, hl, hl']
  case refine_3 =>
    intro r hr hlive
    have hlen : (s.logout id data endedAt duration).players.length = s.players.length :=
      List.length_modify ..
    rw [hlen]
    obtain ⟨r, hm, rfl⟩ := List.mem_map.mp hr
    by_cases hf : r.live ∧ r.data.playerId = id ∧ r.data.endedAt = none
    case pos =>
      rw [if_pos hf]
      exact h.owned r hm hf.left
    case neg =>
      rw [if_neg hf] at hlive ⊢
      exact h.owned r hm hlive
  case refine_4 =>
    change (s.update id data).player? id' = some q at hq
    rw [player?_update, if_neg (Ne.symm hn)] at hq
    refine ⟨hq, h.identity_ne hp hd id' q hn hq, ?_, ?_⟩
    case refine_1 => rw [openSessions_logout, if_neg (Ne.symm hn)]
    case refine_2 => rw [endedSeconds_logout, if_neg (Ne.symm hn), Nat.add_zero]

-- No two players with the key and the name are online at once.
def Store.Apart [Naming] (s : Store) (serverInstanceId : ServerId) (key : IdentityKey) (name : String) : Prop :=
  key.isName = true ∨ ∀ canonical ∈ s.keyed? serverInstanceId key,
    ∀ fallback ∈ s.keyed? serverInstanceId (fallbackKey name),
      canonical.2.online = true → fallback.2.online = false

instance [Naming] : Decidable (s.Apart serverInstanceId key name) :=
  inferInstanceAs (Decidable (_ ∨ _))

section

variable {canonicalId fallbackId : PlayerId} {canonical fallback : Player}

-- Of two players one is left, with the sessions of both.
theorem Books.merge (h : Books s) (hc : s.player? canonicalId = some canonical)
    (hf : s.player? fallbackId = some fallback) (hn : canonicalId ≠ fallbackId)
    (ha : canonical.online = true → fallback.online = false) :
    Books (s.merge canonicalId fallbackId (mergeData canonical fallback steamId)) := by
  obtain ⟨hcs, hco, hcl⟩ := h.balanced _ _ hc
  obtain ⟨hfs, hfo, hfl⟩ := h.balanced _ _ hf
  refine h.change canonicalId ((mergeData canonical fallback steamId).apply canonical)
    ?_ ?_ ?_ fun id' q hid hq => ?_
  case refine_1 => rw [player?_merge, if_neg hn, if_pos rfl, hc, Option.map_some]
  case refine_2 =>
    refine ⟨?_, ?_, ?_⟩
    case refine_1 =>
      simp only [PlayerData.apply, mergeData, Option.getD_some]
      cases hc' : canonical.currentSessionStartedAt <;> cases hf' : fallback.currentSessionStartedAt <;>
        rw [hc'] at hcs <;> rw [hf'] at hfs <;> simp [← hcs, ← hfs]
    case refine_2 =>
      rw [openSessions_merge hn hn, if_pos rfl, hco, hfo]
      simp only [PlayerData.apply, mergeData, Option.getD_some]
      by_cases hc' : canonical.online = true
      case pos => simp [hc', ha hc']
      case neg => simp [hc']
    case refine_3 =>
      rw [endedSeconds_merge hn hn, if_pos rfl]
      simp [PlayerData.apply, mergeData, hcl, hfl]
  case refine_3 =>
    intro r hr hl
    have hlen : (s.merge canonicalId fallbackId (mergeData canonical fallback steamId)).players.length =
        s.players.length := by simp [Store.merge]
    rw [sessions_merge] at hr
    obtain ⟨r, hm, rfl⟩ := List.mem_map.mp hr
    rw [hlen]
    have hl' : r.live = true := by
      cases hd : r.live
      case false => exact moved_of_dead hd ▸ hl
      case true  => rfl
    by_cases hk : r.data.playerId = fallbackId
    case pos => rw [moved_of_eq hn hl' hk]; exact player?_lt hc
    case neg => rw [moved_of_ne hk]; exact h.owned r hm hl'
  case refine_4 =>
    rw [player?_merge, if_neg hid] at hq
    split at hq
    case isTrue => cases hq
    case isFalse hf' =>
      refine ⟨hq, h.identity_ne hc rfl id' q hid hq, ?_, ?_⟩
      case refine_1 => rw [openSessions_merge hn hf', if_neg hid, Nat.add_zero]
      case refine_2 => rw [endedSeconds_merge hn hf', if_neg hid, Nat.add_zero]

theorem Books.promote (h : Books s) (hf : s.player? fallbackId = some fallback)
    (hs : fallback.serverInstanceId = serverInstanceId) (hk : s.keyed? serverInstanceId key = none) :
    Books (s.promote fallbackId key steamId) := by
  refine h.update { identityKey := key, steamId := some steamId } hf rfl rfl rfl
    fun id' q _ hq hi => ?_
  have hi : q.identity = (serverInstanceId, key) := hs ▸ hi
  exact keyed?_none hk hq (congrArg Prod.fst hi) (congrArg Prod.snd hi)

theorem Books.reconcile [Naming] (h : Books s) (ha : s.Apart serverInstanceId key name) :
    Books (s.reconcile serverInstanceId key name steamId) := by
  rw [Store.reconcile]
  split
  case isTrue     => exact h
  case isFalse hk =>
    split
    case h_1 => exact h
    case h_2 fallbackId fallback hf hc =>
      obtain ⟨hp, hs, _⟩ := keyed?_some hf
      exact h.promote hp hs hc
    case h_3 fallbackId fallback canonicalId canonical hf hc =>
      have hn : key ≠ fallbackKey name := fun hn => hk (by simp [hn, fallbackKey, IdentityKey.isName])
      exact h.merge (keyed?_some hc).left (keyed?_some hf).left (keyed?_ne hn hc hf)
        (ha.resolve_left hk _ hc _ hf)

end

end Players
