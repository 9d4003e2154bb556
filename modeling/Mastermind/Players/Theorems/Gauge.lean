import Mastermind.Players.Evaluations
import Mastermind.Players.Theorems.View

open Effects Js Jobs Triggers

namespace Players

-- The event key of a fire that a trigger has created for a player.
def fireKey (k : TriggerId) (id : PlayerId) (r : Row TriggerFire) : Option String :=
  if r.live ∧ r.data.triggerId = k ∧ r.data.playerId = id then some r.data.eventKey else none

-- What the fires of a trigger for a player depend on: the trigger, the server and the lifetime of
-- the player, and the fires that there are.
structure Gauge where
  servers : Table ServerInstance
  rule    : Option Trigger
  row     : Option (Row (ServerId × Int))
  keys    : List String

def Store.gauge (s : Store) (k : TriggerId) (id : PlayerId) : Gauge where
  servers := s.servers
  rule    := s.triggers[k]?.map Trigger.rule
  row     := s.players[id]?.map (Row.map fun p => (p.serverInstanceId, p.lifetimeSeconds))
  keys    := (s.fires.map (fireKey k id)).filterMap fun key => key

def Write.Still (id : PlayerId) : Write → Prop
  | .updatePlayer id' data => id' = id → data.lifetimeSeconds = 0
  | .deletePlayer id'      => id' ≠ id
  | _                      => True

-- The commands that leave the gauge as it is.
def Still (k : TriggerId) (id : PlayerId) : Cmd → Prop
  | .upsertPlayer ..                   => False
  | .transaction writes                => ∀ w ∈ writes, w.Still id
  | .createFire triggerId playerId _ _ => ¬(triggerId = k ∧ playerId = id)
  | _                                  => True

variable {k : TriggerId} {id : PlayerId} {s s' : Store} {data : PlayerData}

theorem lifetime_apply (h : data.lifetimeSeconds = 0) (r : Row Player) :
    (r.modify data.apply).map (fun p => (p.serverInstanceId, p.lifetimeSeconds)) =
      r.map fun p => (p.serverInstanceId, p.lifetimeSeconds) := by
  simp [Row.modify, Row.map, PlayerData.apply, h]

-- A change of the row of another player, or one that does not show.
theorem gauge_modify {id' : PlayerId} {f : Row Player → Row Player}
    (h : id' = id → ∀ r, (f r).map (fun p => (p.serverInstanceId, p.lifetimeSeconds)) =
      r.map fun p => (p.serverInstanceId, p.lifetimeSeconds)) :
    Store.gauge { s with players := s.players.modify id' f } k id = s.gauge k id := by
  have hr : (s.players.modify id' f)[id]?.map
        (Row.map fun p => (p.serverInstanceId, p.lifetimeSeconds)) =
      s.players[id]?.map (Row.map fun p => (p.serverInstanceId, p.lifetimeSeconds)) := by
    rw [List.getElem?_modify]
    split
    case isFalse   => simp
    case isTrue hi => cases s.players[id]? <;> simp [h hi]
  rw [Store.gauge, hr, Store.gauge]

theorem gauge_fires {fires : Table (Row TriggerFire)}
    (h : fires.map (fireKey k id) = s.fires.map (fireKey k id)) :
    Store.gauge { s with fires } k id = s.gauge k id := by
  simp only [Store.gauge, h]

theorem Write.exec_still {w : Write} (h : w.Still id) (hx : w.exec s = some s') :
    s'.gauge k id = s.gauge k id := by
  cases w
  case moveSessions => cases hx; rfl
  case endSessions  => cases hx; rfl
  case updatePlayer id' data =>
    obtain ⟨_, _, rfl⟩ := Option.map_eq_some_iff.mp hx
    exact gauge_modify fun hi => lifetime_apply (h hi)
  case deletePlayer id' =>
    obtain ⟨_, _, rfl⟩ := Option.map_eq_some_iff.mp hx
    have hp : Store.gauge { s with players := s.players.modify id' Row.kill } k id = s.gauge k id :=
      gauge_modify fun hi => absurd hi h
    rw [← hp]
    refine gauge_fires (s := { s with players := s.players.modify id' Row.kill }) ?_
    refine map_map_of_eq fun r => ?_
    split
    case isFalse   => rfl
    case isTrue hr =>
      have hn : r.data.playerId ≠ id := by
        rw [hr]
        exact h
      simp [fireKey, Row.kill, hn]

theorem foldlM_still {ws : List Write} (h : ∀ w ∈ ws, w.Still id)
    (hx : ws.foldlM (fun s w => w.exec s) s = some s') : s'.gauge k id = s.gauge k id := by
  induction ws generalizing s
  case nil => cases hx; rfl
  case cons w ws hi =>
    rw [List.foldlM_cons] at hx
    obtain ⟨s₁, h₁, hx⟩ := Option.bind_eq_some_iff.mp hx
    rw [hi (fun w hw => h w (List.mem_cons_of_mem _ hw)) hx]
    exact w.exec_still (h w List.mem_cons_self) h₁

theorem fireKey_modify {f : TriggerFire → TriggerFire} (h : ∀ r, (f r).mark = r.mark)
    (r : Row TriggerFire) : fireKey k id (r.modify f) = fireKey k id r := by
  have hm := h r.data
  simp only [TriggerFire.mark, Prod.mk.injEq] at hm
  simp [fireKey, Row.modify, hm]

theorem exec_still [Naming] {c : Cmd} (h : Still k id c) : (exec c s).2.gauge k id = s.gauge k id := by
  cases c <;> try rfl
  case upsertPlayer => exact h.elim
  case transaction ws =>
    rw [exec]
    split
    case h_1 s' hx => exact foldlM_still h hx
    case h_2       => rfl
  case touchTrigger triggerId now =>
    rw [exec]
    split
    case isFalse => rfl
    case isTrue  =>
      simp only [Store.gauge, List.getElem?_modify]
      split
      case isFalse => simp
      case isTrue  => cases s.triggers[k]? <;> rfl
  case createFire =>
    rw [exec]
    split
    case isTrue  => rfl
    case isFalse =>
      have hn : ¬(_ ∧ _) := h
      simp [Store.gauge, fireKey, hn]
  case updateFire =>
    rw [exec]
    split
    case h_2 => rfl
    case h_1 => exact gauge_fires (map_modify (fireKey_modify fun _ => rfl))
  case resetStale =>
    refine gauge_fires (map_map_of_eq fun r => ?_)
    split
    case isTrue  => exact fireKey_modify (fun _ => rfl) r
    case isFalse => rfl
  case enqueueInternalJob =>
    rw [exec]
    split <;> rfl

theorem row_of_player {p : Player} (h : s.player? id = some p) :
    (s.gauge k id).row = some ⟨(p.serverInstanceId, p.lifetimeSeconds), true⟩ := by
  have h : s.players[id]? = some ⟨p, true⟩ := live?_eq_some.mp h
  simp [Store.gauge, h, Row.map]

theorem player_of_row {serverInstanceId : ServerId} {lifetime : Int}
    (h : (s.gauge k id).row = some ⟨(serverInstanceId, lifetime), true⟩) :
    ∃ p, s.player? id = some p ∧ p.serverInstanceId = serverInstanceId ∧
      p.lifetimeSeconds = lifetime := by
  obtain ⟨⟨p, live⟩, hp, he⟩ := Option.map_eq_some_iff.mp h
  cases he
  exact ⟨p, live?_eq_some.mpr hp, rfl, rfl⟩

theorem gauge_create {p : Player} :
    Store.gauge { s with players := s.players ++ [⟨p, true⟩] } k id =
      { s.gauge k id with
        row := if id = s.players.length then some ⟨(p.serverInstanceId, p.lifetimeSeconds), true⟩
          else (s.gauge k id).row } := by
  have hr : (s.players ++ [(⟨p, true⟩ : Row Player)])[id]? =
      if id = s.players.length then some ⟨p, true⟩ else s.players[id]? := by
    by_cases h : id < s.players.length
    case pos => rw [List.getElem?_append_left h, if_neg (Nat.ne_of_lt h)]
    case neg =>
      by_cases he : id = s.players.length
      case pos => simp [he]
      case neg =>
        rw [if_neg he, List.getElem?_eq_none (Nat.le_of_not_lt h)]
        apply List.getElem?_eq_none
        rw [List.length_append, List.length_singleton]
        exact Nat.lt_of_le_of_ne (Nat.le_of_not_lt h) (Ne.symm he)
  simp only [Store.gauge, hr]
  split <;> rfl

-- The session of the player ends.
theorem gauge_endSession [Naming] (data : PlayerData) (endedAt : Time) (duration : Nat)
    {serverInstanceId : ServerId} {lifetime : Int}
    (h : (s.gauge k id).row = some ⟨(serverInstanceId, lifetime), true⟩) :
    ∃ s', exec (.transaction (sessionEnd id data endedAt duration)) s = (.ok (), s') ∧
      s'.gauge k id =
        { s.gauge k id with row := some ⟨(serverInstanceId, lifetime + duration), true⟩ } := by
  obtain ⟨p, hp, rfl, rfl⟩ := player_of_row h
  refine ⟨_, by simp only [exec, sessionEnd, List.foldlM, Write.exec, hp]; rfl, ?_⟩
  have hr : s.players[id]? = some ⟨p, true⟩ := live?_eq_some.mp hp
  simp [Store.gauge, hr, Row.modify, Row.map, PlayerData.apply]

theorem fired?_isSome {eventKey : String} :
    (s.fired? k id eventKey).isSome = true ↔ eventKey ∈ (s.gauge k id).keys := by
  simp only [Store.fired?, List.find?_isSome, Prod.exists, mem_liveEntries, live?_eq_some,
    Bool.and_eq_true, decide_eq_true_eq, Store.gauge, List.mem_filterMap, List.mem_map]
  constructor
  case mp =>
    rintro ⟨fireId, f, hf, ⟨ht, hp⟩, hk⟩
    exact ⟨some eventKey, ⟨_, List.mem_of_getElem? hf, by simp [fireKey, ht, hp, hk]⟩, rfl⟩
  case mpr =>
    rintro ⟨_, ⟨⟨f, live⟩, hm, rfl⟩, hk⟩
    obtain ⟨fireId, hf⟩ := List.getElem?_of_mem hm
    obtain ⟨⟨hl, ht, hp⟩, he⟩ := Option.ite_none_right_eq_some.mp hk
    cases hl
    exact ⟨fireId, f, hf, ⟨ht, hp⟩, Option.some.inj he⟩

-- A fire is created for the player.
theorem gauge_createFire [Naming] {eventKey : String} (status : FireStatus)
    (h : eventKey ∉ (s.gauge k id).keys) : ∃ fireId s',
      exec (.createFire k id eventKey status) s = (.ok fireId, s') ∧
      s'.gauge k id = { s.gauge k id with keys := (s.gauge k id).keys ++ [eventKey] } := by
  have hn : ¬(s.fired? k id eventKey).isSome = true := fun hf => h (fired?_isSome.mp hf)
  refine ⟨_, _, if_neg hn, ?_⟩
  simp [Store.gauge, fireKey]

section

open Effects.Prog

-- The commands that leave the gauge as it is unless they merge the player's row.
def Calm (k : TriggerId) (id : PlayerId) (c : Cmd) : Prop :=
  c.merges id = false → Still k id c

theorem OnTriggers.still {K : TriggerId → PlayerId → String → Prop} {c : Cmd} (h : OnTriggers K c)
    (hk : ∀ eventKey, ¬K k id eventKey) : Still k id c := by
  cases c <;> first | exact h.elim | trivial | skip
  rintro ⟨rfl, rfl⟩
  exact hk _ h

variable [Naming] {K : TriggerId → PlayerId → String → Prop} {α : Type} {p : Service α}
  {orgId : OrgId} {serverInstanceId : ServerId} {serverInstanceName name : String} {key : IdentityKey}
  {steamId : Option String} {existing : Option Player} {now : Time} {id' : PlayerId}

theorem calm_send {c : Cmd} (h : Calm k id c) : Only (Calm k id) (send c) :=
  .perform h

theorem calm_onTriggers (h : Only (OnTriggers K) p) (hk : ∀ eventKey, ¬K k id eventKey) :
    Only (Calm k id) p :=
  h.mono fun _ hc _ => hc.still hk

theorem calm_ignoreErrors {p : Service Unit} (h : Only (Calm k id) p) :
    Only (Calm k id) (ignoreErrors p) :=
  .handle h fun _ => .pure

theorem calm_notify {notice : Notice} : Only (Calm k id) (ignoreErrors (send (.notify notice))) :=
  calm_ignoreErrors <| calm_send fun _ => trivial

-- Rows of other players are merged, or the row that stays gets another key.
theorem calm_reconcileNameFallback :
    Only (Calm k id) (reconcileNameFallback serverInstanceId key name steamId) := by
  refine .ite .pure (.bind (calm_send fun _ => trivial) fun found => ?_)
  cases found
  case none            => exact .pure
  case some fallback =>
    refine .bind (calm_send fun _ => trivial) fun found => ?_
    cases found
    case none =>
      refine calm_send fun _ w hw => ?_
      cases List.mem_singleton.mp hw
      exact fun _ => rfl
    case some canonical =>
      refine calm_send fun hm w hw => ?_
      simp only [Cmd.merges, mergeWrites, List.any_cons, Write.merges, Bool.or_eq_false_iff,
        decide_eq_false_iff_not] at hm
      simp only [mergeWrites, List.mem_cons, List.not_mem_nil, or_false] at hw
      obtain rfl | rfl | rfl := hw
      case inl         => trivial
      case inr.inl     => exact fun he => absurd he hm.left.right
      case inr.inr     => exact hm.left.left

theorem calm_openSession : Only (Calm k id) (openSession existing id' now) :=
  .ite .pure <| calm_send fun _ => trivial

theorem calm_connect {uuid : Option String} :
    Only (Calm k id) (connect orgId serverInstanceId serverInstanceName existing id' name uuid) :=
  .ite .pure <| .bind (calm_ignoreErrors <| calm_onTriggers (K := fun _ _ _ => False)
    onTriggers_retryPendingItemGrantsForPlayer fun _ => not_false) fun _ => calm_notify

theorem calm_endSession {data : PlayerData} {endedAt : Time} {duration : Nat} (h : id' ≠ id) :
    Only (Calm k id) (endSession id' data endedAt duration) := by
  refine calm_send fun _ w hw => ?_
  simp only [sessionEnd, List.mem_cons, List.not_mem_nil, or_false] at hw
  obtain rfl | rfl := hw
  case inl => exact fun he => absurd he h
  case inr => trivial

-- The command merges no row with that of the player.
def Solo (id : PlayerId) (c : Cmd) : Prop :=
  c.merges id = false

variable {g : Gauge}

theorem wp_still (h : Only (OnTriggers K) p) (hk : ∀ eventKey, ¬K k id eventKey)
    (hs : s.gauge k id = g) : wp (under roster .none) (fun _ s' => s'.gauge k id = g) p s :=
  h.wp_under (fun _ _ hc hs => (exec_still (hc.still hk)).trans hs) hs

theorem wp_calm (h : Only (Calm k id) p) (hs : s.gauge k id = g) :
    wp (obeying roster (Solo id)) (fun _ s' => s'.gauge k id = g) p s :=
  h.wp_obeying (fun _ _ hc hm hs => (exec_still (hc hm)).trans hs) hs

end

end Players
