import Mastermind.Players.Theorems.Evaluations
import Mastermind.Players.Theorems.Gauge
import Mastermind.Players.Theorems.Balance

open Effects Effects.Prog Js Jobs Triggers

namespace Players

-- An enabled playtime trigger of a server, whose action is valid.
structure Trigger.Rewards (t : Trigger) (servers : Table ServerInstance) (hours : PlaytimeConfig) :
    Prop where
  server    : servers[t.serverInstanceId]?.map (·.orgId) = some t.orgId
  enabled   : t.enabled = true
  eventType : t.eventType = TRIGGER_EVENT_PLAYTIME
  hours     : parsePlaytimeConfig (some t.eventConfig) = .ok hours
  action    : (parseGrantItemsActionConfig (some t.actionConfig)).isOk = true

variable {k : TriggerId} {id : PlayerId} {t t' : Trigger} {hours : PlaytimeConfig} {s : Store}
  {g : Gauge} {triggers : List (TriggerId × Trigger)} {player : TriggerPlayer} {orgId : OrgId}
  {serverInstanceId : ServerId} {previous next : Int} {key : Trigger → Option String}

theorem playtimeKey_eq (previous next : Int)
    (h : parsePlaytimeConfig (some t.eventConfig) = .ok hours) :
    playtimeKey previous next t =
      if crossedPlaytimeHours previous next hours then some (eventKeyForPlaytime hours)
      else none := by
  rw [playtimeKey, h]

-- The triggers that are found are those of the table.
theorem rule_of_found {p : TriggerId × Trigger → Bool} (hr : (s.gauge k id).rule = some t)
    (hm : (k, t') ∈ s.triggers.entries.filter p) : t'.rule = t ∧ p (k, t') = true := by
  obtain ⟨hm, hp⟩ := List.mem_filter.mp hm
  have hr : s.triggers[k]?.map Trigger.rule = some t := hr
  rw [Table.mem_entries.mp hm] at hr
  exact ⟨Option.some.inj hr, hp⟩

def Evaluation.reaches (id : PlayerId) (hours : PlaytimeConfig) (e : Evaluation) : Bool :=
  e.playerId = id && hours.val * 3600 ≤ e.nextLifetimeSeconds

-- A call was given a lifetime of at least so many hours.
def reached (id : PlayerId) (hours : PlaytimeConfig) (l : List Evaluation) : Bool :=
  l.any (·.reaches id hours)

-- The player is one of the server, or not known yet.
def Gauge.Home (g : Gauge) (serverInstanceId : ServerId) : Prop :=
  ∀ r ∈ g.row, r.live = true ∧ r.data.1 = serverInstanceId

structure Counted (t : Trigger) (hours : PlaytimeConfig) (g : Gauge) (b : Bool) : Prop where
  rule    : g.rule = some t
  rewards : t.Rewards g.servers hours
  keys    : g.Home t.serverInstanceId → g.keys = if b then [eventKeyForPlaytime hours] else []

-- The trigger has one fire for the player if a call has reached its threshold, and a lifetime does
-- not get there without a call.
structure Tracked (t : Trigger) (hours : PlaytimeConfig) (g : Gauge) (b : Bool) : Prop
    extends Counted t hours g b where
  lifetime : g.Home t.serverInstanceId → ∀ r ∈ g.row, hours.val * 3600 ≤ r.data.2 → b = true

abbrev TrackedIn (k : TriggerId) (id : PlayerId) (t : Trigger) (hours : PlaytimeConfig)
    (p : Store × List Evaluation) : Prop :=
  Tracked t hours (p.1.gauge k id) (reached id hours p.2)

variable {l l' : List Evaluation} {lifetime : Int} {s' : Store}

theorem Tracked.congr (h : TrackedIn k id t hours (s, l)) (hs : s'.gauge k id = s.gauge k id)
    (hl : reached id hours l' = reached id hours l) : TrackedIn k id t hours (s', l') := by
  rw [TrackedIn, hs, hl]
  exact h

theorem Gauge.home_iff (hr : g.row = some ⟨(serverInstanceId, lifetime), true⟩) :
    g.Home t.serverInstanceId ↔ serverInstanceId = t.serverInstanceId := by
  simp [Gauge.Home, hr]

theorem reached_snoc {e : Evaluation} :
    reached id hours (l ++ [e]) = (reached id hours l || e.reaches id hours) := by
  simp [reached]

-- The fires of a trigger for a player.
def Store.timesFired (s : Store) (k : TriggerId) (id : PlayerId) : Nat :=
  s.fires.countP fun r => r.live && r.data.triggerId = k && r.data.playerId = id

theorem timesFired_eq : s.timesFired k id = (s.gauge k id).keys.length := by
  simp only [Store.timesFired, Store.gauge, List.filterMap_map]
  rw [List.length_filterMap_eq_countP]
  apply List.countP_congr
  intro r _
  simp [fireKey, and_assoc]

theorem tracked_start (ht : s.triggers[k]? = some t) (hw : t.Rewards s.servers hours)
    (hf : s.timesFired k id = 0)
    (hl : ∀ p, s.player? id = some p → p.lifetimeSeconds < hours.val * 3600) :
    TrackedIn k id t.rule hours (s, []) := by
  have hr : t.rule.Rewards s.servers hours :=
    ⟨hw.server, hw.enabled, hw.eventType, hw.hours, hw.action⟩
  constructor
  case toCounted =>
    refine ⟨by simp [Store.gauge, ht], hr, fun _ => ?_⟩
    exact List.length_eq_zero_iff.mp (timesFired_eq.symm.trans hf)
  case lifetime  =>
    rintro hh ⟨⟨serverInstanceId, lifetime⟩, live⟩ hr hn
    obtain ⟨hlive, _⟩ := hh _ hr
    cases hlive
    obtain ⟨p, hp, _, rfl⟩ := player_of_row hr
    exact absurd (hl p hp) (Int.not_lt.mpr hn)

section

variable [Naming]

section

variable {eventKey : String}

-- The trigger fires for the player, unless it has done so.
theorem wp_fireOnce_new (hg : s.gauge k player.id = { g with keys := [] })
    (ha : (parseGrantItemsActionConfig (some t.actionConfig)).isOk = true) :
    wp (under roster .none) (fun _ s' => s'.gauge k player.id = { g with keys := [eventKey] })
      (fireOnce k t player eventKey) s := by
  have hn : eventKey ∉ (s.gauge k player.id).keys := by simp [hg]
  have hf : s.fired? k player.id eventKey = none :=
    Option.not_isSome_iff_eq_none.mp fun h => hn (fired?_isSome.mp h)
  refine wp_step rfl ?_ fun _ _ => False.elim
  rw [hf]
  simp only [enqueueGrantItems]
  cases hp : parseGrantItemsActionConfig (some t.actionConfig)
  case error => simp [hp, Except.isOk, Except.toBool] at ha
  case ok action =>
    obtain ⟨fireId, s₁, hx, hs⟩ :=
      gauge_createFire (if player.online then .queued else .pending) hn
    refine wp_bind.mpr (wp_handle.mpr (wp_step hx ?_ fun _ _ => False.elim))
    have hs : s₁.gauge k player.id = { g with keys := [eventKey] } := by
      rw [hs, hg]
      rfl
    exact wp_still (K := fun _ _ _ => False) onTriggers_giveItems (fun _ => not_false) hs

-- The trigger has fired for the player.
theorem wp_fireOnce_again (h : eventKey ∈ (s.gauge k player.id).keys) :
    wp (under roster .none) (fun _ s' => s'.gauge k player.id = s.gauge k player.id)
      (fireOnce k t player eventKey) s := by
  obtain ⟨e, hf⟩ := Option.isSome_iff_exists.mp (fired?_isSome.mpr h)
  refine wp_step rfl ?_ fun _ _ => False.elim
  rw [hf]
  rfl

-- The trigger is one of those that fire for the player, or it has fired before.
theorem wp_fireAll_due (hk : ∀ e ∈ triggers, e.1 = k → key e.2 = some eventKey ∧
      (parseGrantItemsActionConfig (some e.2.actionConfig)).isOk = true)
    (hg : s.gauge k player.id = { g with keys := [eventKey] } ∨
      (s.gauge k player.id = { g with keys := [] }) ∧ ∃ t, (k, t) ∈ triggers) :
    wp (under roster .none)
      (returns fun s' => s'.gauge k player.id = { g with keys := [eventKey] })
      (fireAll player key triggers) s := by
  induction triggers generalizing s
  case nil =>
    refine hg.resolve_right ?_
    rintro ⟨_, _, hm⟩
    cases hm
  case cons e triggers hi =>
    obtain ⟨triggerId, trigger⟩ := e
    obtain ⟨he, hk⟩ := List.forall_mem_cons.mp hk
    have hi {s : Store} := hi (s := s) hk
    by_cases ht : triggerId = k
    case pos =>
      subst ht
      obtain ⟨hkey, ha⟩ := he rfl
      rw [fireAll]
      simp only [hkey]
      have hf : wp (under roster .none)
          (fun _ s' => s'.gauge triggerId player.id = { g with keys := [eventKey] })
          (fireOnce triggerId trigger player eventKey) s := by
        obtain hg | ⟨hg, _⟩ := hg
        case inr => exact wp_fireOnce_new hg ha
        case inl =>
          refine wp_mono (wp_fireOnce_again (by rw [hg]; exact List.mem_singleton_self _)) ?_
          exact fun _ _ hs => hs.trans hg
      refine wp_bind_returns (wp_handle_returns hf fun _ _ hs => hs) fun _ s₁ hs => ?_
      exact hi (.inl hs)
    case neg =>
      have hg : s.gauge k player.id = { g with keys := [eventKey] } ∨
          (s.gauge k player.id = { g with keys := [] }) ∧ ∃ t, (k, t) ∈ triggers := by
        refine hg.imp_right fun hg => ⟨hg.left, ?_⟩
        obtain ⟨_, t, hm⟩ := hg
        refine ⟨t, (List.mem_cons.mp hm).resolve_left ?_⟩
        rintro ⟨⟩
        exact ht rfl
      rw [fireAll]
      split
      case h_1 => exact hi hg
      case h_2 eventKey' _ =>
        have ho : Only (OnTriggers fun k' _ _ => k' = triggerId)
          (fireOnce triggerId trigger player eventKey') := onTriggers_fireOnce rfl
        have hf : wp (under roster .none) (fun _ s' => s'.gauge k player.id = s.gauge k player.id)
          (fireOnce triggerId trigger player eventKey') s := wp_still ho (fun _ h => ht h.symm) rfl
        refine wp_bind_returns (wp_handle_returns hf fun _ _ hs => hs) fun _ s₁ hs => ?_
        exact hi (by rw [hs]; exact hg)

end

-- A trigger that is not meant, or a lifetime that does not cross its threshold.
theorem wp_evaluatePlaytime_calm (hg : s.gauge k id = g) (hr : g.rule = some t)
    (hw : t.Rewards g.servers hours)
    (hn : player.id = id → t.orgId = orgId → t.serverInstanceId = serverInstanceId →
      crossedPlaytimeHours previous next hours = false) :
    wp (under roster .none) (fun _ s' => s'.gauge k id = g)
      (evaluatePlaytime orgId serverInstanceId player previous next) s := by
  refine wp_step rfl ?_ fun _ _ => False.elim
  refine wp_still (K := fun triggerId playerId _ => ¬(triggerId = k ∧ playerId = id))
    (onTriggers_fireAll ?_) (fun _ h => h ⟨rfl, rfl⟩) hg
  rintro ⟨triggerId, trigger⟩ hm eventKey hkey ⟨rfl, hid⟩
  obtain ⟨rfl, hp⟩ := rule_of_found (hg ▸ hr) hm
  simp only [Bool.and_eq_true, decide_eq_true_eq] at hp
  have hc := hn hid hp.1.1.1 hp.1.1.2
  have hkey := (playtimeKey_eq (t := trigger) previous next hw.hours).symm.trans hkey
  rw [hc] at hkey
  cases hkey

-- The lifetime crosses the threshold of a trigger that has fired at most for this reason.
theorem wp_evaluatePlaytime_due (hg : s.gauge k player.id = g) (hr : g.rule = some t)
    (hw : t.Rewards g.servers hours) (ho : t.orgId = orgId)
    (hs : t.serverInstanceId = serverInstanceId)
    (hc : crossedPlaytimeHours previous next hours = true)
    (hk : g.keys = [] ∨ g.keys = [eventKeyForPlaytime hours]) :
    wp (under roster .none)
      (fun _ s' => s'.gauge k player.id = { g with keys := [eventKeyForPlaytime hours] })
      (evaluatePlaytime orgId serverInstanceId player previous next) s := by
  refine wp_step rfl ?_ fun _ _ => False.elim
  refine wp_mono (wp_fireAll_due (k := k) (g := g) ?_ ?_) fun _ _ h => h.state
  case refine_1 =>
    rintro ⟨triggerId, trigger⟩ hm rfl
    obtain ⟨rfl, _⟩ := rule_of_found (hg ▸ hr) hm
    have hkey := playtimeKey_eq (t := trigger) previous next hw.hours
    rw [hc] at hkey
    exact ⟨hkey, hw.action⟩
  case refine_2 =>
    obtain hk | hk := hk
    case inr =>
      refine .inl ?_
      rw [hg, ← hk]
    case inl =>
      refine .inr ⟨?_, ?_⟩
      case refine_1 => rw [hg, ← hk]
      case refine_2 =>
        rw [← hg] at hr
        obtain ⟨trigger, ht, rfl⟩ := Option.map_eq_some_iff.mp hr
        refine ⟨trigger, List.mem_filter.mpr ⟨Table.mem_entries.mpr ht, ?_⟩⟩
        have he : trigger.enabled = true := hw.enabled
        have ht : trigger.eventType = TRIGGER_EVENT_PLAYTIME := hw.eventType
        have ho : trigger.orgId = orgId := ho
        have hs : trigger.serverInstanceId = serverInstanceId := hs
        simp [he, ht, ho, hs]

theorem wp_welcome {existing : Option Player} (hg : s.gauge k id = g) (hr : g.rule = some t)
    (hw : t.Rewards g.servers hours) :
    wp (under roster .none) (fun _ s' => s'.gauge k id = g)
      (welcome orgId serverInstanceId existing player) s := by
  rw [welcome]
  split
  case isFalse => exact hg
  case isTrue  =>
    refine wp_handle_keeps (wp_step rfl ?_ fun _ _ => False.elim) fun _ _ h => h
    refine wp_still (K := fun triggerId _ _ => triggerId ≠ k) (onTriggers_fireAll ?_)
      (fun _ h => h rfl) hg
    rintro ⟨triggerId, trigger⟩ hm _ _ rfl
    obtain ⟨rfl, hp⟩ := rule_of_found (hg ▸ hr) hm
    have ht : trigger.eventType = TRIGGER_EVENT_PLAYTIME := hw.eventType
    simp [ht, TRIGGER_EVENT_PLAYTIME, TRIGGER_EVENT_FIRST_JOIN] at hp

-- The environment of a program that merges no row with that of the player.
abbrev solo (id : PlayerId) : Environment (roster.noted Evaluation) (Store × List Evaluation) :=
  obeying (roster.noted Evaluation) (Sum.elim (Solo id) fun _ => True)

section

-- The lifetime of another player is evaluated.
theorem Tracked.wp_evaluate_other (h : Tracked t hours g (reached id hours l))
    (hg : s.gauge k id = g) (hn : player.id ≠ id) :
    wp (solo id) (fun _ p => p.1.gauge k id = g ∧ reached id hours p.2 = reached id hours l)
      (Noted.ignoreErrors (Noted.evaluatePlaytime orgId serverInstanceId player previous next))
      (s, l) := by
  refine wp_handle_keeps (wp_note_bind (wp_silently ?_)) fun _ _ h => h
  have hr : reached id hours (l ++ [⟨player.id, next⟩]) = reached id hours l := by
    simp [reached_snoc, Evaluation.reaches, hn]
  refine wp_mono (wp_obeying_of_none (wp_evaluatePlaytime_calm hg h.rule h.rewards ?_)) ?_
  case refine_1 => exact fun hid => absurd hid hn
  case refine_2 => exact fun _ s' hs => ⟨hs, hr⟩

-- The lifetime of the player is evaluated. What it was before has not reached the threshold without
-- a call, and it is not more than what it is going to be.
theorem Counted.wp_evaluate (h : Counted t hours g (reached id hours l)) (hg : s.gauge k id = g)
    (ho : g.servers[serverInstanceId]?.map (·.orgId) = some orgId) (hid : player.id = id)
    (hr : g.row = some ⟨(serverInstanceId, lifetime), true⟩) (hl : lifetime ≤ next)
    (hp : g.Home t.serverInstanceId → hours.val * 3600 ≤ previous → reached id hours l = true) :
    wp (solo id) (fun _ => TrackedIn k id t hours)
      (Noted.ignoreErrors (Noted.evaluatePlaytime orgId serverInstanceId player previous next))
      (s, l) := by
  subst hid
  refine wp_handle_keeps (wp_note_bind (wp_silently ?_)) fun _ _ h => h
  have hreach : reached player.id hours (l ++ [⟨player.id, next⟩]) =
      (reached player.id hours l || hours.val * 3600 ≤ next) := by
    simp [reached_snoc, Evaluation.reaches]
  have hlife : ∀ r ∈ g.row, hours.val * 3600 ≤ r.data.2 →
      reached player.id hours (l ++ [⟨player.id, next⟩]) = true := by
    rw [hr]
    rintro _ ⟨⟩ hn
    have hn : hours.val * 3600 ≤ next := Int.le_trans hn hl
    simp [hreach, hn]
  by_cases hc : serverInstanceId = t.serverInstanceId ∧
      crossedPlaytimeHours previous next hours = true
  case neg =>
    have hcalm : wp (under roster .none) (fun _ s' => s'.gauge k player.id = g)
        (evaluatePlaytime orgId serverInstanceId player previous next) s :=
      wp_evaluatePlaytime_calm hg h.rule h.rewards
        fun _ _ hs => Bool.eq_false_iff.mpr fun hx => hc ⟨hs.symm, hx⟩
    refine wp_mono (wp_obeying_of_none hcalm) fun _ s' hs => ?_
    have he : g.Home t.serverInstanceId →
        reached player.id hours (l ++ [⟨player.id, next⟩]) = reached player.id hours l := by
      intro hh
      have hx : ¬(previous < hours.val * 3600 ∧ hours.val * 3600 ≤ next) := by
        simpa [crossedPlaytimeHours, (Gauge.home_iff hr).mp hh] using hc
      rw [hreach]
      by_cases hn : hours.val * 3600 ≤ next
      case neg => simp [hn]
      case pos => simp [hp hh (by omega)]
    rw [TrackedIn, hs]
    exact ⟨⟨h.rule, h.rewards, fun hh => he hh ▸ h.keys hh⟩, fun _ => hlife⟩
  case pos =>
    obtain ⟨rfl, hc⟩ := hc
    have ht : t.orgId = orgId := Option.some.inj (h.rewards.server.symm.trans ho)
    have hk := h.keys ((Gauge.home_iff hr).mpr rfl)
    have hdue := wp_evaluatePlaytime_due hg h.rule h.rewards ht rfl hc (by
      rw [hk]
      cases reached player.id hours l
      case false => exact .inl rfl
      case true  => exact .inr rfl)
    refine wp_mono (wp_obeying_of_none hdue) fun _ s' hs => ?_
    simp only [crossedPlaytimeHours, Bool.and_eq_true, decide_eq_true_eq] at hc
    have he : reached player.id hours (l ++ [⟨player.id, next⟩]) = true := by
      simp [hreach, hc.right]
    rw [TrackedIn, hs]
    exact ⟨⟨h.rule, h.rewards, fun _ => by rw [he]; rfl⟩, fun _ => hlife⟩

variable {I : Gauge → Bool → Prop}

-- A part of a program that leaves the gauge as it is.
theorem wp_quietly {α β : Type} {x : Service α} {f : α → Noted β}
    (hx : wp (obeying roster (Solo id)) (fun _ s' => s'.gauge k id = s.gauge k id) x s)
    (h : I (s.gauge k id) (reached id hours l))
    (hf : ∀ a s', s'.gauge k id = s.gauge k id →
      wp (solo id) (fun _ p => I (p.1.gauge k id) (reached id hours p.2)) (f a) (s', l)) :
    wp (solo id) (fun _ p => I (p.1.gauge k id) (reached id hours p.2)) (silently x >>= f)
      (s, l) := by
  refine wp_silently_bind (wp_mono hx fun r s' hs => ?_)
  cases r
  case ok a  => exact hf a s' hs
  case error => exact show I (s'.gauge k id) _ from hs ▸ h
  case ended => exact show I (s'.gauge k id) _ from hs ▸ h

theorem wp_quiet_end {α : Type} {x : Service α}
    (hx : wp (obeying roster (Solo id)) (fun _ s' => s'.gauge k id = s.gauge k id) x s)
    (h : I (s.gauge k id) (reached id hours l)) :
    wp (solo id) (fun _ p => I (p.1.gauge k id) (reached id hours p.2)) (silently x) (s, l) :=
  wp_silently (wp_mono hx fun _ s' hs => show I (s'.gauge k id) _ from hs ▸ h)

-- A player leaves. What has been played is added to the lifetime, and the lifetime is evaluated.
theorem Tracked.wp_leave {id' : PlayerId} {q : Player} {data : PlayerData} {endedAt : Time}
    {duration : Nat} {notice : Notice} (h : TrackedIn k id t hours (s, l))
    (ho : s.servers[serverInstanceId]?.map (·.orgId) = some orgId)
    (hr : id' = id → (s.gauge k id).row = some ⟨(serverInstanceId, q.lifetimeSeconds), true⟩) :
    wp (solo id)
      (fun _ p => TrackedIn k id t hours p ∧ (id' ≠ id → p.1.gauge k id = s.gauge k id))
      (do
        silently (endSession id' data endedAt duration)
        Noted.ignoreErrors (Noted.evaluatePlaytime orgId serverInstanceId
          (.ofLeft id' q (q.lifetimeSeconds + duration)) q.lifetimeSeconds
          (q.lifetimeSeconds + duration))
        silently (ignoreErrors (send (.notify notice)))) (s, l) := by
  by_cases hid : id' = id
  case neg =>
    refine wp_quietly (I := fun g b => Tracked t hours g b ∧ (id' ≠ id → g = s.gauge k id))
      (wp_calm (calm_endSession hid) rfl) ⟨h, fun _ => rfl⟩ fun _ s₁ hs => ?_
    refine wp_bind_keeps (I := fun p => TrackedIn k id t hours p ∧
      (id' ≠ id → p.1.gauge k id = s.gauge k id)) ?_ ?_
    case refine_1 =>
      refine wp_mono (Tracked.wp_evaluate_other h hs hid) ?_
      rintro _ _ ⟨hg, hb⟩
      exact ⟨h.congr hg hb, fun _ => hg⟩
    case refine_2 =>
      rintro _ ⟨s₂, l₂⟩ h₂
      exact wp_quiet_end (I := fun g b => Tracked t hours g b ∧ (id' ≠ id → g = s.gauge k id))
        (wp_calm calm_notify rfl) h₂
  case pos =>
    subst hid
    have hr := hr rfl
    obtain ⟨s₁, hx, hs⟩ := gauge_endSession data endedAt duration hr
    have hh : (s₁.gauge k id').Home t.serverInstanceId →
        (s.gauge k id').Home t.serverInstanceId := by
      intro hh
      rw [hs] at hh
      exact (Gauge.home_iff hr).mpr ((Gauge.home_iff rfl).mp hh)
    have hc : Counted t hours (s₁.gauge k id') (reached id' hours l) := by
      constructor
      case rule    => rw [hs]; exact h.rule
      case rewards => rw [hs]; exact h.rewards
      case keys    => exact fun hm => by rw [hs]; exact h.keys (hh hm)
    refine wp_silently_step hx (wp_mono (wp_bind_keeps (I := TrackedIn k id' t hours) ?_ ?_) ?_)
    case refine_1 =>
      apply hc.wp_evaluate rfl
      case ho  => rw [hs]; exact ho
      case hid => rfl
      case hr  => rw [hs]
      case hl  => exact le_rfl
      case hp  => exact fun hm => h.lifetime (hh hm) _ hr
    case refine_2 =>
      rintro _ ⟨s₂, l₂⟩ h₂
      exact wp_quiet_end (wp_calm calm_notify rfl) h₂
    case refine_3 => exact fun _ _ h => ⟨h, fun hn => absurd rfl hn⟩

-- A player is seen: the row is updated, or it is a new one.
theorem Tracked.upsert (key : IdentityKey) {create : Player} {update : PlayerData} {b : Bool}
    (h : Tracked t hours (s.gauge k id) b) (hu : update.lifetimeSeconds = 0)
    (hs : create.serverInstanceId = serverInstanceId) (hl : create.lifetimeSeconds = 0) :
    ∃ id' p s', exec (.upsertPlayer serverInstanceId key create update) s = (.ok (id', p), s') ∧
      Tracked t hours (s'.gauge k id) b ∧
      (id' = id → (s'.gauge k id).row = some ⟨(serverInstanceId, p.lifetimeSeconds), true⟩) ∧
      p.lifetimeSeconds =
        ((s.keyed? serverInstanceId key).map (·.2.lifetimeSeconds)).getD 0 := by
  cases hk : s.keyed? serverInstanceId key
  case some e =>
    obtain ⟨id', p⟩ := e
    obtain ⟨hp, rfl, _⟩ := keyed?_some hk
    have hg : Store.gauge { s with
        players := s.players.modify id' (Row.modify update.apply) } k id = s.gauge k id :=
      gauge_modify fun _ => lifetime_apply hu
    refine ⟨id', update.apply p, _, by rw [exec, hk], ?_, ?_, ?_⟩
    case refine_1 => rw [hg]; exact h
    case refine_2 =>
      rintro rfl
      rw [hg, row_of_player hp]
      simp [PlayerData.apply, hu]
    case refine_3 => simp [PlayerData.apply, hu]
  case none =>
    refine ⟨s.players.length, create, _, by rw [exec, hk], ?_, ?_, hl⟩
    case refine_2 =>
      rintro rfl
      rw [gauge_create, if_pos rfl, hs]
    case refine_1 =>
      rw [gauge_create]
      by_cases hid : id = s.players.length
      case neg =>
        rw [if_neg hid]
        exact h
      case pos =>
        -- The new player has not played yet.
        have hrow : (s.gauge k id).row = none := by
          simp [Store.gauge, hid]
        have hhome : (s.gauge k id).Home t.serverInstanceId := by
          rw [Gauge.Home, hrow]
          rintro _ ⟨⟩
        rw [if_pos hid]
        refine ⟨⟨h.rule, h.rewards, fun _ => h.keys hhome⟩, fun _ r hr hn => ?_⟩
        have hh := hours.property.left
        cases hr
        simp only [hl] at hn
        omega

theorem Tracked.wp_upsert_bind {β : Type} {key : IdentityKey} {create : Player}
    {update : PlayerData} {f : PlayerId × Player → Noted β}
    {Q : Result Exception β → Store × List Evaluation → Prop}
    (h : TrackedIn k id t hours (s, l)) (hu : update.lifetimeSeconds = 0)
    (hl : create.lifetimeSeconds = 0) (hs : create.serverInstanceId = serverInstanceId)
    (hf : ∀ id' p s', TrackedIn k id t hours (s', l) → s'.servers = s.servers →
      (id' = id → (s'.gauge k id).row = some ⟨(serverInstanceId, p.lifetimeSeconds), true⟩) →
      p.lifetimeSeconds = ((s.keyed? serverInstanceId key).map (·.2.lifetimeSeconds)).getD 0 →
      wp (solo id) Q (f (id', p)) (s', l)) :
    wp (solo id) Q (silently (send (.upsertPlayer serverInstanceId key create update)) >>= f)
      (s, l) := by
  obtain ⟨id', p, s', hx, ht, hr, hp⟩ := h.upsert key hu hs hl
  have hs' : s'.servers = s.servers := by
    rw [← show (exec _ s).2 = s' from congrArg Prod.snd hx]
    exact exec_servers _
  exact wp_silently_step hx (hf id' p s' ht hs' hr hp)

variable {b : Bool} {serverInstanceName name : String} {identityKey : IdentityKey} {now : Time}

theorem Tracked.wp_calm {α : Type} {x : Service α} (h : Tracked t hours (s.gauge k id) b)
    (hx : Only (Calm k id) x) :
    wp (obeying roster (Solo id)) (fun _ s' => Tracked t hours (s'.gauge k id) b) x s :=
  wp_mono (Players.wp_calm hx rfl) fun _ s' hs => show Tracked t hours (s'.gauge k id) b from hs ▸ h

theorem Tracked.wp_upsert {key : IdentityKey} {create : Player} {update : PlayerData}
    (h : Tracked t hours (s.gauge k id) b) (hu : update.lifetimeSeconds = 0)
    (hl : create.lifetimeSeconds = 0) (hs : create.serverInstanceId = serverInstanceId) :
    wp (obeying roster (Solo id)) (fun _ s' => Tracked t hours (s'.gauge k id) b)
      (send (.upsertPlayer serverInstanceId key create update)) s := by
  obtain ⟨_, _, s', hx, hs, _⟩ := h.upsert key hu hs hl
  refine wp_perform_obeying.mpr fun _ => ?_
  rw [show roster.exec _ s = _ from hx]
  exact hs

theorem Tracked.wp_welcome {existing : Option Player} (h : Tracked t hours (s.gauge k id) b) :
    wp (obeying roster (Solo id)) (fun _ s' => Tracked t hours (s'.gauge k id) b)
      (welcome orgId serverInstanceId existing player) s :=
  wp_mono (wp_obeying_of_none (Players.wp_welcome rfl h.rule h.rewards)) fun _ s' hs =>
    show Tracked t hours (s'.gauge k id) b from hs ▸ h

theorem Tracked.wp_handleUuid {uuid : String} (h : Tracked t hours (s.gauge k id) b) :
    wp (obeying roster (Solo id)) (fun _ s' => Tracked t hours (s'.gauge k id) b)
      (handleUuid orgId serverInstanceId name uuid) s := by
  refine wp_bind_keeps (h.wp_calm calm_reconcileNameFallback) fun _ s₁ h₁ => ?_
  refine wp_bind_keeps (h₁.wp_calm (calm_send fun _ => trivial)) fun now s₂ h₂ => ?_
  exact wp_bind_keeps (h₂.wp_upsert rfl rfl rfl) fun _ _ h => h

theorem Tracked.wp_handleJoined {existing : Option Player} (h : Tracked t hours (s.gauge k id) b) :
    wp (obeying roster (Solo id)) (fun _ s' => Tracked t hours (s'.gauge k id) b)
      (handleJoined orgId serverInstanceId serverInstanceName name identityKey existing now) s := by
  refine wp_bind_keeps (h.wp_upsert rfl rfl rfl) fun found s₁ h₁ => ?_
  refine wp_bind_keeps (h₁.wp_welcome) fun _ s₂ h₂ => ?_
  exact h₂.wp_calm (calm_openSession.bind fun _ => calm_connect)

theorem Tracked.wp_handleLeft {existing : Option (PlayerId × Player)}
    (h : TrackedIn k id t hours (s, l))
    (ho : s.servers[serverInstanceId]?.map (·.orgId) = some orgId)
    (he : ∀ e ∈ existing, e.1 = id →
      (s.gauge k id).row = some ⟨(serverInstanceId, e.2.lifetimeSeconds), true⟩) :
    wp (solo id) (fun _ => TrackedIn k id t hours)
      (Noted.handleLeft orgId serverInstanceId serverInstanceName name identityKey existing now)
      (s, l) := by
  cases existing
  case none   => exact h
  case some e =>
    rw [Noted.handleLeft]
    split
    case isFalse => exact h
    case isTrue  => exact wp_mono (h.wp_leave ho (he e rfl)) fun _ _ h => h.left

theorem Tracked.wp_handleNamed {joined : Bool} (h : TrackedIn k id t hours (s, l))
    (ho : s.servers[serverInstanceId]?.map (·.orgId) = some orgId) :
    wp (solo id) (fun _ => TrackedIn k id t hours)
      (Noted.handleNamed orgId serverInstanceId serverInstanceName joined name) (s, l) := by
  refine wp_silently_step rfl ?_
  refine wp_quietly (Players.wp_calm calm_reconcileNameFallback rfl) h fun _ s₁ hs => ?_
  refine wp_silently_step rfl ?_
  have h₁ : TrackedIn k id t hours (s₁, l) := h.congr hs rfl
  have ho : s₁.servers[serverInstanceId]?.map (·.orgId) = some orgId := by
    rw [show s₁.servers = s.servers from congrArg Gauge.servers hs]
    exact ho
  have hrow {e : PlayerId × Player} (hp : s.player? e.1 = some e.2)
      (hn : e.2.serverInstanceId = serverInstanceId) (hid : e.1 = id) :
      (s₁.gauge k id).row = some ⟨(serverInstanceId, e.2.lifetimeSeconds), true⟩ := by
    rw [hs, ← hn]
    exact row_of_player (hid ▸ hp)
  cases hn : s.namedUuid? serverInstanceId name
  case some e =>
    obtain ⟨id', p⟩ := e
    obtain ⟨hp, hsv, _⟩ := namedUuid?_some hn
    cases joined
    case true  => exact wp_silently h₁.wp_handleJoined
    case false =>
      refine show wp _ _ (Noted.handleLeft _ _ _ _ _ (some (id', p)) _) _ from
        h₁.wp_handleLeft ho ?_
      rintro _ ⟨⟩ hid
      exact hrow hp hsv hid
  case none =>
    refine wp_silently_step rfl ?_
    cases joined
    case true  => exact wp_silently h₁.wp_handleJoined
    case false =>
      refine h₁.wp_handleLeft ho fun e he hid => ?_
      obtain ⟨hp, hsv, _⟩ := keyed?_some he
      exact hid ▸ hsv ▸ row_of_player hp

theorem Tracked.wp_handleLine {line : LogLine} (h : TrackedIn k id t hours (s, l))
    (ho : s.servers[serverInstanceId]?.map (·.orgId) = some orgId) :
    wp (solo id) (fun _ => TrackedIn k id t hours)
      (Noted.handleLine orgId serverInstanceId serverInstanceName line) (s, l) := by
  cases line
  case uuid   => exact wp_silently h.wp_handleUuid
  case joined => exact h.wp_handleNamed ho
  case left   => exact h.wp_handleNamed ho
  case other  => exact h

theorem Tracked.wp_applyRow {row : PlayerRosterRow} (h : TrackedIn k id t hours (s, l))
    (ho : s.servers[serverInstanceId]?.map (·.orgId) = some orgId) :
    wp (solo id) (fun _ => TrackedIn k id t hours)
      (Noted.applyRow orgId serverInstanceId serverInstanceName now row) (s, l) := by
  refine wp_quietly (Players.wp_calm calm_reconcileNameFallback rfl) h fun _ s₁ hs => ?_
  have h₁ : TrackedIn k id t hours (s₁, l) := h.congr hs rfl
  refine wp_silently_step rfl ?_
  refine Tracked.wp_upsert_bind h₁ rfl rfl rfl fun id' p s₂ h₂ hs₂ hr hl => ?_
  have ho : s₂.servers[serverInstanceId]?.map (·.orgId) = some orgId := by
    rw [hs₂, show s₁.servers = s.servers from congrArg Gauge.servers hs]
    exact ho
  refine wp_quietly (Players.wp_calm calm_openSession rfl) h₂ fun _ s₃ hs₃ => ?_
  have h₃ : TrackedIn k id t hours (s₃, l) := h₂.congr hs₃ rfl
  refine wp_quietly (wp_obeying_of_none (Players.wp_welcome rfl h₃.rule h₃.rewards)) h₃
    fun _ s₄ hs₄ => ?_
  have h₄ : TrackedIn k id t hours (s₄, l) := h₃.congr hs₄ rfl
  refine wp_quietly (Players.wp_calm calm_connect rfl) h₄ fun _ s₅ hs₅ => ?_
  have hg : s₅.gauge k id = s₂.gauge k id := hs₅.trans (hs₄.trans hs₃)
  have h₅ : TrackedIn k id t hours (s₅, l) := h₂.congr hg rfl
  by_cases hid : id' = id
  case neg =>
    refine wp_mono (Tracked.wp_evaluate_other h₅ rfl hid) ?_
    rintro _ _ ⟨hg, hb⟩
    exact h₅.congr hg hb
  case pos =>
    have hr := hr hid
    rw [← hg] at hr
    apply h₅.wp_evaluate rfl
    case ho  => exact (congrArg (fun g => g.servers[serverInstanceId]?.map (·.orgId)) hg).trans ho
    case hid => exact hid
    case hr  => exact hr
    case hl  =>
      rw [projectedLifetime]
      split <;> omega
    case hp  =>
      rw [Option.map_map]
      intro hh hn
      exact h₅.lifetime hh _ hr (hl ▸ hn)

theorem wp_servers_noted {α : Type} {x : Noted α} :
    wp (solo id) (fun _ p => p.1.servers = s.servers) x (s, l) := by
  have hx : Only (fun _ => True) x := .always
  apply hx.wp_obeying
  case hs => rfl
  case hc =>
    rintro p (c | _) _ _ hs
    case inl => exact (exec_servers c).trans hs
    case inr => exact hs

theorem Tracked.wp_each {α : Type} {f : α → Noted Unit} {xs : List α}
    (hf : ∀ x s l, TrackedIn k id t hours (s, l) →
      s.servers[serverInstanceId]?.map (·.orgId) = some orgId →
      wp (solo id) (fun _ => TrackedIn k id t hours) (f x) (s, l))
    (h : TrackedIn k id t hours (s, l))
    (ho : s.servers[serverInstanceId]?.map (·.orgId) = some orgId) :
    wp (solo id) (fun _ p => TrackedIn k id t hours p ∧
      p.1.servers[serverInstanceId]?.map (·.orgId) = some orgId) (forEach f xs) (s, l) := by
  apply wp_forEach_keeps (I := fun p => TrackedIn k id t hours p ∧
    p.1.servers[serverInstanceId]?.map (·.orgId) = some orgId)
  case hs => exact ⟨h, ho⟩
  case h  =>
    rintro x ⟨s, l⟩ _ ⟨h, ho⟩
    refine wp_mono (wp_and (hf x s l h ho) wp_servers_noted) ?_
    rintro _ _ ⟨h, hs⟩
    exact ⟨h, hs ▸ ho⟩

-- The players that are set offline are still as they were found when their turn comes.
theorem Tracked.wp_missing {missing : List (PlayerId × Player)} (h : TrackedIn k id t hours (s, l))
    (ho : s.servers[serverInstanceId]?.map (·.orgId) = some orgId)
    (hn : (missing.map Prod.fst).Nodup)
    (hm : ∀ e ∈ missing, e.1 = id →
      (s.gauge k id).row = some ⟨(serverInstanceId, e.2.lifetimeSeconds), true⟩) :
    wp (solo id) (fun _ => TrackedIn k id t hours)
      (forEach (Noted.applyMissing orgId serverInstanceId serverInstanceName now) missing)
      (s, l) := by
  induction missing generalizing s l
  case nil             => exact h
  case cons e es hi =>
    obtain ⟨he, hn⟩ := List.nodup_cons.mp hn
    obtain ⟨hr, hm⟩ := List.forall_mem_cons.mp hm
    refine wp_bind_via (J := fun p => TrackedIn k id t hours p ∧ p.1.servers = s.servers ∧
      (e.1 ≠ id → p.1.gauge k id = s.gauge k id))
      (wp_mono (wp_and (h.wp_leave ho hr) (wp_servers_noted (s := s))) ?_) (fun _ h => h.left) ?_
    case refine_1 =>
      rintro _ _ ⟨⟨h, hg⟩, hs⟩
      exact ⟨h, hs, hg⟩
    case refine_2 =>
      rintro _ ⟨s₁, l₁⟩ ⟨h₁, hs, hg⟩
      refine hi h₁ (hs ▸ ho) hn fun e' he' hid => ?_
      have hne : e.1 ≠ id := by
        rintro rfl
        exact he (hid ▸ List.mem_map_of_mem he')
      rw [show s₁.gauge k id = s.gauge k id from hg hne]
      exact hm e' he' hid

theorem Tracked.wp_applyPlayerRoster {rows : List PlayerRosterRow}
    (h : TrackedIn k id t hours (s, l))
    (ho : s.servers[serverInstanceId]?.map (·.orgId) = some orgId) :
    wp (solo id) (fun _ => TrackedIn k id t hours)
      (Noted.applyPlayerRoster orgId serverInstanceId rows) (s, l) := by
  refine wp_silently_step rfl (wp_silently_step rfl ?_)
  refine wp_bind_via (Tracked.wp_each (fun row s l h ho => h.wp_applyRow ho) h ho)
    (fun _ h => h.left) ?_
  rintro _ ⟨s₁, l₁⟩ ⟨h₁, ho⟩
  refine wp_silently_step rfl ?_
  refine wp_bind_keeps (h₁.wp_missing ho ?_ ?_) ?_
  case refine_1 => exact nodup_liveEntries.sublist (List.filter_sublist.map _)
  case refine_2 =>
    intro e he hid
    obtain ⟨hm, hp⟩ := List.mem_filter.mp he
    simp only [Bool.and_eq_true, decide_eq_true_eq] at hp
    rw [← hp.1.1]
    exact row_of_player (hid ▸ mem_liveEntries.mp hm)
  case refine_3 =>
    rintro _ ⟨s₂, l₂⟩ h₂
    refine wp_quietly (Players.wp_calm calm_notify rfl) h₂ fun _ s₃ hs => ?_
    refine wp_quiet_end (Players.wp_calm (calm_ignoreErrors ?_) rfl) (h₂.congr hs rfl)
    exact calm_onTriggers (K := fun _ _ _ => False) onTriggers_retryPendingItemGrants
      fun _ => not_false

theorem Tracked.wp_parsePlayers {content : String} (h : TrackedIn k id t hours (s, l))
    (ho : s.servers[serverInstanceId]?.map (·.orgId) = some orgId) :
    wp (solo id) (fun _ => TrackedIn k id t hours)
      (Noted.parsePlayers orgId serverInstanceId serverInstanceName content) (s, l) := by
  refine wp_silently_step rfl (wp_silently_step rfl ?_)
  exact wp_mono (Tracked.wp_each (fun line s l h ho => h.wp_handleLine ho) h ho) fun _ _ h => h.left

-- What the commands of a message are, its notes aside.
theorem solo_of_unmerged {α : Type} {x : Noted α}
    (h : ∀ c ∈ (x.erase.run [] s).log.map Prod.fst, c.merges id = false) :
    ∀ c ∈ (x.run [] (s, l)).log.map Prod.fst, Sum.elim (Solo id) (fun _ => True) c := by
  rintro (c | _) hc
  case inr => trivial
  case inl =>
    refine h c ?_
    rw [run_erase.right]
    exact List.mem_filterMap.mpr ⟨.inl c, hc, rfl⟩

theorem Tracked.step {p : Store × List Evaluation} {e : Message} (h : TrackedIn k id t hours p)
    (hu : Unmerged id p.1 e) : TrackedIn k id t hours (evaluated.next p e) := by
  obtain ⟨s, l⟩ := p
  cases e
  case elapse => exact h
  case report jobId runStatus output =>
    have hs : (s.report jobId runStatus output).gauge k id = s.gauge k id := by
      rw [Store.report]
      split
      case h_2 => rfl
      case h_1 =>
        exact wp_run_nil (wp_still (K := fun _ _ _ => False) (s := s.closeJob jobId)
          onTriggers_completeItemGrant (fun _ => not_false) rfl)
    exact h.congr hs rfl
  case chunk serverInstanceId content =>
    cases hs : s.servers[serverInstanceId]?
    case none        =>
      simp only [hs]
      exact h
    case some server =>
      simp only [Unmerged, Store.commands, hs, ← erase_parsePlayers] at hu ⊢
      exact wp_run_obeying (h.wp_parsePlayers (by rw [hs]; rfl)) (solo_of_unmerged hu)
  case roster serverInstanceId players =>
    cases hs : s.servers[serverInstanceId]?
    case none        =>
      simp only [hs]
      exact h
    case some server =>
      simp only [Unmerged, Store.commands, hs, ← erase_applyPlayerRoster] at hu ⊢
      exact wp_run_obeying (h.wp_applyPlayerRoster (by rw [hs]; rfl)) (solo_of_unmerged hu)

end

theorem meets_evaluated {C : Store → Message → Prop} {p : Store × List Evaluation}
    {es : List Message} (h : messages.Meets C p.1 es) :
    evaluated.Meets (fun p e => C p.1 e) p es := by
  induction es generalizing p
  case nil     => trivial
  case cons hi =>
    refine ⟨h.left, hi ?_⟩
    rw [evaluated_next]
    exact h.right

-- In every run in which the player's row is not merged, the trigger fires for the player once, as
-- soon as a lifetime of that many hours is evaluated, and no player gets there without.
theorem playtime_fires_once {es : List Message} {p : Player} (ht : s.triggers[k]? = some t)
    (hw : t.Rewards s.servers hours) (hf : s.timesFired k id = 0)
    (hl : ∀ p, s.player? id = some p → p.lifetimeSeconds < hours.val * 3600)
    (hm : messages.Meets (Unmerged id) s es) (hp : (messages.run s es).player? id = some p)
    (hs : p.serverInstanceId = t.serverInstanceId) :
    (messages.run s es).timesFired k id ≤ 1 ∧
    ((messages.run s es).timesFired k id = 1 ↔ ∃ e ∈ s.evaluations es,
      e.playerId = id ∧ hours.val * 3600 ≤ e.nextLifetimeSeconds) ∧
    (hours.val * 3600 ≤ p.lifetimeSeconds → (messages.run s es).timesFired k id = 1) := by
  have h : TrackedIn k id t.rule hours (evaluated.run (s, []) es) :=
    System.invariant (S := evaluated) (fun _ _ h hu => h.step hu) (tracked_start ht hw hf hl)
      (meets_evaluated hm)
  have he : (evaluated.run (s, []) es).1 = messages.run s es := evaluated_run
  rw [← he] at hp ⊢
  have hr := row_of_player (k := k) hp
  have hh : ((evaluated.run (s, []) es).1.gauge k id).Home t.serverInstanceId :=
    (Gauge.home_iff hr).mpr hs
  have hreach : reached id hours (evaluated.run (s, []) es).2 = true ↔
      ∃ e ∈ s.evaluations es, e.playerId = id ∧ hours.val * 3600 ≤ e.nextLifetimeSeconds := by
    simp [reached, Store.evaluations, Evaluation.reaches]
  rw [← hreach, timesFired_eq, h.keys hh]
  have hlife := h.lifetime hh _ hr
  cases hb : reached id hours (evaluated.run (s, []) es).2
  case true  => exact ⟨le_rfl, iff_of_true rfl rfl, fun _ => rfl⟩
  case false =>
    rw [hb] at hlife
    exact ⟨Nat.zero_le 1, iff_of_false (by simp) (by simp), fun hn => by cases hlife hn⟩

instance {e : Message} : Decidable (Unmerged id s e) :=
  inferInstanceAs (Decidable (∀ c ∈ s.commands e, c.merges id = false))

end

attribute [local instance] Naming.ascii

-- A server that gives an apple to those who have played for an hour.
def Trigger.apple : Trigger where
  orgId            := 0
  serverInstanceId := 0
  enabled          := true
  eventType        := TRIGGER_EVENT_PLAYTIME
  eventConfig      := .obj [("hours", .ofNat 1)]
  actionType       := TRIGGER_ACTION_GRANT_ITEMS
  actionConfig     := .obj [("items", .arr [
    .obj [("name", .str "minecraft:apple"), ("quantity", .ofNat 1)]])]
  createdById      := none

def Store.patient : Store where
  clock    := 1000000
  servers  := [{ orgId := 0, name := "Survival" }]
  triggers := [.apple]

theorem apple_rewards : Trigger.apple.Rewards Store.patient.servers ⟨1, by decide⟩ where
  server    := rfl
  enabled   := rfl
  eventType := rfl
  hours     := by rfl
  action    := by decide +kernel

-- A roster shows the player at noon and an hour later, and then the player leaves.
def longEvening : List Message :=
  [ .roster 0 [("Steve", some uuidOfSteve)], .elapse 3600000
  , .roster 0 [("Steve", some uuidOfSteve)], .elapse 60000, .chunk 0 leftLine]

theorem playtime_fires_once_longEvening :
    ∃ p, (messages.run .patient longEvening).player? 0 = some p ∧
      ((messages.run .patient longEvening).timesFired 0 0 ≤ 1 ∧
      ((messages.run .patient longEvening).timesFired 0 0 = 1 ↔
        ∃ e ∈ Store.patient.evaluations longEvening,
          e.playerId = 0 ∧ (1 : Nat) * 3600 ≤ e.nextLifetimeSeconds) ∧
      ((1 : Nat) * 3600 ≤ p.lifetimeSeconds →
        (messages.run .patient longEvening).timesFired 0 0 = 1)) := by
  have hp : ((messages.run .patient longEvening).player? 0).isSome = true := by decide +kernel
  obtain ⟨p, hp⟩ := Option.isSome_iff_exists.mp hp
  have hs : ((messages.run .patient longEvening).player? 0).map (·.serverInstanceId) = some 0 := by
    decide +kernel
  rw [hp] at hs
  have ht : Store.patient.triggers[0]? = some .apple := rfl
  have hf : Store.patient.timesFired 0 0 = 0 := rfl
  have hl : ∀ p, Store.patient.player? 0 = some p → p.lifetimeSeconds < (1 : Nat) * 3600 := by
    rintro _ ⟨⟩
  have hm : messages.Meets (Unmerged 0) .patient longEvening := by decide +kernel
  have h := playtime_fires_once ht apple_rewards hf hl hm hp (Option.some.inj hs)
  exact ⟨p, hp, h⟩

end Players
