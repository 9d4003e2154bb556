import Mastermind.Alerts.Service

open Effects Jobs Limits

namespace Alerts

variable {s : Store} {upper lower : String → String} {parseUrl : String → Option AlertsService.URL}

namespace Store

-- What was decided about the messages of a key, the last one first.
def sendsOf (s : Store) (key : RateLimitKey) : List Decision :=
  decisionsOf key s.sends

-- What was decided about the alerts of a player, the last one first.
def lifecycleOf (s : Store) (key : LifecycleKey) : List Decision :=
  decisionsOf key s.lifecycle

def postsOf (s : Store) (key : RateLimitKey) : Nat :=
  s.posts.countP (·.key = key)

-- The memory of the services when they start.
structure Booted (s : Store) : Prop where
  rateLimitMap : s.rateLimitMap = .empty
  recent       : s.recentPlayerLifecycleAlerts = .empty
  posts        : s.posts = []
  sends        : s.sends = []
  lifecycle    : s.lifecycle = []

end Store

section

variable {m : Js.Map RateLimitKey Window} {key k : RateLimitKey} {now : Time}

-- The entry of a key once the entries of windows that are over have been deleted.
def fresh (now : Time) (entry : Option Window) : Option Window :=
  entry.filter (now < ·.windowStart + DISCORD_RATE_LIMIT.ms)

theorem fst_tryConsumeRateLimit :
    (s.tryConsumeRateLimit key).1 =
      (DISCORD_RATE_LIMIT.receive s.clock (fresh s.clock (s.rateLimitMap.get key))).1 := by
  rw [Store.tryConsumeRateLimit, fresh, Js.Map.get_prune]
  cases (s.rateLimitMap.get key).filter (s.clock < ·.windowStart + DISCORD_RATE_LIMIT.ms)
  case none => rfl
  case some entry =>
    simp only [Limit.receive]
    split
    case isTrue  => rfl
    case isFalse => split <;> rfl

theorem get_tryConsumeRateLimit :
    (s.tryConsumeRateLimit key).2.get k =
      if k = key then
        (DISCORD_RATE_LIMIT.receive s.clock (fresh s.clock (s.rateLimitMap.get key))).2
      else fresh s.clock (s.rateLimitMap.get k) := by
  have hk (map : Js.Map RateLimitKey Window) (w : Window) :
      (map.set key w).get k = if k = key then some w else map.get k := Js.Map.get_set
  rw [Store.tryConsumeRateLimit, fresh, fresh, Js.Map.get_prune]
  cases hf : (s.rateLimitMap.get key).filter (s.clock < ·.windowStart + DISCORD_RATE_LIMIT.ms)
  case none => simp only [Limit.receive, hk, Js.Map.get_prune]
  case some entry =>
    simp only [Limit.receive]
    split
    case isTrue  => simp only [hk, Js.Map.get_prune]
    case isFalse =>
      split
      case isFalse => simp only [hk, Js.Map.get_prune]
      case isTrue  =>
        rw [Js.Map.get_prune]
        split
        case isTrue h  => rw [h, hf]
        case isFalse h => rfl

end

-- The entry of a player as a window that lets one alert through.
def lifecycleWindow (previous : Time) : Window where
  count       := 1
  windowStart := previous

def LIFECYCLE_LIMIT : Limit where
  max := 1
  ms  := 15000

-- The limits know what has been let through.
structure Store.Limited (s : Store) : Prop where
  sends     : ∀ key, DISCORD_RATE_LIMIT.Tracks s.clock (s.rateLimitMap.get key) (s.sendsOf key)
  lifecycle : ∀ key, LIFECYCLE_LIMIT.Tracks s.clock
    ((s.recentPlayerLifecycleAlerts.get key).map lifecycleWindow) (s.lifecycleOf key)

theorem Store.Booted.limited (h : s.Booted) : s.Limited where
  sends key := by
    rw [h.rateLimitMap, sendsOf, h.sends]
    exact .nil
  lifecycle key := by
    rw [h.recent, lifecycleOf, h.lifecycle]
    exact .nil

theorem Store.Limited.elapse (h : s.Limited) (ms : Nat) : (s.elapse ms).Limited where
  sends key     := (h.sends key).elapse ms
  lifecycle key := (h.lifecycle key).elapse ms

theorem tracks_fresh {now : Time} {entry : Option Window} {ds : List Decision}
    (h : DISCORD_RATE_LIMIT.Tracks now entry ds) :
    DISCORD_RATE_LIMIT.Tracks now (fresh now entry) ds := by
  cases entry
  case none   => exact h
  case some w =>
    rw [fresh, Option.filter_some]
    split
    case isTrue     => exact h
    case isFalse hw => exact h.clear (Nat.le_of_not_lt fun hlt => hw (decide_eq_true hlt))

theorem tracks_tryConsumeRateLimit (h : s.Limited) (key k : RateLimitKey) :
    DISCORD_RATE_LIMIT.Tracks s.clock ((s.tryConsumeRateLimit key).2.get k)
      (decisionsOf k ((key, s.clock, (s.tryConsumeRateLimit key).1) :: s.sends)) := by
  have hf := tracks_fresh (h.sends k)
  rw [get_tryConsumeRateLimit, fst_tryConsumeRateLimit]
  by_cases hk : k = key
  case neg => rwa [if_neg hk, decisionsOf_cons_of_ne hk]
  case pos =>
    subst hk
    rw [if_pos rfl, decisionsOf_cons_self]
    exact hf.receive (by decide) (by decide)

section

variable {key k : LifecycleKey}

theorem admitLifecycle_old
    (h : (s.recentPlayerLifecycleAlerts.get key).any (s.clock < · + 15000) = true) :
    s.admitLifecycle key = (false, s.recentPlayerLifecycleAlerts) := by
  rw [Store.admitLifecycle, if_pos h]

-- The other entries are left alone, or those that are over are deleted.
theorem admitLifecycle_new
    (h : (s.recentPlayerLifecycleAlerts.get key).any (s.clock < · + 15000) = false) :
    (s.admitLifecycle key).1 = true ∧ (s.admitLifecycle key).2.get key = some s.clock ∧
      ∀ k ≠ key, (s.admitLifecycle key).2.get k = s.recentPlayerLifecycleAlerts.get k ∨
        (s.admitLifecycle key).2.get k =
          (s.recentPlayerLifecycleAlerts.get k).filter (s.clock < · + 15000) := by
  rw [Store.admitLifecycle, if_neg (h ▸ Bool.false_ne_true)]
  refine ⟨rfl, ?_⟩
  dsimp only
  split
  case isFalse =>
    exact ⟨Js.Map.get_set_self, fun k hk => .inl (Js.Map.get_set_of_ne hk)⟩
  case isTrue =>
    refine ⟨?_, fun k hk => .inr ?_⟩
    case refine_1 =>
      rw [Js.Map.get_prune, Js.Map.get_set_self, Option.filter_some, if_pos]
      exact decide_eq_true (Nat.lt_add_of_pos_right (by decide))
    case refine_2 => rw [Js.Map.get_prune, Js.Map.get_set_of_ne hk]

theorem tracks_admitLifecycle (h : s.Limited) (key k : LifecycleKey) :
    LIFECYCLE_LIMIT.Tracks s.clock (((s.admitLifecycle key).2.get k).map lifecycleWindow)
      (decisionsOf k ((key, s.clock, (s.admitLifecycle key).1) :: s.lifecycle)) := by
  have ht := h.lifecycle k
  have hk' := ht.receive (by decide) (by decide)
  cases ha : (s.recentPlayerLifecycleAlerts.get key).any (s.clock < · + 15000)
  case true =>
    rw [admitLifecycle_old ha]
    by_cases hk : k = key
    case neg => rwa [decisionsOf_cons_of_ne hk]
    case pos =>
      subst hk
      obtain ⟨previous, hp, hlt⟩ := (Option.any_eq_true ..).mp ha
      have hlt : s.clock < (lifecycleWindow previous).windowStart + LIFECYCLE_LIMIT.ms :=
        of_decide_eq_true hlt
      rw [hp, Option.map_some, Limit.receive_full hlt (Nat.le_refl 1)] at hk'
      rwa [hp, decisionsOf_cons_self]
  case false =>
    obtain ⟨hf, hg, ho⟩ := admitLifecycle_new ha
    rw [hf]
    by_cases hk : k = key
    case pos =>
      subst hk
      have hn : LIFECYCLE_LIMIT.receive s.clock
          ((s.recentPlayerLifecycleAlerts.get k).map lifecycleWindow) =
            (true, some (lifecycleWindow s.clock)) := by
        cases hp : s.recentPlayerLifecycleAlerts.get k
        case none => rfl
        case some previous =>
          rw [hp] at ha
          have hle : (lifecycleWindow previous).windowStart + LIFECYCLE_LIMIT.ms ≤ s.clock :=
            Nat.le_of_not_lt (of_decide_eq_false ha)
          exact Limit.receive_late hle
      rw [hn] at hk'
      rwa [hg, decisionsOf_cons_self]
    case neg =>
      rw [decisionsOf_cons_of_ne hk]
      obtain ho | ho := ho k hk <;> rw [ho]
      case inl => exact ht
      case inr =>
        cases hp : s.recentPlayerLifecycleAlerts.get k
        case none => rwa [hp] at ht
        case some previous =>
          rw [hp] at ht
          rw [Option.filter_some]
          split
          case isTrue     => exact ht
          case isFalse hw => exact ht.clear (Nat.le_of_not_lt fun hlt => hw (decide_eq_true hlt))

end

-- No command forgets what the limits have let through.
theorem limited_exec (c : Cmd) (h : s.Limited) : (exec c s).2.Limited := by
  cases c
  case admitLifecycle key =>
    exact ⟨h.sends, tracks_admitLifecycle h key⟩
  case tryConsumeRateLimit key =>
    exact ⟨tracks_tryConsumeRateLimit h key, h.lifecycle⟩
  all_goals
    rw [exec]
    try split
    all_goals exact ⟨h.sends, h.lifecycle⟩

theorem Store.Limited.send (h : s.Limited) {key : RateLimitKey} {d : Decision}
    {later earlier : List Decision} (hd : s.sendsOf key = later ++ d :: earlier) :
    DISCORD_RATE_LIMIT.Justified (accepted earlier) d := by
  have hj := (h.sends key).decided
  rw [hd] at hj
  exact hj.justified

theorem Store.Limited.alert (h : s.Limited) {key : LifecycleKey} {d : Decision}
    {later earlier : List Decision} (hd : s.lifecycleOf key = later ++ d :: earlier) :
    LIFECYCLE_LIMIT.Justified (accepted earlier) d := by
  have hj := (h.lifecycle key).decided
  rw [hd] at hj
  exact hj.justified

section

variable {es : List (requests upper lower parseUrl).Event}

theorem limited_run (h : s.Booted) :
    ((requests upper lower parseUrl).run (.idle s) es).state.Limited :=
  Pool.run_state (B := controlPlane) (R := fun (s s' : Store) => s.Limited → s'.Limited) (fun _ => id)
    (fun _ _ _ h h' hs => h' (h hs)) (fun c _ => limited_exec c) (fun ms _ hs => hs.elapse ms) h.limited

-- In `k` minutes no more messages of a key are let through than the limit allows in `k + 1`.
theorem sends_let_through (h : s.Booted) (key : RateLimitKey) (x k : Nat) :
    (accepted (((requests upper lower parseUrl).run (.idle s) es).state.sendsOf key)).countP
      (fun t => x ≤ t ∧ t < x + k * 60000) ≤ (k + 1) * 10 :=
  ((limited_run h).sends key).count_le x k

-- Eleven donations are relayed at once.
def burst : List (requests id id fun _ => none).Event :=
  (List.range 11).flatMap fun i => [.start (.relay "https://discord.com" {} (.donation 0)), .serve i]

theorem sends_let_through_burst :
    (accepted (((requests id id fun _ => none).run (.idle {}) burst).state.sendsOf (.donation 0))).countP
      (fun t => 0 ≤ t ∧ t < 0 + 1 * 60000) ≤ (1 + 1) * 10 :=
  sends_let_through ⟨rfl, rfl, rfl, rfl, rfl⟩ (.donation 0) 0 1

-- A message is refused only if ten of its key have been let through in the last minute.
theorem send_refused (h : s.Booted) (key : RateLimitKey) {later earlier : List Decision} {t : Time}
    (hd : ((requests upper lower parseUrl).run (.idle s) es).state.sendsOf key =
      later ++ (t, false) :: earlier) : 10 ≤ (accepted earlier).countP (t < · + 60000) :=
  ((limited_run h).send hd).refused rfl

theorem send_refused_burst :
    10 ≤ (accepted (List.replicate 10 (0, true))).countP (0 < · + 60000) :=
  @send_refused {} id id (fun _ => none) burst ⟨rfl, rfl, rfl, rfl, rfl⟩ (.donation 0) []
    (List.replicate 10 (0, true)) 0 rfl

-- An alert about a player is let through if and only if none was in the last 15 seconds.
theorem lifecycle_let_through (h : s.Booted) (key : LifecycleKey) {later earlier : List Decision}
    {t : Time} {admitted : Bool}
    (hd : ((requests upper lower parseUrl).run (.idle s) es).state.lifecycleOf key =
      later ++ (t, admitted) :: earlier) :
    admitted = true ↔ ∀ t' ∈ accepted earlier, t' + 15000 ≤ t :=
  ((limited_run h).alert hd).single_iff rfl

-- A player joins twice within ten seconds.
def rejoin : List (requests id id fun _ => none).Event :=
  [.start (.matching .playerConnected { orgId := 0, playerName := some "Steve" }), .serve 0,
    .world (10000 : Nat), .start (.matching .playerConnected { orgId := 0, playerName := some "Steve" }),
    .serve 1]

theorem lifecycle_let_through_rejoin :
    false = true ↔ ∀ t ∈ accepted [(0, true)], t + 15000 ≤ 10000 :=
  @lifecycle_let_through {} id id (fun _ => none) rejoin ⟨rfl, rfl, rfl, rfl, rfl⟩
    { orgId := 0, serverInstanceId := none, type := .playerConnected, player := "Steve" } []
    [(0, true)] 10000 false rfl

end

end Alerts
