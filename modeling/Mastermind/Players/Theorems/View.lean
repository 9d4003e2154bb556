import Mastermind.Players.Requests
import Mastermind.Players.Theorems.Bypass
import Mastermind.Players.Theorems.Merge

open Effects Js Jobs Triggers

namespace Players

-- What a fire has been created for.
abbrev Mark :=
  TriggerId × PlayerId × String

def TriggerFire.mark (f : TriggerFire) : Mark :=
  (f.triggerId, f.playerId, f.eventKey)

-- A trigger without the record of its use.
def Trigger.rule (t : Trigger) : Trigger :=
  { t with lastFiredAt := none, fireCount := 0 }

def Player.identity (p : Player) : ServerId × IdentityKey :=
  (p.serverInstanceId, p.identityKey)

def Row.map {ρ ρ' : Type} (f : ρ → ρ') (r : Row ρ) : Row ρ' where
  data := f r.data
  live := r.live

-- Who the players are and which first-join rewards they have got. Rows that have been deleted count.
structure View where
  servers    : Table ServerInstance
  rules      : Table Trigger
  identities : Table (Row (ServerId × IdentityKey))
  firstJoins : List Mark

def Store.view (s : Store) : View where
  servers    := s.servers
  rules      := s.triggers.map Trigger.rule
  identities := s.players.map (Row.map Player.identity)
  firstJoins := (s.fires.map fun r => r.data.mark).filter (·.2.2 = eventKeyForFirstJoin)

def Write.Quiet : Write → Prop
  | .moveSessions ..     => True
  | .endSessions ..      => True
  | .updatePlayer _ data => data.identityKey = none
  | .deletePlayer _      => False

-- The commands that leave the view as it is.
def Quiet : Cmd → Prop
  | .upsertPlayer ..          => False
  | .transaction writes       => ∀ w ∈ writes, w.Quiet
  | .createFire _ _ eventKey _ => eventKey ≠ eventKeyForFirstJoin
  | _                         => True

section

variable {ρ β : Type} {t : Table ρ} {k : Nat} {f : ρ → ρ} {g : ρ → β}

-- A change that does not show.
theorem map_modify (h : ∀ r, g (f r) = g r) : (t.modify k f).map g = t.map g := by
  apply List.ext_getElem?
  intro i
  simp only [List.getElem?_map, List.getElem?_modify]
  split
  case isFalse => simp
  case isTrue  => cases t[i]? <;> simp [h]

theorem map_map_of_eq (h : ∀ r, g (f r) = g r) : (t.map f).map g = t.map g := by
  simp [List.map_map, Function.comp_def, h]

end

variable {s : Store}

theorem identity_apply {data : PlayerData} (h : data.identityKey = none) (r : Row Player) :
    (r.modify data.apply).map Player.identity = r.map Player.identity := by
  simp [Row.modify, Row.map, Player.identity, PlayerData.apply, h]

theorem Write.exec_quiet {w : Write} {s' : Store} (h : w.Quiet) (hx : w.exec s = some s') :
    s'.view = s.view := by
  cases w
  case moveSessions => cases hx; rfl
  case endSessions  => cases hx; rfl
  case deletePlayer => exact h.elim
  case updatePlayer id data =>
    simp only [Write.exec, Option.map_eq_some_iff] at hx
    obtain ⟨_, _, rfl⟩ := hx
    simp [Store.view, map_modify (identity_apply h)]

theorem foldlM_quiet {ws : List Write} {s' : Store} (h : ∀ w ∈ ws, w.Quiet)
    (hx : ws.foldlM (fun s w => w.exec s) s = some s') : s'.view = s.view := by
  induction ws generalizing s
  case nil => cases hx; rfl
  case cons w ws hi =>
    rw [List.foldlM_cons] at hx
    have ⟨s₁, h₁, hx⟩ := Option.bind_eq_some_iff.mp hx
    rw [hi (fun w hw => h w (List.mem_cons_of_mem _ hw)) hx]
    exact w.exec_quiet (h w List.mem_cons_self) h₁

theorem exec_quiet [Naming] {c : Cmd} (h : Quiet c) : (exec c s).2.view = s.view := by
  cases c <;> try rfl
  case upsertPlayer => exact h.elim
  case transaction ws =>
    rw [exec]
    split
    case h_1 s' hx => exact foldlM_quiet h hx
    case h_2       => rfl
  case touchTrigger =>
    rw [exec]
    split
    case isTrue =>
      simp only [Store.view]
      rw [map_modify]
      exact fun _ => rfl
    case isFalse => rfl
  case createFire =>
    rw [exec]
    split
    case isTrue  => rfl
    case isFalse => simp [Store.view, TriggerFire.mark, show _ ≠ _ from h]
  case updateFire =>
    rw [exec]
    split
    case h_1 =>
      simp only [Store.view]
      rw [map_modify]
      exact fun _ => rfl
    case h_2 => rfl
  case resetStale =>
    simp only [exec, Store.view]
    rw [map_map_of_eq]
    intro r
    split <;> rfl
  case enqueueInternalJob =>
    rw [exec]
    split <;> rfl

theorem Write.exec_servers {w : Write} {s' : Store} (hx : w.exec s = some s') :
    s'.servers = s.servers := by
  cases w
  case moveSessions => cases hx; rfl
  case endSessions  => cases hx; rfl
  case deletePlayer => obtain ⟨_, _, rfl⟩ := Option.map_eq_some_iff.mp hx; rfl
  case updatePlayer => obtain ⟨_, _, rfl⟩ := Option.map_eq_some_iff.mp hx; rfl

theorem foldlM_servers {ws : List Write} {s' : Store}
    (hx : ws.foldlM (fun s w => w.exec s) s = some s') : s'.servers = s.servers := by
  induction ws generalizing s
  case nil => cases hx; rfl
  case cons w ws hi =>
    rw [List.foldlM_cons] at hx
    have ⟨s₁, h₁, hx⟩ := Option.bind_eq_some_iff.mp hx
    exact (hi hx).trans (w.exec_servers h₁)

theorem exec_servers [Naming] (c : Cmd) : (exec c s).2.servers = s.servers := by
  cases c <;> rw [exec] <;> try rfl
  case upsertPlayer       => split <;> rfl
  case touchTrigger       => split <;> rfl
  case createFire         => split <;> rfl
  case updateFire         => split <;> rfl
  case enqueueInternalJob => split <;> rfl
  case transaction =>
    split
    case h_1 hx => exact foldlM_servers hx
    case h_2    => rfl

section

open Effects.Prog

variable {fireId : Option FireId} {data : FireData} {triggerId : TriggerId} {trigger : Trigger}
  {player : TriggerPlayer} {eventKey : String} {action : GrantItemsActionConfig} {recordFire : Bool}
  {orgId : OrgId} {serverInstanceId : ServerId} {fires : List FireRow}
  {triggers : List (TriggerId × Trigger)}

theorem OnTriggers.quiet {c : Cmd}
    (h : OnTriggers (fun _ _ eventKey => eventKey ≠ eventKeyForFirstJoin) c) : Quiet c := by
  cases c <;> first | exact h.elim | exact h

theorem playtimeKey_ne {previous next : Int} (t : Trigger) :
    playtimeKey previous next t ≠ some eventKeyForFirstJoin := by
  rw [playtimeKey]
  split
  case h_1 => nofun
  case h_2 =>
    split
    case isFalse => nofun
    case isTrue  =>
      intro h
      have := congrArg (·.toList.head?) <| Option.some.inj h
      simp [eventKeyForPlaytime, eventKeyForFirstJoin] at this

variable [Naming]

theorem quiet_send {c : Cmd} (h : Quiet c) : Only Quiet (send c) :=
  .perform h

theorem quiet_of_onTriggers {α : Type} {p : Service α}
    (h : Only (OnTriggers fun _ _ eventKey => eventKey ≠ eventKeyForFirstJoin) p) : Only Quiet p :=
  h.mono fun _ => OnTriggers.quiet

theorem quiet_giveItems :
    Only Quiet (giveItems triggerId trigger player eventKey action recordFire fireId) :=
  quiet_of_onTriggers onTriggers_giveItems

theorem quiet_evaluatePlaytime {previous next : Int} :
    Only Quiet (evaluatePlaytime orgId serverInstanceId player previous next) :=
  quiet_of_onTriggers <| onTriggers_evaluatePlaytime fun _ t _ hk he => playtimeKey_ne t (he ▸ hk)

theorem quiet_retryPendingItemGrantsForPlayer {id : PlayerId} :
    Only Quiet (retryPendingItemGrantsForPlayer id) :=
  quiet_of_onTriggers onTriggers_retryPendingItemGrantsForPlayer

theorem quiet_retryPendingItemGrants :
    Only Quiet (retryPendingItemGrants orgId serverInstanceId) :=
  quiet_of_onTriggers onTriggers_retryPendingItemGrants

theorem quiet_completeItemGrant {payload : GrantPayload} {runStatus : RunStatus} {output : String} :
    Only Quiet (completeItemGrant payload runStatus output) :=
  quiet_of_onTriggers onTriggers_completeItemGrant

variable {v : View} {α : Type}

theorem wp_quiet {p : Service α} (h : Only Quiet p) (hs : s.view = v) :
    wp (under roster .none) (fun _ s => s.view = v) p s :=
  h.wp_under (fun _ _ hc hs => (exec_quiet hc).trans hs) hs

theorem run_quiet {p : Service α} (h : Only Quiet p) : (p.run [] s).state.view = s.view :=
  wp_run_nil (wp_quiet h rfl)

theorem wp_servers {p : Service α} :
    wp (under roster .none) (fun _ s' => s'.servers = s.servers) p s :=
  Only.always.wp_under (fun _ c _ hs => (exec_servers c).trans hs) rfl

-- A program that returns, and that leaves the view as it is.
def Keeps (p : Service α) : Prop :=
  ∀ s : Store, wp (under roster .none) (returns fun s' => s'.view = s.view) p s

theorem Keeps.pure {x : α} : Keeps (pure x) :=
  fun _ => rfl

theorem Keeps.bind {β : Type} {p : Service α} {f : α → Service β} (h : Keeps p)
    (hf : ∀ x, Keeps (f x)) : Keeps (p >>= f) := by
  intro s
  refine wp_bind_returns (h s) fun x s' hs => ?_
  exact hs ▸ hf x s'

theorem Keeps.ite {c : Prop} [Decidable c] {p p' : Service α} (h : Keeps p) (h' : Keeps p') :
    Keeps (if c then p else p') := by
  split
  case isTrue  => exact h
  case isFalse => exact h'

-- What holds of the view still holds.
theorem Keeps.wp {p : Service α} (h : Keeps p) {I : View → Prop} (hs : I s.view) :
    wp (under roster .none) (returns fun s' => I s'.view) p s := by
  exact wp_returns_mono (h s) fun s' h => Eq.symm h ▸ hs

theorem keeps_ignoreErrors {p : Service Unit} (h : Only Quiet p) : Keeps (ignoreErrors p) :=
  fun _ => wp_handle_returns (wp_quiet h rfl) fun _ _ hs => hs

theorem keeps_createSession {row : PlayerSession} : Keeps (send (.createSession row)) :=
  fun _ => wp_last rfl rfl fun _ _ => False.elim

theorem keeps_connect {serverInstanceName name : String} {existing : Option Player} {id : PlayerId}
    {uuid : Option String} :
    Keeps (connect orgId serverInstanceId serverInstanceName existing id name uuid) :=
  .ite .pure <| .bind (keeps_ignoreErrors quiet_retryPendingItemGrantsForPlayer) fun _ =>
    keeps_ignoreErrors <| quiet_send trivial

theorem keeps_openSession {now : Time} {existing : Option Player} {id : PlayerId} :
    Keeps (openSession existing id now) :=
  .ite .pure keeps_createSession

theorem keeps_farewell {previous next : Int} {notice : Notice} :
    Keeps (do
      ignoreErrors (evaluatePlaytime orgId serverInstanceId player previous next)
      ignoreErrors (send (.notify notice))) :=
  .bind (keeps_ignoreErrors quiet_evaluatePlaytime) fun _ => keeps_ignoreErrors <| quiet_send trivial

theorem wp_endSession {id : PlayerId} {data : PlayerData} {endedAt : Time} {duration : Nat}
    (hp : (s.player? id).isSome = true) (hd : data.identityKey = none) :
    wp (under roster .none) (returns fun s' => s'.view = s.view)
      (endSession id data endedAt duration) s := by
  have ⟨p, hp⟩ := Option.isSome_iff_exists.mp hp
  have hq : Quiet (.transaction (sessionEnd id data endedAt duration)) := by
    intro w hw
    simp only [sessionEnd, List.mem_cons, List.not_mem_nil, or_false] at hw
    rcases hw with rfl | rfl
    case inl => exact hd
    case inr => trivial
  have hv := exec_quiet (s := s) hq
  have ⟨s', hx⟩ : ∃ s', exec (.transaction (sessionEnd id data endedAt duration)) s = (.ok (), s') :=
    ⟨_, by simp only [exec, sessionEnd, List.foldlM, Write.exec, hp]; rfl⟩
  rw [hx] at hv
  exact wp_last hx hv fun _ _ => False.elim

end

end Players
