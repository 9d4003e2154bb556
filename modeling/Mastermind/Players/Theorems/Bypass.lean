import Mastermind.Effects.Runs
import Mastermind.Players.Roster

open Effects Effects.Prog Js Jobs Triggers

namespace Players

-- The commands that are only about triggers, fires and jobs. New fires are those that `K` allows.
def OnTriggers (K : TriggerId → PlayerId → String → Prop) : Cmd → Prop
  | .now | .findTriggers .. | .touchTrigger .. | .findFire .. | .findFireById _ | .updateFire ..
  | .resetStale .. | .findPending .. | .findPendingOf _ | .enqueueInternalJob .. => True
  | .createFire triggerId playerId eventKey _ => K triggerId playerId eventKey
  | _                                         => False

-- The commands that leave the players and their sessions alone. New fires are those that `K` allows.
def Bypass (K : TriggerId → PlayerId → String → Prop) : Cmd → Prop
  | .upsertPlayer ..                         => False
  | .transaction _                           => False
  | .createSession _                         => False
  | .createFire triggerId playerId eventKey _ => K triggerId playerId eventKey
  | _                                        => True

-- The players and their sessions are the same.
structure Beside (s s' : Store) : Prop where
  players  : s'.players = s.players
  sessions : s'.sessions = s.sessions

variable {K : TriggerId → PlayerId → String → Prop} {fireId : Option FireId} {data : FireData}
  {triggerId : TriggerId} {trigger : Trigger} {player : TriggerPlayer} {eventKey : String}
  {action : GrantItemsActionConfig} {recordFire : Bool} {orgId : OrgId} {serverInstanceId : ServerId}
  {fires : List FireRow} {triggers : List (TriggerId × Trigger)} {s s' : Store}

theorem Beside.refl : Beside s s :=
  ⟨rfl, rfl⟩

theorem Beside.trans {s₁ : Store} (h : Beside s s₁) (h' : Beside s₁ s') : Beside s s' :=
  ⟨h'.1.trans h.1, h'.2.trans h.2⟩

theorem OnTriggers.bypass {c : Cmd} (h : OnTriggers K c) : Bypass K c := by
  cases c <;> first | exact h | trivial

variable [Naming]

theorem onTriggers_send {c : Cmd} (h : OnTriggers K c) : Only (OnTriggers K) (send c) :=
  .perform h

theorem onTriggers_updateFire : Only (OnTriggers K) (updateFire fireId data) := by
  cases fireId
  case none => exact .pure
  case some => exact onTriggers_send trivial

theorem onTriggers_exhaustedFire : Only (OnTriggers K) (exhaustedFire fireId) := by
  cases fireId
  case none => exact .pure
  case some =>
    refine .bind (onTriggers_send trivial) fun fire => ?_
    cases fire
    case none => exact .pure
    case some => exact .ite .pure .pure

theorem onTriggers_giveItems :
    Only (OnTriggers K) (giveItems triggerId trigger player eventKey action recordFire fireId) := by
  refine .ite onTriggers_updateFire <| onTriggers_exhaustedFire.bind fun exhausted => ?_
  cases exhausted
  case some => exact onTriggers_send trivial
  case none =>
    refine .bind (onTriggers_send trivial) fun _ => onTriggers_updateFire.bind fun _ => .ite ?_ .pure
    exact .bind (onTriggers_send trivial) fun _ => onTriggers_send trivial

-- A fire is recorded if its caller wants that.
theorem onTriggers_grantedFire (h : recordFire = true → K triggerId player.id eventKey) :
    Only (OnTriggers K) (grantedFire triggerId player eventKey recordFire) := by
  cases recordFire
  case true  => exact .handle (.bind (onTriggers_send (h rfl)) fun _ => .pure) fun _ => .pure
  case false => exact .bind (onTriggers_send trivial) fun _ => .pure

theorem onTriggers_enqueueGrantItems (h : recordFire = true → K triggerId player.id eventKey) :
    Only (OnTriggers K) (enqueueGrantItems triggerId trigger player eventKey recordFire) := by
  rw [enqueueGrantItems]
  split
  case h_1 => exact .throw
  case h_2 =>
    refine (onTriggers_grantedFire h).bind fun fireId => ?_
    cases fireId
    case none => exact .pure
    case some => exact onTriggers_giveItems

theorem onTriggers_fireOnce (h : K triggerId player.id eventKey) :
    Only (OnTriggers K) (fireOnce triggerId trigger player eventKey) := by
  refine .bind (onTriggers_send trivial) fun existing => ?_
  cases existing
  case some => exact .pure
  case none => exact onTriggers_enqueueGrantItems fun _ => h

theorem onTriggers_ignoreErrors {p : Service Unit} (h : Only (OnTriggers K) p) :
    Only (OnTriggers K) (ignoreErrors p) :=
  .handle h fun _ => .pure

theorem onTriggers_fireAll {key : Trigger → Option String}
    (h : ∀ e ∈ triggers, ∀ eventKey, key e.2 = some eventKey → K e.1 player.id eventKey) :
    Only (OnTriggers K) (fireAll player key triggers) := by
  induction triggers
  case nil => exact .pure
  case cons e triggers hi =>
    have ⟨he, h⟩ := List.forall_mem_cons.mp h
    rw [fireAll]
    split
    case h_1    => exact hi h
    case h_2 hk => exact (onTriggers_ignoreErrors <| onTriggers_fireOnce (he _ hk)).bind fun _ => hi h

theorem onTriggers_evaluateFirstJoin (h : ∀ id, K id player.id eventKeyForFirstJoin) :
    Only (OnTriggers K) (evaluateFirstJoin orgId serverInstanceId player) :=
  .bind (onTriggers_send trivial) fun _ => onTriggers_fireAll fun _ _ _ hk => Option.some.inj hk ▸ h _

theorem onTriggers_evaluatePlaytime {previous next : Int}
    (h : ∀ id t eventKey, playtimeKey previous next t = some eventKey → K id player.id eventKey) :
    Only (OnTriggers K) (evaluatePlaytime orgId serverInstanceId player previous next) :=
  .bind (onTriggers_send trivial) fun _ => onTriggers_fireAll fun _ _ _ hk => h _ _ _ hk

theorem onTriggers_retryFires : Only (OnTriggers K) (retryFires fires) := by
  induction fires
  case nil     => exact .pure
  case cons hi => exact .bind (onTriggers_ignoreErrors <| onTriggers_enqueueGrantItems nofun) fun _ => hi

theorem onTriggers_retryPendingItemGrantsForPlayer {id : PlayerId} :
    Only (OnTriggers K) (retryPendingItemGrantsForPlayer id) :=
  .bind (onTriggers_send trivial) fun _ => onTriggers_retryFires

theorem onTriggers_retryPendingItemGrants :
    Only (OnTriggers K) (retryPendingItemGrants orgId serverInstanceId) :=
  .bind (onTriggers_send trivial) fun _ => .bind (onTriggers_send trivial) fun _ =>
    .bind (onTriggers_send trivial) fun _ => onTriggers_retryFires

theorem onTriggers_completeItemGrant {payload : GrantPayload} {runStatus : RunStatus} {output : String} :
    Only (OnTriggers K) (completeItemGrant payload runStatus output) := by
  rw [completeItemGrant]
  split
  case h_1 => exact .pure
  case h_2 =>
    refine .bind (onTriggers_send trivial) fun fire => ?_
    cases fire
    case none => exact .pure
    case some => exact .ite (onTriggers_send trivial) <| .ite (onTriggers_send trivial) (onTriggers_send trivial)

theorem exec_bypass {c : Cmd} (h : Bypass K c) : Beside s (exec c s).2 := by
  cases c <;> rw [exec] <;> try exact .refl
  case upsertPlayer       => exact h.elim
  case transaction        => exact h.elim
  case createSession      => exact h.elim
  case touchTrigger       => split <;> exact ⟨rfl, rfl⟩
  case createFire         => split <;> exact ⟨rfl, rfl⟩
  case updateFire         => split <;> exact ⟨rfl, rfl⟩
  case enqueueInternalJob => split <;> exact ⟨rfl, rfl⟩
  case resetStale         => exact ⟨rfl, rfl⟩
  case setLineBuffer      => exact ⟨rfl, rfl⟩
  case notify             => exact ⟨rfl, rfl⟩

theorem wp_bypass {α : Type} {p : Service α} (h : Only (Bypass K) p) :
    wp (under roster .none) (fun _ => Beside s) p s :=
  h.wp_under (fun _ _ hc hs => hs.trans (exec_bypass hc)) .refl

-- A program that returns, and that leaves the players and their sessions alone.
def Spares {α : Type} (p : Service α) : Prop :=
  ∀ s : Store, wp (under roster .none) (returns (Beside s)) p s

theorem Spares.pure {α : Type} {x : α} : Spares (pure x) :=
  Leads.pure (B := roster) (R := Beside) fun _ => .refl

theorem Spares.bind {α β : Type} {p : Service α} {f : α → Service β} (h : Spares p)
    (hf : ∀ x, Spares (f x)) : Spares (p >>= f) :=
  Leads.bind (B := roster) (R := Beside) (fun _ _ _ => Beside.trans) h hf

theorem Spares.ite {α : Type} {c : Prop} [Decidable c] {p p' : Service α} (h : Spares p)
    (h' : Spares p') : Spares (if c then p else p') :=
  Leads.ite (B := roster) (R := Beside) h h'

theorem spares_ignoreErrors {p : Service Unit} (h : Only (Bypass fun _ _ _ => True) p) :
    Spares (ignoreErrors p) :=
  Leads.ignore (B := roster) (R := Beside) (fun _ => .refl) (fun _ _ _ => Beside.trans) (fun _ _ => exec_bypass) h

theorem spares_notify {notice : Notice} : Spares (ignoreErrors (send (.notify notice))) :=
  spares_ignoreErrors (.perform trivial)

theorem spares_evaluatePlaytime {previous next : Int} :
    Spares (ignoreErrors (evaluatePlaytime orgId serverInstanceId player previous next)) :=
  spares_ignoreErrors <|
    (onTriggers_evaluatePlaytime fun _ _ _ _ => trivial).mono fun _ => OnTriggers.bypass

theorem spares_welcome {existing : Option Player} :
    Spares (welcome orgId serverInstanceId existing player) :=
  .ite (spares_ignoreErrors <|
    (onTriggers_evaluateFirstJoin fun _ => trivial).mono fun _ => OnTriggers.bypass) .pure

theorem spares_connect {serverInstanceName name : String} {existing : Option Player} {id : PlayerId}
    {uuid : Option String} :
    Spares (connect orgId serverInstanceId serverInstanceName existing id name uuid) :=
  .ite .pure <| .bind (spares_ignoreErrors <|
    onTriggers_retryPendingItemGrantsForPlayer.mono fun _ => OnTriggers.bypass) fun _ => spares_notify

end Players
