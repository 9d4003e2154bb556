import Mastermind.Players.Evaluations

open Effects Effects.Prog Js Jobs Triggers

namespace Players

variable [Naming]

variable {s : Store} {l : List Evaluation} {orgId : OrgId} {serverInstanceId : ServerId}
  {serverInstanceName name : String} {now : Time} {p : Store × List Evaluation} {e : Message}

theorem erase_ignoreErrors {x : Noted Unit} : (Noted.ignoreErrors x).erase = ignoreErrors x.erase :=
  erase_handle

theorem erase_evaluatePlaytime {player : TriggerPlayer} {previous next : Int} :
    (Noted.evaluatePlaytime orgId serverInstanceId player previous next).erase =
      evaluatePlaytime orgId serverInstanceId player previous next := by
  rw [Noted.evaluatePlaytime, erase_bind]
  exact erase_silently

theorem erase_handleLeft {identityKey : IdentityKey} {existing : Option (PlayerId × Player)} :
    (Noted.handleLeft orgId serverInstanceId serverInstanceName name identityKey existing
        now).erase =
      handleLeft orgId serverInstanceId serverInstanceName name identityKey existing now := by
  cases existing
  case none   => rfl
  case some e =>
    rw [Noted.handleLeft, handleLeft]
    split
    case isFalse => rfl
    case isTrue  =>
      simp only [erase_bind, erase_silently, erase_ignoreErrors, erase_evaluatePlaytime]

theorem erase_handleNamed {joined : Bool} :
    (Noted.handleNamed orgId serverInstanceId serverInstanceName joined name).erase =
      handleNamed orgId serverInstanceId serverInstanceName joined name := by
  cases joined <;>
    simp only [Noted.handleNamed, handleNamed, erase_bind, erase_pure, erase_silently,
      erase_handleLeft, apply_ite erase, if_true, Bool.false_eq_true, if_false]

theorem erase_handleLine {line : LogLine} :
    (Noted.handleLine orgId serverInstanceId serverInstanceName line).erase =
      handleLine orgId serverInstanceId serverInstanceName line := by
  cases line
  case uuid   => exact erase_silently
  case joined => exact erase_handleNamed
  case left   => exact erase_handleNamed
  case other  => rfl

theorem erase_parsePlayers {content : String} :
    (Noted.parsePlayers orgId serverInstanceId serverInstanceName content).erase =
      parsePlayers orgId serverInstanceId serverInstanceName content := by
  simp only [Noted.parsePlayers, parsePlayers, erase_bind, erase_silently, erase_forEach,
    erase_handleLine]

theorem erase_applyRow {row : PlayerRosterRow} :
    (Noted.applyRow orgId serverInstanceId serverInstanceName now row).erase =
      applyRow orgId serverInstanceId serverInstanceName now row := by
  simp only [Noted.applyRow, applyRow, erase_bind, erase_silently, erase_ignoreErrors,
    erase_evaluatePlaytime]

theorem erase_applyMissing {missing : PlayerId × Player} :
    (Noted.applyMissing orgId serverInstanceId serverInstanceName now missing).erase =
      applyMissing orgId serverInstanceId serverInstanceName now missing := by
  simp only [Noted.applyMissing, applyMissing, erase_bind, erase_silently, erase_ignoreErrors,
    erase_evaluatePlaytime]

theorem erase_applyPlayerRoster {rows : List PlayerRosterRow} :
    (Noted.applyPlayerRoster orgId serverInstanceId rows).erase =
      applyPlayerRoster orgId serverInstanceId rows := by
  simp only [Noted.applyPlayerRoster, applyPlayerRoster, erase_bind, erase_silently, erase_forEach,
    erase_applyRow, erase_applyMissing]

-- The notes change nothing.
theorem evaluated_next : (evaluated.next p e).1 = messages.next p.1 e := by
  cases e
  case report => rfl
  case elapse => rfl
  case chunk serverInstanceId content =>
    cases hs : p.1.servers[serverInstanceId]?
    case none        => simp only [hs]
    case some server =>
      simp only [hs, ← erase_parsePlayers]
      exact run_erase.left.symm
  case roster serverInstanceId players =>
    cases hs : p.1.servers[serverInstanceId]?
    case none        => simp only [hs]
    case some server =>
      simp only [hs, ← erase_applyPlayerRoster]
      exact run_erase.left.symm

theorem evaluated_run {es : List Message} : (evaluated.run p es).1 = messages.run p.1 es := by
  induction es generalizing p
  case nil     => rfl
  case cons hi => rw [System.run_cons, System.run_cons, hi, evaluated_next]

end Players
