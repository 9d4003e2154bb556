import Mastermind.Players.Requests
import Mastermind.Players.Theorems.Bypass

open Effects Effects.Prog Js Jobs

namespace Players

-- The commands that leave the line buffers alone.
def Unbuffered : Cmd → Prop
  | .setLineBuffer .. => False
  | _                 => True

-- The unfinished line of a server's log.
def Store.lineBuffer (s : Store) (id : ServerId) : String :=
  (s.lineBuffers.lookup id).getD ""

-- The chunk of a server's log that a message brings.
def Message.content? (id : ServerId) : Message → Option String
  | .chunk id' content => if id' = id then some content else none
  | _                  => none

-- The line buffers and the servers are the same.
def SameBuffers (s s' : Store) : Prop :=
  s'.lineBuffers = s.lineBuffers ∧ s'.servers = s.servers

theorem writes_buffers {writes : List Write} {s s' : Store}
    (h : writes.foldlM (fun s w => w.exec s) s = some s') : SameBuffers s s' := by
  induction writes generalizing s
  case nil => exact Option.some.inj h ▸ ⟨rfl, rfl⟩
  case cons w writes hi =>
    have ⟨s₁, hw, h⟩ := Option.bind_eq_some_iff.mp h
    have hs : SameBuffers s s₁ := by
      cases w
      case moveSessions => exact Option.some.inj hw ▸ ⟨rfl, rfl⟩
      case endSessions  => exact Option.some.inj hw ▸ ⟨rfl, rfl⟩
      case updatePlayer =>
        have ⟨_, _, hw⟩ := Option.map_eq_some_iff.mp hw
        exact hw ▸ ⟨rfl, rfl⟩
      case deletePlayer =>
        have ⟨_, _, hw⟩ := Option.map_eq_some_iff.mp hw
        exact hw ▸ ⟨rfl, rfl⟩
    have ⟨hl, hr⟩ := hi h
    exact ⟨hl.trans hs.left, hr.trans hs.right⟩

section

variable [Naming] {α : Type} {s : Store} {id : ServerId} {orgId : OrgId} {serverInstanceId : ServerId}
  {serverInstanceName name : String} {key : IdentityKey} {steamId : Option String} {now : Time}
  {existing : Option Player} {playerId : PlayerId}

theorem unbuffered_ignoreErrors {p : Service Unit} (h : Only Unbuffered p) :
    Only Unbuffered (ignoreErrors p) :=
  .handle h fun _ => .pure

theorem unbuffered_of_onTriggers {p : Service α} (h : Only (OnTriggers fun _ _ _ => True) p) :
    Only Unbuffered p :=
  h.mono fun c hc => by cases c <;> first | exact hc.elim | trivial

theorem unbuffered_notify {notice : Notice} : Only Unbuffered (ignoreErrors (send (.notify notice))) :=
  unbuffered_ignoreErrors (.perform trivial)

theorem unbuffered_evaluatePlaytime {player : TriggerPlayer} {previous next : Int} :
    Only Unbuffered (ignoreErrors (evaluatePlaytime orgId serverInstanceId player previous next)) :=
  unbuffered_ignoreErrors <| unbuffered_of_onTriggers <| onTriggers_evaluatePlaytime
    fun _ _ _ _ => trivial

theorem unbuffered_welcome {player : TriggerPlayer} :
    Only Unbuffered (welcome orgId serverInstanceId existing player) :=
  .ite (unbuffered_ignoreErrors <| unbuffered_of_onTriggers <| onTriggers_evaluateFirstJoin
    fun _ => trivial) .pure

theorem unbuffered_openSession : Only Unbuffered (openSession existing playerId now) :=
  .ite .pure (.perform trivial)

theorem unbuffered_connect {uuid : Option String} :
    Only Unbuffered (connect orgId serverInstanceId serverInstanceName existing playerId name uuid) :=
  .ite .pure <| .bind (unbuffered_ignoreErrors <| unbuffered_of_onTriggers
    onTriggers_retryPendingItemGrantsForPlayer) fun _ => unbuffered_notify

-- What follows when a session has ended.
theorem unbuffered_farewell {data : PlayerData} {player : TriggerPlayer} {previous next : Int}
    {endedAt : Time} {duration : Nat} {notice : Notice} :
    Only Unbuffered (do
      endSession playerId data endedAt duration
      ignoreErrors (evaluatePlaytime orgId serverInstanceId player previous next)
      ignoreErrors (send (.notify notice))) :=
  .bind (.perform trivial) fun _ => unbuffered_evaluatePlaytime.bind fun _ => unbuffered_notify

theorem unbuffered_reconcileNameFallback :
    Only Unbuffered (reconcileNameFallback serverInstanceId key name steamId) := by
  refine .ite .pure <| .bind (.perform trivial) fun fallback => ?_
  cases fallback
  case none => exact .pure
  case some =>
    refine .bind (.perform trivial) fun canonical => ?_
    cases canonical <;> exact .perform trivial

theorem unbuffered_handleJoined :
    Only Unbuffered
      (handleJoined orgId serverInstanceId serverInstanceName name key existing now) :=
  .bind (.perform trivial) fun _ => unbuffered_welcome.bind fun _ =>
    unbuffered_openSession.bind fun _ => unbuffered_connect

theorem unbuffered_handleLeft {existing : Option (PlayerId × Player)} :
    Only Unbuffered
      (handleLeft orgId serverInstanceId serverInstanceName name key existing now) := by
  cases existing
  case none => exact .pure
  case some => exact .ite unbuffered_farewell .pure

theorem unbuffered_handleLine {line : LogLine} :
    Only Unbuffered (handleLine orgId serverInstanceId serverInstanceName line) := by
  have hnamed (joined name) :
      Only Unbuffered (handleNamed orgId serverInstanceId serverInstanceName joined name) := by
    have hrest (key now) (existing : Option (PlayerId × Player)) : Only Unbuffered
        (if joined then
          handleJoined orgId serverInstanceId serverInstanceName name key (existing.map Prod.snd) now
        else handleLeft orgId serverInstanceId serverInstanceName name key existing now) :=
      .ite unbuffered_handleJoined unbuffered_handleLeft
    exact .bind (.perform trivial) fun _ => unbuffered_reconcileNameFallback.bind fun _ =>
      .bind (.perform trivial) fun _ =>
        .ite (hrest _ _ _) (.bind (.perform trivial) fun _ => hrest _ _ _)
  cases line
  case joined => exact hnamed true _
  case left   => exact hnamed false _
  case other  => exact .pure
  case uuid   =>
    exact unbuffered_reconcileNameFallback.bind fun _ => .bind (.perform trivial) fun _ =>
      .bind (.perform trivial) fun _ => .pure

theorem unbuffered_applyPlayerRoster {rows : List PlayerRosterRow} :
    Only Unbuffered (applyPlayerRoster orgId serverInstanceId rows) := by
  have hrow (name now row) : Only Unbuffered (applyRow orgId serverInstanceId name now row) :=
    unbuffered_reconcileNameFallback.bind fun _ => .bind (.perform trivial) fun _ =>
      .bind (.perform trivial) fun _ => unbuffered_openSession.bind fun _ =>
        unbuffered_welcome.bind fun _ => unbuffered_connect.bind fun _ => unbuffered_evaluatePlaytime
  have hmissing (name now e) : Only Unbuffered (applyMissing orgId serverInstanceId name now e) :=
    unbuffered_farewell
  exact .bind (.perform trivial) fun _ => .bind (.perform trivial) fun _ =>
    .bind (.forEach fun _ => hrow _ _ _) fun _ => .bind (.perform trivial) fun _ =>
      .bind (.forEach fun _ => hmissing _ _ _) fun _ => .bind unbuffered_notify fun _ =>
        unbuffered_ignoreErrors <| unbuffered_of_onTriggers onTriggers_retryPendingItemGrants

theorem exec_unbuffered {c : Cmd} (h : Unbuffered c) : SameBuffers s (exec c s).2 := by
  cases c <;> rw [exec] <;> try exact ⟨rfl, rfl⟩
  case setLineBuffer => exact h.elim
  case transaction   =>
    split
    case h_1 hw => exact writes_buffers hw
    case h_2    => exact ⟨rfl, rfl⟩
  all_goals split <;> exact ⟨rfl, rfl⟩

theorem wp_unbuffered {p : Service α} (h : Only Unbuffered p) :
    wp (under roster .none) (fun _ => SameBuffers s) p s :=
  h.wp_under (fun _ _ hc ⟨hl, hr⟩ =>
    have ⟨hl', hr'⟩ := exec_unbuffered hc
    ⟨hl'.trans hl, hr'.trans hr⟩) ⟨rfl, rfl⟩

end

end Players
