import Mastermind.Jobs.Theorems.Store
import Mastermind.Scheduler.Schedules
import Mastermind.Scheduler.Theorems.Cron

open Effects Js Prog Jobs

namespace Scheduler.Timers

-- How far a request has got. A fire takes its entry, loads a copy of the schedule, stores the next run
-- and adds its entry. An edit finds the schedule, stores its changes, removes the entry of the run that
-- it has found, and adds the entry of the run that is stored if the schedule is enabled.
inductive Stage
  | idle
  | taken
  | loaded (schedule : Schedule)
  | over
  | found  (existing : Schedule)
  | edited (old : Time) (new : Option Time)
  | adding (due : Time)

-- The steps between the load and the update.
def Inner : Cmd → Prop
  | .findActiveRun .. | .insertJob _ | .insertRun _ | .queueAdd .. | .now => True
  | _                                                                    => False

-- What an edit stores for a new expression is its next run.
def Timely (z : Zone) (d : ScheduleEdit) : Prop :=
  ∀ e t, d.cronExpression = some (e, t) → e ≠ "" →
    ∃ now due, t = some due ∧ getNextCronRun z e now = some due

section

variable (z : Zone) (orgId : OrgId) (id : ScheduleId)

def allows (q : Request) : Stage → Cmd → Prop
  | .idle, c =>
    match q with
    | .fire due => c = .schedulerTake id due
    | .update _ => c = .findOrgSchedule id orgId
  | .taken, c           => c = .findSchedule id
  | .loaded schedule, c =>
    Inner c ∨ ∃ d, c = .updateSchedule id d ∧ ∀ t, d.nextRunAt = some t →
      ∃ now, computeNextRun z schedule now = some (.valid t)
  | .over, c            =>
    (∃ due, c = .schedulerFinish id due) ∨ ∃ d, c = .updateSchedule id d ∧ d.nextRunAt = none
  | .found existing, c  =>
    c = .now ∨ ∃ d, c = .editSchedule id d ∧ Timely z d ∧ existing.nextRunAt.isSome
  | .edited old _, c    => c = .schedulerRemove id old
  | .adding due, c      => c = .schedulerAdd id due

def protocol (q : Request) : Prog.Environment controlPlane Stage where
  allows  := allows z orgId id q
  answers
    | _, .schedulerTake .., r, m' => m' = if r matches .ok true then .taken else .idle
    | _, .findSchedule _, r, m' =>
      ∃ found, r = .ok found ∧
        m' = match found with
          | some (schedule, _) => if schedule.enabled then .loaded schedule else .over
          | none               => .over
    | _, .updateSchedule _ d, r, m' => r = .ok () ∧ ∃ t, d.nextRunAt = some t ∧ m' = .adding t
    | _, .schedulerAdd .., r, m' =>
      r = .ok () ∧ m' = match q with
        | .fire _   => .over
        | .update _ => .idle
    | _, .findOrgSchedule .., r, m' =>
      ∃ found, r = .ok found ∧ (∀ existing ∈ found, existing.nextRunAt.isSome) ∧
        m' = (found.map .found).getD .idle
    | .found existing, .editSchedule .., r, m' =>
      ∃ updated old, r = .ok updated ∧ existing.nextRunAt = some old ∧
        m' = .edited old (if updated.enabled then updated.nextRunAt else none)
    | .edited _ new, .schedulerRemove .., r, m' => r = .ok () ∧ m' = (new.map .adding).getD .idle
    | _, .schedulerFinish .., _, m' => m' = .idle
    | m, _, r, m' => (∃ a, r = .ok a) ∧ m' = m
  ends _ _ := False

end

variable {z : Zone} {orgId : OrgId} {id : ScheduleId} {deps : External} {q : Request} {due : Time}
  {m : Stage} {α : Type} {schedule existing : Schedule}

-- A request stops before it has changed anything or after it has done all that it began.
def Stage.Open : Stage → Prop
  | idle | found _ => True
  | _              => False

def Stops : Result Exception α → Stage → Prop :=
  fun _ m => m.Open

theorem wp_send {Q : Result Exception α → Stage → Prop} {c : Cmd} {f : c.Ans → Service α}
    (ha : allows z orgId id q m c)
    (hf : ∀ a m', (protocol z orgId id q).answers m c (.ok a) m' → wp (protocol z orgId id q) Q (f a) m')
    (he : ∀ e m', (protocol z orgId id q).answers m c (.error e) m' → Q (.error e) m') :
    wp (protocol z orgId id q) Q (send c >>= f) m := by
  refine ⟨ha, fun r m' hr => ?_, False.elim⟩
  cases r
  case ok a    => exact hf a m' hr
  case error e => exact he e m' hr

-- A step between the load and the update of a fire.
theorem wp_inner {Q : Result Exception α → Stage → Prop} {c : Cmd} {f : c.Ans → Service α}
    (hc : Inner c) (hf : ∀ a, wp (protocol z orgId id q) Q (f a) (.loaded schedule)) :
    wp (protocol z orgId id q) Q (send c >>= f) (.loaded schedule) := by
  have ha {r m'} (h : (protocol z orgId id q).answers (.loaded schedule) c r m') :
      (∃ a, r = .ok a) ∧ m' = .loaded schedule := by
    cases c <;> first | exact h | exact hc.elim
  refine wp_send (.inl hc) (fun a m' h => ?_) fun e m' h => ?_
  case refine_1 => exact (ha h).right ▸ hf a
  case refine_2 => exact nomatch (ha h).left

-- A part of a fire that either adds the next run or fails before it has stored it.
def Added (schedule : Schedule) : Result Exception Unit → Stage → Prop
  | .ok _, m    => m = .over
  | .error _, m => m = .loaded schedule
  | .ended, _   => False

theorem wp_addNextRun {now : Time} {d : ScheduleData} (hd : d.nextRunAt = none) :
    wp (protocol z orgId id (.fire due)) (Added schedule)
      (do updateNext id d (computeNextRun z schedule now); addNext id (computeNextRun z schedule now))
      (.loaded schedule) := by
  cases hn : computeNextRun z schedule now
  case none =>
    refine wp_send (.inr ⟨d, rfl, fun t ht => nomatch hd.symm.trans ht⟩) (fun _ m hm => ?_) fun _ m hm => ?_
    case refine_1 =>
      obtain ⟨_, t, ht, _⟩ := hm
      exact nomatch hd.symm.trans ht
    case refine_2 => exact nomatch hm.left
  case some date =>
    cases date
    case invalid => rfl
    case valid t =>
      refine wp_send (.inr ⟨_, rfl, ?_⟩) (fun _ m hm => ?_) fun _ m hm => nomatch hm.left
      case refine_1 => exact fun t' ht => ⟨now, by cases ht; exact hn⟩
      case refine_2 =>
        obtain ⟨_, t', ht, rfl⟩ := hm
        cases ht
        refine ⟨rfl, fun r m hr => ?_, False.elim⟩
        obtain ⟨rfl, rfl⟩ := hr
        rfl

theorem wp_skipFire {status : String} {clearSkip : Bool} :
    wp (protocol z orgId id (.fire due)) (Added schedule)
      (skipFire (inZone z deps) id schedule status clearSkip) (.loaded schedule) :=
  wp_inner trivial fun _ => wp_inner trivial fun _ => wp_addNextRun rfl

-- The guarded part of a fire returns its failures.
def Guarded (schedule : Schedule) :
    Result Exception (Except (Option JobId) Unit) → Stage → Prop
  | .ok (.ok _), m    => m = .over
  | .ok (.error _), m => m = .loaded schedule
  | _, _              => False

theorem wp_createRun {i : ServerInstance} {type : String} {payload : Payload} :
    wp (protocol z orgId id (.fire due)) (Guarded schedule)
      (createRun (inZone z deps) id schedule i type payload) (.loaded schedule) := by
  refine wp_handle.mpr <| wp_inner trivial fun _ => wp_inner trivial fun _ => wp_handle.mpr ?_
  refine wp_inner trivial fun _ => wp_inner trivial fun _ => wp_inner trivial fun _ => ?_
  refine wp_bind_assoc.mpr <| wp_bind.mpr <| wp_mono (wp_addNextRun rfl) fun r m hr => ?_
  cases r
  case ok    => exact hr
  case error => exact hr
  case ended => exact hr

-- A fire adds the next run unless it fails.
def Fired : Result Exception Unit → Stage → Prop
  | .ok _, m    => m = .over
  | .error _, m => (∃ schedule, m = .loaded schedule) ∨ m = .over
  | .ended, _   => False

theorem Added.fired {r : Result Exception Unit} (h : Added schedule r m) : Fired r m := by
  cases r
  case ok    => exact h
  case error => exact .inl ⟨schedule, h⟩
  case ended => exact h

theorem wp_processScheduleFire :
    wp (protocol z orgId id (.fire due)) Fired (processScheduleFire (inZone z deps) id) .taken := by
  refine wp_send rfl (fun found m hm => ?_) fun _ _ hm => nomatch hm.choose_spec.left
  obtain ⟨_, ⟨⟩, rfl⟩ := hm
  obtain _ | ⟨schedule, i⟩ := found
  case none => rfl
  case some =>
    cases he : schedule.enabled
    case false => simp [he, Fired]
    case true =>
      simp only [he, Bool.not_true, Bool.false_eq_true, if_false, if_true]
      split
      case isTrue  => exact wp_mono wp_skipFire fun _ _ => Added.fired
      case isFalse =>
        refine wp_inner trivial fun active => ?_
        cases active
        case some => exact wp_mono wp_skipFire fun _ _ => Added.fired
        case none =>
          refine wp_bind.mpr <| wp_mono wp_createRun fun r m hr => ?_
          obtain (j | _) | _ | _ := r
          case ok.ok => exact hr
          case error => exact hr.elim
          case ended => exact hr.elim
          case ok.error =>
            obtain rfl : m = .loaded schedule := hr
            refine wp_inner trivial fun _ => wp_inner trivial fun _ => ?_
            refine wp_bind_assoc.mpr <| wp_bind.mpr <| wp_mono (wp_addNextRun rfl) fun r m hr => ?_
            cases r
            case ok    => exact .inr hr
            case error => exact .inl ⟨schedule, hr⟩
            case ended => exact hr

-- A failed fire is not recorded with a next run.
theorem wp_handleWorkerFailure {Q : Result Exception Unit → Stage → Prop}
    (hm : (∃ schedule, m = .loaded schedule) ∨ m = .over) :
    wp (protocol z orgId id (.fire due)) Q (handleWorkerFailure id) m := by
  refine ⟨?_, fun r m' hr => ?_, False.elim⟩
  case refine_1 =>
    obtain ⟨schedule, rfl⟩ | rfl := hm
    case inl => exact .inr ⟨_, rfl, fun _ ht => nomatch ht⟩
    case inr => exact .inr ⟨_, rfl, rfl⟩
  case refine_2 =>
    have ⟨_, _, ht, _⟩ := hr
    nomatch ht

theorem wp_work : wp (protocol z orgId id (.fire due)) Stops (work z deps id due) .idle := by
  refine wp_send rfl (fun taken m hm => ?_) fun _ _ hm => hm ▸ trivial
  obtain rfl := hm
  cases taken
  case false => trivial
  case true =>
    refine wp_bind.mpr <| wp_handle.mpr <| wp_mono wp_processScheduleFire fun r m hr => ?_
    cases r
    case error => exact wp_handleWorkerFailure hr
    case ended => exact hr.elim
    case ok =>
      obtain rfl : m = .over := hr
      refine ⟨.inl ⟨due, rfl⟩, fun r m' hr => ?_, False.elim⟩
      obtain rfl : m' = .idle := hr
      cases r <;> trivial

theorem wp_enqueue {data : UpdateSchedule} {updated : Schedule} :
    wp (protocol z orgId id (.update data)) Stops (enqueue id updated)
      (((if updated.enabled then updated.nextRunAt else none).map .adding).getD .idle) := by
  rw [enqueue]
  split
  case isFalse => trivial
  case isTrue  =>
    cases updated.nextRunAt
    case none     => trivial
    case some due =>
      refine ⟨rfl, fun r m' hr => ?_, False.elim⟩
      obtain ⟨rfl, rfl⟩ := hr
      trivial

theorem wp_removeFire {data : UpdateSchedule} {old : Time} {new : Option Time}
    (ho : existing.nextRunAt = some old) :
    wp (protocol z orgId id (.update data))
      (returns fun m => m = (new.map .adding).getD .idle) (removeFire id existing) (.edited old new) := by
  rw [removeFire, ho]
  refine wp_handle.mpr ⟨rfl, fun r m' hr => ?_, False.elim⟩
  obtain ⟨rfl, rfl⟩ := hr
  rfl

theorem wp_edit {data : UpdateSchedule} {d : ScheduleEdit} (ht : Timely z d)
    (he : existing.nextRunAt.isSome) :
    wp (protocol z orgId id (.update data)) Stops
      (do
        let updated ← send (.editSchedule id d)
        removeFire id existing
        enqueue id updated
        return updated)
      (.found existing) := by
  refine wp_send (.inr ⟨d, rfl, ht, he⟩) (fun updated m hm => ?_) fun _ m hm => ?_
  case refine_2 =>
    have ⟨_, _, hr, _⟩ := hm
    nomatch hr
  case refine_1 =>
    obtain ⟨_, old, ⟨⟩, ho, rfl⟩ := hm
    refine wp_bind.mpr <| wp_mono (wp_removeFire ho) fun r m hr => ?_
    cases r
    case error => exact hr.elim
    case ended => exact hr.elim
    case ok    =>
      obtain rfl := hr
      exact wp_bind_keeps wp_enqueue fun _ _ hm => hm

theorem wp_updateSchedule {data : UpdateSchedule} :
    wp (protocol z orgId id (.update data)) Stops (updateSchedule z orgId id data) .idle := by
  refine wp_send rfl (fun found m hm => ?_) fun _ m hm => ?_
  case refine_2 => exact nomatch hm.choose_spec.left
  case refine_1 =>
    obtain ⟨_, ⟨⟩, he, rfl⟩ := hm
    cases found
    case none => trivial
    case some existing =>
      have he := he existing rfl
      refine wp_bind.mpr ?_
      unfold editedRun
      split
      case h_1 => exact wp_edit (fun _ _ h => nomatch h) he
      case h_2 => exact wp_edit (fun _ _ h hn => by cases h; exact absurd rfl hn) he
      case h_3 =>
        refine wp_send (.inl rfl) (fun now m hm => ?_) fun _ m hm => nomatch hm.left.choose_spec
        obtain ⟨_, rfl⟩ := hm
        split
        case h_1         => trivial
        case h_2 due hdue =>
          exact wp_edit (fun e t h _ => by cases h; exact ⟨now, due, rfl, hdue⟩) he

theorem wp_serve : wp (protocol z orgId id q) Stops (q.serve z deps orgId id) .idle := by
  cases q
  case fire   => exact wp_work
  case update => exact wp_bind_keeps wp_updateSchedule fun _ _ hm => hm

end Scheduler.Timers
