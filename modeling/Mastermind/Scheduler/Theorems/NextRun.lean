import Mastermind.Jobs.Theorems.Store
import Mastermind.Scheduler.Schedules
import Mastermind.Scheduler.Theorems.Cron

open Effects Js Prog Jobs

namespace Scheduler

-- The stored next run of a schedule is the one that is computed now, it lies ahead and its fire is
-- enqueued.
def Agrees (z : Zone) (s : Store) (id : ScheduleId) : Prop :=
  ∃ schedule t, (s.schedules[id]? = some schedule) ∧ schedule.nextRunAt = some t ∧
    computeNextRun z schedule s.clock = some (.valid t) ∧ s.clock < t ∧ (id, t) ∈ s.schedulerQueue

-- The next run of a new expression lies within the execution window. Without a new expression the
-- stored next run lies ahead, and it is where the window moves the next run of the old expression.
def Unmoved (z : Zone) (existing : Schedule) (data : UpdateSchedule) (now : Time) : Prop :=
  let clamp t :=
    clampToExecutionWindow z t existing.executionWindowStart existing.executionWindowEnd
  match data.cronExpression with
  | some expression => ∃ t, IsNextRun z expression now t ∧ clamp t = .valid t
  | none =>
    ∃ t, existing.nextRunAt = some t ∧ now < t ∧
      ∃ m, IsNextRun z existing.cronExpression now m ∧ clamp m = .valid t

variable {z : Zone} {s : Store} {id : ScheduleId} {orgId : OrgId} {existing schedule : Schedule}
  {t : Time}

theorem computeNextRun_eq_some {now : Time} {d : Date} :
    computeNextRun z schedule now = some d ↔
      ∃ m, IsNextRun z schedule.cronExpression now m ∧
        clampToExecutionWindow z m schedule.executionWindowStart schedule.executionWindowEnd = d := by
  simp [computeNextRun, Option.map_eq_some_iff, getNextCronRun_eq_some]

theorem mem_schedulerAdd : (id, t) ∈ (exec (.schedulerAdd id t) s).2.schedulerQueue := by
  rw [exec]
  split
  case isTrue h => exact h
  case isFalse  => simp

-- A schedule is stored and its fire is enqueued.
def Enqueued (id : ScheduleId) (schedule : Schedule) (now : Time) (s : Store) : Prop :=
  (s.schedules[id]? = some schedule) ∧ s.clock = now ∧
    ∀ t, schedule.nextRunAt = some t → (id, t) ∈ s.schedulerQueue

theorem wp_enqueue (hs : s.schedules[id]? = some schedule) (he : schedule.enabled = true) :
    wp (under controlPlane .none) (returns (Enqueued id schedule s.clock)) (enqueue id schedule) s := by
  rw [enqueue, if_pos he]
  cases hn : schedule.nextRunAt
  case none => exact ⟨hs, rfl, fun t ht => nomatch hn.symm.trans ht⟩
  case some due =>
    have hx : controlPlane.exec (.schedulerAdd id due) s =
        (.ok (), (exec (.schedulerAdd id due) s).2) := by
      rw [exec_eq, exec]
      split <;> rfl
    refine wp_last hx ⟨?_, ?_, fun t ht => ?_⟩ fun _ _ => False.elim
    case refine_3 => exact Option.some.inj (hn.symm.trans ht) ▸ mem_schedulerAdd
    all_goals
      rw [exec]
      split <;> first | exact hs | rfl

theorem wp_createSchedule {data : CreateSchedule} :
    wp (under controlPlane .none)
      (fun r s' => ∀ id schedule, r = .ok (id, schedule) → schedule.enabled = true → Agrees z s' id)
      (createSchedule z orgId data) s := by
  have hx : controlPlane.exec .now s = (.ok s.clock, s) := rfl
  refine wp_step hx ?_ fun _ _ => False.elim
  split
  case h_1 => exact fun _ _ hr => by cases hr
  case h_2 t hn =>
    by_cases hi : s.serverInstances[data.serverInstanceId]?.isSome
    case neg =>
      have hx {row : Schedule} (hr : row.serverInstanceId = data.serverInstanceId) :
          controlPlane.exec (.insertSchedule row) s = (.error .storage, s) := by
        simp [exec, hr, hi]
      exact wp_step_error (hx rfl) (fun _ _ hr => by cases hr) fun _ _ => False.elim
    case pos =>
      have hx {row : Schedule} (hr : row.serverInstanceId = data.serverInstanceId) :
          controlPlane.exec (.insertSchedule row) s =
            (.ok s.schedules.length, { s with schedules := s.schedules ++ [row] }) := by
        simp [exec, hr, hi]
      refine wp_step (hx rfl) ?_ fun _ _ => False.elim
      cases he : data.enabled.getD true
      case false =>
        rintro id schedule ⟨⟩
        simp
      case true =>
        refine wp_bind.mpr <| wp_mono (wp_enqueue (by simp) rfl) fun r s' hr => ?_
        cases r
        case error => exact hr.elim
        case ended => exact hr.elim
        case ok =>
          rintro id schedule ⟨⟩ _
          refine ⟨_, t, hr.1, rfl, ?_, ?_, hr.2.2 t rfl⟩ <;> rw [hr.2.1]
          case refine_1 => simp [computeNextRun, hn, clampToExecutionWindow]
          case refine_2 => exact lt_of_getNextCronRun hn

-- What an edit stores agrees with what is computed, if its next run lies ahead.
theorem Enqueued.agrees_iff {now : Time} (h : Enqueued id schedule now s) :
    Agrees z s id ↔
      ∃ t, schedule.nextRunAt = some t ∧ now < t ∧ computeNextRun z schedule now = some (.valid t) := by
  have ⟨hs, hc, hq⟩ := h
  constructor
  case mp =>
    rintro ⟨schedule', t, hs', hn, hr, hl, _⟩
    cases hs.symm.trans hs'
    exact ⟨t, hn, hc ▸ hl, hc ▸ hr⟩
  case mpr =>
    rintro ⟨t, hn, hl, hr⟩
    exact ⟨schedule, t, hs, hn, hc ▸ hr, hc ▸ hl, hq t hn⟩

theorem wp_removeFire : wp (under controlPlane .none)
    (returns fun s' => s'.schedules = s.schedules ∧ s'.clock = s.clock) (removeFire id existing) s := by
  rw [removeFire]
  split
  case h_2     => exact ⟨rfl, rfl⟩
  case h_1 due _ =>
    have hx : controlPlane.exec (.schedulerRemove id due) s =
        (.ok (), (exec (.schedulerRemove id due) s).2) := by
      rw [exec_eq, exec]
      split <;> rfl
    refine wp_handle.mpr <| wp_last hx ?_ fun _ _ => False.elim
    simp only [handlePost, returns, exec]
    split <;> exact ⟨rfl, rfl⟩

-- What follows the computation of the next run.
theorem wp_edit {data : ScheduleEdit} {k : Schedule → Service Schedule}
    (hs : s.schedules[id]? = some existing)
    (hk : k = fun updated => do removeFire id existing; enqueue id updated; return updated) :
    wp (under controlPlane .none)
      (fun r s' => ∀ updated, r = .ok updated → updated.enabled = true →
        updated = data.apply existing ∧ Enqueued id updated s.clock s')
      (send (.editSchedule id data) >>= k) s := by
  have hx : controlPlane.exec (.editSchedule id data) s =
      (.ok (data.apply existing), { s with schedules := s.schedules.modify id data.apply }) := by
    simp [exec, hs]
  subst hk
  refine wp_step hx ?_ fun _ _ => False.elim
  refine wp_bind.mpr <| wp_mono wp_removeFire fun r s' hr => ?_
  cases r
  case error => exact hr.elim
  case ended => exact hr.elim
  case ok =>
    have hs' : s'.schedules[id]? = some (data.apply existing) := by simp [hr.left, hs]
    cases he : (data.apply existing).enabled
    case false =>
      simp only [seqPost, enqueue, he, Bool.false_eq_true, if_false]
      rintro updated ⟨⟩ he'
      cases he.symm.trans he'
    case true =>
      refine wp_bind.mpr <| wp_mono (wp_enqueue hs' he) fun r s'' hq => ?_
      cases r
      case error => exact hq.elim
      case ended => exact hq.elim
      case ok =>
        rintro updated ⟨⟩ _
        exact ⟨rfl, hr.right ▸ hq⟩

theorem isNextRun_unique {expression : String} {now t t' : Time}
    (h : IsNextRun z expression now t) (h' : IsNextRun z expression now t') : t = t' :=
  Option.some.inj <|
    (getNextCronRun_eq_some.mpr h).symm.trans (getNextCronRun_eq_some.mpr h')

theorem not_isNextRun_empty {now t : Time} : ¬IsNextRun z "" now t := by
  intro ⟨cron, hp, _⟩
  exact nomatch (show Cron.parse "" = none by decide).symm.trans hp

theorem wp_updateSchedule {data : UpdateSchedule} (hs : s.schedules[id]? = some existing)
    (ho : existing.orgId = orgId) :
    wp (under controlPlane .none)
      (fun r s' => ∀ updated, r = .ok updated → updated.enabled = true →
        (Agrees z s' id ↔ Unmoved z existing data s.clock))
      (updateSchedule z orgId id data) s := by
  have hx : controlPlane.exec (.findOrgSchedule id orgId) s = (.ok (some existing), s) := by
    simp [exec, hs, ho]
  refine wp_step hx ?_ fun _ _ => False.elim
  obtain ⟨enabled, name, cronExpression, jobType, payload⟩ := data
  cases cronExpression
  case none =>
    refine wp_mono (wp_edit hs rfl) fun r s' h updated hr he => ?_
    obtain ⟨hu, hq⟩ := h updated hr he
    rw [hq.agrees_iff, hu]
    simp [computeNextRun_eq_some, Unmoved, ScheduleEdit.apply]
  case some expression =>
    by_cases he : expression = ""
    case pos =>
      subst he
      refine wp_mono (wp_edit hs rfl) fun r s' h updated hr he => ?_
      obtain ⟨hu, hq⟩ := h updated hr he
      rw [hq.agrees_iff, hu]
      simp [computeNextRun_eq_some, Unmoved, ScheduleEdit.apply, not_isNextRun_empty]
    case neg =>
      refine wp_bind.mpr ?_
      have hx : controlPlane.exec .now s = (.ok s.clock, s) := rfl
      unfold editedRun
      split
      case h_1 h => cases h
      case h_2 h => exact absurd (Option.some.inj h) he
      case h_3 h =>
        cases h
        refine wp_step hx ?_ fun _ _ => False.elim
        split
        case h_1     => exact fun _ hr => by cases hr
        case h_2 t ht =>
          refine wp_pure.mpr <| wp_mono (wp_edit hs rfl) fun r s' h updated hr he => ?_
          obtain ⟨hu, hq⟩ := h updated hr he
          rw [hq.agrees_iff, hu]
          have ht' := getNextCronRun_eq_some.mp ht
          have hm {m} : IsNextRun z expression s.clock m ↔ m = t :=
            ⟨fun h => isNextRun_unique h ht', fun h => h ▸ ht'⟩
          simp [computeNextRun_eq_some, Unmoved, ScheduleEdit.apply, hm, lt_of_getNextCronRun ht]

-- A schedule that is created agrees with what is computed. After an edit it does so if and only if
-- the window does not move the next run of the new expression, or, without a new expression, if the
-- stored next run has stayed the next one.
theorem nextRuns_agree_iff {z : Zone} {s : Store} {orgId : OrgId} :
    (∀ data id schedule,
      ((createSchedule z orgId data).run [] s).result = .ok (id, schedule) →
      schedule.enabled = true → Agrees z ((createSchedule z orgId data).run [] s).state id) ∧
    ∀ id data existing updated, s.schedules[id]? = some existing → existing.orgId = orgId →
      ((updateSchedule z orgId id data).run [] s).result = .ok updated → updated.enabled = true →
      (Agrees z ((updateSchedule z orgId id data).run [] s).state id ↔
        Unmoved z existing data s.clock) := by
  constructor
  case left  => exact fun data => wp_run_nil wp_createSchedule
  case right => exact fun id data existing updated hs ho => wp_run_nil (wp_updateSchedule hs ho) updated

-- The daily backup, at a time at which its fire is not enqueued.
def paused (clock : Time) (window : Option String) : Store :=
  { Store.sample with
    clock, schedules := [{ daily with
      enabled := false, executionWindowStart := window, executionWindowEnd := window }] }

-- The schedule is switched on again before its time has come.
theorem nextRuns_agree_iff_beforeRun :
    Agrees 0 ((updateSchedule 0 0 0 { enabled := some true }).run [] (paused 1709175600000 none)).state
      0 :=
  have hn : IsNextRun 0 "0 4 * * *" 1709175600000 1709179200000 :=
    getNextCronRun_eq_some.mp (by decide +kernel)
  (nextRuns_agree_iff.right 0 { enabled := some true } { daily with enabled := false } daily
    rfl rfl rfl rfl).mpr ⟨1709179200000, rfl, by decide, 1709179200000, hn, rfl⟩

-- Switched on after its time, the schedule runs at once, and not the next morning. A new expression
-- makes it run outside its execution window.
theorem nextRuns_differ :
    let s := ((updateSchedule 0 0 0 { enabled := some true }).run [] (paused 1709182800000 none)).state
    let w := ((updateSchedule 0 0 0 { enabled := some true, cronExpression := some "0 5 * * *" }).run []
      (paused 1709175600000 (some "04:00"))).state
    ((s.schedules.map fun r => (r.nextRunAt, computeNextRun 0 r s.clock)) =
      [(some 1709179200000, some (.valid 1709265600000))]) ∧
    s.schedulerQueue = [(0, 1709179200000)] ∧
    ((w.schedules.map fun r => (r.nextRunAt, computeNextRun 0 r w.clock)) =
      [(some 1709182800000, some (.valid 1709265600000))]) ∧
    w.schedulerQueue = [(0, 1709182800000)] := by
  decide +kernel

end Scheduler
