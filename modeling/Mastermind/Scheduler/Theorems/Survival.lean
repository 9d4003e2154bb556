import Mastermind.Effects.Fated
import Mastermind.Jobs.Theorems.Store
import Mastermind.Scheduler.Schedules
import Mastermind.Scheduler.Theorems.Cron

open Effects Js Prog Jobs

namespace Scheduler

-- The queue knows a fire of a schedule that is still to come.
def HasLaterFire (s : Store) (id : ScheduleId) : Prop :=
  ∃ e ∈ s.schedulerQueue, e.1 = id ∧ s.clock < e.2

instance {s : Store} {id : ScheduleId} : Decidable (HasLaterFire s id) :=
  inferInstanceAs (Decidable (∃ e ∈ _, _))

-- The fates of the guarded steps of a fire, `n` of which are left. When one of them fails, the error
-- handler has two steps of its own.
def GuardHolds : Nat → List Fate → Prop
  | 0, _      => True
  | n + 1, fs =>
    match fs.headD .served with
    | .served => GuardHolds n fs.tail
    | .failed => Served 2 fs.tail
    | .ended  => False

instance : {n : Nat} → {fs : List Fate} → Decidable (GuardHolds n fs)
  | 0, _      => .isTrue trivial
  | n + 1, fs => by
    have := @instDecidableGuardHolds n fs.tail
    unfold GuardHolds
    split <;> infer_instance

-- The fates that a fire of a schedule survives. A skipped fire has three steps and a fire that finds
-- an active run has four. Otherwise the load and the search for an active run come first, and the
-- five steps that follow are guarded.
def Spared (s : Store) (id : ScheduleId) (schedule : Schedule) (i : ServerInstance)
    (fs : List Fate) : Prop :=
  if schedule.skipNextRun ∧ isRestartJob schedule.jobType then Served 3 fs
  else
    match s.activeRun? schedule.serverInstanceId (effectiveJobType schedule i) id with
    | some _ => Served 4 fs
    | none   => Served 2 fs ∧ GuardHolds 5 (fs.drop 2)

instance {s : Store} {id : ScheduleId} {schedule : Schedule} {i : ServerInstance} {fs : List Fate} :
    Decidable (Spared s id schedule i fs) := by
  unfold Spared
  split
  case isTrue  => infer_instance
  case isFalse => split <;> infer_instance

section

variable {deps : External} {id : ScheduleId} {s s' : Store} {fs : List Fate} {d : Option Date}
  {data : ScheduleData} {α : Type} {n : Nat}

-- A state that a fire reaches before it adds its successor.
structure Before (s : Store) (id : ScheduleId) (s' : Store) : Prop where
  fires : HasLaterFire s' id ↔ HasLaterFire s id
  clock : s'.clock = s.clock
  row   : s'.schedules[id]?.isSome

-- The next run of a schedule lies ahead.
def Later (s : Store) (d : Option Date) : Prop :=
  ∃ t, d = some (.valid t) ∧ s.clock < t

theorem Before.of_eq (h : Before s id s') {s'' : Store} (hq : s''.schedulerQueue = s'.schedulerQueue)
    (hc : s''.clock = s'.clock) (hr : s''.schedules[id]?.isSome) : Before s id s'' where
  fires := by rw [← h.fires, HasLaterFire, hq, hc]; rfl
  clock := hc.trans h.clock
  row   := hr

theorem served_succ : Served (n + 1) fs ↔ fs.headD .served = .served ∧ Served n fs.tail :=
  Iff.rfl

theorem guardHolds_served (h : fs.headD .served = .served) :
    GuardHolds (n + 1) fs ↔ GuardHolds n fs.tail := by
  rw [GuardHolds, h]

theorem guardHolds_failed (h : fs.headD .served = .failed) :
    GuardHolds (n + 1) fs ↔ Served 2 fs.tail := by
  rw [GuardHolds, h]

theorem guardHolds_ended (h : fs.headD .served = .ended) : ¬GuardHolds (n + 1) fs := by
  rw [GuardHolds, h]
  exact id

theorem exec_updateSchedule (h : s.schedules[id]?.isSome) :
    exec (.updateSchedule id data) s =
      (.ok (), { s with schedules := s.schedules.modify id data.apply }) := by
  simp [exec, h]

-- The entry of the next run is added, if it was not known before.
theorem hasLaterFire_add {due : Time} :
    HasLaterFire (exec (.schedulerAdd id due) s).2 id ↔ HasLaterFire s id ∨ s.clock < due := by
  rw [exec]
  split
  case isTrue h  => exact ⟨.inl, fun hl => hl.elim (·) fun hl => ⟨(id, due), h, rfl, hl⟩⟩
  case isFalse h => simp [HasLaterFire, or_and_right, exists_or]

theorem guardHolds_of_served {n : Nat} {fs : List Fate} (h : Served n fs) : GuardHolds n fs := by
  induction n generalizing fs
  case zero    => trivial
  case succ hi => exact (guardHolds_served h.left).mpr (hi h.right)

-- What the two last steps of a fire can come to, which update the schedule and add its next run.
def Succeeded (s : Store) (id : ScheduleId) (d : Option Date) (fs : List Fate) :
    Result Exception Unit → Store × List Fate → Prop
  | .ok _, m    => (HasLaterFire m.1 id ↔ HasLaterFire s id ∨ Later s d) ∧ (Later s d → Served 2 fs)
  | .error _, m => Before s id m.1 ∧
    (Later s d → ¬Served 2 fs ∧ (GuardHolds 2 fs ↔ Served 2 m.2))
  | .ended, m   => Before s id m.1 ∧ (Later s d → ¬Served 2 fs ∧ ¬GuardHolds 2 fs)

theorem not_later_none : ¬Later s none :=
  fun ⟨_, hd, _⟩ => nomatch hd

theorem not_later_invalid : ¬Later s (some .invalid) :=
  fun ⟨_, hd, _⟩ => nomatch hd

theorem later_valid {due : Time} : Later s (some (.valid due)) ↔ s.clock < due := by
  simp [Later]

theorem wp_addNext (h : Before s id s') (hs : fs.headD .served = .served) :
    wp (fated controlPlane) (Succeeded s id d fs) (addNext id d) (s', fs.tail) := by
  obtain _ | _ | due := d
  case none         => exact ⟨h.fires.trans (by simp [not_later_none]), fun hl => absurd hl not_later_none⟩
  case some.invalid =>
    exact ⟨h.fires.trans (by simp [not_later_invalid]), fun hl => absurd hl not_later_invalid⟩
  case some.valid =>
    have hx : controlPlane.exec (.schedulerAdd id due) s' =
        (.ok (), (exec (.schedulerAdd id due) s').2) := by
      rw [exec_eq, exec]
      split <;> rfl
    apply wp_last_fated rfl hx
    case hs =>
      intro ha
      refine ⟨?_, fun _ => ⟨hs, ha, trivial⟩⟩
      rw [hasLaterFire_add, h.fires, h.clock, later_valid]
    case hf =>
      intro ha
      refine ⟨h, fun _ => ⟨fun hn => (by cases ha.symm.trans hn.right.left), ?_⟩⟩
      rw [guardHolds_served hs, guardHolds_failed ha]
    case he =>
      intro ha
      refine ⟨h, fun _ => ⟨fun hn => (by cases ha.symm.trans hn.right.left), ?_⟩⟩
      rw [guardHolds_served hs]
      exact guardHolds_ended ha

-- An update of the schedule with the next run, and what follows it.
theorem wp_succeed (h : Before s id s') :
    wp (fated controlPlane) (Succeeded s id d fs)
      (do updateNext id data d; addNext id d) (s', fs) := by
  have hb data' : Before s id { s' with schedules := s'.schedules.modify id (ScheduleData.apply data') } :=
    h.of_eq rfl rfl (by simpa using h.row)
  have hf (hn : fs.headD .served = .failed) : Succeeded s id d fs (.error .storage) (s', fs.tail) := by
    refine ⟨h, fun _ => ⟨fun hs => (nomatch hn.symm.trans hs.left), ?_⟩⟩
    rw [guardHolds_failed hn]
  have he (hn : fs.headD .served = .ended) : Succeeded s id d fs .ended (s', fs) :=
    ⟨h, fun _ => ⟨fun hs => (nomatch hn.symm.trans hs.left), guardHolds_ended hn⟩⟩
  obtain _ | _ | due := d
  case none         => exact wp_step_fated rfl (exec_updateSchedule h.row) (wp_addNext (hb _)) hf he
  case some.invalid => exact ⟨h, fun hl => absurd hl not_later_invalid⟩
  case some.valid   => exact wp_step_fated rfl (exec_updateSchedule h.row) (wp_addNext (hb _)) hf he

-- What the guarded part of a fire can come to, `n` steps before its end.
def Guarded (s : Store) (id : ScheduleId) (d : Option Date) (n : Nat) (fs : List Fate) :
    Result Exception (Except (Option JobId) Unit) → Store × List Fate → Prop
  | .ok (.ok _), m    =>
    (HasLaterFire m.1 id ↔ HasLaterFire s id ∨ Later s d) ∧ (Later s d → GuardHolds n fs)
  | .ok (.error _), m => Before s id m.1 ∧ (Later s d → (GuardHolds n fs ↔ Served 2 m.2))
  | .error _, _       => False
  | .ended, m         => Before s id m.1 ∧ (Later s d → ¬GuardHolds n fs)

-- The error handler of the guarded part, for the job that has been created.
def rescue (j : Option JobId) : Exception → Service (Except (Option JobId) Unit) :=
  fun _ => return .error j

section

variable {r : Result Exception (Except (Option JobId) Unit)} {m : Store × List Fate}
  {j : Option JobId}

theorem Guarded.served (h : Guarded s id d n fs.tail r m) (hs : fs.headD .served = .served) :
    Guarded s id d (n + 1) fs r m := by
  obtain (_ | _) | _ | _ := r <;> simp only [Guarded, guardHolds_served hs] at h ⊢ <;> exact h

theorem Guarded.handled (h : Guarded s id d n fs r m) :
    handlePost (fated controlPlane) (Guarded s id d n fs) (rescue j) r m := by
  cases r
  case ok    => exact h
  case error => exact h.elim
  case ended => exact h

-- A guarded step that succeeds if it is served.
theorem Guarded.step {c : Cmd} {a : c.Ans} {s'' : Store}
    {f : c.Ans → Service (Except (Option JobId) Unit)} (hl : controlPlane.local? c = false)
    (hx : controlPlane.exec c s' = (.ok a, s'')) (hq : s''.schedulerQueue = s'.schedulerQueue)
    (hc : s''.clock = s'.clock) (hr : s''.schedules = s'.schedules) (h : Before s id s')
    (hf : Before s id s'' → wp (fated controlPlane)
      (handlePost (fated controlPlane) (Guarded s id d n fs.tail) (rescue j)) (f a) (s'', fs.tail)) :
    wp (fated controlPlane) (handlePost (fated controlPlane) (Guarded s id d (n + 1) fs) (rescue j))
      (send c >>= f) (s', fs) := by
  apply wp_step_fated hl hx
  case hf => exact fun hn => ⟨h, fun _ => guardHolds_failed hn⟩
  case he => exact fun hn => ⟨h, fun _ => guardHolds_ended hn⟩
  case hs =>
    intro hs
    refine wp_mono (hf <| h.of_eq hq hc (hr ▸ h.row)) fun r m hr => ?_
    cases r
    case ok    => exact Guarded.served hr hs
    case error => exact Guarded.served (r := .ok (.error j)) hr hs
    case ended => exact Guarded.served (r := .ended) hr hs

end

theorem exec_queueAdd_aside {orgId : OrgId} {data : QueueJobData} :
    (controlPlane.exec (.queueAdd orgId data) s = (.ok (), (exec (.queueAdd orgId data) s).2)) ∧
    (exec (.queueAdd orgId data) s).2.schedulerQueue = s.schedulerQueue ∧
    (exec (.queueAdd orgId data) s).2.clock = s.clock ∧
    (exec (.queueAdd orgId data) s).2.schedules = s.schedules := by
  rw [exec_eq, exec]
  split <;> exact ⟨rfl, rfl, rfl, rfl⟩

variable {schedule : Schedule} {i : ServerInstance} {type : String} {payload : Payload}

theorem wp_createRun (h : Before s id s') (hd : deps.computeNextRun schedule s.clock = d) :
    wp (fated controlPlane) (Guarded s id d 5 fs) (createRun deps id schedule i type payload)
      (s', fs) := by
  refine wp_handle.mpr <| Guarded.step rfl rfl rfl rfl rfl h fun h => ?_
  refine Guarded.step rfl rfl rfl rfl rfl h fun h => ?_
  refine wp_mono (wp_handle.mpr ?_) fun r m => Guarded.handled
  refine Guarded.step (j := some _) rfl exec_queueAdd_aside.1 exec_queueAdd_aside.2.1
    exec_queueAdd_aside.2.2.1 exec_queueAdd_aside.2.2.2 h fun h => ?_
  refine wp_local_fated rfl rfl <| wp_local_fated rfl rfl ?_
  rw [h.clock, hd]
  refine wp_bind_assoc.mpr <| wp_bind.mpr <| wp_mono (wp_succeed h) fun r m hr => ?_
  cases r
  case ok    => exact ⟨hr.left, fun hl => guardHolds_of_served (hr.right hl)⟩
  case error => exact ⟨hr.left, fun hl => (hr.right hl).right⟩
  case ended => exact ⟨hr.left, fun hl => (hr.right hl).right⟩

-- After a fire, a later one is known exactly if there was one before or the fire was spared.
def Alive (s : Store) (id : ScheduleId) (d : Option Date) (spared : Prop) (s' : Store) : Prop :=
  HasLaterFire s' id ↔ HasLaterFire s id ∨ (Later s d ∧ spared)

section

variable {spared : Prop}

theorem Before.alive (h : Before s id s') (hn : Later s d → ¬spared) : Alive s id d spared s' :=
  h.fires.trans ⟨.inl, fun hl => hl.elim (·) fun hl => absurd hl.right (hn hl.left)⟩

theorem Succeeded.alive {r : Result Exception Unit} {m : Store × List Fate}
    (h : Succeeded s id d fs r m) (hs : Later s d → (spared ↔ Served 2 fs)) :
    Alive s id d spared m.1 := by
  cases r
  case error => exact h.left.alive fun hl hp => (h.right hl).left ((hs hl).mp hp)
  case ended => exact h.left.alive fun hl hp => (h.right hl).left ((hs hl).mp hp)
  case ok    =>
    refine h.left.trans (or_congr_right ⟨fun hl => ?_, And.left⟩)
    exact ⟨hl, (hs hl).mpr (h.right hl)⟩

theorem wp_skipFire {status : String} {clearSkip : Bool} (h : Before s id s')
    (hd : deps.computeNextRun schedule s.clock = d) (hs : Later s d → (spared ↔ Served 2 fs)) :
    wp (fated controlPlane) (fun _ m => Alive s id d spared m.1)
      (skipFire deps id schedule status clearSkip) (s', fs) := by
  refine wp_local_fated rfl rfl <| wp_local_fated rfl rfl ?_
  rw [h.clock, hd]
  exact wp_mono (wp_succeed h) fun r m hr => hr.alive hs

theorem wp_handleWorkerFailure (h : Alive s id d spared s') :
    wp (fated controlPlane) (fun _ m => Alive s id d spared m.1) (handleWorkerFailure id) (s', fs) := by
  refine wp_perform.mpr ⟨trivial, fun r m ha => ?_, fun _ => h⟩
  have hk : m.1.schedulerQueue = s'.schedulerQueue ∧ m.1.clock = s'.clock := by
    obtain ha | ha := fated_cases ha <;> rw [ha]
    case inr => exact ⟨rfl, rfl⟩
    case inl =>
      rw [exec_eq, exec]
      split <;> exact ⟨rfl, rfl⟩
  have hm : Alive s id d spared m.1 := by rwa [Alive, HasLaterFire, hk.left, hk.right]
  cases r <;> exact hm

theorem spared_skipped (hk : schedule.skipNextRun ∧ isRestartJob schedule.jobType) :
    Spared s id schedule i fs ↔ Served 3 fs := by
  rw [Spared, if_pos hk]

theorem spared_busy (hk : ¬(schedule.skipNextRun ∧ isRestartJob schedule.jobType)) {run}
    (ha : s.activeRun? schedule.serverInstanceId (effectiveJobType schedule i) id = some run) :
    Spared s id schedule i fs ↔ Served 4 fs := by
  rw [Spared, if_neg hk, ha]

theorem spared_free (hk : ¬(schedule.skipNextRun ∧ isRestartJob schedule.jobType))
    (ha : s.activeRun? schedule.serverInstanceId (effectiveJobType schedule i) id = none) :
    Spared s id schedule i fs ↔ Served 2 fs ∧ GuardHolds 5 fs.tail.tail := by
  rw [Spared, if_neg hk, ha, ← List.drop_one, ← List.drop_one, List.drop_drop]

-- The load is not guarded, and neither is the search for an active run.
theorem spared_first (h : Spared s id schedule i fs) : fs.headD .served = .served := by
  rw [Spared] at h
  split at h
  case isTrue  => exact h.left
  case isFalse =>
    split at h
    case h_1 => exact h.left
    case h_2 => exact h.left.left

theorem spared_second (hk : ¬(schedule.skipNextRun ∧ isRestartJob schedule.jobType))
    (h : Spared s id schedule i fs) : fs.tail.headD .served = .served := by
  rw [Spared, if_neg hk] at h
  split at h
  case h_1 => exact h.right.left
  case h_2 => exact h.left.right.left

theorem wp_processScheduleFire (hs : s.schedules[id]? = some schedule)
    (hi : s.serverInstances[schedule.serverInstanceId]? = some i) (he : schedule.enabled = true)
    (hd : deps.computeNextRun schedule s.clock = d) :
    wp (fated controlPlane) (fun _ m => Alive s id d (Spared s id schedule i fs) m.1)
      (processScheduleFire deps id) (s, fs) := by
  have hb : Before s id s := ⟨Iff.rfl, rfl, by simp [hs]⟩
  have hx : controlPlane.exec (.findSchedule id) s = (.ok (some (schedule, i)), s) := by
    simp [exec, hs, hi]
  refine wp_step_fated rfl hx (fun h₁ => ?_) (fun h₁ => ?_) (fun h₁ => ?_)
  case refine_2 => exact hb.alive fun _ hp => (by cases h₁.symm.trans (spared_first hp))
  case refine_3 => exact hb.alive fun _ hp => (by cases h₁.symm.trans (spared_first hp))
  case refine_1 =>
    simp only [he, Bool.not_true, Bool.false_eq_true, if_false]
    split
    case isTrue hk =>
      exact wp_skipFire hb hd fun _ => by rw [spared_skipped hk, served_succ, and_iff_right h₁]
    case isFalse hk =>
      refine wp_step_fated rfl rfl (fun h₂ => ?_) (fun h₂ => ?_) (fun h₂ => ?_)
      case refine_2 => exact hb.alive fun _ hp => (by cases h₂.symm.trans (spared_second hk hp))
      case refine_3 => exact hb.alive fun _ hp => (by cases h₂.symm.trans (spared_second hk hp))
      case refine_1 =>
        cases ha : s.activeRun? schedule.serverInstanceId (effectiveJobType schedule i) id
        case some =>
          refine wp_skipFire hb hd fun _ => ?_
          rw [spared_busy hk ha, served_succ, and_iff_right h₁, served_succ, and_iff_right h₂]
        case none =>
          have hp : Spared s id schedule i fs ↔ GuardHolds 5 fs.tail.tail := by
            rw [spared_free hk ha, served_succ, and_iff_right h₁, served_succ, and_iff_right h₂]
            exact and_iff_right trivial
          refine wp_bind.mpr <| wp_mono (wp_createRun hb hd) fun r m hr => ?_
          obtain (j | _) | _ | _ := r
          case ok.ok =>
            exact hr.left.trans (or_congr_right ⟨fun hl => ⟨hl, hp.mpr (hr.right hl)⟩, And.left⟩)
          case error => exact hr.elim
          case ended => exact hr.left.alive fun hl => hp.not.mpr (hr.right hl)
          case ok.error =>
            refine wp_local_fated rfl rfl <| wp_local_fated rfl rfl ?_
            rw [hr.left.clock, hd]
            refine wp_bind_assoc.mpr <| wp_bind.mpr <| wp_mono (wp_succeed hr.left) fun r' m' hr' => ?_
            have := hr'.alive fun hl => hp.trans (hr.right hl)
            cases r' <;> exact this

end

-- A fire is followed by a later one if and only if it is spared and its next run lies ahead, or a
-- later one was known before.
theorem schedule_survives_iff {z : Zone} (hs : s.schedules[id]? = some schedule)
    (hi : s.serverInstances[schedule.serverInstanceId]? = some i) (he : schedule.enabled = true) :
    HasLaterFire ((fire (inZone z deps) id).run fs s).state id ↔
      HasLaterFire s id ∨
      (Later s (computeNextRun z schedule s.clock) ∧ Spared s id schedule i fs) := by
  have h : wp (fated controlPlane) (fun _ m => Alive s id
      (computeNextRun z schedule s.clock) (Spared s id schedule i fs) m.1)
      (processScheduleFire (inZone z deps) id) (s, fs) := wp_processScheduleFire hs hi he rfl
  have h : wp (fated controlPlane) (fun _ m => Alive s id
      (computeNextRun z schedule s.clock) (Spared s id schedule i fs) m.1)
      (fire (inZone z deps) id) (s, fs) := by
    refine wp_handle.mpr <| wp_mono h fun r m hr => ?_
    cases r
    case ok    => exact hr
    case error => exact wp_handleWorkerFailure hr
    case ended => exact hr
  exact (wp_run_fated h).choose_spec

-- Without an execution window it suffices that the expression has a next run.
theorem later_of_noWindow {z : Zone} {t : Nat} (hw : schedule.executionWindowStart = none)
    (hn : getNextCronRun z schedule.cronExpression s.clock = some t) :
    Later s (computeNextRun z schedule s.clock) :=
  ⟨t, by rw [computeNextRun_noWindow hw, hn]; rfl, lt_of_getNextCronRun hn⟩

-- The time of the backup has come.
def morning : Store :=
  { Store.sample with
    clock           := 1709179200000
    schedules       := [daily]
    schedulerQueue  := [(0, 1709179200000)]
    schedulerActive := [(0, 1709179200000)] }

theorem schedule_survives_iff_insertFails :
    HasLaterFire ((fire (inZone 0 .sample) 0).run [.served, .served, .served, .failed] morning).state 0 :=
  (schedule_survives_iff rfl rfl rfl).mpr
    (.inr ⟨⟨1709265600000, by decide +kernel, by decide⟩, by decide +kernel⟩)

-- A fire that cannot tell whether the last run is still active has no successor.
theorem schedule_dies_queryFails :
    (getNextCronRun 0 daily.cronExpression morning.clock = some 1709265600000) ∧
    ¬HasLaterFire ((fire (inZone 0 .sample) 0).run [.served, .failed] morning).state 0 := by
  decide +kernel

end
end Scheduler
