import Mastermind.Scheduler.Theorems.Stages

open Effects Js Prog Jobs

namespace Scheduler.Timers

abbrev Requests :=
  Pool controlPlane Request Unit

section

variable (id : ScheduleId) (t : Time)

def adds : Cmd → Bool
  | .schedulerAdd id' t' => id' = id && t' = t
  | _                    => false

def removes : Cmd → Bool
  | .schedulerRemove id' t' => id' = id && t' = t
  | _                       => false

-- A request that goes on to add an entry, if need be after it has removed another one.
def Owes (th : Thread controlPlane Request Unit) : Bool :=
  match th.prog with
  | .call (.schedulerRemove ..) k => (k (.ok ())).next?.any (adds id t)
  | prog                          => prog.next?.any (adds id t)

def Removes (th : Thread controlPlane Request Unit) : Bool :=
  th.prog.next?.any (removes id t)

-- The steps in which a fire works on its copy of the schedule.
def works : Cmd → Bool
  | .findActiveRun .. | .insertJob _ | .insertRun _ | .queueAdd .. | .now | .updateSchedule .. => true
  | _                                                                                         => false

-- A fire that has loaded the schedule and has not stored its next run.
def Works (th : Thread controlPlane Request Unit) : Bool :=
  match th.request with
  | .fire _   => th.prog.next?.any works
  | .update _ => false

-- The fire of an entry that has still to store the next run.
def Arms (th : Thread controlPlane Request Unit) : Bool :=
  match th.request with
  | .fire due => due = t && th.prog.next?.any fun c => (works c || c matches .findSchedule _)
  | .update _ => false

variable (p : Requests)

-- The run that is stored may be replaced by another one: its entry is not waiting, or a request goes
-- on to remove it.
def Replaceable (next : Option Time) : Prop :=
  ∀ schedule ∈ p.state.schedules[id]?, ∀ due ∈ schedule.nextRunAt,
    next = some due ∨ ¬p.state.Waiting (id, due) ∨ ∃ th ∈ p.threads, Removes id due th

local instance : LawfulBEq ScheduleEntry :=
  inferInstance

-- The entry may be added: it is new and either belongs to the stored run or will be removed by a
-- request. If the queue knows the entry of the stored run of an enabled schedule already, it is waiting,
-- or its fire has still to store the next run.
def Addable (schedule : Schedule) : Prop :=
  if (id, t) ∈ p.state.schedulerQueue then
    schedule.enabled = true ∧ schedule.nextRunAt = some t ∧ ¬p.state.Waiting (id, t) →
      ∃ th ∈ p.threads, Arms t th
  else schedule.nextRunAt = some t ∨ ∃ th ∈ p.threads, Removes id t th

instance {schedule : Schedule} : Decidable (Addable id t p schedule) := by
  dsimp only [Addable]
  infer_instance

-- The conditions on the steps of a request. A fire stores a next run, in place of a run that may be
-- replaced. A new expression is stored while no fire works on a copy with another one, in place of a
-- run that may be replaced or that the edit itself removes. The entry of the stored run is not removed
-- from an enabled schedule, unless a request goes on to add it.
def OrderedStep : (c : Cmd) → (Except Exception c.Ans → Service Unit) → Prop
  | .updateSchedule _ d, _ => d.nextRunAt.isSome ∧ Replaceable id p d.nextRunAt
  | .editSchedule _ d, k   =>
    ∀ schedule ∈ p.state.schedules[id]?, ∀ e ∈ d.cronExpression,
      e.1 ≠ "" ∧ (e.1 ≠ schedule.cronExpression → ∀ th ∈ p.threads, ¬Works th) ∧
      (Replaceable id p e.2 ∨
        ∃ due ∈ schedule.nextRunAt, (k (.ok (d.apply schedule))).next?.any (removes id due))
  | .schedulerRemove _ t, _ =>
    ∀ schedule ∈ p.state.schedules[id]?, schedule.enabled → schedule.nextRunAt = some t →
      p.state.Waiting (id, t) → ∃ th ∈ p.threads, Owes id t th
  | .schedulerAdd _ t, _ =>
    ∀ schedule ∈ p.state.schedules[id]?, Addable id t p schedule
  | _, _ => True

-- No step fails.
def Ordered : Pool.Event Request Nat → Prop
  | .fail _  => False
  | .serve i =>
    match p.threads[i]? with
    | some ⟨_, .call c k⟩ => OrderedStep id p c k
    | _                   => True
  | _ => True

instance {next : Option Time} : Decidable (Replaceable id p next) := by
  unfold Replaceable
  infer_instance

instance {c : Cmd} {k : Except Exception c.Ans → Service Unit} : Decidable (OrderedStep id p c k) := by
  unfold OrderedStep
  split <;> infer_instance

instance {e : Pool.Event Request Nat} : Decidable (Ordered id p e) := by
  unfold Ordered
  split
  case h_1 => infer_instance
  case h_2 => split <;> infer_instance
  case h_3 => infer_instance

end

-- A time fits the schedule: it matches the expression, or the window moves a time there that does.
def Fits (z : Zone) (schedule : Schedule) (t : Time) : Prop :=
  ∃ cron m, Cron.parse schedule.cronExpression = some cron ∧ cron.Allows z m ∧
    (t = m ∨
      clampToExecutionWindow z m schedule.executionWindowStart schedule.executionWindowEnd = .valid t)

theorem Fits.of_next {z : Zone} {schedule : Schedule} {now t : Nat}
    (h : getNextCronRun z schedule.cronExpression now = some t) : Fits z schedule t := by
  have ⟨cron, hp, hn⟩ := getNextCronRun_eq_some.mp h
  exact ⟨cron, t, hp, hn.allowed, .inl rfl⟩

theorem Fits.of_computed {z : Zone} {schedule : Schedule} {now : Nat} {t : Time}
    (h : computeNextRun z schedule now = some (.valid t)) : Fits z schedule t := by
  have ⟨m, hm, hc⟩ := Option.map_eq_some_iff.mp h
  have ⟨cron, hp, hn⟩ := getNextCronRun_eq_some.mp hm
  exact ⟨cron, m, hp, hn.allowed, .inr hc⟩

-- The fields of a schedule that tell its next runs.
def SameTimes (schedule schedule' : Schedule) : Prop :=
  (schedule'.cronExpression = schedule.cronExpression) ∧
  schedule'.executionWindowStart = schedule.executionWindowStart ∧
  schedule'.executionWindowEnd = schedule.executionWindowEnd

theorem Fits.congr {z : Zone} {schedule schedule' : Schedule} {t : Time}
    (h : Fits z schedule t) (he : SameTimes schedule schedule') : Fits z schedule' t := by
  rwa [Fits, he.1, he.2.1, he.2.2]

theorem SameTimes.symm {schedule schedule' : Schedule} (h : SameTimes schedule schedule') :
    SameTimes schedule' schedule :=
  ⟨h.1.symm, h.2.1.symm, h.2.2.symm⟩

theorem SameTimes.trans {a b c : Schedule} (h : SameTimes a b) (h' : SameTimes b c) : SameTimes a c :=
  ⟨h'.1.trans h.1, h'.2.1.trans h.2.1, h'.2.2.trans h.2.2⟩

-- A fire works on a copy that has the times of the schedule.
def Holds (id : ScheduleId) (q : Request) : Stage → Store → Prop
  | .loaded copy, s =>
    (∃ due, q = .fire due) ∧ ∃ schedule, (s.schedules[id]? = some schedule) ∧ SameTimes schedule copy
  | .taken, _   => ∃ due, q = .fire due
  | .found _, _ => ∃ data, q = .update data
  | _, _        => True

-- The entries that the queue is done with are entries that it knows.
structure Listed (s : Store) : Prop where
  nodup    : s.schedulerQueue.Nodup
  active   : s.schedulerActive ⊆ s.schedulerQueue
  finished : s.schedulerFinished ⊆ s.schedulerQueue

-- The entries of the scheduler's queue are the same.
def SameEntries (s s' : Store) : Prop :=
  (s'.schedulerQueue = s.schedulerQueue) ∧ s'.schedulerActive = s.schedulerActive ∧
    s'.schedulerFinished = s.schedulerFinished

theorem Listed.congr {s s' : Store} (h : Listed s) (he : SameEntries s s') : Listed s' :=
  ⟨he.1 ▸ h.nodup, he.1 ▸ he.2.1 ▸ h.active, he.1 ▸ he.2.2 ▸ h.finished⟩

theorem SameEntries.waiting {s s' : Store} {e : ScheduleEntry} (h : SameEntries s s') :
    s'.Waiting e ↔ s.Waiting e := by
  rw [Store.Waiting, h.1, h.2.1, h.2.2, Store.Waiting]

-- A schedule with a next run that fits it.
structure Timed (z : Zone) (s : Store) (id : ScheduleId) (schedule : Schedule) (due : Time) : Prop where
  row    : s.schedules[id]? = some schedule
  server : s.serverInstances[schedule.serverInstanceId]?.isSome
  next   : schedule.nextRunAt = some due
  fits   : Fits z schedule due

theorem Timed.congr {z : Zone} {s s' : Store} {id : ScheduleId} {schedule : Schedule} {due : Time}
    (h : Timed z s id schedule due) (hs : s'.schedules = s.schedules)
    (hv : s'.serverInstances = s.serverInstances) : Timed z s' id schedule due :=
  ⟨hs ▸ h.row, hv ▸ h.server, h.next, h.fits⟩

-- Every waiting entry is the one of the stored run or about to be removed, and the entry of an enabled
-- schedule is waiting, about to be added, or its fire has still to store the next run.
structure Sound (z : Zone) (orgId : OrgId) (id : ScheduleId) (p : Requests) (schedule : Schedule)
    (due : Time) : Prop where
  calls   : p.Follows (protocol z orgId id) (Holds id) fun _ => Stops
  listed  : Listed p.state
  timed   : Timed z p.state id schedule due
  waiting : ∀ t, p.state.Waiting (id, t) → t = due ∨ ∃ th ∈ p.threads, Removes id t th
  armed   : schedule.enabled → p.state.Waiting (id, due) ∨ ∃ th ∈ p.threads, Owes id due th ∨ Arms due th

variable {z : Zone} {orgId : OrgId} {id : ScheduleId} {deps : External} {q : Request}
  {p : Requests} {i : Nat} {m m' : Stage} {c : Cmd} {s s' : Store} {prog : Service Unit}
  {schedule schedule' copy : Schedule} {due due' t : Time}

theorem works_of_inner (h : Inner c) : works c = true := by
  cases c <;> first | rfl | exact h.elim

theorem works_of_loaded (h : wp (protocol z orgId id (.fire t)) Stops prog (.loaded copy)) :
    Works ⟨.fire t, prog⟩ = true := by
  cases prog
  case ret   => exact h.elim
  case throw => exact h.elim
  case call c k =>
    obtain hc | ⟨d, rfl, _⟩ := h.left
    case inl => exact works_of_inner hc
    case inr => rfl

theorem arms_of_works (h : Works ⟨.fire t, prog⟩ = true) : Arms t ⟨.fire t, prog⟩ = true := by
  cases prog
  case ret   => nomatch h
  case throw => nomatch h
  case call c k =>
    have h : works c = true := h
    simp [Arms, next?, h]

theorem arms_of_taken (h : wp (protocol z orgId id (.fire t)) Stops prog .taken) :
    Arms t ⟨.fire t, prog⟩ = true := by
  cases prog
  case ret   => exact h.elim
  case throw => exact h.elim
  case call c k =>
    obtain rfl := h.left
    simp [Arms, next?]

theorem adds_of_adding (h : wp (protocol z orgId id q) Stops prog (.adding t)) :
    prog.next? = some (.schedulerAdd id t) := by
  cases prog
  case ret      => exact h.elim
  case throw    => exact h.elim
  case call c k => exact congrArg some h.left

theorem owes_of_adding (h : wp (protocol z orgId id q) Stops prog (.adding t)) :
    Owes id t ⟨q, prog⟩ = true := by
  have hn := adds_of_adding h
  cases prog
  case ret   => nomatch hn
  case throw => nomatch hn
  case call c k =>
    cases hn
    simp [Owes, next?, adds]

theorem owes_of_edited {old : Time}
    (h : wp (protocol z orgId id q) Stops prog (.edited old (some t))) : Owes id t ⟨q, prog⟩ = true := by
  cases prog
  case ret   => exact h.elim
  case throw => exact h.elim
  case call c k =>
    obtain rfl := h.left
    have hn := adds_of_adding (h.right.left (.ok ()) (.adding t) ⟨rfl, rfl⟩)
    simp [Owes, hn, adds]

theorem exec_inner (h : Inner c) :
    (∃ a, (exec c s).1 = .ok a) ∧ (exec c s).2.schedules = s.schedules ∧
      (exec c s).2.serverInstances = s.serverInstances ∧ SameEntries s (exec c s).2 := by
  cases c
  case queueAdd =>
    rw [exec]
    split <;> exact ⟨⟨_, rfl⟩, rfl, rfl, rfl, rfl, rfl⟩
  all_goals first | exact ⟨⟨_, rfl⟩, rfl, rfl, rfl, rfl, rfl⟩ | exact h.elim

-- A command that is served between two others, with what is left of the request.
theorem Sound.set (h : Sound z orgId id p schedule due)
    (hw : wp (protocol z orgId id q) Stops prog m') (hh : Holds id q m' s') (hl : Listed s')
    (ht : Timed z s' id schedule' due')
    (hs : SameTimes schedule schedule' ∨ ∀ th ∈ p.threads, ¬Works th)
    (hwait : ∀ t, s'.Waiting (id, t) →
      t = due' ∨ ∃ th ∈ p.threads.set i ⟨q, prog⟩, Removes id t th)
    (harm : schedule'.enabled → s'.Waiting (id, due') ∨
      ∃ th ∈ p.threads.set i ⟨q, prog⟩, Owes id due' th ∨ Arms due' th) :
    Sound z orgId id { state := s', threads := p.threads.set i ⟨q, prog⟩ } schedule' due' where
  calls := by
    refine h.calls.set hw hh fun j q' prog' m hj hm hw' => ?_
    cases m
    case taken => exact hm
    case found => exact hm
    case loaded copy =>
      have ⟨⟨t, ht'⟩, schedule₁, hs₁, hc⟩ := hm
      obtain rfl := Option.some.inj (hs₁.symm.trans h.timed.row)
      obtain hs | hs := hs
      case inl => exact ⟨⟨t, ht'⟩, schedule', ht.row, hs.symm.trans hc⟩
      case inr =>
        subst ht'
        exact absurd (works_of_loaded hw') (hs _ (List.mem_of_getElem? hj))
    all_goals trivial
  listed  := hl
  timed   := ht
  waiting := hwait
  armed   := harm

-- A command that leaves the schedule and its entries alone.
theorem Sound.keep {k} (h : Sound z orgId id p schedule due)
    (hi : p.threads[i]? = some ⟨q, .call c k⟩) (hw : wp (protocol z orgId id q) Stops prog m')
    (hh : Holds id q m' p.state)
    (hr : ¬(c matches .schedulerRemove ..)) (ha : ¬(c matches .schedulerAdd ..))
    (harm : Arms due ⟨q, .call c k⟩ → schedule.enabled → Arms due ⟨q, prog⟩)
    (hs : s'.schedules = p.state.schedules) (hv : s'.serverInstances = p.state.serverInstances)
    (hl : Listed s') (hw' : ∀ t, s'.Waiting (id, t) ↔ p.state.Waiting (id, t)) :
    Sound z orgId id { state := s', threads := p.threads.set i ⟨q, prog⟩ } schedule due := by
  have hn {t} : ¬Removes id t ⟨q, .call c k⟩ := by
    cases c <;> first | exact Bool.false_ne_true | exact absurd rfl hr
  have ho {t} : ¬Owes id t ⟨q, .call c k⟩ := by
    cases c <;> first | exact Bool.false_ne_true | exact absurd rfl hr | exact absurd rfl ha
  refine h.set hw ?_ hl (h.timed.congr hs hv) (.inl ⟨rfl, rfl, rfl⟩)
    (fun t ht => (h.waiting t ((hw' t).mp ht)).imp_right fun hr =>
      Pool.exists_set hi (.inr ⟨hn, hr⟩)) fun he => ?_
  case refine_1 =>
    cases m' <;> first | trivial | exact hh | skip
    case loaded copy =>
      have ⟨hq, hc⟩ := hh
      exact ⟨hq, hs ▸ hc⟩
  case refine_2 =>
    obtain hw | ha := h.armed he
    case inl => exact .inl ((hw' due).mpr hw)
    case inr =>
      refine .inr (Pool.exists_set hi ?_)
      by_cases hc : Arms due ⟨q, .call c k⟩
      case pos => exact .inl (.inr (harm hc he))
      case neg => exact .inr ⟨fun hx => hx.elim ho hc, ha⟩

-- The pool after a command of a thread was served.
abbrev served (p : Requests) (i : Nat) (q : Request) (c : Cmd)
    (k : Except Exception c.Ans → Service Unit) : Requests :=
  { state := (exec c p.state).2, threads := p.threads.set i ⟨q, k (exec c p.state).1⟩ }

theorem Sound.take {k} (h : Sound z orgId id p schedule due)
    (hi : p.threads[i]? = some ⟨.fire t, .call (.schedulerTake id t) k⟩)
    (ht : wp (protocol z orgId id (.fire t)) Stops (k (.ok true)) .taken)
    (hf : wp (protocol z orgId id (.fire t)) Stops (k (.ok false)) .idle) :
    Sound z orgId id (served p i (.fire t) (.schedulerTake id t) k) schedule due := by
  by_cases hc : p.state.Waiting (id, t) ∧ t ≤ p.state.clock
  case neg =>
    have hx : exec (.schedulerTake id t) p.state = (.ok false, p.state) := by
      simp only [exec, hc, if_false]
    simp only [served, hx]
    have ha : Arms due ⟨.fire t, .call (.schedulerTake id t) k⟩ → schedule.enabled →
        Arms due ⟨.fire t, k (.ok false)⟩ := by simp [Arms, next?, works]
    exact h.keep hi hf trivial (by rintro ⟨⟩) (by rintro ⟨⟩) ha rfl rfl h.listed fun _ => Iff.rfl
  case pos =>
    have hx : exec (.schedulerTake id t) p.state =
        (.ok true, { p.state with schedulerActive := (id, t) :: p.state.schedulerActive }) := by
      simp only [exec, hc, and_self, if_true]
    simp only [served, hx]
    have hwait {t'} : Store.Waiting { p.state with
        schedulerActive := (id, t) :: p.state.schedulerActive } (id, t') ↔
          p.state.Waiting (id, t') ∧ t' ≠ t := by
      simp [Store.Waiting]
      tauto
    have hl : Listed { p.state with schedulerActive := (id, t) :: p.state.schedulerActive } :=
      ⟨h.listed.nodup, List.cons_subset.mpr ⟨hc.left.left, h.listed.active⟩, h.listed.finished⟩
    refine h.set ht ⟨t, rfl⟩ hl (h.timed.congr rfl rfl) (.inl ⟨rfl, rfl, rfl⟩) (fun t' hw => ?_) fun he => ?_
    case refine_1 =>
      exact (h.waiting t' (hwait.mp hw).left).imp_right fun hr =>
        Pool.exists_set hi (.inr ⟨Bool.false_ne_true, hr⟩)
    case refine_2 =>
      by_cases hd : due = t
      case pos =>
        subst hd
        exact .inr (Pool.exists_set hi (.inl (.inr (arms_of_taken ht))))
      case neg =>
        refine (h.armed he).imp (fun hw => hwait.mpr ⟨hw, hd⟩) fun ha =>
          Pool.exists_set hi (.inr ⟨?_, ha⟩)
        simp [Owes, Arms, next?, adds, works]

theorem Sound.finish {k} (h : Sound z orgId id p schedule due)
    (hi : p.threads[i]? = some ⟨q, .call (.schedulerFinish id t) k⟩)
    (hw : ∀ r, wp (protocol z orgId id q) Stops (k r) .idle) :
    Sound z orgId id (served p i q (.schedulerFinish id t) k) schedule due := by
  have ha : Arms due ⟨q, .call (.schedulerFinish id t) k⟩ → schedule.enabled →
      Arms due ⟨q, k (exec (.schedulerFinish id t) p.state).1⟩ := by
    cases q <;> simp [Arms, next?, works]
  have hw := hw (exec (.schedulerFinish id t) p.state).1
  by_cases hc : (id, t) ∈ p.state.schedulerActive
  case neg =>
    have hx : exec (.schedulerFinish id t) p.state = (.error .storage, p.state) := by
      simp only [exec, hc, if_false]
    simp only [served, hx] at hw ha ⊢
    exact h.keep hi hw trivial (by rintro ⟨⟩) (by rintro ⟨⟩) ha rfl rfl h.listed fun _ => Iff.rfl
  case pos =>
    have hx : exec (.schedulerFinish id t) p.state = (.ok (), { p.state with
        schedulerActive   := p.state.schedulerActive.filter (· ≠ (id, t))
        schedulerFinished := (id, t) :: p.state.schedulerFinished }) := by
      simp only [exec, hc, if_true]
    simp only [served, hx] at hw ha ⊢
    refine h.keep hi hw trivial (by rintro ⟨⟩) (by rintro ⟨⟩) ha rfl rfl ?_ fun t' => ?_
    case refine_1 =>
      exact ⟨h.listed.nodup, fun _ hm => h.listed.active (List.mem_of_mem_filter hm),
        List.cons_subset.mpr ⟨h.listed.active hc, h.listed.finished⟩⟩
    case refine_2 =>
      by_cases ht : t' = t
      case pos => simp [Store.Waiting, ht, hc]
      case neg => simp [Store.Waiting, ht]

theorem Sound.update {k : Except Exception Unit → Service Unit} {d : ScheduleData}
    (h : Sound z orgId id p schedule due)
    (hi : p.threads[i]? = some ⟨q, .call (.updateSchedule id d) k⟩)
    (hw : ∀ t, d.nextRunAt = some t → wp (protocol z orgId id q) Stops (k (.ok ())) (.adding t))
    (hf : ∀ t, d.nextRunAt = some t → Fits z schedule t)
    (hc : OrderedStep id p (.updateSchedule id d) k) :
    ∃ schedule' due', Sound z orgId id (served p i q (.updateSchedule id d) k) schedule' due' := by
  have ⟨t, ht⟩ := Option.isSome_iff_exists.mp hc.left
  have hx : exec (.updateSchedule id d) p.state =
      (.ok (), { p.state with schedules := p.state.schedules.modify id d.apply }) := by
    simp [exec, h.timed.row]
  simp only [served, hx]
  have hs : SameTimes schedule (d.apply schedule) := ⟨rfl, rfl, rfl⟩
  have htimed : Timed z { p.state with schedules := p.state.schedules.modify id d.apply } id
      (d.apply schedule) t := by
    refine ⟨?_, h.timed.server, ?_, (hf t ht).congr hs⟩
    case refine_1 => simp [h.timed.row]
    case refine_2 => simp [ScheduleData.apply, ht]
  have hl : Listed { p.state with schedules := p.state.schedules.modify id d.apply } :=
    ⟨h.listed.nodup, h.listed.active, h.listed.finished⟩
  refine ⟨d.apply schedule, t, h.set (hw t ht) trivial hl htimed (.inl hs) (fun t' ht' => ?_)
    fun _ => .inr (Pool.exists_set hi (.inl (.inl (owes_of_adding (hw t ht)))))⟩
  have hn : ¬Removes id t' ⟨q, .call (.updateSchedule id d) k⟩ := Bool.false_ne_true
  obtain rfl | hr := h.waiting t' ht'
  case inr => exact .inr (Pool.exists_set hi (.inr ⟨hn, hr⟩))
  case inl =>
    obtain hr | hr | hr := hc.right schedule h.timed.row t' h.timed.next
    case inl     => exact .inl (Option.some.inj (hr.symm.trans ht))
    case inr.inl => exact absurd ht' hr
    case inr.inr => exact .inr (Pool.exists_set hi (.inr ⟨hn, hr⟩))

theorem Sound.add {k : Except Exception Unit → Service Unit} (h : Sound z orgId id p schedule due)
    (hi : p.threads[i]? = some ⟨q, .call (.schedulerAdd id t) k⟩)
    (hw : ∃ m, wp (protocol z orgId id q) Stops (k (.ok ())) m ∧ ∀ s, Holds id q m s)
    (hc : OrderedStep id p (.schedulerAdd id t) k) :
    Sound z orgId id (served p i q (.schedulerAdd id t) k) schedule due := by
  obtain ⟨m, hw, hh⟩ := hw
  have hc := hc schedule h.timed.row
  have hn {t'} : ¬Removes id t' ⟨q, .call (.schedulerAdd id t) k⟩ := Bool.false_ne_true
  have ha {t'} : ¬Arms t' ⟨q, .call (.schedulerAdd id t) k⟩ := by cases q <;> simp [Arms, next?, works]
  have ho {t'} (ht : t ≠ t') : ¬Owes id t' ⟨q, .call (.schedulerAdd id t) k⟩ := by
    simp [Owes, next?, adds, ht]
  by_cases hq : (id, t) ∈ p.state.schedulerQueue
  case pos =>
    have hx : exec (.schedulerAdd id t) p.state = (.ok (), p.state) := by simp [exec, hq]
    simp only [served, hx]
    refine h.set hw (hh _) h.listed h.timed (.inl ⟨rfl, rfl, rfl⟩)
      (fun t' ht => (h.waiting t' ht).imp_right fun hr => Pool.exists_set hi (.inr ⟨hn, hr⟩))
      fun he => ?_
    by_cases ht : t = due
    case neg =>
      exact (h.armed he).imp_right fun hr =>
        Pool.exists_set hi (.inr ⟨fun hx => hx.elim (ho ht) ha, hr⟩)
    case pos =>
      by_cases hwt : p.state.Waiting (id, due)
      case pos => exact .inl hwt
      case neg =>
        rw [Addable, if_pos hq] at hc
        subst ht
        obtain ⟨th, hm, hth⟩ : ∃ th ∈ p.threads.set i ⟨q, k (.ok ())⟩, Arms t th :=
          Pool.exists_set hi (.inr ⟨ha, hc ⟨he, h.timed.next, hwt⟩⟩)
        exact .inr ⟨th, hm, .inr hth⟩
  case neg =>
    have hx : exec (.schedulerAdd id t) p.state =
        (.ok (), { p.state with schedulerQueue := p.state.schedulerQueue ++ [(id, t)] }) := by
      simp [exec, hq]
    simp only [served, hx]
    rw [Addable, if_neg hq] at hc
    have hwait {t'} : Store.Waiting { p.state with
        schedulerQueue := p.state.schedulerQueue ++ [(id, t)] } (id, t') ↔
          p.state.Waiting (id, t') ∨ t' = t := by
      have hf : (id, t) ∉ p.state.schedulerActive := fun hm => hq (h.listed.active hm)
      have hf' : (id, t) ∉ p.state.schedulerFinished := fun hm => hq (h.listed.finished hm)
      by_cases ht : t' = t
      case pos => simp [Store.Waiting, ht, hf, hf']
      case neg => simp [Store.Waiting, ht]
    have hl : Listed { p.state with schedulerQueue := p.state.schedulerQueue ++ [(id, t)] } := by
      refine ⟨?_, ?_, ?_⟩
      case refine_1 =>
        refine List.nodup_append.mpr ⟨h.listed.nodup, List.pairwise_singleton _ _, ?_⟩
        rintro _ hm _ hm' rfl
        exact hq (List.mem_singleton.mp hm' ▸ hm)
      case refine_2 => exact fun _ hm => List.mem_append_left _ (h.listed.active hm)
      case refine_3 => exact fun _ hm => List.mem_append_left _ (h.listed.finished hm)
    refine h.set hw (hh _) hl (h.timed.congr rfl rfl) (.inl ⟨rfl, rfl, rfl⟩) (fun t' ht => ?_)
      fun he => ?_
    case refine_1 =>
      obtain ht | rfl := hwait.mp ht
      case inl => exact (h.waiting t' ht).imp_right fun hr => Pool.exists_set hi (.inr ⟨hn, hr⟩)
      case inr =>
        exact hc.imp (fun hc => Option.some.inj (hc.symm.trans h.timed.next)) fun hr =>
          Pool.exists_set hi (.inr ⟨hn, hr⟩)
    case refine_2 =>
      by_cases ht : t = due
      case pos => exact .inl (hwait.mpr (.inr ht.symm))
      case neg =>
        exact (h.armed he).imp (fun hw => hwait.mpr (.inl hw)) fun hr =>
          Pool.exists_set hi (.inr ⟨fun hx => hx.elim (ho ht) ha, hr⟩)

-- What a request goes on to add after it has removed an entry.
theorem owes_after {k : Except Exception Unit → Service Unit} {t' : Time}
    (h : Owes id t ⟨q, .call (.schedulerRemove id t') k⟩ = true) : Owes id t ⟨q, k (.ok ())⟩ = true := by
  have h : (k (.ok ())).next?.any (adds id t) = true := h
  cases hk : k (.ok ())
  case ret   => simp [hk, next?] at h
  case throw => simp [hk, next?] at h
  case call c k' =>
    have h : adds id t c = true := by simpa [hk, next?] using h
    cases c <;> first | exact h | cases h

theorem Sound.remove {k : Except Exception Unit → Service Unit} {new : Option Time}
    (h : Sound z orgId id p schedule due)
    (hi : p.threads[i]? = some ⟨q, .call (.schedulerRemove id t) k⟩)
    (hw : wp (protocol z orgId id q) Stops (k (.ok ())) ((new.map .adding).getD .idle))
    (hc : OrderedStep id p (.schedulerRemove id t) k) :
    Sound z orgId id (served p i q (.schedulerRemove id t) k) schedule due := by
  have hh {s} : Holds id q ((new.map .adding).getD .idle) s := by cases new <;> trivial
  have hn {t'} (ht : t' ≠ t) : ¬Removes id t' ⟨q, .call (.schedulerRemove id t) k⟩ := by
    simp [Removes, next?, removes, Ne.symm ht]
  have ha {t'} : ¬Arms t' ⟨q, .call (.schedulerRemove id t) k⟩ := by
    cases q <;> simp [Arms, next?, works]
  -- Another request owes the entry still, and this one does after its step.
  have hset (h : ∃ th ∈ p.threads, Owes id due th ∨ Arms due th) :
      ∃ th ∈ p.threads.set i ⟨q, k (.ok ())⟩, Owes id due th ∨ Arms due th := by
    refine Pool.exists_set hi ?_
    by_cases ho : Owes id due ⟨q, .call (.schedulerRemove id t) k⟩
    case pos => exact .inl (.inl (owes_after ho))
    case neg => exact .inr ⟨fun hx => hx.elim ho ha, h⟩
  by_cases hq : (id, t) ∈ p.state.schedulerActive
  case pos =>
    have hx : exec (.schedulerRemove id t) p.state = (.ok (), p.state) := by simp [exec, hq]
    simp only [served, hx]
    refine h.set hw hh h.listed h.timed (.inl ⟨rfl, rfl, rfl⟩) (fun t' ht => ?_)
      fun he => (h.armed he).imp_right hset
    have hne : t' ≠ t := fun he => ht.right.left (he ▸ hq)
    exact (h.waiting t' ht).imp_right fun hr => Pool.exists_set hi (.inr ⟨hn hne, hr⟩)
  case neg =>
    have hx : exec (.schedulerRemove id t) p.state = (.ok (), { p.state with
        schedulerQueue    := p.state.schedulerQueue.filter (· ≠ (id, t))
        schedulerFinished := p.state.schedulerFinished.filter (· ≠ (id, t)) }) := by simp [exec, hq]
    simp only [served, hx]
    have hwait {t'} : Store.Waiting { p.state with
        schedulerQueue    := p.state.schedulerQueue.filter (· ≠ (id, t))
        schedulerFinished := p.state.schedulerFinished.filter (· ≠ (id, t)) } (id, t') ↔
          p.state.Waiting (id, t') ∧ t' ≠ t := by
      by_cases ht : t' = t
      case pos => simp [Store.Waiting, ht]
      case neg => simp [Store.Waiting, ht]
    have hl : Listed { p.state with
        schedulerQueue    := p.state.schedulerQueue.filter (· ≠ (id, t))
        schedulerFinished := p.state.schedulerFinished.filter (· ≠ (id, t)) } := by
      refine ⟨h.listed.nodup.filter _, fun e hm => ?_, fun e hm => ?_⟩
      case refine_1 =>
        have hne : e ≠ (id, t) := fun he => hq (he ▸ hm)
        exact List.mem_filter.mpr ⟨h.listed.active hm, decide_eq_true hne⟩
      case refine_2 =>
        obtain ⟨hm, hne⟩ := List.mem_filter.mp hm
        exact List.mem_filter.mpr ⟨h.listed.finished hm, hne⟩
    refine h.set hw hh hl (h.timed.congr rfl rfl) (.inl ⟨rfl, rfl, rfl⟩) (fun t' ht => ?_) fun he => ?_
    case refine_1 =>
      obtain ⟨ht, hne⟩ := hwait.mp ht
      exact (h.waiting t' ht).imp_right fun hr => Pool.exists_set hi (.inr ⟨hn hne, hr⟩)
    case refine_2 =>
      obtain hw | ho := h.armed he
      case inr => exact .inr (hset ho)
      case inl =>
        by_cases ht : due = t
        case neg => exact .inl (hwait.mpr ⟨hw, ht⟩)
        case pos =>
          obtain ⟨th, hm, ho⟩ := hc schedule h.timed.row he (ht ▸ h.timed.next) (ht ▸ hw)
          exact .inr (hset ⟨th, hm, .inl (ht ▸ ho)⟩)

theorem Sound.edit {k : Except Exception Schedule → Service Unit} {d : ScheduleEdit} {old : Time}
    (h : Sound z orgId id p schedule due)
    (hi : p.threads[i]? = some ⟨q, .call (.editSchedule id d) k⟩)
    (hw : wp (protocol z orgId id q) Stops (k (.ok (d.apply schedule)))
      (.edited old (if (d.apply schedule).enabled then (d.apply schedule).nextRunAt else none)))
    (ht : Timely z d) (hc : OrderedStep id p (.editSchedule id d) k) :
    ∃ schedule' due', Sound z orgId id (served p i q (.editSchedule id d) k) schedule' due' := by
  have hx : exec (.editSchedule id d) p.state =
      (.ok (d.apply schedule), { p.state with schedules := p.state.schedules.modify id d.apply }) := by
    simp [exec, h.timed.row]
  simp only [served, hx]
  have hrow : (p.state.schedules.modify id d.apply)[id]? = some (d.apply schedule) := by
    simp [h.timed.row]
  have hl : Listed { p.state with schedules := p.state.schedules.modify id d.apply } :=
    ⟨h.listed.nodup, h.listed.active, h.listed.finished⟩
  have hn {t'} : ¬Removes id t' ⟨q, .call (.editSchedule id d) k⟩ := Bool.false_ne_true
  have harm {due'} (hd : (d.apply schedule).nextRunAt = some due')
      (he : (d.apply schedule).enabled = true) :
      ∃ th ∈ p.threads.set i ⟨q, k (.ok (d.apply schedule))⟩, Owes id due' th ∨ Arms due' th := by
    rw [if_pos he, hd] at hw
    exact Pool.exists_set hi (.inl (.inl (owes_of_edited hw)))
  cases hd : d.cronExpression
  case none =>
    have hs : SameTimes schedule (d.apply schedule) := by simp [SameTimes, ScheduleEdit.apply, hd]
    have hnext : (d.apply schedule).nextRunAt = some due := by
      simp [ScheduleEdit.apply, hd, h.timed.next]
    refine ⟨_, due, h.set hw trivial hl ⟨hrow, h.timed.server, hnext, h.timed.fits.congr hs⟩ (.inl hs)
      (fun t ht => ?_) fun he => .inr (harm hnext he)⟩
    exact (h.waiting t ht).imp_right fun hr => Pool.exists_set hi (.inr ⟨hn, hr⟩)
  case some e =>
    obtain ⟨hne, hsame, hr⟩ := hc schedule h.timed.row e hd
    obtain ⟨now, due', he, hn'⟩ := ht e.1 e.2 hd hne
    have hnext : (d.apply schedule).nextRunAt = some due' := by simp [ScheduleEdit.apply, hd, he]
    have hfits : Fits z (d.apply schedule) due' :=
      .of_next <| show getNextCronRun z _ now = some due' by simpa [ScheduleEdit.apply, hd] using hn'
    have hs : SameTimes schedule (d.apply schedule) ∨ ∀ th ∈ p.threads, ¬Works th := by
      by_cases hx : e.1 = schedule.cronExpression
      case pos => exact .inl (by simp [SameTimes, ScheduleEdit.apply, hd, hx])
      case neg => exact .inr (hsame hx)
    refine ⟨_, due', h.set hw trivial hl ⟨hrow, h.timed.server, hnext, hfits⟩ hs (fun t ht => ?_)
      fun he => .inr (harm hnext he)⟩
    obtain rfl | hw := h.waiting t ht
    case inr => exact .inr (Pool.exists_set hi (.inr ⟨hn, hw⟩))
    case inl =>
      obtain hr | ⟨due, hdue, hr⟩ := hr
      case inr =>
        obtain rfl := Option.some.inj (hdue.symm.trans h.timed.next)
        exact .inr (Pool.exists_set hi (.inl hr))
      case inl =>
        obtain hr | hr | hr := hr schedule h.timed.row t h.timed.next
        case inl     => exact .inl (Option.some.inj (hr.symm.trans he))
        case inr.inl => exact absurd ht hr
        case inr.inr => exact .inr (Pool.exists_set hi (.inr ⟨hn, hr⟩))

theorem Sound.find {k : Except Exception (Option Schedule) → Service Unit} {data : UpdateSchedule}
    (h : Sound z orgId id p schedule due)
    (hi : p.threads[i]? = some ⟨.update data, .call (.findOrgSchedule id orgId) k⟩)
    (hw : ∀ found : Option Schedule, (∀ existing ∈ found, existing.nextRunAt.isSome) →
      wp (protocol z orgId id (.update data)) Stops (k (.ok found)) ((found.map .found).getD .idle)) :
    Sound z orgId id (served p i (.update data) (.findOrgSchedule id orgId) k) schedule due := by
  refine h.keep hi (hw _ fun existing he => ?_) ?_ nofun nofun nofun rfl rfl h.listed fun _ => Iff.rfl
  case refine_1 =>
    have ⟨hs, _⟩ := Option.filter_eq_some_iff.mp (Option.mem_def.mp he)
    obtain rfl := Option.some.inj (hs.symm.trans h.timed.row)
    simp [h.timed.next]
  case refine_2 =>
    cases p.state.schedules[id]?.filter _
    case none => trivial
    case some => exact ⟨data, rfl⟩

theorem Sound.load {k : Except Exception (Option (Schedule × ServerInstance)) → Service Unit}
    (h : Sound z orgId id p schedule due)
    (hi : p.threads[i]? = some ⟨.fire t, .call (.findSchedule id) k⟩)
    (hw : ∀ host, wp (protocol z orgId id (.fire t)) Stops (k (.ok (some (schedule, host))))
      (if schedule.enabled then .loaded schedule else .over)) :
    Sound z orgId id (served p i (.fire t) (.findSchedule id) k) schedule due := by
  obtain ⟨host, hh⟩ := Option.isSome_iff_exists.mp h.timed.server
  have hx : exec (.findSchedule id) p.state = (.ok (some (schedule, host)), p.state) := by
    simp [exec, h.timed.row, hh]
  simp only [served, hx]
  have hw := hw host
  cases he : schedule.enabled
  case false =>
    rw [he] at hw
    exact h.keep hi hw trivial (by rintro ⟨⟩) (by rintro ⟨⟩)
      (fun _ he' => by cases he.symm.trans he') rfl rfl h.listed
      fun _ => Iff.rfl
  case true =>
    rw [he, if_pos rfl] at hw
    refine h.keep hi hw ⟨⟨t, rfl⟩, schedule, h.timed.row, rfl, rfl, rfl⟩ (by rintro ⟨⟩)
      (by rintro ⟨⟩) (fun ha _ => ?_)
      rfl rfl h.listed fun _ => Iff.rfl
    obtain ⟨rfl, _⟩ : t = due ∧ _ := by simpa [Arms] using ha
    exact arms_of_works (works_of_loaded hw)

theorem Sound.inner {k} (h : Sound z orgId id p schedule due)
    (hi : p.threads[i]? = some ⟨.fire t, .call c k⟩) (hc : Inner c)
    (hm : Holds id (.fire t) (.loaded copy) p.state)
    (hw : ∀ a, wp (protocol z orgId id (.fire t)) Stops (k (.ok a)) (.loaded copy)) :
    Sound z orgId id (served p i (.fire t) c k) schedule due := by
  have ⟨⟨a, ha⟩, hs, hv, he⟩ := exec_inner (s := p.state) hc
  have hw : wp (protocol z orgId id (.fire t)) Stops (k (exec c p.state).1) (.loaded copy) := ha ▸ hw a
  refine h.keep hi hw hm ?_ ?_ (fun ha _ => ?_) hs hv (h.listed.congr he) fun _ => he.waiting
  case refine_1 => cases c <;> first | exact Bool.false_ne_true | exact hc.elim
  case refine_2 => cases c <;> first | exact Bool.false_ne_true | exact hc.elim
  case refine_3 =>
    obtain ⟨rfl, _⟩ : t = due ∧ _ := by simpa [Arms] using ha
    exact arms_of_works (works_of_loaded hw)

theorem protocol_inner {a : c.Ans} (h : Inner c) :
    (protocol z orgId id q).answers (.loaded copy) c (.ok a) (.loaded copy) := by
  cases c <;> first | exact ⟨⟨a, rfl⟩, rfl⟩ | exact h.elim

-- A step of a request.
theorem Sound.serve (h : Sound z orgId id p schedule due) (hc : Ordered id p (.serve i)) :
    ∃ schedule' due', Sound z orgId id (p.serve i) schedule' due' := by
  obtain hs | ⟨q, c, k, hi, hs⟩ := p.serve_cases i <;> rw [hs]
  case inl => exact ⟨schedule, due, h⟩
  case inr =>
    rw [Ordered, hi] at hc
    have ⟨m, hm, hwp⟩ := h.calls i _ _ hi
    have ha := hwp.left
    have hw := hwp.right.left
    clear hwp
    cases m
    case idle =>
      cases q
      case fire t =>
        obtain rfl : c = .schedulerTake id t := ha
        exact ⟨_, _, h.take hi (hw _ _ rfl) (hw _ _ rfl)⟩
      case update data =>
        obtain rfl : c = .findOrgSchedule id orgId := ha
        exact ⟨_, _, h.find hi fun found hf => hw _ _ ⟨found, rfl, hf, rfl⟩⟩
    case taken =>
      obtain rfl : c = .findSchedule id := ha
      obtain ⟨t, rfl⟩ := hm
      exact ⟨_, _, h.load hi fun host => hw _ _ ⟨_, rfl, rfl⟩⟩
    case loaded copy =>
      obtain hc' | ⟨d, rfl, hd⟩ := ha
      case inl =>
        have ⟨⟨t, hq⟩, _⟩ := hm
        subst hq
        exact ⟨_, _, h.inner hi hc' hm fun a => hw _ _ (protocol_inner hc')⟩
      case inr =>
        have ⟨_, _, hs, hcopy⟩ := hm
        obtain rfl := Option.some.inj (hs.symm.trans h.timed.row)
        refine h.update hi (fun t ht => hw _ _ ⟨rfl, t, ht, rfl⟩) (fun t ht => ?_) hc
        have ⟨_, ht⟩ := hd t ht
        exact (Fits.of_computed ht).congr hcopy.symm
    case «over» =>
      obtain ⟨t, rfl⟩ | ⟨d, rfl, hd⟩ := ha
      case inl => exact ⟨_, _, h.finish hi fun r => hw r _ rfl⟩
      case inr => exact absurd hc.left (by simp [hd])
    case found existing =>
      obtain rfl | ⟨d, rfl, ht, he⟩ := ha
      case inl =>
        obtain ⟨data, rfl⟩ := hm
        exact ⟨_, _, h.keep hi (hw _ _ ⟨⟨_, rfl⟩, rfl⟩) ⟨data, rfl⟩ nofun nofun nofun rfl rfl h.listed
          fun _ => Iff.rfl⟩
      case inr =>
        have ⟨old, he⟩ := Option.isSome_iff_exists.mp he
        exact h.edit hi (hw _ _ ⟨_, old, rfl, he, rfl⟩) ht hc
    case edited old new =>
      obtain rfl : c = .schedulerRemove id old := ha
      exact ⟨_, _, h.remove hi (hw _ _ ⟨rfl, rfl⟩) hc⟩
    case adding t =>
      obtain rfl : c = .schedulerAdd id t := ha
      refine ⟨_, _, h.add hi ⟨_, hw _ _ ⟨rfl, rfl⟩, fun _ => ?_⟩ hc⟩
      cases q <;> trivial

theorem Sound.start (h : Sound z orgId id p schedule due) :
    Sound z orgId id (p.start (Request.serve z deps orgId id) q) schedule due where
  calls     := h.calls.start (m := .idle) trivial wp_serve
  listed    := h.listed
  timed     := h.timed
  waiting t := fun ht => (h.waiting t ht).imp_right fun ⟨th, hm, hr⟩ =>
    ⟨th, List.mem_append_left _ hm, hr⟩
  armed he  := (h.armed he).imp_right fun ⟨th, hm, hr⟩ => ⟨th, List.mem_append_left _ hm, hr⟩

-- An event that meets the conditions leaves a schedule and timers that are sound.
theorem Sound.next {e : Pool.Event Request Nat} (h : Sound z orgId id p schedule due)
    (hc : Ordered id p e) :
    ∃ schedule' due', Sound z orgId id ((interleaved z deps orgId id).next p e) schedule' due' := by
  cases e
  case start => exact ⟨_, _, h.start⟩
  case serve => exact h.serve hc
  case fail  => exact hc.elim
  case world n =>
    refine ⟨_, _, h.calls.world fun q m hm => ?_, ⟨h.listed.1, h.listed.2, h.listed.3⟩,
      h.timed.congr rfl rfl, h.waiting, h.armed⟩
    cases m <;> exact hm

-- A schedule at rest: the next run that is stored fits it, and the entries that are waiting are the one
-- of that run if the schedule is enabled, and none otherwise but for that one.
structure Settled (z : Zone) (id : ScheduleId) (s : Store) : Prop where
  listed : Listed s
  timed  : ∃ schedule due, Timed z s id schedule due ∧
    (∀ t, s.Waiting (id, t) → t = due) ∧ (schedule.enabled → s.Waiting (id, due))

@[reducible]
def Finished (p : Requests) : Prop :=
  ∀ th ∈ p.threads, th.prog.next?.isNone

-- From a schedule at rest, any fires and edits whose steps meet the conditions lead to a schedule at
-- rest: the next run that is stored matches the expression, it is enqueued if the schedule is enabled,
-- and no other entry is waiting.
theorem timers_agree {z : Zone} {deps : External} {orgId : OrgId} {id : ScheduleId} {s : Store}
    {es : List (Pool.Event Request Nat)} (h : Settled z id s)
    (hm : (interleaved z deps orgId id).Meets (Ordered id) (Pool.idle s) es)
    (hf : Finished ((interleaved z deps orgId id).run (Pool.idle s) es)) :
    Settled z id ((interleaved z deps orgId id).run (Pool.idle s) es).state := by
  have ⟨hl, schedule, due, ht, hw, ha⟩ := h
  have h₀ : Sound z orgId id (Pool.idle s) schedule due :=
    ⟨.idle, hl, ht, fun t h => .inl (hw t h), fun he => .inl (ha he)⟩
  have ⟨schedule', due', h'⟩ := System.invariant
    (I := fun p => ∃ schedule due, Sound z orgId id p schedule due)
    (fun _ _ ⟨_, _, h⟩ hc => h.next hc) ⟨schedule, due, h₀⟩ hm
  refine ⟨h'.listed, schedule', due', h'.timed, fun t ht => ?_, fun he => ?_⟩
  case refine_1 =>
    obtain rfl | ⟨th, hm, hr⟩ := h'.waiting t ht
    case inl => rfl
    case inr => simp [Removes, Option.isNone_iff_eq_none.mp (hf th hm)] at hr
  case refine_2 =>
    obtain hw | ⟨th, hm, ho⟩ := h'.armed he
    case inl => exact hw
    case inr =>
      have hn := hf th hm
      obtain ⟨q, prog⟩ := th
      cases prog
      case call => exact nomatch hn
      all_goals cases q <;> simp [Owes, Arms, next?] at ho

-- The time of the backup has come.
def four : Store :=
  { Store.sample with
    clock          := 1709179200000
    schedules      := [daily]
    schedulerQueue := [(0, 1709179200000)] }

-- The backup fires while it is moved to five o'clock. The fire loads the schedule at a given point.
def moved (before after : Nat) : List (Pool.Event Request Nat) :=
  [.start (.fire 1709179200000), .start (.update { cronExpression := some "0 5 * * *" })] ++
    List.replicate before (.serve 0) ++ List.replicate 5 (.serve 1) ++ List.replicate after (.serve 0)

theorem settled_four : Settled 0 0 four where
  listed := ⟨by decide, by decide, by decide⟩
  timed := by
    have hn : getNextCronRun 0 daily.cronExpression 1709175600000 = some 1709179200000 := by
      decide +kernel
    refine ⟨daily, 1709179200000, ⟨rfl, rfl, rfl, .of_next hn⟩, fun t ht => ?_, fun _ => by decide⟩
    simpa [four] using ht.left

-- The fire has taken its entry and loads the schedule after the edit.
theorem timers_agree_moved :
    Settled 0 0 ((interleaved 0 .sample 0 0).run (Pool.idle four) (moved 1 10)).state :=
  timers_agree settled_four (by decide +kernel) (by decide +kernel)

-- The fire has loaded the schedule before the edit. It stores a run at four o'clock for the schedule at
-- five, and both runs are enqueued.
theorem timers_differ :
    Settled 0 0 four ∧
    let p := (interleaved 0 .sample 0 0).run (Pool.idle four) (moved 2 10)
    Finished p ∧
    ((p.state.schedules.map fun r => (r.enabled, r.cronExpression, r.nextRunAt)) =
      [(true, "0 5 * * *", some 1709265600000)]) ∧
    p.state.Waiting (0, 1709182800000) ∧ p.state.Waiting (0, 1709265600000) :=
  ⟨settled_four, by decide +kernel⟩

end Scheduler.Timers
