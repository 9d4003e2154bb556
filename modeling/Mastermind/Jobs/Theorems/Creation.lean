import Mastermind.Jobs.Theorems.Footprint

open Effects Prog Batches Scheduler

namespace Jobs

-- A command of the requests that create jobs that neither inserts a run nor adds its entry.
def Cmd.Prepares : Cmd → Prop
  | insertRun _ | queueAdd .. => False
  | c                         => c.Creates

theorem Cmd.Aside.prepares {c : Cmd} (h : c.Aside) : c.Prepares := by
  cases c <;> trivial

section

variable {σ α β : Type} {E : Environment controlPlane σ} {J : RunId → HostId → σ → Prop} {m : σ}
  {deps : External}

-- The program only issues commands that its environment allows.
abbrev Safe (E : Environment controlPlane σ) (p : Service α) (m : σ) : Prop :=
  p.wp E (fun _ _ => True) m

theorem Safe.bind {p : Service α} {f : α → Service β} (h : Safe E p m) (hf : ∀ a m, Safe E (f a) m) :
    Safe E (p >>= f) m :=
  wp_bind_keeps h fun a m _ => hf a m

theorem safe_of_only {p : Service α} {P : Cmd → Prop} (h : p.Only P)
    (hp : ∀ c, P c → ∀ m, E.allows m c) : Safe E p m :=
  h.wp (fun m c hc _ => hp c hc m) (fun _ _ _ _ _ _ _ => trivial) trivial

-- What an environment grants to the requests that create jobs. Of a run that has been inserted, they
-- know `J` until they add its entry.
structure Creating (E : Environment controlPlane σ) (J : RunId → HostId → σ → Prop) : Prop where
  prepares : ∀ c, c.Prepares → ∀ m, E.allows m c
  inserts  : ∀ row m, E.allows m (.insertRun row)
  inserted : ∀ row id m m', E.answers m (.insertRun row) (.ok id) m' → J id row.hostId m'
  adds     : ∀ orgId data m, J data.jobRunId data.hostId m → E.allows m (.queueAdd orgId data)

namespace Creating

variable (h : Creating E J)

include h

theorem aside {p : Service α} (hp : p.Only Cmd.Aside) : Safe E p m :=
  safe_of_only hp fun c hc => h.prepares c hc.prepares

theorem send {c : Cmd} {f : c.Ans → Service β} (hc : c.Prepares) (hf : ∀ a m, Safe E (f a) m) :
    Safe E (Jobs.send c >>= f) m :=
  Safe.bind (safe_of_only (.perform hc) h.prepares) hf

theorem insert {job : Job} {hostId : HostId} {f : JobId → RunId → Service α}
    {Q : Result Exception α → σ → Prop} (hq : ∀ e m, Q (.error e) m) (hn : ∀ m, Q .ended m)
    (hf : ∀ j r m, J r hostId m → (f j r).wp E Q m) :
    Prog.wp E Q (do
      let jobId ← Jobs.send (.insertJob job)
      let runId ← Jobs.send (.insertRun { jobId, hostId, status := .pending })
      f jobId runId) m := by
  refine wp_bind.mpr (wp_perform.mpr ⟨h.prepares (.insertJob job) trivial m, ?_, fun _ => hn _⟩)
  intro r m hr
  cases r
  case error => exact hq _ _
  case ok j  =>
    refine wp_bind.mpr (wp_perform.mpr ⟨h.inserts _ _, ?_, fun _ => hn _⟩)
    intro r m' hr
    cases r
    case error => exact hq _ _
    case ok r  => exact hf j r m' (h.inserted _ _ _ _ hr)

theorem queueAdd {orgId : OrgId} {data : QueueJobData} {f : Unit → Service β}
    {Q : Result Exception β → σ → Prop} (hj : J data.jobRunId data.hostId m)
    (hq : ∀ e m, Q (.error e) m) (hn : ∀ m, Q .ended m) (hf : ∀ m, (f ()).wp E Q m) :
    (Jobs.send (.queueAdd orgId data) >>= f).wp E Q m := by
  refine wp_bind.mpr (wp_perform.mpr ⟨h.adds _ _ _ hj, ?_, fun _ => hn _⟩)
  intro r m _
  cases r
  case error => exact hq _ _
  case ok    => exact hf m

theorem insertAndEnqueue {orgId : OrgId} {userId : Option UserId} {id : ServerId}
    {i : ServerInstance} {type : String} {payload : Payload} :
    Safe E (Jobs.insertAndEnqueue orgId userId id i type payload) m :=
  h.insert (fun _ _ => trivial) (fun _ => trivial) fun _ _ _ hj =>
    h.queueAdd hj (fun _ _ => trivial) (fun _ => trivial) fun _ => trivial

theorem createJob {orgId : OrgId} {userId : UserId} {id : ServerId} {jobType : String}
    {payload : Option Payload} : Safe E (Jobs.createJob deps orgId userId id jobType payload) m := by
  -- What the type is does not matter.
  rw [Jobs.createJob]
  generalize normalizeJobType jobType = type
  refine h.send trivial fun membership m => ?_
  split
  case isTrue  => trivial
  case isFalse =>
    refine (h.aside .ofExcept).bind fun payload m => ?_
    refine (h.aside roleChecks_only).bind fun _ m => ?_
    refine (h.aside memberChecks_only).bind fun _ m => ?_
    refine h.send trivial fun found m => ?_
    cases found
    case none => trivial
    case some =>
      dsimp only
      split
      case isFalse => exact h.insertAndEnqueue
      case isTrue  => exact (h.aside maintenancePayload_only.map).bind fun _ _ => h.insertAndEnqueue

theorem enqueueInternalJob {orgId : OrgId} {userId : Option UserId} {id : ServerId}
    {jobType : String} {payload : Option Payload} :
    Safe E (Jobs.enqueueInternalJob orgId userId id jobType payload) m := by
  refine h.send trivial fun found m => ?_
  cases found
  case none => trivial
  case some => exact h.insertAndEnqueue

theorem createBatchJobs {orgId : OrgId} {userId : Option UserId} {dto : CreateBatchDto}
    {batchId : BatchId} {jobType : String} {instances : List (ServerId × ServerInstance)} :
    Safe E (Batches.createBatchJobs orgId userId dto batchId jobType instances) m := by
  induction instances generalizing m
  case nil     => trivial
  case cons hi =>
    refine h.insert (fun _ _ => trivial) (fun _ => trivial) fun j r m hj => ?_
    refine h.queueAdd hj (fun _ _ => trivial) (fun _ => trivial) fun m => ?_
    exact Safe.bind (h.aside (.perform trivial)) fun _ _ => hi

theorem createBatch {orgId : OrgId} {userId : Option UserId} {dto : CreateBatchDto} :
    Safe E (Batches.createBatch orgId userId dto) m := by
  refine h.send trivial fun instances m => ?_
  split
  case isTrue  => trivial
  case isFalse =>
    refine h.send trivial fun batchId m => h.createBatchJobs.bind fun _ m => ?_
    exact Safe.bind (h.aside (.perform trivial)) fun _ _ => trivial

theorem createRun {id : ScheduleId} {schedule : Schedule} {i : ServerInstance} {type : String}
    {payload : Payload} : Safe E (Scheduler.createRun deps id schedule i type payload) m := by
  refine wp_handle.mpr (h.insert (fun _ _ => trivial) (fun _ => trivial) fun j r m hj => ?_)
  refine wp_handle.mpr (h.queueAdd hj (fun _ _ => trivial) (fun _ => trivial) fun m => ?_)
  have h : Safe E (do
      let nextRun := deps.computeNextRun schedule (← Jobs.send .now)
      let now ← Jobs.send .now
      updateNext id {
        lastRunAt := now, lastRunStatus := "success", lastRunJobId := some (some j)
        runCount := 1 } nextRun
      addNext id nextRun
      return (.ok () : Except (Option JobId) Unit)) m := by
    refine h.send trivial fun _ m => h.send trivial fun _ m => ?_
    refine (h.aside updateNext_only).bind fun _ m => ?_
    exact (h.aside addNext_only).bind fun _ _ => trivial
  exact wp_mono h fun r _ _ => by cases r <;> trivial

theorem fire {id : ScheduleId} : Safe E (Scheduler.fire deps id) m := by
  refine wp_handle_keeps ?_ fun _ _ _ => h.aside (.perform trivial)
  refine h.send trivial fun found m => ?_
  cases found
  case none => trivial
  case some found =>
    obtain ⟨schedule, i⟩ := found
    dsimp only
    split
    case isTrue  => trivial
    case isFalse =>
      split
      case isTrue  => exact h.aside skipFire_only
      case isFalse =>
        refine h.send trivial fun active m => ?_
        cases active
        case some => exact h.aside skipFire_only
        case none =>
          refine h.createRun.bind fun created m => ?_
          cases created
          case ok    => trivial
          case error =>
            refine h.send trivial fun _ m => h.send trivial fun _ m => ?_
            refine (h.aside updateNext_only).bind fun _ m => ?_
            exact (h.aside addNext_only).bind fun _ _ => trivial

end Creating

end

end Jobs
