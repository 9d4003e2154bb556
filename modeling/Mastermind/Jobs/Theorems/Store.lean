import Mastermind.Jobs.Service

open Effects

namespace Jobs

def ServerInstance.sample : ServerInstance where
  orgId           := 0
  hostId          := 0
  gameType        := "minecraft"
  installPath     := none
  startCommand    := none
  rconHost        := none
  rconPort        := none
  rconPassword    := none
  config          := none
  maintenanceMode := false
  rebootIfDown    := false

-- An organisation with a host and two servers, and nothing to decrypt, read or schedule.
def Store.sample : Store where
  orgs            := [{ maintenancePasswordEncrypted := none }]
  hosts           := [{ orgId := 0 }]
  serverInstances := [.sample, .sample]

def External.sample : External where
  decryptIntegrationSecret _ := none
  catalogFromAgentResult _   := .null
  computeNextRun _ _         := none

variable {s : Store} {c : Cmd} {id : RunId}

@[simp]
theorem exec_eq (c : Cmd) (s : Store) : controlPlane.exec c s = exec c s :=
  rfl

section

attribute [local simp] exec

theorem exec_updateRun {s : Store} {id : RunId} {run : JobRun} (h : s.run? id = some run)
    (d : RunData) :
    exec (.updateRun id d) s = (.ok (), { s with jobRuns := s.jobRuns.modify id d.apply }) := by
  simp [h]

theorem exec_updateBatch {s : Store} {id : BatchId} {b : JobBatch} (h : s.batch? id = some b)
    (d : BatchData) : exec (.updateBatch id d) s =
      (.ok (d.apply b), { s with jobBatches := s.jobBatches.modify id d.apply }) := by
  simp [h]

theorem exec_findJob {s : Store} {id : JobId} {job : Job} (h : s.job? id = some job) :
    exec (.findJob id job.orgId) s =
      (.ok (some (job, job.batchId.bind fun b => (s.batch? b).map (b, ·))), s) := by
  simp [h]

end

theorem runWithJob?_eq_some {s : Store} {id : RunId} {run : JobRun} {job : Job} :
    s.runWithJob? id = some (run, job) ↔ s.run? id = some run ∧ s.job? run.jobId = some job := by
  rw [Store.runWithJob?]
  constructor
  case mp =>
    intro h
    have ⟨run', hr, h⟩ := Option.bind_eq_some_iff.mp h
    have ⟨job', hj, h⟩ := Option.map_eq_some_iff.mp h
    cases h
    exact ⟨hr, hj⟩
  case mpr =>
    intro ⟨hr, hj⟩
    simp [hr, hj]

theorem checkReported_eq_ok {hostId : HostId} {run : JobRun} {u : Unit}
    (h : checkReported hostId run = .ok u) : run.hostId = hostId ∧ run.status = .running := by
  unfold checkReported at h
  split at h
  case isTrue => nomatch h
  case isFalse hh =>
    split at h
    case isTrue     => nomatch h
    case isFalse hs => exact ⟨not_not.mp hh, not_not.mp hs⟩

-- What a command can do to the table of runs.
theorem exec_jobRuns (c : Cmd) (s : Store) :
    ((exec c s).2.jobRuns = s.jobRuns) ∨
    (∃ id d, c = .updateRun id d ∧ (exec c s).2.jobRuns = s.jobRuns.modify id d.apply) ∨
    (∃ id d, c = .updateRunIfRunning id d ∧ s.status? id = some .running ∧
      (exec c s).2.jobRuns = s.jobRuns.modify id d.apply) ∨
    (∃ row, c = .insertRun row ∧ (exec c s).2.jobRuns = s.jobRuns ++ [row]) := by
  cases c
  case updateRun id d =>
    rw [exec]
    split
    case isTrue  => exact .inr <| .inl ⟨id, d, rfl, rfl⟩
    case isFalse => exact .inl rfl
  case updateRunIfRunning id d =>
    rw [exec]
    split
    case isTrue h  => exact .inr <| .inr <| .inl ⟨id, d, rfl, h, rfl⟩
    case isFalse   => exact .inl rfl
  case insertRun row => exact .inr <| .inr <| .inr ⟨row, rfl, rfl⟩
  all_goals
    first
    | exact .inl rfl
    | rw [exec]; split <;> exact .inl rfl

-- What a command can do to the queue.
theorem exec_queue (c : Cmd) (s : Store) :
    ((exec c s).2.queue = s.queue) ∨
    (∃ orgId data, c = .queueAdd orgId data ∧ (exec c s).2.queue = s.queue ++ [QueueEntry.mk orgId data 0]) ∨
    (∃ orgId id delay, c = .queueChangeDelay orgId id delay ∧ (exec c s).2.queue =
      s.queue.map fun e => if e.orgId = orgId ∧ e.data.jobRunId = id then { e with delay } else e) ∨
    (∃ orgId id, c = .queueRemove orgId id ∧ (exec c s).2.queue =
      s.queue.filter fun e => !(e.orgId = orgId && e.data.jobRunId = id)) := by
  cases c
  case queueAdd orgId data =>
    by_cases he : (s.entry? orgId data.jobRunId).isSome
    case pos => exact .inl <| by simp [exec, he]
    case neg => exact .inr <| .inl ⟨orgId, data, rfl, by simp [exec, he]⟩
  case queueChangeDelay orgId id delay =>
    rw [exec]
    split
    case isTrue  => exact .inr <| .inr <| .inl ⟨orgId, id, delay, rfl, rfl⟩
    case isFalse => exact .inl rfl
  case queueRemove orgId id =>
    rw [exec]
    split
    case isTrue  => exact .inr <| .inr <| .inr ⟨orgId, id, rfl, rfl⟩
    case isFalse => exact .inl rfl
  all_goals
    first
    | exact .inl rfl
    | rw [exec]; split <;> exact .inl rfl

-- No command replaces the library of the queue.
theorem exec_bullmq (c : Cmd) (s : Store) : (exec c s).2.bullmq = s.bullmq := by
  cases c
  all_goals
    first
    | rfl
    | rw [exec]; split <;> rfl

-- Jobs are never changed.
theorem exec_job? {c : Cmd} {s : Store} {id : JobId} {job : Job} (h : s.job? id = some job) :
    (exec c s).2.job? id = some job := by
  have hj : (exec c s).2.jobs = s.jobs ∨ ∃ row, (exec c s).2.jobs = s.jobs ++ [row] := by
    cases c
    case insertJob row => exact .inr ⟨row, rfl⟩
    all_goals
      first
      | exact .inl rfl
      | rw [exec]; split <;> exact .inl rfl
  obtain hj | ⟨row, hj⟩ := hj <;> rw [Store.job?, hj]
  case inl => exact h
  case inr => exact Table.getElem?_append_of_some h

-- Runs never disappear, and they stay with their job and host.
theorem exec_run?_of_some {c : Cmd} {s : Store} {id : RunId} {run : JobRun} (h : s.run? id = some run) :
    ∃ run', ((exec c s).2.run? id = some run') ∧ run'.jobId = run.jobId ∧ run'.hostId = run.hostId := by
  have hm (id' d) : ∃ run', ((s.jobRuns.modify id' (RunData.apply d))[id]? = some run') ∧
      run'.jobId = run.jobId ∧ run'.hostId = run.hostId := by
    rw [Store.run?] at h
    rw [List.getElem?_modify, h]
    exact ⟨_, rfl, by split <;> rfl, by split <;> rfl⟩
  simp only [Store.run?]
  obtain hj | ⟨_, _, _, hj⟩ | ⟨_, _, _, _, hj⟩ | ⟨row, _, hj⟩ := exec_jobRuns c s <;> rw [hj]
  case inl         => exact ⟨run, h, rfl, rfl⟩
  case inr.inl     => exact hm ..
  case inr.inr.inl => exact hm ..
  case inr.inr.inr =>
    exact ⟨run, Table.getElem?_append_of_some h, rfl, rfl⟩

-- What a command can do to a batch.
theorem exec_batch? {c : Cmd} {s : Store} {id : BatchId} {b : JobBatch} (h : s.batch? id = some b) :
    ((exec c s).2.batch? id = some b) ∨
    (∃ d, c = .updateBatch id d ∧ (exec c s).2.batch? id = some (d.apply b)) := by
  cases c
  case insertBatch row =>
    exact .inl <| Table.getElem?_append_of_some h
  case updateBatch id' d =>
    cases hb : s.batch? id'
    case none => exact .inl <| by simp [exec, hb, h]
    case some =>
      rw [exec_updateBatch hb]
      rw [Store.batch?] at h
      by_cases hi : id' = id
      case neg => exact .inl <| by simp [Store.batch?, hi, h]
      case pos => exact .inr ⟨d, by rw [hi], by simp [Store.batch?, hi, h]⟩
  all_goals
    first
    | exact .inl h
    | rw [exec]; split <;> exact .inl h

-- What a command can do to the status of a run.
theorem exec_status? (c : Cmd) (s : Store) (id : RunId) :
    ((exec c s).2.status? id = s.status? id) ∨
    (∃ d st, (c = .updateRun id d ∨ c = .updateRunIfRunning id d) ∧ d.status = some st ∧
      (exec c s).2.status? id = some st) ∨
    (∃ row, c = .insertRun row ∧ (exec c s).2.status? id = some row.status) := by
  have hu {id' d} (hc : c = .updateRun id' d ∨ c = .updateRunIfRunning id' d)
      (hj : (exec c s).2.jobRuns = s.jobRuns.modify id' d.apply) :
      ((exec c s).2.status? id = s.status? id) ∨
      (∃ d st, (c = .updateRun id d ∨ c = .updateRunIfRunning id d) ∧ d.status = some st ∧
        (exec c s).2.status? id = some st) := by
    simp only [Store.status?, Store.run?, hj, List.getElem?_modify]
    by_cases hi : id' = id
    case neg => exact .inl <| by simp [hi]
    case pos =>
      subst hi
      cases hr : s.jobRuns[id']? <;> cases hd : d.status
      case some.some r st => exact .inr ⟨d, st, hc, hd, by simp [RunData.apply, hd]⟩
      all_goals exact .inl <| by simp [RunData.apply, hd]
  cases exec_jobRuns c s
  case inl hj => exact .inl <| by simp only [Store.status?, Store.run?, hj]
  case inr h =>
    obtain ⟨_, _, hc, hj⟩ | ⟨_, _, hc, _, hj⟩ | ⟨row, hc, hj⟩ := h
    case inl     => exact (hu (.inl hc) hj).imp_right .inl
    case inr.inl => exact (hu (.inr hc) hj).imp_right .inl
    case inr.inr =>
      simp only [Store.status?, Store.run?, hj]
      by_cases hi : id = s.jobRuns.length
      case pos => exact .inr <| .inr ⟨row, hc, by simp [hi]⟩
      case neg => exact .inl <| by rw [List.getElem?_append]; grind

end Jobs
