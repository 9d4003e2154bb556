import Mastermind.Jobs.Theorems.Footprint
import Mastermind.Script.Object

open Effects Prog Js Batches

namespace Jobs

variable {deps : External} {s : Store} {log : List (Cmd × Fate)} {id : ServerId} {i : ServerInstance}

-- The entries that a run has added to the queue.
def enqueued (log : List (Cmd × Fate)) : List QueueJobData :=
  log.filterMap fun
    | (.queueAdd _ data, .served) => some data
    | _                           => none

@[simp]
theorem enqueued_append {log' : List (Cmd × Fate)} :
    enqueued (log ++ log') = enqueued log ++ enqueued log' :=
  List.filterMap_append

theorem Cmd.Aside.enqueued {c : Cmd} {f : Fate} (h : c.Aside) : enqueued [(c, f)] = [] := by
  cases c <;> first | rfl | exact h.elim

-- The environment of a program that runs alone and undisturbed.
abbrev alone : Environment controlPlane (Store × List (Cmd × Fate)) :=
  logged controlPlane .none

theorem wp_aside {α : Type} {p : Service α} (h : p.Only Cmd.Aside) :
    p.wp alone (fun _ m => enqueued m.2 = enqueued log) (s, log) := by
  apply h.wp
  case ha => exact fun _ _ _ _ => trivial
  case hs => rfl
  case hc =>
    rintro m c r m' hc hm (⟨_, hl⟩ | ⟨⟨_, hd⟩, _⟩)
    case inl => rw [hl, enqueued_append, hc.enqueued, List.append_nil, hm]
    case inr => exact hd.elim

-- The commands that only look up members.
def Cmd.FindsMember : Cmd → Prop
  | findMember .. => True
  | _             => False

theorem Cmd.FindsMember.aside {c : Cmd} (h : c.FindsMember) : c.Aside := by
  cases c <;> trivial

theorem wp_findsMember {α : Type} {p : Service α} (h : p.Only Cmd.FindsMember) :
    p.wp alone (fun _ m => m.1 = s ∧ enqueued m.2 = enqueued log) (s, log) := by
  apply h.wp
  case ha => exact fun _ _ _ _ => trivial
  case hs => exact ⟨rfl, rfl⟩
  case hc =>
    rintro m c r m' hc ⟨hm, he⟩ (⟨hx, hl⟩ | ⟨⟨_, hd⟩, _⟩)
    case inr => exact hd.elim
    case inl =>
      cases c <;> first | exact hc.elim | skip
      rw [hl, enqueued_append, he]
      exact ⟨(congrArg Prod.snd hx).symm.trans hm, by simp [enqueued]⟩

-- A check before a program neither changes the state nor adds entries.
theorem wp_check {α : Type} {p : Service Unit} {f : Unit → Service α}
    {I : List (Cmd × Fate) → Prop} (h : p.Only Cmd.FindsMember)
    (hn : ∀ log', enqueued log' = enqueued log → I log')
    (hf : ∀ log', enqueued log' = enqueued log → (f ()).wp alone (fun _ m => I m.2) (s, log')) :
    (p >>= f).wp alone (fun _ m => I m.2) (s, log) := by
  apply wp_bind.mpr
  apply wp_mono (wp_findsMember h)
  rintro r ⟨_, log⟩ ⟨rfl, hl⟩
  cases r
  case ok    => exact hf log hl
  case error => exact hn log hl
  case ended => exact hn log hl

theorem requireRole_finds {m : Option UserOrg} {roles : List String} {msg : String} :
    (requireRole m roles msg).Only Cmd.FindsMember :=
  .ite .pure .throw

theorem roleChecks_finds {orgId : OrgId} {userId : UserId} {type : String} :
    (roleChecks orgId userId type).Only Cmd.FindsMember := by
  have h roles msg :
      (do requireRole (← send (.findMember userId orgId)) roles msg).Only Cmd.FindsMember :=
    .bind (.perform trivial) fun _ => requireRole_finds
  exact .ite (h ..) <| .ite (h ..) <| .ite (h ..) <| .ite (h ..) .pure

theorem memberChecks_finds {m : Option UserOrg} {type : String} :
    (memberChecks m type).Only Cmd.FindsMember :=
  .ite requireRole_finds <| .ite requireRole_finds <| .ite requireRole_finds .pure

theorem exec_queueAdd {orgId : OrgId} {data : QueueJobData} :
    exec (.queueAdd orgId data) s = (.ok (), (exec (.queueAdd orgId data) s).2) := by
  simp only [exec]
  split <;> rfl

theorem exec_findServer {orgId : OrgId} (hi : s.serverInstances[id]? = some i) :
    exec (.findServer id orgId) s =
      (.ok (if i.orgId = orgId then
        some (i, (s.orgs[i.orgId]?).bind Org.maintenancePasswordEncrypted) else none), s) := by
  simp [exec, hi]

-- What a program adds to the queue: one entry of the type with the payload.
def Adds (type : String) (log : List (Cmd × Fate)) (payload : Json) (log' : List (Cmd × Fate)) : Prop :=
  ∃ e, enqueued log' = enqueued log ++ [e] ∧ e.type = type ∧ e.payload = payload

theorem wp_insertAndEnqueue {orgId : OrgId} {userId : Option UserId} {type : String}
    {payload : Payload} :
    (insertAndEnqueue orgId userId id i type payload).wp alone
      (fun _ m => Adds type log (.obj payload) m.2) (s, log) := by
  have hn {c fate} : ¬(Disturbance.none : Disturbance controlPlane) c fate := fun h => h
  refine wp_step_logged rfl ?_ fun _ => hn
  refine wp_step_logged rfl ?_ fun _ => hn
  refine wp_step_logged exec_queueAdd ?_ fun _ => hn
  simp [Adds, enqueued]

section

variable {userId : UserId} {membership : Option UserOrg} {type : String} {encrypted : Option String}
  {payload payload' : Option Payload}

-- The fields that `createJob` sets itself.
def ownFields : List String :=
  ["command", "recommendedBy", "recommendedById", "enabled", "password", "kick_reason"]

-- A payload that differs from the given one in fields that `createJob` sets itself.
structure Derived (payload payload' : Option Payload) : Prop where
  nodup  : ((payload'.getD []).map Prod.fst).Nodup
  lookup : ∀ k ∉ ownFields, (payload'.getD []).lookup k = (payload.getD []).lookup k

theorem Derived.refl (h : ((payload.getD []).map Prod.fst).Nodup) : Derived payload payload :=
  ⟨h, fun _ _ => rfl⟩

theorem Derived.spread {fields : Payload} (h : Derived payload payload')
    (hf : (fields.map Prod.fst).Nodup) (ho : ∀ k ∈ fields.map Prod.fst, k ∈ ownFields) :
    Derived payload (some (Json.spread (payload'.getD []) fields)) where
  nodup := Json.nodup_spread h.nodup
  lookup k hk := by
    have hl := Json.lookup_eq_none fun hm => hk (ho k hm)
    rw [Option.getD_some, Json.lookup_spread hf, hl, Option.none_or, h.lookup k hk]

theorem Derived.memberPayload (h : ((payload.getD []).map Prod.fst).Nodup)
    (hm : memberPayload membership userId type payload = .ok payload') : Derived payload payload' := by
  have hr := Derived.refl h
  rw [Jobs.memberPayload] at hm
  split at hm
  case isTrue =>
    cases hm
    exact hr.spread (by simp) (by simp [ownFields])
  case isFalse =>
    split at hm
    case isFalse => cases hm; exact hr
    case isTrue =>
      cases hc : consoleCommand payload <;> rw [hc] at hm <;> cases hm
      exact hr.spread (by simp) (by simp [ownFields])

-- The fields of the maintenance are fields that `createJob` sets itself.
theorem Derived.wp_maintenancePayload (h : Derived payload payload') :
    (maintenancePayload deps id encrypted payload').wp alone
      (fun r m => enqueued m.2 = enqueued log ∧ ∀ p, r = .ok p → Derived payload (some p)) (s, log) := by
  have hs {fields : Payload} (hf : (fields.map Prod.fst).Nodup)
      (ho : ∀ k ∈ fields.map Prod.fst, k ∈ ownFields) {r : Result Exception Payload}
      (hr : r = .ok (Json.spread (payload'.getD []) fields)) :
      ∀ p, r = .ok p → Derived payload (some p) := fun p hp => by
    cases hr.symm.trans hp
    exact h.spread hf ho
  rw [maintenancePayload]
  split
  case h_2 =>
    rw [if_neg Bool.false_ne_true]
    exact ⟨rfl, hs (by simp) (by simp [ownFields]) rfl⟩
  case h_1 =>
    rw [if_pos rfl]
    split
    case h_1 => exact ⟨rfl, fun _ hp => nomatch hp⟩
    case h_2 =>
      split
      case h_1 => exact ⟨rfl, fun _ hp => nomatch hp⟩
      case h_2 =>
        refine wp_call_logged.mpr ⟨?_, fun _ hd => hd.elim, fun _ hd => hd.elim⟩
        cases (controlPlane.exec (.updateServer id { rebootIfDown := some false }) s).1
        case error => exact ⟨by simp [enqueued], fun _ hp => nomatch hp⟩
        case ok    =>
          exact ⟨by simp [enqueued],
            hs (by simp) (by simp [ownFields]) rfl⟩

-- A queue entry of `createJob`: the fields of the server under those of the payload.
def IsEntry (id : ServerId) (i : ServerInstance) (type : String) (payload : Option Payload)
    (e : QueueJobData) : Prop :=
  e.type = type ∧ ∃ payload', Derived payload payload' ∧
    e.payload = .obj (Json.spread (serverPayload id i) (payload'.getD []))

theorem Derived.wp_insertAndEnqueue {orgId : OrgId} {createdBy : Option UserId}
    (h : Derived payload payload') (hl : enqueued log = []) :
    (insertAndEnqueue orgId createdBy id i type
      (Json.spread (serverPayload id i) (payload'.getD []))).wp alone
    (fun _ m => ∃ e, enqueued m.2 = [e] ∧ IsEntry id i type payload e) (s, log) := by
  apply wp_mono Jobs.wp_insertAndEnqueue
  intro _ m ⟨e, hm, ht, hp⟩
  exact ⟨e, by rw [hm, hl, List.nil_append], ht, payload', h, hp⟩

-- All entries that a run has added are entries of `createJob`.
def AllEntries (id : ServerId) (i : ServerInstance) (type : String) (payload : Option Payload)
    (log : List (Cmd × Fate)) : Prop :=
  ∀ e ∈ enqueued log, IsEntry id i type payload e

theorem AllEntries.of_empty (h : enqueued log = []) : AllEntries id i type payload log := by
  simp [AllEntries, h]

theorem AllEntries.of_one (h : ∃ e, enqueued log = [e] ∧ IsEntry id i type payload e) :
    AllEntries id i type payload log := by
  have ⟨e, hl, he⟩ := h
  simpa [AllEntries, hl] using he

-- The part of `createJob` after its checks.
theorem Derived.wp_createEntry {orgId : OrgId} (h : Derived payload payload')
    (hl : enqueued log = []) :
    ((do
      let payload ←
        if type = "SERVER_MAINTENANCE" then some <$> maintenancePayload deps id encrypted payload'
        else pure payload'
      insertAndEnqueue orgId (some userId) id i type
        (Json.spread (serverPayload id i) (payload.getD []))) : Service (JobId × RunId)).wp alone
    (fun _ m => AllEntries id i type payload m.2) (s, log) := by
  have hw {s' log p} (hd : Derived payload p) (hl : enqueued log = []) :
      (insertAndEnqueue orgId (some userId) id i type
        (Json.spread (serverPayload id i) (p.getD []))).wp alone
      (fun _ m => AllEntries id i type payload m.2) (s', log) :=
    wp_mono (hd.wp_insertAndEnqueue hl) fun _ _ => .of_one
  split
  case isFalse => exact hw h hl
  case isTrue =>
    refine wp_bind.mpr (wp_bind.mpr (wp_mono h.wp_maintenancePayload ?_))
    intro r m ⟨hm, hp⟩
    have hm := hm.trans hl
    cases r
    case error => exact .of_empty hm
    case ended => exact .of_empty hm
    case ok p  => exact hw (hp p rfl) hm

theorem wp_createJob {orgId : OrgId} {jobType : String} (hi : s.serverInstances[id]? = some i)
    (hp : ((payload.getD []).map Prod.fst).Nodup) :
    (createJob deps orgId userId id jobType payload).wp alone
      (fun _ m => AllEntries id i (normalizeJobType jobType) payload m.2) (s, []) := by
  simp only [createJob]
  generalize normalizeJobType jobType = type
  refine wp_step_logged (rfl : exec (.findMember userId orgId) s = (.ok _, s)) ?_ fun _ h => h
  split
  case isTrue => exact .of_empty rfl
  case isFalse =>
    refine wp_bind.mpr (wp_ofExcept.mpr ?_)
    cases hm : memberPayload (s.userOrgs.find? fun m => m.userId = userId && m.orgId = orgId) userId
      type payload
    case error => exact .of_empty rfl
    case ok p =>
      simp only [ansPost, seqPost]
      refine wp_check roleChecks_finds (fun _ => .of_empty) fun log hl => ?_
      refine wp_check memberChecks_finds (fun _ hl' => .of_empty (hl'.trans hl)) fun log' hl' => ?_
      refine wp_step_logged (exec_findServer hi) ?_ fun _ h => h
      have hl : enqueued (log' ++ [(.findServer id orgId, .served)]) = [] := by
        rw [enqueued_append, hl', hl]
        rfl
      by_cases ho : i.orgId = orgId
      case neg => simp only [if_neg ho]; exact .of_empty hl
      case pos => simp only [if_pos ho]; exact (Derived.memberPayload hp hm).wp_createEntry hl

theorem isEntry_of_enqueued {orgId : OrgId} {jobType : String} {e : QueueJobData}
    (hi : s.serverInstances[id]? = some i) (hp : ((payload.getD []).map Prod.fst).Nodup)
    (he : e ∈ enqueued ((createJob deps orgId userId id jobType payload).run [] s).log) :
    IsEntry id i (normalizeJobType jobType) payload e :=
  wp_run_logged (wp_createJob hi hp) (run_nil_within _) (fun _ h => h) e he

-- The types that a viewer may use.
theorem mem_viewerAllowed : type ∈ viewerAllowed ↔ type = "MOD_LIST" ∨ type = "MOD_QUARANTINE_LIST" ∨
    type = "MOD_PENDING_LIST" ∨ type = "MOD_UPLOAD_PENDING" := by
  simp [viewerAllowed]

theorem roleChecks_viewerAllowed {orgId : OrgId} (h : type ∈ viewerAllowed) :
    roleChecks orgId userId type = pure () := by
  obtain rfl | rfl | rfl | rfl := mem_viewerAllowed.mp h <;> simp [roleChecks]

theorem memberChecks_viewerAllowed (h : type ∈ viewerAllowed) :
    memberChecks membership type = pure () := by
  obtain rfl | rfl | rfl | rfl := mem_viewerAllowed.mp h <;> simp [memberChecks]

theorem memberPayload_viewerAllowed {e : Exception} (h : type ∈ viewerAllowed) :
    memberPayload membership userId type payload ≠ .error e := by
  obtain rfl | rfl | rfl | rfl := mem_viewerAllowed.mp h <;> simp [memberPayload]

theorem wp_createJob_viewerAllowed {orgId : OrgId} {jobType : String}
    (hi : s.serverInstances[id]? = some i) (ho : i.orgId = orgId)
    (hp : ((payload.getD []).map Prod.fst).Nodup) (ht : normalizeJobType jobType ∈ viewerAllowed) :
    (createJob deps orgId userId id jobType payload).wp alone
      (fun _ m => ∃ e, enqueued m.2 = [e] ∧ IsEntry id i (normalizeJobType jobType) payload e)
      (s, []) := by
  simp only [createJob]
  generalize normalizeJobType jobType = type at ht
  have hn : type ≠ "SERVER_MAINTENANCE" := by
    rintro rfl
    simp [viewerAllowed] at ht
  refine wp_step_logged (rfl : exec (.findMember userId orgId) s = (.ok _, s)) ?_ fun _ h => h
  rw [if_neg (by simp [ht])]
  refine wp_bind.mpr (wp_ofExcept.mpr ?_)
  cases hm : memberPayload (s.userOrgs.find? fun m => m.userId = userId && m.orgId = orgId) userId
    type payload
  case error => exact absurd hm (memberPayload_viewerAllowed ht)
  case ok p =>
    simp only [ansPost, seqPost, roleChecks_viewerAllowed ht, memberChecks_viewerAllowed ht]
    refine wp_step_logged (exec_findServer hi) ?_ fun _ h => h
    simp only [if_pos ho, if_neg hn]
    exact (Derived.memberPayload hp hm).wp_insertAndEnqueue rfl

-- A job of such a type is enqueued for every member.
theorem enqueued_createJob {orgId : OrgId} {jobType : String}
    (hi : s.serverInstances[id]? = some i) (ho : i.orgId = orgId)
    (hp : ((payload.getD []).map Prod.fst).Nodup) (ht : normalizeJobType jobType ∈ viewerAllowed) :
    ∃ e, enqueued ((createJob deps orgId userId id jobType payload).run [] s).log = [e] ∧
      IsEntry id i (normalizeJobType jobType) payload e :=
  wp_run_logged (wp_createJob_viewerAllowed hi ho hp ht) (run_nil_within _) fun _ h => h

end

-- A command that adds nothing but entries with the given payload to the queue.
def Cmd.AddsOnly (payload : Json) : Cmd → Prop
  | queueAdd _ data => data.payload = payload
  | _               => True

theorem payload_of_enqueued {α : Type} {p : Service α} {fs : List Fate} {e : QueueJobData}
    {payload : Json} (h : p.Only (Cmd.AddsOnly payload)) (he : e ∈ enqueued (p.run fs s).log) :
    e.payload = payload := by
  have ⟨⟨c, f⟩, hm, hc⟩ := List.mem_filterMap.mp he
  have ha := h.of_mem_log hm
  split at hc
  case h_1 heq => cases heq; cases hc; exact ha
  case h_2     => nomatch hc

theorem createBatchJobs_addsOnly {orgId : OrgId} {userId : Option UserId} {dto : CreateBatchDto}
    {batchId : BatchId} {jobType : String} {instances : List (ServerId × ServerInstance)} :
    (createBatchJobs orgId userId dto batchId jobType instances).Only
      (Cmd.AddsOnly (dto.payload.getD (.obj []))) := by
  induction instances
  case nil => exact .pure
  case cons hi =>
    refine .bind (.perform trivial) fun _ => ?_
    refine .bind (.perform trivial) fun _ => ?_
    refine .bind (.perform rfl) fun _ => ?_
    exact .bind (.perform trivial) fun _ => hi

-- The entries of a batch carry the payload of the request and nothing else.
theorem createBatch_addsOnly {orgId : OrgId} {userId : Option UserId} {dto : CreateBatchDto} :
    (createBatch orgId userId dto).Only (Cmd.AddsOnly (dto.payload.getD (.obj []))) := by
  refine .bind (.perform trivial) fun instances => .ite .throw ?_
  refine .bind (.perform trivial) fun _ => ?_
  refine .bind createBatchJobs_addsOnly fun _ => ?_
  exact .bind (.perform trivial) fun _ => .pure

end Jobs
