import Mastermind.Hosts.KeepAlive
import Mastermind.Jobs.Theorems.Enqueued
import Mastermind.Jobs.Theorems.Store

open Effects Prog Js Jobs

namespace Hosts

-- A job that starts a server because its game is down.
def isReboot (id : ServerId) (serverId : Option ServerId) (type : String) (payload : Option Json) : Bool :=
  serverId = some id && type = "SERVER_START" &&
    (payload.bind (·.get? "trigger") matches some (.str "reboot_if_down"))

-- The starts of a server by the keep-alive, as jobs and as entries of the queue.
def Store.reboots (id : ServerId) (s : Store) : List Job × List QueueEntry :=
  (s.plane.jobs.filter fun j => isReboot id j.serverInstanceId j.type j.payload,
   s.plane.queue.filter fun e => isReboot id e.data.serverInstanceId e.data.type e.data.payload)

-- The commands of the requests, except for those that start the server or set its flag.
def Cmd.Harmless (id : ServerId) : Cmd → Prop
  | jobs .now | jobs (.findMember ..) | jobs (.findServer ..) | jobs (.findHost _) => True
  | jobs (.insertJob row)       => isReboot id row.serverInstanceId row.type row.payload = false
  | jobs (.insertRun _)         => True
  | jobs (.queueAdd _ data)     => isReboot id data.serverInstanceId data.type data.payload = false
  | jobs (.updateServer _ data) => data.rebootIfDown ≠ some true
  | jobs _                      => False
  | _                           => True

-- An environment in which the flag of the server is read as cleared.
def cleared (id : ServerId) : Environment hosts Unit where
  allows _ c := c.Harmless id
  answers
    | _, .findRebootServers .., r, _ => ∀ servers, r = .ok servers → id ∉ servers
    | _, _, _, _                     => True
  ends _ _ := False

-- What is left of the handler starts the server only if it reads the flag as set. A handler that has
-- read it as set and has not come past the server is not of this kind.
def Unarmed (id : ServerId) (p : Prog hosts Unit) : Prop :=
  p.wp (cleared id) (fun _ _ => True) ()

def Request.isHeartbeat : Request → Bool
  | heartbeat ..  => true
  | maintenance _ => false

def Cmd.clears (id : ServerId) : Cmd → Bool
  | jobs (.updateServer id' data) => id' = id && data.rebootIfDown = some false
  | _                             => false

-- A call of `createJob` clears the flag of the server.
def disables (id : ServerId) (p : Pool hosts Request Unit) : Pool.Event Request World → Bool
  | .serve i => (p.next? i).any fun n => n.2.clears id
  | _        => false

-- When a call clears the flag, no heartbeat has read it as set and is still on its way to the start.
def Quiet (id : ServerId) (p : Pool hosts Request Unit) (e : Pool.Event Request World) : Prop :=
  disables id p e = true → ∀ t ∈ p.threads, t.request.isHeartbeat = true → Unarmed id t.prog

-- The flag of the server is cleared.
def Store.Cleared (id : ServerId) (s : Store) : Prop :=
  ∀ i ∈ s.plane.serverInstances[id]?, i.rebootIfDown = false

-- The flag is cleared, and no thread is on its way to a start.
structure Off (id : ServerId) (p : Pool hosts Request Unit) : Prop where
  flag    : p.state.Cleared id
  threads : ∀ t ∈ p.threads, Unarmed id t.prog

variable {deps : External} {s : Store} {id : ServerId} {c : Cmd} {p : Pool hosts Request Unit}
  {prog : Prog hosts Unit} {q : Request}

theorem unarmed_of_only (h : prog.Only (Cmd.Harmless id)) : Unarmed id prog :=
  h.wp (I := fun _ => True) (fun _ _ hc _ => hc) (fun _ _ _ _ _ _ _ => trivial) trivial

theorem isReboot_of_ne_type {server : Option ServerId} {type : String} {payload : Option Json}
    (h : type ≠ "SERVER_START") : isReboot id server type payload = false := by
  simp [isReboot, h]

theorem isReboot_of_ne_server {server : ServerId} {type : String} {payload : Option Json}
    (h : server ≠ id) : isReboot id (some server) type payload = false := by
  simp [isReboot, h]

theorem insertAndEnqueue_harmless {orgId : OrgId} {userId : Option UserId} {server : ServerId}
    {i : ServerInstance} {type : String} {payload : Payload}
    (h : ∀ payload, isReboot id (some server) type payload = false) :
    (insertAndEnqueue orgId userId server i type payload).Only fun c => (Cmd.jobs c).Harmless id :=
  .bind (.perform (h _)) fun _ => .bind (.perform trivial) fun _ =>
    .bind (.perform (h _)) fun _ => .pure

theorem enqueueInternalJob_harmless {orgId : OrgId} {userId : Option UserId} {server : ServerId}
    {payload : Option Payload} {type : String} (h : server ≠ id) :
    (enqueueInternalJob orgId userId server type payload).Only
      fun c => (Cmd.jobs c).Harmless id := by
  refine .bind (.perform trivial) fun r => ?_
  cases r
  case none   => exact .throw
  case some r => exact insertAndEnqueue_harmless fun _ => isReboot_of_ne_server h

theorem findsMember_harmless {c : Jobs.Cmd} (h : c.FindsMember) : (Cmd.jobs c).Harmless id := by
  cases c <;> trivial

theorem maintenancePayload_harmless {server : ServerId} {encrypted : Option String}
    {payload : Option Payload} : (maintenancePayload deps server encrypted payload).Only
      fun c => (Cmd.jobs c).Harmless id := by
  refine .ite ?_ .pure
  split
  case h_1 => exact .throw
  case h_2 =>
    split
    case h_1 => exact .throw
    case h_2 => exact .bind (.perform (by simp [Cmd.Harmless])) fun _ => .pure

-- A call that enables the maintenance neither starts a server nor sets a flag.
theorem maintenance_harmless (m : Maintenance) :
    (createJob deps m.orgId m.userId m.serverInstanceId m.jobType m.payload).Only
      fun c => (Cmd.jobs c).Harmless id := by
  have ht : normalizeJobType m.jobType ≠ "SERVER_START" := by
    rw [m.isMaintenance]
    decide
  simp only [createJob]
  generalize normalizeJobType m.jobType = type at ht ⊢
  refine .bind (.perform trivial) fun membership => .ite .throw ?_
  refine .bind .ofExcept fun payload => ?_
  refine .bind (roleChecks_finds.mono fun _ => findsMember_harmless) fun _ => ?_
  refine .bind (memberChecks_finds.mono fun _ => findsMember_harmless) fun _ => ?_
  refine .bind (.perform trivial) fun found => ?_
  have hi {i payload} : (insertAndEnqueue m.orgId (some m.userId) m.serverInstanceId i
      type payload).Only fun c => (Cmd.jobs c).Harmless id :=
    insertAndEnqueue_harmless fun _ => isReboot_of_ne_type ht
  cases found
  case none => exact .throw
  case some =>
    refine .ite (.bind (.map maintenancePayload_harmless) fun _ => hi) ?_
    exact .bind .pure fun _ => hi

theorem serve_maintenance_harmless (m : Maintenance) :
    ((Request.maintenance m).serve deps).Only (Cmd.Harmless id) :=
  .bind (.lift (maintenance_harmless m)) fun _ => .pure

theorem rebootIfDown_harmless {hostId : HostId} {orgId : OrgId} {since : Time} {server : ServerId}
    (h : server ≠ id) : (rebootIfDown hostId orgId since server).Only (Cmd.Harmless id) :=
  .bind (.perform trivial) fun _ => .ite .pure <|
    .bind (.perform trivial) fun _ => .ite .pure <|
      .bind (.lift (enqueueInternalJob_harmless h)) fun _ => .pure

theorem forEach_harmless {hostId : HostId} {orgId : OrgId} {since : Time} {servers : List ServerId}
    (h : id ∉ servers) :
    (forEach (rebootIfDown hostId orgId since) servers).Only (Cmd.Harmless id) := by
  induction servers
  case nil => trivial
  case cons server servers hi =>
    have ⟨hs, hn⟩ : id ≠ server ∧ id ∉ servers := by simpa using h
    exact (rebootIfDown_harmless (Ne.symm hs)).bind fun _ => hi hn

theorem unarmed_ask {c : Cmd} {f : c.Ans → Prog hosts Unit} (hc : c.Harmless id)
    (hf : ∀ a, (cleared id).answers () c (.ok a) () → Unarmed id (f a)) : Unarmed id (ask c >>= f) := by
  refine ⟨hc, fun r _ hr => ?_, fun h => h.elim⟩
  cases r
  case error => trivial
  case ok a  => exact hf a hr

theorem maybeRebootIfDown_unarmed {hostId : HostId} {orgId : OrgId} :
    Unarmed id (maybeRebootIfDown hostId orgId) := by
  refine unarmed_ask trivial fun servers hs => ?_
  have hn : id ∉ servers := hs servers rfl
  split
  case isTrue  => trivial
  case isFalse => exact unarmed_of_only (.bind (.perform trivial) fun _ => forEach_harmless hn)

-- A handler that has just been started has not read the flag.
theorem serve_unarmed : Unarmed id (q.serve deps) := by
  cases q
  case maintenance m => exact unarmed_of_only (serve_maintenance_harmless m)
  case heartbeat hostId metrics =>
    refine unarmed_ask trivial fun host _ => ?_
    cases host
    case none => trivial
    case some host =>
      refine unarmed_ask trivial fun _ _ => ?_
      split
      case isTrue  => exact wp_handle_keeps maybeRebootIfDown_unarmed fun _ _ _ => trivial
      case isFalse => trivial

-- A cleared flag is read as cleared.
theorem not_mem_rebootServers {hostId : HostId} {orgId : OrgId} (hs : s.Cleared id) :
    id ∉ s.rebootServers hostId orgId := by
  intro h
  have ⟨⟨k, i⟩, hm, hk⟩ := List.mem_map.mp h
  have ⟨he, hf⟩ := List.mem_filter.mp hm
  simp only at hk
  subst hk
  have hc : i.rebootIfDown = false := hs i (Table.mem_entries.mp he)
  simp [hc] at hf

theorem cleared_updateServer {server : ServerId} {data : ServerData}
    (hd : data.rebootIfDown ≠ some true) (hs : s.Cleared id) :
    (s.put (Jobs.exec (.updateServer server data) s.plane).2).Cleared id := by
  intro i hi
  simp only [Store.put, Jobs.exec] at hi
  split at hi
  case isFalse => exact hs i hi
  case isTrue =>
    simp only [List.getElem?_modify, Option.mem_def, Option.map_eq_map, Option.map_eq_some_iff] at hi
    obtain ⟨i', hi', he⟩ := hi
    rw [← he]
    split
    case isFalse => exact hs i' hi'
    case isTrue =>
      have hc := hs i' hi'
      rcases hr : data.rebootIfDown with _ | _ | _
      case none       => simp [ServerData.apply, hr, hc]
      case some.false => simp [ServerData.apply, hr]
      case some.true  => exact absurd hr hd

-- What a harmless command does while the flag is cleared.
theorem exec_harmless (hc : c.Harmless id) (hs : s.Cleared id) :
    (cleared id).answers () c (exec c s).1 () ∧ (exec c s).2.Cleared id ∧
      (exec c s).2.reboots id = s.reboots id := by
  cases c
  case recordHeartbeat =>
    simp only [exec]
    split <;> exact ⟨trivial, hs, rfl⟩
  case findActiveRun => exact ⟨trivial, hs, rfl⟩
  case findRecentJob => exact ⟨trivial, hs, rfl⟩
  case findRebootServers =>
    refine ⟨fun servers h => ?_, hs, rfl⟩
    cases h
    exact not_mem_rebootServers hs
  case jobs c =>
    refine ⟨trivial, ?_⟩
    cases c <;> first | exact hc.elim | skip
    case now        => exact ⟨hs, rfl⟩
    case findMember => exact ⟨hs, rfl⟩
    case findServer => exact ⟨hs, rfl⟩
    case findHost   => exact ⟨hs, rfl⟩
    case insertRun  => exact ⟨hs, rfl⟩
    case insertJob row =>
      have hc : isReboot id row.serverInstanceId row.type row.payload = false := hc
      exact ⟨hs, by simp [Store.reboots, exec, Store.put, Jobs.exec, hc]⟩
    case updateServer server data =>
      refine ⟨cleared_updateServer hc hs, ?_⟩
      simp only [exec, Jobs.exec]
      split <;> rfl
    case queueAdd orgId data =>
      have hc : isReboot id data.serverInstanceId data.type data.payload = false := hc
      simp only [exec, Jobs.exec]
      split
      case isTrue  => exact ⟨hs, rfl⟩
      case isFalse => exact ⟨hs, by simp [Store.reboots, Store.put, hc]⟩

-- An update that clears the flag.
theorem cleared_of_disables {server : ServerId} {data : ServerData}
    (hd : data.rebootIfDown = some false) :
    (s.put (Jobs.exec (.updateServer server data) s.plane).2).Cleared server := by
  intro i hi
  simp only [Store.put, Jobs.exec] at hi
  split at hi
  case isFalse h => simp [Option.mem_def.mp hi] at h
  case isTrue =>
    simp only [List.getElem?_modify, Option.mem_def, Option.map_eq_map, Option.map_eq_some_iff, if_true] at hi
    obtain ⟨i', _, he⟩ := hi
    rw [← he]
    simp [ServerData.apply, hd]

theorem forall_set {I : Thread hosts Request Unit → Prop} {l : List (Thread hosts Request Unit)}
    {i : Nat} {t : Thread hosts Request Unit} (h : ∀ t ∈ l, I t) (ht : I t) : ∀ t' ∈ l.set i t, I t' := by
  intro t' hm
  cases List.mem_or_eq_of_mem_set hm
  case inl hm => exact h t' hm
  case inr he => exact he ▸ ht

-- While the flag is cleared and no thread is on its way to a start, nothing but an operator changes
-- that, and no start is created.
theorem Off.next {e : Pool.Event Request World} (h : Off id p)
    (he : e ≠ .world (.operator id true)) :
    Off id ((keepAlive deps).next p e) ∧
      ((keepAlive deps).next p e).state.reboots id = p.state.reboots id := by
  cases e
  case start q =>
    refine ⟨⟨h.flag, fun t ht => ?_⟩, rfl⟩
    cases List.mem_append.mp ht
    case inl ht => exact h.threads t ht
    case inr ht => exact List.mem_singleton.mp ht ▸ serve_unarmed
  case serve i =>
    change Off id (p.serve i) ∧ (p.serve i).state.reboots id = _
    cases p.serve_cases i
    case inl hs =>
      rw [hs]
      exact ⟨h, rfl⟩
    case inr hs =>
      have ⟨q, c, k, hi, hs⟩ := hs
      have hw : Unarmed id (.call c k) := h.threads _ (List.mem_of_getElem? hi)
      have ⟨ha, hf, hr⟩ := exec_harmless hw.left h.flag
      rw [hs]
      exact ⟨⟨hf, forall_set h.threads (hw.right.left _ _ ha)⟩, hr⟩
  case fail i =>
    change Off id (p.fail i) ∧ (p.fail i).state.reboots id = _
    cases p.fail_cases i
    case inl hs =>
      rw [hs]
      exact ⟨h, rfl⟩
    case inr hs =>
      have ⟨q, c, k, hi, hs⟩ := hs
      have hw : Unarmed id (.call c k) := h.threads _ (List.mem_of_getElem? hi)
      have ha : (cleared id).answers () c (.error .storage) () := by
        cases c <;> first | trivial | exact fun _ h => nomatch h
      rw [hs]
      exact ⟨⟨h.flag, forall_set h.threads (hw.right.left _ _ ha)⟩, rfl⟩
  case world w =>
    refine ⟨⟨?_, h.threads⟩, ?_⟩
    case refine_2 => cases w <;> rfl
    case refine_1 =>
      intro i hi
      cases w
      case elapse ms => exact h.flag i hi
      case agent server maintenanceMode runs =>
        simp only [World.happen, List.getElem?_modify, Option.mem_def, Option.map_eq_map,
          Option.map_eq_some_iff] at hi
        have ⟨i', hi', he⟩ := hi
        have hc := h.flag i' hi'
        rw [← he]
        split
        case isTrue  => exact hc
        case isFalse => exact hc
      case operator server b =>
        simp only [World.happen, List.getElem?_modify, Option.mem_def, Option.map_eq_map,
          Option.map_eq_some_iff] at hi
        have ⟨i', hi', hr⟩ := hi
        rw [← hr]
        split
        case isFalse => exact h.flag i' hi'
        case isTrue hs =>
          cases b
          case false => rfl
          case true  => exact absurd (hs ▸ rfl) he

-- The handlers of `createJob` never start a server.
def Upkeep (id : ServerId) (p : Pool hosts Request Unit) : Prop :=
  ∀ t ∈ p.threads, t.request.isHeartbeat = false → t.prog.Only (Cmd.Harmless id)

theorem Upkeep.next {e : Pool.Event Request World} (h : Upkeep id p) :
    Upkeep id ((keepAlive deps).next p e) := by
  have hset {i : Nat} {q : Request} {c : Cmd} {k} {r} {s : Store}
      (hi : p.threads[i]? = some ⟨q, .call c k⟩) :
      Upkeep id { state := s, threads := p.threads.set i ⟨q, k r⟩ } :=
    forall_set h fun hq => (h _ (List.mem_of_getElem? hi) hq).right r
  cases e
  case world => exact h
  case start q =>
    intro t ht hq
    cases List.mem_append.mp ht
    case inl ht => exact h t ht hq
    case inr ht =>
      cases List.mem_singleton.mp ht
      cases q
      case heartbeat     => nomatch hq
      case maintenance => exact serve_maintenance_harmless _
  case serve i =>
    change Upkeep id (p.serve i)
    cases p.serve_cases i
    case inl hs => rwa [hs]
    case inr hs =>
      have ⟨q, c, k, hi, hs⟩ := hs
      rw [hs]
      exact hset hi
  case fail i =>
    change Upkeep id (p.fail i)
    cases p.fail_cases i
    case inl hs => rwa [hs]
    case inr hs =>
      have ⟨q, c, k, hi, hs⟩ := hs
      rw [hs]
      exact hset hi

theorem disables_cases {e : Pool.Event Request World} (h : disables id p e = true) :
    ∃ i q data k, e = .serve i ∧ p.threads[i]? = some ⟨q, .call (.jobs (.updateServer id data)) k⟩ ∧
      data.rebootIfDown = some false := by
  cases e
  case serve i =>
    have ⟨⟨q, c⟩, hn, hc⟩ := Option.any_eq_true _ _ |>.mp h
    have ⟨k, hi⟩ := Pool.next?_eq_some.mp hn
    simp only at hc
    unfold Cmd.clears at hc
    split at hc
    case h_1 server data =>
      have ⟨hid, hf⟩ : server = id ∧ data.rebootIfDown = some false := by simpa using hc
      exact ⟨i, q, data, k, rfl, hid ▸ hi, hf⟩
    case h_2 => nomatch hc
  all_goals nomatch h

-- The step in which a call clears the flag leads to a state in which it is off.
theorem off_of_disables {e : Pool.Event Request World} (hu : Upkeep id p) (hq : Quiet id p e)
    (hd : disables id p e = true) : Off id ((keepAlive deps).next p e) := by
  have hall : ∀ t ∈ p.threads, Unarmed id t.prog := by
    intro t ht
    cases hb : t.request.isHeartbeat
    case true  => exact hq hd t ht hb
    case false => exact unarmed_of_only (hu t ht hb)
  have ⟨i, q, data, k, he, hi, hf⟩ := disables_cases hd
  subst he
  change Off id (p.serve i)
  rw [Pool.serve_of_call hi]
  have hw : Unarmed id (.call (.jobs (.updateServer id data)) k) := hall _ (List.mem_of_getElem? hi)
  exact ⟨cleared_of_disables hf, forall_set hall (hw.right.left _ _ trivial)⟩

-- Once a call of `createJob` has cleared the flag of a server, the keep-alive does not start the server
-- until an operator sets the flag again, if no heartbeat is on its way to a start when a call clears it.
theorem maintenance_wins (deps : External) (s : Store) (id : ServerId)
    (es₁ es₂ : List (Pool.Event Request World)) (e : Pool.Event Request World)
    (hq : (keepAlive deps).Meets (Quiet id) (Pool.idle s) (es₁ ++ e :: es₂))
    (hd : disables id ((keepAlive deps).run (Pool.idle s) es₁) e = true)
    (ho : .world (.operator id true) ∉ es₂) :
    ((keepAlive deps).run (Pool.idle s) (es₁ ++ e :: es₂)).state.reboots id =
      ((keepAlive deps).run (Pool.idle s) (es₁ ++ [e])).state.reboots id := by
  have hu : Upkeep id ((keepAlive deps).run (Pool.idle s) es₁) :=
    System.always (fun _ _ => Upkeep.next) fun _ ht => nomatch ht
  have hoff : Off id ((keepAlive deps).next ((keepAlive deps).run (Pool.idle s) es₁) e) :=
    off_of_disables hu (System.meets_append.mp hq).right.left hd
  have hm := System.meets_of_forall (S := keepAlive deps)
    (s := (keepAlive deps).next ((keepAlive deps).run (Pool.idle s) es₁) e)
    (P := fun e => e ≠ .world (.operator id true)) fun e he h => ho (h ▸ he)
  have hr := System.invariant (S := keepAlive deps)
    (I := fun p => Off id p ∧
      p.state.reboots id = ((keepAlive deps).run (Pool.idle s) (es₁ ++ [e])).state.reboots id)
    (fun p e h he => ⟨(h.left.next he).left, (h.left.next he).right.trans h.right⟩)
    ⟨hoff, by rw [System.run_append]; rfl⟩ hm
  rw [System.run_append]
  exact hr.right

-- A state that is off meets the condition from then on.
theorem Off.meets {es : List (Pool.Event Request World)} (h : Off id p)
    (ho : .world (.operator id true) ∉ es) : (keepAlive deps).Meets (Quiet id) p es := by
  induction es generalizing p
  case nil => trivial
  case cons e es hi =>
    have ⟨he, hes⟩ : e ≠ .world (.operator id true) ∧ .world (.operator id true) ∉ es := by
      simpa [eq_comm] using ho
    exact ⟨fun _ t ht _ => h.threads t ht, hi (h.next he).left hes⟩

def library : External :=
  { External.sample with decryptIntegrationSecret := some }

-- A server with the keep-alive on the host of an organisation with an operator.
def kept : Store where
  plane := { Store.sample with
    orgs            := [⟨some "secret"⟩]
    userOrgs        := [{ userId := 0, orgId := 0, role := "operator", name := none, email := "" }]
    serverInstances := [{ ServerInstance.sample with rebootIfDown := true }] }

def enter : Maintenance where
  orgId            := 0
  userId           := 0
  serverInstanceId := 0
  jobType          := "SERVER_MAINTENANCE"
  payload          := some [("enabled", .bool true)]
  isMaintenance    := by decide
  enabled          := rfl

def down : Request :=
  .heartbeat 0 (some { gameReachable := false })

-- The call is served up to the update of the flag.
def entering : List (Pool.Event Request World) :=
  [.start (.maintenance enter), .serve 0, .serve 0]

-- A heartbeat that comes after the update.
def late : List (Pool.Event Request World) :=
  .start down :: List.replicate 3 (.serve 1)

theorem maintenance_wins_late :
    ((keepAlive library).run (Pool.idle kept) (entering ++ .serve 0 :: late)).state.reboots 0 =
      ((keepAlive library).run (Pool.idle kept) (entering ++ [.serve 0])).state.reboots 0 := by
  have hd : disables 0 ((keepAlive library).run (Pool.idle kept) entering) (.serve 0) = true := by
    decide +kernel
  have hn {p : Pool hosts Request Unit} {e : Pool.Event Request World}
      (h : p.threads.all (!·.request.isHeartbeat) = true) : Quiet 0 p e := by
    intro _ t ht hb
    simpa [hb] using List.all_eq_true.mp h t ht
  have hq : Quiet 0 ((keepAlive library).run (Pool.idle kept) entering) (.serve 0) :=
    hn (by decide +kernel)
  have hu : Upkeep 0 ((keepAlive library).run (Pool.idle kept) entering) :=
    System.always (fun _ _ => Upkeep.next) fun _ ht => nomatch ht
  have ho : .world (.operator 0 true) ∉ late := by simp [late]
  refine maintenance_wins library kept 0 entering late (.serve 0) ?_ hd ho
  apply System.meets_append.mpr
  constructor
  case left  => exact ⟨hn rfl, hn rfl, hn (by decide +kernel), trivial⟩
  case right => exact ⟨hq, (off_of_disables hu hq hd).meets ho⟩

-- A heartbeat that has read the flag before the update.
def early : List (Pool.Event Request World) :=
  [.start down, .serve 0, .serve 0, .serve 0, .start (.maintenance enter), .serve 1, .serve 1]

-- Afterwards it checks for jobs and starts the server.
def starting : List (Pool.Event Request World) :=
  List.replicate 7 (.serve 0)

theorem starts_in_maintenance :
    (disables 0 ((keepAlive library).run (Pool.idle kept) early) (.serve 1) = true) ∧
    (.world (.operator 0 true) ∉ starting) ∧
    ((((keepAlive library).run (Pool.idle kept) (early ++ [.serve 1])).state.reboots 0).2.length = 0) ∧
    (((keepAlive library).run (Pool.idle kept) (early ++ .serve 1 :: starting)).state.reboots 0).2.length
      = 1 := by
  refine ⟨by decide +kernel, by simp [starting], by decide +kernel, by decide +kernel⟩

end Hosts
