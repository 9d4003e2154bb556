import Mastermind.Agent.Theorems.Config

open Effects Js Jobs Batches

namespace Agent

variable {lower : Char → Char} {r : Registry} {p f : Fields} {id : ServerId} {i : ServerInstance}
  {a b : Option Json}

-- The entries that a run has added for a server.
def enqueuedFor (id : ServerId) (log : List (Cmd × Fate)) : List QueueJobData :=
  (enqueued log).filter (·.serverInstanceId = some id)

-- The agent hands both jobs to the same adapter with the same configuration.
def SameWork (lower : Char → Char) (r : Registry) (e e' : QueueJobData) : Prop :=
  (selectAdapter lower (some r) (decodePayload e.payload) =
    selectAdapter lower (some r) (decodePayload e'.payload)) ∧
  payloadToConfig (decodePayload e.payload) = payloadToConfig (decodePayload e'.payload)

-- The payload has a field itself.
def Has (p : Fields) (key : String) : Prop :=
  (p.lookup key).isSome = true

-- A payload that needs nothing from the row of the server: it has every field that the agent reads,
-- or the row has no value for the field, or the row has the value that the agent falls back to.
structure SelfContained (p : Fields) (i : ServerInstance) : Prop where
  serverInstanceId : Has p "server_instance_id"
  gameType         : Has p "game_type" ∨ trimSpace i.gameType = ""
  installPath      : Has p "install_path" ∨ i.installPath.getD "" = ""
  startCommand     : Has p "start_command" ∨ i.startCommand.getD "" = ""
  rconHost         : Has p "rcon_host" ∨ i.rconHost.getD "" = "" ∨
    i.rconHost.getD "" = hostOf none (p.lookup "telnet_host")
  rconPort         : Has p "rcon_port" ∨
    ∀ port, i.rconPort = some port → toInt port = portOf none (p.lookup "telnet_port")
  rconPassword     : Has p "rcon_password" ∨ i.rconPassword.getD "" = "" ∨
    i.rconPassword.getD "" = stringOf (p.lookup "telnet_password")
  config           : Has p "config" ∨
    ∀ key v, (objectOf i.config).lookup key = some v →
      ((objectOf (p.lookup "extra")).lookup key).isSome ∨
      (key = "update_command" ∧ stringOf (p.lookup "update_command") ≠ "" ∧
        p.lookup "update_command" = some v)

theorem stringOf_or_iff {s : Option String} :
    stringOf a = stringOf (a.or (s.map .str)) ↔ a.isSome ∨ s.getD "" = "" := by
  cases a <;> cases s <;> simp [stringOf, eq_comm]

theorem hostOf_or_iff {s : Option String} :
    hostOf a b = hostOf (a.or (s.map .str)) b ↔ a.isSome ∨ s.getD "" = "" ∨ s.getD "" = hostOf none b := by
  cases a
  case some => simp
  case none =>
    cases s
    case none   => simp
    case some s =>
      by_cases hs : s = ""
      case pos => simp [hostOf, stringOf, hs]
      case neg => simpa [hostOf, stringOf, hs] using eq_comm

theorem portOf_or_iff {n : Option Int} :
    portOf a b = portOf (a.or (n.map fun (n : Int) => .num (.fin n))) b ↔
      a.isSome ∨ ∀ port, n = some port → toInt port = portOf none b := by
  cases a
  case some => simp
  case none => cases n <;> simp [portOf, eq_comm]

theorem passwordOf_or_iff {s : Option String} :
    passwordOf a b = passwordOf (a.or (s.map .str)) b ↔
      a.isSome ∨ s.getD "" = "" ∨ s.getD "" = stringOf b := by
  cases a
  case some => simp
  case none =>
    cases s
    case none   => simp
    case some s =>
      by_cases hs : s = ""
      case pos => simp [passwordOf, stringOf, hs]
      case neg => simpa [passwordOf, stringOf, hs] using eq_comm

theorem extraOf_or_iff {u c x : Option Json} :
    extraOf u a x = extraOf u (a.or c) x ↔
      a.isSome ∨ ∀ key v, (objectOf c).lookup key = some v →
        ((objectOf x).lookup key).isSome ∨
        (key = "update_command" ∧ stringOf u ≠ "" ∧ u = some v) := by
  cases a
  case some => simp
  case none =>
    rw [funext_iff]
    simp only [Option.isSome_none, Bool.false_eq_true, false_or, Option.none_or]
    refine forall_congr' fun key => ?_
    have hn : (objectOf none).lookup key = none := rfl
    cases hx : (objectOf x).lookup key
    case some => simp [extraOf, hx]
    case none =>
      cases hc : (objectOf c).lookup key
      case none => simp [extraOf, hx, hc, hn]
      case some v =>
        by_cases hu : key = "update_command" ∧ stringOf u ≠ ""
        case pos =>
          obtain ⟨rfl, hu⟩ := hu
          simp [extraOf, hx, hc, hn, hu]
        case neg =>
          simp only [extraOf, hx, hc, hn, if_neg hu, Option.none_or, Option.some_or, Option.some.injEq,
            reduceCtorEq, Option.isSome_none, Bool.false_eq_true, false_or, forall_eq', false_iff]
          exact fun h => hu ⟨h.left, h.right.left⟩

theorem toLower_eq_empty {s : String} : toLower lower s = "" ↔ s = "" := by
  rw [toLower, String.ofList_eq_empty_iff, List.map_eq_nil_iff, String.toList_eq_nil_iff]

theorem selectAdapter_iff
    (h : f.lookup "game_type" = (p.lookup "game_type").or (some (.str i.gameType))) :
    selectAdapter lower (some r) (some p) = selectAdapter lower (some r) (some f) ↔
      Has p "game_type" ∨ trimSpace i.gameType = "" := by
  simp only [selectAdapter, Option.getD_some, h, Has]
  cases p.lookup "game_type"
  case some => simp
  case none =>
    have ht : toLower lower (trimSpace "") = "" := rfl
    have he : toLower lower "" = "" := rfl
    have hi : toLower lower (trimSpace i.gameType) = "" ↔ _ := toLower_eq_empty
    by_cases hg : trimSpace i.gameType = ""
    case pos => simp [stringOf, hg, ht, he]
    case neg => simp [stringOf, hg, ht, hi]

theorem serverInstanceId_iff :
    stringOf a = stringOf (a.or (some (.str (toString id)))) ↔ a.isSome = true := by
  cases a <;> simp [stringOf]

-- Adding the fields of the row changes nothing if and only if the payload does not need them.
theorem selfContained_iff
    (hf : ∀ k ∉ ownFields, f.lookup k = (p.lookup k).or (rowField id i k)) :
    ((selectAdapter lower (some r) (some p) = selectAdapter lower (some r) (some f)) ∧
      payloadToConfig (some p) = payloadToConfig (some f)) ↔ SelfContained p i := by
  have hg := hf "game_type" (by decide)
  rw [selectAdapter_iff hg, payloadToConfig_merged fun k hk => hf k (not_mem_ownFields k hk)]
  simp only [payloadToConfig, mergedConfig, InstanceConfig.mk.injEq, serverInstanceId_iff,
    stringOf_or_iff, hostOf_or_iff, portOf_or_iff, passwordOf_or_iff, extraOf_or_iff, true_and]
  constructor
  case mp =>
    rintro ⟨h₁, h₂, h₃, h₄, h₅, h₆, h₇, h₈⟩
    exact ⟨h₂, h₁, h₃, h₄, h₅, h₆, h₇, h₈⟩
  case mpr =>
    rintro ⟨h₁, h₂, h₃, h₄, h₅, h₆, h₇, h₈⟩
    exact ⟨h₂, h₁, h₃, h₄, h₅, h₆, h₇, h₈⟩

-- The agent does the same work for the entry of a batch as for the entry of a single job if and only
-- if the payload of the request needs nothing from the row of the server.
theorem bulk_equals_single_iff {deps : External} {s : Store} {orgId : OrgId} {userId : UserId}
    {dto : CreateBatchDto} {payload : Option Record} {e e' : QueueJobData}
    (hd : dto.payload = payload.map fun p => .obj p.val) (hi : s.serverInstances[id]? = some i)
    (he : e ∈ enqueuedFor id ((createBatch orgId (some userId) dto).run [] s).log)
    (he' : e' ∈ enqueuedFor id
      ((createJob deps orgId userId id ((BATCH_TYPE_TO_JOB_TYPE dto.type).getD dto.type)
        (payload.map Subtype.val)).run [] s).log) :
    SameWork lower r e e' ↔ SelfContained (Record.orEmpty payload) i := by
  have hp := Record.nodup_orEmpty payload
  have hb := payload_of_enqueued createBatch_addsOnly (List.mem_filter.mp he).left
  have hb : decodePayload e.payload = some (Record.orEmpty payload) := by
    rw [hb, hd]
    cases payload <;> rfl
  have ⟨f, hf, hl⟩ := fields_of_isEntry (isEntry_of_enqueued hi hp (List.mem_filter.mp he').left)
  rw [SameWork, hb, hf]
  exact selfContained_iff hl

-- The wave of restarts with one server.
def restartWave (payload : Option Record) : CreateBatchDto where
  type              := "restart_wave"
  serverInstanceIds := [0]
  payload           := payload.map fun p => .obj p.val
  nonempty          := nofun

-- The entries of the wave and of the single job.
def waveEntries (payload : Option Record) : List QueueJobData :=
  enqueuedFor 0 ((createBatch 0 (some 1) (restartWave payload)).run [] sampleStore).log

def singleEntries (payload : Option Record) : List QueueJobData :=
  enqueuedFor 0
    ((createJob sampleDeps 0 1 0 "SERVER_RESTART" (payload.map Subtype.val)).run [] sampleStore).log

def completePayload : Record :=
  ⟨[("server_instance_id", .str "0"), ("game_type", .str "minecraft"),
    ("install_path", .str "/srv/world")], by decide⟩

theorem bulk_equals_single_iff_completePayload :
    ∃ e ∈ waveEntries (some completePayload), ∃ e' ∈ singleEntries (some completePayload),
      SameWork Char.toLower ["minecraft"] e e' := by
  have hb : (waveEntries (some completePayload)).length = 1 := by decide +kernel
  have hj : (singleEntries (some completePayload)).length = 1 := by decide +kernel
  have ⟨e, he⟩ := List.length_eq_one_iff.mp hb
  have ⟨e', he'⟩ := List.length_eq_one_iff.mp hj
  have he := he ▸ List.mem_singleton_self e
  have he' := he' ▸ List.mem_singleton_self e'
  refine ⟨e, he, e', he', (bulk_equals_single_iff (s := sampleStore) rfl rfl he he').mpr ?_⟩
  constructor <;> simp [Has, Record.orEmpty, completePayload, Json.lookup_cons, objectOf, sampleServer]

-- The adapters that the agent hands the jobs of some entries to.
def adapters (entries : List QueueJobData) : List (Except String Adapter) :=
  entries.map fun e => selectAdapter Char.toLower (some ["minecraft"]) (decodePayload e.payload)

-- Without a payload the job of the wave has no game type.
theorem bulk_differs_noPayload :
    (adapters (waveEntries none) = [.error "job payload missing game_type"]) ∧
      adapters (singleEntries none) = [.ok (.registered "minecraft")] := by
  decide +kernel

end Agent
