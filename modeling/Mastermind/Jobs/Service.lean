import Mastermind.Batches.Service
import Mastermind.Script.Date

open Effects Js Batches

namespace Jobs

-- Code that other modules of the control plane or its libraries provide: the decryption of stored
-- secrets (`none` when it throws), the reading of an item catalog and the time of the next run of a
-- schedule.
structure External where
  decryptIntegrationSecret : String → Option String
  catalogFromAgentResult   : Option Json → Json
  computeNextRun           : Schedule → Time → Option Date

-- Job types are ASCII.
def toUpperCase (s : String) : String :=
  .ofList (s.toList.map Char.toUpper)

def toLowerCase (s : String) : String :=
  .ofList (s.toList.map Char.toLower)

def normalizeJobType (jobType : String) : String :=
  match toLowerCase jobType with
  | "start"   => "SERVER_START"
  | "stop"    => "SERVER_STOP"
  | "restart" => "SERVER_RESTART"
  | "rcon"    => "RCON"
  | _         => toUpperCase jobType

def viewerAllowed : List String :=
  ["MOD_LIST", "MOD_QUARANTINE_LIST", "MOD_PENDING_LIST", "MOD_UPLOAD_PENDING"]

-- The console command of a payload, trimmed, or the error of `createJob` about it.
def consoleCommand (payload : Option Payload) : Except Exception String :=
  let command :=
    match payload.bind (·.lookup "command") with
    | some (.str s) => trim s
    | _             => ""
  if command = "" then .error (.badRequest "Console command is required")
  else if (units command).length > 512 then
    .error (.badRequest "Console command cannot exceed 512 characters")
  else if command.toList.any fun c => c = '\r' || c = '\n' then
    .error (.badRequest "Only one console command may be sent at a time")
  else .ok command

def requireRole (membership : Option UserOrg) (roles : List String) (message : String) :
    Service Unit :=
  if membership.any fun m => roles.contains m.role then return else .throw (.forbidden message)

-- The role checks of `createJob` that read the membership again.
def roleChecks (orgId : OrgId) (userId : UserId) (type : String) : Service Unit := do
  if type = "PLAYER_ADMIN_PROMOTE" ∨ type = "PLAYER_ADMIN_DEMOTE" then
    requireRole (← send (.findMember userId orgId)) ["admin"]
      "Only organization administrators may change game administrators"
  else if type = "PLAYER_KICK_ALL" ∨ type = "SERVER_KILL" then
    requireRole (← send (.findMember userId orgId)) ["admin", "operator"]
      "Only organization administrators or operators may perform this action"
  else if ["SAVE_BACKUP", "SAVE_RESTORE", "SAVE_DELETE", "SAVE_RETENTION",
      "SERVER_SAVE_STOP"].contains type then
    requireRole (← send (.findMember userId orgId)) ["admin", "operator"]
      "Only organization administrators or operators may manage saves"
  else if type = "MOD_UPLOAD_QUARANTINE" then
    requireRole (← send (.findMember userId orgId)) ["admin", "operator"]
      "Only organization administrators or operators may upload mods"
  else return

-- The role checks of `createJob` on the membership read at its start.
def memberChecks (membership : Option UserOrg) (type : String) : Service Unit :=
  if type = "SERVER_UPDATE" then
    requireRole membership ["admin", "operator"]
      "Only organization administrators or operators may update the dedicated server"
  else if type = "SERVER_CONFIG_READ" ∨ type = "SERVER_CONFIG_WRITE" then
    requireRole membership ["admin", "operator"]
      "Only organization administrators or operators may edit the server configuration"
  else if type = "SERVER_MAINTENANCE" then
    requireRole membership ["admin", "operator"]
      "Only organization administrators or operators may change maintenance mode"
  else return

-- The payload after the changes that depend on the member and on the command.
def memberPayload (membership : Option UserOrg) (userId : UserId) (type : String)
    (payload : Option Payload) : Except Exception (Option Payload) :=
  if type = "MOD_UPLOAD_PENDING" then
    let name := (membership.bind UserOrg.name).map trim |>.getD ""
    let email := (membership.map UserOrg.email).getD ""
    let recommendedBy :=
      if name ≠ "" then name else if email ≠ "" then email else "Verified member"
    .ok (Json.spread (payload.getD []) [
      ("recommendedBy", .str recommendedBy), ("recommendedById", .str (toString userId))])
  else if type = "RCON" ∨ type = "SEND_COMMAND" then
    (consoleCommand payload).map fun command =>
      some (Json.spread (payload.getD []) [("command", .str command)])
  else .ok payload

-- The payload of a maintenance job. Entering maintenance disables the keep-alive starts.
def maintenancePayload (deps : External) (serverId : ServerId) (encrypted : Option String)
    (payload : Option Payload) : Service Payload :=
  if payload.bind (·.lookup "enabled") matches some (.bool true) then
    match encrypted.filter (· ≠ "") with
    | none   => .throw (.badRequest "Set a maintenance password in Settings first")
    | some e =>
      match deps.decryptIntegrationSecret e with
      | none          => .throw (.badRequest "Stored maintenance password could not be decrypted")
      | some password => do
        send (.updateServer serverId { rebootIfDown := false })
        return Json.spread (payload.getD []) [
          ("enabled", .bool true), ("password", .str password)
          , ("kick_reason", .str "Server entering maintenance")]
  else return Json.spread (payload.getD []) [
    ("enabled", .bool false), ("kick_reason", .str "Server leaving maintenance")]

-- The fields of a server that its jobs carry.
def serverPayload (id : ServerId) (i : ServerInstance) : Payload :=
  [("server_instance_id", .str (toString id)), ("game_type", .str i.gameType)] ++
  ([("install_path", i.installPath.map .str), ("start_command", i.startCommand.map .str),
    ("rcon_host", i.rconHost.map .str), ("rcon_port", i.rconPort.map fun p => .num (.fin p)),
    ("rcon_password", i.rconPassword.map .str), ("config", i.config)].filterMap
    fun (key, v) => v.map (key, ·))

-- `addJob`
def addJob (orgId : OrgId) (data : QueueJobData) : Service Unit :=
  send (.queueAdd orgId data)

-- The common end of the functions that create a job: its row, its run and its queue entry.
def insertAndEnqueue (orgId : OrgId) (userId : Option UserId) (serverId : ServerId)
    (i : ServerInstance) (type : String) (payload : Payload) : Service (JobId × RunId) := do
  let jobId ← send (.insertJob {
    orgId, serverInstanceId := serverId, type, payload := some (.obj payload), createdById := userId })
  let runId ← send (.insertRun { jobId, hostId := i.hostId, status := .pending })
  addJob orgId {
    jobId, jobRunId := runId, hostId := i.hostId, serverInstanceId := serverId, type
    payload := .obj payload }
  return (jobId, runId)

def createJob (deps : External) (orgId : OrgId) (userId : UserId) (serverInstanceId : ServerId)
    (jobType : String) (payload : Option Payload) : Service (JobId × RunId) := do
  let type := normalizeJobType jobType
  let membership ← send (.findMember userId orgId)
  if membership.any (·.role = "viewer") ∧ !viewerAllowed.contains type then
    .throw (.forbidden
      "Verified members may recommend mods, but cannot change installed mods")
  else do
    let payload ← Prog.ofExcept (memberPayload membership userId type payload)
    roleChecks orgId userId type
    memberChecks membership type
    match ← send (.findServer serverInstanceId orgId) with
    | none => .throw (.notFound "Server instance not found")
    | some (i, encrypted) => do
      let payload ←
        if type = "SERVER_MAINTENANCE" then
          some <$> maintenancePayload deps serverInstanceId encrypted payload
        else pure payload
      insertAndEnqueue orgId (some userId) serverInstanceId i type
        (Json.spread (serverPayload serverInstanceId i) (payload.getD []))

def enqueueInternalJob (orgId : OrgId) (userId : Option UserId) (serverInstanceId : ServerId)
    (jobType : String) (payload : Option Payload) : Service (JobId × RunId) := do
  let type := normalizeJobType jobType
  match ← send (.findServer serverInstanceId orgId) with
  | none        => .throw (.notFound "Server instance not found")
  | some (i, _) =>
    insertAndEnqueue orgId userId serverInstanceId i type
      (Json.spread (serverPayload serverInstanceId i) (payload.getD []))

-- The body of an agent's report.
structure ReportResultDto where
  status       : String
  durationMs   : Option Number := none
  errorMessage : Option String := none
  output       : Option String := none
  result       : Option Json   := none

-- `/^[0-9a-f-]{36}$/i`
def uploadIdShaped (id : String) : Bool :=
  id.toList.length = 36 && id.toList.all fun c => (radixDigit? 16 c).isSome || c = '-'

-- What follows the report of a result for jobs of special types.
def followUp (job : Job) (runStatus : RunStatus) (dto : ReportResultDto) : Service Unit := do
  let payload := (job.payload.map Json.fields).getD []
  if job.type = "MOD_UPLOAD_QUARANTINE" ∨ job.type = "MOD_UPLOAD_PENDING" then
    match payload.lookup "uploadId" with
    | some (.str id) =>
      if uploadIdShaped id then (send (.notify (.unlinkUpload id))).handle fun _ => return else return
    | _ => return
  else if job.type = "SERVER_MAINTENANCE" ∧ runStatus = .success then
    match job.serverInstanceId with
    | none    => return
    | some id =>
      if payload.lookup "enabled" matches some (.bool true) then
        send (.updateServer id { maintenanceMode := true, rebootIfDown := false })
      else send (.updateServer id { maintenanceMode := false })
  else if job.type = "SERVER_SAFE_RESTART" ∧ runStatus = .success then
    match job.serverInstanceId, payload.lookup "trigger" with
    | some id, some (.str "stability_memory") =>
      send (.notify (.skipNextAutoRestart job.orgId id "stability_restart"))
    | _, _ => return
  else if job.type = "PLAYER_LIST_SYNC" ∧ runStatus = .success then
    match job.serverInstanceId with
    | none    => return
    | some id => send (.notify (.playerListSync job.orgId id dto.result))
  else if job.type = "RCON" then
    match payload.lookup "purpose", payload.lookup "donationLineId" with
    | some (.str "shop_grant"), some (.str _) =>
      send (.notify (.finishShopGrant payload runStatus dto.output))
    | _, _ => return
  else if job.type = "TRIGGER_GRANT_ITEMS" then
    (send (.notify (.completeItemGrant payload runStatus
      (dto.output.getD "" ++ " " ++ dto.errorMessage.getD "")))).handle fun _ => return
  else return

def statusText : RunStatus → String
  | .pending   => "pending"
  | .running   => "running"
  | .success   => "success"
  | .failed    => "failed"
  | .cancelled => "cancelled"

-- The checks that `reportJobResult` and `reportJobProgress` make on the run they have read.
def checkReported (hostId : HostId) (run : JobRun) : Except Exception Unit :=
  if run.hostId ≠ hostId then .error (.badRequest "Job run does not belong to this host")
  else if run.status ≠ .running then
    .error (.badRequest ("Job run is not running (status: " ++ statusText run.status ++ ")"))
  else .ok ()

-- What a report writes to its run. The result of a catalog job is read as a catalog.
def reportData (deps : External) (job : Job) (runStatus : RunStatus) (dto : ReportResultDto)
    (now : Time) : RunData where
  status     := some runStatus
  finishedAt := some now
  result     := some {
    durationMs := dto.durationMs, errorMessage := dto.errorMessage, output := dto.output
    data :=
      if runStatus = .success ∧ job.type = "ITEM_CATALOG" then
        some (deps.catalogFromAgentResult dto.result)
      else dto.result }

def reportJobResult (deps : External) (hostId : HostId) (jobRunId : RunId) (dto : ReportResultDto) :
    Service Unit := do
  match ← send (.findRun jobRunId) with
  | none            => .throw (.notFound "Job run not found")
  | some (run, job) => do
    Prog.ofExcept (checkReported hostId run)
    let runStatus := if dto.status = "success" then .success else .failed
    let now ← send .now
    send (.updateRun jobRunId (reportData deps job runStatus dto now))
    followUp job runStatus dto
    if job.batchId.isSome then recordJobRunCompleted job.orgId run.jobId runStatus .running
    else return

def markJobRunStarted (hostId : HostId) (jobRunId : RunId) : Service Unit := do
  match ← send (.findRun jobRunId) with
  | none            => return
  | some (run, job) =>
    if run.hostId ≠ hostId then return
    else if run.status ≠ .pending then return
    else do
      let now ← send .now
      send (.updateRun jobRunId { status := some .running, startedAt := some now })
      if job.batchId.isSome then recordJobRunStarted job.orgId run.jobId else return

def reportJobProgress (hostId : HostId) (jobRunId : RunId) (phase : String)
    (message : Option String) : Service Unit := do
  match ← send (.findRun jobRunId) with
  | none          => .throw (.notFound "Job run not found")
  | some (run, _) => do
    Prog.ofExcept (checkReported hostId run)
    let now ← send .now
    send (.updateRun jobRunId {
      result := some { phase, message := message.filter (· ≠ ""), updatedAt := now } })

-- The time of the last sign of life of a running job.
def heartbeat (run : JobRun) : Time :=
  match run.result.bind RunResult.updatedAt with
  | some t => if t ≠ 0 then t else run.startedAt.getD 0
  | none   => run.startedAt.getD 0

-- The loop of `failStaleRunningJobs`. The cutoff lies three minutes back, which may be before the
-- epoch.
def failStale (cutoff : Int) : List (RunId × JobRun) → Service Unit
  | [] => return
  | (runId, run) :: runs =>
    if (heartbeat run : Int) ≥ cutoff then failStale cutoff runs
    else do
      let now ← send .now
      send (.updateRunIfRunning runId {
        status := some .failed, finishedAt := some now
        result := some { run.result.getD {} with
          errorMessage :=
            "Agent stopped reporting progress; job released as stale. Retry if still needed."
          recoveredAt := now } })
      failStale cutoff runs

def failStaleRunningJobs : Service Unit := do
  let now ← send .now
  let runs ← send .findRunning
  failStale (now - 3 * 60000) runs

end Jobs
