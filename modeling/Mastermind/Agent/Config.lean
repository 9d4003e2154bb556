import Mastermind.Agent.Payload

open Js

namespace Agent

-- The additional settings are looked up by their key. A missing map is an empty one.
structure InstanceConfig where
  serverInstanceId : String := ""
  installPath      : String := ""
  startCommand     : String := ""
  stopCommand      : String := ""
  rconHost         : String := ""
  rconPort         : ℤ      := 0
  rconPassword     : String := ""
  extra            : String → Option Json := fun _ => none

-- The map that a job's payload is decoded to. Everything but an object gives the nil map.
def decodePayload : Json → Option Fields
  | .obj fields => some fields
  | _           => none

-- `v, _ := x.(map[string]interface{})`
def objectOf : Option Json → Fields
  | some (.obj fields) => fields
  | _                  => []

-- The host that is given by the present and by the legacy key.
def hostOf (present legacy : Option Json) : String :=
  if stringOf present ≠ "" then stringOf present
  else if stringOf legacy ≠ "" then stringOf legacy
  else "127.0.0.1"

def portOf (present legacy : Option Json) : ℤ :=
  match present, legacy with
  | some (.num (.fin q)), _ => toInt q
  | _, some (.num (.fin q)) => toInt q
  | _, _                    => 0

def passwordOf (present legacy : Option Json) : String :=
  if stringOf present ≠ "" then stringOf present else stringOf legacy

-- Later maps overwrite earlier ones.
def extraOf (updateCommand config extra : Option Json) (key : String) : Option Json :=
  ((objectOf extra).lookup key).or <| ((objectOf config).lookup key).or <|
    if key = "update_command" ∧ stringOf updateCommand ≠ "" then updateCommand else none

def payloadToConfig : Option Fields → InstanceConfig
  | none   => {}
  | some p => {
    serverInstanceId := stringOf (p.lookup "server_instance_id")
    installPath      := stringOf (p.lookup "install_path")
    startCommand     := stringOf (p.lookup "start_command")
    stopCommand      := stringOf (p.lookup "stop_command")
    rconHost         := hostOf (p.lookup "rcon_host") (p.lookup "telnet_host")
    rconPort         := portOf (p.lookup "rcon_port") (p.lookup "telnet_port")
    rconPassword     := passwordOf (p.lookup "rcon_password") (p.lookup "telnet_password")
    extra            :=
      extraOf (p.lookup "update_command") (p.lookup "config") (p.lookup "extra") }

-- The adapter of a game type. Game types without one get an adapter that does nothing.
inductive Adapter
  | registered (name : String)
  | noop       (name : String)
  deriving DecidableEq

-- The names of the registered adapters.
abbrev Registry :=
  List String

def Registry.getOrNoop (r : Registry) (gameType : String) : Adapter :=
  if r.contains gameType then .registered gameType else .noop gameType

-- `strings.ToLower` maps the characters by `unicode.ToLower`, which is the parameter `lower`.
def toLower (lower : Char → Char) (s : String) : String :=
  .ofList (s.toList.map lower)

-- The adapter that `RegistryExecutor.Execute` hands a job to.
def selectAdapter (lower : Char → Char) (registry : Option Registry) (payload : Option Fields) :
    Except String Adapter :=
  match registry with
  | none   => .error "adapter registry not configured"
  | some r =>
    let gameType := toLower lower (trimSpace (stringOf ((payload.getD []).lookup "game_type")))
    if gameType = "" then .error "job payload missing game_type"
    else .ok (r.getOrNoop gameType)

def isUpload (type : String) : Bool :=
  type = "MOD_UPLOAD_QUARANTINE" || type = "MOD_UPLOAD_PENDING"

-- `runOne` downloads the archive of an upload job and adds its path to the payload.
def withArchive (type archive : String) (payload : Option Fields) : Option Fields :=
  if isUpload type then some (Json.setField "archive_path" (.str archive) (payload.getD []))
  else payload

-- Where an uploaded mod comes from.
inductive Source
  | file   (path : String)
  | inline (base64 : String)
  deriving DecidableEq

-- The choice of the source in `UploadMod`. Whether a file is unpacked or copied depends on its name.
def uploadSource (payload : Fields) : Except String Source :=
  let sourcePath := trimSpace (getString payload "source_path" (getString payload "archive_path" ""))
  let b64 := trimSpace (getString payload "base64" (getString payload "contentBase64" ""))
  if sourcePath ≠ "" then .ok (.file sourcePath)
  else if b64 ≠ "" then .ok (.inline b64)
  else .error "source_path, archive_path, or base64 required"

-- What a job works on: an instance and, for an upload, the source of the mod.
@[ext]
structure Target where
  config : InstanceConfig
  source : Option (Except String Source)

def target (type archive : String) (payload : Option Fields) : Target where
  config := payloadToConfig (withArchive type archive payload)
  source :=
    if isUpload type then some (uploadSource ((withArchive type archive payload).getD [])) else none

end Agent
