import Mastermind.Agent.Config
import Mastermind.Jobs.Theorems.Enqueued

open Js Jobs

namespace Agent

variable {id : ServerId} {i : ServerInstance} {k : String}

-- The fields of a server's row that may be missing.
def optionalFields (i : ServerInstance) : List (String × Option Json) :=
  [("install_path", i.installPath.map .str), ("start_command", i.startCommand.map .str),
    ("rcon_host", i.rconHost.map .str), ("rcon_port", i.rconPort.map fun (p : Int) => .num (.fin p)),
    ("rcon_password", i.rconPassword.map .str), ("config", i.config)]

-- The field that a job gets from the row of its server.
def rowField (id : ServerId) (i : ServerInstance) (key : String) : Option Json :=
  if key = "server_instance_id" then some (.str (toString id))
  else if key = "game_type" then some (.str i.gameType)
  else ((optionalFields i).lookup key).join

theorem lookup_serverPayload : (serverPayload id i).lookup k = rowField id i k := by
  have hn : ((optionalFields i).map Prod.fst).Nodup := by simp [optionalFields]
  have hp : (serverPayload id i).lookup k = (("server_instance_id", .str (toString id)) ::
    ("game_type", .str i.gameType) :: Json.present (optionalFields i)).lookup k := rfl
  rw [hp, Json.lookup_cons, Json.lookup_cons, Json.lookup_present hn, rowField]

-- The fields of a queue entry of `createJob`.
theorem fields_of_isEntry {type : String} {payload : Option Payload} {e : QueueJobData}
    (h : IsEntry id i type payload e) : ∃ fields, (decodePayload e.payload = some fields) ∧
      ∀ k ∉ ownFields, fields.lookup k = ((payload.getD []).lookup k).or (rowField id i k) := by
  have ⟨_, payload', hd, hp⟩ := h
  refine ⟨Json.spread (serverPayload id i) (payload'.getD []), by rw [hp]; rfl, fun k hk => ?_⟩
  rw [Json.lookup_spread hd.nodup, hd.lookup k hk, lookup_serverPayload]

-- The configuration of a job whose payload lies over the row of its server.
def mergedConfig (p : Fields) (id : ServerId) (i : ServerInstance) : InstanceConfig where
  serverInstanceId := stringOf ((p.lookup "server_instance_id").or (some (.str (toString id))))
  installPath      := stringOf ((p.lookup "install_path").or (i.installPath.map .str))
  startCommand     := stringOf ((p.lookup "start_command").or (i.startCommand.map .str))
  stopCommand      := stringOf (p.lookup "stop_command")
  rconHost         :=
    hostOf ((p.lookup "rcon_host").or (i.rconHost.map .str)) (p.lookup "telnet_host")
  rconPort         :=
    portOf ((p.lookup "rcon_port").or (i.rconPort.map fun (n : Int) => .num (.fin n)))
      (p.lookup "telnet_port")
  rconPassword     :=
    passwordOf ((p.lookup "rcon_password").or (i.rconPassword.map .str)) (p.lookup "telnet_password")
  extra            :=
    extraOf (p.lookup "update_command") ((p.lookup "config").or i.config) (p.lookup "extra")

-- The keys that a configuration is read from.
def configKeys : List String :=
  ["server_instance_id", "install_path", "start_command", "stop_command", "rcon_host", "telnet_host",
    "rcon_port", "telnet_port", "rcon_password", "telnet_password", "update_command", "config", "extra"]

theorem not_mem_ownFields : ∀ k ∈ configKeys, k ∉ ownFields := by
  decide

theorem payloadToConfig_merged {p f : Fields}
    (hf : ∀ k ∈ configKeys, f.lookup k = (p.lookup k).or (rowField id i k)) :
    payloadToConfig (some f) = mergedConfig p id i := by
  simp only [configKeys, List.forall_mem_cons] at hf
  simp [payloadToConfig, mergedConfig, hf, rowField, optionalFields, Json.lookup_cons]

-- A server that is installed in some directory, and a viewer and an admin of its organisation.
def sampleServer : ServerInstance where
  orgId           := 0
  hostId          := 0
  gameType        := "minecraft"
  installPath     := "/srv/world"
  startCommand    := none
  rconHost        := none
  rconPort        := none
  rconPassword    := none
  config          := none
  maintenanceMode := false
  rebootIfDown    := false

def sampleStore : Store where
  userOrgs        := [
    { userId := 0, orgId := 0, role := "viewer", name := none, email := "" },
    { userId := 1, orgId := 0, role := "admin", name := none, email := "" }]
  serverInstances := [sampleServer]

def sampleDeps : External where
  decryptIntegrationSecret := some
  catalogFromAgentResult _ := .arr []
  computeNextRun _ _       := none

end Agent
