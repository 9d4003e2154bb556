import Mastermind.Script.Object
import Mastermind.Effects.Table

open Effects Js

namespace Servers

structure Host where
  orgId : Nat
  name  : String

structure GameType where
  slug : String

structure ServerInstance where
  orgId         : Nat
  hostId        : Nat
  gameTypeId    : Nat
  name          : String
  installPath   : Option String
  startCommand  : Option String
  rconHost      : Option String
  rconPort      : Option ℤ
  rconPassword  : Option String
  mapEmbedUrl   : Option String
  config        : Option Json

structure Store where
  hosts           : Table Host           := []
  gameTypes       : Table GameType       := []
  serverInstances : Table ServerInstance := []

-- An object of which also the discovery entry has no key twice.
abbrev Config :=
  { c : Record // ∀ d, c.val.lookup "discovery" = some (.obj d) → (d.map Prod.fst).Nodup }

-- `DiscoverMinecraftServerDto`. The port and the password can be missing and can be `null`; where the
-- code does not tell these two apart, there is one option.
structure Report where
  name         : Option String          := none
  installPath  : Option String          := none
  startCommand : Option String          := none
  rconHost     : Option String          := none
  rconPort     : Option (Option ℤ)      := none
  rconPassword : Option (Option String) := none
  config       : Option Config          := none

-- `Boolean(v)`
def isTruthy : Option Json → Bool
  | none | some .null       => false
  | some (.bool b)          => b
  | some (.num n)           => n ≠ .fin 0 && n ≠ .nan
  | some (.str s)           => s ≠ ""
  | some (.arr _)           => true
  | some (.obj _)           => true

-- `!s`
def isUnset (s : Option String) : Bool :=
  s.all (· = "")

-- `s?.trim() || null`
def trimmed (s : Option String) : Option String :=
  (s.map trim).filter (· ≠ "")

-- `/^https?:\/\/(127\.0\.0\.1|localhost|\[::1\])(:|\/|$)/i`
def isLoopback (url : String) : Bool :=
  let cs := url.toList.map Char.toLower
  ["http://", "https://"].any fun scheme =>
    ["127.0.0.1", "localhost", "[::1]"].any fun host =>
      let start := (scheme ++ host).toList
      start.isPrefixOf cs && (cs[start.length]?).all fun c => c = ':' || c = '/'

def mapEmbedHint (config : Fields) : Option String :=
  match config.lookup "map_embed_hint" with
  | some (.str hint) => (trimmed (some hint)).filter fun url => !isLoopback url
  | _                => none

-- `toLowerCase` is a parameter of the model.
def normalizePath (lower : String → String) (path : Option String) : String :=
  let cs := (trim (path.getD "")).toList.map fun c => if c = '\\' then '/' else c
  lower (.ofList (cs.reverse.dropWhile (· = '/')).reverse)

def findMatchingDiscoveredInstance (lower : String → String) (rows : List (Nat × ServerInstance)) :
    Option String → Option (Nat × ServerInstance)
  | none      => none
  | some path => rows.find? fun (_, row) =>
    normalizePath lower row.installPath = normalizePath lower (some path)

-- The fields of a config, of which anything but an object has none.
def configFields (config : Option Json) : Fields :=
  (config.map Json.fields).getD []

def mergeConfig (existing : Option Json) (incoming : Option Config) : Fields :=
  let base := configFields existing
  match incoming with
  | none          => base
  | some incoming =>
    Json.setField "discovery"
      (.obj (Json.spread (configFields (base.lookup "discovery"))
        (configFields (incoming.val.val.lookup "discovery"))))
      (Json.spread base incoming.val.val)

def isDiscoveredManaged (config : Option Json) : Bool :=
  isTruthy ((configFields ((configFields config).lookup "discovery")).lookup "managedByAgent")

def Store.getGameTypeIdBySlug (s : Store) (lower : String → String) (slug : String) :
    Except String Nat :=
  match s.gameTypes.entries.find? fun (_, gt) => gt.slug = lower slug with
  | some (id, _) => .ok id
  | none         => .error ("Game type \"" ++ slug ++
    "\" is not registered. Seed game_types with slug \"" ++ slug ++ "\".")

def Store.getMinecraftGameTypeId (s : Store) (lower : String → String) : Except String Nat :=
  s.getGameTypeIdBySlug lower "minecraft"

-- The instances of a game on a host, the oldest first.
def Store.instancesOf (s : Store) (host : Host) (hostId gameTypeId : Nat) : List (Nat × ServerInstance) :=
  s.serverInstances.entries.filter fun (_, row) =>
    row.orgId = host.orgId && row.hostId = hostId && row.gameTypeId = gameTypeId

-- The instance that a report is about: the one at the path, or else the only one.
def existingInstance (lower : String → String) (existingList : List (Nat × ServerInstance))
    (installPath : Option String) : Option (Nat × ServerInstance) :=
  (findMatchingDiscoveredInstance lower existingList installPath).or
    (if existingList.length = 1 then existingList.head? else none)

-- The instance that is created for a report.
def Report.toInstance (dto : Report) (host : Host) (hostId gameTypeId : Nat) : ServerInstance :=
  let discoveryConfig := mergeConfig none dto.config
  { orgId := host.orgId, hostId, gameTypeId
    name         := (trimmed dto.name).getD (host.name ++ " Minecraft")
    installPath  := trimmed dto.installPath
    startCommand := trimmed dto.startCommand
    rconHost     := some ((trimmed dto.rconHost).getD "127.0.0.1")
    rconPort     := some ((dto.rconPort.join).getD 25575)
    rconPassword := dto.rconPassword.join
    mapEmbedUrl  := mapEmbedHint discoveryConfig
    config       := some (.obj discoveryConfig) }

-- `...(given && allowed && { field: given })`
def overwrite {α : Type} (allowed : Bool) (given : Option α) (current : α) : α :=
  if allowed then given.getD current else current

-- The update of an instance by a report.
def Report.update (dto : Report) (existing : ServerInstance) : ServerInstance :=
  let discoveryConfig := mergeConfig existing.config dto.config
  let discoveredManaged := isDiscoveredManaged existing.config
  { existing with
    installPath  := overwrite true ((trimmed dto.installPath).map some) existing.installPath
    startCommand := overwrite (discoveredManaged || isUnset existing.startCommand)
      ((trimmed dto.startCommand).map some) existing.startCommand
    rconHost     := overwrite (discoveredManaged || isUnset existing.rconHost)
      ((trimmed dto.rconHost).map some) existing.rconHost
    rconPort     := overwrite (discoveredManaged || existing.rconPort.isNone) dto.rconPort
      existing.rconPort
    rconPassword := overwrite (discoveredManaged || isUnset existing.rconPassword)
      (dto.rconPassword.map (Option.filter (· ≠ ""))) existing.rconPassword
    name         := overwrite discoveredManaged (trimmed dto.name) existing.name
    mapEmbedUrl  := overwrite (isUnset existing.mapEmbedUrl) ((mapEmbedHint discoveryConfig).map some)
      existing.mapEmbedUrl
    config       := some (.obj discoveryConfig) }

structure Upserted where
  created          : Bool
  serverInstanceId : Nat

def upsertDiscoveredMinecraftInstance (lower : String → String) (hostId : Nat) (dto : Report)
    (s : Store) : Except String Upserted × Store :=
  match s.hosts[hostId]? with
  | none      => (.error "Host not found", s)
  | some host =>
    match s.getMinecraftGameTypeId lower with
    | .error e       => (.error e, s)
    | .ok gameTypeId =>
      let existingList := s.instancesOf host hostId gameTypeId
      match existingInstance lower existingList (trimmed dto.installPath) with
      | none =>
        (.ok { created := true, serverInstanceId := s.serverInstances.length },
          { s with
            serverInstances := s.serverInstances ++ [dto.toInstance host hostId gameTypeId] })
      | some (id, _) =>
        (.ok { created := false, serverInstanceId := id },
          { s with serverInstances := s.serverInstances.modify id dto.update })

-- What an operator enters for a new instance, as far as discovery can change it.
structure CreateServerInstanceDto where
  name         : String
  hostId       : Nat
  gameType     : String
  installPath  : Option String := none
  startCommand : Option String := none
  rconHost     : Option String := none
  rconPort     : Option ℤ      := none
  rconPassword : Option String := none
  mapEmbedUrl  : Option String := none

def create (lower : String → String) (orgId : Nat) (dto : CreateServerInstanceDto) (s : Store) :
    Except String Nat × Store :=
  if (s.hosts[dto.hostId]?).any (·.orgId = orgId) then
    match s.getGameTypeIdBySlug lower dto.gameType with
    | .error e       => (.error e, s)
    | .ok gameTypeId =>
      (.ok s.serverInstances.length,
        { s with
          serverInstances := s.serverInstances ++ [{
            orgId, hostId := dto.hostId, gameTypeId
            name         := trim dto.name
            installPath  := trimmed dto.installPath
            startCommand := trimmed dto.startCommand
            rconHost     := trimmed dto.rconHost
            rconPort     := dto.rconPort
            rconPassword := dto.rconPassword
            mapEmbedUrl  := trimmed dto.mapEmbedUrl
            config       := none }] })
  else (.error "Host not found or does not belong to this org", s)

end Servers
