import Mastermind.Players.Logs

open Effects Js Jobs Triggers

namespace Players

variable [Naming]

structure PlayerRosterRow where
  name        : String
  identityKey : IdentityKey
  steamId     : Option String   := none
  ipAddress   : Option String   := none
  position    : Option Position := none
  deriving DecidableEq

-- A row of a Minecraft roster, which has a name and maybe a UUID.
def minecraftRow (name : String) (uuid : Option String) : PlayerRosterRow where
  name        := name
  identityKey := (uuid.map .uuid).getD (fallbackKey name)

section

-- `String(n)` for a finite number
variable (showNumber : Number → String)

-- The first of the values that has a text.
def text : List (Option Json) → String
  | []                             => ""
  | some (.str s) :: values        => if trim s = "" then text values else trim s
  | some (.num (.fin q)) :: _      => showNumber (.fin q)
  | _ :: values                    => text values

-- `/^[0-9a-f-]{32,36}$/i`
def isRosterUuid (uuid : String) : Bool :=
  32 ≤ uuid.toList.length && uuid.toList.length ≤ 36 && uuid.toList.all isUuidChar

def rosterRow : Json → Option PlayerRosterRow
  | .obj row =>
    let name := text showNumber
      [row.lookup "name", row.lookup "player", row.lookup "username", row.lookup "displayName"]
    if name = "" ∨ (units name).length > 16 then none
    else
      let uuid := text showNumber [row.lookup "uuid", row.lookup "id", row.lookup "playerUuid"]
      some (minecraftRow name (if isRosterUuid uuid then some (toLowerCase uuid) else none))
  | _ => none

def parseMinecraftRoster (result : Option Json) : Option (List PlayerRosterRow) :=
  let list :=
    match result.bind (Json.get? "players"), result with
    | some (.arr l), _ => some l
    | _, some (.arr l) => some l
    | _, _             => none
  list.map fun l => (l.filterMap (rosterRow showNumber)).take 256

end

section

variable (orgId : OrgId) (serverInstanceId : ServerId) (serverInstanceName : String) (now : Time)

-- The player as the database has it once the row has been applied.
def upsertRow (row : PlayerRosterRow) (existing : Option Player) : Service (PlayerId × Player) :=
  send (.upsertPlayer serverInstanceId row.identityKey
    { orgId, serverInstanceId
      identityKey             := row.identityKey
      steamId                 := row.steamId
      ipAddress               := row.ipAddress
      name                    := row.name
      online                  := true
      currentSessionStartedAt := some now
      lastPos                 := row.position
      firstSeenAt             := now
      lastSeenAt              := now }
    { steamId                 := some (row.steamId.or (existing.bind (·.steamId)))
      ipAddress               := row.ipAddress.filter (· ≠ "")
      name                    := some row.name
      online                  := some true
      lastSeenAt              := some now
      lastPos                 := row.position
      currentSessionStartedAt := if existing.any (·.online) then none else some (some now) })

-- The lifetime with the part of the running session that has passed.
def projectedLifetime (player : Player) : Int :=
  player.lifetimeSeconds +
    if player.online then (secondsBetween player.currentSessionStartedAt now : Int) else 0

def applyRow (row : PlayerRosterRow) : Service Unit := do
  reconcileNameFallback serverInstanceId row.identityKey row.name row.steamId
  let found ← send (.findPlayer serverInstanceId row.identityKey)
  let existing := found.map Prod.snd
  let (id, player) ← upsertRow orgId serverInstanceId now row existing
  openSession existing id now
  welcome orgId serverInstanceId existing (.ofRow id player)
  connect orgId serverInstanceId serverInstanceName existing id player.name row.identityKey.uuid?
  let projected := projectedLifetime now player
  ignoreErrors (evaluatePlaytime orgId serverInstanceId
    { TriggerPlayer.ofRow id player with lifetimeSeconds := projected }
    ((existing.map (·.lifetimeSeconds)).getD 0) projected)

-- A player that is not on the roster any more has left when it was seen last.
def applyMissing : PlayerId × Player → Service Unit
  | (id, player) => do
    let endedAt := if player.lastSeenAt < now then player.lastSeenAt else now
    let duration := secondsBetween player.currentSessionStartedAt endedAt
    let lifetime := player.lifetimeSeconds + duration
    endSession id {} endedAt duration
    ignoreErrors (evaluatePlaytime orgId serverInstanceId (.ofLeft id player lifetime)
      player.lifetimeSeconds lifetime)
    ignoreErrors (send (.notify (.disconnected orgId serverInstanceId serverInstanceName player.name
      player.identityKey.uuid? duration)))

end

def applyPlayerRoster (orgId : OrgId) (serverInstanceId : ServerId) (rows : List PlayerRosterRow) :
    Service Unit := do
  let now ← send .now
  let server ← send (.findServerName serverInstanceId)
  let serverName := server.getD "Minecraft Server"
  .forEach (applyRow orgId serverInstanceId serverName now) rows
  let missing ← send (.findOnline serverInstanceId (rows.map (·.identityKey)))
  .forEach (applyMissing orgId serverInstanceId serverName now) missing
  ignoreErrors (send (.notify (.enqueuePendingShopGrants orgId serverInstanceId)))
  ignoreErrors (retryPendingItemGrants orgId serverInstanceId)

end Players
