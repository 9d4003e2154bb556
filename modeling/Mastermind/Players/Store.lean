import Mastermind.Effects.Prog
import Mastermind.Effects.Table
import Mastermind.Jobs.Service
import Mastermind.Triggers.Catalog

open Effects Js Jobs Donations

namespace Players

abbrev PlayerId  := Nat
abbrev TriggerId := Nat
abbrev FireId    := Nat

-- What a player is known by: `uuid:…`, `steam:…` or, as long as nothing better is known, `name:…`
-- with the name in lower case.
inductive IdentityKey
  | name  (name : String)
  | uuid  (uuid : String)
  | steam (id : String)
  deriving DecidableEq

namespace IdentityKey

def text : IdentityKey → String
  | name n  => "name:" ++ n
  | uuid u  => "uuid:" ++ u
  | steam i => "steam:" ++ i

-- `identityKey.startsWith('name:')`
def isName : IdentityKey → Bool
  | name _ => true
  | _      => false

def uuid? : IdentityKey → Option String
  | uuid u => some u
  | _      => none

end IdentityKey

-- What the comparison of names rests on: `toLowerCase` of the language, and whether the database finds
-- a name when it looks for another one with `mode: 'insensitive'`.
class Naming where
  toLowerCase : String → String
  insensitive : String → String → Bool

-- The key of a name.
def fallbackKey [Naming] (name : String) : IdentityKey :=
  .name (Naming.toLowerCase name)

-- `ILIKE`. In the text that is looked for, `_` stands for any character.
def iLike : List Char → List Char → Bool
  | [], []             => true
  | _ :: cs, '_' :: ps => iLike cs ps
  | c :: cs, p :: ps   => c.toLower = p.toLower && iLike cs ps
  | _, _               => false

-- The comparison of names that consist of letters of the English alphabet, digits and underscores.
@[reducible]
def Naming.ascii : Naming where
  toLowerCase           := Jobs.toLowerCase
  insensitive name text := iLike name.toList text.toList

structure ServerInstance where
  orgId : OrgId
  name  : String

structure Position where
  x : Number
  y : Number
  z : Number
  deriving DecidableEq

structure Player where
  orgId                   : OrgId
  serverInstanceId        : ServerId
  identityKey             : IdentityKey
  steamId                 : Option String   := none
  ipAddress               : Option String   := none
  name                    : String
  online                  : Bool            := false
  currentSessionStartedAt : Option Time     := none
  lifetimeSeconds         : Int             := 0
  lastPos                 : Option Position := none
  lastLogoutAt            : Option Time     := none
  supporter               : Bool            := false
  totalDonatedCents       : Int             := 0
  portalPasswordHash      : Option String   := none
  firstSeenAt             : Time
  lastSeenAt              : Time

structure PlayerSession where
  playerId        : PlayerId
  startedAt       : Time
  endedAt         : Option Time := none
  durationSeconds : Option Nat  := none

structure Donation where
  playerId      : PlayerId
  amountCents   : Int
  refundedCents : Int := 0

structure Trigger where
  orgId            : OrgId
  serverInstanceId : ServerId
  enabled          : Bool
  eventType        : String
  eventConfig      : Json
  actionType       : String
  actionConfig     : Json
  createdById      : Option UserId
  lastFiredAt      : Option Time := none
  fireCount        : Int         := 0

inductive FireStatus
  | queued
  | pending
  | delivered
  | failed
  deriving DecidableEq

structure TriggerFire where
  triggerId : TriggerId
  playerId  : PlayerId
  eventKey  : String
  jobId     : Option JobId  := none
  status    : FireStatus
  attempts  : Nat           := 0
  lastError : Option String := none
  createdAt : Time

-- The payload of a job that gives items to a player.
structure GrantPayload where
  triggerId     : TriggerId
  triggerFireId : Option FireId
  playerId      : PlayerId
  steamId       : Option String
  identityKey   : IdentityKey
  uuid          : Option String
  name          : String
  player        : String
  items         : List GrantItemSpec
  notifyPlayer  : Bool
  message       : String

structure Job where
  orgId            : OrgId
  createdById      : Option UserId
  serverInstanceId : ServerId
  type             : String
  payload          : GrantPayload
  reported         : Bool := false

-- A row that may have been deleted.
structure Row (ρ : Type) where
  data : ρ
  live : Bool := true

-- The messages to other services.
inductive Notice
  | connected    (orgId : OrgId) (serverInstanceId : ServerId) (serverInstanceName playerName : String)
      (minecraftUuid : Option String)
  | disconnected (orgId : OrgId) (serverInstanceId : ServerId) (serverInstanceName playerName : String)
      (minecraftUuid : Option String) (sessionSeconds : Nat)
  | enqueuePendingShopGrants (orgId : OrgId) (serverInstanceId : ServerId)

structure Store where
  clock       : Time                      := 0
  servers     : Table ServerInstance      := []
  players     : Table (Row Player)        := []
  sessions    : Table (Row PlayerSession) := []
  donations   : Table (Row Donation)      := []
  triggers    : Table Trigger             := []
  fires       : Table (Row TriggerFire)   := []
  jobs        : Table Job                 := []
  lineBuffers : List (ServerId × String)  := []
  notices     : List Notice               := []

-- The data of an update. Fields that are not set keep their value, the lifetime is incremented.
structure PlayerData where
  identityKey             : Option IdentityKey     := none
  steamId                 : Option (Option String) := none
  ipAddress               : Option String          := none
  name                    : Option String          := none
  online                  : Option Bool            := none
  currentSessionStartedAt : Option (Option Time)   := none
  lifetimeSeconds         : Int                    := 0
  lastPos                 : Option Position        := none
  lastLogoutAt            : Option Time            := none
  firstSeenAt             : Option Time            := none
  lastSeenAt              : Option Time            := none

def PlayerData.apply (d : PlayerData) (p : Player) : Player :=
  { p with
    identityKey             := d.identityKey.getD p.identityKey
    steamId                 := d.steamId.getD p.steamId
    ipAddress               := d.ipAddress.or p.ipAddress
    name                    := d.name.getD p.name
    online                  := d.online.getD p.online
    currentSessionStartedAt := d.currentSessionStartedAt.getD p.currentSessionStartedAt
    lifetimeSeconds         := p.lifetimeSeconds + d.lifetimeSeconds
    lastPos                 := d.lastPos.or p.lastPos
    lastLogoutAt            := d.lastLogoutAt.or p.lastLogoutAt
    firstSeenAt             := d.firstSeenAt.getD p.firstSeenAt
    lastSeenAt              := d.lastSeenAt.getD p.lastSeenAt }

structure FireData where
  jobId     : Option JobId           := none
  status    : FireStatus
  attempts  : Nat                    := 0
  lastError : Option (Option String) := none

def FireData.apply (d : FireData) (f : TriggerFire) : TriggerFire :=
  { f with
    jobId     := d.jobId.or f.jobId
    status    := d.status
    attempts  := f.attempts + d.attempts
    lastError := d.lastError.getD f.lastError }

namespace Row

def modify {ρ : Type} (f : ρ → ρ) (r : Row ρ) : Row ρ :=
  { r with data := f r.data }

def kill {ρ : Type} (r : Row ρ) : Row ρ :=
  { r with live := false }

end Row

-- A row that has not been deleted.
def live? {ρ : Type} (t : Table (Row ρ)) (k : Nat) : Option ρ :=
  match t[k]? with
  | some r => if r.live then some r.data else none
  | none   => none

-- The rows that have not been deleted, with their keys.
def liveEntries {ρ : Type} (t : Table (Row ρ)) : List (Nat × ρ) :=
  t.entries.filterMap fun (k, r) => if r.live then some (k, r.data) else none

namespace Store

def player? (s : Store) (id : PlayerId) : Option Player :=
  live? s.players id

def fire? (s : Store) (id : FireId) : Option TriggerFire :=
  live? s.fires id

-- `where: { serverInstanceId_identityKey: { … } }`
def keyed? (s : Store) (serverInstanceId : ServerId) (key : IdentityKey) : Option (PlayerId × Player) :=
  (liveEntries s.players).find? fun (_, p) =>
    p.serverInstanceId = serverInstanceId && p.identityKey = key

-- `where: { triggerId_playerId_eventKey: { … } }`
def fired? (s : Store) (triggerId : TriggerId) (playerId : PlayerId) (eventKey : String) :
    Option (FireId × TriggerFire) :=
  (liveEntries s.fires).find? fun (_, f) =>
    f.triggerId = triggerId && f.playerId = playerId && f.eventKey = eventKey

-- The player last seen among those with a UUID that the database finds under a name.
def namedUuid? [Naming] (s : Store) (serverInstanceId : ServerId) (name : String) :
    Option (PlayerId × Player) :=
  let found := (liveEntries s.players).filter fun (_, p) =>
    p.serverInstanceId = serverInstanceId && Naming.insensitive p.name name &&
      p.identityKey.uuid?.isSome
  found.foldl (fun best e => match best with
    | some b => if b.2.lastSeenAt < e.2.lastSeenAt then some e else some b
    | none   => some e) none

end Store

inductive Exception
  | invalid (message : String)
  | storage

def PlayerSession.moveTo (target : PlayerId) (session : PlayerSession) : PlayerSession :=
  { session with playerId := target }

def PlayerSession.finish (endedAt : Time) (durationSeconds : Nat) (session : PlayerSession) :
    PlayerSession :=
  { session with endedAt, durationSeconds }

-- The writes that a transaction can consist of.
inductive Write
  | moveSessions (source target : PlayerId)
  | endSessions  (playerId : PlayerId) (endedAt : Time) (durationSeconds : Nat)
  | updatePlayer (id : PlayerId) (data : PlayerData)
  | deletePlayer (id : PlayerId)

-- What belongs to a deleted player, is deleted with it.
def Write.exec : Write → Store → Option Store
  | moveSessions source target, s =>
    some { s with
      sessions := s.sessions.map fun r =>
        if r.live ∧ r.data.playerId = source then r.modify (.moveTo target) else r }
  | endSessions playerId endedAt durationSeconds, s =>
    some { s with
      sessions := s.sessions.map fun r =>
        if r.live ∧ r.data.playerId = playerId ∧ r.data.endedAt = none then
          r.modify (.finish endedAt durationSeconds)
        else r }
  | updatePlayer id data, s =>
    (s.player? id).map fun _ => { s with players := s.players.modify id (Row.modify data.apply) }
  | deletePlayer id, s =>
    (s.player? id).map fun _ => { s with
      players   := s.players.modify id Row.kill
      sessions  := s.sessions.map fun r => if r.data.playerId = id then r.kill else r
      donations := s.donations.map fun r => if r.data.playerId = id then r.kill else r
      fires     := s.fires.map fun r => if r.data.playerId = id then r.kill else r }

inductive Cmd
  | now
  | findServerName (id : ServerId)
  | findPlayer     (serverInstanceId : ServerId) (key : IdentityKey)
  | findNamedUuid  (serverInstanceId : ServerId) (name : String)
  | findOnline     (serverInstanceId : ServerId) (notIn : List IdentityKey)
  | upsertPlayer   (serverInstanceId : ServerId) (key : IdentityKey) (create : Player)
      (update : PlayerData)
  | transaction    (writes : List Write)
  | createSession  (row : PlayerSession)
  | findTriggers   (orgId : OrgId) (serverInstanceId : ServerId) (eventType : String)
  | touchTrigger   (id : TriggerId) (now : Time)
  | findFire       (triggerId : TriggerId) (playerId : PlayerId) (eventKey : String)
  | findFireById   (id : FireId)
  | createFire     (triggerId : TriggerId) (playerId : PlayerId) (eventKey : String)
      (status : FireStatus)
  | updateFire     (id : FireId) (data : FireData)
  | resetStale     (orgId : OrgId) (serverInstanceId : ServerId) (staleBefore : Int)
  | findPending    (orgId : OrgId) (serverInstanceId : ServerId)
  | findPendingOf  (playerId : PlayerId)
  | enqueueInternalJob (orgId : OrgId) (userId : Option UserId) (serverInstanceId : ServerId)
      (type : String) (payload : GrantPayload)
  | lineBuffer     (serverInstanceId : ServerId)
  | setLineBuffer  (serverInstanceId : ServerId) (text : String)
  | notify         (notice : Notice)

-- A fire with its trigger and its player.
abbrev FireRow :=
  FireId × TriggerFire × Trigger × PlayerId × Player

@[reducible]
def Cmd.Ans : Cmd → Type
  | now                   => Time
  | findServerName _      => Option String
  | findPlayer ..         => Option (PlayerId × Player)
  | findNamedUuid ..      => Option (PlayerId × Player)
  | findOnline ..         => List (PlayerId × Player)
  | upsertPlayer ..       => PlayerId × Player
  | findTriggers ..       => List (TriggerId × Trigger)
  | findFire ..           => Option (FireId × TriggerFire)
  | findFireById _        => Option TriggerFire
  | createFire ..         => FireId
  | findPending ..        => List FireRow
  | findPendingOf _       => List FireRow
  | enqueueInternalJob .. => JobId
  | lineBuffer _          => String
  | _                     => Unit

def MAX_GRANT_ATTEMPTS : Nat := 8

-- The fires that wait for another attempt, with the trigger and the player they belong to.
def Store.pendingFires (s : Store) (select : Trigger → PlayerId → Player → Bool) : List FireRow :=
  (liveEntries s.fires).filterMap fun (id, f) => do
    let trigger ← s.triggers[f.triggerId]?
    let player ← s.player? f.playerId
    if f.status = .pending ∧ f.attempts < MAX_GRANT_ATTEMPTS ∧ trigger.enabled ∧
        trigger.actionType = Triggers.TRIGGER_ACTION_GRANT_ITEMS ∧ select trigger f.playerId player then
      some (id, f, trigger, f.playerId, player)
    else none

-- A fire that has been queued for so long that it is queued again.
def Store.isStale (s : Store) (orgId : OrgId) (serverInstanceId : ServerId) (staleBefore : Int)
    (r : Row TriggerFire) : Bool :=
  r.live && r.data.status = .queued && r.data.attempts < MAX_GRANT_ATTEMPTS &&
  r.data.createdAt < staleBefore &&
  (s.triggers[r.data.triggerId]?).any fun t =>
    t.orgId = orgId && t.serverInstanceId = serverInstanceId && t.enabled &&
    t.actionType = Triggers.TRIGGER_ACTION_GRANT_ITEMS

def staleFire : FireData where
  status    := .pending
  lastError := some "Stale queued grant; will retry"

variable [Naming]

def exec : (c : Cmd) → Store → Except Exception c.Ans × Store
  | .now, s => (.ok s.clock, s)
  | .findServerName id, s => (.ok (s.servers[id]?.map (·.name)), s)
  | .findPlayer serverInstanceId key, s => (.ok (s.keyed? serverInstanceId key), s)
  | .findNamedUuid serverInstanceId name, s => (.ok (s.namedUuid? serverInstanceId name), s)
  | .findOnline serverInstanceId notIn, s =>
    (.ok ((liveEntries s.players).filter fun (_, p) =>
      p.serverInstanceId = serverInstanceId && p.online && !notIn.contains p.identityKey), s)
  | .upsertPlayer serverInstanceId key create update, s =>
    match s.keyed? serverInstanceId key with
    | some (id, p) =>
      (.ok (id, update.apply p), { s with players := s.players.modify id (Row.modify update.apply) })
    | none => (.ok (s.players.length, create), { s with players := s.players ++ [⟨create, true⟩] })
  | .transaction writes, s =>
    match writes.foldlM (fun s w => w.exec s) s with
    | some s' => (.ok (), s')
    | none    => (.error .storage, s)
  | .createSession row, s => (.ok (), { s with sessions := s.sessions ++ [⟨row, true⟩] })
  | .findTriggers orgId serverInstanceId eventType, s =>
    (.ok (s.triggers.entries.filter fun (_, t) =>
      t.orgId = orgId && t.serverInstanceId = serverInstanceId && t.enabled &&
      t.eventType = eventType), s)
  | .touchTrigger id now, s =>
    if s.triggers[id]?.isSome then
      (.ok (), { s with triggers := s.triggers.modify id fun t =>
        { t with lastFiredAt := some now, fireCount := t.fireCount + 1 } })
    else (.error .storage, s)
  | .findFire triggerId playerId eventKey, s => (.ok (s.fired? triggerId playerId eventKey), s)
  | .findFireById id, s => (.ok (s.fire? id), s)
  | .createFire triggerId playerId eventKey status, s =>
    if (s.fired? triggerId playerId eventKey).isSome then (.error .storage, s)
    else
      let fire : TriggerFire := { triggerId, playerId, eventKey, status, createdAt := s.clock }
      (.ok s.fires.length, { s with fires := s.fires ++ [⟨fire, true⟩] })
  | .updateFire id data, s =>
    match s.fire? id with
    | some _ => (.ok (), { s with fires := s.fires.modify id (Row.modify data.apply) })
    | none   => (.error .storage, s)
  | .resetStale orgId serverInstanceId staleBefore, s =>
    (.ok (), { s with
      fires := s.fires.map fun r =>
        if s.isStale orgId serverInstanceId staleBefore r then r.modify staleFire.apply else r })
  | .findPending orgId serverInstanceId, s =>
    (.ok ((s.pendingFires fun t _ p =>
      t.orgId = orgId && t.serverInstanceId = serverInstanceId && p.online).take 32), s)
  | .findPendingOf playerId, s => (.ok ((s.pendingFires fun _ id _ => id = playerId).take 16), s)
  | .enqueueInternalJob orgId createdById serverInstanceId type payload, s =>
    if s.servers[serverInstanceId]?.any (·.orgId = orgId) then
      (.ok s.jobs.length, { s with jobs := s.jobs ++ [{
        orgId, createdById, serverInstanceId, type, payload }] })
    else (.error .storage, s)
  | .lineBuffer serverInstanceId, s => (.ok ((s.lineBuffers.lookup serverInstanceId).getD ""), s)
  | .setLineBuffer serverInstanceId text, s =>
    (.ok (), { s with lineBuffers := (serverInstanceId, text) :: s.lineBuffers.filter fun (id, _) =>
      id ≠ serverInstanceId })
  | .notify notice, s => (.ok (), { s with notices := s.notices ++ [notice] })

-- The database of the control plane with the buffers of the log reader.
@[reducible]
def roster : Backend Exception where
  State := Store
  Cmd   := Cmd
  Ans   := Cmd.Ans
  exec  := exec
  fault := .storage
  local? c := c matches .now | .lineBuffer _ | .setLineBuffer ..

abbrev Service (α : Type) :=
  Prog roster α

abbrev send (c : Cmd) : Service c.Ans :=
  Prog.perform (B := roster) c

-- The update of the canonical row when the fallback row is merged into it.
def mergeData (canonical fallback : Player) (steamId : Option String) : PlayerData :=
  let online := canonical.online || fallback.online
  let sessionStarts :=
    [canonical.currentSessionStartedAt, fallback.currentSessionStartedAt].filterMap id
  { steamId                 := some (steamId.or canonical.steamId)
    lifetimeSeconds         := fallback.lifetimeSeconds
    firstSeenAt             := some <|
      if fallback.firstSeenAt < canonical.firstSeenAt then fallback.firstSeenAt
      else canonical.firstSeenAt
    lastSeenAt              := some <|
      if fallback.lastSeenAt > canonical.lastSeenAt then fallback.lastSeenAt
      else canonical.lastSeenAt
    online                  := some online
    currentSessionStartedAt := some (if online then sessionStarts.min? else none) }

-- The transaction that merges the fallback row into the canonical one.
def mergeWrites (canonicalId : PlayerId) (canonical : Player) (fallbackId : PlayerId)
    (fallback : Player) (steamId : Option String) : List Write :=
  [.moveSessions fallbackId canonicalId
  , .updatePlayer canonicalId (mergeData canonical fallback steamId)
  , .deletePlayer fallbackId]

def reconcileNameFallback (serverInstanceId : ServerId) (identityKey : IdentityKey) (name : String)
    (steamId : Option String) : Service Unit := do
  if identityKey.isName then return
  else
    match ← send (.findPlayer serverInstanceId (fallbackKey name)) with
    | none => return
    | some (fallbackId, fallback) => do
      match ← send (.findPlayer serverInstanceId identityKey) with
      | none =>
        send (.transaction [.updatePlayer fallbackId { identityKey, steamId := some steamId }])
      | some (canonicalId, canonical) =>
        send (.transaction (mergeWrites canonicalId canonical fallbackId fallback steamId))

end Players
