import Mastermind.Effects.Pool
import Mastermind.Jobs.Service

open Effects Js Jobs

namespace Auth

-- A key is the keyed hash of a label and a value. Different labels and values have different keys.
structure Key where
  label : String
  value : String
  deriving DecidableEq

structure Bucket where
  limit    : Nat
  windowMs : Nat
  blockMs  : Nat
  key      : Key

structure AuthRateLimit where
  failures        : Nat
  windowStartedAt : Time
  blockedUntil    : Option Time
  lockoutLevel    : Nat
  updatedAt       : Time

structure AccountLockoutState where
  failures     : Nat
  lockoutLevel : Nat
  blockedUntil : Option Time

section

-- `toLowerCase`
variable (lower : String → String)

def normalizedEmail (email : String) : String :=
  lower (trim email)

def accountKey (email : String) : Key where
  label := "login-account-escalating"
  value := normalizedEmail lower email

end

def ipBucket (ip : String) : Bucket where
  key      := { label := "login-ip", value := slice (trim (if ip = "" then "unknown" else ip)) 128 }
  limit    := 20
  windowMs := 15 * 60000
  blockMs  := 30 * 60000

-- The length of a lockout, by the lockouts that have preceded it.
def lockoutMs (lockoutLevel : Nat) : Nat :=
  match lockoutLevel with
  | 0 => 5 * 60000
  | 1 => 30 * 60000
  | 2 => 3 * 60 * 60000
  | _ => 24 * 60 * 60000

-- The upsert of `recordLoginFailure`.
def recordFailure (now : Time) : Option AuthRateLimit → AuthRateLimit
  | none   =>
    { failures := 1, windowStartedAt := now, blockedUntil := none, lockoutLevel := 0, updatedAt := now }
  | some r =>
    { failures        := if r.failures + 1 ≥ 3 then 0 else r.failures + 1
      windowStartedAt := now
      blockedUntil    := if r.failures + 1 ≥ 3 then some (now + lockoutMs r.lockoutLevel) else none
      lockoutLevel    := if r.failures + 1 ≥ 3 then min (r.lockoutLevel + 1) 4 else r.lockoutLevel
      updatedAt       := now }

-- The upsert of `incrementWindowBucket`.
def incrementWindow (bucket : Bucket) (now : Time) : Option AuthRateLimit → AuthRateLimit
  | none   =>
    { failures := 1, windowStartedAt := now, blockedUntil := none, lockoutLevel := 0, updatedAt := now }
  | some r =>
    let expired := r.windowStartedAt < now - bucket.windowMs
    { failures        := if expired then 1 else r.failures + 1
      windowStartedAt := if expired then now else r.windowStartedAt
      blockedUntil    :=
        if expired then none
        else if r.failures + 1 ≥ bucket.limit then some (now + bucket.blockMs)
        else r.blockedUntil
      lockoutLevel    := r.lockoutLevel
      updatedAt       := now }

structure User where
  email           : String
  passwordHash    : Option String
  emailVerifiedAt : Option Time
  approvedAt      : Option Time
  authVersion     : Nat
  firstOrgId      : Option OrgId

structure Org where
  recaptchaSecretEncrypted : Option String
  mailConfigured           : Bool

structure AuditLog where
  orgId      : OrgId
  actorId    : UserId
  action     : String
  resourceId : UserId
  ip         : String

-- `limits` is the table `auth_rate_limits`.
structure Store where
  clock     : Time                       := 0
  users     : Table User                 := []
  orgs      : Table Org                  := []
  limits    : Key → Option AuthRateLimit := fun _ => none
  auditLogs : List AuditLog              := []

namespace Store

def setLimit (s : Store) (key : Key) (row : Option AuthRateLimit) : Store :=
  { s with limits := Function.update s.limits key row }

-- The latest end of the blocks of some keys that last longer than `now`.
def blocked? (s : Store) (keys : List Key) (now : Time) : Option Time :=
  ((keys.filterMap fun key => (s.limits key).bind (·.blockedUntil)).filter (now < ·)).max?

def elapse (ms : Nat) (s : Store) : Store :=
  { s with clock := s.clock + ms }

end Store

inductive Exception
  | tooManyRequests (message : String) (retryAfter : Nat) (blockedUntil : Time)
  | unauthorized    (message : String)
  | forbidden       (message : String)
  | unavailable     (message : String)
  | storage

inductive Cmd
  | now
  | findBlocked     (keys : List Key) (now : Time)
  | incrementWindow (bucket : Bucket) (now : Time)
  | recordFailure   (key : Key) (now : Time)
  | deleteLimit     (key : Key)
  | findUser        (email : String)
  | findFirstOrg
  | findOrg         (id : OrgId)
  | mailConfigured  (id : OrgId)
  | audit           (row : AuditLog)

@[reducible]
def Cmd.Ans : Cmd → Type
  | now              => Time
  | findBlocked ..   => Option Time
  | recordFailure .. => AccountLockoutState
  | findUser _       => Option (UserId × User)
  | findFirstOrg     => Option Org
  | findOrg _        => Option Org
  | mailConfigured _ => Bool
  | _                => Unit

def exec : (c : Cmd) → Store → Except Exception c.Ans × Store
  | .now, s => (.ok s.clock, s)
  | .findBlocked keys now, s => (.ok (s.blocked? keys now), s)
  | .incrementWindow bucket now, s =>
    (.ok (), s.setLimit bucket.key (some (incrementWindow bucket now (s.limits bucket.key))))
  | .recordFailure key now, s =>
    let row := recordFailure now (s.limits key)
    (.ok { failures := row.failures, lockoutLevel := row.lockoutLevel
           blockedUntil := row.blockedUntil }, s.setLimit key (some row))
  | .deleteLimit key, s => (.ok (), s.setLimit key none)
  | .findUser email, s => (.ok (s.users.entries.find? (·.2.email = email)), s)
  | .findFirstOrg, s => (.ok s.orgs.head?, s)
  | .findOrg id, s => (.ok s.orgs[id]?, s)
  | .mailConfigured id, s => (.ok (s.orgs[id]?.any (·.mailConfigured)), s)
  | .audit row, s => (.ok (), { s with auditLogs := s.auditLogs ++ [row] })

@[reducible]
def controlPlane : Backend Exception where
  State := Store
  Cmd   := Cmd
  Ans   := Cmd.Ans
  exec  := exec
  fault := .storage
  local? c := c matches .now

abbrev Service (α : Type) :=
  Prog controlPlane α

abbrev send (c : Cmd) : Service c.Ans :=
  Prog.perform (B := controlPlane) c

def throwLockout {α : Type} (until' now : Time) : Service α :=
  .throw (.tooManyRequests "Account temporarily locked after repeated failed sign-in attempts."
    (max 1 ((until' - now + 999) / 1000)) until')

-- `toLowerCase`
variable (lower : String → String)

def assertLoginAllowed (email ip : String) : Service Unit := do
  let now ← send .now
  match ← send (.findBlocked [accountKey lower email, (ipBucket ip).key] now) with
  | some blockedUntil => throwLockout blockedUntil now
  | none              => return

def incrementWindowBucket (bucket : Bucket) : Service Unit := do
  let now ← send .now
  send (.incrementWindow bucket now)

-- The cleanup that follows now and then is not waited for.
def recordLoginFailure (email ip : String) : Service (Option AccountLockoutState) := do
  incrementWindowBucket (ipBucket ip)
  let now ← send .now
  let state ← send (.recordFailure (accountKey lower email) now)
  return if state.blockedUntil.any (now < ·) then some state else none

def recordLoginSuccess (email : String) : Service Unit :=
  send (.deleteLimit (accountKey lower email))

def throwActiveLockout {α : Type} (state : AccountLockoutState) : Service α := do
  let now ← send .now
  throwLockout (state.blockedUntil.getD (now + 60000)) now

-- Old rows without a lockout are deleted now and then.
def Store.cleanup (cutoff : Time) (s : Store) : Store :=
  { s with limits := fun key =>
      (s.limits key).filter fun r => !(r.lockoutLevel = 0 && r.updatedAt < cutoff) }

end Auth
