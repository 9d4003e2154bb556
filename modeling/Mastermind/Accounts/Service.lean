import Mastermind.Auth.Login
import Mastermind.Effects.Embedding
import Mastermind.Effects.Pool
import Mastermind.Orgs.Service

open Effects Js Jobs Orgs

namespace Accounts

-- `registeredFrom` is no column of the database: it tells the network that an account has been
-- registered from.
structure User where
  email           : String
  name            : Option String := none
  passwordHash    : Option String := none
  emailVerifiedAt : Option Time   := none
  emailVerificationSentAt : Option Time := none
  approvedAt      : Option Time   := none
  approvedById    : Option UserId := none
  authVersion     : Nat           := 1
  registeredFrom  : Option Auth.Key := none
  deriving DecidableEq

structure Org where
  name           : String
  slug           : String
  recaptchaSecretEncrypted : Option String := none
  mailConfigured : Bool := false

structure AuditLog where
  orgId       : OrgId
  actorId     : UserId
  action      : String
  resourceId  : UserId
  targetEmail : String

-- `quotas` is the table `registration_ip_quotas`, `limits` is `auth_rate_limits`. The entries of the
-- audit log that logins write are kept apart from the others.
structure Store where
  clock           : Time                := 0
  roles           : List String         := []
  users           : Table User          := []
  orgs            : Table Org           := []
  userOrgs        : UserOrgs            := ⟨[], .nil⟩
  userServerRoles : List UserServerRole := []
  quotas          : Auth.Key → Nat      := fun _ => 0
  limits          : Auth.Key → Option Auth.AuthRateLimit := fun _ => none
  logins          : List Auth.AuditLog  := []
  auditLogs       : List AuditLog       := []

-- What a login reads of the accounts.
def User.view (user : User) (firstOrgId : Option OrgId) : Auth.User where
  email           := user.email
  passwordHash    := user.passwordHash
  emailVerifiedAt := user.emailVerifiedAt
  approvedAt      := user.approvedAt
  authVersion     := user.authVersion
  firstOrgId      := firstOrgId

def Org.view (org : Org) : Auth.Org where
  recaptchaSecretEncrypted := org.recaptchaSecretEncrypted
  mailConfigured           := org.mailConfigured

namespace Store

-- `userOrgs: { take: 1 }`
def firstOrg? (s : Store) (id : UserId) : Option OrgId :=
  (s.userOrgs.rows.find? (·.userId = id)).map (·.orgId)

def view (s : Store) : Auth.Store where
  clock     := s.clock
  users     := s.users.mapIdx fun id user => user.view (s.firstOrg? id)
  orgs      := s.orgs.map Org.view
  limits    := s.limits
  auditLogs := s.logins

-- What a login changes.
def put (s : Store) (a : Auth.Store) : Store :=
  { s with limits := a.limits, logins := a.auditLogs }

def role? (s : Store) (userId : UserId) (orgId : OrgId) : Option String :=
  (s.userOrgs.find? userId orgId).map (·.role)

def findByEmail? (s : Store) (email : String) : Option (UserId × User) :=
  s.users.entries.find? (·.2.email = email)

def adminCount (s : Store) (orgId : OrgId) : Nat :=
  s.userOrgs.rows.countP fun m => m.orgId = orgId && m.role = "admin"

end Store

-- `include: { role: true, user: .. }`
structure Account where
  role      : String
  user      : User
  orgsCount : Nat

def Store.account? (s : Store) (userId : UserId) (orgId : OrgId) : Option Account := do
  let role ← s.role? userId orgId
  let user ← s.users[userId]?
  return { role, user, orgsCount := s.userOrgs.rows.countP (·.userId = userId) }

-- A new membership. The key must not be taken.
def addMember? (t : UserOrgs) (m : Orgs.UserOrg) : Option UserOrgs :=
  if h : m.key ∈ t.rows.map Orgs.UserOrg.key then none
  else some {
    rows   := t.rows ++ [m]
    unique := by
      rw [List.map_append]
      exact t.unique.append (List.nodup_singleton _) fun _ hm hk => h (List.mem_singleton.mp hk ▸ hm) }

-- A user is created together with its first membership.
def Store.createUser? (s : Store) (row : User) (orgId : OrgId) (role : String) : Option Store :=
  if (s.findByEmail? row.email).isSome || s.orgs[orgId]?.isNone then none
  else (addMember? s.userOrgs { userId := s.users.length, orgId, role }).map fun userOrgs =>
    { s with users := s.users ++ [row], userOrgs }

-- An organisation is created together with the membership of its founder, if it has one.
def Store.createOrg? (s : Store) (row : Org) (founder : Option UserId) : Option Store :=
  if s.orgs.any (·.slug = row.slug) then none
  else
    match founder with
    | none        => some { s with orgs := s.orgs ++ [row] }
    | some userId =>
      if s.users[userId]?.isNone then none
      else (addMember? s.userOrgs { userId, orgId := s.orgs.length, role := "admin" }).map
        fun userOrgs => { s with orgs := s.orgs ++ [row], userOrgs }

def User.setPassword (passwordHash : String) (user : User) : User :=
  { user with passwordHash := some passwordHash, authVersion := user.authVersion + 1 }

def User.setApproval (approvedAt : Option Time) (approvedById : Option UserId) (user : User) : User :=
  { user with approvedAt, approvedById, authVersion := user.authVersion + 1 }

def User.disable (user : User) : User :=
  { user with
    passwordHash := none
    approvedAt   := none
    approvedById := none
    authVersion  := user.authVersion + 1 }

inductive Exception
  | tooManyRequests (message : String) (retryAfter : Nat) (blockedUntil : Time)
  | unauthorized    (message : String)
  | forbidden       (message : String)
  | conflict        (message : String)
  | notFound        (message : String)
  | unavailable     (message : String)
  | storage

def Exception.ofAuth : Auth.Exception → Exception
  | .tooManyRequests message retryAfter blockedUntil => .tooManyRequests message retryAfter blockedUntil
  | .unauthorized message => .unauthorized message
  | .forbidden message    => .forbidden message
  | .unavailable message  => .unavailable message
  | .storage              => .storage

def Exception.toAuth : Exception → Auth.Exception
  | .tooManyRequests message retryAfter blockedUntil => .tooManyRequests message retryAfter blockedUntil
  | .unauthorized message => .unauthorized message
  | .forbidden message    => .forbidden message
  | .unavailable message  => .unavailable message
  | _                     => .storage

-- The roles that an administrator can give to a new account.
inductive AccountRole
  | operator
  | viewer
  deriving DecidableEq

def AccountRole.name : AccountRole → String
  | operator => "operator"
  | viewer   => "viewer"

-- A transaction is one command. `createOrg` is for the organisations of users and for the default
-- one, which has no founder.
inductive Cmd
  | auth              (c : Auth.Cmd)
  | findUser          (id : UserId)
  | findByEmail       (email : String)
  | findMember        (userId : UserId) (orgId : OrgId)
  | findAccount       (userId : UserId) (orgId : OrgId)
  | countAdmins       (orgId : OrgId)
  | findRole          (name : String)
  | createRole        (name : String)
  | findFirstOrg
  | findSlug          (slug : String)
  | createOrg         (row : Org) (founder : Option UserId)
  | register          (ipHash : Auth.Key) (row : User) (orgId : OrgId) (role : String)
  | createUser        (row : User) (orgId : OrgId) (role : String)
  | setPassword       (id : UserId) (passwordHash : String)
  | resetPassword     (id : UserId) (passwordHash : String) (audit : AuditLog)
  | setApproval       (id : UserId) (approvedAt : Option Time) (approvedById : Option UserId)
                      (audit : AuditLog)
  | deleteMembership  (userId : UserId) (orgId : OrgId) (account : Account)
  | verifyEmail       (id : UserId) (emailVerifiedAt : Time)
  | verificationSent  (id : UserId) (emailVerificationSentAt : Time)
  | sendVerification  (orgId : OrgId) (email : String) (id : UserId)

@[reducible]
def Cmd.Ans : Cmd → Type
  | auth c         => c.Ans
  | findUser _     => Option User
  | findByEmail _  => Option (UserId × User × Option OrgId)
  | findMember ..  => Option String
  | findAccount .. => Option Account
  | countAdmins _  => Nat
  | findRole _     => Bool
  | findFirstOrg   => Option OrgId
  | findSlug _     => Bool
  | createOrg ..   => OrgId
  | register ..    => UserId
  | createUser ..  => UserId
  | _              => Unit

-- An update of a missing row, a second row with a unique key and the deletion of a missing row fail.
-- The count of registrations is only raised if the whole transaction goes through.
def exec : (c : Cmd) → Store → Except Exception c.Ans × Store
  | .auth c, s => ((Auth.exec c s.view).1.mapError .ofAuth, s.put (Auth.exec c s.view).2)
  | .findUser id, s => (.ok s.users[id]?, s)
  | .findByEmail email, s =>
    (.ok ((s.findByEmail? email).map fun (id, user) => (id, user, s.firstOrg? id)), s)
  | .findMember userId orgId, s => (.ok (s.role? userId orgId), s)
  | .findAccount userId orgId, s => (.ok (s.account? userId orgId), s)
  | .countAdmins orgId, s => (.ok (s.adminCount orgId), s)
  | .findRole name, s => (.ok (s.roles.contains name), s)
  | .createRole name, s =>
    if s.roles.contains name then (.error .storage, s)
    else (.ok (), { s with roles := s.roles ++ [name] })
  | .findFirstOrg, s => (.ok (if s.orgs.isEmpty then none else some 0), s)
  | .findSlug slug, s => (.ok (s.orgs.any (·.slug = slug)), s)
  | .createOrg row founder, s =>
    match s.createOrg? row founder with
    | some s' => (.ok s.orgs.length, s')
    | none    => (.error .storage, s)
  | .register ipHash row orgId role, s =>
    if s.quotas ipHash < 2 then
      match s.createUser? row orgId role with
      | some s' =>
        (.ok s.users.length, { s' with quotas := Function.update s.quotas ipHash (s.quotas ipHash + 1) })
      | none    => (.error .storage, s)
    else
      (.error (.forbidden <| "This network has reached the two-account registration limit. " ++
        "Ask an administrator to create the account manually."), s)
  | .createUser row orgId role, s =>
    match s.createUser? row orgId role with
    | some s' => (.ok s.users.length, s')
    | none    => (.error .storage, s)
  | .setPassword id passwordHash, s =>
    if s.users[id]?.isSome then
      (.ok (), { s with users := s.users.modify id (.setPassword passwordHash) })
    else (.error .storage, s)
  | .resetPassword id passwordHash audit, s =>
    if s.users[id]?.isSome then
      (.ok (), { s with
        users     := s.users.modify id (.setPassword passwordHash)
        auditLogs := s.auditLogs ++ [audit] })
    else (.error .storage, s)
  | .setApproval id approvedAt approvedById audit, s =>
    if s.users[id]?.isSome then
      (.ok (), { s with
        users     := s.users.modify id (.setApproval approvedAt approvedById)
        auditLogs := s.auditLogs ++ [audit] })
    else (.error .storage, s)
  | .deleteMembership userId orgId account, s =>
    if (s.userOrgs.find? userId orgId).isSome then
      (.ok (), { s with
        userServerRoles := s.userServerRoles.filter fun r => !(r.userId = userId && r.orgId = orgId)
        userOrgs        := s.userOrgs.delete userId orgId
        users           := if account.orgsCount = 1 then s.users.modify userId .disable else s.users })
    else (.error .storage, s)
  | .verifyEmail id emailVerifiedAt, s =>
    if s.users[id]?.isSome then
      (.ok (), { s with
        users := s.users.modify id fun user => { user with emailVerifiedAt := some emailVerifiedAt } })
    else (.error .storage, s)
  | .verificationSent id sentAt, s =>
    if s.users[id]?.isSome then
      (.ok (), { s with
        users := s.users.modify id fun user => { user with emailVerificationSentAt := some sentAt } })
    else (.error .storage, s)
  | .sendVerification orgId _ _, s =>
    if (s.orgs[orgId]?).any (·.mailConfigured) then (.ok (), s)
    else (.error (.notFound "Mailgun is not configured for this organization"), s)

@[reducible]
def controlPlane : Backend Exception where
  State := Store
  Cmd   := Cmd
  Ans   := Cmd.Ans
  exec  := exec
  fault := .storage
  local?
    | .auth c => Auth.controlPlane.local? c
    | _       => false

abbrev Service (α : Type) :=
  Prog controlPlane α

abbrev send (c : Cmd) : Service c.Ans :=
  Prog.perform (B := controlPlane) c

-- The commands of a login as commands on the accounts.
@[reducible]
def signIn : Translation Auth.controlPlane controlPlane where
  cmd    := .auth
  ans _  := id
  raise  := Exception.ofAuth
  caught := Exception.toAuth

-- What the accounts take from elsewhere besides what a login takes: the hash of a password with a
-- salt.
structure External extends Auth.External where
  makePasswordHash : (salt password : String) → String

def now : Service Time :=
  send (.auth .now)

def registrationIpHash (ip : String) : Auth.Key where
  label := "registration-ip-lifetime"
  value := slice (trim (if ip = "" then "unknown" else ip)) 128

def resolveRole (name : String) : Service Unit := do
  if ← send (.findRole name) then return
  else send (.createRole name)

-- `name?.trim() || null`
def trimmedName (name : Option String) : Option String :=
  (name.map trim).filter (· ≠ "")

section

-- The conditions of `JwtAuthGuard` on the account of a token.
def User.accepts (user : User) (authVersion : Nat) : Bool :=
  user.approvedAt.isSome && user.passwordHash.any (· ≠ "") && user.authVersion = authVersion

-- The token's signature has been verified.
def jwtAuthGuard (token : Auth.AccessToken) : Service UserId :=
  Prog.handle
    (do
      match ← send (.findUser token.userId) with
      | some user =>
        if user.accepts token.authVersion then return token.userId
        else .throw (.unauthorized "Account access revoked")
      | none => .throw (.unauthorized "Account access revoked"))
    fun _ => .throw (.unauthorized "Invalid or expired token")

def orgMemberGuard (userId : UserId) (orgId : OrgId) : Service String := do
  match ← send (.findMember userId orgId) with
  | some role => return role
  | none      => .throw (.forbidden "Not a member of this org")

def requireOrgRoleGuard (required : List String) (role : String) : Service Unit :=
  if required.contains role then return
  else .throw (.forbidden "Insufficient permissions (admin or operator required)")

-- A handler for the administrators of an organisation.
def asAdmin (token : Auth.AccessToken) (orgId : OrgId) (handler : UserId → Service Unit) :
    Service Unit := do
  let userId ← jwtAuthGuard token
  let role ← orgMemberGuard userId orgId
  requireOrgRoleGuard ["admin"] role
  handler userId

end

section

variable (deps : External)

def changePassword (userId : UserId) (currentPassword newPassword salt : String) : Service Unit := do
  let user ← send (.findUser userId)
  match (user.bind (·.passwordHash)).filter (· ≠ "") with
  | none              => .throw (.unauthorized "Current password is incorrect")
  | some passwordHash =>
    if deps.verifyPassword currentPassword passwordHash = false then
      .throw (.unauthorized "Current password is incorrect")
    else if currentPassword = newPassword then
      .throw (.conflict "New password must differ from current password")
    else send (.setPassword userId (deps.makePasswordHash salt newPassword))

-- The first organisation, or a new one.
def getOrCreateDefaultOrg : Service OrgId := do
  match ← send .findFirstOrg with
  | some orgId => return orgId
  | none       => send (.createOrg { name := "Default", slug := "default" } none)

def sendVerification (userId : UserId) (orgId : OrgId) (email : String) : Service Unit := do
  send (.sendVerification orgId email userId)
  let sentAt ← now
  send (.verificationSent userId sentAt)

structure Registration where
  email    : String
  password : String
  name     : Option String := none
  ip       : String        := "unknown"
  salt     : String

def register (r : Registration) : Service Unit := do
  let email := Auth.normalizedEmail deps.toLowerCase r.email
  if (← send (.findByEmail email)).isSome then return
  else do
    let targetOrgId ← getOrCreateDefaultOrg
    resolveRole "viewer"
    let verificationRequired ← send (.auth (.mailConfigured targetOrgId))
    let createdAt ← now
    let userId ← send (.register (registrationIpHash r.ip) {
      email, name := trimmedName r.name
      passwordHash    := some (deps.makePasswordHash r.salt r.password)
      emailVerifiedAt := if verificationRequired then none else some createdAt
      registeredFrom  := some (registrationIpHash r.ip) } targetOrgId "viewer")
    if verificationRequired then sendVerification userId targetOrgId email
    else return

-- The token of the verification link has been verified.
def verifyEmail (userId : UserId) (orgId : OrgId) : Service Unit := do
  match ← send (.findAccount userId orgId) with
  | none         => .throw (.unauthorized "Verification account no longer exists")
  | some account =>
    if account.user.emailVerifiedAt.isSome then
      .throw (.unauthorized "Verification link has already been used")
    else do
      let verifiedAt ← now
      send (.verifyEmail userId verifiedAt)

def resendVerification (email : String) : Service Unit := do
  match ← send (.findByEmail (Auth.normalizedEmail deps.toLowerCase email)) with
  | some (userId, user, some orgId) =>
    if user.emailVerifiedAt.isSome then return
    else do
      let time ← now
      if user.emailVerificationSentAt.any (time < · + 60000) then return
      else if ← send (.auth (.mailConfigured orgId)) then sendVerification userId orgId user.email
      else return
  | _ => return

structure AccountInput where
  email    : String
  password : String
  name     : Option String := none
  role     : AccountRole
  salt     : String

def createAccount (orgId : OrgId) (actingUserId : UserId) (input : AccountInput) : Service Unit := do
  let email := Auth.normalizedEmail deps.toLowerCase input.email
  if (← send (.findByEmail email)).isSome then
    .throw (.conflict "An account with this email already exists")
  else do
    resolveRole input.role.name
    let createdAt ← now
    let _ ← send (.createUser {
      email, name := trimmedName input.name
      passwordHash    := some (deps.makePasswordHash input.salt input.password)
      emailVerifiedAt := some createdAt
      approvedAt      := some createdAt
      approvedById    := some actingUserId } orgId input.role.name)
    return

def setAccountApproval (orgId : OrgId) (accountId actingUserId : UserId) (approved : Bool) :
    Service Unit :=
  if accountId = actingUserId then
    .throw (.forbidden "You cannot change your own approval status")
  else do
    let actor ← send (.findMember actingUserId orgId)
    let target ← send (.findAccount accountId orgId)
    if actor ≠ some "admin" then
      .throw (.forbidden "Only organization administrators may approve accounts")
    else match target with
    | none        => .throw (.notFound "Organization account not found")
    | some target =>
      if target.role = "admin" then
        .throw (.forbidden "Administrator approval cannot be changed here")
      else if approved ∧ target.user.emailVerifiedAt = none then
        .throw (.conflict "Email confirmation is required before approval")
      else if approved ∧ (target.user.passwordHash.all (· = "")) then
        .throw (.conflict "Sign-in is disabled for this account")
      else if target.user.approvedAt.isSome = approved then return
      else do
        let approvedAt ← now
        send (.setApproval accountId (if approved then some approvedAt else none)
          (if approved then some actingUserId else none) {
            orgId, actorId := actingUserId, resourceId := accountId, targetEmail := target.user.email
            action := if approved then "account_approved" else "account_access_revoked" })

def countAdmins (orgId : OrgId) (adminRole : Bool) : Service Nat :=
  if adminRole then send (.countAdmins orgId) else return 0

def deleteAccount (orgId : OrgId) (accountId actingUserId : UserId) : Service Unit :=
  if accountId = actingUserId then .throw (.forbidden "You cannot delete your own account")
  else do
    match ← send (.findAccount accountId orgId) with
    | none         => .throw (.notFound "Organization account not found")
    | some account =>
      if account.role = "admin" then do
        let adminRole ← send (.findRole "admin")
        let adminCount ← countAdmins orgId adminRole
        if adminCount ≤ 1 then
          .throw (.conflict "The organization must keep at least one administrator")
        else send (.deleteMembership accountId orgId account)
      else send (.deleteMembership accountId orgId account)

def resetAccountPassword (orgId : OrgId) (accountId actingUserId : UserId)
    (newPassword salt : String) : Service Unit :=
  if accountId = actingUserId then
    .throw (.forbidden "Use your personal password settings to change your own password")
  else do
    let actor ← send (.findMember actingUserId orgId)
    let target ← send (.findAccount accountId orgId)
    if actor ≠ some "admin" then
      .throw (.forbidden "Only organization administrators may reset passwords")
    else match target with
    | none        => .throw (.notFound "Organization account not found")
    | some target =>
      if target.role = "admin" then
        .throw (.forbidden "Administrators may reset passwords only for lower-tier accounts")
      else
        send (.resetPassword accountId (deps.makePasswordHash salt newPassword) {
          orgId, actorId := actingUserId, action := "password_reset", resourceId := accountId
          targetEmail := target.user.email })

def createOrg (name slug : String) (userId : UserId) : Service Unit := do
  if ← send (.findSlug slug) then
    .throw (.conflict ("An org with slug \"" ++ slug ++ "\" already exists"))
  else do
    resolveRole "admin"
    let _ ← send (.createOrg { name := trim name, slug := deps.toLowerCase (trim slug) } (some userId))
    return

-- What the control plane is asked to do with accounts. A request that needs a session comes with an
-- access token.
inductive Request
  | login                (c : Auth.Credentials)
  | register             (r : Registration)
  | verifyEmail          (userId : UserId) (orgId : OrgId)
  | resendVerification   (email : String)
  | changePassword       (token : Auth.AccessToken) (currentPassword newPassword salt : String)
  | createOrg            (token : Auth.AccessToken) (name slug : String)
  | createAccount        (token : Auth.AccessToken) (orgId : OrgId) (input : AccountInput)
  | setAccountApproval   (token : Auth.AccessToken) (orgId : OrgId) (accountId : UserId)
                         (approved : Bool)
  | deleteAccount        (token : Auth.AccessToken) (orgId : OrgId) (accountId : UserId)
  | resetAccountPassword (token : Auth.AccessToken) (orgId : OrgId) (accountId : UserId)
                         (newPassword salt : String)

-- A login answers with an access token.
def Request.serve : Request → Service (Option Auth.AccessToken)
  | login c => do
    let token ← (Auth.login deps.toExternal c).translate signIn
    return some token
  | register r => do
    Accounts.register deps r
    return none
  | verifyEmail userId orgId => do
    Accounts.verifyEmail userId orgId
    return none
  | resendVerification email => do
    Accounts.resendVerification deps email
    return none
  | changePassword token currentPassword newPassword salt => do
    let userId ← jwtAuthGuard token
    Accounts.changePassword deps userId currentPassword newPassword salt
    return none
  | createOrg token name slug => do
    let userId ← jwtAuthGuard token
    Accounts.createOrg deps name slug userId
    return none
  | createAccount token orgId input => do
    asAdmin token orgId fun userId => Accounts.createAccount deps orgId userId input
    return none
  | setAccountApproval token orgId accountId approved => do
    asAdmin token orgId fun userId => Accounts.setAccountApproval orgId accountId userId approved
    return none
  | deleteAccount token orgId accountId => do
    asAdmin token orgId fun userId => Accounts.deleteAccount orgId accountId userId
    return none
  | resetAccountPassword token orgId accountId newPassword salt => do
    asAdmin token orgId fun userId =>
      Accounts.resetAccountPassword deps orgId accountId userId newPassword salt
    return none

-- What happens besides the requests: time passes, old rows of the rate limits are deleted, and the
-- sign-in settings of an organisation change.
inductive World
  | elapse    (ms : Nat)
  | cleanup   (cutoff : Time)
  | configure (id : OrgId) (recaptchaSecretEncrypted : Option String) (mailConfigured : Bool)

def World.apply : World → Store → Store
  | elapse ms, s      => { s with clock := s.clock + ms }
  | cleanup cutoff, s => s.put (s.view.cleanup cutoff)
  | configure id recaptchaSecretEncrypted mailConfigured, s =>
    { s with orgs := s.orgs.modify id fun org => { org with recaptchaSecretEncrypted, mailConfigured } }

-- The requests that are served at the same time, interleaved at each access to the database.
@[reducible]
def interleaved : System :=
  Pool.system (Request.serve deps) World.apply

end

end Accounts
