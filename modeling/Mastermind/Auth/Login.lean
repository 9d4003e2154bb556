import Mastermind.Auth.RateLimit

open Effects Js Jobs

namespace Auth

-- What the login takes from elsewhere: `toLowerCase`, the check of the signed math challenge, the
-- answer of the reCAPTCHA service to a secret, a token and an address (which may be an exception), the
-- check of a password against a hash and the hash that stands in for a missing one.
structure External where
  toLowerCase         : String → String
  verifyMathChallenge : String → String → Bool
  verifyRecaptcha     : String → Option String → String → Except Exception Bool
  verifyPassword      : String → String → Bool
  DUMMY_PASSWORD_HASH : String

structure Credentials where
  email              : String
  password           : String
  ip                 : String
  mathChallengeToken : String
  mathAnswer         : String
  recaptchaToken     : Option String := none

-- What an access token says. It carries a signature of the control plane.
structure AccessToken where
  userId      : UserId
  orgId       : OrgId
  authVersion : Nat

def failLogin {α : Type} (lower : String → String) (email ip message : String) : Service α := do
  match ← recordLoginFailure lower email ip with
  | some lockout => throwActiveLockout lockout
  | none         => .throw (.unauthorized message)

-- The organisation whose reCAPTCHA applies: the user's, or else any.
def findSecurityOrg (user : Option (UserId × User)) : Service (Option Org) :=
  match user.bind (·.2.firstOrgId) with
  | some id => do
    match ← send (.findOrg id) with
    | some org => return some org
    | none     => send .findFirstOrg
  | none => send .findFirstOrg

def checkRecaptcha (deps : External) (email ip : String) (token : Option String)
    (securityOrg : Option Org) : Service Unit :=
  match (securityOrg.bind (·.recaptchaSecretEncrypted)).filter (· ≠ "") with
  | none        => return
  | some secret => do
    let validCaptcha ← Prog.ofExcept (deps.verifyRecaptcha secret token ip)
    if validCaptcha then return
    else failLogin deps.toLowerCase email ip "Complete the reCAPTCHA challenge and try again"

def awaitsVerification (user : User) : Service Bool :=
  match user.emailVerifiedAt, user.firstOrgId with
  | none, some orgId => send (.mailConfigured orgId)
  | _, _             => return false

-- The checks after the password has been found to be right.
def admission (userId : UserId) (user : User) : Service AccessToken := do
  let unverified ← awaitsVerification user
  if unverified then .throw (.unauthorized "Email verification required")
  else if user.approvedAt = none then
    .throw (.forbidden "Account is awaiting administrator approval")
  else match user.firstOrgId with
    | none       => .throw (.unauthorized "Invalid email or password")
    | some orgId => return { userId, orgId, authVersion := user.authVersion }

def login (deps : External) (c : Credentials) : Service AccessToken := do
  let email := normalizedEmail deps.toLowerCase c.email
  assertLoginAllowed deps.toLowerCase email c.ip
  if !deps.verifyMathChallenge c.mathChallengeToken c.mathAnswer then
    failLogin deps.toLowerCase email c.ip "Solve the new math challenge and try again"
  else do
    let user ← send (.findUser email)
    let securityOrg ← findSecurityOrg user
    checkRecaptcha deps email c.ip c.recaptchaToken securityOrg
    let passwordHash := (user.bind (·.2.passwordHash)).getD ""
    let valid := deps.verifyPassword c.password
      (if passwordHash = "" then deps.DUMMY_PASSWORD_HASH else passwordHash)
    match user with
    | none                => failLogin deps.toLowerCase email c.ip "Invalid email or password"
    | some (userId, user) =>
      if passwordHash = "" ∨ valid = false then
        failLogin deps.toLowerCase email c.ip "Invalid email or password"
      else do
        let access_token ← admission userId user
        recordLoginSuccess deps.toLowerCase email
        Prog.handle
          (send (.audit {
            orgId := access_token.orgId, actorId := userId, action := "login", resourceId := userId
            ip := slice c.ip 128 }))
          fun _ => return
        return access_token

-- What happens besides the steps of logins: time passes and old rows are deleted.
inductive World
  | elapse  (ms : Nat)
  | cleanup (cutoff : Time)

def World.apply : World → Store → Store
  | elapse ms      => Store.elapse ms
  | cleanup cutoff => Store.cleanup cutoff

abbrev Logins :=
  Pool controlPlane Credentials AccessToken

-- The logins that are served at the same time.
@[reducible]
def interleaved (deps : External) : System :=
  Pool.system (login deps) World.apply

end Auth
