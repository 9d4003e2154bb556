import Mastermind.Effects.Pool
import Mastermind.Jobs.Store

open Effects Jobs

namespace Orgs

structure User where
  email        : String
  passwordHash : Option String
  approvedAt   : Option Time
  approvedById : Option UserId
  authVersion  : Nat := 1

-- A membership with the role's name. Role names are unique.
structure UserOrg where
  userId : UserId
  orgId  : OrgId
  role   : String
  deriving DecidableEq

def UserOrg.key (m : UserOrg) : UserId × OrgId :=
  (m.userId, m.orgId)

-- `@@id([userId, orgId])`
structure UserOrgs where
  rows   : List UserOrg
  unique : (rows.map UserOrg.key).Nodup

namespace UserOrgs

def find? (t : UserOrgs) (userId : UserId) (orgId : OrgId) : Option UserOrg :=
  t.rows.find? (·.key = (userId, orgId))

def delete (t : UserOrgs) (userId : UserId) (orgId : OrgId) : UserOrgs where
  rows   := t.rows.filter (·.key ≠ (userId, orgId))
  unique := t.unique.sublist (List.filter_sublist.map _)

end UserOrgs

-- A role that a user has on one server. The organisation is the server's.
structure UserServerRole where
  userId           : UserId
  serverInstanceId : ServerId
  orgId            : OrgId

structure Store where
  roles           : List String         := []
  users           : Table User          := []
  userOrgs        : UserOrgs            := ⟨[], .nil⟩
  userServerRoles : List UserServerRole := []

-- `include: { role: true, user: { select: { email: true, _count: { select: { userOrgs: true } } } } }`
structure Membership where
  role      : String
  email     : String
  orgsCount : Nat

namespace Store

def membership? (s : Store) (userId : UserId) (orgId : OrgId) : Option Membership := do
  let m ← s.userOrgs.find? userId orgId
  let user ← s.users[userId]?
  return { role := m.role, email := user.email
           orgsCount := s.userOrgs.rows.countP (·.userId = userId) }

def adminCount (s : Store) (orgId : OrgId) : Nat :=
  s.userOrgs.rows.countP fun m => m.orgId = orgId && m.role = "admin"

end Store

def User.disable (user : User) : User :=
  { user with
    passwordHash := none
    approvedAt   := none
    approvedById := none
    authVersion  := user.authVersion + 1 }

inductive Exception
  | forbidden (message : String)
  | notFound  (message : String)
  | conflict  (message : String)
  | storage

-- The transaction that deletes a membership depends on what was read of the membership.
inductive Cmd
  | findMembership   (userId : UserId) (orgId : OrgId)
  | findRole         (name : String)
  | countAdmins      (orgId : OrgId)
  | deleteMembership (userId : UserId) (orgId : OrgId) (membership : Membership)

@[reducible]
def Cmd.Ans : Cmd → Type
  | findMembership ..   => Option Membership
  | findRole _          => Bool
  | countAdmins _       => Nat
  | deleteMembership .. => Unit

def exec : (c : Cmd) → Store → Except Exception c.Ans × Store
  | .findMembership userId orgId, s => (.ok (s.membership? userId orgId), s)
  | .findRole name, s => (.ok (s.roles.contains name), s)
  | .countAdmins orgId, s => (.ok (s.adminCount orgId), s)
  | .deleteMembership userId orgId membership, s =>
    if (s.userOrgs.find? userId orgId).isSome then
      (.ok (), { s with
        userServerRoles := s.userServerRoles.filter fun r => !(r.userId = userId && r.orgId = orgId)
        userOrgs        := s.userOrgs.delete userId orgId
        users           := if membership.orgsCount = 1 then s.users.modify userId .disable else s.users })
    else (.error .storage, s)

@[reducible]
def controlPlane : Backend Exception where
  State := Store
  Cmd   := Cmd
  Ans   := Cmd.Ans
  exec  := exec
  fault := .storage
  local? _ := false

abbrev Service (α : Type) :=
  Prog controlPlane α

abbrev send (c : Cmd) : Service c.Ans :=
  Prog.perform (B := controlPlane) c

-- What a deleted account is told of: its email, and whether its sign-in is disabled.
def removeMember (orgId : OrgId) (accountId : UserId) (membership : Membership) :
    Service (String × Bool) := do
  send (.deleteMembership accountId orgId membership)
  return (membership.email, membership.orgsCount = 1)

def countAdmins (orgId : OrgId) (adminRole : Bool) : Service Nat :=
  if adminRole then send (.countAdmins orgId) else return 0

def deleteAccount (orgId : OrgId) (accountId actingUserId : UserId) : Service (String × Bool) :=
  if accountId = actingUserId then .throw (.forbidden "You cannot delete your own account")
  else do
    match ← send (.findMembership accountId orgId) with
    | none            => .throw (.notFound "Organization account not found")
    | some membership =>
      if membership.role = "admin" then do
        let adminRole ← send (.findRole "admin")
        let adminCount ← countAdmins orgId adminRole
        if adminCount ≤ 1 then
          .throw (.conflict "The organization must keep at least one administrator")
        else removeMember orgId accountId membership
      else removeMember orgId accountId membership

structure Request where
  orgId        : OrgId
  accountId    : UserId
  actingUserId : UserId

def Request.serve (q : Request) : Service (String × Bool) :=
  deleteAccount q.orgId q.accountId q.actingUserId

-- The requests that are served at the same time. Nothing else happens to the accounts.
@[reducible]
def interleaved : System :=
  Pool.system Request.serve fun (_ : Empty) s => s

end Orgs
