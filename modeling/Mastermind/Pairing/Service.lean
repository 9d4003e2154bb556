import Mastermind.Effects.Pool
import Mastermind.Jobs.Store
import Mastermind.Script.Date

open Effects Js Jobs

namespace Pairing

abbrev TokenId := Nat

def DEFAULT_EXPIRES_IN_SEC : Nat := 900

structure PairingToken where
  orgId        : OrgId
  tokenHash    : String
  expiresAt    : Time
  usedAt       : Option Time   := none
  usedByHostId : Option HostId := none
  createdById  : UserId

-- `pairedBy` is no column of the database: it tells which token a host has been created with.
structure Host where
  orgId           : OrgId
  name            : String
  agentKeyVersion : Nat
  pairedBy        : TokenId

-- What an agent key says. It carries a signature of the control plane.
structure AgentKey where
  sub        : HostId
  orgId      : OrgId
  keyVersion : Nat
  deriving DecidableEq

structure AuditLog where
  orgId          : OrgId
  action         : String
  resourceType   : String
  resourceId     : HostId
  pairingTokenId : TokenId
  hostName       : String
  clientIp       : Option String

-- The database, together with the agent keys that have been signed, each with the token that it was
-- signed for.
structure Store where
  clock         : Time                      := 0
  pairingTokens : Table PairingToken        := []
  hosts         : Table Host                := []
  auditLogs     : List AuditLog             := []
  keys          : List (TokenId × AgentKey) := []

def PairingToken.use (usedAt : Time) (usedByHostId : HostId) (t : PairingToken) : PairingToken :=
  { t with usedAt, usedByHostId }

namespace Store

-- `pairingToken.findFirst({ where: { tokenHash } })`
def findToken? (s : Store) (tokenHash : String) : Option (TokenId × PairingToken) :=
  s.pairingTokens.entries.find? (·.2.tokenHash = tokenHash)

-- A host can be entered in one token at most: `usedByHostId` is unique.
def canUse (s : Store) (id : TokenId) (hostId : HostId) : Bool :=
  s.pairingTokens[id]?.isSome &&
  s.pairingTokens.entries.all fun (id', t) => id' = id || t.usedByHostId ≠ some hostId

end Store

inductive Exception
  | unauthorized (message : String)
  | badRequest   (message : String)
  | storage

-- A token is marked as used with the time at which that happens.
inductive Cmd
  | now
  | createToken (row : PairingToken)
  | findToken   (tokenHash : String)
  | createHost  (row : Host)
  | useToken    (id : TokenId) (usedByHostId : HostId)
  | sign        (id : TokenId) (key : AgentKey)
  | audit       (row : AuditLog)

@[reducible]
def Cmd.Ans : Cmd → Type
  | now           => Time
  | createToken _ => TokenId
  | findToken _   => Option (TokenId × PairingToken)
  | createHost _  => HostId
  | _             => Unit

def exec : (c : Cmd) → Store → Except Exception c.Ans × Store
  | .now, s => (.ok s.clock, s)
  | .createToken row, s =>
    (.ok s.pairingTokens.length, { s with pairingTokens := s.pairingTokens ++ [row] })
  | .findToken tokenHash, s => (.ok (s.findToken? tokenHash), s)
  | .createHost row, s => (.ok s.hosts.length, { s with hosts := s.hosts ++ [row] })
  | .useToken id usedByHostId, s =>
    if s.canUse id usedByHostId then
      (.ok (), { s with
        pairingTokens := s.pairingTokens.modify id (PairingToken.use s.clock usedByHostId) })
    else (.error .storage, s)
  | .sign id key, s => (.ok (), { s with keys := s.keys ++ [(id, key)] })
  | .audit row, s => (.ok (), { s with auditLogs := s.auditLogs ++ [row] })

@[reducible]
def controlPlane : Backend Exception where
  State := Store
  Cmd   := Cmd
  Ans   := Cmd.Ans
  exec  := exec
  fault := .storage
  local? c := c matches .now | .sign ..

abbrev Service (α : Type) :=
  Prog controlPlane α

abbrev send (c : Cmd) : Service c.Ans :=
  Prog.perform (B := controlPlane) c

-- The functions of the service take the hash function (SHA-256) as a parameter.
section

variable (hashToken : String → String)

-- The plain token has been drawn from 32 random bytes.
def createToken (orgId : OrgId) (userId : UserId) (expiresInSec : Option Nat) (plainToken : String) :
    Service TokenId := do
  let expiresInSec := expiresInSec.getD DEFAULT_EXPIRES_IN_SEC
  let now ← send .now
  send (.createToken {
    orgId, tokenHash := hashToken plainToken, expiresAt := now + expiresInSec * 1000
    createdById := userId })

-- `hostMetadata?.name?.trim()`, or else a name with the time
def hostName (name : Option String) : Service String :=
  match (name.map trim).filter (· ≠ "") with
  | some name => return name
  | none      => do
    let now ← send .now
    return "Host " ++ slice (toISOString now) 19

def signAgentKey (id : TokenId) (key : AgentKey) : Service AgentKey := do
  send (.sign id key)
  return key

-- The part of `pair` after its checks.
def completePairing (id : TokenId) (tokenRecord : PairingToken) (name : String)
    (clientIp : Option String) : Service (HostId × AgentKey) := do
  let host : Host :=
    { orgId := tokenRecord.orgId, name, agentKeyVersion := 1, pairedBy := id }
  let hostId ← send (.createHost host)
  send (.useToken id hostId)
  let agentKey ← signAgentKey id {
    sub := hostId, orgId := tokenRecord.orgId, keyVersion := host.agentKeyVersion }
  send (.audit {
    orgId := tokenRecord.orgId, action := "agent_pair", resourceType := "host", resourceId := hostId
    pairingTokenId := id, hostName := name, clientIp })
  return (hostId, agentKey)

def pair (pairingToken : String) (name clientIp : Option String) : Service (HostId × AgentKey) := do
  match ← send (.findToken (hashToken (trim pairingToken))) with
  | none => .throw (.unauthorized "Invalid pairing token")
  | some (id, tokenRecord) =>
    if tokenRecord.usedAt.isSome then .throw (.badRequest "Pairing token already used")
    else do
      let now ← send .now
      if tokenRecord.expiresAt < now then .throw (.badRequest "Pairing token expired")
      else do
        let name ← hostName name
        completePairing id tokenRecord name clientIp

-- What the service is asked to do: an administrator wants a token, an agent wants to pair.
inductive Request
  | createToken (orgId : OrgId) (userId : UserId) (expiresInSec : Option Nat) (plainToken : String)
  | pair        (pairingToken : String) (name clientIp : Option String)

def Request.serve : Request → Service Unit
  | createToken orgId userId expiresInSec plainToken => do
    let _ ← Pairing.createToken hashToken orgId userId expiresInSec plainToken
    return
  | pair pairingToken name clientIp => do
    let _ ← Pairing.pair hashToken pairingToken name clientIp
    return

def Store.elapse (ms : Nat) (s : Store) : Store :=
  { s with clock := s.clock + ms }

-- The requests that are served at the same time.
@[reducible]
def interleaved : System :=
  Pool.system (Request.serve hashToken) Store.elapse

end

end Pairing
