import Mastermind.Effects.Prog
import Mastermind.Effects.System
import Mastermind.Effects.Table
import Mastermind.Jobs.Store
import Mastermind.Script.Text
import Mastermind.Text.Search

open Effects Js Jobs Search

namespace Keywords

abbrev RuleId := Nat

-- A string as its UTF-16 units, which need not make up whole characters.
abbrev Units := List Nat

-- The condition of a rule of the type `log_keyword`.
structure KeywordCondition where
  serverInstanceId : ServerId
  keyword          : String
  caseSensitive    : Bool
  deriving DecidableEq

-- The condition is `none` if the rule is of another type.
structure AlertRule where
  orgId     : OrgId
  name      : String
  enabled   : Bool
  condition : Option KeywordCondition
  deriving DecidableEq

structure ServerInstance where
  orgId : OrgId
  name  : String

-- What is recorded of a match.
structure MatchEvent where
  orgId    : OrgId
  sourceId : ServerId
  ruleId   : RuleId
  ruleName : String
  keyword  : String
  excerpt  : Units

-- A match for the rules that alert someone.
structure Notice where
  orgId              : OrgId
  serverInstanceId   : ServerId
  serverInstanceName : Option String
  ruleId             : RuleId
  keyword            : String
  ruleName           : String
  excerpt            : Units

-- `scanTails` is in memory. A deleted rule is `none`. `delivers` says which notices can be sent.
structure Store where
  servers   : Table ServerInstance         := []
  rules     : Table (Option AlertRule)     := []
  logs      : List (ServerId × Units)      := []
  events    : List MatchEvent              := []
  scanTails : List (ServerId × Units)      := []
  delivers  : Notice → Bool                := fun _ => true

inductive Exception
  | badRequest (message : String)
  | notFound   (message : String)
  | storage
  deriving DecidableEq

namespace Store

def scanTail (s : Store) (id : ServerId) : Units :=
  (s.scanTails.lookup id).getD []

-- The enabled rules of an organisation, with their ids.
def enabledRules (s : Store) (orgId : OrgId) : List (RuleId × AlertRule) :=
  s.rules.entries.filterMap fun (id, rule) =>
    (rule.filter fun rule => rule.orgId = orgId && rule.enabled).map (id, ·)

end Store

inductive Cmd
  | scanTail         (serverInstanceId : ServerId)
  | setScanTail      (serverInstanceId : ServerId) (text : Units)
  | findServer       (id : ServerId)
  | findOrgServer    (id : ServerId) (orgId : OrgId)
  | findEnabledRules (orgId : OrgId)
  | createRule       (rule : AlertRule)
  | createLog        (serverInstanceId : ServerId) (content : Units)
  | createEvent      (event : MatchEvent)
  | sendMatching     (notice : Notice)

@[reducible]
def Cmd.Ans : Cmd → Type
  | scanTail _         => Units
  | findServer _       => Option ServerInstance
  | findOrgServer ..   => Option ServerInstance
  | findEnabledRules _ => List (RuleId × AlertRule)
  | createRule _       => RuleId
  | _                  => Unit

def exec : (c : Cmd) → Store → Except Exception c.Ans × Store
  | .scanTail id, s => (.ok (s.scanTail id), s)
  | .setScanTail id text, s =>
    (.ok (), { s with scanTails := (id, text) :: s.scanTails.filter fun (id', _) => id' ≠ id })
  | .findServer id, s => (.ok s.servers[id]?, s)
  | .findOrgServer id orgId, s => (.ok (s.servers[id]?.filter (·.orgId = orgId)), s)
  | .findEnabledRules orgId, s => (.ok (s.enabledRules orgId), s)
  | .createRule rule, s => (.ok s.rules.length, { s with rules := s.rules ++ [some rule] })
  | .createLog id content, s => (.ok (), { s with logs := s.logs ++ [(id, content)] })
  | .createEvent event, s => (.ok (), { s with events := s.events ++ [event] })
  | .sendMatching notice, s => (if s.delivers notice then .ok () else .error .storage, s)

-- The database of the control plane and the memory of the log service.
@[reducible]
def logs : Backend Exception where
  State := Store
  Cmd   := Cmd
  Ans   := Cmd.Ans
  exec  := exec
  fault := .storage
  local? c := c matches .scanTail _ | .setScanTail ..

abbrev Service (α : Type) :=
  Prog logs α

abbrev send (c : Cmd) : Service c.Ans :=
  Prog.perform (B := logs) c

-- What `createKeywordRule` checks, and the row that it creates.
def keywordRule (orgId : OrgId) (serverInstanceId : ServerId) (keyword : String)
    (caseSensitive : Bool) : Except Exception AlertRule :=
  let clean := trim keyword
  if clean = "" ∨ 200 < (units clean).length then
    .error (.badRequest "Keyword must contain 1-200 characters")
  else
    .ok {
      orgId, name := "Log: " ++ clean, enabled := true
      condition := some { serverInstanceId, keyword := clean, caseSensitive } }

def createKeywordRule (orgId : OrgId) (serverInstanceId : ServerId) (keyword : String)
    (caseSensitive : Bool) : Service RuleId := do
  let rule ← Prog.ofExcept (keywordRule orgId serverInstanceId keyword caseSensitive)
  match ← send (.findOrgServer serverInstanceId orgId) with
  | none   => .throw (.notFound "Server instance not found")
  | some _ => send (.createRule rule)

-- `text.slice(start, stop)`
def slice (text : Units) (start stop : Nat) : Units :=
  (text.take stop).drop start

section

-- `toLowerCase`
variable (lower : Units → Units)

-- The match of a rule in a text, of which the first `prior` units have been searched before.
def KeywordCondition.match? (c : KeywordCondition) (serverInstanceId : ServerId) (prior : Nat)
    (searchable : Units) : Option Units :=
  if c.serverInstanceId ≠ serverInstanceId ∨ c.keyword = "" then none
  else
    let haystack := if c.caseSensitive then searchable else lower searchable
    let needle := if c.caseSensitive then units c.keyword else lower (units c.keyword)
    match lastIndexOf needle haystack with
    | none       => none
    | some index =>
      if index + needle.length ≤ prior then none
      else
        some (slice searchable (index - 180) (min searchable.length (index + needle.length + 180)))

def matchRule (orgId : OrgId) (serverInstanceId : ServerId) (serverInstanceName : Option String)
    (prior : Nat) (searchable : Units) : RuleId × AlertRule → Service Unit
  | (ruleId, rule) =>
    match rule.condition with
    | none   => return
    | some c =>
      match c.match? lower serverInstanceId prior searchable with
      | none         => return
      | some excerpt => do
        send (.createEvent {
          orgId, sourceId := serverInstanceId, ruleId, ruleName := rule.name, keyword := c.keyword
          excerpt })
        (send (.sendMatching {
          orgId, serverInstanceId, serverInstanceName, ruleId, keyword := c.keyword
          ruleName := rule.name, excerpt })).handle fun _ => return

def matchKeywordAlerts (orgId : OrgId) (serverInstanceId : ServerId) (content : Units) :
    Service Unit := do
  let prior ← send (.scanTail serverInstanceId)
  let searchable := prior ++ content
  send (.setScanTail serverInstanceId (searchable.rtake 256))
  let server ← send (.findOrgServer serverInstanceId orgId)
  let rules ← send (.findEnabledRules orgId)
  let name := server.map (·.name)
  .forEach (matchRule lower orgId serverInstanceId name prior.length searchable) rules

-- The part of `append` that stores a chunk and matches the keywords.
def append (serverInstanceId : ServerId) (content : Units) : Service Unit :=
  if content = [] then return
  else if 65536 < content.length then .throw (.badRequest "Log chunk exceeds 64 KiB")
  else do
    match ← send (.findServer serverInstanceId) with
    | none        => .throw (.notFound "Server instance not found for agent host")
    | some server => do
      send (.createLog serverInstanceId content)
      (matchKeywordAlerts lower server.orgId serverInstanceId content).handle fun _ => return

end

-- The agent of a server's host sends a chunk of its log, or the rules are changed.
inductive LogEvent
  | chunk (serverInstanceId : ServerId) (content : Units)
  | rules (rules : Table (Option AlertRule))

-- The chunks are processed one after the other.
@[reducible]
def scanning (lower : Units → Units) : System where
  State := Store
  Event := LogEvent
  next s
    | .chunk id content => ((append lower id content).run [] s).state
    | .rules rules      => { s with rules }

end Keywords
