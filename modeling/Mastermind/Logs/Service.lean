import Mathlib.Data.List.Sort
import Mastermind.Jobs.Store
import Mastermind.Script.Text

open Jobs

namespace Logs

variable {ι : Type} [LinearOrder ι]

-- What is selected of a row.
structure LogRow (ι : Type) where
  id               : ι
  serverInstanceId : ServerId
  content          : String
  createdAt        : Time
  deriving DecidableEq

structure ServerLog (ι : Type) extends LogRow ι where
  orgId : OrgId

-- The rows of the table. Their ids are unique.
abbrev ServerLogs (ι : Type) :=
  { rows : List (ServerLog ι) // (rows.map (·.id)).Nodup }

-- The rows of an organisation and, if one is given, of a server.
def found (logs : ServerLogs ι) (orgId : OrgId) (serverInstanceId : Option ServerId) :
    List (LogRow ι) :=
  (logs.val.filter fun row =>
    row.orgId = orgId && serverInstanceId.all (row.serverInstanceId = ·)).map ServerLog.toLogRow

-- `orderBy: [{ createdAt: 'asc' }, { id: 'asc' }]`
def LogRow.le (a b : LogRow ι) : Prop :=
  a.createdAt < b.createdAt ∨ (a.createdAt = b.createdAt ∧ a.id ≤ b.id)

instance : DecidableRel (LogRow.le (ι := ι)) :=
  fun _ _ => inferInstanceAs (Decidable (_ ∨ _))

-- `Math.min(Math.max(limit || 250, 1), 1000)`
def pageSize (limit : Option ℤ) : Nat :=
  let limit := limit.getD 250
  (min (max (if limit = 0 then 250 else limit) 1) 1000).toNat

-- The latest rows. Those of one time come in the order of the table.
def latest (rows : List (LogRow ι)) (take : Nat) : List (LogRow ι) :=
  ((rows.insertionSort fun a b => b.createdAt ≤ a.createdAt).take take).reverse

def list (logs : ServerLogs ι) (orgId : OrgId) (serverInstanceId : Option ServerId)
    (limit : Option ℤ) (afterId : Option ι) : List (LogRow ι) :=
  let take := pageSize limit
  let rows := found logs orgId serverInstanceId
  match afterId with
  | none         => latest rows take
  | some afterId =>
    match rows.find? (·.id = afterId) with
    | none        => latest rows take
    | some cursor =>
      ((rows.filter fun row => cursor.createdAt ≤ row.createdAt && row.id ≠ afterId).insertionSort
        LogRow.le).take take

-- What `append` does to the contents of the rows of a server of the host.
def append (content : String) (contents : List String) : Except String (List String) :=
  if content = "" then .ok contents
  else if (Js.units content).length > 65536 then .error "Log chunk exceeds 64 KiB"
  else .ok (contents ++ [content])

end Logs
