import Mathlib.Data.List.MinMax
import Mastermind.Donations.ShopGrants
import Mastermind.Jobs.Store

open Effects Js Jobs

namespace Donations

-- Rows are referred to by their position in their table.
abbrev PlayerId   := Nat
abbrev DonationId := Nat
abbrev LineId     := Nat
abbrev ShopItemId := Nat

structure ShopItem where
  orgId         : OrgId
  name          : String
  priceCents    : ℤ
  grantItemName : Option String
  grantQuantity : ℤ
  grantItems    : Json

structure Donation where
  orgId            : OrgId
  serverInstanceId : ServerId
  playerId         : PlayerId
  status           : String

-- What `buildDonationLines` makes of a shop item.
structure LineRow where
  shopItemId    : Option ShopItemId
  itemName      : String
  amountCents   : ℤ
  quantity      : ℤ
  grantItems    : Json
  grantItemName : Option String
  grantQuantity : Option ℤ
  grantStatus   : String

structure DonationLine extends LineRow where
  donationId    : DonationId
  grantQueuedAt : Option Time   := none
  grantedAt     : Option Time   := none
  grantError    : Option String := none

-- `lineGrantItems(line.grantItems, line)`
def DonationLine.items (line : DonationLine) : List LineGrantItem :=
  lineGrantItems line.grantItems line.grantItemName line.grantQuantity

-- `grantStatus: { in: ['pending', 'queued'] }`
def DonationLine.owes (line : DonationLine) : Bool :=
  line.grantStatus = "pending" || line.grantStatus = "queued"

-- A membership with the time of its creation.
structure Member where
  orgId     : OrgId
  userId    : UserId
  createdAt : Time

structure GrantPayload where
  command        : String
  purpose        : String
  donationLineId : LineId
  grantKind      : String
  grantItemIndex : Option Nat

-- The item that a payload is about.
def GrantPayload.item (payload : GrantPayload) : LineId × Option Nat :=
  (payload.donationLineId, payload.grantItemIndex)

-- The answer of an agent to a job: the status of its run and the output.
structure Answer where
  runStatus : String
  output    : Option String
  deriving DecidableEq

-- `classifyGrantOutput(output, runStatus)`
def Answer.outcome (a : Answer) : GrantOutcome :=
  classifyGrantOutput a.output a.runStatus

structure GiveJob where
  orgId            : OrgId
  userId           : UserId
  serverInstanceId : ServerId
  type             : String
  payload          : GrantPayload
  answer           : Option Answer := none

structure Store where
  clock     : Time               := 0
  members   : List Member        := []
  shopItems : Table ShopItem     := []
  donations : Table Donation     := []
  lines     : Table DonationLine := []
  jobs      : Table GiveJob      := []

-- The data of an update. Fields that are not set keep their value.
structure LineData where
  grantItems    : Option (List LineGrantItem) := none
  grantStatus   : Option String               := none
  grantQueuedAt : Option Time                 := none
  grantedAt     : Option Time                 := none
  grantError    : Option (Option String)      := none

def LineData.apply (d : LineData) (line : DonationLine) : DonationLine :=
  { line with
    grantItems    := (d.grantItems.map storedItems).getD line.grantItems
    grantStatus   := d.grantStatus.getD line.grantStatus
    grantQueuedAt := d.grantQueuedAt.or line.grantQueuedAt
    grantedAt     := d.grantedAt.or line.grantedAt
    grantError    := d.grantError.getD line.grantError }

namespace Store

def line? (s : Store) (id : LineId) : Option DonationLine :=
  s.lines[id]?

def job? (s : Store) (id : JobId) : Option GiveJob :=
  s.jobs[id]?

-- `userOrg.findFirst({ where: { orgId }, orderBy: { createdAt: 'asc' } })`
def firstMember? (s : Store) (orgId : OrgId) : Option UserId :=
  ((s.members.filter (·.orgId = orgId)).argmin Member.createdAt).map Member.userId

-- The lines of a player's completed donations that owe an item.
def dueLines (s : Store) (playerId : PlayerId) (orgId : OrgId) (serverInstanceId : ServerId) :
    List (LineId × DonationLine) :=
  s.lines.entries.filter fun (_, line) =>
    line.owes && (s.donations[line.donationId]?).any fun d =>
      d.playerId = playerId && d.orgId = orgId && d.serverInstanceId = serverInstanceId &&
      d.status = "completed"

end Store

-- What a write of a line's items is based on: the items that the call has last read or written, and
-- the index of the item that the write is about. The database does not look at it.
structure Basis where
  seen : List LineGrantItem
  item : Option Nat

inductive Cmd
  | now
  | findFirstMember (orgId : OrgId)
  | findShopItems   (orgId : OrgId) (ids : List ShopItemId)
  | findDueLines    (playerId : PlayerId) (orgId : OrgId) (serverInstanceId : ServerId)
  | findLine        (id : LineId)
  | updateLine      (id : LineId) (data : LineData) (basis : Option Basis)
  | createDonation  (donation : Donation) (lines : List LineRow)
  | createJob       (job : GiveJob)

@[reducible]
def Cmd.Ans : Cmd → Type
  | now               => Time
  | findFirstMember _ => Option UserId
  | findShopItems ..  => List (ShopItemId × ShopItem)
  | findDueLines ..   => List (LineId × DonationLine)
  | findLine _        => Option DonationLine
  | createJob _       => JobId
  | _                 => Unit

-- The creation of a job is one command here, the steps that it takes are those of `Jobs.createJob`.
def exec : (c : Cmd) → Store → Except Exception c.Ans × Store
  | .now, s => (.ok s.clock, s)
  | .findFirstMember orgId, s => (.ok (s.firstMember? orgId), s)
  | .findShopItems orgId ids, s =>
    (.ok (s.shopItems.entries.filter fun (id, item) => item.orgId = orgId && ids.contains id), s)
  | .findDueLines playerId orgId serverInstanceId, s =>
    (.ok ((s.dueLines playerId orgId serverInstanceId).take 16), s)
  | .findLine id, s => (.ok (s.line? id), s)
  | .updateLine id data _, s =>
    if (s.line? id).isSome then (.ok (), { s with lines := s.lines.modify id data.apply })
    else (.error .storage, s)
  | .createDonation donation lines, s =>
    (.ok (), { s with
      donations := s.donations ++ [donation]
      lines     := s.lines ++ lines.map fun row => { row with donationId := s.donations.length } })
  | .createJob job, s => (.ok s.jobs.length, { s with jobs := s.jobs ++ [job] })

@[reducible]
def shop : Backend Exception where
  State := Store
  Cmd   := Cmd
  Ans   := Cmd.Ans
  exec  := exec
  fault := .storage
  local? c := c matches .now

abbrev Service (α : Type) :=
  Prog shop α

abbrev send (c : Cmd) : Service c.Ans :=
  Prog.perform (B := shop) c

end Donations
