import Mastermind.Donations.Store

open Effects Js Jobs

namespace Donations

-- The arguments of `deliverShopGrantLines`.
structure Delivery where
  orgId            : OrgId
  serverInstanceId : ServerId
  playerId         : PlayerId
  playerName       : String
  identityKey      : String
  online           : Bool
  limit            : Nat

-- `identityKey.startsWith('uuid:') ? identityKey.slice(5) : null`
def Delivery.uuid (d : Delivery) : Option String :=
  if "uuid:".toList.isPrefixOf d.identityKey.toList then some (.ofList (d.identityKey.toList.drop 5))
  else none

-- The job that gives an item.
def giveJob (orgId : OrgId) (userId : UserId) (serverInstanceId : ServerId) (donationLineId : LineId)
    (command : String) (grantItemIndex : Nat) : GiveJob where
  orgId            := orgId
  userId           := userId
  serverInstanceId := serverInstanceId
  type             := "RCON"
  payload          := {
    command, purpose := "shop_grant", donationLineId, grantKind := "item"
    grantItemIndex := some grantItemIndex }

def queueShopGrantJob (orgId : OrgId) (userId : UserId) (serverInstanceId : ServerId)
    (donationLineId : LineId) (command : String) (status : LineData) (grantItemIndex : Nat)
    (seen : List LineGrantItem) : Service Bool :=
  Prog.handle
    (do
      let now ← send .now
      send (.updateLine donationLineId
        { status with grantQueuedAt := some now, grantError := some none }
        (some { seen, item := some grantItemIndex }))
      let _ ← send <| .createJob <|
        giveJob orgId userId serverInstanceId donationLineId command grantItemIndex
      return true)
    fun _ => do
      Prog.handle (send (.updateLine donationLineId { grantStatus := some "pending" } none))
        fun _ => return
      return false

-- The item has to be given, or given again when its line was queued long ago.
def isDue (stale : Bool) (grant : LineGrantItem) : Bool :=
  grant.status = .pending || (grant.status = .queued && stale)

namespace LineGrantItem

-- `{ ...grant, status: 'failed', error: 'Invalid grant item' }`
def rejected (grant : LineGrantItem) : LineGrantItem :=
  { grant with status := .failed, error := some ⟨"Invalid grant item", by decide +kernel⟩ }

-- `{ ...grant, status: 'queued', attempts: grant.attempts + 1, error: null }`
def tried (grant : LineGrantItem) (h : grant.attempts.val < maxGrantAttempts) : LineGrantItem :=
  { grant with
    status   := .queued
    attempts := ⟨grant.attempts.val + 1, by simp only [maxGrantAttempts] at h; omega⟩
    error    := none }

-- `{ ...grant, status: 'pending' }`
def postponed (grant : LineGrantItem) : LineGrantItem :=
  { grant with status := .pending }

end LineGrantItem

-- The loop over the items of a line, those before the current one and those from it on. It counts
-- the queued jobs.
def deliverItems (d : Delivery) (userId : UserId) (lineId : LineId) (stale : Bool)
    (seen before : List LineGrantItem) (queued : Nat) : List LineGrantItem → Service Nat
  | []             => return queued
  | grant :: after =>
    if queued ≥ d.limit then return queued
    else if h : isDue stale grant = true ∧ grant.attempts.val < maxGrantAttempts then
      match buildGiveCommand d.playerName grant.name.val grant.quantity.val d.uuid with
      | none => do
        let grants := before ++ grant.rejected :: after
        send (.updateLine lineId
          { grantItems := some grants, grantStatus := some (aggregateGrantStatus grants)
            grantError := some "Invalid grant item" }
          (some { seen, item := some before.length }))
        deliverItems d userId lineId stale grants (before ++ [grant.rejected]) queued after
      | some command => do
        let grants := before ++ grant.tried h.right :: after
        if ← queueShopGrantJob d.orgId userId d.serverInstanceId lineId command
            { grantStatus := some (aggregateGrantStatus grants), grantItems := some grants }
            before.length seen then
          deliverItems d userId lineId stale grants (before ++ [grant.tried h.right]) (queued + 1) after
        else
          deliverItems d userId lineId stale grants (before ++ [grant.postponed]) queued after
    else deliverItems d userId lineId stale seen (before ++ [grant]) queued after

def deliverLines (d : Delivery) (userId : UserId) (staleBefore : ℤ) (queued : Nat) :
    List (LineId × DonationLine) → Service Unit
  | []                  => return
  | (id, line) :: lines =>
    if queued ≥ d.limit then return
    else if !d.online then deliverLines d userId staleBefore queued lines
    else do
      let stale := line.grantQueuedAt.all fun t => t < staleBefore
      let queued ← deliverItems d userId id stale line.items [] queued line.items
      deliverLines d userId staleBefore queued lines

def deliverShopGrantLines (d : Delivery) : Service Unit := do
  match ← send (.findFirstMember d.orgId) with
  | none        => return
  | some userId => do
    let now ← send .now
    let lines ← send (.findDueLines d.playerId d.orgId d.serverInstanceId)
    deliverLines d userId (now - 5 * 60000) 0 lines

-- The status of an item after its job was answered.
def GrantOutcome.next : GrantOutcome → ItemStatus
  | delivered => .delivered
  | failed    => .failed
  | retry     => .pending

def Answer.error (a : Answer) : Option ErrorText :=
  if a.outcome = .delivered then none
  else some (.of ((a.output.filter (· ≠ "")).getD "Grant command failed"))

-- The item that an answer is about: the one that the payload names or else the first that is owed.
def targetItem (payload : GrantPayload) (grants : List LineGrantItem) : Option Nat :=
  match payload.grantItemIndex.filter (· < grants.length) with
  | some index => some index
  | none       => grants.findIdx? fun item => item.status = .queued || item.status = .pending

-- `grants.map((item) => item.error).filter(Boolean).join('; ').slice(0, 180) || null`
def grantErrors (grants : List LineGrantItem) : Option String :=
  let errors := (grants.filterMap (·.error)).map Subtype.val
  some (slice ("; ".intercalate (errors.filter (· ≠ ""))) 180) |>.filter (· ≠ "")

-- The items after an answer.
def answeredItems (a : Answer) (grants : List LineGrantItem) : Option Nat → List LineGrantItem
  | some index => grants.modify index fun g => { g with status := a.outcome.next, error := a.error }
  | none       => grants

-- `grantStatus === 'delivered' || grantStatus === 'partial' ? new Date() : undefined`
def grantTime (grantStatus : String) : Service (Option Time) :=
  if grantStatus = "delivered" ∨ grantStatus = "partial" then do
    let now ← send .now
    return some now
  else return none

def finishShopGrant (payload : GrantPayload) (a : Answer) : Service Unit :=
  if payload.grantKind = "chat_color" then return
  else do
    match ← send (.findLine payload.donationLineId) with
    | none      => return
    | some line => do
      let target := targetItem payload line.items
      let grants := answeredItems a line.items target
      let grantStatus := aggregateGrantStatus grants
      let grantedAt ← grantTime grantStatus
      send (.updateLine payload.donationLineId
        { grantItems := some grants, grantStatus := some grantStatus, grantedAt
          grantError := some (grantErrors grants) }
        (some { seen := line.items, item := target }))

end Donations
