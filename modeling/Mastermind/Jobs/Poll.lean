import Mastermind.Jobs.Service

open Effects

namespace Jobs

def isReadOnly (type : String) : Bool :=
  ["MOD_LIST", "MOD_QUARANTINE_LIST", "MOD_PENDING_LIST", "MOD_CONFIG_READ", "SERVER_CONFIG_READ",
    "PLAYER_LIST_SYNC", "PLAYER_ADMIN_LIST", "SAVE_LIST", "ITEM_CATALOG"].contains type

-- Claims an entry by removing it from the queue. The entry may have been taken concurrently.
def claimEntry (orgId : OrgId) (entry : QueueEntry) : Service (Option QueueJobData) :=
  Prog.handle
    (do
      if entry.delay > 0 then send (.queueChangeDelay orgId entry.data.jobRunId 0)
      send (.queueRemove orgId entry.data.jobRunId)
      return some entry.data)
    fun _ => return none

-- The loop of `getNextJobForHost`.
def claimFirst (orgId : OrgId) (hostId : HostId) (mutationBusy : Bool) :
    List QueueEntry → Service (Option QueueJobData)
  | [] => return none
  | entry :: waiting =>
    if entry.data.hostId ≠ hostId then claimFirst orgId hostId mutationBusy waiting
    else if mutationBusy && !isReadOnly entry.data.type then
      claimFirst orgId hostId mutationBusy waiting
    else do
      match ← claimEntry orgId entry with
      | some data => return some data
      | none      => claimFirst orgId hostId mutationBusy waiting

def getNextJobForHost (orgId : OrgId) (hostId : HostId) (mutationBusy : Bool) :
    Service (Option QueueJobData) := do
  let waiting ← send (.queueJobs orgId)
  claimFirst orgId hostId mutationBusy waiting

-- The loop of `poll`. It comes round at most once every 200 ms, so that the deadline of a wait of `w` ms
-- has passed after `w / 200` rounds (rounded up) and the first one.
def pollRounds (orgId : OrgId) (hostId : HostId) (busy : Bool) (deadline : Time) :
    (rounds : Nat) → Service (Option QueueJobData)
  | 0 => return none
  | rounds + 1 => do
    match ← getNextJobForHost orgId hostId busy with
    | some jobData => do
      markJobRunStarted hostId jobData.jobRunId
      return some jobData
    | none => do
      if (← send .now) ≥ deadline then return none
      else pollRounds orgId hostId busy deadline rounds

-- The agent's request for its next job. `waitMs` is the clamped value of the query parameter.
def poll (hostId : HostId) (waitMs : Nat) (busy : Bool) : Service (Option QueueJobData) := do
  match ← send (.findHost hostId) with
  | none      => return none
  | some host => do
    let now ← send .now
    pollRounds host.orgId hostId busy (now + waitMs) ((waitMs + 199) / 200 + 1)

end Jobs
