import Mastermind.Players.Store

open Effects Js Jobs Donations Triggers

namespace Players

variable [Naming]

-- The player that a trigger fires for, as its caller knows it.
structure TriggerPlayer where
  id              : PlayerId
  name            : String
  steamId         : Option String
  identityKey     : IdentityKey
  online          : Bool
  lifetimeSeconds : Int

def TriggerPlayer.ofRow (id : PlayerId) (p : Player) : TriggerPlayer where
  id              := id
  name            := p.name
  steamId         := p.steamId
  identityKey     := p.identityKey
  online          := p.online
  lifetimeSeconds := p.lifetimeSeconds

-- What a dollar and another character stand for in a replacement: a dollar, what is replaced, or what
-- is before or after it.
def dollarSign (before found after : List Char) (c : Char) : Option (List Char) :=
  match c.toNat with
  | 0x24 => some ['$']
  | 0x26 => some found
  | 0x60 => some before
  | 0x27 => some after
  | _    => none

def getSubstitution (before found after : List Char) : List Char → List Char
  | []             => []
  | '$' :: c :: cs =>
    match dollarSign before found after c with
    | some text => text ++ getSubstitution before found after cs
    | none      => '$' :: getSubstitution before found after (c :: cs)
  | c :: cs        => c :: getSubstitution before found after cs

-- Replaces what is found of a pattern. The first characters of the text belong to what was found last.
def replaceFrom (pattern replacement before : List Char) : Nat → List Char → List Char
  | _, []         => []
  | n + 1, c :: cs => replaceFrom pattern replacement (before ++ [c]) n cs
  | 0, c :: cs    =>
    if pattern.isPrefixOf (c :: cs) then
      getSubstitution before pattern ((c :: cs).drop pattern.length) replacement ++
        replaceFrom pattern replacement (before ++ [c]) (pattern.length - 1) cs
    else c :: replaceFrom pattern replacement (before ++ [c]) 0 cs

-- `text.replaceAll(pattern, replacement)` for a pattern that is not empty
def replaceAll (text pattern replacement : String) : String :=
  .ofList (replaceFrom pattern.toList replacement.toList [] 0 text.toList)

example : replaceAll "Hi (n), (n)!" "(n)" "$$[$&$']" = "Hi $[(n), (n)!], $[(n)!]!" := by decide

-- `eventKey.slice(prefix.length)` for the keys that start with the prefix
def eventHint (start eventKey : String) : Option String :=
  if start.toList.isPrefixOf eventKey.toList then
    some (.ofList (eventKey.toList.drop start.toList.length))
  else none

-- `String(Math.floor(Number(cents) / 100) || '')`
def dollarsOf (cents : String) : String :=
  match stringToNumber cents with
  | .fin q => if (q / 100).floor = 0 then "" else toString (q / 100).floor
  | .inf b => if b then "-Infinity" else "Infinity"
  | .nan   => ""

def grantMessage (action : GrantItemsActionConfig) (name eventKey : String) : String :=
  let hours := (eventHint "playtime:" eventKey).getD ""
  let dollars := ((eventHint "donation:" eventKey).map dollarsOf).getD ""
  replaceAll (replaceAll (replaceAll (replaceAll action.message "\x7bname\x7d" name)
    "\x7bhours\x7d" hours) "\x7bdollars\x7d" dollars) "\x7bitems\x7d" (grantItemsSummary action.items)

def grantPayload (triggerId : TriggerId) (fireId : Option FireId) (player : TriggerPlayer)
    (eventKey : String) (action : GrantItemsActionConfig) : GrantPayload where
  triggerId     := triggerId
  triggerFireId := fireId
  playerId      := player.id
  steamId       := player.steamId
  identityKey   := player.identityKey
  uuid          := player.identityKey.uuid?
  name          := player.name
  player        := player.name
  items         := action.items
  notifyPlayer  := action.notifyPlayer
  message       := grantMessage action player.name eventKey

-- The fire that the items are granted for, or nothing when the new fire cannot be recorded.
def grantedFire (triggerId : TriggerId) (player : TriggerPlayer) (eventKey : String)
    (recordFire : Bool) : Service (Option (Option FireId)) :=
  if recordFire then
    Prog.handle
      (do
        let id ← send (.createFire triggerId player.id eventKey
          (if player.online then .queued else .pending))
        return some (some id))
      fun _ => return none
  else do
    let existing ← send (.findFire triggerId player.id eventKey)
    return some (existing.map Prod.fst)

def updateFire (fireId : Option FireId) (data : FireData) : Service Unit :=
  match fireId with
  | some id => send (.updateFire id data)
  | none    => return

-- A fire that has used up its attempts.
def exhaustedFire (fireId : Option FireId) : Service (Option (FireId × TriggerFire)) :=
  match fireId with
  | none    => return none
  | some id => do
    match ← send (.findFireById id) with
    | some fire => if fire.attempts ≥ MAX_GRANT_ATTEMPTS then return some (id, fire) else return none
    | none      => return none

-- The part of `enqueueGrantItems` that comes after the fire has been recorded or found.
def giveItems (triggerId : TriggerId) (trigger : Trigger) (player : TriggerPlayer) (eventKey : String)
    (action : GrantItemsActionConfig) (recordFire : Bool) (fireId : Option FireId) : Service Unit :=
  if !player.online then updateFire fireId { status := .pending }
  else do
    match ← exhaustedFire fireId with
    | some (id, fire) =>
      send (.updateFire id {
        status    := .failed
        lastError := some ((fire.lastError.filter (· ≠ "")).or "Max grant attempts exceeded") })
    | none => do
      let jobId ← send (.enqueueInternalJob trigger.orgId trigger.createdById trigger.serverInstanceId
        "TRIGGER_GRANT_ITEMS" (grantPayload triggerId fireId player eventKey action))
      updateFire fireId { jobId, status := .queued, attempts := 1, lastError := some none }
      if recordFire ∧ fireId.isSome then do
        let now ← send .now
        send (.touchTrigger triggerId now)
      else return

def enqueueGrantItems (triggerId : TriggerId) (trigger : Trigger) (player : TriggerPlayer)
    (eventKey : String) (recordFire : Bool) : Service Unit :=
  match parseGrantItemsActionConfig (some trigger.actionConfig) with
  | .error message => .throw (.invalid message)
  | .ok action     => do
    match ← grantedFire triggerId player eventKey recordFire with
    | none        => return
    | some fireId => giveItems triggerId trigger player eventKey action recordFire fireId

def fireOnce (triggerId : TriggerId) (trigger : Trigger) (player : TriggerPlayer)
    (eventKey : String) : Service Unit := do
  match ← send (.findFire triggerId player.id eventKey) with
  | some _ => return
  | none   => enqueueGrantItems triggerId trigger player eventKey true

-- `promise.catch(() => undefined)`
def ignoreErrors (p : Service Unit) : Service Unit :=
  p.handle fun _ => return

def fireAll (player : TriggerPlayer) (eventKey : Trigger → Option String) :
    List (TriggerId × Trigger) → Service Unit
  | [] => return
  | (id, trigger) :: triggers =>
    match eventKey trigger with
    | none     => fireAll player eventKey triggers
    | some key => do
      ignoreErrors (fireOnce id trigger player key)
      fireAll player eventKey triggers

def evaluateFirstJoin (orgId : OrgId) (serverInstanceId : ServerId) (player : TriggerPlayer) :
    Service Unit := do
  let triggers ← send (.findTriggers orgId serverInstanceId TRIGGER_EVENT_FIRST_JOIN)
  fireAll player (fun _ => some eventKeyForFirstJoin) triggers

-- The key of a playtime trigger whose threshold is crossed.
def playtimeKey (previousLifetimeSeconds nextLifetimeSeconds : Int) (trigger : Trigger) :
    Option String :=
  match parsePlaytimeConfig (some trigger.eventConfig) with
  | .error _  => none
  | .ok hours =>
    if crossedPlaytimeHours previousLifetimeSeconds nextLifetimeSeconds hours then
      some (eventKeyForPlaytime hours)
    else none

def evaluatePlaytime (orgId : OrgId) (serverInstanceId : ServerId) (player : TriggerPlayer)
    (previousLifetimeSeconds nextLifetimeSeconds : Int) : Service Unit := do
  let triggers ← send (.findTriggers orgId serverInstanceId TRIGGER_EVENT_PLAYTIME)
  fireAll player (playtimeKey previousLifetimeSeconds nextLifetimeSeconds) triggers

-- `String(output || '').trim().slice(0, 500) || null`
def errText (output : String) : Option String :=
  let text := slice (trim output) 500
  if text = "" then none else some text

def completeItemGrant (payload : GrantPayload) (runStatus : RunStatus) (output : String) :
    Service Unit :=
  match payload.triggerFireId with
  | none        => return
  | some fireId => do
    match ← send (.findFireById fireId) with
    | none      => return
    | some fire =>
      let outcome := classifyGrantOutput (some output) (statusText runStatus)
      if outcome = .delivered then
        send (.updateFire fireId { status := .delivered, lastError := some none })
      else if outcome = .failed ∨ fire.attempts ≥ MAX_GRANT_ATTEMPTS then
        send (.updateFire fireId { status := .failed, lastError := some (errText output) })
      else send (.updateFire fireId { status := .pending, lastError := some (errText output) })

def retryFires : List FireRow → Service Unit
  | [] => return
  | (_, fire, trigger, playerId, player) :: fires => do
    ignoreErrors
      (enqueueGrantItems fire.triggerId trigger (.ofRow playerId player) fire.eventKey false)
    retryFires fires

def retryPendingItemGrants (orgId : OrgId) (serverInstanceId : ServerId) : Service Unit := do
  let now ← send .now
  send (.resetStale orgId serverInstanceId (now - 5 * 60000))
  let fires ← send (.findPending orgId serverInstanceId)
  retryFires fires

def retryPendingItemGrantsForPlayer (playerId : PlayerId) : Service Unit := do
  let fires ← send (.findPendingOf playerId)
  retryFires fires

end Players
