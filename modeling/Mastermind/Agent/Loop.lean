import Mastermind.Effects.System
import Mastermind.Effects.Table

open Effects

namespace Agent.Loop

-- The fields of a job that the loop looks at.
structure Job where
  id   : String
  type : String
  deriving DecidableEq

def isReadOnly (jobType : String) : Bool :=
  match jobType with
  | "MOD_LIST" | "MOD_QUARANTINE_LIST" | "MOD_PENDING_LIST" | "MOD_CONFIG_READ" | "SERVER_CONFIG_READ"
  | "PLAYER_LIST_SYNC" | "PLAYER_ADMIN_LIST" | "SAVE_LIST" | "ITEM_CATALOG" => true
  | _ => false

def Job.isReadOnly (job : Job) : Bool :=
  Loop.isReadOnly job.type

-- The goroutine of a job runs `runOne` and then the deferred release. The release of a mutation
-- lowers the flag before it returns the token.
inductive Phase
  | running
  | returned
  | lowered
  | finished
  deriving DecidableEq

structure Worker where
  job   : Job
  phase : Phase
  deriving DecidableEq

-- Where the loop is. A job is `acquired` when its slot or token has been received from the channel,
-- and `admitted` when nothing but the start of its goroutine is left to be done.
inductive Position
  | ready
  | requesting  (busy : Bool)
  | answered    (jobs : List Job)
  | dispatching (jobs : List Job)
  | acquired    (job : Job) (jobs : List Job)
  | admitted    (job : Job) (jobs : List Job)
  | waiting
  | stopped
  deriving DecidableEq

-- The fields from `readLimit` to `mutationBusy` are those of `executionLimiter`: the capacity of the
-- channel `reads` and the number of its elements, the number of tokens in the channel `mutation`, and
-- the flag.
structure State where
  readLimit    : Nat
  reads        : Nat          := 0
  mutation     : Nat          := 1
  mutationBusy : Bool         := false
  cancelled    : Bool         := false
  position     : Position     := .ready
  workers      : Table Worker := []
  deriving DecidableEq

-- The limit in effect for the optional argument of `Loop`.
def readLimit (maxConcurrentReads : Option Int) : Nat :=
  match maxConcurrentReads with
  | some n => if n > 0 then n.toNat else 8
  | none   => 8

def State.start (maxConcurrentReads : Option Int) : State where
  readLimit := Loop.readLimit maxConcurrentReads

-- What the parties do: the loop, the control plane that claims jobs for a request of the loop, the
-- goroutines, and whoever cancels the context.
inductive Event
  | request
  | claim (jobs : List Job)
  | receive
  | fail
  | acquire
  | raise
  | spawn
  | next
  | stop
  | work (i : Nat)
  | cancel

-- The next step of a goroutine.
def State.work (s : State) (i : Nat) : State :=
  let move (phase : Phase) := s.workers.modify i fun w => { w with phase }
  match s.workers[i]? with
  | none => s
  | some w =>
    match w.phase, w.job.isReadOnly with
    | .running, _      => { s with workers := move .returned }
    | .returned, true  => { s with reads := s.reads - 1, workers := move .finished }
    | .returned, false => { s with mutationBusy := false, workers := move .lowered }
    | .lowered, false  =>
      -- The channel has room for one token.
      if s.mutation < 1 then { s with mutation := s.mutation + 1, workers := move .finished } else s
    | _, _             => s

-- The next state. An event that is not enabled does not happen. A call that the end of the context
-- unblocks may still succeed when it could.
def State.next (s : State) : Event → State
  | .request =>
    match s.position with
    | .ready => { s with position := .requesting s.mutationBusy }
    | _      => s
  | .claim jobs =>
    match s.position with
    | .requesting _ => { s with position := .answered jobs }
    | _             => s
  | .receive =>
    match s.position with
    | .answered []   => { s with position := .waiting }
    | .answered jobs => { s with position := .dispatching jobs }
    | _              => s
  | .fail =>
    match s.position with
    | .requesting _ | .answered _ => { s with position := .waiting }
    | _                           => s
  | .acquire =>
    match s.position with
    | .dispatching (job :: jobs) =>
      if job.isReadOnly then
        if s.reads < s.readLimit then
          { s with reads := s.reads + 1, position := .admitted job jobs }
        else s
      else if 0 < s.mutation then
        { s with mutation := s.mutation - 1, position := .acquired job jobs }
      else s
    | _ => s
  | .raise =>
    match s.position with
    | .acquired job jobs => { s with mutationBusy := true, position := .admitted job jobs }
    | _                  => s
  | .spawn =>
    match s.position with
    | .admitted job jobs =>
      { s with workers := s.workers ++ [⟨job, .running⟩], position := .dispatching jobs }
    | _ => s
  | .next =>
    match s.position with
    | .dispatching [] => { s with position := if s.cancelled then .stopped else .ready }
    | .waiting        => { s with position := .ready }
    | _               => s
  | .stop =>
    match s.position, s.cancelled with
    | .dispatching (_ :: _), true | .waiting, true => { s with position := .stopped }
    | _, _                                         => s
  | .work i => s.work i
  | .cancel => { s with cancelled := true }

@[reducible]
def loop : System where
  State := State
  Event := Event
  next  := State.next

end Agent.Loop
