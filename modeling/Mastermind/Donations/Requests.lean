import Mastermind.Effects.Pool
import Mastermind.Donations.Delivery
import Mastermind.Donations.Service

open Effects Jobs

namespace Donations

-- The calls that deliver items. A finishing call reports the answer to a job.
inductive Request
  | deliver (d : Delivery)
  | finish  (id : JobId) (payload : GrantPayload) (a : Answer)

def Request.serve : Request → Service Unit
  | deliver d          => deliverShopGrantLines d
  | finish _ payload a => finishShopGrant payload a

def Store.elapse (ms : Nat) (s : Store) : Store :=
  { s with clock := s.clock + ms }

-- A job that the agent has not answered yet.
def Store.openJob? (s : Store) (id : JobId) : Option GiveJob :=
  (s.job? id).filter (·.answer.isNone)

def GiveJob.answered (a : Answer) (job : GiveJob) : GiveJob :=
  { job with answer := some a }

def Store.answer (s : Store) (id : JobId) (a : Answer) : Store :=
  { s with jobs := s.jobs.modify id (GiveJob.answered a) }

-- A call that is served on its own, with the fates of its accesses. The agent answers a job once.
inductive Op
  | complete (paid : Paid) (fates : List Fate)
  | deliver  (d : Delivery) (fates : List Fate)
  | answer   (id : JobId) (a : Answer) (fates : List Fate)
  | elapse   (ms : Nat)

-- The calls that are served one after the other.
@[reducible]
def sequential : System where
  State := Store
  Event := Op
  next s
    | .complete paid fates => ((completeSession paid).run fates s).state
    | .deliver d fates     => ((deliverShopGrantLines d).run fates s).state
    | .answer id a fates   =>
      match s.openJob? id with
      | some job => ((finishShopGrant job.payload a).run fates (s.answer id a)).state
      | none     => s
    | .elapse ms => s.elapse ms

abbrev Calls :=
  Pool shop Request Unit

-- A delivery starts, the agent answers a job (which starts the call that reports the answer), the
-- next access of a call is served or fails, and time passes.
inductive Event
  | deliver (d : Delivery)
  | answer  (id : JobId) (a : Answer)
  | serve   (i : Nat)
  | fail    (i : Nat)
  | elapse  (ms : Nat)

def Calls.answer (p : Calls) (id : JobId) (a : Answer) : Calls :=
  match p.state.openJob? id with
  | some job =>
    Pool.start Request.serve { p with state := p.state.answer id a } (.finish id job.payload a)
  | none => p

-- The calls that are served at the same time, interleaved at each access to the database.
@[reducible]
def interleaved : System where
  State := Calls
  Event := Event
  next p
    | .deliver d   => p.start Request.serve (.deliver d)
    | .answer id a => p.answer id a
    | .serve i     => p.serve i
    | .fail i      => p.fail i
    | .elapse ms   => { p with state := p.state.elapse ms }

end Donations
