import Mastermind.Effects.Search
import Mastermind.Scheduler.Cron

open Effects Js

namespace Js

-- Instants are counted in milliseconds from the epoch, and may lie before it. The range of `Date` is
-- left out.
namespace Instant

variable (z : Zone) (t : ℤ)

-- The time on the clocks of a zone.
def clock : ℤ :=
  t + z * msPerMinute

-- The day on the calendar of a zone, counted from the epoch.
def day : ℤ :=
  clock z t / msPerDay

def getMinutes : Nat :=
  (clock z t / msPerMinute % 60).toNat

def getHours : Nat :=
  (clock z t / 3600000 % 24).toNat

def getDate : Nat :=
  (calendarDate (day z t)).day

def getMonth : Nat :=
  (calendarDate (day z t)).month

def getDay : Nat :=
  ((day z t + 4) % 7).toNat

-- `setHours(hours, minutes, 0, 0)`, after `days` have been added to the date.
def setHours (days : Nat) (hours minutes : Number) : Option ℤ :=
  match hours.trunc?, minutes.trunc? with
  | some h, some m => some ((day z t + days) * msPerDay + h * 3600000 + (m - z) * msPerMinute)
  | _, _           => none

end Instant

end Js

namespace Scheduler

-- The cron search and the execution window over all instants, also those before the epoch.
namespace Instants

variable (cron : Cron) (z : Zone) (t : ℤ)

-- The expression allows a run at an instant.
def Allows : Prop :=
  cron.months.Has (Instant.getMonth z t + 1) ∧ cron.doms.Has (Instant.getDate z t) ∧
  cron.dows.Has (Instant.getDay z t) ∧ cron.hours.Has (Instant.getHours z t) ∧
  cron.minutes.Has (Instant.getMinutes z t)

instance : DecidablePred (Allows cron z) :=
  fun _ => inferInstanceAs (Decidable (_ ∧ _ ∧ _ ∧ _ ∧ _))

def advanceToNextMinute : ℤ :=
  t + 60 * 1000

-- The minute after the one of an instant.
def nextMinute : ℤ :=
  t - t % msPerMinute + msPerMinute

-- It returns `none` when it throws.
def getNextCronRun (cronExpression : String) (after : ℤ) : Option ℤ :=
  (Cron.parse cronExpression).bind fun cron =>
    search (Allows cron z) advanceToNextMinute maxIter (nextMinute after)

-- It returns `none` for an invalid date.
def clampToExecutionWindow (date : ℤ) (windowStart windowEnd : Option String) :
    Option ℤ :=
  match windowStart.filter (· ≠ ""), windowEnd.filter (· ≠ "") with
  | some windowStart, some windowEnd =>
    let start     := clockTime windowStart
    let startMins := clockMinutes start
    let endMins   := clockMinutes (clockTime windowEnd)
    let nowMins   := Number.fin (Instant.getHours z date * 60 + Instant.getMinutes z date)
    if startMins.le endMins ∧ startMins.le nowMins ∧ nowMins.le endMins then some date
    else if startMins.le endMins ∧ nowMins.lt startMins then Instant.setHours z date 0 start.1 start.2
    else Instant.setHours z date 1 start.1 start.2
  | _, _ => some date

variable {cron : Cron} {z : Zone} {t now : ℤ} {expression : String} {i : Nat}

theorem iterate_advance : advanceToNextMinute^[i] t = t + i * msPerMinute := by
  induction i generalizing t
  case zero => simp
  case succ i hi =>
    rw [Function.iterate_succ_apply, hi]
    simp only [advanceToNextMinute, msPerMinute]
    omega

-- A whole minute after `now` at which an expression allows a run.
structure IsRun (cron : Cron) (z : Zone) (now t : ℤ) : Prop where
  whole   : t % msPerMinute = 0
  later   : now < t
  allowed : Allows cron z t

-- The first run after `now`.
structure IsNext (cron : Cron) (z : Zone) (now t : ℤ) : Prop extends IsRun cron z now t where
  first : ∀ t' < t, ¬IsRun cron z now t'

-- If there is a run after `now` at all, then there is one in the next 366 days.
def WithinReach (cron : Cron) (z : Zone) (now : ℤ) : Prop :=
  (∃ t, IsRun cron z now t) → ∃ t, IsRun cron z now t ∧ t ≤ now + 366 * msPerDay

end Instants

end Scheduler
