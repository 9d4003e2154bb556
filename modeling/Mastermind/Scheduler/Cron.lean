import Mastermind.Jobs.Service

open Js Jobs

namespace Scheduler

-- `Number.parseInt(s, 10)` for a trimmed text
def parseInt (cs : List Char) : Option Int :=
  let (negative, cs) := scanSign cs
  match cs.takeWhile isDigit with
  | [] => none
  | ds => some (if negative then -digitsValue ds else digitsValue ds)

-- A field of a cron expression: all values, or the values of a set.
inductive CronField
  | any
  | set (values : List Nat)

namespace CronField

def Has : CronField → Nat → Prop
  | any, _        => True
  | set values, n => n ∈ values

instance {f : CronField} {n : Nat} : Decidable (f.Has n) := by
  cases f <;> unfold Has <;> infer_instance

-- A part of a field that is separated by commas. It throws for a part that is malformed.
def parsePart (min max : Nat) : List Char → Option (List Nat)
  | '*' :: '/' :: d :: ds =>
    if (d :: ds).all isDigit then
      let amount := digitsValue (d :: ds)
      if amount < 1 ∨ amount > max - min + 1 then none
      else some <| ((List.range (max - min + 1)).filter (· % amount = 0)).map (min + ·)
    else none
  | s =>
    (parseInt (trimChars s)).bind fun n =>
      if n < min ∨ n > max then none else some [n.toNat]

-- `parseSet`
def parse (min max : Nat) (s : List Char) : Option CronField :=
  if s = ['*'] then some any
  else ((s.splitOn ',').mapM (parsePart min max)).map fun parts => set parts.flatten

end CronField

structure Cron where
  minutes : CronField
  hours   : CronField
  doms    : CronField
  months  : CronField
  dows    : CronField

namespace Cron

def parse (cronExpression : String) : Option Cron :=
  match ((cronExpression.toList.splitOnP isSpace).filter (· ≠ [])) with
  | [minF, hourF, domF, monthF, dowF] => do
    let minutes ← CronField.parse 0 59 minF
    let hours   ← CronField.parse 0 23 hourF
    let doms    ← CronField.parse 1 31 domF
    let months  ← CronField.parse 1 12 monthF
    let dows    ← CronField.parse 0 6 dowF
    return { minutes, hours, doms, months, dows }
  | _ => none

-- The expression allows a run at a time.
def Allows (cron : Cron) (z : Zone) (t : Time) : Prop :=
  cron.months.Has (z.getMonth t + 1) ∧ cron.doms.Has (z.getDate t) ∧ cron.dows.Has (z.getDay t) ∧
  cron.hours.Has (z.getHours t) ∧ cron.minutes.Has (z.getMinutes t)

instance {cron : Cron} {z : Zone} {t : Time} : Decidable (cron.Allows z t) :=
  inferInstanceAs (Decidable (_ ∧ _ ∧ _ ∧ _ ∧ _))

-- The loop over the minutes from a time on.
def firstRun (cron : Cron) (z : Zone) : Nat → Time → Option Time
  | 0, _        => none
  | iter + 1, t => if cron.Allows z t then some t else firstRun cron z iter (t + msPerMinute)

end Cron

def maxIter : Nat := 366 * 24 * 60

-- It returns `none` when it throws.
def getNextCronRun (z : Zone) (cronExpression : String) (after : Time) : Option Time :=
  (Cron.parse cronExpression).bind fun cron =>
    cron.firstRun z maxIter (after - after % msPerMinute + msPerMinute)

-- `windowStart.split(':').map(Number)`
def clockTime (window : String) : Number × Number :=
  match (window.toList.splitOn ':').map fun part => stringToNumber (.ofList part) with
  | h :: m :: _ => (h, m)
  | [h]         => (h, .nan)
  | []          => (.nan, .nan)

def clockMinutes (time : Number × Number) : Number :=
  (time.1.mul (.fin 60)).add time.2

def clampToExecutionWindow (z : Zone) (date : Time) (windowStart windowEnd : Option String) : Date :=
  match windowStart.filter (· ≠ ""), windowEnd.filter (· ≠ "") with
  | some windowStart, some windowEnd =>
    let start     := clockTime windowStart
    let startMins := clockMinutes start
    let endMins   := clockMinutes (clockTime windowEnd)
    let nowMins   := Number.fin (z.getHours date * 60 + z.getMinutes date)
    if startMins.le endMins ∧ startMins.le nowMins ∧ nowMins.le endMins then .valid date
    else if startMins.le endMins ∧ nowMins.lt startMins then z.setHours date 0 start.1 start.2
    else z.setHours date 1 start.1 start.2
  | _, _ => .valid date

-- It returns `none` when the cron expression has no next run.
def computeNextRun (z : Zone) (s : Schedule) (after : Time) : Option Date :=
  (getNextCronRun z s.cronExpression after).map
    (clampToExecutionWindow z · s.executionWindowStart s.executionWindowEnd)

end Scheduler
