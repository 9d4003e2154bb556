import Mastermind.Script.Json

namespace Js

def padStart (n : Nat) (width : Nat) : String :=
  let digits := toString n
  String.ofList (List.replicate (width - digits.length) '0') ++ digits

-- A date of the Gregorian calendar. The months of `Date` are counted from zero.
structure CalendarDate where
  year  : Int
  month : Nat
  day   : Nat
  deriving DecidableEq

-- The date of a day that is counted from the epoch. Years start in March, so that a leap day is the
-- last day of its year, and repeat after 400 years.
def calendarDate (days : Int) : CalendarDate :=
  let z   := days + 719468
  let era := z / 146097
  let doe := (z % 146097).toNat
  let yoe := (doe - doe / 1460 + doe / 36524 - doe / 146096) / 365
  let doy := doe - (365 * yoe + yoe / 4 - yoe / 100)
  let mp  := (5 * doy + 2) / 153
  { year  := yoe + era * 400 + if mp < 10 then 0 else 1
    month := if mp < 10 then mp + 2 else mp - 10
    day   := doy - (153 * mp + 2) / 5 + 1 }

example : calendarDate 0 = ⟨1970, 0, 1⟩ := by decide

example : calendarDate 19782 = ⟨2024, 1, 29⟩ := by decide

def msPerMinute : Nat := 60000

def msPerDay : Nat := 86400000

-- A `Date` object. Dates after the `maxTime` are invalid.
inductive Date
  | invalid
  | valid (t : Nat)
  deriving DecidableEq

def maxTime : Nat := 8640000000000000

-- A time zone whose clocks are a fixed number of minutes ahead of UTC.
abbrev Zone := Int

-- The time on the clocks of a zone, in milliseconds.
def Zone.local (z : Zone) (t : Nat) : Int :=
  t + z * msPerMinute

namespace Zone

variable (z : Zone) (t : Nat)

def getMinutes : Nat :=
  (z.local t / msPerMinute % 60).toNat

def getHours : Nat :=
  (z.local t / 3600000 % 24).toNat

def getDate : Nat :=
  (calendarDate (z.local t / msPerDay)).day

def getMonth : Nat :=
  (calendarDate (z.local t / msPerDay)).month

-- The epoch was a Thursday.
def getDay : Nat :=
  ((z.local t / msPerDay + 4) % 7).toNat

-- `setHours(hours, minutes, 0, 0)`, after `days` have been added to the date. A date before the
-- epoch counts as the epoch.
def setHours (days : Nat) (hours minutes : Number) : Date :=
  match hours.trunc?, minutes.trunc? with
  | some h, some m =>
    let t := (z.local t / msPerDay + days) * msPerDay + h * 3600000 + (m - z) * msPerMinute
    if t.natAbs ≤ maxTime then .valid t.toNat else .invalid
  | _, _ => .invalid

end Zone

-- The years from 0 on have four digits.
def toISOString (t : Nat) : String :=
  let date := calendarDate (t / msPerDay)
  padStart date.year.toNat 4 ++ "-" ++ padStart (date.month + 1) 2 ++ "-" ++ padStart date.day 2 ++
  "T" ++ padStart (t / 3600000 % 24) 2 ++ ":" ++ padStart (t / msPerMinute % 60) 2 ++ ":" ++
  padStart (t / 1000 % 60) 2 ++ "." ++ padStart (t % 1000) 3 ++ "Z"

example : toISOString 1709210096007 = "2024-02-29T12:34:56.007Z" := by decide

end Js
