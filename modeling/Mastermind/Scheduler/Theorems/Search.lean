import Mastermind.Scheduler.Instants
import Mastermind.Script.Calendar

open Effects Js

namespace Scheduler.Instants

variable {cron : Cron} {z : Zone} {t now : ℤ} {expression : String} {i n : Nat}

theorem whole_iterate : (advanceToNextMinute^[i] (nextMinute now)) % msPerMinute = 0 := by
  rw [iterate_advance]
  simp only [nextMinute, msPerMinute]
  omega

theorem lt_iterate : now < advanceToNextMinute^[i] (nextMinute now) := by
  rw [iterate_advance]
  simp only [nextMinute, msPerMinute]
  omega

-- The search comes to every whole minute.
theorem exists_iterate (hw : t % msPerMinute = 0) (hl : now < t) :
    ∃ i : Nat, t = advanceToNextMinute^[i] (nextMinute now) := by
  refine ⟨((t - nextMinute now) / msPerMinute).toNat, ?_⟩
  rw [iterate_advance]
  simp only [nextMinute, msPerMinute] at *
  omega

theorem iterate_lt_iff {j : Nat} : advanceToNextMinute^[j] (nextMinute now) <
    advanceToNextMinute^[i] (nextMinute now) ↔ j < i := by
  simp only [iterate_advance, msPerMinute]
  omega

-- The search ends after 366 days.
theorem iterate_le_iff : advanceToNextMinute^[i] (nextMinute now) ≤ now + 366 * msPerDay ↔
    i < maxIter := by
  simp only [iterate_advance, nextMinute, maxIter, msPerMinute, msPerDay]
  omega

theorem search_isNext
    (h : search (Allows cron z) advanceToNextMinute n (nextMinute now) = some t) :
    IsNext cron z now t := by
  have ⟨i, _, ht, ha, hf⟩ := search_eq_some.mp h
  subst ht
  constructor
  case toIsRun => exact ⟨whole_iterate, lt_iterate, ha⟩
  case first =>
    intro t' ht hr
    have ⟨j, hj⟩ := exists_iterate hr.whole hr.later
    subst hj
    exact hf j (iterate_lt_iff.mp ht) hr.allowed

-- The search fails if and only if there is no run in the next 366 days.
theorem search_eq_none_iff :
    search (Allows cron z) advanceToNextMinute maxIter (nextMinute now) = none ↔
      ∀ t, IsRun cron z now t → now + 366 * msPerDay < t := by
  rw [search_eq_none]
  constructor
  case mp =>
    intro h t hr
    have ⟨i, hi⟩ := exists_iterate hr.whole hr.later
    subst hi
    by_contra hl
    exact h i (iterate_le_iff.mp (not_lt.mp hl)) hr.allowed
  case mpr =>
    intro h i hi ha
    have hl := h _ ⟨whole_iterate, lt_iterate, ha⟩
    exact absurd (iterate_le_iff.mpr hi) (not_le.mpr hl)

-- The search over the instants from the epoch on.
theorem search_natCast {t : Nat} :
    search (Allows cron z) advanceToNextMinute n t = (cron.firstRun z n t).map Nat.cast := by
  induction n generalizing t
  case zero => rfl
  case succ n hi =>
    have ha : Allows cron z t ↔ cron.Allows z t := Iff.rfl
    have hn : advanceToNextMinute (t : ℤ) = (t + msPerMinute : Nat) := by
      simp [advanceToNextMinute, msPerMinute]
    rw [search, Cron.firstRun, hn, hi]
    by_cases h : cron.Allows z t
    case pos => rw [if_pos h, if_pos (ha.mpr h), Option.map_some]
    case neg => rw [if_neg h, if_neg (mt ha.mp h)]

theorem getNextCronRun_natCast {t : Nat} :
    getNextCronRun z expression t = (Scheduler.getNextCronRun z expression t).map Nat.cast := by
  have hn : nextMinute t = (t - t % msPerMinute + msPerMinute : Nat) := by
    simp only [nextMinute, msPerMinute]
    omega
  rw [getNextCronRun, Scheduler.getNextCronRun]
  cases Cron.parse expression
  case none      => rfl
  case some cron => rw [Option.bind_some, Option.bind_some, hn, search_natCast]

-- The next run of an expression is the first whole minute at which it allows a run.
theorem getNextCronRun_isNext (hp : Cron.parse expression = some cron)
    (h : getNextCronRun z expression now = some t) : IsNext cron z now t := by
  rw [getNextCronRun, hp] at h
  exact search_isNext h

-- Midnight of the leap days.
def leapDays : Cron where
  minutes := .set [0]
  hours   := .set [0]
  doms    := .set [29]
  months  := .set [2]
  dows    := .any

theorem parse_leapDays : Cron.parse "0 0 29 2 *" = some leapDays :=
  rfl

-- From a minute and a half before the leap day of 2024.
theorem getNextCronRun_isNext_leapDay : IsNext leapDays 0 1709164710000 1709164800000 :=
  getNextCronRun_isNext parse_leapDays (by decide +kernel)

-- The expression allows runs on a day.
def AllowsDay (cron : Cron) (day : ℤ) : Prop :=
  cron.months.Has ((calendarDate day).month + 1) ∧ cron.doms.Has (calendarDate day).day ∧
  cron.dows.Has ((day + 4) % 7).toNat

instance : DecidablePred (AllowsDay cron) :=
  fun _ => inferInstanceAs (Decidable (_ ∧ _ ∧ _))

theorem IsRun.day (h : IsRun cron z now t) : AllowsDay cron (Instant.day z t) :=
  have ⟨hm, hd, hw, _⟩ := h.allowed
  ⟨hm, hd, hw⟩

-- A run can be moved to another day that the expression allows.
theorem allows_move {days : ℤ} (ha : Allows cron z t)
    (hd : AllowsDay cron (Instant.day z t + days)) : Allows cron z (t + days * msPerDay) := by
  have ⟨_, _, _, hh, hm⟩ := ha
  have ⟨hmonth, hdate, hday⟩ := hd
  have he : Instant.day z (t + days * msPerDay) = Instant.day z t + days := by
    simp only [Instant.day, Instant.clock, msPerDay, msPerMinute]
    omega
  have hh' : Instant.getHours z (t + days * msPerDay) = Instant.getHours z t := by
    simp only [Instant.getHours, Instant.clock, msPerDay, msPerMinute]
    omega
  have hm' : Instant.getMinutes z (t + days * msPerDay) = Instant.getMinutes z t := by
    simp only [Instant.getMinutes, Instant.clock, msPerDay, msPerMinute]
    omega
  exact ⟨by rwa [Instant.getMonth, he], by rwa [Instant.getDate, he], by rwa [Instant.getDay, he],
    hh'.symm ▸ hh, hm'.symm ▸ hm⟩

-- An expression that allows one of any 366 days is within reach.
theorem withinReach_of_days
    (h : ∀ t, IsRun cron z now t → ∀ n, ∃ d, n ≤ d ∧ d ≤ n + 365 ∧ AllowsDay cron d) :
    WithinReach cron z now := by
  intro ⟨t, hr⟩
  -- The first day on which the time of `t` comes after `now`.
  have ⟨d, hl, hu, hd⟩ := h t hr (Instant.day z t + (now - t) / msPerDay + 1)
  have ha : Allows cron z (t + (d - Instant.day z t) * msPerDay) :=
    allows_move hr.allowed (by rwa [add_sub_cancel])
  have hw := hr.whole
  generalize Instant.day z t = day at hl hu ha
  refine ⟨t + (d - day) * msPerDay, ⟨?_, ?_, ha⟩, ?_⟩ <;>
    simp only [msPerDay, msPerMinute] at * <;> omega

-- The search comes to every run of an expression that does not restrict the day of the month.
theorem withinReach_of_doms (hd : ∀ d, cron.doms.Has d) : WithinReach cron z now := by
  refine withinReach_of_days fun t hr n => ?_
  have ⟨hm, _, hw⟩ := hr.day
  have ⟨y, k, hy, hk⟩ := exists_yearStart (Instant.day z t + 719468)
  have hy : Instant.day z t = yearStart y + k - 719468 := by omega
  have hl : (calendarDate (Instant.day z t)).month < 12 := by
    rw [hy, calendarDate_yearStart hk]
    exact month_lt (le_of_lt_year hk)
  have ⟨d, hn, hn', hmonth, hday⟩ := exists_weekday_within (m := 4)
    (w := (Instant.day z t + 4) % 7) hl (by omega) n
  exact ⟨d, hn, hn', by rwa [hmonth], hd _, by rwa [hday]⟩

-- It comes to the runs of an expression that does not restrict the weekday and that allows another
-- day than leap days.
theorem withinReach_of_dows (hw : ∀ w, cron.dows.Has w) {day : ℤ} (ha : AllowsDay cron day)
    (hl : ¬((calendarDate day).month = 1 ∧ (calendarDate day).day = 29)) :
    WithinReach cron z now := by
  refine withinReach_of_days fun t hr n => ?_
  have ⟨y, k, hy, hk⟩ := exists_yearStart (day + 719468)
  have hc : calendarDate day = dateInYear y k := by
    rw [← calendarDate_yearStart hk]
    congr 1
    omega
  have hne : k ≠ 365 := by
    intro he
    rw [hc, he] at hl
    exact hl leapDay
  have hlt : k < 365 := by
    have := le_of_lt_year hk
    omega
  have ⟨y', hn, hn'⟩ := exists_yearStart_within hlt (n + 719468)
  have hy' := le_yearStart_succ (y := y')
  have ⟨hm, hd, _⟩ := ha
  rw [hc] at hm hd
  refine ⟨yearStart y' + k - 719468, by omega, by omega, ?_⟩
  rw [AllowsDay, calendarDate_yearStart (by omega)]
  exact ⟨hm, hd, hw _⟩

-- The search fails only if there is no run at all, provided that no run is further away than it looks.
theorem getNextCronRun_complete_iff (hp : Cron.parse expression = some cron) :
    (getNextCronRun z expression now = none → ∀ t, ¬IsRun cron z now t) ↔
      WithinReach cron z now := by
  have hs : getNextCronRun z expression now = none ↔
      ∀ t, IsRun cron z now t → now + 366 * msPerDay < t := by
    rw [getNextCronRun, hp]
    exact search_eq_none_iff
  rw [hs]
  constructor
  case mp =>
    intro h ⟨t, hr⟩
    by_contra hn
    exact h (fun t hr => not_le.mp fun hl => hn ⟨t, hr, hl⟩) t hr
  case mpr =>
    intro h hf t hr
    have ⟨t', hr', hl⟩ := h ⟨t, hr⟩
    exact absurd hl (not_le.mpr (hf t' hr'))

theorem getNextCronRun_complete_daily :
    ((getNextCronRun 60 "0 4 * * *" (-1) = none →
        ∀ t, ¬IsRun ((Cron.parse "0 4 * * *").get (by decide +kernel)) 60 (-1) t) ↔
      WithinReach ((Cron.parse "0 4 * * *").get (by decide +kernel)) 60 (-1)) ∧
    WithinReach ((Cron.parse "0 4 * * *").get (by decide +kernel)) 60 (-1) :=
  ⟨getNextCronRun_complete_iff (Option.some_get _).symm, withinReach_of_doms fun _ => trivial⟩

-- After the leap day of 2024 the search does not come to the one of 2028.
theorem getNextCronRun_stops_leapDays :
    (getNextCronRun 0 "0 0 29 2 *" 1740787200000 = none) ∧
    IsRun leapDays 0 1740787200000 1835395200000 := by
  constructor
  case left =>
    rw [getNextCronRun, parse_leapDays, Option.bind_some, search_eq_none_iff]
    intro t hr
    by_contra hl
    have hd : ∀ k < 367, ¬AllowsDay leapDays (20148 + (k : Nat)) := by decide +kernel
    have ha := hr.day
    have hn := hr.later
    have hk : Instant.day 0 t = 20148 + ((Instant.day 0 t - 20148).toNat : Nat) ∧
        (Instant.day 0 t - 20148).toNat < 367 := by
      simp only [Instant.day, Instant.clock, msPerDay, msPerMinute] at *
      omega
    rw [hk.left] at ha
    exact hd _ hk.right ha
  case right => exact ⟨by decide, by decide, by decide +kernel⟩

end Scheduler.Instants
