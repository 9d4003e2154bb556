import Mastermind.Script.Date

namespace Js

-- The first day of a year that starts in March, counted from the first day of the year zero.
def yearStart (y : ℤ) : ℤ :=
  365 * y + y / 4 - y / 100 + y / 400

-- The date of a day of a year that starts in March.
def dateInYear (y : ℤ) (k : Nat) : CalendarDate :=
  let mp := (5 * k + 2) / 153
  { year  := y + if mp < 10 then 0 else 1
    month := if mp < 10 then mp + 2 else mp - 10
    day   := k - (153 * mp + 2) / 5 + 1 }

variable {y n : ℤ} {k : Nat}

theorem yearStart_succ_le : yearStart (y + 1) ≤ yearStart y + 366 := by
  simp only [yearStart]
  omega

theorem le_yearStart_succ : yearStart y + 365 ≤ yearStart (y + 1) := by
  simp only [yearStart]
  omega

-- The year of a day in an era of 400 years, which has `c` centuries, `q` times four years and `s`
-- years before it.
theorem yearOfEra {c q s doe : Nat} (hc : c < 4) (hq : q < 25) (hs : s < 4) (hk : k ≤ 365)
    (hl : k = 365 → s = 3 ∧ (q = 24 → c = 3)) (hd : doe = 36524 * c + 1461 * q + 365 * s + k) :
    (doe - doe / 1460 + doe / 36524 - doe / 146096) / 365 = 100 * c + 4 * q + s := by
  have he : doe / 36524 - doe / 146096 = c := by omega
  have hf : doe / 146096 ≤ doe / 36524 := by omega
  have hg : doe / 1460 = 25 * c + q ∨ (doe / 1460 = 25 * c + q + 1 ∧ 0 < k) := by omega
  have hh : k = 365 → doe / 1460 = 25 * c + q + 1 := by omega
  omega

-- The parts of a year: its era of 400 years, its century, its four years and the year in these.
theorem exists_parts (y : ℤ) : ∃ (era : ℤ) (c q s : Nat), c < 4 ∧ q < 25 ∧ s < 4 ∧
    y = 400 * era + (100 * c + 4 * q + s : Nat) := by
  have hl : (y % 400).toNat < 400 := by omega
  have hy : y = 400 * (y / 400) + (y % 400).toNat := by omega
  generalize (y % 400).toNat = r at hl hy
  have hr : r = 100 * (r / 100) + 4 * (r % 100 / 4) + r % 100 % 4 := by omega
  refine ⟨y / 400, r / 100, r % 100 / 4, r % 100 % 4, by omega, by omega, by omega, ?_⟩
  rwa [← hr]

theorem yearStart_parts {era : ℤ} {c q s : Nat} (hc : c < 4) (hq : q < 25) (hs : s < 4) :
    yearStart (400 * era + (100 * c + 4 * q + s : Nat)) =
      146097 * era + (36524 * c + 1461 * q + 365 * s : Nat) := by
  simp only [yearStart]
  omega

-- Every day is in a year.
theorem exists_yearStart (n : ℤ) :
    ∃ (y : ℤ) (k : Nat), n = yearStart y + k ∧ (k : ℤ) < yearStart (y + 1) - yearStart y := by
  have hle : ∃ y : ℤ, yearStart y ≤ n := ⟨-n.natAbs, by simp only [yearStart]; omega⟩
  have hlt : ∃ b : ℤ, ∀ y : ℤ, yearStart y ≤ n → y ≤ b :=
    ⟨n.natAbs, fun y hy => by simp only [yearStart] at hy; omega⟩
  have ⟨y, hy, hm⟩ := Int.exists_greatest_of_bdd hlt hle
  have hn : n < yearStart (y + 1) := by
    by_contra h
    have := hm _ (not_lt.mp h)
    omega
  exact ⟨y, (n - yearStart y).toNat, by omega, by omega⟩

theorem calendarDate_yearStart (h : (k : ℤ) < yearStart (y + 1) - yearStart y) :
    calendarDate (yearStart y + k - 719468) = dateInYear y k := by
  have ⟨era, c, q, s, hc, hq, hs, hy⟩ := exists_parts y
  have hk : k ≤ 365 := by
    have := yearStart_succ_le (y := y)
    omega
  have hl : k = 365 → s = 3 ∧ (q = 24 → c = 3) := by
    intro hk
    simp only [yearStart] at h
    omega
  have hz : yearStart y + k - 719468 + 719468 =
      146097 * era + (36524 * c + 1461 * q + 365 * s + k : Nat) := by
    rw [hy, yearStart_parts hc hq hs]
    omega
  have hyoe := yearOfEra hc hq hs hk hl rfl
  have hdoy : 36524 * c + 1461 * q + 365 * s + k -
      (365 * (100 * c + 4 * q + s) + (100 * c + 4 * q + s) / 4 - (100 * c + 4 * q + s) / 100) = k := by
    omega
  have hd : 36524 * c + 1461 * q + 365 * s + k < 146097 := by omega
  generalize 36524 * c + 1461 * q + 365 * s + k = doe at hz hyoe hdoy hd
  have hera : (146097 * era + (doe : ℤ)) / 146097 = era := by omega
  have hdoe : ((146097 * era + (doe : ℤ)) % 146097).toNat = doe := by omega
  have hy : ((100 * c + 4 * q + s : Nat) : ℤ) + era * 400 = y := by omega
  simp only [calendarDate, dateInYear, hz, hera, hdoe, hyoe, hdoy, hy]

theorem le_of_lt_year (h : (k : ℤ) < yearStart (y + 1) - yearStart y) : k ≤ 365 := by
  have := yearStart_succ_le (y := y)
  omega

theorem month_lt (hk : k ≤ 365) : (dateInYear y k).month < 12 := by
  have : (5 * k + 2) / 153 ≤ 11 := by omega
  simp only [dateInYear]
  split <;> omega

-- The last day of a leap year that starts in March is the leap day.
theorem leapDay : (dateInYear y 365).month = 1 ∧ (dateInYear y 365).day = 29 :=
  ⟨rfl, rfl⟩

-- Every day of a year but the leap day comes again within each 366 days.
theorem exists_yearStart_within (hk : k < 365) (n : ℤ) :
    ∃ y : ℤ, n ≤ yearStart y + k ∧ yearStart y + k ≤ n + 365 := by
  have ⟨y, j, hn, hj⟩ := exists_yearStart n
  have := yearStart_succ_le (y := y)
  by_cases h : j ≤ k
  case pos => exact ⟨y, by omega, by omega⟩
  case neg => exact ⟨y + 1, by omega, by omega⟩

-- The first 28 days of a month.
theorem month_dateInYear {mp j : Nat} (hj : j < 28) :
    (dateInYear y ((153 * mp + 2) / 5 + j)).month = if mp < 10 then mp + 2 else mp - 10 := by
  have h : (5 * ((153 * mp + 2) / 5 + j) + 2) / 153 = mp := by omega
  simp only [dateInYear, h]

-- One of seven days in a row is a given weekday.
theorem exists_weekday {m w : ℤ} (hw : 0 ≤ w ∧ w < 7) (b : ℤ) :
    ∃ d, b ≤ d ∧ d ≤ b + 6 ∧ (d + m) % 7 = w :=
  ⟨b + (w - (b + m)) % 7, by omega, by omega, by omega⟩

-- Each weekday comes in each month, at least once in any 366 days.
theorem exists_weekday_within {m w : ℤ} {month : Nat} (hm : month < 12) (hw : 0 ≤ w ∧ w < 7) (n : ℤ) :
    ∃ d, n ≤ d ∧ d ≤ n + 365 ∧ (calendarDate d).month = month ∧ (d + m) % 7 = w := by
  have ⟨mp, hmp, hmonth⟩ : ∃ mp < 12, (if mp < 10 then mp + 2 else mp - 10) = month :=
    ⟨if month < 2 then month + 10 else month - 2, by split <;> omega,
      by split <;> split <;> omega⟩
  have hk : (153 * mp + 2) / 5 + 13 < 365 := by omega
  have ⟨y, hl, hu⟩ := exists_yearStart_within hk (n + 719468)
  -- Seven days of the month that start on its eighth day, or on `n` if this is later.
  let first := yearStart y + ((153 * mp + 2) / 5 : Nat) - 719468
  have ⟨d, hd, hd', hr⟩ := exists_weekday (m := m) hw (max n (first + 7))
  have ⟨j, hj, hf⟩ : ∃ j : Nat, j < 28 ∧ d = first + j := ⟨(d - first).toNat, by omega, by omega⟩
  refine ⟨d, by omega, by omega, ?_, hr⟩
  have hy := le_yearStart_succ (y := y)
  have hs : first + j = yearStart y + ((153 * mp + 2) / 5 + j : Nat) - 719468 := by omega
  rw [hf, hs, calendarDate_yearStart (by omega), month_dateInYear hj, hmonth]

end Js
