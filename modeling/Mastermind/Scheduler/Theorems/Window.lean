import Mastermind.Scheduler.Instants
import Mastermind.Script.Rounding

open Js

namespace Scheduler

-- A valid time of the form `HH:mm`.
structure ClockTime where
  hour   : Fin 24
  minute : Fin 60

namespace ClockTime

def text (c : ClockTime) : String :=
  padStart c.hour 2 ++ ":" ++ padStart c.minute 2

def minutes (c : ClockTime) : Nat :=
  c.hour * 60 + c.minute

end ClockTime

-- The time of day at an instant, to the minute.
def minuteOfDay (z : Zone) (t : ℤ) : Nat :=
  Instant.getHours z t * 60 + Instant.getMinutes z t

-- An execution window. It goes over midnight if it starts later than it ends.
structure Window where
  start  : ClockTime
  finish : ClockTime

namespace Window

variable (w : Window) (z : Zone) (t : ℤ)

-- A minute of the day lies in the window.
def Has (m : Nat) : Prop :=
  if w.start.minutes ≤ w.finish.minutes then w.start.minutes ≤ m ∧ m ≤ w.finish.minutes
  else w.start.minutes ≤ m ∨ m ≤ w.finish.minutes

instance {m : Nat} : Decidable (w.Has m) :=
  inferInstanceAs (Decidable (ite _ _ _))

def Inside : Prop :=
  w.Has (minuteOfDay z t)

instance : Decidable (w.Inside z t) :=
  inferInstanceAs (Decidable (w.Has _))

-- The window opens at an instant.
def Opens : Prop :=
  Instant.clock z t % msPerDay = w.start.minutes * msPerMinute

def clamp : Option ℤ :=
  Instants.clampToExecutionWindow z t (some w.start.text) (some w.finish.text)

-- The clamped date is the first moment from the date on that lies in the window.
structure Clamped (r : ℤ) : Prop where
  inside  : w.Inside z t → r = t
  outside : ¬w.Inside z t → IsLeast {t' | t < t' ∧ w.Opens z t'} r
  le      : t ≤ r
  lands   : w.Inside z r
  again   : w.clamp z r = some r

-- The start of the window on a day.
def startOn (day : ℤ) : ℤ :=
  day * msPerDay + (w.start.minutes - z) * msPerMinute

end Window

variable {c : ClockTime} {w : Window} {z : Zone} {t : ℤ}

-- What is checked for each number of a time.
theorem padStart_clock : ∀ n < 60, stringToNumber (padStart n 2) = .fin n ∧
    ((padStart n 2).toList.all fun c => !(c == ':')) = true := by
  decide +kernel

theorem padStart_noColon : ∀ n < 60, ∀ c ∈ (padStart n 2).toList, (c == ':') = false := by
  intro n hn c hc
  simpa using List.all_eq_true.mp (padStart_clock n hn).right c hc

theorem ClockTime.minutes_lt : c.minutes < 1440 := by
  have := c.hour.isLt
  have := c.minute.isLt
  simp only [ClockTime.minutes]
  omega

theorem ClockTime.text_ne : c.text ≠ "" := by
  intro h
  have hm : ':' ∈ c.text.toList := by simp [ClockTime.text]
  rw [h] at hm
  nomatch hm

theorem clockTime_text : clockTime c.text = (.fin (c.hour : Nat), .fin (c.minute : Nat)) := by
  have hh : (c.hour : Nat) < 60 := c.hour.isLt.trans (by decide)
  have hm : (c.minute : Nat) < 60 := c.minute.isLt
  have hs : c.text.toList.splitOn ':' = [(padStart c.hour 2).toList, (padStart c.minute 2).toList] := by
    have ht : c.text.toList = (padStart c.hour 2).toList ++ ':' :: (padStart c.minute 2).toList := by
      simp [ClockTime.text]
    rw [ht, List.splitOn_eq_splitOnP,
      List.splitOnP_append_cons_of_forall_mem (padStart_noColon _ hh) ':' rfl,
      List.splitOnP_eq_singleton (padStart_noColon _ hm)]
  rw [clockTime, hs]
  simp only [List.map_cons, List.map_nil, String.ofList_toList, (padStart_clock _ hh).left,
    (padStart_clock _ hm).left]

theorem clockMinutes_text : clockMinutes (clockTime c.text) = .fin (c.minutes : Nat) := by
  have hm : c.minutes < 2 ^ 53 := ClockTime.minutes_lt.trans (by decide)
  have hh : (c.hour : Nat) * 60 < 2 ^ 53 := (Nat.le_add_right _ _).trans_lt hm
  have h₁ : ((c.hour : Nat) : ℚ) * 60 = ((c.hour * 60 : Nat) : ℚ) := by
    push_cast
    rfl
  have h₂ : ((c.hour * 60 : Nat) : ℚ) + ((c.minute : Nat) : ℚ) = (c.minutes : ℚ) := by
    rw [ClockTime.minutes]
    push_cast
    rfl
  rw [clockTime_text, clockMinutes, Number.mul, h₁, Number.round_natCast hh, Number.add, h₂,
    Number.round_natCast hm]

theorem setHours_clockTime {days : Nat} : Instant.setHours z t days (.fin (w.start.hour : Nat))
    (.fin (w.start.minute : Nat)) = some (w.startOn z (Instant.day z t + days)) := by
  have ht (n : Nat) : Number.trunc? (.fin n) = some (n : ℤ) := by simp [Number.trunc?]
  simp only [Instant.setHours, ht, Window.startOn, ClockTime.minutes, msPerDay, msPerMinute,
    Option.some.injEq]
  omega

theorem Window.clamp_eq : w.clamp z t = some (
    if w.start.minutes ≤ w.finish.minutes ∧ w.start.minutes ≤ minuteOfDay z t ∧
      minuteOfDay z t ≤ w.finish.minutes then t
    else if w.start.minutes ≤ w.finish.minutes ∧ minuteOfDay z t < w.start.minutes then
      w.startOn z (Instant.day z t)
    else w.startOn z (Instant.day z t + 1)) := by
  have hn : ((Instant.getHours z t : ℚ) * 60 + Instant.getMinutes z t) = (minuteOfDay z t : ℚ) := by
    rw [minuteOfDay]
    push_cast
    rfl
  have hs : (some w.start.text).filter (· ≠ "") = some w.start.text := by
    simp [ClockTime.text_ne]
  have he : (some w.finish.text).filter (· ≠ "") = some w.finish.text := by
    simp [ClockTime.text_ne]
  have hz := @setHours_clockTime w z t 0
  have ho := @setHours_clockTime w z t 1
  simp only [clamp, Instants.clampToExecutionWindow, hs, he, clockMinutes_text, hn]
  simp only [clockTime_text, hz, ho, Number.le, Number.lt, decide_eq_true_eq, Nat.cast_le,
    Bool.not_eq_true', decide_eq_false_iff_not, not_le, Nat.cast_zero, add_zero, Nat.cast_one, apply_ite some]

theorem setHours_natCast {t days : Nat} {hours minutes : Number} {r : ℤ}
    (h : Instant.setHours z t days hours minutes = some r) (hn : 0 ≤ r) (hl : r ≤ maxTime) :
    z.setHours t days hours minutes = .valid r.toNat := by
  have hr : r.natAbs ≤ maxTime := by omega
  unfold Instant.setHours at h
  unfold Zone.setHours
  cases hh : hours.trunc? <;> cases hm : minutes.trunc? <;> simp only [hh, hm] at h ⊢
  case some.some => cases h; exact if_pos hr
  all_goals nomatch h

-- The window on the dates from the epoch on.
theorem clampToExecutionWindow_natCast {t : Nat} {windowStart windowEnd : Option String} {r : ℤ}
    (h : Instants.clampToExecutionWindow z t windowStart windowEnd = some r) (hn : 0 ≤ r)
    (hl : r ≤ maxTime) : clampToExecutionWindow z t windowStart windowEnd = .valid r.toNat := by
  unfold Instants.clampToExecutionWindow at h
  unfold clampToExecutionWindow
  cases hs : windowStart.filter (· ≠ "") <;> cases he : windowEnd.filter (· ≠ "") <;>
    simp only [hs, he] at h ⊢
  case some.some =>
    have hh : Instant.getHours z t = z.getHours t := rfl
    have hm : Instant.getMinutes z t = z.getMinutes t := rfl
    rw [hh, hm] at h
    split at h
    case isTrue hw => cases h; exact if_pos hw
    case isFalse hw =>
      rw [if_neg hw]
      split at h
      case isTrue hb  => exact (if_pos hb).trans (setHours_natCast h hn hl)
      case isFalse hb => exact (if_neg hb).trans (setHours_natCast h hn hl)
  all_goals
    cases h
    rfl

-- The time of day of an instant.
theorem minuteOfDay_eq : minuteOfDay z t = (Instant.clock z t % msPerDay / msPerMinute).toNat := by
  simp only [minuteOfDay, Instant.getHours, Instant.getMinutes, msPerDay, msPerMinute]
  omega

theorem Window.clock_startOn {day : ℤ} :
    Instant.clock z (w.startOn z day) = day * msPerDay + w.start.minutes * msPerMinute := by
  simp only [startOn, Instant.clock, msPerDay, msPerMinute]
  omega

theorem Window.minuteOfDay_startOn {day : ℤ} : minuteOfDay z (w.startOn z day) = w.start.minutes := by
  have hs := w.start.minutes_lt
  rw [minuteOfDay_eq, clock_startOn]
  simp only [msPerDay, msPerMinute]
  omega

theorem Window.opens_startOn {day : ℤ} : w.Opens z (w.startOn z day) := by
  have hs := w.start.minutes_lt
  rw [Opens, clock_startOn]
  simp only [msPerDay, msPerMinute]
  omega

-- A window opens at its starts only.
theorem Window.Opens.eq_startOn (h : w.Opens z t) : t = w.startOn z (Instant.day z t) := by
  simp only [Opens, Instant.clock, startOn, Instant.day, msPerDay, msPerMinute] at h ⊢
  omega

theorem Window.startOn_le_iff {d₁ d₂ : ℤ} : w.startOn z d₁ ≤ w.startOn z d₂ ↔ d₁ ≤ d₂ := by
  simp only [startOn, msPerDay, msPerMinute]
  omega

-- The starts of the window that come after an instant.
theorem Window.lt_startOn_iff {day : ℤ} : t < w.startOn z day ↔
    Instant.day z t < day ∨ (Instant.day z t = day ∧ minuteOfDay z t < w.start.minutes) := by
  have hs := w.start.minutes_lt
  rw [minuteOfDay_eq]
  simp only [startOn, Instant.clock, Instant.day, msPerDay, msPerMinute]
  omega

-- The start on a day is the first one after an instant if it comes after it and the day is that of
-- the instant, or the one after it and the start on the day of the instant has passed.
theorem Window.isLeast_startOn {day : ℤ} (ht : t < w.startOn z day)
    (hd : day = Instant.day z t ∨
      (day = Instant.day z t + 1 ∧ w.start.minutes ≤ minuteOfDay z t)) :
    IsLeast {t' | t < t' ∧ w.Opens z t'} (w.startOn z day) := by
  refine ⟨⟨ht, opens_startOn⟩, fun t' ⟨hl, ho⟩ => ?_⟩
  rw [ho.eq_startOn] at hl ⊢
  have hl := lt_startOn_iff.mp hl
  exact startOn_le_iff.mpr (by omega)

theorem Window.clamped_of_le (h : w.start.minutes ≤ w.finish.minutes) :
    ∃ r, w.clamp z t = some r ∧ w.Clamped z t r := by
  have hh (m : Nat) : w.Has m ↔ w.start.minutes ≤ m ∧ m ≤ w.finish.minutes := by
    rw [Has, if_pos h]
  have hi (t : ℤ) (hi : w.Inside z t) : w.clamp z t = some t := by
    rw [clamp_eq, if_pos ⟨h, (hh _).mp hi⟩]
  by_cases hin : w.Inside z t
  case pos =>
    exact ⟨t, hi t hin, fun _ => rfl, fun hn => absurd hin hn, le_rfl, hin, hi t hin⟩
  case neg =>
    have ⟨day, hc, ht, hd⟩ : ∃ day, w.clamp z t = some (w.startOn z day) ∧ t < w.startOn z day ∧
        (day = Instant.day z t ∨ (day = Instant.day z t + 1 ∧ w.start.minutes ≤ minuteOfDay z t)) := by
      rw [clamp_eq, if_neg fun hn => hin ((hh _).mpr hn.right)]
      by_cases hs : minuteOfDay z t < w.start.minutes
      case pos =>
        rw [if_pos ⟨h, hs⟩]
        exact ⟨_, rfl, lt_startOn_iff.mpr (.inr ⟨rfl, hs⟩), .inl rfl⟩
      case neg =>
        rw [if_neg fun hn => hs hn.right]
        exact ⟨_, rfl, lt_startOn_iff.mpr (.inl (Int.lt_add_one_of_le le_rfl)), .inr ⟨rfl, not_lt.mp hs⟩⟩
    have hr : w.Inside z (w.startOn z day) := by
      rw [Inside, minuteOfDay_startOn]
      exact (hh _).mpr ⟨le_rfl, h⟩
    exact ⟨_, hc, fun hn => absurd hn hin, fun _ => isLeast_startOn ht hd, ht.le, hr, hi _ hr⟩

-- A window over midnight is entered on the next day only.
theorem Window.not_clamped_of_lt (h : w.finish.minutes < w.start.minutes) {r : ℤ}
    (hc : w.clamp z t = some r) : ¬w.Clamped z t r := by
  intro hw
  rw [clamp_eq, if_neg fun hn => absurd hn.left (not_le.mpr h),
    if_neg fun hn => absurd hn.left (not_le.mpr h)] at hc
  cases hc
  by_cases hin : w.Inside z t
  case pos =>
    have ht : t < w.startOn z (Instant.day z t + 1) :=
      lt_startOn_iff.mpr (.inl (Int.lt_add_one_of_le le_rfl))
    exact ht.ne' (hw.inside hin)
  case neg =>
    have hs : minuteOfDay z t < w.start.minutes := by
      by_contra hs
      refine hin ?_
      rw [Inside, Has, if_neg (not_le.mpr h)]
      exact .inl (not_lt.mp hs)
    have hl := (hw.outside hin).right ⟨lt_startOn_iff.mpr (.inr ⟨rfl, hs⟩), opens_startOn⟩
    have := startOn_le_iff.mp hl
    omega

-- Clamping leads to the next moment in the window if and only if the window does not go over midnight.
theorem clampToExecutionWindow_clamped_iff (w : Window) (z : Zone) (t : ℤ) :
    (∃ r, w.clamp z t = some r ∧ w.Clamped z t r) ↔ w.start.minutes ≤ w.finish.minutes := by
  constructor
  case mp =>
    intro ⟨r, hc, hw⟩
    by_contra h
    exact Window.not_clamped_of_lt (not_le.mp h) hc hw
  case mpr => exact Window.clamped_of_le

-- From ten in the evening to six in the morning.
def overnight : Window where
  start  := ⟨22, 0⟩
  finish := ⟨6, 0⟩

-- Three o'clock lies in the window, but it is moved to the evening of the next day.
theorem clampToExecutionWindow_leaves_overnight :
    overnight.Inside 0 10800000 ∧ overnight.clamp 0 10800000 = some 165600000 := by
  decide +kernel

end Scheduler
