import Mastermind.Scheduler.Cron

open Js Jobs

namespace Scheduler

variable {z : Zone} {cron : Cron} {now t m : Nat} {expression : String}

theorem Cron.firstRun_eq_some {iter : Nat} :
    cron.firstRun z iter t = some m ↔
      ∃ i < iter, m = t + i * msPerMinute ∧ cron.Allows z m ∧
        ∀ j < i, ¬cron.Allows z (t + j * msPerMinute) := by
  induction iter generalizing t
  case zero         => simp [firstRun]
  case succ iter hi =>
    rw [firstRun]
    split
    case isTrue ha =>
      constructor
      case mp =>
        rintro ⟨⟩
        exact ⟨0, Nat.succ_pos _, by simp, ha, fun _ hj => nomatch hj⟩
      case mpr =>
        rintro ⟨_ | i, _, rfl, _, hf⟩
        case zero => simp
        case succ => exact absurd (by simpa using ha) (hf 0 (Nat.succ_pos _))
    case isFalse ha =>
      have hs (j : Nat) : t + msPerMinute + j * msPerMinute = t + (j + 1) * msPerMinute := by
        rw [Nat.succ_mul]; omega
      simp only [hi, hs]
      constructor
      case mp =>
        intro ⟨i, hl, hm, hm', hf⟩
        refine ⟨i + 1, Nat.succ_lt_succ hl, hm, hm', fun j hj => ?_⟩
        cases j
        case zero   => simpa using ha
        case succ j => exact hf j (Nat.lt_of_succ_lt_succ hj)
      case mpr =>
        rintro ⟨_ | i, hl, hm, hm', hf⟩
        case zero => exact absurd (by simpa [hm] using hm') ha
        case succ =>
          exact ⟨i, Nat.lt_of_succ_lt_succ hl, hm, hm', fun j hj => hf (j + 1) (Nat.succ_lt_succ hj)⟩

-- The first full minute after `now` at which an expression allows a run, not more than 366 days away.
structure Cron.IsNext (cron : Cron) (z : Zone) (now t : Nat) : Prop where
  whole   : t % msPerMinute = 0
  later   : now < t
  near    : t / msPerMinute ≤ now / msPerMinute + maxIter
  allowed : cron.Allows z t
  first   : ∀ t', now < t' → t' < t → t' % msPerMinute = 0 → ¬cron.Allows z t'

theorem Cron.firstRun_iff :
    cron.firstRun z maxIter (now - now % msPerMinute + msPerMinute) = some t ↔ cron.IsNext z now t := by
  rw [firstRun_eq_some]
  constructor
  case mp =>
    rintro ⟨i, hi, rfl, ha, hf⟩
    refine ⟨?_, ?_, ?_, ha, fun t' hn ht hw => ?_⟩ <;> simp only [msPerMinute] at *
    case refine_1 => omega
    case refine_2 => omega
    case refine_3 => omega
    case refine_4 =>
      have := hf ((t' - (now - now % 60000 + 60000)) / 60000) (by omega)
      rwa [show now - now % 60000 + 60000 + (t' - (now - now % 60000 + 60000)) / 60000 * 60000 = t' by
        omega] at this
  case mpr =>
    intro h
    have hw := h.whole
    have hl := h.later
    have hn := h.near
    simp only [msPerMinute] at *
    refine ⟨(t - (now - now % 60000 + 60000)) / 60000, by omega, by omega, h.allowed, fun j hj => ?_⟩
    exact h.first _ (by omega) (by omega) (by simp only [msPerMinute]; omega)

def IsNextRun (z : Zone) (expression : String) (now t : Nat) : Prop :=
  ∃ cron, Cron.parse expression = some cron ∧ cron.IsNext z now t

theorem getNextCronRun_eq_some :
    getNextCronRun z expression now = some t ↔ IsNextRun z expression now t := by
  simp [getNextCronRun, IsNextRun, Option.bind_eq_some_iff, Cron.firstRun_iff]

theorem lt_of_getNextCronRun (h : getNextCronRun z expression now = some t) : now < t := by
  have ⟨_, _, h⟩ := getNextCronRun_eq_some.mp h
  exact h.later

theorem computeNextRun_noWindow {s : Schedule} (h : s.executionWindowStart = none) :
    computeNextRun z s now = (getNextCronRun z s.cronExpression now).map .valid := by
  simp only [computeNextRun, clampToExecutionWindow, h, Option.filter_none]

-- A server is backed up every morning at four.
def daily : Schedule where
  orgId            := 0
  serverInstanceId := 0
  cronExpression   := "0 4 * * *"
  jobType          := "BACKUP"
  payload          := none
  enabled          := true
  nextRunAt        := some 1709179200000

end Scheduler
