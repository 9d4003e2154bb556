import Mastermind.Script.Json

namespace Js.Number

theorem pow2_neg (k : Nat) : pow2 (-(k : ℤ)) = 1 / 2 ^ k := by
  rw [pow2]
  split
  case isTrue h =>
    have hk : k = 0 := by omega
    simp [hk]
  case isFalse =>
    rw [neg_neg, Int.toNat_natCast, Rat.mkRat_eq_div]
    norm_num

theorem natCast_lt_pow2 {n a b : Nat} (h : n < 2 ^ a) (hl : a ≤ b) : (n : ℚ) < pow2 b := by
  rw [pow2, if_pos (Int.natCast_nonneg b), Int.toNat_natCast]
  exact_mod_cast h.trans_le (Nat.pow_le_pow_right (by decide) hl)

theorem roundHalfEven_intCast (n : ℤ) : roundHalfEven n = n := by
  have h : (0 : ℚ) < mkRat 1 2 := by decide +kernel
  simp only [roundHalfEven, sub_self, Rat.floor_intCast, if_pos h]

theorem exponent_natCast_le {n : Nat} (h : n < 2 ^ 53) (hn : n ≠ 0) : exponent n ≤ 52 := by
  have hl : n.log2 < 53 := (Nat.log2_lt hn).mpr h
  have he : exponent n = (n.log2 : ℤ) ∨ exponent n = (n.log2 : ℤ) - 1 := by
    have hd : (1 : Nat).log2 = 0 := by decide
    simp only [exponent, Rat.num_natCast, Rat.den_natCast, Int.toNat_natCast, hd]
    split
    case isTrue  => exact .inl (by simp)
    case isFalse => exact .inr (by simp)
  omega

-- Integers of up to 53 bits are doubles.
theorem round_natCast {n : Nat} (h : n < 2 ^ 53) : round n = fin n := by
  by_cases hn : n = 0
  case pos => subst hn; rfl
  case neg =>
    have hp : (0 : ℚ) < n := by exact_mod_cast Nat.pos_of_ne_zero hn
    have he := exponent_natCast_le h hn
    have ⟨k, hk⟩ : ∃ k : Nat, max (exponent n - 52) (-1074) = -(k : ℤ) :=
      ⟨(-max (exponent n - 52) (-1074)).toNat, by omega⟩
    have hm : (n : ℚ) / (1 / 2 ^ k) = ((n * 2 ^ k : ℤ) : ℚ) := by
      push_cast
      rw [div_div_eq_mul_div, div_one]
    have hv : ((n * 2 ^ k : ℤ) : ℚ) * (1 / 2 ^ k) = n := by
      push_cast
      rw [mul_one_div, mul_div_assoc, div_self (by positivity), mul_one]
    have hlt : (n : ℚ) < pow2 1024 := natCast_lt_pow2 h (by decide)
    rw [round, if_neg hp.ne', if_neg hp.not_gt, roundPositive]
    simp only [hk, pow2_neg, hm, roundHalfEven_intCast, hv, if_pos hlt]

theorem floor_le_roundHalfEven (q : ℚ) : q.floor ≤ roundHalfEven q := by
  simp only [roundHalfEven]
  split
  case isTrue => exact le_rfl
  case isFalse =>
    split
    case isTrue => exact Int.le_of_lt (Int.lt_succ _)
    case isFalse =>
      split
      case isTrue  => exact le_rfl
      case isFalse => exact Int.le_of_lt (Int.lt_succ _)

theorem pow2_natCast (k : Nat) : pow2 k = 2 ^ k := by
  rw [pow2, if_pos (Int.natCast_nonneg k), Int.toNat_natCast]
  push_cast
  rfl

theorem exponent_natCast {n : Nat} (hn : n ≠ 0) : exponent n = n.log2 := by
  have hd : (1 : Nat).log2 = 0 := by decide
  have hl : pow2 (n.log2 : ℤ) ≤ n := by
    rw [pow2_natCast]
    exact_mod_cast Nat.log2_self_le hn
  simp only [exponent, Rat.num_natCast, Rat.den_natCast, Int.toNat_natCast, hd, Nat.cast_zero,
    sub_zero, if_pos hl]

-- Larger integers are rounded to integers that have more than 53 bits, too.
theorem round_natCast_of_le {n : Nat} (h : 2 ^ 53 ≤ n) :
    round n = inf false ∨ ∃ v : Nat, 2 ^ 53 ≤ v ∧ round n = fin v := by
  have hn : n ≠ 0 := by
    rintro rfl
    exact absurd h (by decide)
  have hp : (0 : ℚ) < n := by exact_mod_cast Nat.pos_of_ne_zero hn
  have hl : 53 ≤ n.log2 := (Nat.le_log2 hn).mpr h
  have ⟨k, hk⟩ : ∃ k, n.log2 = k + 53 := ⟨n.log2 - 53, by omega⟩
  have he : max (exponent n - 52) (-1074) = ((k + 1 : Nat) : ℤ) := by
    rw [exponent_natCast hn, hk]
    omega
  have hx : (2 ^ 52 : ℤ) ≤ roundHalfEven (n / 2 ^ (k + 1)) := by
    refine le_trans (Rat.le_floor_iff.mpr ?_) (floor_le_roundHalfEven _)
    have hs := Nat.log2_self_le hn
    have hm : 2 ^ 52 * 2 ^ (k + 1) = 2 ^ n.log2 := by
      rw [← Nat.pow_add, hk, Nat.add_comm k 53, Nat.add_comm k 1, ← Nat.add_assoc]
    rw [← hm] at hs
    rw [le_div_iff₀ (by positivity)]
    exact_mod_cast hs
  have ⟨m, hm⟩ := Int.eq_ofNat_of_zero_le (le_trans (by positivity) hx)
  rw [hm] at hx
  have hv : (2 ^ 53 : ℕ) ≤ m * 2 ^ (k + 1) :=
    calc 2 ^ 53
      _ = 2 ^ 52 * 2 ^ 1       := rfl
      _ ≤ m * 2 ^ (k + 1)      := Nat.mul_le_mul (by exact_mod_cast hx)
        (Nat.pow_le_pow_right (by decide) (by omega))
  rw [round, if_neg hp.ne', if_neg hp.not_gt, roundPositive]
  simp only [he, pow2_natCast, hm]
  split
  case isTrue  => exact .inr ⟨m * 2 ^ (k + 1), hv, by push_cast; rfl⟩
  case isFalse => exact .inl rfl

theorem abs_neg_eq (x : Number) : abs x.neg = abs x := by
  cases x
  case fin q => exact congrArg fin (abs_neg q)
  case inf   => rfl
  case nan   => rfl

theorem abs_round_intCast (d : ℤ) : abs (round d) = abs (round (d.natAbs : ℚ)) := by
  obtain h | h := d.natAbs_eq
  case inl =>
    rw [h]
    simp
  case inr =>
    by_cases hz : d.natAbs = 0
    case pos => simp [Int.natAbs_eq_zero.mp hz]
    case neg =>
      have hp : (0 : ℚ) < d.natAbs := by exact_mod_cast Nat.pos_of_ne_zero hz
      have hq : (d : ℚ) = -(d.natAbs : ℚ) := by exact_mod_cast h
      have hn : (d : ℚ) < 0 := hq ▸ neg_lt_zero.mpr hp
      rw [round, if_neg hn.ne, if_pos hn, hq, neg_neg, abs_neg_eq, round, if_neg hp.ne',
        if_neg hp.not_gt]

theorem lt_fin_inf {q : ℚ} : lt (fin q) (inf false) = true :=
  rfl

theorem lt_fin_fin {p q : ℚ} : lt (fin p) (fin q) = true ↔ p < q := by
  simp [lt, le]

-- Rounding an integer does not take it over a bound.
theorem lt_abs_round {d : ℤ} {b : Nat} (hb : b < 2 ^ 53) :
    lt (fin b) (abs (round d)) = true ↔ b < d.natAbs := by
  rw [abs_round_intCast]
  by_cases h : d.natAbs < 2 ^ 53
  case pos =>
    rw [round_natCast h, abs, Nat.abs_cast, lt_fin_fin]
    exact Nat.cast_lt
  case neg =>
    refine iff_of_true ?_ (hb.trans_le (Nat.le_of_not_lt h))
    obtain hr | ⟨v, hv, hr⟩ := round_natCast_of_le (Nat.le_of_not_lt h)
    case inl =>
      rw [hr]
      exact lt_fin_inf
    case inr =>
      rw [hr, abs, Nat.abs_cast, lt_fin_fin]
      exact Nat.cast_lt.mpr (hb.trans_le hv)

theorem sub_natCast (m : ℤ) (n : Nat) : sub (fin m) (fin n) = round ((m - n : ℤ) : ℚ) := by
  rw [sub, neg, add, ← sub_eq_add_neg]
  push_cast
  rfl

-- How far an integer and a small one are apart, is not changed by rounding either.
theorem lt_abs_sub {m : ℤ} {n b : Nat} (hm : m.natAbs ≤ 2 ^ 52) (hb : b < 2 ^ 52) :
    lt (fin b) (abs (sub (fin m) (round n))) = true ↔ b < (m - n).natAbs := by
  have hb' : b < 2 ^ 53 := by omega
  by_cases h : n < 2 ^ 53
  case pos => rw [round_natCast h, sub_natCast, lt_abs_round hb']
  case neg =>
    refine iff_of_true ?_ (by omega)
    obtain hr | ⟨v, hv, hr⟩ := round_natCast_of_le (Nat.le_of_not_lt h)
    case inl =>
      rw [hr]
      exact lt_fin_inf
    case inr =>
      rw [hr, sub_natCast, lt_abs_round hb']
      omega

end Js.Number
