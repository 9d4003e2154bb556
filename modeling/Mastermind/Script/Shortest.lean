import Mathlib.Data.Nat.Factorization.Basic
import Mastermind.Script.Rounding

namespace Js.Number

theorem abs_sub_roundHalfEven_le (q : ℚ) : |q - roundHalfEven q| ≤ 1 / 2 := by
  have h2 : mkRat 1 2 = (1 / 2 : ℚ) := by
    rw [Rat.mkRat_eq_div]
    norm_num
  have hl : (q.floor : ℚ) ≤ q := Rat.floor_le q
  have hu : q < q.floor + 1 := by exact_mod_cast Rat.lt_floor_add_one q
  rw [roundHalfEven, h2, abs_le]
  split
  case isTrue h => constructor <;> linarith
  case isFalse h =>
    split
    case isTrue h' =>
      push_cast
      constructor <;> linarith
    case isFalse h' =>
      split
      case isTrue  => constructor <;> linarith
      case isFalse =>
        push_cast
        constructor <;> linarith

theorem roundHalfEven_mono {p q : ℚ} (h : p ≤ q) : roundHalfEven p ≤ roundHalfEven q := by
  by_contra hn
  have hn : (roundHalfEven q : ℚ) + 1 ≤ roundHalfEven p := by exact_mod_cast not_le.mp hn
  have hp := abs_le.mp (abs_sub_roundHalfEven_le p)
  have hq := abs_le.mp (abs_sub_roundHalfEven_le q)
  have he : p = q := le_antisymm h (by linarith)
  rw [he] at hn
  linarith

-- The exponent of the last bit that a double keeps of an integer.
def lastBit (n : Nat) : Nat :=
  n.log2 - 52

-- The integer to which an integer is rounded, if it is not too large.
def roundInt (n : Nat) : Nat :=
  (roundHalfEven (n / 2 ^ lastBit n)).toNat * 2 ^ lastBit n

theorem roundHalfEven_nonneg {q : ℚ} (h : 0 ≤ q) : 0 ≤ roundHalfEven q :=
  calc 0
    _ = roundHalfEven ((0 : ℤ) : ℚ) := (roundHalfEven_intCast 0).symm
    _ ≤ roundHalfEven q             := roundHalfEven_mono (by exact_mod_cast h)

theorem roundInt_cast (n : Nat) :
    (roundInt n : ℚ) = roundHalfEven (n / 2 ^ lastBit n) * 2 ^ lastBit n := by
  have h : 0 ≤ roundHalfEven (n / 2 ^ lastBit n : ℚ) := roundHalfEven_nonneg (by positivity)
  have hc : (((roundHalfEven (n / 2 ^ lastBit n : ℚ)).toNat : ℤ) : ℚ) =
      roundHalfEven (n / 2 ^ lastBit n) := by rw [Int.toNat_of_nonneg h]
  rw [roundInt]
  push_cast
  rw [← hc]
  push_cast
  rfl

theorem lastBit_of_lt {n : Nat} (h : n < 2 ^ 53) : lastBit n = 0 := by
  by_cases hn : n = 0
  case pos => subst hn; rfl
  case neg =>
    have hl : n.log2 < 53 := (Nat.log2_lt hn).mpr h
    rw [lastBit]
    omega

theorem roundInt_of_dvd {n : Nat} (h : 2 ^ lastBit n ∣ n) : roundInt n = n := by
  have ⟨m, hm⟩ := h
  have hq : (n : ℚ) / 2 ^ lastBit n = (m : ℤ) := by
    rw [div_eq_iff (by positivity)]
    nth_rewrite 1 [hm]
    push_cast
    ring
  rw [roundInt, hq, roundHalfEven_intCast, Int.toNat_natCast, Nat.mul_comm]
  exact hm.symm

theorem round_eq (n : Nat) :
    round n = if (roundInt n : ℚ) < pow2 1024 then fin (roundInt n) else inf false := by
  by_cases h : n < 2 ^ 53
  case pos =>
    have hr : roundInt n = n := roundInt_of_dvd (by simp [lastBit_of_lt h])
    have hp : (n : ℚ) < pow2 1024 := natCast_lt_pow2 h (by decide)
    rw [round_natCast h, hr, if_pos hp]
  case neg =>
    have h := Nat.le_of_not_lt h
    have hn : n ≠ 0 := fun hn => absurd (hn ▸ h) (by decide)
    have hp : (0 : ℚ) < n := by exact_mod_cast Nat.pos_of_ne_zero hn
    have hl : 53 ≤ n.log2 := (Nat.le_log2 hn).mpr h
    have he : max (exponent n - 52) (-1074) = (lastBit n : ℤ) := by
      rw [exponent_natCast hn, lastBit]
      omega
    rw [round, if_neg hp.ne', if_neg hp.not_gt, roundPositive]
    simp only [he, pow2_natCast, ← roundInt_cast]

theorem le_roundInt {n m : Nat} (h : m * 2 ^ lastBit n ≤ n) : m * 2 ^ lastBit n ≤ roundInt n := by
  have hp : (0 : ℚ) < 2 ^ lastBit n := by positivity
  have hm : ((m : ℤ) : ℚ) ≤ n / 2 ^ lastBit n := by
    rw [le_div_iff₀ hp]
    exact_mod_cast h
  have hr := roundHalfEven_mono hm
  rw [roundHalfEven_intCast] at hr
  exact Nat.mul_le_mul_right _ (by omega)

theorem roundInt_le {n m : Nat} (h : n ≤ m * 2 ^ lastBit n) : roundInt n ≤ m * 2 ^ lastBit n := by
  have hp : (0 : ℚ) < 2 ^ lastBit n := by positivity
  have hm : n / 2 ^ lastBit n ≤ ((m : ℤ) : ℚ) := by
    rw [div_le_iff₀ hp]
    exact_mod_cast h
  have hr := roundHalfEven_mono hm
  rw [roundHalfEven_intCast] at hr
  exact Nat.mul_le_mul_right _ (by omega)

theorem lastBit_mono {a b : Nat} (h : a ≤ b) : lastBit a ≤ lastBit b := by
  by_cases ha : a = 0
  case pos => simp [ha, lastBit]
  case neg =>
    have hb : b ≠ 0 := by omega
    have hl : a.log2 ≤ b.log2 := (Nat.le_log2 hb).mpr ((Nat.log2_self_le ha).trans h)
    exact Nat.sub_le_sub_right hl 52

-- A power of two is not passed by rounding.
theorem roundInt_mono {a b : Nat} (h : a ≤ b) : roundInt a ≤ roundInt b := by
  have hk := lastBit_mono h
  by_cases he : lastBit a = lastBit b
  case pos =>
    rw [roundInt, roundInt, he]
    refine Nat.mul_le_mul_right _ (Int.toNat_le_toNat (roundHalfEven_mono ?_))
    have hab : (a : ℚ) ≤ b := by exact_mod_cast h
    gcongr
  case neg =>
    have hkb : lastBit b = b.log2 - 52 := rfl
    have hka : lastBit a = a.log2 - 52 := rfl
    have hl : b.log2 = 52 + lastBit b := by omega
    have hb : b ≠ 0 := by
      rintro rfl
      exact absurd hl (by decide)
    have hm : 2 ^ 52 * 2 ^ lastBit b = 2 ^ (52 + lastBit b - lastBit a) * 2 ^ lastBit a := by
      rw [← Nat.pow_add, ← Nat.pow_add]
      congr 1
      omega
    have hp : 2 ^ 52 * 2 ^ lastBit b ≤ roundInt b := by
      refine le_roundInt ?_
      rw [← Nat.pow_add, ← hl]
      exact Nat.log2_self_le hb
    have ha : a ≤ 2 ^ 52 * 2 ^ lastBit b := by
      rw [← Nat.pow_add]
      refine Nat.lt_log2_self.le.trans (Nat.pow_le_pow_right (by decide) ?_)
      omega
    rw [hm] at ha hp
    exact (roundInt_le ha).trans hp

theorem dvd_roundInt (n : Nat) : 2 ^ lastBit n ∣ roundInt n :=
  Nat.dvd_mul_left ..

theorem roundInt_roundInt (n : Nat) : roundInt (roundInt n) = roundInt n := by
  by_cases hn : n = 0
  case pos => rw [hn, roundInt_of_dvd (dvd_zero _), roundInt_of_dvd (dvd_zero _)]
  case neg =>
    have hk : lastBit n = n.log2 - 52 := rfl
    have hm : 2 ^ (n.log2 + 1) = 2 ^ (n.log2 + 1 - lastBit n) * 2 ^ lastBit n := by
      rw [← Nat.pow_add]
      congr 1
      omega
    have hle : roundInt n ≤ 2 ^ (n.log2 + 1) := by
      rw [hm]
      exact roundInt_le (hm ▸ Nat.lt_log2_self.le)
    cases Nat.lt_or_eq_of_le hle
    case inr he =>
      rw [he]
      refine roundInt_of_dvd (Nat.pow_dvd_pow 2 ?_)
      rw [lastBit, Nat.log2_two_pow]
      omega
    case inl hlt =>
      refine roundInt_of_dvd ((Nat.pow_dvd_pow 2 ?_).trans (dvd_roundInt n))
      by_cases hz : roundInt n = 0
      case pos => rw [hz]; exact Nat.zero_le _
      case neg =>
        have hl := (Nat.log2_lt hz).mpr hlt
        rw [lastBit, lastBit]
        omega

theorem abs_sub_roundInt_le (n : Nat) : |(n : ℚ) - roundInt n| ≤ 2 ^ lastBit n / 2 := by
  have hp : (0 : ℚ) < 2 ^ lastBit n := by positivity
  have hn : (n : ℚ) = n / 2 ^ lastBit n * 2 ^ lastBit n := by field_simp
  rw [roundInt_cast]
  nth_rewrite 1 [hn]
  rw [← sub_mul, abs_mul, abs_of_pos hp]
  nlinarith [abs_sub_roundHalfEven_le (n / 2 ^ lastBit n : ℚ)]

def pow10 (e : ℤ) : ℚ :=
  if 0 ≤ e then (10 ^ e.toNat : Nat) else mkRat 1 (10 ^ (-e).toNat)

-- A decimal is read as a double.
def reads (x d : ℚ) : Bool :=
  round d = fin x

-- The decimal with the fewest digits, down to the unit `10 ^ e`, that is read as a positive double,
-- and of these the one that is nearest to it. With two of them, the even one is taken.
def shortestFrom (x : ℚ) : (fuel : Nat) → (e : ℤ) → ℚ
  | 0, _        => x
  | fuel + 1, e =>
    let digits := (x / pow10 e).floor
    let down := digits * pow10 e
    let up := down + pow10 e
    if reads x down && reads x up then
      if x - down < up - x ∨ (x - down = up - x ∧ digits % 2 = 0) then down else up
    else if reads x down then down
    else if reads x up then up
    else shortestFrom x fuel (e - 1)

-- `strconv.FormatFloat(x, 'f', -1, 64)`, as the number that it denotes. Doubles are less than
-- `10 ^ 309` and multiples of `2 ^ -1074`.
def formatFloat (x : ℚ) : ℚ :=
  if x = 0 then 0
  else if x < 0 then -shortestFrom (-x) 1383 308
  else shortestFrom x 1383 308

-- Among the decimals that are read like `n`, none has more zeros at its end, and none with as many
-- is nearer to the double.
structure IsShortest (x e n : Nat) : Prop where
  dvd     : 10 ^ e ∣ n
  reads   : roundInt n = x
  coarser : ∀ d, 10 ^ (e + 1) ∣ d → roundInt d ≠ x
  nearest : ∀ d, 10 ^ e ∣ d → roundInt d = x → ((n : ℤ) - x).natAbs ≤ ((d : ℤ) - x).natAbs

def Shortest (n : Nat) : Prop :=
  ∃ e, IsShortest (roundInt n) e n

variable {a b c x n r e : Nat}

theorem roundInt_convex (ha : roundInt a = x) (hc : roundInt c = x) (hab : a ≤ b) (hbc : b ≤ c) :
    roundInt b = x :=
  le_antisymm (hc ▸ roundInt_mono hbc) (ha ▸ roundInt_mono hab)

-- Two decimals with the same last digit are not equally far from a double between them, since the
-- double would have to be such a decimal itself.
theorem no_tie {δ : Nat} (hn : 10 ^ e ∣ n) (hr : roundInt (n + 2 * δ) = n + δ)
    (hd : 10 ^ e ∣ n + 2 * δ) : 10 ^ e ∣ δ := by
  have h2 : 10 ^ e ∣ 2 * δ := (Nat.dvd_add_right hn).mp hd
  by_cases hz : δ = 0
  case pos => rw [hz]; exact dvd_zero _
  case neg =>
    have hu := abs_sub_roundInt_le (n + 2 * δ)
    rw [hr] at hu
    have hu : 2 * δ ≤ 2 ^ lastBit (n + 2 * δ) := by
      have hq : ((n + 2 * δ : Nat) : ℚ) - ((n + δ : Nat) : ℚ) = δ := by
        push_cast
        ring
      rw [hq, Nat.abs_cast] at hu
      have hu : (2 * δ : ℚ) ≤ 2 ^ lastBit (n + 2 * δ) := by linarith
      exact_mod_cast hu
    have he : e ≤ lastBit (n + 2 * δ) := by
      have hle : 2 ^ e ≤ 2 ^ lastBit (n + 2 * δ) :=
        calc 2 ^ e
          _ ≤ 10 ^ e := Nat.pow_le_pow_left (by decide) e
          _ ≤ 2 * δ  := Nat.le_of_dvd (by omega) h2
          _ ≤ _      := hu
      exact (Nat.pow_le_pow_iff_right (by decide)).mp hle
    have hx : 2 ^ e ∣ n + δ := (Nat.pow_dvd_pow 2 he).trans (hr ▸ dvd_roundInt _)
    have h10 : 10 ^ e = 2 ^ e * 5 ^ e := by rw [← Nat.mul_pow]
    have h2δ : 2 ^ e ∣ δ := (Nat.dvd_add_right ((Dvd.intro _ h10.symm).trans hn)).mp hx
    have h5δ : 5 ^ e ∣ δ :=
      (Nat.Coprime.pow_left e (by decide : Nat.Coprime 5 2)).dvd_of_dvd_mul_left
        ((Dvd.intro_left _ h10.symm).trans h2)
    rw [h10]
    exact (Nat.Coprime.pow e e (by decide : Nat.Coprime 2 5)).mul_dvd_of_dvd_of_dvd h2δ h5δ

theorem IsShortest.exponent_le {e' : Nat} (h : IsShortest x e n) (h' : IsShortest x e' r) :
    e' ≤ e := by
  by_contra hn
  exact h.coarser r ((Nat.pow_dvd_pow 10 (by omega)).trans h'.dvd) h'.reads

-- At most one decimal is the shortest one of a double.
theorem IsShortest.unique {e' : Nat} (hx : roundInt x = x) (h : IsShortest x e n)
    (h' : IsShortest x e' r) : n = r := by
  obtain rfl : e = e' := le_antisymm (h'.exponent_le h) (h.exponent_le h')
  have hd := h.nearest r h'.dvd h'.reads
  have hd' := h'.nearest n h.dvd h.reads
  have tie {n r : Nat} (h : IsShortest x e n) (h' : IsShortest x e r) (hn : n < x)
      (hr : (r : ℤ) - x = x - n) : False := by
    have ⟨δ, hδ⟩ : ∃ δ, x = n + δ := ⟨x - n, by omega⟩
    have hr : r = n + 2 * δ := by omega
    have hdvd := no_tie h.dvd (hr ▸ hδ ▸ h'.reads) (hr ▸ h'.dvd)
    have hz := h.nearest x (hδ ▸ (Nat.dvd_add_right h.dvd).mpr hdvd) hx
    omega
  by_contra hne
  by_cases hlt : n < r
  case pos => exact tie h h' (by omega) (by omega)
  case neg => exact tie h' h (by omega) (by omega)

variable (hx : roundInt x = x) (hf : (x : ℚ) < pow2 1024)

include hf in
theorem reads_iff {d : Nat} : reads x d ↔ roundInt d = x := by
  rw [reads, decide_eq_true_iff, round_eq]
  constructor
  case mp =>
    intro h
    split at h
    case isTrue  => exact_mod_cast fin.inj h
    case isFalse => nomatch h
  case mpr =>
    intro h
    rw [h, if_pos hf]

theorem pow10_natCast (e : Nat) : pow10 e = (10 ^ e : Nat) := by
  rw [pow10, if_pos (Int.natCast_nonneg e), Int.toNat_natCast]

include hx in
-- If a multiple of the unit is read as the double, so is one of those around it.
theorem around_reads {d : Nat} (hd : 10 ^ e ∣ d) (hr : roundInt d = x) :
    (d ≤ x / 10 ^ e * 10 ^ e ∧ roundInt (x / 10 ^ e * 10 ^ e) = x) ∨
      (x / 10 ^ e * 10 ^ e + 10 ^ e ≤ d ∧ roundInt (x / 10 ^ e * 10 ^ e + 10 ^ e) = x) := by
  have ⟨q, hq⟩ := hd
  have hp : 0 < 10 ^ e := by positivity
  have hlt : x < x / 10 ^ e * 10 ^ e + 10 ^ e := by
    have := Nat.lt_div_mul_add hp (a := x)
    exact this
  by_cases h : d ≤ x
  case pos =>
    have hle : d ≤ x / 10 ^ e * 10 ^ e := by
      rw [hq, Nat.mul_comm]
      exact Nat.mul_le_mul_right _ ((Nat.le_div_iff_mul_le hp).mpr (by rwa [Nat.mul_comm, ← hq]))
    exact .inl ⟨hle, roundInt_convex hr hx hle (Nat.div_mul_le_self ..)⟩
  case neg =>
    have hle : x / 10 ^ e * 10 ^ e + 10 ^ e ≤ d := by
      rw [hq, ← Nat.succ_mul, Nat.mul_comm]
      refine Nat.mul_le_mul_left _ ?_
      exact (Nat.div_lt_iff_lt_mul hp).mpr (by rw [Nat.mul_comm, ← hq]; omega)
    exact .inr ⟨hle, roundInt_convex hx hr hlt.le hle⟩

include hx in
theorem isShortest_down (hc : ∀ d, 10 ^ (e + 1) ∣ d → roundInt d ≠ x)
    (hd : roundInt (x / 10 ^ e * 10 ^ e) = x)
    (hu : roundInt (x / 10 ^ e * 10 ^ e + 10 ^ e) = x →
      x - x / 10 ^ e * 10 ^ e ≤ x / 10 ^ e * 10 ^ e + 10 ^ e - x) :
    IsShortest x e (x / 10 ^ e * 10 ^ e) where
  dvd     := Nat.dvd_mul_left ..
  reads   := hd
  coarser := hc
  nearest d hm hr := by
    have hle : x / 10 ^ e * 10 ^ e ≤ x := Nat.div_mul_le_self ..
    cases around_reads hx hm hr
    case inl h => omega
    case inr h =>
      have hu := hu h.right
      omega

include hx in
theorem isShortest_up (hc : ∀ d, 10 ^ (e + 1) ∣ d → roundInt d ≠ x)
    (hu : roundInt (x / 10 ^ e * 10 ^ e + 10 ^ e) = x)
    (hd : roundInt (x / 10 ^ e * 10 ^ e) = x →
      x / 10 ^ e * 10 ^ e + 10 ^ e - x ≤ x - x / 10 ^ e * 10 ^ e) :
    IsShortest x e (x / 10 ^ e * 10 ^ e + 10 ^ e) where
  dvd     := (Nat.dvd_add_right (Nat.dvd_mul_left ..)).mpr dvd_rfl
  reads   := hu
  coarser := hc
  nearest d hm hr := by
    have hle : x / 10 ^ e * 10 ^ e ≤ x := Nat.div_mul_le_self ..
    have hlt : x < x / 10 ^ e * 10 ^ e + 10 ^ e := Nat.lt_div_mul_add (by positivity)
    cases around_reads hx hm hr
    case inl h =>
      have hd := hd h.right
      omega
    case inr h => omega

include hx hf in
-- The search finds the shortest decimal of a double that is an integer, since this is one itself.
theorem shortestFrom_spec {fuel : Nat} (h : e < fuel)
    (hc : ∀ d, 10 ^ (e + 1) ∣ d → roundInt d ≠ x) :
    ∃ e' r, shortestFrom x fuel e = (r : Nat) ∧ IsShortest x e' r := by
  induction fuel generalizing e
  case zero => nomatch h
  case succ fuel hi =>
    have hfl : ((x : ℚ) / pow10 e).floor = (x / 10 ^ e : Nat) := by
      rw [pow10_natCast]
      exact (Rat.floor_natCast_div_natCast x (10 ^ e)).trans (Int.natCast_div ..).symm
    have hd : (((x : ℚ) / pow10 e).floor : ℚ) * pow10 e = (x / 10 ^ e * 10 ^ e : Nat) := by
      rw [hfl, pow10_natCast]
      push_cast
      rfl
    have hu : ((x / 10 ^ e * 10 ^ e : Nat) : ℚ) + pow10 e =
        (x / 10 ^ e * 10 ^ e + 10 ^ e : Nat) := by
      rw [pow10_natCast]
      push_cast
      rfl
    have hle : x / 10 ^ e * 10 ^ e ≤ x := Nat.div_mul_le_self ..
    have hlt : x < x / 10 ^ e * 10 ^ e + 10 ^ e := Nat.lt_div_mul_add (by positivity)
    simp only [shortestFrom, hd, hu, Bool.and_eq_true, reads_iff hf, ← Nat.cast_sub hle,
      ← Nat.cast_sub hlt.le, Nat.cast_lt, Nat.cast_inj]
    split
    case isTrue hb =>
      split
      case isTrue hn =>
        exact ⟨e, _, rfl, isShortest_down hx hc hb.left
          fun _ => hn.elim le_of_lt fun h => h.left.le⟩
      case isFalse hn =>
        have hn := not_or.mp hn
        exact ⟨e, _, rfl, isShortest_up hx hc hb.right fun _ => not_lt.mp hn.left⟩
    case isFalse hb =>
      split
      case isTrue hd =>
        exact ⟨e, _, rfl, isShortest_down hx hc hd fun hu => absurd ⟨hd, hu⟩ hb⟩
      case isFalse hd =>
        split
        case isTrue hu => exact ⟨e, _, rfl, isShortest_up hx hc hu fun hd' => absurd hd' hd⟩
        case isFalse hu =>
          have hn : ∀ d, 10 ^ e ∣ d → roundInt d ≠ x := fun d hm hr =>
            (around_reads hx hm hr).elim (fun h => hd h.right) fun h => hu h.right
          cases Nat.eq_zero_or_pos e
          case inl hz => exact absurd hx (hn x (hz ▸ one_dvd x))
          case inr hp =>
            have ⟨k, hk⟩ := Nat.exists_eq_add_of_lt hp
            have he : (e : ℤ) - 1 = k := by omega
            rw [he]
            refine hi (by omega) ?_
            rwa [← (by omega : e = k + 1)]

theorem natCast_lt_pow2_iff {k : Nat} : (x : ℚ) < pow2 k ↔ x < 2 ^ k := by
  rw [pow2_natCast]
  exact_mod_cast Iff.rfl

theorem roundInt_two_pow (k : Nat) : roundInt (2 ^ k) = 2 ^ k := by
  refine roundInt_of_dvd (Nat.pow_dvd_pow 2 ?_)
  rw [lastBit, Nat.log2_two_pow]
  exact Nat.sub_le _ _

-- A unit that is too large for a double.
theorem no_coarser {k d : Nat} (hx : 0 < x) (hf : (x : ℚ) < pow2 k) (hk : 2 ^ k ≤ 10 ^ e)
    (hd : 10 ^ e ∣ d) : roundInt d ≠ x := by
  intro hr
  cases Nat.eq_zero_or_pos d
  case inl hz =>
    rw [hz, roundInt_of_dvd (dvd_zero _)] at hr
    omega
  case inr hp =>
    have hm := roundInt_mono (hk.trans (Nat.le_of_dvd hp hd))
    rw [roundInt_two_pow, hr] at hm
    exact absurd (natCast_lt_pow2_iff.mp hf) (not_lt.mpr hm)

theorem roundInt_pos (hn : 0 < n) : 0 < roundInt n := by
  have h1 : roundInt 1 = 1 := roundInt_of_dvd (by simp [lastBit_of_lt])
  have h := roundInt_mono (Nat.succ_le_of_lt hn)
  rwa [h1] at h

-- An integer is printed for its double if and only if it is the shortest decimal of the double.
theorem formatFloat_natCast (hn : 0 < n) (hf : (roundInt n : ℚ) < pow2 1024) :
    formatFloat (roundInt n) = n ↔ Shortest n := by
  have hp := roundInt_pos hn
  have hq : (0 : ℚ) < roundInt n := by exact_mod_cast hp
  have hc : ∀ d, 10 ^ (308 + 1) ∣ d → roundInt d ≠ roundInt n := fun d =>
    no_coarser (k := 1024) hp hf (by decide +kernel)
  have ⟨e, r, hs, hr⟩ := shortestFrom_spec (roundInt_roundInt n) hf (by decide : 308 < 1383) hc
  have hs : shortestFrom (roundInt n) 1383 308 = r := hs
  rw [formatFloat, if_neg hq.ne', if_neg hq.not_gt, hs, Nat.cast_inj]
  constructor
  case mp  => exact fun h => ⟨e, h ▸ hr⟩
  case mpr => exact fun ⟨e', h⟩ => hr.unique (roundInt_roundInt n) h

theorem formatFloat_neg (q : ℚ) : formatFloat (-q) = -formatFloat q := by
  rw [formatFloat, formatFloat]
  obtain h | h | h := lt_trichotomy q 0
  case inl => simp [h.ne, h, h.not_gt]
  case inr.inl => simp [h]
  case inr.inr => simp [h.ne', h, h.not_gt]

theorem round_neg {q : ℚ} (h : 0 < q) : round (-q) = (round q).neg := by
  have hn : -q < 0 := neg_lt_zero.mpr h
  rw [round, if_neg hn.ne, if_pos hn, neg_neg, round, if_neg h.ne', if_neg h.not_gt]

-- Small integers are the only decimals of their doubles.
theorem shortest_of_lt (hn : 0 < n) (h : n < 2 ^ 53) : Shortest n := by
  have hr {d : Nat} (hd : d < 2 ^ 53) : roundInt d = d :=
    roundInt_of_dvd (by simp [lastBit_of_lt hd])
  have hu {d : Nat} (hd : roundInt d = n) : d = n := by
    by_cases hlt : d < 2 ^ 53
    case pos => exact (hr hlt).symm.trans hd
    case neg =>
      have hm := roundInt_mono (Nat.le_of_not_lt hlt)
      rw [roundInt_two_pow, hd] at hm
      omega
  have ⟨e, m, hm, he⟩ := Nat.exists_eq_pow_mul_and_not_dvd hn.ne' 10 (by decide)
  refine ⟨e, ⟨Dvd.intro _ he.symm, by rw [hr h], fun d hd hx => hm ?_, fun d _ hx => ?_⟩⟩
  · rw [hr h] at hx
    rw [hu hx, he, Nat.pow_succ] at hd
    exact Nat.dvd_of_mul_dvd_mul_left (by positivity) hd
  · rw [hr h] at hx
    rw [hu hx]

end Js.Number
