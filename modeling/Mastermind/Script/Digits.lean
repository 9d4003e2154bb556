import Mastermind.Script.Rounding

-- Texts that consist of digits, as numbers.
namespace Js

variable {cs : List Char} {c : Char} {n : Nat}

theorem span_digits (hd : ∀ c ∈ cs, isDigit c = true) : cs.span isDigit = (cs, []) := by
  rw [List.span_eq_takeWhile_dropWhile, List.takeWhile_eq_self_iff.mpr hd,
    List.dropWhile_eq_nil_iff.mpr hd]

theorem isDigit_iff : isDigit c = true ↔ 48 ≤ c.toNat ∧ c.toNat ≤ 57 := by
  simp only [isDigit, Bool.and_eq_true, decide_eq_true_eq, Char.le_def, UInt32.le_iff_toNat_le]
  exact Iff.rfl

theorem isSpace_digit (h : isDigit c = true) : isSpace c = false := by
  have h := isDigit_iff.mp h
  simp only [isSpace, Bool.or_eq_false_iff, Bool.and_eq_false_iff, decide_eq_false_iff_not]
  omega

theorem scanSign_digit (h : isDigit c = true) : scanSign (c :: cs) = (false, c :: cs) := by
  unfold scanSign
  split
  case h_1 he => cases he; nomatch h
  case h_2 he => cases he; nomatch h
  case h_3    => rfl

theorem scanDecimal_digits (hn : cs ≠ []) (hd : ∀ c ∈ cs, isDigit c = true) :
    scanDecimal cs = some ((digitsValue cs : ℚ), []) := by
  have hv : decimalValue cs [] 0 = digitsValue cs := by simp [decimalValue]
  have hb : cs.isEmpty = false := by simpa using hn
  rw [scanDecimal, span_digits hd]
  simp only [hb, Bool.false_and, Bool.false_eq_true, if_false, scanExponent, Option.map_some, hv]

theorem stringToNumber_digits (hn : cs ≠ []) (hd : ∀ c ∈ cs, isDigit c = true) :
    stringToNumber (.ofList cs) = .round (digitsValue cs : ℚ) := by
  have ht : trimChars (String.ofList cs).toList = cs := by
    rw [String.toList_ofList]
    exact trimChars_eq_self fun c hc => isSpace_digit (hd c hc)
  have hx {d : Char} {ds : List Char} (h : isDigit d = false) (hc : cs = '0' :: d :: ds) : False :=
    nomatch h.symm.trans (hd d (hc ▸ List.mem_cons_of_mem _ List.mem_cons_self))
  have hs : scanSign cs = (false, cs) := by
    cases cs
    case nil       => exact absurd rfl hn
    case cons c cs => exact scanSign_digit (hd c List.mem_cons_self)
  have hi : cs ≠ "Infinity".toList := by
    rintro rfl
    exact nomatch hd 'I' (by decide)
  rw [stringToNumber, ht]
  split
  case h_1 => exact absurd rfl hn
  case h_2 => exact (hx (by decide) rfl).elim
  case h_3 => exact (hx (by decide) rfl).elim
  case h_4 => exact (hx (by decide) rfl).elim
  case h_5 => exact (hx (by decide) rfl).elim
  case h_6 => exact (hx (by decide) rfl).elim
  case h_7 => exact (hx (by decide) rfl).elim
  case h_8 =>
    simp only [hs, scanDecimal_digits hn hd, if_neg hi]
    rfl

theorem isDigit_toDigits (h : c ∈ Nat.toDigits 10 n) : isDigit c = true := by
  have h := Nat.isDigit_of_mem_toDigits (by decide) (by decide) h
  simp only [Char.isDigit, Bool.and_eq_true, decide_eq_true_eq, ge_iff_le, UInt32.le_iff_toNat_le] at h
  exact isDigit_iff.mpr h

-- The text of a number reads as the number.
theorem stringToNumber_toString (h : n < 2 ^ 53) : stringToNumber (toString n) = .fin n := by
  have hv : digitsValue (Nat.toDigits 10 n) = n := Nat.ofDigitChars_ten_toDigits
  have hs : toString n = .ofList (Nat.toDigits 10 n) := Nat.toString_eq_ofList_toDigits
  rw [hs, stringToNumber_digits Nat.toDigits_ne_nil fun c hc => isDigit_toDigits hc, hv,
    Number.round_natCast h]

end Js
