import Mathlib.Data.List.DropRight

namespace Js

-- The white space that `trim` removes: the `WhiteSpace` and `LineTerminator` characters.
def isSpace (c : Char) : Bool :=
  (9 ≤ c.toNat && c.toNat ≤ 13) || c.toNat = 0x20 || c.toNat = 0xA0 || c.toNat = 0x1680 ||
  (0x2000 ≤ c.toNat && c.toNat ≤ 0x200A) || c.toNat = 0x2028 || c.toNat = 0x2029 ||
  c.toNat = 0x202F || c.toNat = 0x205F || c.toNat = 0x3000 || c.toNat = 0xFEFF

def trimChars (cs : List Char) : List Char :=
  (cs.dropWhile isSpace).rdropWhile isSpace

def trim (s : String) : String :=
  .ofList (trimChars s.toList)

theorem trimChars_eq_self {cs : List Char} (h : ∀ c ∈ cs, isSpace c = false) :
    trimChars cs = cs := by
  have hd : cs.dropWhile isSpace = cs := by
    cases cs
    case nil  => rfl
    case cons => simp [h]
  rw [trimChars, hd, List.rdropWhile_eq_self_iff]
  intro hn
  simp [h]

theorem trimChars_eq_nil_iff {cs : List Char} :
    trimChars cs = [] ↔ ∀ c ∈ cs, isSpace c = true := by
  constructor
  case mp =>
    intro h
    have hd : (cs.dropWhile isSpace).dropWhile isSpace = cs.dropWhile isSpace :=
      List.dropWhile_idempotent _ _
    rw [List.dropWhile_eq_nil_iff.mpr (List.rdropWhile_eq_nil_iff.mp h)] at hd
    exact List.dropWhile_eq_nil_iff.mp hd.symm
  case mpr =>
    intro h
    rw [trimChars, List.dropWhile_eq_nil_iff.mpr h]
    rfl

-- The UTF-16 code units of a character.
def unitsOf (c : Char) : List Nat :=
  if c.toNat < 0x10000 then [c.toNat]
  else [0xD800 + (c.toNat - 0x10000) / 0x400, 0xDC00 + (c.toNat - 0x10000) % 0x400]

def isHigh (u : Nat) : Bool :=
  0xD800 ≤ u && u < 0xDC00

def isLow (u : Nat) : Bool :=
  0xDC00 ≤ u && u < 0xE000

-- The character of a code unit. A surrogate without its partner becomes U+FFFD.
def ofUnit (u : Nat) : Char :=
  if isHigh u || isLow u then '\uFFFD' else .ofNat u

def ofUnits : List Nat → List Char
  | []  => []
  | [u] => [ofUnit u]
  | u :: v :: us =>
    if isHigh u && isLow v then
      .ofNat (0x10000 + (u - 0xD800) * 0x400 + (v - 0xDC00)) :: ofUnits us
    else ofUnit u :: ofUnits (v :: us)

def units (s : String) : List Nat :=
  s.toList.flatMap unitsOf

-- `s.slice(0, n)`
def slice (s : String) (n : Nat) : String :=
  .ofList (ofUnits ((units s).take n))

theorem Char.toNat_range (c : Char) : c.toNat < 0xD800 ∨ (0xDFFF < c.toNat ∧ c.toNat < 0x110000) := by
  have h := c.valid
  exact h

theorem isHigh_toNat (c : Char) : isHigh c.toNat = false := by
  have := Char.toNat_range c
  simp only [isHigh, Bool.and_eq_false_imp, decide_eq_true_eq, decide_eq_false_iff_not]
  omega

theorem isLow_toNat (c : Char) : isLow c.toNat = false := by
  have := Char.toNat_range c
  simp only [isLow, Bool.and_eq_false_imp, decide_eq_true_eq, decide_eq_false_iff_not]
  omega

theorem ofUnit_toNat (c : Char) : ofUnit c.toNat = c := by
  simp [ofUnit, isHigh_toNat, isLow_toNat]

theorem ofUnits_toNat_cons (c : Char) (us : List Nat) :
    ofUnits (c.toNat :: us) = c :: ofUnits us := by
  cases us <;> simp [ofUnits, ofUnit_toNat, isHigh_toNat]

-- Decoding undoes encoding.
theorem ofUnits_flatMap_unitsOf (cs : List Char) : ofUnits (cs.flatMap unitsOf) = cs := by
  induction cs
  case nil          => rfl
  case cons c cs hi =>
    rw [List.flatMap_cons, unitsOf]
    split
    case isTrue  => simp [ofUnits_toNat_cons, hi]
    case isFalse h =>
      have hr := Char.toNat_range c
      have hh : isHigh (0xD800 + (c.toNat - 0x10000) / 0x400) = true := by simp [isHigh]; omega
      have hl : isLow (0xDC00 + (c.toNat - 0x10000) % 0x400) = true := by simp [isLow]; omega
      have hc : 0x10000 + (c.toNat - 0x10000) / 0x400 * 0x400 + (c.toNat - 0x10000) % 0x400 =
          c.toNat := by omega
      simp [ofUnits, hh, hl, hi, hc, Char.ofNat_toNat]

-- A slice that is long enough returns the whole string.
theorem slice_eq_self {s : String} {n : Nat} (h : (units s).length ≤ n) : slice s n = s := by
  rw [slice, List.take_of_length_le h, units, ofUnits_flatMap_unitsOf, String.ofList_toList]

theorem lt_of_mem_unitsOf {c : Char} {u : Nat} (h : u ∈ unitsOf c) : u < 0x10000 := by
  have hr := Char.toNat_range c
  rw [unitsOf] at h
  split at h <;> simp only [List.mem_cons, List.not_mem_nil, or_false] at h <;> omega

theorem Char.toNat_ofNat_le (u : Nat) : (Char.ofNat u).toNat ≤ u := by
  by_cases h : u.isValidChar
  case pos =>
    have hc : Char.ofNat u = Char.ofNatAux u h := dif_pos h
    exact hc ▸ Nat.le_refl u
  case neg =>
    have hc : Char.ofNat u = '\x00' := dif_neg h
    exact hc ▸ Nat.zero_le u

theorem Char.toNat_of_isAlphanum {c : Char} (h : c.isAlphanum = true) :
    (48 ≤ c.toNat ∧ c.toNat ≤ 57) ∨ (65 ≤ c.toNat ∧ c.toNat ≤ 90) ∨
      (97 ≤ c.toNat ∧ c.toNat ≤ 122) := by
  have hc : c.toNat = c.val.toNat := rfl
  have h : ((decide (c.val ≥ 'A'.val ∧ c.val ≤ 'Z'.val) ||
      (decide (c.val ≥ 'a'.val) && decide (c.val ≤ 'z'.val))) ||
        (decide (c.val ≥ '0'.val) && decide (c.val ≤ '9'.val))) = true := h
  simp only [Bool.or_eq_true, Bool.and_eq_true, decide_eq_true_eq, ge_iff_le,
    UInt32.le_iff_toNat_le, Char.reduceVal, UInt32.reduceToNat] at h
  omega

theorem length_unitsOf_ofUnit {u : Nat} (h : u < 0x10000) : (unitsOf (ofUnit u)).length = 1 := by
  have hlt : (ofUnit u).toNat < 0x10000 := by
    rw [ofUnit]
    split
    case isTrue  => decide
    case isFalse => exact (Char.toNat_ofNat_le u).trans_lt h
  simp [unitsOf, hlt]

-- Decoding does not make a text longer.
theorem length_units_ofUnits {us : List Nat} (h : ∀ u ∈ us, u < 0x10000) :
    ((ofUnits us).flatMap unitsOf).length ≤ us.length := by
  fun_induction ofUnits us
  case case1 => simp
  case case2 u => simp [length_unitsOf_ofUnit (h u (by simp))]
  case case3 u v us _ hi =>
    have hl : ∀ c, (unitsOf c).length ≤ 2 := fun c => by rw [unitsOf]; split <;> simp
    have hi := hi fun w hw => h w (by simp [hw])
    have hl := hl (.ofNat (0x10000 + (u - 0xD800) * 0x400 + (v - 0xDC00)))
    simp only [List.flatMap_cons, List.length_append, List.length_cons]
    omega
  case case4 u v us _ hi =>
    have hi := hi fun w hw => h w (List.mem_cons_of_mem _ hw)
    have hl := length_unitsOf_ofUnit (h u (by simp))
    simp only [List.flatMap_cons, List.length_append, List.length_cons] at hi ⊢
    omega

theorem length_units_slice (s : String) (n : Nat) : (units (slice s n)).length ≤ n := by
  have hm : ∀ u ∈ (units s).take n, u < 0x10000 := by
    intro u hu
    have ⟨_, _, hc⟩ := List.mem_flatMap.mp (List.mem_of_mem_take hu)
    exact lt_of_mem_unitsOf hc
  have hl := length_units_ofUnits hm
  rw [units, slice, String.toList_ofList]
  exact hl.trans (List.length_take_le _ _)

end Js
