import Mathlib.Algebra.Ring.Nat
import Mathlib.Data.List.Basic
import Mathlib.Data.Nat.Digits.Defs

-- A stream that comes in pieces.
namespace Pieces

variable {α : Type} {n : Nat} {got part : List α} {pieces rest parts : List (List α)}

-- Takes at most `n` elements of the first piece. Is `none` if nothing more comes.
def read (n : Nat) : List (List α) → Option (List α × List (List α))
  | []              => none
  | piece :: pieces =>
    some (piece.take n, if n < piece.length then piece.drop n :: pieces else pieces)

-- The length of a stream, where each piece counts for one more.
def size (pieces : List (List α)) : Nat :=
  (pieces.map (·.length + 1)).sum

-- A stream of parts, of which none is cut.
def Uncut (pieces parts : List (List α)) : Prop :=
  ∃ gs : List (List (List α)), gs.flatten = parts ∧ [] ∉ gs ∧ pieces = gs.map List.flatten

theorem read_size (h : read n pieces = some (got, rest)) (hn : n ≠ 0) :
    size rest < size pieces := by
  cases pieces
  case nil => nomatch h
  case cons piece pieces =>
    cases Option.some.inj h
    split
    case isTrue hl =>
      simp only [size, List.map_cons, List.sum_cons, List.length_drop]
      omega
    case isFalse =>
      simp only [size, List.map_cons, List.sum_cons]
      omega

-- Nothing is lost and nothing is changed.
theorem read_flatten (h : read n pieces = some (got, rest)) :
    got ++ rest.flatten = pieces.flatten := by
  cases pieces
  case nil => nomatch h
  case cons piece pieces =>
    cases Option.some.inj h
    split
    case isTrue => rw [List.flatten_cons, ← List.append_assoc, List.take_append_drop]; rfl
    case isFalse hl => rw [List.take_of_length_le (Nat.le_of_not_lt hl)]; rfl

theorem read_length (h : read n pieces = some (got, rest)) : got.length ≤ n := by
  cases pieces
  case nil => nomatch h
  case cons piece pieces =>
    cases Option.some.inj h
    exact List.length_take_le _ _

theorem read_ne_nil (h : read n pieces = some (got, rest)) (hn : n ≠ 0) (hp : [] ∉ pieces) :
    got ≠ [] ∧ [] ∉ rest := by
  cases pieces
  case nil => nomatch h
  case cons piece pieces =>
    have ⟨hp, hr⟩ := not_or.mp (mt List.mem_cons.mpr hp)
    cases Option.some.inj h
    refine ⟨fun ht => ?_, ?_⟩
    case refine_1 =>
      obtain h | h := List.take_eq_nil_iff.mp ht
      case inl => exact hn h
      case inr => exact hp h.symm
    case refine_2 =>
      split
      case isFalse   => exact hr
      case isTrue hl =>
        intro hm
        cases List.mem_cons.mp hm
        case inl hd => exact absurd (List.drop_eq_nil_iff.mp hd.symm) (Nat.not_le_of_lt hl)
        case inr hm => exact hr hm

theorem uncut_nil : Uncut pieces [] ↔ pieces = [] := by
  constructor
  case mp =>
    rintro ⟨gs, hf, hn, rfl⟩
    cases gs
    case nil => rfl
    case cons g gs =>
      have hg : g = [] := (List.append_eq_nil_iff.mp hf).left
      exact absurd (hg ▸ List.mem_cons_self) hn
  case mpr => exact fun h => ⟨[], rfl, List.not_mem_nil, h⟩

theorem Uncut.flatten (h : Uncut pieces parts) : pieces.flatten = parts.flatten := by
  have ⟨gs, hf, _, hp⟩ := h
  rw [hp, ← hf, List.flatten_flatten]

theorem uncut_self : Uncut parts parts := by
  refine ⟨parts.map ([·]), ?_, ?_, ?_⟩
  case refine_1 => rw [← List.flatMap_def, List.flatMap_singleton']
  case refine_2 => simp
  case refine_3 => simp [Function.comp_def]

-- A part that is asked for comes whole.
theorem Uncut.read (h : Uncut pieces (part :: parts)) (hp : [] ∉ parts) :
    ∃ rest, read part.length pieces = some (part, rest) ∧ Uncut rest parts := by
  obtain ⟨gs, hf, hn, rfl⟩ := h
  cases gs
  case nil => nomatch hf
  case cons g gs =>
    have ⟨hg, hm⟩ := not_or.mp (mt List.mem_cons.mpr hn)
    cases g
    case nil => exact absurd rfl hg
    case cons p g =>
      obtain ⟨rfl, rfl⟩ := List.cons.inj hf
      refine ⟨_, congrArg some (Prod.ext List.take_left rfl), ?_⟩
      simp only [List.flatten_cons, List.length_append, List.drop_left]
      cases g
      case nil => exact ⟨gs, rfl, hm, if_neg (Nat.lt_irrefl _)⟩
      case cons q g =>
        have hq : 0 < q.length := List.length_pos_iff.mpr fun h => hp (h ▸ List.mem_cons_self)
        refine ⟨(q :: g) :: gs, rfl, ?_, ?_⟩
        case refine_1 => exact mt List.mem_cons.mp (not_or.mpr ⟨List.cons_ne_nil _ _ ∘ Eq.symm, hm⟩)
        case refine_2 =>
          rw [List.flatten_cons, List.length_append]
          exact if_pos (by omega)

end Pieces

-- Numbers as sequences of bytes, the least significant byte first.
namespace Endian

-- The last `k` bytes of a number.
def little : Nat → Nat → List UInt8
  | 0, _     => []
  | k + 1, n => .ofNat n :: little k (n / 256)

def ofLittle (bs : List UInt8) : Nat :=
  Nat.ofDigits 256 (bs.map UInt8.toNat)

variable {k n : Nat} {b : UInt8} {bs : List UInt8}

@[simp]
theorem length_little : (little k n).length = k := by
  induction k generalizing n
  case zero    => rfl
  case succ hi => rw [little, List.length_cons, hi]

@[simp]
theorem ofLittle_nil : ofLittle [] = 0 :=
  rfl

@[simp]
theorem ofLittle_cons : ofLittle (b :: bs) = b.toNat + 256 * ofLittle bs :=
  Nat.ofDigits_cons

theorem ofLittle_lt (bs : List UInt8) : ofLittle bs < 256 ^ bs.length := by
  induction bs
  case nil => exact Nat.one_pos
  case cons b bs hi =>
    have hb : b.toNat < 256 := b.toNat_lt
    rw [ofLittle_cons, List.length_cons, Nat.pow_succ]
    omega

theorem ofLittle_little (h : n < 256 ^ k) : ofLittle (little k n) = n := by
  induction k generalizing n
  case zero =>
    rw [Nat.pow_zero] at h
    exact (Nat.lt_one_iff.mp h).symm
  case succ k hi =>
    rw [Nat.pow_succ] at h
    have hn : n / 256 < 256 ^ k := Nat.div_lt_of_lt_mul (by omega)
    have hb : (UInt8.ofNat n).toNat = n % 256 := UInt8.toNat_ofNat'
    rw [little, ofLittle_cons, hi hn, hb]
    exact Nat.mod_add_div n 256

end Endian
