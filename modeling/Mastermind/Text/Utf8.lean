import Mathlib.Data.List.Basic

namespace Utf8

abbrev Bytes :=
  List UInt8

variable {c : Char} {cs : List Char} {a b bs : Bytes}

def encode (cs : List Char) : Bytes :=
  cs.flatMap String.utf8EncodeChar

-- The character with which a sequence of bytes begins.
def first? (bs : Bytes) : Option Char :=
  bs.toByteArray.utf8DecodeChar? 0

-- Reads a sequence of bytes as a text. A byte with which no character begins becomes U+FFFD.
def decode : Bytes → List Char
  | []      => []
  | b :: bs =>
    match first? (b :: bs) with
    | some c => c :: decode (bs.drop (c.utf8Size - 1))
    | none   => '\uFFFD' :: decode bs
termination_by bs => bs.length

-- The second byte of a character of more than two bytes.
def isSecond (first second : UInt8) : Bool :=
  if first = 0xE0 then 0xA0 ≤ second && second ≤ 0xBF
  else if first = 0xED then 0x80 ≤ second && second ≤ 0x9F
  else if first = 0xF0 then 0x90 ≤ second && second ≤ 0xBF
  else if first = 0xF4 then 0x80 ≤ second && second ≤ 0x8F
  else 0xE1 ≤ first && first ≤ 0xF3 && 0x80 ≤ second && second ≤ 0xBF

-- How many bytes at the beginning could begin a character, at least one.
def subpart : Bytes → Nat
  | a :: b :: bs =>
    if isSecond a b then
      match bs with
      | c :: _ => if 0xF0 ≤ a && 0x80 ≤ c && c ≤ 0xBF then 3 else 2
      | []     => 2
    else 1
  | _ => 1

theorem subpart_pos (bs : Bytes) : 0 < subpart bs := by
  rw [subpart.eq_def]
  split
  case h_1 =>
    split
    case isFalse => exact Nat.one_pos
    case isTrue  =>
      split
      case h_1 => split <;> decide
      case h_2 => decide
  case h_2 => exact Nat.one_pos

-- Reads a sequence of bytes as a text, where U+FFFD stands for all the bytes that could have begun a
-- character.
def decodeLossy : Bytes → List Char
  | []      => []
  | b :: bs =>
    match first? (b :: bs) with
    | some c => c :: decodeLossy (bs.drop (c.utf8Size - 1))
    | none   => '\uFFFD' :: decodeLossy ((b :: bs).drop (subpart (b :: bs)))
termination_by bs => bs.length
decreasing_by
  case _ => simp only [List.length_drop, List.length_cons]; omega
  case _ =>
    have := subpart_pos (b :: bs)
    simp only [List.length_drop, List.length_cons]
    omega

-- A sequence of bytes that is a text.
def IsText (bs : Bytes) : Prop :=
  ∃ cs, encode cs = bs

@[simp]
theorem encode_nil : encode [] = [] :=
  rfl

@[simp]
theorem encode_cons : encode (c :: cs) = String.utf8EncodeChar c ++ encode cs :=
  rfl

theorem encode_append {ds : List Char} : encode (cs ++ ds) = encode cs ++ encode ds :=
  List.flatMap_append

-- What the first character is, in terms of its bytes.
theorem first?_eq_some : first? bs = some c ↔ ∃ rest, bs = String.utf8EncodeChar c ++ rest := by
  constructor
  case mp =>
    intro h
    have ⟨l, hl⟩ := ByteArray.exists_of_utf8DecodeChar?_eq_some h
    have hl := congrArg (fun b => b.data.toList) hl
    refine ⟨l.data.toList, ?_⟩
    simpa only [ByteArray.toList_data_append, List.toList_data_toByteArray] using hl
  case mpr =>
    rintro ⟨rest, rfl⟩
    rw [first?, List.toByteArray_append]
    exact ByteArray.utf8DecodeChar?_utf8EncodeChar_append

theorem length_encodeChar (c : Char) : (String.utf8EncodeChar c).length = c.utf8Size :=
  String.length_utf8EncodeChar c

attribute [local simp] decode decodeLossy

-- A text begins with its first character.
theorem decode_encode_append (c : Char) (bs : Bytes) :
    decode (String.utf8EncodeChar c ++ bs) = c :: decode bs := by
  have hf : first? (String.utf8EncodeChar c ++ bs) = some c := first?_eq_some.mpr ⟨bs, rfl⟩
  have hl := length_encodeChar c
  have hp := c.utf8Size_pos
  cases he : String.utf8EncodeChar c
  case nil => simp [he] at hl; omega
  case cons d ds =>
    rw [he, List.cons_append] at hf
    rw [List.cons_append, decode, hf]
    have hd : (ds ++ bs).drop (c.utf8Size - 1) = bs := by
      rw [← hl, he, List.length_cons, Nat.add_sub_cancel, List.drop_left]
    simp only [hd]

-- Decoding undoes encoding.
theorem decode_encode (cs : List Char) : decode (encode cs) = cs := by
  induction cs
  case nil          => rw [encode_nil, decode]
  case cons c cs hi => rw [encode_cons, decode_encode_append, hi]

-- The two ways in which a sequence of bytes can begin.
theorem decode_cases (hn : bs ≠ []) : ∃ rest, rest.length < bs.length ∧
    ((∃ c, bs = String.utf8EncodeChar c ++ rest ∧ decode bs = c :: decode rest) ∨
      ∃ b, bs = b :: rest ∧ first? bs = none ∧ decode bs = '\uFFFD' :: decode rest) := by
  cases hf : first? bs
  case some c =>
    have ⟨rest, hr⟩ := first?_eq_some.mp hf
    refine ⟨rest, ?_, .inl ⟨c, hr, hr ▸ decode_encode_append c rest⟩⟩
    have := c.utf8Size_pos
    rw [hr, List.length_append, length_encodeChar]
    omega
  case none =>
    have ⟨b, rest, hb⟩ := List.exists_cons_of_ne_nil hn
    refine ⟨rest, by simp [hb], .inr ⟨b, hb, rfl, ?_⟩⟩
    rw [hb] at hf ⊢
    rw [decode, hf]

-- A byte that is replaced makes a text longer.
theorem length_encode_decode (bs : Bytes) : bs.length ≤ (encode (decode bs)).length := by
  by_cases hn : bs = []
  case pos => simp [hn]
  case neg =>
    have ⟨rest, hlt, hc⟩ := decode_cases hn
    have hi := length_encode_decode rest
    obtain ⟨c, hb, hd⟩ | ⟨b, hb, _, hd⟩ := hc <;> rw [hd, encode_cons, List.length_append]
    case inl =>
      simp only [hb, List.length_append]
      omega
    case inr =>
      have hr : (String.utf8EncodeChar '\uFFFD').length = 3 := rfl
      rw [hr, hb, List.length_cons]
      omega
termination_by bs.length

-- What is not a text gets longer.
theorem encode_decode_of_length {bs : Bytes} (h : (encode (decode bs)).length = bs.length) :
    encode (decode bs) = bs := by
  by_cases hn : bs = []
  case pos => simp [hn, decode]
  case neg =>
    have ⟨rest, hlt, hc⟩ := decode_cases hn
    obtain ⟨c, hb, hd⟩ | ⟨b, hb, _, hd⟩ := hc
    case inl =>
      have hi : encode (decode rest) = rest := by
        apply encode_decode_of_length
        rw [hd, encode_cons, List.length_append] at h
        have := congrArg List.length hb
        rw [List.length_append] at this
        omega
      rw [hd, encode_cons, hi, ← hb]
    case inr =>
      have hl := length_encode_decode rest
      have hr : (String.utf8EncodeChar '\uFFFD').length = 3 := rfl
      rw [hd, encode_cons, List.length_append, hr, hb, List.length_cons] at h
      omega
termination_by bs.length

theorem isText_iff : IsText bs ↔ encode (decode bs) = bs := by
  constructor
  case mp  => rintro ⟨cs, rfl⟩; rw [decode_encode]
  case mpr => exact fun h => ⟨_, h⟩

instance : Decidable (IsText bs) :=
  decidable_of_iff _ isText_iff.symm

theorem length_encode_flatMap_decode (l : List Bytes) :
    l.flatten.length ≤ (encode (l.flatMap decode)).length := by
  induction l
  case nil => exact Nat.le_refl _
  case cons bs l hi =>
    have := length_encode_decode bs
    rw [List.flatten_cons, List.flatMap_cons, encode_append, List.length_append, List.length_append]
    omega

-- Pieces that are decoded one by one give the text of the whole exactly if they are all texts.
theorem encode_flatMap_decode {l : List Bytes} :
    encode (l.flatMap decode) = l.flatten ↔ ∀ bs ∈ l, IsText bs := by
  induction l
  case nil => simp
  case cons bs l hi =>
    rw [List.flatMap_cons, encode_append, List.flatten_cons, List.forall_mem_cons, ← hi, isText_iff]
    constructor
    case mpr => exact fun ⟨hb, hl⟩ => by rw [hb, hl]
    case mp  =>
      intro h
      have hlen := congrArg List.length h
      rw [List.length_append, List.length_append] at hlen
      have hb := length_encode_decode bs
      have hl := length_encode_flatMap_decode l
      have hd := @encode_decode_of_length bs (by omega)
      rw [hd] at h
      exact ⟨hd, List.append_cancel_left h⟩

end Utf8
