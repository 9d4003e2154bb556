import Mastermind.Agent.LogTail

open Effects Utf8

namespace Agent.LogTail

-- The texts that have arrived are the text of the file up to the offset that is acknowledged.
def Arrived (s : Tail) : Prop :=
  ∀ id ∈ s.tailer.file,
    encode (s.stored.flatMap String.toList) = (s.files.content id).take s.tailer.ackedOffset

-- The file is only appended to, and uploads succeed.
def AppendOnly (_ : Tail) : Event → Prop
  | .write _     => True
  | .step _ _ up => up = true
  | _            => False

-- What the buffer holds once a read of `n` bytes has filled it.
def Tail.buffer (s : Tail) (id : FileId) (n : Nat) : Bytes :=
  s.tailer.pending ++ ((s.files.content id).drop s.tailer.readOffset).take
    (min (max n 1) (maxChunkSize - s.tailer.pending.length))

-- A buffer that is full or due does not begin or end within a character.
def WholeCharacters (s : Tail) : Event → Prop
  | .step now n _ => ∀ id ∈ s.tailer.file,
    (s.buffer id n).length = maxChunkSize ∨ s.tailer.batchDue now = true → IsText (s.buffer id n)
  | _             => True

instance {s : Tail} {e : Event} : Decidable (AppendOnly s e) := by
  unfold AppendOnly; split <;> infer_instance

instance {s : Tail} {e : Event} : Decidable (WholeCharacters s e) := by
  unfold WholeCharacters; split <;> infer_instance

instance {s : Tail} : Decidable (Arrived s) := by
  unfold Arrived; infer_instance

-- One file has been opened at its beginning. What has been read is delivered or pending.
structure Followed (s : Tail) : Prop where
  file      : s.tailer.file = some 0
  path      : s.files.path = some 0
  single    : ∃ content, s.files.contents = [content]
  reset     : s.tailer.resetPending = false
  replaced  : s.tailer.replaced = false
  missing   : s.tailer.missing = false
  acked     : s.tailer.ackedOffset = s.delivered.flatten.length
  offset    : s.tailer.readOffset = (s.delivered.flatten ++ s.tailer.pending).length
  readBytes : s.delivered.flatten ++ s.tailer.pending <+: s.files.content 0
  size      : s.tailer.pending.length ≤ maxChunkSize
  stored    : s.stored = s.delivered.map Tail.textOf

section

variable {s : Tail} {t : Tailer} {now : ℤ} {n : Nat} {bs : Bytes}

theorem length_unitsOf_le (c : Char) : (Js.unitsOf c).length ≤ c.utf8Size := by
  have hp := c.utf8Size_pos
  rw [Js.unitsOf]
  split
  case isTrue    => exact hp
  case isFalse h =>
    have hs : c.utf8Size = 4 := by
      have hc : c.toNat = c.val.toNat := rfl
      rw [Char.utf8Size, if_neg, if_neg, if_neg]
      all_goals
        simp only [UInt32.le_iff_toNat_le, UInt32.toNat_ofNatLT]
        omega
    simp [hs]

theorem units_decode (bs : Bytes) : ((decode bs).flatMap Js.unitsOf).length ≤ bs.length := by
  by_cases hn : bs = []
  case pos => simp [hn, decode]
  case neg =>
    obtain ⟨rest, hlt, hc⟩ := decode_cases hn
    have hi := units_decode rest
    obtain ⟨c, hb, hd⟩ | ⟨b, hb, _, hd⟩ := hc <;> rw [hd, List.flatMap_cons, List.length_append]
    case inl =>
      have hu := length_unitsOf_le c
      have := congrArg List.length hb
      rw [List.length_append, length_encodeChar] at this
      omega
    case inr =>
      have hr : (Js.unitsOf '\uFFFD').length = 1 := rfl
      rw [hr, hb, List.length_cons]
      omega
termination_by bs.length

-- The control plane stores every chunk that the tailer can send.
theorem append_textOf (contents : List String) (hn : bs ≠ []) (hl : bs.length ≤ maxChunkSize) :
    Logs.append (Tail.textOf bs) contents = .ok (contents ++ [Tail.textOf bs]) := by
  have hu : (Js.units (Tail.textOf bs)).length ≤ 65536 := by
    rw [Js.units, Tail.textOf, String.toList_ofList]
    exact (units_decode bs).trans hl
  have ht : Tail.textOf bs ≠ "" := by
    intro h
    have hd : decode bs = [] := by simpa [Tail.textOf] using congrArg String.toList h
    have hl := length_encode_decode bs
    rw [hd, encode_nil] at hl
    exact hn (List.eq_nil_of_length_eq_zero (Nat.le_zero.mp hl))
  rw [Logs.append, if_neg ht, if_neg (by omega)]

theorem pending_ne_nil (h : t.flushDue now = true) : t.pending ≠ [] := by
  rintro hn
  simp [Tailer.flushDue, Tailer.batchDue, hn, maxChunkSize] at h

namespace Followed

theorem length_le (h : Followed s) : s.tailer.readOffset ≤ (s.files.content 0).length :=
  h.offset ▸ h.readBytes.length_le

theorem observePath (h : Followed s) : s.tailer.observePath s.files 0 = s.tailer := by
  rw [Tailer.observePath, if_neg (Nat.not_lt_of_le h.length_le), h.path]
  have hm := h.missing
  have hr := h.replaced
  cases ht : s.tailer
  simp_all

-- More of the file is read.
theorem readMore (h : Followed s) {bytes : Bytes} {since : ℤ}
    (hb : bytes <+: (s.files.content 0).drop s.tailer.readOffset)
    (hl : (s.tailer.pending ++ bytes).length ≤ maxChunkSize) :
    Followed { s with
      tailer := { s.tailer with
        pendingSince := since
        pending      := s.tailer.pending ++ bytes
        readOffset   := s.tailer.readOffset + bytes.length } } := by
  have ho := h.offset
  exact { h with
    offset    := by simp only [← List.append_assoc, List.length_append] at ho ⊢; omega
    readBytes := by
      have ⟨rest, hr⟩ := h.readBytes
      have ⟨rest', hr'⟩ := hb
      refine ⟨rest', ?_⟩
      have hd : (s.files.content 0).drop s.tailer.readOffset = rest := by
        rw [← hr, ho, List.drop_left]
      simp only [← List.append_assoc] at hr ⊢
      rw [List.append_assoc, hr', hd, hr]
    size      := hl }

-- A step reads some of the bytes that come after those that have been read.
theorem read (h : Followed s) (now : ℤ) (n : Nat) :
    Followed { s with tailer := s.tailer.read s.files 0 now n } ∧
    (s.tailer.read s.files 0 now n).pending = s.buffer 0 n ∧
    ((s.tailer.read s.files 0 now n).flushDue now = true ↔
      (s.buffer 0 n).length = maxChunkSize ∨ s.tailer.batchDue now = true) := by
  have hs := h.size
  rw [Tailer.read]
  split
  case isFalse hl =>
    have hb : s.buffer 0 n = s.tailer.pending := by
      have hm : maxChunkSize - s.tailer.pending.length = 0 := by simp [h.reset] at hl; omega
      rw [Tail.buffer, hm, Nat.min_zero, List.take_zero, List.append_nil]
    exact ⟨h, hb.symm, by simp [Tailer.flushDue, hb]⟩
  case isTrue hl =>
    simp only
    split
    case isTrue hn =>
      refine ⟨?_, rfl, ?_⟩
      · apply h.readMore (List.take_prefix _ _)
        rw [List.length_append, List.length_take]
        omega
      · by_cases hp : s.tailer.pending = []
        case neg => simp [Tailer.flushDue, Tailer.batchDue, Tail.buffer, hp]
        case pos => simp [Tailer.flushDue, Tailer.batchDue, Tail.buffer, hp, batchLatency]
    case isFalse hn =>
      have hb : s.buffer 0 n = s.tailer.pending := by
        rw [Tail.buffer, not_ne_iff.mp hn, List.append_nil]
      have hc : ¬((s.tailer.replaced = true ∨ s.tailer.missing = true) ∧ s.tailer.pending ≠ []) := by
        simp [h.replaced, h.missing]
      rw [if_neg hc]
      exact ⟨h, hb.symm, by simp [Tailer.flushDue, hb]⟩

theorem filled (h : Followed s) (now : ℤ) (n : Nat) :
    s.filled? now n = some (s.tailer.read s.files 0 now n) := by
  simp only [Tail.filled?, h.file, Tail.fill, h.observePath, h.reset, Bool.false_eq_true, false_and,
    if_false]

end Followed

-- What is pending is delivered.
theorem Followed.flush (h : Followed s) (hn : s.tailer.pending ≠ []) :
    ∃ s', s.flush true = some s' ∧ Followed s' ∧ s'.delivered = s.delivered ++ [s.tailer.pending] := by
  have ha := append_textOf s.stored hn h.size
  have hf : s.flush true = some { s with
      delivered := s.delivered ++ [s.tailer.pending]
      stored    := s.stored ++ [Tail.textOf s.tailer.pending]
      tailer    := s.tailer.flushed } := by
    simp only [Tail.flush, if_neg hn, Tail.streamLogBytes, if_true, ha, Option.map_some]
  have hd : (s.delivered ++ [s.tailer.pending]).flatten = s.delivered.flatten ++ s.tailer.pending := by
    simp
  refine ⟨_, hf, ?_, rfl⟩
  exact {
    file      := h.file
    path      := h.path
    single    := h.single
    reset     := h.reset
    replaced  := h.replaced
    missing   := h.missing
    acked     := by rw [hd, List.length_append, ← h.acked]; rfl
    offset    := by rw [hd]; simpa [Tailer.flushed] using h.offset
    readBytes := by rw [hd]; simpa [Tailer.flushed] using h.readBytes
    size      := Nat.zero_le _
    stored    := by simp [h.stored] }

-- A step delivers what is in the buffer, or nothing.
theorem Followed.step (h : Followed s) (now : ℤ) (n : Nat) : Followed (s.step now n true) ∧
    (s.step now n true).delivered =
      if (s.buffer 0 n).length = maxChunkSize ∨ s.tailer.batchDue now = true
      then s.delivered ++ [s.buffer 0 n] else s.delivered := by
  have ⟨hf, hb, hd⟩ := h.read now n
  rw [Tail.step, h.filled now n, ← hb, if_congr (hb ▸ hd.symm) rfl rfl]
  have hp : s.files.path = some 0 := h.path
  have hr : (s.tailer.read s.files 0 now n).replaced = false := hf.replaced
  cases hd : (s.tailer.read s.files 0 now n).flushDue now
  case false =>
    simp only [hd, Bool.false_eq_true, if_false, hp, hr, and_false]
    exact ⟨hf, trivial⟩
  case true =>
    have ⟨s', hs', hf', hd'⟩ := hf.flush (pending_ne_nil hd)
    simp only [hd, if_true, hs', hf'.path, hf'.replaced, Bool.false_eq_true, and_false, if_false]
    exact ⟨hf', hd'⟩

theorem Followed.write (h : Followed s) (bytes : Bytes) :
    Followed { s with files := s.files.change (· ++ bytes) } := by
  have ⟨content, hc⟩ := h.single
  have hf : s.files.change (· ++ bytes) = ⟨[content ++ bytes], some 0⟩ := by
    simp [Files.change, h.path, hc]
  have hr := h.readBytes
  rw [hf]
  simp only [Files.content, hc, List.getElem?_cons_zero, Option.getD_some] at hr
  exact { h with
    path      := rfl
    single    := ⟨_, rfl⟩
    readBytes := hr.trans (List.prefix_append _ _) }

-- The texts have arrived exactly if all chunks are texts.
theorem Followed.arrived_iff (h : Followed s) : Arrived s ↔ ∀ chunk ∈ s.delivered, IsText chunk := by
  have hs : s.stored.flatMap String.toList = s.delivered.flatMap decode := by
    rw [h.stored, List.flatMap_map]
    simp only [Tail.textOf, String.toList_ofList]
  have hp : (s.files.content 0).take s.tailer.ackedOffset = s.delivered.flatten := by
    have ⟨rest, hr⟩ := h.readBytes
    rw [h.acked, ← hr, List.append_assoc, List.take_left]
  simp only [Arrived, h.file, Option.mem_def, Option.some.injEq, forall_eq', hs, hp]
  exact encode_flatMap_decode

end

variable {s : Tail} {e : Event} {es : List Event} {present : Bytes}

-- An event adds a chunk that is a text exactly if it keeps characters whole.
theorem Followed.next (h : Followed s) (ha : AppendOnly s e) : Followed (tailing.next s e) ∧
    ((∀ chunk ∈ (tailing.next s e).delivered, IsText chunk) ↔
      (∀ chunk ∈ s.delivered, IsText chunk) ∧ WholeCharacters s e) := by
  cases e
  case write bytes => exact ⟨h.write bytes, by simp [WholeCharacters]⟩
  case replace     => exact ha.elim
  case truncate    => exact ha.elim
  case remove      => exact ha.elim
  case step now n up =>
    obtain rfl : up = true := ha
    have ⟨hf, hd⟩ := h.step now n
    refine ⟨hf, ?_⟩
    simp only [hd, WholeCharacters, h.file, Option.mem_def, Option.some.injEq, forall_eq']
    split
    case isTrue hd  => simp [hd, or_imp, forall_and]
    case isFalse hd => simp [hd]

theorem Followed.run (h : Followed s) (hm : tailing.Meets AppendOnly s es) :
    Followed (tailing.run s es) ∧
    ((∀ chunk ∈ (tailing.run s es).delivered, IsText chunk) ↔
      (∀ chunk ∈ s.delivered, IsText chunk) ∧ tailing.Meets WholeCharacters s es) := by
  induction es generalizing s
  case nil =>
    refine ⟨h, ?_⟩
    rw [System.Meets, and_true]
    exact Iff.rfl
  case cons e es hi =>
    obtain ⟨hf, hd⟩ := h.next hm.left
    obtain ⟨hf', hd'⟩ := hi hf hm.right
    refine ⟨hf', ?_⟩
    rw [System.run_cons, hd', hd, System.Meets, and_assoc]

theorem Followed.opened (hp : present.length ≤ initialTail) : Followed (Tail.opened present) := by
  have ho : Tailer.open? {} ⟨[present], some 0⟩ =
      some { file := some 0, initialized := true } := by
    have hn : ¬initialTail < present.length := Nat.not_lt_of_le hp
    simp [Tailer.open?, Files.content, hn]
  rw [Tail.opened, ho]
  exact {
    file      := rfl
    path      := rfl
    single    := ⟨_, rfl⟩
    reset     := rfl
    replaced  := rfl
    missing   := rfl
    acked     := rfl
    offset    := rfl
    readBytes := List.nil_prefix
    size      := Nat.zero_le _
    stored    := rfl }

-- The text of a log that is only appended to arrives unchanged exactly if no upload begins or ends
-- within a character.
theorem text_arrived_iff (hp : present.length ≤ initialTail)
    (hm : tailing.Meets AppendOnly (Tail.opened present) es) :
    Arrived (tailing.run (Tail.opened present) es) ↔
      tailing.Meets WholeCharacters (Tail.opened present) es := by
  have ⟨hf, hd⟩ := (Followed.opened hp).run hm
  have hn : (Tail.opened present).delivered = [] := rfl
  rw [hf.arrived_iff, hd, hn]
  simp

-- An accented letter in one piece.
theorem text_arrived_whole : Arrived (tailing.run (Tail.opened [])
    [.write [0xC3, 0xA9], .step 0 10 true, .step 400 10 true]) :=
  (text_arrived_iff (Nat.zero_le _) (by decide +kernel)).mpr (by decide +kernel)

-- Its second byte is written when the first one has been uploaded.
theorem text_lost_cut : let es : List Event := [.write [0xC3], .step 0 10 true, .step 400 10 true,
      .write [0xA9], .step 500 10 true, .step 900 10 true]
    tailing.Meets AppendOnly (Tail.opened []) es ∧
    IsText ((tailing.run (Tail.opened []) es).files.content 0) ∧
    (tailing.run (Tail.opened []) es).tailer.ackedOffset = 2 ∧
    ¬Arrived (tailing.run (Tail.opened []) es) := by
  decide +kernel

end Agent.LogTail
