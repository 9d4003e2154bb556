import Mastermind.Agent.Theorems.LogText

open Effects Utf8

namespace Agent.LogTail

-- The tailer has not opened the file yet.
def Tail.unopened (present : Bytes) : Tail :=
  { files := ⟨[present], some 0⟩ }

-- The bytes from one offset to another.
def slice (bs : Bytes) (start stop : Nat) : Bytes :=
  (bs.take stop).drop start

-- The files are appended to, renamed and replaced, but not truncated.
def Rotates (_ : Tail) : Event → Prop
  | .truncate _ => False
  | _           => True

-- The file is only appended to.
def Appends (_ : Tail) : Event → Prop
  | .write _ => True
  | .step .. => True
  | _        => False

-- What the tailer has left behind is delivered, from its start on.
def Delivered (start : Nat) (left : List FileId) (s : Tail) : Prop :=
  (left.flatMap s.files.content).drop start <+: s.delivered.flatten

-- The offset at which the tailer opens its file in the course of a run.
def startIn (s : Tail) : List Event → Nat
  | []      => 0
  | e :: es =>
    match (tailing.next s e).tailer.file with
    | some id => (s.files.content id).length - initialTail
    | none    => startIn (tailing.next s e) es

-- The tailer has left some files and follows the file `id`. What it has read of that one is delivered
-- or pending.
structure Tracks (start : Nat) (left : List FileId) (id : FileId) (s : Tail) : Prop where
  file      : s.tailer.file = some id
  reset     : s.tailer.resetPending = false
  offset    : s.tailer.readOffset = s.tailer.ackedOffset + s.tailer.pending.length
  length    : s.tailer.readOffset ≤ (s.files.content id).length
  pending   : s.tailer.pending = slice (s.files.content id) s.tailer.ackedOffset s.tailer.readOffset
  begun     : start ≤ (left.flatMap s.files.content).length + s.tailer.ackedOffset
  delivered : s.delivered.flatten =
    (left.flatMap s.files.content ++ (s.files.content id).take s.tailer.ackedOffset).drop start
  size      : s.tailer.pending.length ≤ maxChunkSize
  chunks    : ∀ chunk ∈ s.delivered, chunk.length ≤ maxChunkSize
  behind    : ∀ l ∈ left, l < id
  created   : id < s.files.contents.length
  named     : ∀ path ∈ s.files.path, id ≤ path ∧ path < s.files.contents.length

section

variable {s : Tail} {start : Nat} {left : List FileId} {id : FileId} {now : ℤ} {n : Nat}
  {bs bytes : Bytes}

theorem content_change {g : Bytes → Bytes} (hn : s.files.path ≠ some id) :
    (s.files.change g).content id = s.files.content id := by
  rw [Files.change]
  cases hp : s.files.path
  case none      => rfl
  case some path =>
    have hn : path ≠ id := fun h => hn (h ▸ hp)
    simp [Files.content, hn]

-- The bytes of a file stay where they are when it is appended to.
theorem take_content_write {i : Nat} (hi : i ≤ (s.files.content id).length) :
    ((s.files.change (· ++ bytes)).content id).take i = (s.files.content id).take i := by
  by_cases hp : s.files.path = some id
  case neg => rw [content_change hp]
  case pos =>
    rw [Files.change, hp]
    cases hc : s.files.contents[id]?
    case none         => simp [Files.content, hc]
    case some content =>
      have hi : i ≤ content.length := by simpa [Files.content, hc] using hi
      simp [Files.content, hc, List.take_append_of_le_length hi]

theorem length_content_write :
    (s.files.content id).length ≤ ((s.files.change (· ++ bytes)).content id).length := by
  have ht : ((s.files.change (· ++ bytes)).content id).take (s.files.content id).length = _ :=
    take_content_write le_rfl
  have h := congrArg List.length ht
  simp only [List.length_take] at h
  omega

theorem length_change {g : Bytes → Bytes} :
    (s.files.change g).contents.length = s.files.contents.length := by
  rw [Files.change]
  split <;> simp

theorem path_change {g : Bytes → Bytes} : (s.files.change g).path = s.files.path := by
  rw [Files.change]
  split <;> simp_all

-- More bytes of a slice.
theorem slice_append {i j k : Nat} (hi : i ≤ j) (hj : j ≤ bs.length) :
    slice bs i (j + k) = slice bs i j ++ (bs.drop j).take k := by
  rw [slice, slice, List.take_add, List.drop_append_of_le_length]
  rw [List.length_take]
  omega

-- The buffer is full once a read has filled it, or it was due before.
def Tail.Flushes (s : Tail) (id : FileId) (now : ℤ) (n : Nat) : Prop :=
  (s.buffer id n).length = maxChunkSize ∨ s.tailer.batchDue now = true

-- A read reaches the end of the file.
def Tail.AtEnd (s : Tail) (id : FileId) (n : Nat) : Prop :=
  s.buffer id n = s.tailer.pending ++ (s.files.content id).drop s.tailer.readOffset

-- An upload that empties the buffer while the path names another file, comes after a read that has
-- reached the end.
def ReadsToEnd (s : Tail) : Event → Prop
  | .step now n up =>
    ∀ id ∈ s.tailer.file, ∀ path ∈ s.files.path, path ≠ id → up = true → s.Flushes id now n →
      s.AtEnd id n
  | _              => True

-- The end of a step.
def Tail.follow (s : Tail) : Tail :=
  match s.files.path with
  | some path =>
    if s.tailer.pending = [] ∧ s.tailer.replaced = true then
      { s with tailer := s.tailer.switchToReplacement path }
    else s
  | none => s

theorem files_flush {s' : Tail} {up : Bool} (h : s.flush up = some s') : s'.files = s.files := by
  rw [Tail.flush] at h
  split at h
  case isTrue  => exact Option.some.inj h ▸ rfl
  case isFalse =>
    obtain ⟨t, ht, hs⟩ := Option.map_eq_some_iff.mp h
    rw [Tail.streamLogBytes] at ht
    split at ht
    case isFalse => cases ht
    case isTrue  =>
      split at ht
      case h_1 => exact hs ▸ Option.some.inj ht ▸ rfl
      case h_2 => cases ht

theorem files_follow : s.follow.files = s.files := by
  rw [Tail.follow]
  split
  case h_1 => split <;> rfl
  case h_2 => rfl

-- The tailer does nothing to the files.
theorem files_step (now : ℤ) (n : Nat) (up : Bool) : (s.step now n up).files = s.files := by
  rw [Tail.step]
  split
  case h_1     => rfl
  case h_2 t _ =>
    have hf {s' : Tail} (h : (if t.flushDue now then { s with tailer := t }.flush up else
        some { s with tailer := t }) = some s') : s'.files = s.files := by
      split at h
      case isTrue  => exact files_flush (s := { s with tailer := t }) h
      case isFalse => exact Option.some.inj h ▸ rfl
    simp only
    split
    case h_1       => rfl
    case h_2 s' hs => exact files_follow.trans (hf hs)

namespace Tracks

-- What happens to the files does not matter as long as nothing that has been read changes.
theorem files (h : Tracks start left id s) {files : Files}
    (hc : ∀ i ≤ (s.files.content id).length, (files.content id).take i = (s.files.content id).take i)
    (hl : (s.files.content id).length ≤ (files.content id).length)
    (hf : ∀ l ∈ left, files.content l = s.files.content l) (hn : id < files.contents.length)
    (hp : ∀ path ∈ files.path, id ≤ path ∧ path < files.contents.length) :
    Tracks start left id { s with files } := by
  have hm : left.flatMap files.content = left.flatMap s.files.content :=
    List.flatMap_congr hf
  have ho := h.offset
  have hr := h.length
  exact { h with
    length    := hr.trans hl
    pending   := by simpa only [slice, hc _ hr] using h.pending
    begun     := by simpa only [hm] using h.begun
    delivered := by
      simp only [hm, hc s.tailer.ackedOffset (by omega)]
      exact h.delivered
    created   := hn
    named     := hp }

theorem write (h : Tracks start left id s) (bytes : Bytes) :
    Tracks start left id { s with files := s.files.change (· ++ bytes) } := by
  refine h.files (fun _ => take_content_write) length_content_write ?_ ?_ ?_
  case refine_1 =>
    intro l hl
    apply content_change
    intro hp
    exact absurd (h.behind l hl) (Nat.not_lt_of_le (h.named l hp).left)
  case refine_2 => exact length_change ▸ h.created
  case refine_3 => simpa only [path_change, length_change] using h.named

theorem replace (h : Tracks start left id s) (bytes : Bytes) :
    Tracks start left id
      { s with files := ⟨s.files.contents ++ [bytes], some s.files.contents.length⟩ } := by
  have hk : ∀ l < s.files.contents.length, (s.files.contents ++ [bytes])[l]? = s.files.contents[l]? :=
    fun l hl => List.getElem?_append_left hl
  have hi := h.created
  refine h.files ?_ ?_ ?_ ?_ ?_
  case refine_1 => intro i _; simp only [Files.content, hk id hi]
  case refine_2 => simp only [Files.content, hk id hi, le_refl]
  case refine_3 =>
    intro l hl
    simp only [Files.content, hk l ((h.behind l hl).trans hi)]
  case refine_4 =>
    rw [List.length_append]
    exact hi.trans (Nat.lt_succ_self _)
  case refine_5 =>
    intro path hp
    obtain rfl : s.files.contents.length = path := Option.some.inj hp
    rw [List.length_append]
    exact ⟨hi.le, Nat.lt_succ_self _⟩

theorem remove (h : Tracks start left id s) :
    Tracks start left id { s with files := { s.files with path := none } } :=
  h.files (fun _ _ => rfl) le_rfl (fun _ _ => rfl) h.created nofun

-- The tailer takes note of what the path names.
theorem observe (h : Tracks start left id s) :
    ∃ missing replaced,
      s.tailer.observePath s.files id = { s.tailer with missing, replaced } ∧
      (∀ path ∈ s.files.path, replaced = decide (id ≠ path)) := by
  rw [Tailer.observePath, if_neg (Nat.not_lt_of_le h.length)]
  cases hp : s.files.path
  case none      => exact ⟨true, s.tailer.replaced, rfl, by rintro _ ⟨⟩⟩
  case some path => exact ⟨false, _, rfl, fun _ h => Option.some.inj h ▸ rfl⟩

-- The tailer has read all that it can take.
theorem readMore (h : Tracks start left id s) (missing replaced : Bool) (since : ℤ)
    (hl : (s.buffer id n).length ≤ maxChunkSize) :
    Tracks start left id { s with
      tailer := { s.tailer with
        missing, replaced
        pendingSince := since
        pending      := s.buffer id n
        readOffset   := s.tailer.ackedOffset + (s.buffer id n).length } } := by
  have ho := h.offset
  have hr := h.length
  generalize hk : min (max n 1) (maxChunkSize - s.tailer.pending.length) = k
  have hb : s.buffer id n = s.tailer.pending ++ ((s.files.content id).drop s.tailer.readOffset).take k := by
    rw [Tail.buffer, hk]
  have hs : s.tailer.ackedOffset + (s.buffer id n).length =
      s.tailer.readOffset + min k ((s.files.content id).length - s.tailer.readOffset) := by
    rw [hb, List.length_append, List.length_take, List.length_drop]
    omega
  exact { h with
    offset  := rfl
    length  := by
      simp only [hs]
      omega
    pending := by
      simp only [hs]
      rw [slice_append (by omega) hr, ← h.pending, hb, List.take_eq_take_min, List.length_drop]
    size    := hl }

-- A step reads, and then it flushes if the buffer was full or due or if there is no more to read.
theorem fill (h : Tracks start left id s) (now : ℤ) (n : Nat) :
    ∃ missing replaced since,
      s.fill s.tailer id now n = { s.tailer with
        missing, replaced
        pendingSince := since
        pending      := s.buffer id n
        readOffset   := s.tailer.ackedOffset + (s.buffer id n).length } ∧
      (s.buffer id n).length ≤ maxChunkSize ∧
      (∀ path ∈ s.files.path, replaced = decide (id ≠ path)) ∧
      ((s.fill s.tailer id now n).flushDue now = true → s.Flushes id now n ∨ s.AtEnd id n) ∧
      (s.Flushes id now n → (s.fill s.tailer id now n).flushDue now = true) := by
  have ⟨missing, replaced, ho, hr⟩ := h.observe
  have hx := h.reset
  have hs := h.size
  have hk {p q r : Prop} (hi : p ↔ q) : (p → q ∨ r) ∧ (q → p) := ⟨fun hp => .inl (hi.mp hp), hi.mpr⟩
  simp only [Tail.fill, ho, hx, Bool.false_eq_true, false_and, if_false]
  rw [Tailer.read]
  split
  case isFalse hl =>
    have hl : s.tailer.pending.length = maxChunkSize := by simp at hl; omega
    have hb : s.buffer id n = s.tailer.pending := by
      rw [Tail.buffer, hl, Nat.sub_self, Nat.min_zero, List.take_zero, List.append_nil]
    refine ⟨missing, replaced, s.tailer.pendingSince, ?_, hb ▸ hs, hr, fun _ => .inl (.inl ?_), ?_⟩
    case refine_1 => rw [hb, ← h.offset]
    case refine_2 => rw [hb, hl]
    case refine_3 => simp [Tailer.flushDue, hl]
  case isTrue hl =>
    have hl : s.tailer.pending.length < maxChunkSize := hl.left
    have ho : s.tailer.readOffset = s.tailer.ackedOffset + s.tailer.pending.length := h.offset
    have hm : (s.buffer id n).length ≤ maxChunkSize := by
      rw [Tail.buffer, List.length_append, List.length_take]
      omega
    simp only
    split
    case isTrue hb =>
      let since := if s.tailer.pending = [] then now else s.tailer.pendingSince
      refine ⟨missing, replaced, since, ?_, hm, hr, ?_⟩
      case refine_1 => rw [Tail.buffer, List.length_append, ← Nat.add_assoc, ← ho]
      case refine_2 =>
        apply hk
        by_cases hp : s.tailer.pending = []
        case neg => simp [Tailer.flushDue, Tailer.batchDue, Tail.Flushes, Tail.buffer, hp]
        case pos =>
          simp [Tailer.flushDue, Tailer.batchDue, Tail.Flushes, Tail.buffer, hp, batchLatency]
    case isFalse hb =>
      have hb := not_ne_iff.mp hb
      have hd : (s.files.content id).drop s.tailer.readOffset = [] := by
        refine (List.take_eq_nil_iff.mp hb).resolve_left ?_
        omega
      have he : s.buffer id n = s.tailer.pending := by rw [Tail.buffer, hd, List.take_nil, List.append_nil]
      have ha : s.AtEnd id n := by rw [Tail.AtEnd, he, hd, List.append_nil]
      split
      case isTrue hn =>
        refine ⟨missing, replaced, now - batchLatency, ?_, hm, hr, fun _ => .inr ha, fun _ => ?_⟩
        case refine_1 => rw [he, ← ho]
        case refine_2 => simp [Tailer.flushDue, Tailer.batchDue, hn.right]
      case isFalse =>
        refine ⟨missing, replaced, s.tailer.pendingSince, ?_, hm, hr, fun _ => .inr ha, ?_⟩
        case refine_1 => rw [he, ← ho]
        case refine_2 => simp [Tailer.flushDue, Tailer.batchDue, Tail.Flushes, he]

-- What is pending is delivered.
theorem flush (h : Tracks start left id s) (hn : s.tailer.pending ≠ []) :
    ∃ stored,
      s.flush true = some { s with
        stored
        delivered := s.delivered ++ [s.tailer.pending]
        tailer    := s.tailer.flushed } ∧
      Tracks start left id { s with
        stored
        delivered := s.delivered ++ [s.tailer.pending]
        tailer    := s.tailer.flushed } := by
  have hf := append_textOf s.stored hn h.size
  have ho := h.offset
  have hr := h.length
  refine ⟨s.stored ++ [Tail.textOf s.tailer.pending], ?_, ?_⟩
  case refine_1 => simp only [Tail.flush, if_neg hn, Tail.streamLogBytes, if_true, hf, Option.map_some]
  case refine_2 =>
    exact {
      file      := h.file
      reset     := h.reset
      offset    := by simpa [Tailer.flushed] using ho
      length    := hr
      pending   := by simp [Tailer.flushed, slice, ho]
      begun     := h.begun.trans (Nat.add_le_add_left (Nat.le_add_right _ _) _)
      delivered := by
        have hp : s.tailer.pending =
            ((s.files.content id).drop s.tailer.ackedOffset).take s.tailer.pending.length := by
          conv => lhs; rw [h.pending, slice, ho, List.drop_take, Nat.add_sub_cancel_left]
        have hb := h.begun
        simp only [Tailer.flushed, List.flatten_append, List.flatten_singleton, h.delivered]
        have hl : start ≤ (left.flatMap s.files.content ++
            (s.files.content id).take s.tailer.ackedOffset).length := by
          rw [List.length_append, List.length_take]
          omega
        rw [List.take_add, ← List.append_assoc, ← hp, List.drop_append_of_le_length hl]
      size      := Nat.zero_le _
      chunks    := by
        intro chunk hc
        obtain hc | hc := List.mem_append.mp hc
        case inl => exact h.chunks chunk hc
        case inr => exact List.mem_singleton.mp hc ▸ h.size
      behind    := h.behind
      created   := h.created
      named     := h.named }

-- The tailer leaves a file that has been delivered.
theorem switch (h : Tracks start left id s) {path : FileId} (hp : s.files.path = some path)
    (hn : id ≠ path) (he : s.tailer.pending = [])
    (hd : (s.files.content id).length ≤ s.tailer.ackedOffset) :
    Tracks start (left ++ [id]) path { s with tailer := s.tailer.switchToReplacement path } := by
  have ⟨hl, hc⟩ := h.named path hp
  exact {
    file      := rfl
    reset     := rfl
    offset    := by simp [Tailer.switchToReplacement, he]
    length    := Nat.zero_le _
    pending   := by simp [Tailer.switchToReplacement, he, slice]
    begun     := by
      have hb := h.begun
      have ha := h.offset ▸ h.length
      simp only [Tailer.switchToReplacement, List.flatMap_append, List.length_append, List.flatMap_singleton]
      omega
    delivered := by
      have hd := h.delivered
      rw [List.take_of_length_le ‹_›] at hd
      simpa [Tailer.switchToReplacement] using hd
    size      := h.size
    chunks    := h.chunks
    behind    := by
      have hl : id < path := lt_of_le_of_ne hl hn
      intro l hm
      obtain hm | hm := List.mem_append.mp hm
      case inl => exact (h.behind l hm).trans hl
      case inr => exact List.mem_singleton.mp hm ▸ hl
    created   := hc
    named     := fun path' hp' => by
      obtain rfl : path = path' := Option.some.inj (hp.symm.trans hp')
      exact ⟨le_rfl, hc⟩ }

theorem delivers (h : Tracks start left id s) : Delivered start left s := by
  rw [Delivered, h.delivered, List.drop_append]
  exact List.prefix_append _ _

-- The tailer leaves a file that has not been delivered.
theorem not_delivers {t : Tailer} (h : Tracks start left id s)
    (hd : s.tailer.ackedOffset < (s.files.content id).length) :
    ¬Delivered start (left ++ [id]) { s with tailer := t } := by
  intro hp
  have hl := hp.length_le
  have hb := h.begun
  simp only [h.delivered, List.length_drop, List.flatMap_append, List.flatMap_singleton,
    List.length_append, List.length_take] at hl
  omega

theorem atEnd_iff (h : Tracks start left id s) :
    s.AtEnd id n ↔ (s.files.content id).length ≤ s.tailer.ackedOffset + (s.buffer id n).length := by
  have ho := h.offset
  have hr := h.length
  rw [Tail.AtEnd, Tail.buffer, List.append_cancel_left_eq, List.take_eq_self_iff, List.length_append,
    List.length_take, List.length_drop]
  omega

theorem atEnd_of_nil (h : s.buffer id n = []) : s.AtEnd id n := by
  have ⟨hp, ht⟩ := List.append_eq_nil_iff.mp h
  have hd : (s.files.content id).drop s.tailer.readOffset = [] := by
    refine (List.take_eq_nil_iff.mp ht).resolve_left ?_
    simp [hp, maxChunkSize]
  rw [Tail.AtEnd, h, hp, hd, List.nil_append]

-- The end of a step, when the buffer has been flushed or there was no reason to.
theorem follow (h : Tracks start left id s) {C : Prop}
    (hr : ∀ path ∈ s.files.path, s.tailer.replaced = decide (id ≠ path))
    (hc : (∀ path ∈ s.files.path, path ≠ id → s.tailer.pending = [] →
      (s.files.content id).length ≤ s.tailer.ackedOffset) → C)
    (hc' : ∀ path ∈ s.files.path, path ≠ id → s.tailer.pending = [] → C →
      (s.files.content id).length ≤ s.tailer.ackedOffset) :
    (Tracks start left id s.follow ∧ C) ∨
    ∃ path, s.files.path = some path ∧ path ≠ id ∧ s.follow.tailer.file = some path ∧
      (C → Tracks start (left ++ [id]) path s.follow) ∧
      (¬C → ¬Delivered start (left ++ [id]) s.follow) := by
  have hs (hn : ∀ path ∈ s.files.path, path ≠ id → s.tailer.pending ≠ []) :
      s.follow = s ∧ C := by
    refine ⟨?_, hc fun path hp hi he => absurd he (hn path hp hi)⟩
    rw [Tail.follow]
    cases hp : s.files.path
    case none      => rfl
    case some path =>
      apply if_neg
      simp only [hr path hp, decide_eq_true_eq]
      exact fun ⟨he, hi⟩ => hn path hp hi.symm he
  by_cases hn : ∃ path ∈ s.files.path, path ≠ id ∧ s.tailer.pending = []
  case neg =>
    have ⟨hf, hC⟩ := hs fun path hp hi he => hn ⟨path, hp, hi, he⟩
    exact .inl ⟨hf.symm ▸ h, hC⟩
  case pos =>
    have ⟨path, hp, hi, he⟩ := hn
    have hp : s.files.path = some path := hp
    have hf : s.follow = { s with tailer := s.tailer.switchToReplacement path } := by
      simp [Tail.follow, hp, he, hr path hp, hi.symm]
    refine .inr ⟨path, hp, hi, hf ▸ rfl, ?_, ?_⟩ <;> rw [hf] <;> intro hC
    case refine_1 => exact h.switch hp hi.symm he (hc' path hp hi he hC)
    case refine_2 =>
      apply h.not_delivers
      by_contra hd
      refine hC (hc fun _ _ _ _ => Nat.le_of_not_lt hd)

-- A step stays with its file, or it leaves one that is delivered if the read has reached its end.
theorem step (h : Tracks start left id s) (now : ℤ) (n : Nat) (up : Bool) :
    (Tracks start left id (s.step now n up) ∧ ReadsToEnd s (.step now n up)) ∨
    ∃ path, s.files.path = some path ∧ path ≠ id ∧ (s.step now n up).tailer.file = some path ∧
      (ReadsToEnd s (.step now n up) → Tracks start (left ++ [id]) path (s.step now n up)) ∧
      (¬ReadsToEnd s (.step now n up) → ¬Delivered start (left ++ [id]) (s.step now n up)) := by
  obtain ⟨missing, replaced, since, hf, hl, hr, hd, hd'⟩ := h.fill now n
  have ht := h.readMore missing replaced since hl
  rw [← hf] at ht
  have hp : (s.fill s.tailer id now n).pending = s.buffer id n := by rw [hf]
  have ha : (s.fill s.tailer id now n).ackedOffset = s.tailer.ackedOffset := by rw [hf]
  have hr : ∀ path ∈ s.files.path, (s.fill s.tailer id now n).replaced = decide (id ≠ path) := by
    rw [hf]
    exact hr
  have hs : s.filled? now n = some (s.fill s.tailer id now n) := by simp only [Tail.filled?, h.file]
  generalize s.fill s.tailer id now n = t at ht hp ha hr hd hd' hs
  have hc : ReadsToEnd s (.step now n up) ↔
      ∀ path ∈ s.files.path, path ≠ id → up = true → s.Flushes id now n → s.AtEnd id n := by
    simp [ReadsToEnd, h.file]
  rw [hc]
  cases hq : t.flushDue now
  case false =>
    have hn : ¬s.Flushes id now n := fun h => by cases (hd' h).symm.trans hq
    have hx : s.step now n up = { s with tailer := t }.follow := by
      simp only [Tail.step, hs, hq, Bool.false_eq_true, if_false]
      rfl
    rw [hx]
    apply ht.follow hr
    case hc  => exact fun _ _ _ _ _ hf => absurd hf hn
    case hc' =>
      intro path hm hi he _
      have he : s.buffer id n = [] := hp.symm.trans he
      simpa [he, ha] using h.atEnd_iff.mp (atEnd_of_nil he)
  case true =>
    have hn : t.pending ≠ [] := pending_ne_nil hq
    cases up
    case false =>
      have hx : s.step now n false = { s with tailer := t } := by
        simp [Tail.step, hs, hq, Tail.flush, hn, Tail.streamLogBytes]
      exact .inl ⟨hx ▸ ht, by rintro _ _ _ ⟨⟩⟩
    case true  =>
      obtain ⟨stored, hu, ht⟩ := ht.flush hn
      have hx : s.step now n true = { s with
          stored, delivered := s.delivered ++ [t.pending], tailer := t.flushed }.follow := by
        simp only [Tail.step, hs, hq, if_true, hu]
        rfl
      have hk : t.flushed.ackedOffset = s.tailer.ackedOffset + (s.buffer id n).length := by
        rw [Tailer.flushed, ha, hp]
      rw [hx]
      apply ht.follow hr
      case hc =>
        intro he path hm hi _ _
        exact h.atEnd_iff.mpr (hk ▸ he path hm hi rfl)
      case hc' =>
        intro path hm hi _ hC
        have he : s.AtEnd id n := (hd hq).elim (hC path hm hi rfl) fun he => he
        exact hk ▸ h.atEnd_iff.mp he

end Tracks

-- The tailer has not found its file yet.
structure Waits (s : Tail) : Prop where
  tailer    : s.tailer = {}
  delivered : s.delivered = []
  named     : ∀ path ∈ s.files.path, path < s.files.contents.length

theorem Waits.unopened (present : Bytes) : Waits (.unopened present) where
  tailer    := rfl
  delivered := rfl
  named     := fun _ hp => Option.some.inj hp ▸ Nat.one_pos

theorem Waits.readsToEnd (h : Waits s) (e : Event) : ReadsToEnd s e := by
  cases e
  case step =>
    intro id hf
    rw [h.tailer] at hf
    nomatch hf
  all_goals trivial

theorem Waits.open? (h : Waits s) (hp : s.files.path = some id) :
    s.tailer.open? s.files = some {
      file := some id, initialized := true
      readOffset  := (s.files.content id).length - initialTail
      ackedOffset := (s.files.content id).length - initialTail } := by
  have hs : ∀ size tail : Nat, (if tail < size then size - tail else 0) = size - tail := by
    intro size tail
    split <;> omega
  simp [Tailer.open?, hp, h.tailer, hs]

-- The first step that finds the file, opens it.
theorem Waits.open (h : Waits s) (hp : s.files.path = some id) (now : ℤ) (n : Nat) (up : Bool) :
    Tracks ((s.files.content id).length - initialTail) [] id (s.step now n up) := by
  have ho := h.open? hp
  have hl : (s.files.content id).length - initialTail ≤ (s.files.content id).length := Nat.sub_le _ _
  have hi := h.named id hp
  generalize (s.files.content id).length - initialTail = start at ho hl ⊢
  generalize ht : ({ file := some id, initialized := true, readOffset := start, ackedOffset := start } :
    Tailer) = t at ho
  have hx : s.step now n up = { s with tailer := t }.step now n up := by
    have hf : s.filled? now n = { s with tailer := t }.filled? now n := by
      have hf : s.tailer.file = none := by rw [h.tailer]
      simp only [Tail.filled?, hf, ho, ← ht, Option.bind_some, Option.map_some, Tail.fill]
    have hn : { s with tailer := t }.filled? now n ≠ none := by
      simp [Tail.filled?, ← ht]
    rw [Tail.step, hf, Tail.step]
    cases hf : { s with tailer := t }.filled? now n
    case none => exact absurd hf hn
    case some => rfl
  have ht : Tracks start [] id { s with tailer := t } := by
    subst ht
    exact {
      file      := rfl
      reset     := rfl
      offset    := (Nat.add_zero start).symm
      length    := hl
      pending   := by simp [slice]
      begun     := Nat.le_add_left _ _
      delivered := by
        rw [h.delivered, List.flatMap_nil, List.nil_append, List.flatten_nil,
          List.drop_eq_nil_of_le (List.length_take_le _ _)]
      size      := Nat.zero_le _
      chunks    := by simp [h.delivered]
      behind    := by rintro _ ⟨⟩
      created   := hi
      named     := fun path hp' => by
        obtain rfl : id = path := Option.some.inj (hp.symm.trans hp')
        exact ⟨le_rfl, hi⟩ }
  obtain ⟨hn, _⟩ | ⟨path, hp', hn, _⟩ := ht.step now n up
  case inl => exact hx ▸ hn
  case inr => exact absurd (Option.some.inj (hp'.symm.trans hp)) hn

variable {e : Event} {es es₁ : List Event}

-- An event that is no step leaves the tailer where it is.
theorem Tracks.next (h : Tracks start left id s) (hr : Rotates s e) :
    (Tracks start left id (tailing.next s e) ∧ ReadsToEnd s e) ∨
    ∃ path, s.files.path = some path ∧ path ≠ id ∧ (tailing.next s e).tailer.file = some path ∧
      (ReadsToEnd s e → Tracks start (left ++ [id]) path (tailing.next s e)) ∧
      (¬ReadsToEnd s e → ¬Delivered start (left ++ [id]) (tailing.next s e)) := by
  cases e
  case write bytes    => exact .inl ⟨h.write bytes, trivial⟩
  case replace bytes  => exact .inl ⟨h.replace bytes, trivial⟩
  case truncate       => exact hr.elim
  case remove         => exact .inl ⟨h.remove, trivial⟩
  case step now n up  => exact h.step now n up

-- A tailer that waits, finds its file or goes on waiting.
theorem Waits.next (h : Waits s) (hr : Rotates s e) :
    Waits (tailing.next s e) ∨
    ∃ id, s.files.path = some id ∧ (tailing.next s e).tailer.file = some id ∧
      Tracks ((s.files.content id).length - initialTail) [] id (tailing.next s e) := by
  cases e
  case write bytes    =>
    refine .inl { h with named := ?_ }
    simpa only [path_change, length_change] using h.named
  case replace bytes  =>
    refine .inl { h with named := fun path hp => ?_ }
    obtain rfl : s.files.contents.length = path := Option.some.inj hp
    rw [List.length_append]
    exact Nat.lt_succ_self _
  case truncate       => exact hr.elim
  case remove         => exact .inl { h with named := nofun }
  case step now n up  =>
    cases hp : s.files.path
    case some id => exact .inr ⟨id, rfl, (h.open hp now n up).file, h.open hp now n up⟩
    case none    =>
      have hf : s.step now n up = s := by
        simp [Tail.step, Tail.filled?, h.tailer, Tailer.open?, hp]
      have hw : Waits (s.step now n up) := by rwa [hf]
      exact .inl hw

-- The path keeps its name while the file is only appended to.
theorem Appends.rotates (ha : Appends s e) : Rotates s e := by
  cases e
  case replace  => exact ha.elim
  case truncate => exact ha.elim
  case remove   => exact ha.elim
  all_goals trivial

theorem Appends.path (ha : Appends s e) : (tailing.next s e).files.path = s.files.path := by
  cases e
  case write bytes   => exact path_change
  case replace       => exact ha.elim
  case truncate      => exact ha.elim
  case remove        => exact ha.elim
  case step now n up => exact congrArg Files.path (files_step now n up)

theorem Tracks.appends (h : Tracks start [] id s) (hp : s.files.path = some id)
    (hm : tailing.Meets Appends s es) : Tracks start [] id (tailing.run s es) := by
  induction es generalizing s
  case nil => exact h
  case cons e es hi =>
    have hp' := hm.left.path.trans hp
    obtain ⟨hn, _⟩ | ⟨path, hs, hn, _⟩ := h.next hm.left.rotates
    case inl => exact hi hn hp' hm.right
    case inr => exact absurd (Option.some.inj (hs.symm.trans hp)) hn

end

-- Between the start and the end of what has been read, everything is delivered once and in its order,
-- or pending.
structure ExactlyOnce (start : Nat) (s : Tail) : Prop where
  delivered : s.delivered.flatten = slice (s.files.content 0) start s.tailer.ackedOffset
  pending   : s.tailer.pending = slice (s.files.content 0) s.tailer.ackedOffset s.tailer.readOffset
  offset    : s.tailer.readOffset = s.tailer.ackedOffset + s.tailer.pending.length
  chunks    : ∀ chunk ∈ s.delivered, chunk.length ≤ maxChunkSize

theorem Tracks.exactlyOnce {start : Nat} {s : Tail} (h : Tracks start [] 0 s) : ExactlyOnce start s where
  delivered := h.delivered
  pending   := h.pending
  offset    := h.offset
  chunks    := h.chunks

theorem Waits.exactlyOnce {start : Nat} {s : Tail} (h : Waits s) : ExactlyOnce start s where
  delivered := by simp [h.delivered, h.tailer, slice]
  pending   := by simp [h.tailer, slice]
  offset    := by simp [h.tailer]
  chunks    := by simp [h.delivered]

theorem Waits.appends {s : Tail} {es : List Event} (h : Waits s) (hp : s.files.path = some 0)
    (hm : tailing.Meets Appends s es) : ExactlyOnce (startIn s es) (tailing.run s es) := by
  induction es generalizing s
  case nil => exact h.exactlyOnce
  case cons e es hi =>
    have hp' := hm.left.path.trans hp
    rw [startIn]
    obtain hw | ⟨id, hs, hf, ht⟩ := h.next hm.left.rotates
    case inl =>
      rw [hw.tailer]
      exact hi hw hp' hm.right
    case inr =>
      rw [hf]
      obtain rfl : 0 = id := Option.some.inj (hp.symm.trans hs)
      exact (ht.appends hp' hm.right).exactlyOnce

-- A file that is only appended to is delivered exactly once, whichever uploads fail.
theorem appended_exactly_once {present : Bytes} {es : List Event}
    (hm : tailing.Meets Appends (.unopened present) es) :
    ExactlyOnce (startIn (.unopened present) es) (tailing.run (.unopened present) es) :=
  (Waits.unopened present).appends rfl hm

-- An upload fails and is repeated.
theorem appended_exactly_once_retried :
    let es : List Event :=
      [.write [8], .step 0 10 true, .step 400 10 false, .write [9], .step 800 10 true]
    ExactlyOnce (startIn (.unopened [7]) es) (tailing.run (.unopened [7]) es) ∧
    (tailing.run (.unopened [7]) es).delivered = [[7, 8, 9]] :=
  ⟨appended_exactly_once ⟨trivial, trivial, trivial, trivial, trivial, trivial⟩, by decide +kernel⟩

end Agent.LogTail
