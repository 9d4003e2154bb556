import Mastermind.Agent.Theorems.LogOffsets

open Effects

namespace Agent.LogTail

instance {s : Tail} {e : Event} : Decidable (Rotates s e) :=
  match e with
  | .truncate _ => inferInstanceAs (Decidable False)
  | .write _ | .replace _ | .remove | .step .. => inferInstanceAs (Decidable True)

instance {s : Tail} {e : Event} : Decidable (ReadsToEnd s e) :=
  match e with
  | .step .. => by dsimp only [ReadsToEnd, Tail.Flushes, Tail.AtEnd]; infer_instance
  | .write _ | .replace _ | .truncate _ | .remove => inferInstanceAs (Decidable True)

-- The files that the tailer leaves in the course of a run.
def leftIn (s : Tail) : List Event → List FileId
  | []      => []
  | e :: es =>
    let s' := tailing.next s e
    (if s'.tailer.file = s.tailer.file then [] else s.tailer.file.toList) ++ leftIn s' es

section

variable {s : Tail} {start : Nat} {left : List FileId} {id : FileId} {e : Event}
  {es es₁ : List Event}

section

attribute [local simp] leftIn

theorem leftIn_stays (h : (tailing.next s e).tailer.file = s.tailer.file) :
    leftIn s (e :: es) = leftIn (tailing.next s e) es := by
  rw [leftIn]
  simp only [if_pos h, List.nil_append]

theorem leftIn_leaves (h : s.tailer.file = some id) (hn : (tailing.next s e).tailer.file ≠ some id) :
    leftIn s (e :: es) = id :: leftIn (tailing.next s e) es := by
  rw [leftIn]
  simp only [h, if_neg hn, Option.toList_some, List.singleton_append]

end

theorem forall_prefix_cons {P : List Event → Prop} :
    (∀ es₁, es₁ <+: e :: es → P es₁) ↔ P [] ∧ ∀ es₁, es₁ <+: es → P (e :: es₁) := by
  simp only [List.prefix_cons_iff]
  constructor
  case mp  => exact fun h => ⟨h [] (.inl rfl), fun es₁ hp => h _ (.inr ⟨es₁, rfl, hp⟩)⟩
  case mpr =>
    rintro ⟨hn, hc⟩ _ (rfl | ⟨es₁, rfl, hp⟩)
    case inl => exact hn
    case inr => exact hc es₁ hp

-- From a file on that the tailer follows.
theorem Tracks.delivers_iff (h : Tracks start left id s) (hm : tailing.Meets Rotates s es) :
    (∀ es₁, es₁ <+: es → Delivered start (left ++ leftIn s es₁) (tailing.run s es₁)) ↔
      tailing.Meets ReadsToEnd s es := by
  induction es generalizing s left id
  case nil =>
    have hd : Delivered start (left ++ leftIn s []) (tailing.run s []) := by
      rw [leftIn, List.append_nil]
      exact h.delivers
    simpa [System.Meets] using hd
  case cons e es hi =>
    have hd : Delivered start (left ++ leftIn s []) (tailing.run s []) := by
      rw [leftIn, List.append_nil]
      exact h.delivers
    rw [forall_prefix_cons, and_iff_right hd, System.Meets]
    obtain ⟨hn, hc⟩ | ⟨path, hp, hn, hf, hc, hc'⟩ := h.next hm.left
    case inl =>
      simp only [leftIn_stays (hn.file.trans h.file.symm), hc, true_and]
      exact hi hn hm.right
    case inr =>
      have hn : (tailing.next s e).tailer.file ≠ some id := fun h => hn (Option.some.inj (hf.symm.trans h))
      have ha (es) : left ++ id :: leftIn (tailing.next s e) es =
          (left ++ [id]) ++ leftIn (tailing.next s e) es := List.append_cons left id _
      simp only [leftIn_leaves h.file hn, ha]
      by_cases hr : ReadsToEnd s e
      case pos =>
        rw [and_iff_right hr]
        exact hi (hc hr) hm.right
      case neg =>
        refine iff_of_false (fun hd => hc' hr ?_) fun ht => hr ht.left
        have hd := hd [] List.nil_prefix
        rwa [leftIn, List.append_nil] at hd

theorem delivered_nil : Delivered start [] s := by
  rw [Delivered, List.flatMap_nil, List.drop_nil]
  exact List.nil_prefix

theorem Waits.delivers_iff (h : Waits s) (hm : tailing.Meets Rotates s es) :
    (∀ es₁, es₁ <+: es → Delivered (startIn s es) (leftIn s es₁) (tailing.run s es₁)) ↔
      tailing.Meets ReadsToEnd s es := by
  induction es generalizing s
  case nil =>
    have hd : Delivered (startIn s []) (leftIn s []) (tailing.run s []) := delivered_nil
    simpa [System.Meets] using hd
  case cons e es hi =>
    have hd : Delivered (startIn s (e :: es)) (leftIn s []) (tailing.run s []) := delivered_nil
    have hf : s.tailer.file = none := by rw [h.tailer]
    have hl (es) : leftIn s (e :: es) = leftIn (tailing.next s e) es := by
      rw [leftIn]
      simp [hf]
    rw [forall_prefix_cons, and_iff_right hd, System.Meets, and_iff_right (h.readsToEnd e)]
    obtain hw | ⟨id, hp, hf', ht⟩ := h.next hm.left
    case inl =>
      have hs : startIn s (e :: es) = startIn (tailing.next s e) es := by rw [startIn, hw.tailer]
      simp only [hl, hs]
      exact hi hw hm.right
    case inr =>
      have hs : startIn s (e :: es) = (s.files.content id).length - initialTail := by rw [startIn, hf']
      simp only [hl, hs]
      exact ht.delivers_iff hm.right

end

-- Everything in the files that a tailer has left is delivered, from its start on, exactly if the read
-- before each switch reaches the end.
theorem rotation_delivers_iff {present : Utf8.Bytes} {es : List Event}
    (hm : tailing.Meets Rotates (.unopened present) es) :
    (∀ es₁, es₁ <+: es → Delivered (startIn (.unopened present) es) (leftIn (.unopened present) es₁)
      (tailing.run (.unopened present) es₁)) ↔
    tailing.Meets ReadsToEnd (.unopened present) es :=
  (Waits.unopened present).delivers_iff hm

-- A log is rotated while a part of it has been read.
theorem rotation_delivers_rest : let es : List Event :=
      [.step 0 10 true, .write [1], .step 0 10 true, .write [2], .replace [3], .step 1 10 true,
        .step 400 10 true]
    (∀ es₁, es₁ <+: es → Delivered (startIn (.unopened []) es) (leftIn (.unopened []) es₁)
      (tailing.run (.unopened []) es₁)) ∧
    leftIn (.unopened []) es = [0] :=
  ⟨(rotation_delivers_iff (by decide +kernel)).mpr (by decide +kernel), by decide +kernel⟩

-- The log has grown by more than a buffer holds when it is replaced.
theorem rotation_loses : let es : List Event :=
      [.step 0 10 true, .write (.replicate (maxChunkSize + 1) 10), .replace [],
        .step 1000 maxChunkSize true]
    tailing.Meets Rotates (.unopened []) es ∧
    ¬∀ es₁, es₁ <+: es → Delivered (startIn (.unopened []) es) (leftIn (.unopened []) es₁)
      (tailing.run (.unopened []) es₁) := by
  have hm (bytes) : tailing.Meets Rotates (.unopened []) [.step 0 10 true, .write bytes, .replace [],
      .step 1000 maxChunkSize true] := ⟨trivial, trivial, trivial, trivial, trivial⟩
  refine ⟨hm _, fun hd => ?_⟩
  have hr := ((Waits.unopened []).delivers_iff (hm _)).mp hd
  have hl : (List.replicate (maxChunkSize + 1) (10 : UInt8)).length = maxChunkSize + 1 :=
    List.length_replicate
  generalize List.replicate (maxChunkSize + 1) (10 : UInt8) = bytes at hr hl
  let s : Tail := { files := ⟨[bytes, []], some 1⟩, tailer := { file := some 0, initialized := true } }
  have hb : s.buffer 0 maxChunkSize = bytes.take maxChunkSize := by
    have hk : min (max maxChunkSize 1) (maxChunkSize - 0) = maxChunkSize := by decide
    rw [Tail.buffer, ← hk]
    rfl
  have hn : (bytes.take maxChunkSize).length = maxChunkSize := by
    rw [List.length_take, hl]
    exact Nat.min_eq_left (Nat.le_succ _)
  have hr : ReadsToEnd s (.step 1000 maxChunkSize true) := hr.right.right.right.left
  have he : s.buffer 0 maxChunkSize = bytes := hr 0 rfl 1 rfl (by decide) rfl (.inl (hb ▸ hn))
  rw [← hb, he, hl] at hn
  exact absurd hn (Nat.succ_ne_self _)

end Agent.LogTail
