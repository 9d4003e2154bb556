import Mastermind.Agent.ChatStream

open Utf8 Lines

namespace Agent.ChatStream

-- A carriage return comes before a line feed or last.
def Regular (text : Bytes) : Prop :=
  ∀ a b, text = a ++ cr :: b → b = [] ∨ b.head? = some lf

-- The lines, the unfinished one included, are shorter than `limit`.
def Narrow (limit : Nat) (text : Bytes) : Prop :=
  ∀ line, lf ∉ line → line <:+: text → line.length < limit

-- What the reads append to a log.
def grown (stages : List (Option Bytes)) : Bytes :=
  (stages.filterMap id).flatten

variable {text a b rest chunk before content : Bytes} {limit : Nat} {stages : List (Option Bytes)}

theorem regular_iff : Regular text ↔
    ∀ t ∈ text.tails, t.head? = some cr → t.tail = [] ∨ t.tail.head? = some lf := by
  constructor
  case mp =>
    intro h t ht hc
    obtain ⟨a, rfl⟩ := (List.mem_tails _ _).mp ht
    cases t
    case nil      => nomatch hc
    case cons c t => exact h a t (by rw [Option.some.inj hc])
  case mpr =>
    intro h a b he
    exact h (cr :: b) ((List.mem_tails _ _).mpr ⟨a, he.symm⟩) rfl

instance : Decidable (Regular text) :=
  decidable_of_iff _ regular_iff.symm

theorem Regular.of_prefix (h : Regular text) (hp : a <+: text) : Regular a := by
  obtain ⟨t, rfl⟩ := hp
  intro b c he
  cases h b (c ++ t) (by simp [he])
  case inl hn => exact .inl (List.append_eq_nil_iff.mp hn).left
  case inr hh =>
    cases c
    case nil  => exact .inl rfl
    case cons => exact .inr hh

theorem Regular.of_suffix (h : Regular text) (hs : a <:+ text) : Regular a := by
  obtain ⟨t, rfl⟩ := hs
  exact fun b c he => h (t ++ b) c (by rw [he, List.append_assoc])

theorem Narrow.of_infix (h : Narrow limit text) (hi : a <:+: text) : Narrow limit a :=
  fun line hl hla => h line hl (hla.trans hi)

theorem Narrow.of_length (h : text.length < limit) : Narrow limit text :=
  fun _ _ hi => hi.length_le.trans_lt h

theorem dropCR_cases (line : Bytes) :
    dropCR line = line ∨ line = dropCR line ++ [cr] := by
  rw [dropCR]
  split
  case isTrue h  => exact .inr (List.dropLast_append_getLast? _ h).symm
  case isFalse   => exact .inl rfl

-- A carriage return at the end of an unfinished line is not missed when its line feed arrives.
theorem split_dropCR (h : Regular (rest ++ chunk)) (hc : chunk ≠ []) :
    split cr lf (dropCR rest ++ chunk) = split cr lf (rest ++ chunk) := by
  cases dropCR_cases rest
  case inl hd => rw [hd]
  case inr hd =>
    have he : rest ++ chunk = dropCR rest ++ cr :: chunk := by
      conv_lhs => rw [hd]
      simp
    have hl : chunk.head? = some lf := (h _ _ he).resolve_left hc
    cases chunk
    case nil => exact (hc rfl).elim
    case cons c chunk =>
      obtain rfl := Option.some.inj hl
      have hd : (dropCR rest).getLast? ≠ some cr := by
        intro hd
        have ⟨d, hd⟩ : ∃ d, dropCR rest = d ++ [cr] :=
          ⟨_, (List.dropLast_append_getLast? _ hd).symm⟩
        have hh := h d (cr :: lf :: chunk) (by rw [he, hd, List.append_assoc]; rfl)
        cases hh
        case inl hh => nomatch hh
        case inr hh => exact absurd (Option.some.inj hh) (by decide)
      rw [he, split_cr (by decide) hd]

-- What is carried does not make lines longer.
theorem Narrow.dropCR (h : Narrow limit (rest ++ chunk)) (hr : Regular (rest ++ chunk))
    (hc : chunk ≠ []) : Narrow limit (dropCR rest ++ chunk) := by
  cases dropCR_cases rest
  case inl hd => rwa [hd]
  case inr hd =>
    have he : rest ++ chunk = ChatStream.dropCR rest ++ cr :: chunk := by
      conv_lhs => rw [hd]
      simp
    have hl : chunk.head? = some lf := (hr _ _ he).resolve_left hc
    rw [he] at h
    intro line hn hi
    rcases List.infix_append_iff.mp hi with hi | hi | ⟨l, l', rfl, hs, hp⟩
    case inl     => exact h line hn (hi.trans (List.prefix_append _ _).isInfix)
    case inr.inl =>
      exact h line hn (hi.trans ⟨ChatStream.dropCR rest ++ [cr], [], by simp⟩)
    case inr.inr =>
      -- A line ends where the chunk begins.
      have hl' : l' = [] := by
        cases l'
        case nil => rfl
        case cons c l' =>
          obtain ⟨t, rfl⟩ := hp
          obtain rfl : c = lf := Option.some.inj hl
          simp at hn
      rw [hl', List.append_nil] at hn ⊢
      exact h l hn (hs.isInfix.trans (List.prefix_append _ _).isInfix)

theorem scanLines_eq (h : Narrow maxTokenSize text) :
    scanLines text = some ((split cr lf text).1 ++
      if (split cr lf text).2 = [] then [] else [dropCR (split cr lf text).2]) := by
  rw [scanLines, if_neg]
  simp only [List.any_eq_true, decide_eq_true_eq, not_exists, not_and, not_le]
  intro piece hp
  have ⟨hn, hi⟩ := mem_splitOn hp
  exact h piece hn hi

-- A follower that has read a log up to the end of `read`, from the beginning of a line on.
structure Reading (before read : Bytes) (f : Follower) : Prop where
  offset : f.offset = (before ++ read).length
  carry  : f.carry = dropCR (split cr lf read).2

-- A read writes the lines that have been completed since the read before.
theorem Reading.next {f : Follower} {read : Bytes} (h : Reading before read f)
    (hr : Regular (read ++ chunk)) (hs : Narrow maxTokenSize (read ++ chunk)) :
    let next := readNewLogChunk (some (before ++ (read ++ chunk))) f
    Reading before (read ++ chunk) next.1 ∧
    (split cr lf (read ++ chunk)).1.filter looksLikeChat =
      (split cr lf read).1.filter looksLikeChat ++ next.2.toOption.getD [] := by
  have hl : ¬(before ++ (read ++ chunk)).length < f.offset := by
    rw [h.offset]
    simp
  rw [readNewLogChunk]
  dsimp only
  rw [if_neg hl]
  by_cases hc : chunk = []
  case pos =>
    subst hc
    rw [List.append_nil, if_pos h.offset.symm]
    exact ⟨h, by simp [Except.toOption]⟩
  case neg =>
    have hn : ¬(before ++ (read ++ chunk)).length = f.offset := by
      rw [h.offset]
      simpa using hc
    rw [if_neg hn]
    -- The unfinished line, to which the chunk is put.
    have ⟨t, ht⟩ : (split cr lf read).2 <:+ read := rest_suffix
    have hx : (split cr lf read).2 ++ chunk <:+ read ++ chunk :=
      ⟨t, by rw [← List.append_assoc, ht]⟩
    have hr := hr.of_suffix hx
    have hd : f.carry ++ (before ++ (read ++ chunk)).drop f.offset =
        dropCR (split cr lf read).2 ++ chunk := by
      rw [h.carry, h.offset, ← List.append_assoc before, List.drop_left]
    have hs := (hs.of_infix hx.isInfix).dropCR hr hc
    have hsp := split_dropCR hr hc
    have hall : split cr lf (read ++ chunk) = _ := split_append
    rw [hd, scanLines_eq hs, hsp, hall]
    have he := @rest_eq_nil_iff _ _ cr lf (dropCR (split cr lf read).2 ++ chunk)
    rw [hsp] at he
    have hne : dropCR (split cr lf read).2 ++ chunk ≠ [] := by simp [hc]
    by_cases hu : (split cr lf ((split cr lf read).2 ++ chunk)).2 = []
    case pos =>
      have hg := (he.mp hu).resolve_left hne
      simp only [hu, hg, ne_eq, not_true_eq_false, false_and, if_false, if_true, List.append_nil]
      exact ⟨⟨rfl, by rw [hall, hu]; rfl⟩, List.filter_append ..⟩
    case neg =>
      have hg : (dropCR (split cr lf read).2 ++ chunk).getLast? ≠ some lf := fun hg =>
        hu (he.mpr (.inr hg))
      simp only [hu, if_false, List.dropLast_concat, List.getLast?_concat]
      rw [if_pos ⟨hg, by simp⟩]
      exact ⟨⟨rfl, by rw [hall]; rfl⟩, List.filter_append ..⟩

theorem Reading.follow {f : Follower} {read : Bytes} (h : Reading before read f)
    (hr : Regular (read ++ grown stages)) (hs : Narrow maxTokenSize (read ++ grown stages)) :
    (split cr lf (read ++ grown stages)).1.filter looksLikeChat =
      (split cr lf read).1.filter looksLikeChat ++ follow (before ++ read) f stages := by
  induction stages generalizing read f
  case nil => simp [grown, ChatStream.follow]
  case cons stage stages hi =>
    cases stage
    case none       => exact hi h hr hs
    case some chunk =>
      have hg : read ++ grown (some chunk :: stages) = read ++ chunk ++ grown stages := by
        simp [grown]
      rw [hg] at hr hs ⊢
      have hp : read ++ chunk <+: read ++ chunk ++ grown stages := List.prefix_append _ _
      have ⟨hn, hw⟩ := h.next (hr.of_prefix hp) (hs.of_infix hp.isInfix)
      rw [hi hn hr hs, hw, ChatStream.follow, List.append_assoc, List.append_assoc]

-- Chat does not depend on how the log grows. The lines are shorter than 1000000 bytes.
theorem chat_streamed (hr : Regular (before ++ grown stages))
    (hs : Narrow 1000000 (before ++ grown stages)) (hb : before = [] ∨ before.getLast? = some lf) :
    follow before { offset := before.length } stages =
      ((split cr lf (before ++ grown stages)).1.drop (split cr lf before).1.length).filter
        looksLikeChat := by
  have hx : grown stages <:+ before ++ grown stages := List.suffix_append _ _
  have hs : Narrow maxTokenSize ([] ++ grown stages) := by
    intro line hn hi
    have hl := hs line hn (hi.trans hx.isInfix)
    exact hl.trans (by decide)
  have h : Reading before [] { offset := before.length } := ⟨by simp, rfl⟩
  have hf := h.follow (hr.of_suffix hx) hs
  have hu : (split cr lf before).2 = [] := rest_eq_nil_iff.mpr hb
  rw [split_append, hu, List.drop_left]
  simpa [split] using hf.symm

-- A line whose end arrives with the second read.
theorem chat_streamed_twice :
    follow [lf] { offset := 1 } [some [60, 62, cr], none, some [lf, 97, lf]] = [[60, 62]] :=
  (chat_streamed (by decide) (.of_length (by decide)) (.inr rfl)).trans (by decide +kernel)

end Agent.ChatStream
