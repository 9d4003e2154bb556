import Mathlib.Data.List.Infix

-- The division of a text into lines, for any kind of characters.
namespace Lines

variable {α : Type} [DecidableEq α] (cr lf : α)

-- Splits a text at `lf` and at `cr lf`. The piece after the last line end comes apart.
def split : List α → List (List α) × List α
  | []      => ([], [])
  | c :: cs =>
    if c = lf then ([] :: (split cs).1, (split cs).2)
    else if c = cr ∧ cs.head? = some lf then split cs
    else
      match split cs with
      | ([], rest)            => ([], c :: rest)
      | (line :: lines, rest) => ((c :: line) :: lines, rest)

-- The lines that are complete after each chunk of a text. What `keep` leaves of an unfinished line
-- is put before the next chunk.
def completed (keep : List α → List α) : List α → List (List α) → List (List α)
  | _, []                     => []
  | buffer, content :: chunks =>
    (split cr lf (buffer ++ content)).1 ++
      completed keep (keep (split cr lf (buffer ++ content)).2) chunks

-- The lines of a text, with what precedes a `lf`, are at most as large as `limit`.
def Short (size : List α → Nat) (limit : Nat) (text : List α) : Prop :=
  ∀ line, lf ∉ line → line ++ [lf] <:+: text → size line ≤ limit

variable {cr lf} {c : α} {a b cs : List α}

-- The pieces between the separators.
theorem mem_splitOn (h : a ∈ b.splitOn lf) : lf ∉ a ∧ a <:+: b := by
  induction hn : b.length using Nat.strongRecOn generalizing b
  case ind n hi =>
    by_cases hm : lf ∈ b
    case neg =>
      rw [List.splitOn_eq_singleton hm, List.mem_singleton] at h
      rw [h]
      exact ⟨hm, List.infix_rfl⟩
    case pos =>
      obtain ⟨l, r, rfl, hl⟩ := List.eq_append_cons_of_mem hm
      rw [List.splitOn_append_cons_self_of_not_mem hl] at h
      cases List.mem_cons.mp h
      case inl h =>
        rw [h]
        exact ⟨hl, (List.prefix_append _ _).isInfix⟩
      case inr h =>
        have ⟨hn, hr⟩ := hi r.length (by simp [← hn]; omega) h rfl
        exact ⟨hn, hr.trans ⟨l ++ [lf], [], by simp⟩⟩

-- Lines that are written are read again. The text ends with a line end.
theorem splitOn_flatMap {lines : List (List α)} (h : ∀ l ∈ lines, lf ∉ l) :
    (lines.flatMap (· ++ [lf])).splitOn lf = lines ++ [[]] := by
  induction lines
  case nil => rfl
  case cons l lines hi =>
    have ⟨hl, hs⟩ := List.forall_mem_cons.mp h
    rw [List.flatMap_cons, List.append_assoc, List.singleton_append,
      List.splitOn_append_cons_self_of_not_mem hl, hi hs, List.cons_append]

theorem split_cons (hn : c ≠ lf) (hr : c = cr → cs.head? ≠ some lf) :
    split cr lf (c :: cs) =
      match split cr lf cs with
      | ([], rest)            => ([], c :: rest)
      | (line :: lines, rest) => ((c :: line) :: lines, rest) := by
  rw [split, if_neg hn, if_neg fun ⟨hc, hh⟩ => hr hc hh]

-- What holds no line end belongs to the first line.
theorem split_plain (hn : lf ∉ a) (hr : a.getLast? = some cr → b.head? ≠ some lf) :
    split cr lf (a ++ b) =
      match split cr lf b with
      | ([], rest)            => ([], a ++ rest)
      | (line :: lines, rest) => ((a ++ line) :: lines, rest) := by
  induction a
  case nil =>
    rw [List.nil_append]
    rcases split cr lf b with ⟨_ | _, _⟩ <;> rfl
  case cons c a hi =>
    have ⟨hc, ha⟩ := not_or.mp (List.mem_cons.not.mp hn)
    have hh : c = cr → (a ++ b).head? ≠ some lf := by
      rintro rfl
      cases a
      case nil      => exact hr rfl
      case cons d a =>
        intro hd
        exact ha (Option.some.inj hd ▸ List.mem_cons_self)
    have hl : a.getLast? = some cr → b.head? ≠ some lf := by
      intro hl
      apply hr
      rw [List.getLast?_cons, hl, Option.getD_some]
    rw [List.cons_append, split_cons (Ne.symm hc) hh, hi ha hl]
    rcases split cr lf b with ⟨_ | _, _⟩ <;> rfl

theorem split_nil_iff : (split cr lf a).1 = [] ↔ lf ∉ a := by
  induction a
  case nil => simp [split]
  case cons c cs hi =>
    rw [split]
    split
    case isTrue h => simp [h]
    case isFalse h =>
      have hc : lf ∉ c :: cs ↔ lf ∉ cs := by simp [Ne.symm h]
      rw [hc, ← hi]
      split
      case isTrue  => exact Iff.rfl
      case isFalse =>
        rcases split cr lf cs with ⟨_ | _, _⟩
        case nil  => exact Iff.rfl
        case cons => simp

-- A text without a line end is all unfinished.
theorem split_unfinished (h : lf ∉ a) : split cr lf a = ([], a) := by
  induction a
  case nil => rfl
  case cons c cs hi =>
    have ⟨hc, hcs⟩ := not_or.mp (List.mem_cons.not.mp h)
    have hh : ¬(c = cr ∧ cs.head? = some lf) := fun ⟨_, hh⟩ => hcs (List.mem_of_mem_head? hh)
    rw [split, if_neg (Ne.symm hc), if_neg hh, hi hcs]

theorem not_mem_rest : lf ∉ (split cr lf a).2 := by
  induction a
  case nil => simp [split]
  case cons c cs hi =>
    rw [split]
    split
    case isTrue => exact hi
    case isFalse h =>
      split
      case isTrue  => exact hi
      case isFalse =>
        rcases hs : split cr lf cs with ⟨_ | _, rest⟩ <;> rw [hs] at hi
        case nil  => simp [Ne.symm h, hi]
        case cons => exact hi

theorem rest_suffix : (split cr lf a).2 <:+ a := by
  induction a
  case nil => exact List.suffix_refl _
  case cons c cs hi =>
    rw [split]
    split
    case isTrue => exact hi.trans (List.suffix_cons _ _)
    case isFalse h =>
      split
      case isTrue  => exact hi.trans (List.suffix_cons _ _)
      case isFalse =>
        rcases hs : split cr lf cs with ⟨_ | _, rest⟩ <;> rw [hs] at hi
        case nil  =>
          have hn : lf ∉ cs := split_nil_iff.mp (by rw [hs])
          have hr : rest = cs := congrArg Prod.snd (hs.symm.trans (split_unfinished hn))
          exact hr ▸ List.suffix_refl _
        case cons => exact hi.trans (List.suffix_cons _ _)

-- What a text is split into does not depend on the chunks that it comes in.
theorem split_append :
    split cr lf (a ++ b) = ((split cr lf a).1 ++ (split cr lf ((split cr lf a).2 ++ b)).1,
      (split cr lf ((split cr lf a).2 ++ b)).2) := by
  induction a
  case nil => rfl
  case cons c cs hi =>
    by_cases hn : lf ∈ c :: cs
    case neg => rw [split_unfinished hn, List.nil_append]
    case pos =>
      rw [List.cons_append, split, split]
      split
      case isTrue => rw [hi, List.cons_append]
      case isFalse h =>
        have hn : lf ∈ cs := (List.mem_cons.mp hn).resolve_left (Ne.symm h)
        have hh : (cs ++ b).head? = cs.head? := by
          cases cs
          case nil  => nomatch hn
          case cons => rfl
        rw [hh]
        split
        case isTrue  => exact hi
        case isFalse =>
          rw [hi]
          rcases hs : split cr lf cs with ⟨_ | _, _⟩
          case nil  => exact absurd hn (split_nil_iff.mp (by rw [hs]))
          case cons => rfl

-- The unfinished line is empty if the text ends with a line end.
theorem rest_eq_nil_iff : (split cr lf a).2 = [] ↔ a = [] ∨ a.getLast? = some lf := by
  constructor
  case mp =>
    intro hr
    induction a using List.reverseRecOn
    case nil => exact .inl rfl
    case append_singleton a c _ =>
      refine .inr ?_
      rw [List.getLast?_concat]
      rw [split_append] at hr
      by_cases hc : lf ∈ (split cr lf a).2 ++ [c]
      case pos =>
        have hc : lf = c := by simpa [not_mem_rest] using hc
        rw [hc]
      case neg =>
        rw [split_unfinished hc] at hr
        simp at hr
  case mpr =>
    intro h
    cases h
    case inl h => rw [h]; rfl
    case inr h =>
      have ⟨t, ht⟩ : (split cr lf a).2 <:+ a := rest_suffix
      by_contra hr
      rw [← ht, List.getLast?_append_of_ne_nil _ hr] at h
      exact not_mem_rest (List.mem_of_getLast? h)

-- The two ways to end a line.
theorem split_cr (hc : cr ≠ lf) (ha : a.getLast? ≠ some cr) :
    split cr lf (a ++ cr :: lf :: b) = split cr lf (a ++ lf :: b) := by
  induction a
  case nil => rw [List.nil_append, split, if_neg hc, if_pos ⟨rfl, rfl⟩, List.nil_append]
  case cons c a hi =>
    have hh : c = cr → ∀ bs, (a ++ bs).head? = a.head? := by
      rintro rfl bs
      cases a
      case nil  => exact (ha rfl).elim
      case cons => rfl
    have ha : a.getLast? ≠ some cr := by
      intro hl
      apply ha
      rw [List.getLast?_cons, hl, Option.getD_some]
    have he : (c = cr ∧ (a ++ cr :: lf :: b).head? = some lf) ↔
        (c = cr ∧ (a ++ lf :: b).head? = some lf) :=
      and_congr_right fun hc => by rw [hh hc, hh hc]
    simp only [List.cons_append, split, hi ha, he]

variable {keep : List α → List α} {size : List α → Nat} {limit : Nat} {buffer : List α}
  {chunks : List (List α)}

-- Nothing is completed any more by chunks without a line end.
theorem completed_nil (hf : ∀ l, lf ∉ l → lf ∉ keep l) (hb : lf ∉ buffer)
    (hc : lf ∉ chunks.flatten) :
    completed cr lf keep buffer chunks = [] := by
  induction chunks generalizing buffer
  case nil => rfl
  case cons content chunks hi =>
    have ⟨hn, hc⟩ : lf ∉ content ∧ lf ∉ chunks.flatten := by simpa using hc
    have hb : lf ∉ buffer ++ content := by simp [hb, hn]
    rw [completed, split_unfinished hb, hi (hf _ hb) hc, List.append_nil]

-- The buffer holds the unfinished line. It may be cut off if this line never ends.
theorem completed_eq (hk : ∀ l, size l ≤ limit → keep l = l) (hf : ∀ l, lf ∉ l → lf ∉ keep l)
    (hm : ∀ l l', size l ≤ size (l ++ l')) (hs : Short lf size limit (a ++ chunks.flatten)) :
    (split cr lf (a ++ chunks.flatten)).1 =
      (split cr lf a).1 ++ completed cr lf keep (split cr lf a).2 chunks := by
  induction chunks generalizing a
  case nil => simp [completed]
  case cons content chunks hi =>
    rw [List.flatten_cons, ← List.append_assoc] at hs ⊢
    rw [completed]
    have hl : (split cr lf (a ++ content)).1 =
        (split cr lf a).1 ++ (split cr lf ((split cr lf a).2 ++ content)).1 := by rw [split_append]
    have hr : (split cr lf (a ++ content)).2 = (split cr lf ((split cr lf a).2 ++ content)).2 := by
      rw [split_append]
    rw [← List.append_assoc, ← hl, ← hr]
    by_cases hn : lf ∈ chunks.flatten
    case neg =>
      have hu : lf ∉ (split cr lf (a ++ content)).2 ++ chunks.flatten := by simp [not_mem_rest, hn]
      rw [completed_nil hf (hf _ not_mem_rest) hn, split_append, split_unfinished hu]
    case pos =>
      -- The unfinished line ends in one of the chunks to come.
      have ⟨l, r, he, hl⟩ := List.eq_append_cons_of_mem hn
      have ⟨t, ht⟩ : (split cr lf (a ++ content)).2 <:+ a ++ content := rest_suffix
      have hb : size ((split cr lf (a ++ content)).2 ++ l) ≤ limit := by
        refine hs _ (by simp [not_mem_rest, hl]) ⟨t, r, ?_⟩
        have ha : t ++ ((split cr lf (a ++ content)).2 ++ l ++ [lf]) ++ r =
            (t ++ (split cr lf (a ++ content)).2) ++ (l ++ lf :: r) := by simp
        rw [ha, ht, he]
      rw [hk _ ((hm _ _).trans hb)]
      exact hi hs

-- Where a text is cut does not matter.
theorem completed_lines (hk : ∀ l, size l ≤ limit → keep l = l) (hf : ∀ l, lf ∉ l → lf ∉ keep l)
    (hm : ∀ l l', size l ≤ size (l ++ l')) (hs : Short lf size limit chunks.flatten) :
    completed cr lf keep [] chunks = (split cr lf chunks.flatten).1 := by
  have hs : Short lf size limit ([] ++ chunks.flatten) := hs
  exact (completed_eq hk hf hm hs).symm

end Lines
