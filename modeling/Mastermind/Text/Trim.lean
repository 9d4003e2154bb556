import Mathlib.Data.List.DropRight
import Mathlib.Data.List.Infix

-- White space at the ends of a text, for any kind of characters.
namespace Trim

variable {α : Type} (p : α → Bool)

def trim (s : List α) : List α :=
  (s.dropWhile p).rdropWhile p

-- A text that does not begin or end with white space.
structure Trimmed (s : List α) : Prop where
  head : ∀ c ∈ s.head?, p c = false
  last : ∀ c ∈ s.getLast?, p c = false

variable {p} {s a b : List α} {c : α}

theorem dropWhile_append (h : ∀ c ∈ a, p c) : (a ++ s).dropWhile p = s.dropWhile p := by
  induction a
  case nil => rfl
  case cons c a hi =>
    have ⟨hc, ha⟩ := List.forall_mem_cons.mp h
    rw [List.cons_append, List.dropWhile_cons_of_pos hc, hi ha]

theorem rdropWhile_append (h : ∀ c ∈ b, p c) : (s ++ b).rdropWhile p = s.rdropWhile p := by
  induction b using List.reverseRecOn
  case nil => rw [List.append_nil]
  case append_singleton b c hi =>
    rw [← List.append_assoc, List.rdropWhile_concat_pos _ _ _ (h c (by simp)),
      hi fun c hc => h c (List.mem_append_left _ hc)]

-- A character that is kept keeps all that is before it.
theorem rdropWhile_append_cons (h : p c = false) :
    (a ++ c :: b).rdropWhile p = a ++ c :: b.rdropWhile p := by
  induction b using List.reverseRecOn
  case nil =>
    rw [List.rdropWhile_concat_neg _ _ _ (by simp [h])]
    rfl
  case append_singleton b d hi =>
    rw [← List.cons_append, ← List.append_assoc]
    by_cases hd : p d
    case pos => rw [List.rdropWhile_concat_pos _ _ _ hd, List.rdropWhile_concat_pos _ _ _ hd, hi]
    case neg =>
      rw [List.rdropWhile_concat_neg _ _ _ hd, List.rdropWhile_concat_neg _ _ _ hd,
        List.append_assoc, List.cons_append]

theorem dropWhile_head (h : ∀ c ∈ s.head?, p c = false) : s.dropWhile p = s := by
  cases s
  case nil  => rfl
  case cons => exact List.dropWhile_cons_of_neg (Bool.eq_false_iff.mp (h _ rfl))

theorem rdropWhile_last (h : ∀ c ∈ s.getLast?, p c = false) : s.rdropWhile p = s := by
  induction s using List.reverseRecOn
  case nil                    => rfl
  case append_singleton s c _ => exact List.rdropWhile_concat_neg _ _ _ (by simp [h])

theorem Trimmed.trim (h : Trimmed p s) : trim p s = s := by
  rw [Trim.trim, dropWhile_head h.head, rdropWhile_last h.last]

theorem trim_append_left (h : ∀ c ∈ a, p c) : trim p (a ++ s) = trim p s := by
  rw [trim, dropWhile_append h, trim]

-- What begins with a character that is kept loses characters at its end only.
theorem trim_of_head (h : ∀ c ∈ s.head?, p c = false) : trim p s = s.rdropWhile p := by
  rw [trim, dropWhile_head h]

theorem head_dropWhile : ∀ c ∈ (s.dropWhile p).head?, p c = false := by
  induction s
  case nil => exact nofun
  case cons d s hi =>
    by_cases hd : p d
    case pos => rwa [List.dropWhile_cons_of_pos hd]
    case neg =>
      rw [List.dropWhile_cons_of_neg hd]
      intro c hc
      exact Option.mem_some.mp hc ▸ Bool.eq_false_iff.mpr hd

theorem last_rdropWhile : ∀ c ∈ (s.rdropWhile p).getLast?, p c = false := by
  intro c hc
  have hn : s.rdropWhile p ≠ [] := fun h => by simp [h] at hc
  rw [List.getLast?_eq_getLast_of_ne_nil hn] at hc
  exact Option.mem_some.mp hc ▸ Bool.eq_false_iff.mpr (List.rdropWhile_last_not _ _ hn)

theorem trimmed_trim : Trimmed p (trim p s) where
  head := by
    have hp : (s.dropWhile p).rdropWhile p <+: s.dropWhile p := List.rdropWhile_prefix ..
    intro c hc
    have ⟨b, hb⟩ := hp
    refine head_dropWhile (s := s) c ?_
    rw [← hb, List.head?_append_of_ne_nil _ (fun h => by simp [trim, h] at hc)]
    exact hc
  last := last_rdropWhile

theorem trim_sublist : (trim p s).Sublist s :=
  (List.rdropWhile_prefix ..).sublist.trans (List.dropWhile_sublist _)

-- What is dropped at the end of a text is white space.
theorem rdropWhile_append_rest (s : List α) : ∃ b, s = s.rdropWhile p ++ b ∧ ∀ c ∈ b, p c :=
  ⟨s.rtakeWhile p, (List.rdropWhile_append_rtakeWhile ..).symm, fun _ => List.mem_rtakeWhile_imp⟩

theorem Trimmed.head_initial (h : Trimmed p s) (ha : a <+: s) : ∀ c ∈ a.head?, p c = false := by
  have ⟨b, hb⟩ := ha
  cases a
  case nil       => exact nofun
  case cons d a => exact fun c hc => h.head c (by rw [← hb]; exact hc)

end Trim
