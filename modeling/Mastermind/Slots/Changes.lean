import Mathlib.Data.List.Basic

namespace Slots

-- What is in each of the slots.
abbrev Store (κ ν : Type) :=
  κ → Option ν

inductive Change (κ ν : Type)
  | move   (a b : κ)
  | remove (a : κ)
  | add    (b : κ) (v : ν)

variable {κ ν : Type} [DecidableEq κ]

namespace Change

def apply (st : Store κ ν) : Change κ ν → κ → Option ν
  | move a b, x => if x = b then st a else if x = a then none else st x
  | remove a, x => if x = a then none else st x
  | add b v, x  => if x = b then some v else st x

-- Only slots without an entry are filled.
def Legal (st : Store κ ν) : Change κ ν → Prop
  | move a b => (st a).isSome ∧ st b = none
  | remove a => (st a).isSome
  | add b _  => st b = none

-- The slot to which a change takes the entry of another one, unless it removes the entry.
def carry : Change κ ν → κ → Option κ
  | move a b, x => some (if x = a then b else x)
  | remove a, x => if x = a then none else some x
  | add _ _, x  => some x

variable {st : Store κ ν} {c : Change κ ν} {x y : κ} {v : ν}

theorem apply_carry (h : c.Legal st) (hx : st x = some v) (hy : c.carry x = some y) :
    c.apply st y = some v := by
  cases c <;> simp only [carry, Option.some.injEq] at hy <;> rw [apply]
  case move a b =>
    subst hy
    by_cases ha : x = a
    case pos => rw [if_pos ha, if_pos rfl, ← ha, hx]
    case neg =>
      have hb : x ≠ b := by
        rintro rfl
        simp [h.right] at hx
      rw [if_neg ha, if_neg hb, if_neg ha, hx]
  case remove a =>
    split at hy
    case isTrue     => nomatch hy
    case isFalse ha => rw [← Option.some.inj hy, if_neg ha, hx]
  case add b w =>
    subst hy
    have hb : x ≠ b := by
      rintro rfl
      rw [Legal, hx] at h
      nomatch h
    rw [if_neg hb, hx]

theorem carry_inj {x' : κ} (h : c.Legal st) (hx : (st x).isSome) (hx' : (st x').isSome)
    (hy : c.carry x = some y) (hy' : c.carry x' = some y) : x = x' := by
  cases c <;> simp only [carry, Option.some.injEq] at hy hy'
  case move a b =>
    have hb : ∀ {z}, (st z).isSome → z ≠ b := by
      rintro _ hz rfl
      simp [h.right] at hz
    by_cases ha : x = a
    case pos =>
      by_cases ha' : x' = a
      case pos => rw [ha, ha']
      case neg =>
        rw [if_pos ha] at hy
        rw [if_neg ha'] at hy'
        exact absurd (hy'.trans hy.symm) (hb hx')
    case neg =>
      rw [if_neg ha] at hy
      by_cases ha' : x' = a
      case pos =>
        rw [if_pos ha'] at hy'
        exact absurd (hy.trans hy'.symm) (hb hx)
      case neg =>
        rw [if_neg ha'] at hy'
        exact hy.trans hy'.symm
  case remove a =>
    split at hy
    case isTrue  => nomatch hy
    case isFalse =>
      split at hy'
      case isTrue  => nomatch hy'
      case isFalse => rw [Option.some.inj hy, Option.some.inj hy']
  case add => rw [hy, hy']

theorem of_carry_none (h : c.carry x = none) : c = remove x := by
  cases c <;> simp only [carry, reduceCtorEq] at h
  case remove a =>
    split at h
    case isTrue ha => rw [ha]
    case isFalse   => nomatch h

-- An entry comes from somewhere.
theorem origin (h : c.Legal st) (hy : c.apply st y = some v) :
    (∃ x, st x = some v ∧ c.carry x = some y) ∨ c = add y v := by
  cases c <;> simp only [apply] at hy
  case move a b =>
    split at hy
    case isTrue hb  => exact .inl ⟨a, hy, by simp [carry, hb]⟩
    case isFalse hb =>
      split at hy
      case isTrue     => nomatch hy
      case isFalse ha => exact .inl ⟨y, hy, by simp [carry, ha]⟩
  case remove a =>
    split at hy
    case isTrue     => nomatch hy
    case isFalse ha => exact .inl ⟨y, hy, by simp [carry, ha]⟩
  case add b w =>
    split at hy
    case isTrue hb  => exact .inr (by rw [hb, Option.some.inj hy])
    case isFalse hb => exact .inl ⟨y, hy, rfl⟩

-- A move can be undone.
theorem move_back {a b : κ} (h : (move a b : Change κ ν).Legal st) :
    (move b a : Change κ ν).apply ((move a b : Change κ ν).apply st) = st := by
  have hne : a ≠ b := by
    rintro rfl
    exact nomatch h.right ▸ h.left
  funext x
  by_cases ha : x = a
  case pos => simp [apply, ha]
  case neg =>
    by_cases hb : x = b
    case pos => simp [apply, hb, hne.symm, h.right]
    case neg => simp [apply, ha, hb]

end Change

open Change

-- One change after the other.
def applyAll (st : Store κ ν) : List (Change κ ν) → Store κ ν
  | []      => st
  | c :: cs => applyAll (c.apply st) cs

def Legal (st : Store κ ν) : List (Change κ ν) → Prop
  | []      => True
  | c :: cs => c.Legal st ∧ Legal (c.apply st) cs

-- Where an entry ends up.
def follow : List (Change κ ν) → κ → Option κ
  | [], x      => some x
  | c :: cs, x => (c.carry x).bind (follow cs)

variable {st : Store κ ν} {cs cs' : List (Change κ ν)} {x y : κ} {v : ν}

theorem applyAll_append : applyAll st (cs ++ cs') = applyAll (applyAll st cs) cs' := by
  induction cs generalizing st
  case nil     => rfl
  case cons hi => exact hi

theorem legal_append : Legal st (cs ++ cs') ↔ Legal st cs ∧ Legal (applyAll st cs) cs' := by
  induction cs generalizing st
  case nil     => simp [Legal, applyAll]
  case cons hi => simp [Legal, applyAll, hi, and_assoc]

-- The content of an entry stays the same.
theorem applyAll_follow (h : Legal st cs) (hx : st x = some v) (hy : follow cs x = some y) :
    applyAll st cs y = some v := by
  induction cs generalizing st x
  case nil          => rwa [← Option.some.inj hy]
  case cons c cs hi =>
    have ⟨z, hz, hy⟩ := Option.bind_eq_some_iff.mp hy
    exact hi h.right (apply_carry h.left hx hz) hy

-- Two entries do not become one.
theorem follow_inj {x' : κ} (h : Legal st cs) (hx : (st x).isSome) (hx' : (st x').isSome)
    (hy : follow cs x = some y) (hy' : follow cs x' = some y) : x = x' := by
  induction cs generalizing st x x'
  case nil          => rw [Option.some.inj hy, Option.some.inj hy']
  case cons c cs hi =>
    have ⟨z, hz, hy⟩ := Option.bind_eq_some_iff.mp hy
    have ⟨z', hz', hy'⟩ := Option.bind_eq_some_iff.mp hy'
    have hs : ∀ {x z}, (st x).isSome → c.carry x = some z → (c.apply st z).isSome := by
      intro x z hx hz
      have ⟨v, hv⟩ := Option.isSome_iff_exists.mp hx
      rw [apply_carry h.left hv hz]
      rfl
    obtain rfl := hi h.right (hs hx hz) (hs hx' hz') hy hy'
    exact carry_inj h.left hx hx' hz hz'

-- An entry is lost only when it is removed.
theorem of_follow_none (h : follow cs x = none) :
    ∃ before a after, cs = before ++ .remove a :: after ∧ follow before x = some a := by
  induction cs generalizing x
  case nil          => nomatch h
  case cons c cs hi =>
    cases hc : c.carry x
    case none   => exact ⟨[], x, cs, by rw [of_carry_none hc]; rfl, rfl⟩
    case some z =>
      rw [follow, hc] at h
      have ⟨before, a, after, he, hf⟩ := hi h
      exact ⟨c :: before, a, after, by rw [he]; rfl, by rw [follow, hc]; exact hf⟩

-- All entries have been there before or have been added.
theorem origin (h : Legal st cs) (hy : applyAll st cs y = some v) :
    (∃ x, st x = some v ∧ follow cs x = some y) ∨
    ∃ before b after, cs = before ++ .add b v :: after ∧ follow after b = some y := by
  induction cs generalizing st
  case nil          => exact .inl ⟨y, hy, rfl⟩
  case cons c cs hi =>
    obtain ⟨z, hz, hf⟩ | ⟨before, b, after, he, hf⟩ := hi h.right hy
    case inr => exact .inr ⟨c :: before, b, after, by rw [he]; rfl, hf⟩
    case inl =>
      obtain ⟨x, hx, hc⟩ | rfl := Change.origin h.left hz
      case inl => exact .inl ⟨x, hx, by rw [follow, hc]; exact hf⟩
      case inr => exact .inr ⟨[], z, cs, rfl, hf⟩

end Slots
