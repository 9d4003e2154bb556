import Mathlib.Data.List.Perm.Basic

namespace Effects

-- A system that takes one event after the other.
structure System where
  State : Type
  Event : Type
  next  : State → Event → State

namespace System

variable {S : System} {s : S.State} {es es₁ es₂ : List S.Event}

def run (S : System) (s : S.State) (es : List S.Event) : S.State :=
  es.foldl S.next s

@[simp]
theorem run_nil : S.run s [] = s :=
  rfl

@[simp]
theorem run_cons {e : S.Event} : S.run s (e :: es) = S.run (S.next s e) es :=
  rfl

theorem run_append : S.run s (es₁ ++ es₂) = S.run (S.run s es₁) es₂ :=
  List.foldl_append

-- All events of a run meet the condition `C`, each in the state in which it happens.
def Meets (S : System) (C : S.State → S.Event → Prop) : S.State → List S.Event → Prop
  | _, []      => True
  | s, e :: es => C s e ∧ Meets S C (S.next s e) es

variable {C : S.State → S.Event → Prop}

instance [∀ s e, Decidable (C s e)] : Decidable (S.Meets C s es) :=
  decide s es
where
  decide : (s : S.State) → (es : List S.Event) → Decidable (S.Meets C s es)
    | _, []      => .isTrue trivial
    | s, e :: es => @instDecidableAnd _ _ inferInstance (decide (S.next s e) es)

theorem meets_append : S.Meets C s (es₁ ++ es₂) ↔ S.Meets C s es₁ ∧ S.Meets C (S.run s es₁) es₂ := by
  induction es₁ generalizing s
  case nil          => simp [Meets]
  case cons e es hi => simp [Meets, hi, and_assoc]

theorem Meets.and {C' : S.State → S.Event → Prop} (h : S.Meets C s es) (h' : S.Meets C' s es) :
    S.Meets (fun s e => C s e ∧ C' s e) s es := by
  induction es generalizing s
  case nil     => trivial
  case cons hi => exact ⟨⟨h.left, h'.left⟩, hi h.right h'.right⟩

-- Conditions that are equivalent where a third one is met.
theorem Meets.congr {P Q : S.State → S.Event → Prop} (h : S.Meets C s es)
    (hc : ∀ s e, C s e → (P s e ↔ Q s e)) : S.Meets P s es ↔ S.Meets Q s es := by
  induction es generalizing s
  case nil     => exact Iff.rfl
  case cons hi => exact and_congr (hc _ _ h.left) (hi h.right)

theorem meets_of_forall {P : S.Event → Prop} (h : ∀ e ∈ es, P e) : S.Meets (fun _ e => P e) s es := by
  induction es generalizing s
  case nil     => trivial
  case cons hi => exact ⟨h _ List.mem_cons_self, hi fun e he => h e (List.mem_cons_of_mem _ he)⟩

theorem Meets.earlier (h : S.Meets C s (es₁ ++ es₂)) : S.Meets C s es₁ :=
  (meets_append.mp h).left

-- A condition on the states that a run comes through.
theorem meets_of_split (h : ∀ es₁ e es₂, es = es₁ ++ e :: es₂ → C (S.run s es₁) e) :
    S.Meets C s es := by
  induction es generalizing s
  case nil          => trivial
  case cons e es hi =>
    exact ⟨h [] e es rfl, hi fun es₁ e' es₂ he => h (e :: es₁) e' es₂ (congrArg (e :: ·) he)⟩

-- What holds initially and is preserved by every event that meets the condition, holds in every
-- state of every run whose events all meet the condition.
theorem invariant {I : S.State → Prop} (hn : ∀ s e, I s → C s e → I (S.next s e))
    (h : I s) (hm : S.Meets C s es) : I (S.run s es) := by
  induction es generalizing s
  case nil          => exact h
  case cons e es hi => exact hi (hn _ _ h hm.left) hm.right

-- What every event preserves, holds in every state of every run.
theorem always {I : S.State → Prop} (hn : ∀ s e, I s → I (S.next s e)) (h : I s) :
    I (S.run s es) := by
  induction es generalizing s
  case nil          => exact h
  case cons e es hi => exact hi (hn _ _ h)

theorem meets_of_always {I : S.State → Prop} (hn : ∀ s e, I s → I (S.next s e)) (h : I s) :
    S.Meets (fun s _ => I s) s es := by
  induction es generalizing s
  case nil          => trivial
  case cons e es hi => exact ⟨h, hi (hn _ _ h)⟩

-- The property holds in every state that a run comes through, its first and its last one included.
def Throughout (S : System) (I : S.State → Prop) : S.State → List S.Event → Prop
  | s, []      => I s
  | s, e :: es => I s ∧ Throughout S I (S.next s e) es

-- If the condition is what an event needs to preserve the property, then it is what a run needs.
theorem throughout_iff {I : S.State → Prop} (hn : ∀ s e, I s → (I (S.next s e) ↔ C s e)) (h : I s) :
    S.Throughout I s es ↔ S.Meets C s es := by
  induction es generalizing s
  case nil => exact iff_of_true h trivial
  case cons e es hi =>
    simp only [Throughout, Meets, h, true_and]
    constructor
    case mp =>
      intro ht
      have hs : I (S.next s e) := by
        cases es
        case nil  => exact ht
        case cons => exact ht.left
      exact ⟨(hn s e h).mp hs, (hi hs).mp ht⟩
    case mpr =>
      intro ⟨hc, hm⟩
      exact (hi ((hn s e h).mpr hc)).mpr hm

-- The order of the events does not matter.
def Commutes (S : System) : Prop :=
  ∀ s e₁ e₂, S.next (S.next s e₁) e₂ = S.next (S.next s e₂) e₁

-- An event that happens twice in a row could as well happen once.
def Idempotent (S : System) : Prop :=
  ∀ s e, S.next (S.next s e) e = S.next s e

theorem Commutes.run_perm (hc : S.Commutes) (h : es₁.Perm es₂) : S.run s es₁ = S.run s es₂ :=
  have : RightCommutative S.next := ⟨hc⟩
  h.foldl_eq s

-- Events that have happened already change nothing.
theorem Commutes.run_again (hc : S.Commutes) (hi : S.Idempotent) (h : es₂ ⊆ es₁) :
    S.run (S.run s es₁) es₂ = S.run s es₁ := by
  induction es₂
  case nil           => rfl
  case cons e es₂ ih =>
    have ⟨hm, hs⟩ := List.cons_subset.mp h
    have ⟨l, r, he⟩ := List.append_of_mem hm
    have hp : es₁.Perm (l ++ r ++ [e]) :=
      he ▸ List.perm_middle.trans (List.perm_append_singleton e (l ++ r)).symm
    have ha : S.next (S.run s es₁) e = S.run s es₁ := by
      rw [hc.run_perm hp, run_append]
      exact hi _ e
    rw [run_cons, ha, ih hs]

-- All that matters is which events happen.
theorem Commutes.run_congr (hc : S.Commutes) (hi : S.Idempotent) (h : ∀ e, e ∈ es₁ ↔ e ∈ es₂) :
    S.run s es₁ = S.run s es₂ :=
  calc S.run s es₁
    _ = S.run s (es₁ ++ es₂) := by rw [run_append, hc.run_again hi fun e => (h e).mpr]
    _ = S.run s (es₂ ++ es₁) := hc.run_perm List.perm_append_comm
    _ = S.run s es₂          := by rw [run_append, hc.run_again hi fun e => (h e).mp]

end System
end Effects
