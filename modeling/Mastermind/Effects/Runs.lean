import Mastermind.Effects.Prog

namespace Effects.Prog

variable {ε : Type} {B : Backend ε} {α β : Type} {p : Prog B α} {f : α → Prog B β}
variable {fs : List Fate} {s : B.State}

theorem returns.imp {I J : B.State → Prop} {r : Result ε α} (h : returns I r s) (hi : I s → J s) :
    returns J r s := by
  cases r
  case ok    => exact hi h
  case error => exact h
  case ended => exact h

theorem onOk.of_isOk {I : B.State → Prop} {r : Result ε α} (h : onOk I r s) (hr : r.isOk = true) :
    I s := by
  cases r
  case ok    => exact h
  case error => nomatch hr
  case ended => nomatch hr

def errorOf : Result ε α → Option ε
  | .error e => some e
  | _        => none

theorem eq_of_errorOf {r : Result ε α} {e : ε} (h : errorOf r = some e) : r = .error e := by
  cases r
  case ok    => nomatch h
  case error => rw [Option.some.inj h]
  case ended => nomatch h

-- A program that stops in its first part does not come to the second one.
theorem run_bind_error {e : ε} (h : (p.run fs s).result = .error e) :
    ((p >>= f).run fs s).result = .error e ∧ ((p >>= f).run fs s).state = (p.run fs s).state := by
  change ((p.bind f).run fs s).result = _ ∧ ((p.bind f).run fs s).state = _
  induction p generalizing fs s
  case ret   => cases h
  case throw =>
    cases h
    exact ⟨rfl, rfl⟩
  case call c k hi =>
    simp only [bind, run] at h ⊢
    split
    case isTrue hl  =>
      rw [if_pos hl] at h
      exact hi _ h
    case isFalse hl =>
      rw [if_neg hl] at h
      split at h
      case h_1 => exact hi _ h
      case h_2 => exact hi _ h
      case h_3 => cases h

theorem run_bind_ended (h : (p.run fs s).result = .ended) :
    ((p >>= f).run fs s).result = .ended ∧ ((p >>= f).run fs s).state = (p.run fs s).state := by
  change ((p.bind f).run fs s).result = _ ∧ ((p.bind f).run fs s).state = _
  induction p generalizing fs s
  case ret   => nomatch h
  case throw => nomatch h
  case call c k hi =>
    simp only [bind, run] at h ⊢
    split
    case isTrue hl  =>
      rw [if_pos hl] at h
      exact hi _ h
    case isFalse hl =>
      rw [if_neg hl] at h
      split at h
      case h_1 => exact hi _ h
      case h_2 => exact hi _ h
      case h_3 => exact ⟨rfl, rfl⟩

-- The second part meets the fates that the first one has left.
theorem run_bind_ok {a : α} (h : (p.run fs s).result = .ok a) : ∃ rest, rest <:+ fs ∧
    ((p >>= f).run fs s).result = ((f a).run rest (p.run fs s).state).result ∧
    ((p >>= f).run fs s).state = ((f a).run rest (p.run fs s).state).state := by
  change ∃ rest, rest <:+ fs ∧ ((p.bind f).run fs s).result = _ ∧ ((p.bind f).run fs s).state = _
  induction p generalizing fs s
  case ret =>
    cases h
    exact ⟨fs, List.suffix_refl _, rfl, rfl⟩
  case throw => cases h
  case call c k hi =>
    simp only [bind, run] at h ⊢
    split
    case isTrue hl  =>
      rw [if_pos hl] at h
      exact hi _ h
    case isFalse hl =>
      rw [if_neg hl] at h
      split at h
      case h_1 =>
        obtain ⟨rest, hr, he⟩ := hi _ h
        exact ⟨rest, hr.trans (List.tail_suffix _), he⟩
      case h_2 =>
        obtain ⟨rest, hr, he⟩ := hi _ h
        exact ⟨rest, hr.trans (List.tail_suffix _), he⟩
      case h_3 => cases h

theorem run_bind_of_not_ok (h : (p.run fs s).result.isOk = false) :
    ((p >>= f).run fs s).result.isOk = false ∧
    ((p >>= f).run fs s).state = (p.run fs s).state := by
  cases hr : (p.run fs s).result
  case ok      => simp [hr, Result.isOk] at h
  case error e =>
    have ⟨he, hs⟩ := run_bind_error (f := f) hr
    exact ⟨by rw [he]; rfl, hs⟩
  case ended   =>
    have ⟨he, hs⟩ := run_bind_ended (f := f) hr
    exact ⟨by rw [he]; rfl, hs⟩

theorem run_bind_nil_isOk (h : (p.run [] s).result.isOk = true)
    (hf : ∀ a s, ((f a).run [] s).result.isOk = true) :
    ((p >>= f).run [] s).result.isOk = true := by
  cases hr : (p.run [] s).result
  case error => simp [hr, Result.isOk] at h
  case ended => simp [hr, Result.isOk] at h
  case ok a  =>
    have ⟨rest, hs, he, _⟩ := run_bind_ok (f := f) hr
    obtain rfl := List.suffix_nil.mp hs
    rw [he]
    exact hf a _

-- An error handler that returns makes a program return.
theorem run_handle_nil_isOk {h : ε → Prog B α} (hh : ∀ e s, ((h e).run [] s).result.isOk = true) :
    ((p.handle h).run [] s).result.isOk = true := by
  induction p generalizing s
  case ret   => rfl
  case throw => exact hh _ _
  case call c k hi =>
    rw [handle, run]
    split
    case isTrue  => exact hi _
    case isFalse => exact hi _

-- A command that is served leads to the rest of the program.
theorem run_step {c : B.Cmd} {a : B.Ans c} {s' : B.State} {f : B.Ans c → Prog B β}
    (hl : B.local? c = false) (hf : fs.headD .served = .served) (hx : B.exec c s = (.ok a, s')) :
    (perform c >>= f).run fs s = ((f a).run fs.tail s').after (c, .served) := by
  change Prog.run (.call c _) fs s = _
  rw [run, hl, hf, hx]
  rfl

-- A program ends with a command that is not served or that fails without an effect, unless it
-- handles the error.
theorem run_stop {c : B.Cmd} {k : Except ε (B.Ans c) → Prog B β} (hk : ∀ e, k (.error e) = .throw e)
    (hl : B.local? c = false) (h : fs.headD .served ≠ .served ∨ ∃ e, B.exec c s = (.error e, s)) :
    ((Prog.call c k).run fs s).result.isOk = false ∧ ((Prog.call c k).run fs s).state = s := by
  rw [run, hl]
  cases hf : fs.headD .served
  case failed => exact hk _ ▸ ⟨rfl, rfl⟩
  case ended  => exact ⟨rfl, rfl⟩
  case served =>
    obtain ⟨e, hx⟩ := h.resolve_left (absurd hf)
    rw [hx]
    exact hk e ▸ ⟨rfl, rfl⟩

-- The disturbances of a run are among its fates.
theorem within_fates {D : Disturbance B} (h : ∀ c, ∀ fate ∈ fs, fate ≠ .served → D c fate) :
    Run.Within D (p.run fs s) := by
  induction p generalizing fs s
  case ret   => exact fun _ he => nomatch he
  case throw => exact fun _ he => nomatch he
  case call c k hi =>
    have ht : ∀ c, ∀ fate ∈ fs.tail, fate ≠ .served → D c fate :=
      fun c fate hf => h c fate (List.mem_of_mem_tail hf)
    have hc : ∀ {r : Run B α} {fate}, (fate ≠ .served → D c fate) → Run.Within D r →
        Run.Within D (r.after (c, fate)) := by
      intro r fate hf hr e he
      cases List.mem_cons.mp he
      case inl he => exact he ▸ hf
      case inr he => exact hr e he
    rw [run]
    split
    case isTrue  => exact hc (fun hn => absurd rfl hn) (hi _ h)
    case isFalse =>
      have hf : ∀ fate, fs.headD .served = fate → fate ≠ .served → D c fate := by
        rintro _ rfl hn
        cases fs
        case nil  => exact absurd rfl hn
        case cons => exact h c _ List.mem_cons_self hn
      split
      case h_1 => exact hc (fun hn => absurd rfl hn) (hi _ ht)
      case h_2 hh => exact hc (hf _ hh) (hi _ ht)
      case h_3 hh =>
        intro e he hn
        obtain rfl := List.mem_singleton.mp he
        exact hf _ hh hn

-- A program meets the disturbances of all its runs.
theorem wp_iff_run {D : Disturbance B} {Q : Result ε α → B.State → Prop} : p.wp (under B D) Q s ↔
    ∀ fs, Run.Within D (p.run fs s) → Q (p.run fs s).result (p.run fs s).state := by
  constructor
  case mp  => exact fun h fs => wp_run h
  case mpr =>
    intro h
    induction p generalizing s
    case ret   => exact h [] fun _ he => nomatch he
    case throw => exact h [] fun _ he => nomatch he
    case call c k hi =>
      have hc {r : Run B α} {fate : Fate} (hf : fate ≠ .served → D c fate) (hr : Run.Within D r) :
          Run.Within D (r.after (c, fate)) := by
        intro e he
        cases List.mem_cons.mp he
        case inl he => exact he ▸ hf
        case inr he => exact hr e he
      cases hl : B.local? c
      case true =>
        have hn : ¬B.local? c = false := by simp [hl]
        refine wp_call_under.mpr ⟨hi _ fun fs hw => ?_, fun h => (hn h).elim, fun h => (hn h).elim⟩
        have h := h fs
        simp only [run, hl, if_true] at h
        exact h (hc (fun hn => absurd rfl hn) hw)
      case false =>
        have h (fs : List Fate) := h fs
        simp only [run, hl, Bool.false_eq_true, if_false] at h
        refine wp_call_under.mpr ⟨hi _ fun fs hw => ?_, fun _ hd => hi _ fun fs hw => ?_,
          fun _ hd => ?_⟩
        case refine_1 => exact h (.served :: fs) (hc (fun hn => absurd rfl hn) hw)
        case refine_2 => exact h (.failed :: fs) (hc (fun _ => hd) hw)
        case refine_3 =>
          refine h [.ended] fun e he _ => ?_
          rw [List.mem_singleton.mp he]
          exact hd

-- A program returns in a state with the property `I` unless something disturbs it.
def unlessDisturbed (D : Disturbance B) (I : B.State → Prop) : Result ε α → B.State → Prop
  | .ok _, s => I s
  | _, _     => ∃ c fate, D c fate

section

variable {D : Disturbance B} {I J : B.State → Prop}

theorem wp_unless_bind (h : p.wp (under B D) (unlessDisturbed D J) s)
    (hf : ∀ a s, J s → (f a).wp (under B D) (unlessDisturbed D I) s) :
    (p >>= f).wp (under B D) (unlessDisturbed D I) s := by
  apply wp_bind.mpr
  apply wp_mono h
  intro r s hj
  cases r
  case ok a  => exact hf a s hj
  case error => exact hj
  case ended => exact hj

theorem wp_unless_step {c : B.Cmd} {a : B.Ans c} {s' : B.State} {k : B.Ans c → Prog B α}
    (hx : B.exec c s = (.ok a, s')) (hk : (k a).wp (under B D) (unlessDisturbed D I) s') :
    (perform c >>= k).wp (under B D) (unlessDisturbed D I) s :=
  wp_step hx hk fun fate _ hd => ⟨⟨c, fate, hd⟩, ⟨c, fate, hd⟩⟩

theorem wp_unless_last {c : B.Cmd} {a : B.Ans c} {s' : B.State}
    (hx : B.exec c s = (.ok a, s')) (hi : I s') :
    (perform c).wp (under B D) (unlessDisturbed D I) s :=
  wp_last hx hi fun fate _ hd => ⟨⟨c, fate, hd⟩, ⟨c, fate, hd⟩⟩

theorem wp_unless_forEach {I : List α → B.State → Prop} {f : α → Prog B Unit} {xs : List α}
    (h : ∀ x xs s, I (x :: xs) s → (f x).wp (under B D) (unlessDisturbed D (I xs)) s)
    (hs : I xs s) : (forEach f xs).wp (under B D) (unlessDisturbed D (I [])) s := by
  induction xs generalizing s
  case nil          => exact hs
  case cons x xs hi => exact wp_unless_bind (h x xs s hs) fun _ _ => hi

-- Programs that go on with a program that does not return.
theorem wp_bind_throws {f : α → Prog B β} (hf : ∀ a s, (f a).wp (under B D) (onOk I) s) :
    (p >>= f).wp (under B D) (onOk I) s := by
  apply wp_bind_ok (J := fun _ => True)
  case h  => exact wp_onOk (Only.always.wp_under (fun _ _ _ _ => trivial) trivial)
  case hf => exact fun a s _ => hf a s

-- An assertion that each round of a loop keeps.
theorem wp_forEach_keeps {σ : Type} {E : Environment B σ} {I : σ → Prop} {f : α → Prog B Unit}
    {xs : List α} {s : σ} (h : ∀ x s, x ∈ xs → I s → (f x).wp E (fun _ => I) s) (hs : I s) :
    (forEach f xs).wp E (fun _ => I) s := by
  induction xs generalizing s
  case nil => exact hs
  case cons x xs hi =>
    refine wp_bind_keeps (h x s List.mem_cons_self hs) fun _ s hs => ?_
    exact hi (fun x s hx => h x s (List.mem_cons_of_mem _ hx)) hs

theorem wp_unless_returns (h : p.wp (under B .none) (unlessDisturbed .none I) s) :
    p.wp (under B .none) (returns I) s := by
  apply wp_mono h
  intro r s hi
  cases r
  case ok    => exact hi
  case error => exact hi.choose_spec.elim fun _ => False.elim
  case ended => exact hi.choose_spec.elim fun _ => False.elim

theorem wp_unless_onOk (h : p.wp (under B D) (unlessDisturbed D I) s) :
    p.wp (under B D) (onOk I) s := by
  apply wp_mono h
  intro r s hi
  cases r
  case ok    => exact hi
  case error => trivial
  case ended => trivial

end

section

variable {Q : α → Prop}

-- What a program returns has a property, whatever the answers to its commands are.
def Returns (Q : α → Prop) : Prog B α → Prop
  | ret a    => Q a
  | throw _  => True
  | call _ k => ∀ r, (k r).Returns Q

theorem Returns.run (h : p.Returns Q) {a : α} (hr : (p.run fs s).result = .ok a) : Q a := by
  induction p generalizing fs s
  case ret   => cases hr; exact h
  case throw => cases hr
  case call c k hi =>
    rw [Prog.run] at hr
    split at hr
    case isTrue => exact hi _ (h _) hr
    case isFalse =>
      split at hr
      case h_1 => exact hi _ (h _) hr
      case h_2 => exact hi _ (h _) hr
      case h_3 => cases hr

end

section

variable {R : B.State → B.State → Prop} {P : B.Cmd → Prop}

-- A program that returns, in a state that is in a relation to the one in which it began.
def Leads (R : B.State → B.State → Prop) (p : Prog B α) : Prop :=
  ∀ s, p.wp (under B .none) (returns (R s)) s

theorem Leads.pure (hr : ∀ s, R s s) {x : α} : Leads (B := B) R (pure x) :=
  fun s => hr s

theorem Leads.bind (ht : ∀ s₁ s₂ s₃, R s₁ s₂ → R s₂ s₃ → R s₁ s₃) (h : Leads R p)
    (hf : ∀ a, Leads R (f a)) : Leads R (p >>= f) :=
  fun s => wp_bind_returns (h s) fun a s' hs => wp_returns_mono (hf a s') fun _ h => ht _ _ _ hs h

theorem Leads.ite {c : Prop} [Decidable c] {p' : Prog B α} (h : Leads R p) (h' : Leads R p') :
    Leads R (if c then p else p') := by
  split
  case isTrue  => exact h
  case isFalse => exact h'

-- A program whose errors are ignored does what its commands do.
theorem Leads.ignore {p : Prog B Unit} (hr : ∀ s, R s s)
    (ht : ∀ s₁ s₂ s₃, R s₁ s₂ → R s₂ s₃ → R s₁ s₃) (hx : ∀ c s, P c → R s (B.exec c s).2)
    (h : p.Only P) : Leads R (p.handle fun _ => ret ()) := by
  intro s
  apply wp_handle_returns
  case h  => exact h.wp_under (fun s' c hc hs => ht _ _ _ hs (hx c s' hc)) (hr s)
  case hf => exact fun _ _ hs => hs

end

end Effects.Prog
