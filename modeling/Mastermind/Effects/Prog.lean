import Mathlib.Logic.Basic

namespace Effects

-- A backend is what a program runs against: the commands it can issue, what they answer, and what
-- they do to the backend's state. A command may fail by itself (a missing row, a taken key), and
-- `fault` is the error that a program sees when the environment makes a command fail. A local command
-- (such as a look at the clock) involves no other party and cannot be made to fail.
structure Backend (ε : Type) where
  State : Type
  Cmd   : Type
  Ans   : Cmd → Type
  exec  : (c : Cmd) → State → Except ε (Ans c) × State
  fault : ε
  local? : Cmd → Bool

-- A program is a tree of commands. The continuation of a command gets to see whether it failed, so
-- that error handlers are ordinary programs.
inductive Prog {ε : Type} (B : Backend ε) (α : Type)
  | ret   (a : α)
  | throw (e : ε)
  | call  (c : B.Cmd) (k : Except ε (B.Ans c) → Prog B α)

namespace Prog

variable {ε : Type} {B : Backend ε} {α β : Type}

def bind : Prog B α → (α → Prog B β) → Prog B β
  | ret a, f    => f a
  | throw e, _  => throw e
  | call c k, f => call c fun r => (k r).bind f

instance : Monad (Prog B) where
  pure := ret
  bind := bind

def handle : Prog B α → (ε → Prog B α) → Prog B α
  | ret a, _    => ret a
  | throw e, h  => h e
  | call c k, h => call c fun r => (k r).handle h

-- Lifts the answer of a command into a program.
def ofExcept : Except ε α → Prog B α
  | .ok a    => ret a
  | .error e => throw e

def perform (c : B.Cmd) : Prog B (B.Ans c) :=
  call c ofExcept

-- Runs a program for each element of a list.
def forEach (f : α → Prog B Unit) : List α → Prog B Unit
  | []      => ret ()
  | x :: xs => (f x).bind fun _ => forEach f xs

theorem forEach_map {g : α → β} {f : β → Prog B Unit} {xs : List α} :
    forEach f (xs.map g) = forEach (fun x => f (g x)) xs := by
  induction xs
  case nil     => rfl
  case cons hi => rw [List.map_cons, forEach, forEach, hi]

-- The elements for which there is nothing to do can be left out.
theorem forEach_filterMap {g : α → Option β} {f : β → Prog B Unit} {xs : List α} :
    forEach (fun x => (g x).elim (ret ()) f) xs = forEach f (xs.filterMap g) := by
  induction xs
  case nil => rfl
  case cons x xs hi =>
    rw [forEach, hi, List.filterMap_cons]
    cases g x <;> rfl

-- The command that a program issues next.
def next? : Prog B α → Option B.Cmd
  | call c _ => some c
  | _        => none

end Prog

-- What the environment does with a command: it lets the command through, it makes the command fail
-- without effect, or it ends the whole program before the command.
inductive Fate
  | served
  | failed
  | ended
  deriving DecidableEq

inductive Result (ε α : Type)
  | ok    (a : α)
  | error (e : ε)
  | ended

def Result.isOk {ε α : Type} : Result ε α → Bool
  | ok _ => true
  | _    => false

structure Run {ε : Type} (B : Backend ε) (α : Type) where
  result : Result ε α
  state  : B.State
  log    : List (B.Cmd × Fate)

def Run.after {ε : Type} {B : Backend ε} {α : Type} (r : Run B α) (e : B.Cmd × Fate) : Run B α :=
  { r with log := e :: r.log }

namespace Prog

variable {ε : Type} {B : Backend ε} {α β : Type}

-- Runs a program from start to finish. The list tells the fate of its commands in order; commands
-- past the end of the list are served, and so are local commands.
def run : Prog B α → List Fate → B.State → Run B α
  | ret a, _, s     => ⟨.ok a, s, []⟩
  | throw e, _, s   => ⟨.error e, s, []⟩
  | call c k, fs, s =>
    if B.local? c then (k (B.exec c s).1).run fs (B.exec c s).2 |>.after (c, .served)
    else
      match fs.headD .served with
      | .served => (k (B.exec c s).1).run fs.tail (B.exec c s).2 |>.after (c, .served)
      | .failed => (k (.error B.fault)).run fs.tail s |>.after (c, .failed)
      | .ended  => ⟨.ended, s, [(c, .ended)]⟩

-- What a program may meet while it runs: the commands that it is allowed to issue, the answers that
-- it can get and the state that each of them leads to, and whether it can be ended.
structure Environment (B : Backend ε) (σ : Type) where
  allows  : σ → B.Cmd → Prop
  answers : σ → (c : B.Cmd) → Except ε (B.Ans c) → σ → Prop
  ends    : σ → B.Cmd → Prop

-- The weakest precondition of a program in an environment.
def wp {σ : Type} (E : Environment B σ) (Q : Result ε α → σ → Prop) : Prog B α → σ → Prop
  | ret a, s    => Q (.ok a) s
  | throw e, s  => Q (.error e) s
  | call c k, s =>
    E.allows s c ∧ (∀ r s', E.answers s c r s' → (k r).wp E Q s') ∧ (E.ends s c → Q .ended s)

section

variable {σ : Type} {E : Environment B σ} {Q Q' : Result ε α → σ → Prop} {s : σ}

@[simp]
theorem wp_ret {a : α} : wp E Q (ret a) s ↔ Q (.ok a) s :=
  Iff.rfl

@[simp]
theorem wp_pure {a : α} : wp E Q (pure a) s ↔ Q (.ok a) s :=
  Iff.rfl

@[simp]
theorem wp_throw {e : ε} : wp E Q (throw e) s ↔ Q (.error e) s :=
  Iff.rfl

theorem wp_call {c : B.Cmd} {k : Except ε (B.Ans c) → Prog B α} :
    wp E Q (call c k) s ↔
      E.allows s c ∧ (∀ r s', E.answers s c r s' → wp E Q (k r) s') ∧ (E.ends s c → Q .ended s) :=
  Iff.rfl

-- The postcondition that the first part of a sequential composition has to establish.
def seqPost (E : Environment B σ) (Q : Result ε β → σ → Prop) (f : α → Prog B β) :
    Result ε α → σ → Prop
  | .ok a, s    => wp E Q (f a) s
  | .error e, s => Q (.error e) s
  | .ended, s   => Q .ended s

theorem wp_bind {p : Prog B α} {f : α → Prog B β} {Q : Result ε β → σ → Prop} :
    wp E Q (p >>= f) s ↔ wp E (seqPost E Q f) p s := by
  change wp E Q (p.bind f) s ↔ _
  induction p generalizing s
  case ret     => exact Iff.rfl
  case throw   => exact Iff.rfl
  case call hi => simp only [bind, wp_call, hi, seqPost]

theorem wp_bind_assoc {γ : Type} {p : Prog B α} {f : α → Prog B β} {g : β → Prog B γ}
    {Q : Result ε γ → σ → Prop} :
    wp E Q (p >>= fun a => f a >>= g) s ↔ wp E Q ((p >>= f) >>= g) s := by
  have hq : seqPost E Q (fun a => f a >>= g) = seqPost E (seqPost E Q g) f := by
    funext r s
    cases r
    case ok    => exact propext wp_bind
    case error => rfl
    case ended => rfl
  rw [wp_bind, wp_bind, wp_bind, hq]

-- The postcondition of a program under an error handler.
def handlePost (E : Environment B σ) (Q : Result ε α → σ → Prop) (h : ε → Prog B α) :
    Result ε α → σ → Prop
  | .ok a, s    => Q (.ok a) s
  | .error e, s => wp E Q (h e) s
  | .ended, s   => Q .ended s

theorem wp_handle {p : Prog B α} {h : ε → Prog B α} :
    wp E Q (p.handle h) s ↔ wp E (handlePost E Q h) p s := by
  induction p generalizing s
  case ret     => exact Iff.rfl
  case throw   => exact Iff.rfl
  case call hi => simp only [handle, wp_call, hi, handlePost]

-- The postcondition of a command, in terms of the command's answer.
def ansPost (Q : Result ε α → σ → Prop) : Except ε α → σ → Prop
  | .ok a, s    => Q (.ok a) s
  | .error e, s => Q (.error e) s

theorem wp_ofExcept {r : Except ε α} : wp E Q (ofExcept r) s ↔ ansPost Q r s := by
  cases r <;> exact Iff.rfl

theorem wp_perform {c : B.Cmd} {Q : Result ε (B.Ans c) → σ → Prop} :
    wp E Q (perform c) s ↔
      E.allows s c ∧ (∀ r s', E.answers s c r s' → ansPost Q r s') ∧ (E.ends s c → Q .ended s) := by
  simp only [perform, wp_call, wp_ofExcept]

theorem wp_mono {p : Prog B α} (h : wp E Q p s) (hq : ∀ r s, Q r s → Q' r s) : wp E Q' p s := by
  induction p generalizing s
  case ret     => exact hq _ _ h
  case throw   => exact hq _ _ h
  case call hi => exact ⟨h.1, fun _ _ ha => hi _ (h.2.1 _ _ ha), fun he => hq _ _ (h.2.2 he)⟩

-- An assertion between the two parts of a sequential composition.
theorem wp_bind_via {I J : σ → Prop} {p : Prog B α} {f : α → Prog B β} (h : wp E (fun _ => J) p s)
    (hj : ∀ s, J s → I s) (hf : ∀ a s, J s → wp E (fun _ => I) (f a) s) :
    wp E (fun _ => I) (p >>= f) s := by
  apply wp_bind.mpr
  apply wp_mono h
  intro r s h
  cases r
  case ok a  => exact hf a s h
  case error => exact hj s h
  case ended => exact hj s h

-- An assertion that both parts of a sequential composition keep.
theorem wp_bind_keeps {I : σ → Prop} {p : Prog B α} {f : α → Prog B β} (h : wp E (fun _ => I) p s)
    (hf : ∀ a s, I s → wp E (fun _ => I) (f a) s) : wp E (fun _ => I) (p >>= f) s :=
  wp_bind_via h (fun _ h => h) hf

theorem wp_handle_keeps {I : σ → Prop} {p : Prog B α} {f : ε → Prog B α} (h : wp E (fun _ => I) p s)
    (hf : ∀ e s, I s → wp E (fun _ => I) (f e) s) : wp E (fun _ => I) (p.handle f) s := by
  apply wp_handle.mpr
  apply wp_mono h
  intro r s hi
  cases r
  case ok      => exact hi
  case error e => exact hf e s hi
  case ended   => exact hi

-- An assertion about the programs that return.
def onOk {ε α σ : Type} (I : σ → Prop) : Result ε α → σ → Prop
  | .ok _, s => I s
  | _, _     => True

theorem wp_onOk {I : σ → Prop} {p : Prog B α} (h : wp E (fun _ => I) p s) : wp E (onOk I) p s := by
  apply wp_mono h
  intro r s hi
  cases r
  case ok    => exact hi
  case error => trivial
  case ended => trivial

theorem wp_bind_ok {I J : σ → Prop} {p : Prog B α} {f : α → Prog B β} (h : wp E (onOk J) p s)
    (hf : ∀ a s, J s → wp E (onOk I) (f a) s) : wp E (onOk I) (p >>= f) s := by
  apply wp_bind.mpr
  apply wp_mono h
  intro r s hj
  cases r
  case ok a  => exact hf a s hj
  case error => trivial
  case ended => trivial

-- A program that returns, in a state with the property `I`.
def returns {ε α σ : Type} (I : σ → Prop) : Result ε α → σ → Prop
  | .ok _, s => I s
  | _, _     => False

theorem returns.state {I : σ → Prop} {r : Result ε α} (h : returns I r s) : I s := by
  cases r
  case ok    => exact h
  case error => exact h.elim
  case ended => exact h.elim

theorem wp_returns_mono {I J : σ → Prop} {p : Prog B α} (h : wp E (returns I) p s)
    (hi : ∀ s, I s → J s) : wp E (returns J) p s := by
  apply wp_mono h
  intro r s hr
  cases r
  case ok    => exact hi s hr
  case error => exact hr
  case ended => exact hr

theorem wp_bind_returns {I J : σ → Prop} {p : Prog B α} {f : α → Prog B β}
    (h : wp E (returns J) p s) (hf : ∀ a s, J s → wp E (returns I) (f a) s) :
    wp E (returns I) (p >>= f) s := by
  apply wp_bind.mpr
  apply wp_mono h
  intro r s hj
  cases r
  case ok a  => exact hf a s hj
  case error => exact hj.elim
  case ended => exact hj.elim

-- What a program needs before each of the elements that it goes through, may depend on the elements
-- that are left.
theorem wp_forEach {I : List α → σ → Prop} {f : α → Prog B Unit} {xs : List α}
    (h : ∀ x xs s, I (x :: xs) s → wp E (returns (I xs)) (f x) s) (hs : I xs s) :
    wp E (returns (I [])) (forEach f xs) s := by
  induction xs generalizing s
  case nil          => exact hs
  case cons x xs hi => exact wp_bind_returns (h x xs s hs) fun _ _ => hi

theorem wp_and {p : Prog B α} (h : wp E Q p s) (h' : wp E Q' p s) :
    wp E (fun r s => Q r s ∧ Q' r s) p s := by
  induction p generalizing s
  case ret     => exact ⟨h, h'⟩
  case throw   => exact ⟨h, h'⟩
  case call hi =>
    exact ⟨h.1, fun _ _ ha => hi _ (h.2.1 _ _ ha) (h'.2.1 _ _ ha), fun he => ⟨h.2.2 he, h'.2.2 he⟩⟩

end

section

-- A program that only issues commands with the property `P`, whatever the answers are.
def Only (P : B.Cmd → Prop) : Prog B α → Prop
  | ret _    => True
  | throw _  => True
  | call c k => P c ∧ ∀ r, (k r).Only P

variable {P P' : B.Cmd → Prop}

theorem Only.pure {a : α} : Only P (pure a : Prog B α) :=
  trivial

theorem Only.throw {e : ε} : Only P (throw e : Prog B α) :=
  trivial

theorem Only.ofExcept {r : Except ε α} : Only P (ofExcept r : Prog B α) := by
  cases r <;> trivial

theorem Only.perform {c : B.Cmd} (h : P c) : Only P (perform c) :=
  ⟨h, fun _ => .ofExcept⟩

theorem Only.bind {p : Prog B α} {f : α → Prog B β} (h : Only P p) (hf : ∀ a, Only P (f a)) :
    Only P (p >>= f) := by
  change Only P (p.bind f)
  induction p
  case ret     => exact hf _
  case throw   => trivial
  case call hi => exact ⟨h.left, fun r => hi r (h.right r)⟩

theorem Only.forEach {f : α → Prog B Unit} {xs : List α} (h : ∀ x, Only P (f x)) :
    Only P (forEach f xs) := by
  induction xs
  case nil     => trivial
  case cons hi => exact (h _).bind fun _ => hi

theorem Only.map {p : Prog B α} {f : α → β} (h : Only P p) : Only P (f <$> p) :=
  h.bind fun _ => .pure

theorem Only.ite {c : Prop} [Decidable c] {p p' : Prog B α} (h : Only P p) (h' : Only P p') :
    Only P (if c then p else p') := by
  split
  case isTrue  => exact h
  case isFalse => exact h'

theorem Only.handle {p : Prog B α} {f : ε → Prog B α} (h : Only P p) (hf : ∀ e, Only P (f e)) :
    Only P (p.handle f) := by
  induction p
  case ret     => trivial
  case throw   => exact hf _
  case call hi => exact ⟨h.left, fun r => hi r (h.right r)⟩

theorem Only.mono {p : Prog B α} (h : Only P p) (hp : ∀ c, P c → P' c) : Only P' p := by
  induction p
  case ret     => trivial
  case throw   => trivial
  case call hi => exact ⟨hp _ h.left, fun r => hi r (h.right r)⟩

theorem Only.always {p : Prog B α} : Only (fun _ => True) p := by
  induction p
  case ret     => trivial
  case throw   => trivial
  case call hi => exact ⟨trivial, hi⟩

-- What no command of a program destroys, holds wherever the program stops.
theorem Only.wp {σ : Type} {E : Environment B σ} {I : σ → Prop} {p : Prog B α} {s : σ}
    (h : Only P p) (ha : ∀ s c, P c → I s → E.allows s c)
    (hc : ∀ s c r s', P c → I s → E.answers s c r s' → I s') (hs : I s) :
    wp E (fun _ => I) p s := by
  induction p generalizing s
  case ret     => exact hs
  case throw   => exact hs
  case call hi =>
    have hn := fun r s' hr => hi r (h.right r) (hc _ _ r s' h.left hs hr)
    exact ⟨ha _ _ h.left hs, hn, fun _ => hs⟩

end

-- The disturbances that a backend may cause.
abbrev Disturbance (B : Backend ε) :=
  B.Cmd → Fate → Prop

def Disturbance.none : Disturbance B :=
  fun _ _ => False

def Disturbance.any : Disturbance B :=
  fun _ _ => True

-- The environment of a program that has a backend for itself.
def under (B : Backend ε) (D : Disturbance B) : Environment B B.State where
  allows _ _       := True
  answers s c r s' :=
    (B.exec c s = (r, s')) ∨ (B.local? c = false ∧ D c .failed ∧ r = .error B.fault ∧ s' = s)
  ends _ c         := B.local? c = false ∧ D c .ended

variable {D : Disturbance B} {Q : Result ε α → B.State → Prop} {s : B.State}

theorem Only.wp_under {P : B.Cmd → Prop} {I : B.State → Prop} {p : Prog B α} (h : Only P p)
    (hc : ∀ s c, P c → I s → I (B.exec c s).2) (hs : I s) :
    Prog.wp (under B D) (fun _ => I) p s := by
  apply h.wp
  case ha => exact fun _ _ _ _ => trivial
  case hs => exact hs
  case hc =>
    intro s c r s' hp hs ha
    cases ha
    case inr ha => exact ha.right.right.right ▸ hs
    case inl ha =>
      have := hc s c hp hs
      rwa [ha] at this

theorem wp_call_under {c : B.Cmd} {k : Except ε (B.Ans c) → Prog B α} :
    wp (under B D) Q (call c k) s ↔
      wp (under B D) Q (k (B.exec c s).1) (B.exec c s).2 ∧
      (B.local? c = false → D c .failed → wp (under B D) Q (k (.error B.fault)) s) ∧
      (B.local? c = false → D c .ended → Q .ended s) := by
  rw [wp_call]
  constructor
  case mp =>
    intro ⟨_, ha, he⟩
    exact ⟨ha _ _ (.inl rfl), fun l d => ha _ _ (.inr ⟨l, d, rfl, rfl⟩), fun l d => he ⟨l, d⟩⟩
  case mpr =>
    intro ⟨hs, hf, he⟩
    refine ⟨trivial, ?_, fun ⟨l, d⟩ => he l d⟩
    rintro r s' (h | ⟨l, d, rfl, rfl⟩)
    case inl => simpa [h] using hs
    case inr => exact hf l d

theorem wp_perform_under {c : B.Cmd} {Q : Result ε (B.Ans c) → B.State → Prop} :
    wp (under B D) Q (perform c) s ↔
      ansPost Q (B.exec c s).1 (B.exec c s).2 ∧
      (B.local? c = false → D c .failed → Q (.error B.fault) s) ∧
      (B.local? c = false → D c .ended → Q .ended s) := by
  simp only [perform, wp_call_under, wp_ofExcept, ansPost]

-- A command that succeeds unless it is disturbed.
theorem wp_step {c : B.Cmd} {a : B.Ans c} {s' : B.State} {f : B.Ans c → Prog B α}
    (hx : B.exec c s = (.ok a, s')) (hf : wp (under B D) Q (f a) s')
    (hd : ∀ fate, B.local? c = false → D c fate → Q (.error B.fault) s ∧ Q .ended s) :
    wp (under B D) Q (perform c >>= f) s := by
  apply wp_call_under.mpr
  rw [hx]
  exact ⟨hf, fun hl h => (hd _ hl h).left, fun hl h => (hd _ hl h).right⟩

-- A command that fails ends a sequence.
theorem wp_step_error {c : B.Cmd} {e : ε} {s' : B.State} {f : B.Ans c → Prog B α}
    (hx : B.exec c s = (.error e, s')) (hq : Q (.error e) s')
    (hd : ∀ fate, B.local? c = false → D c fate → Q (.error B.fault) s ∧ Q .ended s) :
    wp (under B D) Q (perform c >>= f) s := by
  apply wp_call_under.mpr
  rw [hx]
  exact ⟨hq, fun hl h => (hd _ hl h).left, fun hl h => (hd _ hl h).right⟩

theorem wp_last {c : B.Cmd} {a : B.Ans c} {s' : B.State} {Q : Result ε (B.Ans c) → B.State → Prop}
    (hx : B.exec c s = (.ok a, s')) (hq : Q (.ok a) s')
    (hd : ∀ fate, B.local? c = false → D c fate → Q (.error B.fault) s ∧ Q .ended s) :
    wp (under B D) Q (perform c) s := by
  apply wp_perform_under.mpr
  rw [hx]
  exact ⟨hq, fun hl h => (hd _ hl h).left, fun hl h => (hd _ hl h).right⟩

-- The commands of a run that were not served are disturbances in `D`.
def Run.Within (D : Disturbance B) (r : Run B α) : Prop :=
  ∀ e ∈ r.log, e.2 ≠ .served → D e.1 e.2

-- The weakest precondition speaks about all runs whose disturbances are allowed.
theorem wp_run {p : Prog B α} {fs : List Fate} (h : wp (under B D) Q p s)
    (hd : Run.Within D (p.run fs s)) : Q (p.run fs s).result (p.run fs s).state := by
  induction p generalizing s fs
  case ret   => exact h
  case throw => exact h
  case call c k hi =>
    have hw : ∀ {r : Run B α} {e}, Run.Within D (r.after e) → Run.Within D r :=
      fun hr _ hm => hr _ <| List.mem_cons_of_mem _ hm
    have ⟨hs, hf, he⟩ := wp_call_under.mp h
    rw [run] at hd ⊢
    cases hl : B.local? c <;> simp only [hl, Bool.false_eq_true, if_true, if_false] at hd ⊢
    case true  => exact hi _ hs (hw hd)
    case false =>
      cases hn : fs.headD .served <;> simp only [hn] at hd ⊢
      case served => exact hi _ hs (hw hd)
      case failed => exact hi _ (hf hl <| hd (c, .failed) List.mem_cons_self (nomatch ·)) (hw hd)
      case ended  => exact he hl <| hd (c, .ended) List.mem_cons_self (nomatch ·)

theorem run_nil_within (p : Prog B α) : Run.Within D (p.run [] s) := by
  induction p generalizing s
  case ret   => exact fun _ hm => nomatch hm
  case throw => exact fun _ hm => nomatch hm
  case call c k hi =>
    intro e hm hs
    have hm : e ∈ (c, Fate.served) :: ((k (B.exec c s).1).run [] (B.exec c s).2).log := by
      cases hl : B.local? c <;> simpa [run, hl, Run.after] using hm
    cases List.mem_cons.mp hm
    case inl h => exact absurd (h ▸ rfl) hs
    case inr h => exact hi _ _ h hs

theorem wp_run_nil {p : Prog B α} (h : wp (under B .none) Q p s) :
    Q (p.run [] s).result (p.run [] s).state :=
  wp_run h (run_nil_within p)

-- An undisturbed program has one run.
theorem wp_none_iff {p : Prog B α} :
    wp (under B .none) Q p s ↔ Q (p.run [] s).result (p.run [] s).state := by
  constructor
  case mp  => exact wp_run_nil
  case mpr =>
    induction p generalizing s
    case ret   => exact id
    case throw => exact id
    case call c k hi =>
      intro h
      refine wp_call_under.mpr ⟨hi _ ?_, fun _ => False.elim, fun _ => False.elim⟩
      cases hl : B.local? c <;> simpa [run, hl, Run.after] using h

-- What happens to a program is up to its error handler unless it is ended.
theorem wp_handle_returns {I : B.State → Prop} {p : Prog B α} {f : ε → Prog B α}
    (h : wp (under B .none) (fun _ => I) p s)
    (hf : ∀ e s, I s → wp (under B .none) (returns I) (f e) s) :
    wp (under B .none) (returns I) (p.handle f) s := by
  induction p generalizing s
  case ret   => exact h
  case throw => exact hf _ _ h
  case call c k hi =>
    have hs := (wp_call_under.mp h).left
    exact wp_call_under.mpr ⟨hi _ hs, fun _ => False.elim, fun _ => False.elim⟩

-- Each element of a list meets a condition in the state in which its turn comes.
def Along (f : α → Prog B Unit) (C : B.State → α → Prop) : List α → B.State → Prop
  | [], _      => True
  | x :: xs, s => C s x ∧ Along f C xs ((f x).run [] s).state

instance {f : α → Prog B Unit} {C : B.State → α → Prop} {xs : List α}
    [∀ s x, Decidable (C s x)] : Decidable (Along f C xs s) :=
  decide xs s
where
  decide : (xs : List α) → (s : B.State) → Decidable (Along f C xs s)
    | [], _      => .isTrue trivial
    | x :: xs, s =>
      @instDecidableAnd _ _ inferInstance (decide xs ((f x).run [] s).state)

theorem wp_forEach_along {I : List α → B.State → Prop} {C : B.State → α → Prop}
    {f : α → Prog B Unit} {xs : List α}
    (h : ∀ x xs s, I (x :: xs) s → C s x → wp (under B .none) (returns (I xs)) (f x) s)
    (hs : I xs s) (ha : Along f C xs s) : wp (under B .none) (returns (I [])) (forEach f xs) s := by
  induction xs generalizing s
  case nil          => exact hs
  case cons x xs hi =>
    have hr := wp_none_iff.mp <| h x xs s hs ha.left
    apply wp_bind.mpr
    apply wp_none_iff.mpr
    cases hx : ((f x).run [] s).result <;> rw [hx] at hr
    case ok    => exact hi hr ha.right
    case error => exact hr.elim
    case ended => exact hr.elim

-- Every command that a program meets in a run is one that it can issue.
theorem Only.of_mem_log {P : B.Cmd → Prop} {p : Prog B α} {fs : List Fate} {e : B.Cmd × Fate}
    (h : Only P p) (he : e ∈ (p.run fs s).log) : P e.1 := by
  induction p generalizing s fs
  case ret   => nomatch he
  case throw => nomatch he
  case call c k hi =>
    have hm : ∀ {r s' fs' f}, e ∈ (((k r).run fs' s').after (c, f)).log → P e.1 := fun hm => by
      cases List.mem_cons.mp hm
      case inl he => exact he ▸ h.left
      case inr hm => exact hi _ (h.right _) hm
    rw [run] at he
    split at he
    case isTrue => exact hm he
    case isFalse =>
      split at he
      case h_1 => exact hm he
      case h_2 => exact hm he
      case h_3 => exact List.mem_singleton.mp he ▸ h.left

section

-- The environment of a program that has a backend for itself. The commands are written down with
-- their fates.
def logged (B : Backend ε) (D : Disturbance B) : Environment B (B.State × List (B.Cmd × Fate)) where
  allows _ _       := True
  answers m c r m' :=
    ((B.exec c m.1 = (r, m'.1)) ∧ m'.2 = m.2 ++ [(c, .served)]) ∨
    ((B.local? c = false ∧ D c .failed) ∧ r = .error B.fault ∧ m' = (m.1, m.2 ++ [(c, .failed)]))
  ends _ c         := B.local? c = false ∧ D c .ended

variable {Q : Result ε α → B.State × List (B.Cmd × Fate) → Prop} {log : List (B.Cmd × Fate)}

theorem wp_call_logged {c : B.Cmd} {k : Except ε (B.Ans c) → Prog B α} :
    wp (logged B D) Q (call c k) (s, log) ↔
      wp (logged B D) Q (k (B.exec c s).1) ((B.exec c s).2, log ++ [(c, .served)]) ∧
      (B.local? c = false → D c .failed →
        wp (logged B D) Q (k (.error B.fault)) (s, log ++ [(c, .failed)])) ∧
      (B.local? c = false → D c .ended → Q .ended (s, log)) := by
  rw [wp_call]
  constructor
  case mp =>
    intro ⟨_, ha, he⟩
    exact ⟨ha _ _ (.inl ⟨rfl, rfl⟩), fun l d => ha _ _ (.inr ⟨⟨l, d⟩, rfl, rfl⟩), fun l d => he ⟨l, d⟩⟩
  case mpr =>
    intro ⟨hs, hf, he⟩
    refine ⟨trivial, ?_, fun ⟨l, d⟩ => he l d⟩
    rintro r ⟨s', log'⟩ (⟨h, rfl⟩ | ⟨⟨l, d⟩, rfl, h⟩)
    case inl => simpa [show B.exec c s = (r, s') from h] using hs
    case inr => cases h; exact hf l d

-- A command that succeeds and cannot be disturbed.
theorem wp_step_logged {c : B.Cmd} {a : B.Ans c} {s' : B.State} {f : B.Ans c → Prog B α}
    (hx : B.exec c s = (.ok a, s')) (hf : wp (logged B D) Q (f a) (s', log ++ [(c, .served)]))
    (hd : ∀ fate, ¬D c fate) : wp (logged B D) Q (perform c >>= f) (s, log) := by
  apply wp_call_logged.mpr
  rw [hx]
  exact ⟨hf, fun _ h => absurd h (hd _), fun _ h => absurd h (hd _)⟩

theorem wp_last_logged {c : B.Cmd} {a : B.Ans c} {s' : B.State}
    {Q : Result ε (B.Ans c) → B.State × List (B.Cmd × Fate) → Prop}
    (hx : B.exec c s = (.ok a, s')) (hq : Q (.ok a) (s', log ++ [(c, .served)]))
    (hd : ∀ fate, ¬D c fate) : wp (logged B D) Q (perform c) (s, log) := by
  apply wp_call_logged.mpr
  rw [hx]
  exact ⟨hq, fun _ h => absurd h (hd _), fun _ h => absurd h (hd _)⟩

-- The weakest precondition speaks about the logs of all runs that are not ended.
theorem wp_run_logged {p : Prog B α} {fs : List Fate} (h : wp (logged B D) Q p (s, log))
    (hd : Run.Within D (p.run fs s)) (hn : ∀ c, ¬D c .ended) :
    Q (p.run fs s).result ((p.run fs s).state, log ++ (p.run fs s).log) := by
  induction p generalizing s fs log
  case ret   => simpa [run] using h
  case throw => simpa [run] using h
  case call c k hi =>
    have hw : ∀ {r : Run B α} {e}, Run.Within D (r.after e) → Run.Within D r :=
      fun hr _ hm => hr _ <| List.mem_cons_of_mem _ hm
    have hl : ∀ {r : Run B α} {e}, log ++ (r.after e).log = log ++ [e] ++ r.log := by simp [Run.after]
    have ⟨hs, hf, _⟩ := wp_call_logged.mp h
    rw [run] at hd ⊢
    cases hb : B.local? c <;> simp only [hb, Bool.false_eq_true, if_true, if_false] at hd ⊢
    case true  => rw [hl]; exact hi _ hs (hw hd)
    case false =>
      cases hn' : fs.headD .served <;> simp only [hn'] at hd ⊢
      case served => rw [hl]; exact hi _ hs (hw hd)
      case failed =>
        rw [hl]
        exact hi _ (hf hb <| hd (c, .failed) List.mem_cons_self (nomatch ·)) (hw hd)
      case ended  => exact absurd (hd (c, .ended) List.mem_cons_self (nomatch ·)) (hn c)

end

end Prog
end Effects
