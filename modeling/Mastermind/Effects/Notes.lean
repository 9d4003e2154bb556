import Mastermind.Effects.Embedding

namespace Effects

-- A backend for programs that also take notes. The notes are kept beside the state of the backend.
@[reducible]
def Backend.noted {ε : Type} (B : Backend ε) (ν : Type) : Backend ε where
  State := B.State × List ν
  Cmd   := B.Cmd ⊕ ν
  Ans   := Sum.elim B.Ans fun _ => Unit
  exec
    | .inl c, p => ((B.exec c p.1).1, (B.exec c p.1).2, p.2)
    | .inr n, p => (.ok (), p.1, p.2 ++ [n])
  fault  := B.fault
  local? := Sum.elim B.local? fun _ => true

namespace Prog

variable {ε : Type} {B : Backend ε} {ν α β : Type}

def noting (ν : Type) : Embedding B (B.noted ν) where
  cmd     := .inl
  ans _ a := a

-- A program that takes no notes.
def silently (p : Prog B α) : Prog (B.noted ν) α :=
  p.lift (noting ν)

def note (n : ν) : Prog (B.noted ν) Unit :=
  perform (B := B.noted ν) (.inr n)

-- Runs a program for each element of a list, with a note of the element.
def forEachNoted (n : α → ν) (f : α → Prog B Unit) : List α → Prog (B.noted ν) Unit :=
  forEach fun x => do
    note (n x)
    silently (f x)

-- The program without its notes.
def erase : Prog (B.noted ν) α → Prog B α
  | ret a           => ret a
  | throw e         => throw e
  | call (.inl c) k => call c fun r => (k r).erase
  | call (.inr _) k => (k (.ok ())).erase

@[simp]
theorem erase_pure {a : α} : (pure a : Prog (B.noted ν) α).erase = pure a :=
  rfl

@[simp]
theorem erase_note {n : ν} : (note n : Prog (B.noted ν) Unit).erase = pure () :=
  rfl

@[simp]
theorem erase_silently {p : Prog B α} : (silently p : Prog (B.noted ν) α).erase = p := by
  induction p
  case ret   => rfl
  case throw => rfl
  case call c k hi =>
    have hr : ∀ r : Except ε (B.Ans c), r.map ((noting ν).ans c) = r := by
      intro r
      cases r <;> rfl
    change call c (fun r => ((k (r.map ((noting ν).ans c))).lift (noting ν)).erase) = call c k
    congr 1
    funext r
    rw [hr]
    exact hi r

@[simp]
theorem erase_bind {p : Prog (B.noted ν) α} {f : α → Prog (B.noted ν) β} :
    (p >>= f).erase = p.erase >>= fun a => (f a).erase := by
  change (p.bind f).erase = p.erase.bind fun a => (f a).erase
  induction p
  case ret   => rfl
  case throw => rfl
  case call c k hi =>
    cases c
    case inl c => exact congrArg (call c) (funext hi)
    case inr n => exact hi (.ok ())

@[simp]
theorem erase_handle {p : Prog (B.noted ν) α} {f : ε → Prog (B.noted ν) α} :
    (p.handle f).erase = p.erase.handle fun e => (f e).erase := by
  induction p
  case ret   => rfl
  case throw => rfl
  case call c k hi =>
    cases c
    case inl c => exact congrArg (call c) (funext hi)
    case inr n => exact hi (.ok ())

@[simp]
theorem erase_forEach {f : α → Prog (B.noted ν) Unit} {xs : List α} :
    (forEach f xs).erase = forEach (fun x => (f x).erase) xs := by
  induction xs
  case nil     => rfl
  case cons hi =>
    rw [forEach, forEach, ← hi]
    exact erase_bind

theorem run_call_nil {c : B.Cmd} {k : Except ε (B.Ans c) → Prog B α} {s : B.State} :
    (call c k).run [] s = ((k (B.exec c s).1).run [] (B.exec c s).2).after (c, .served) := by
  rw [run]
  split <;> rfl

@[simp]
theorem erase_forEachNoted {n : α → ν} {f : α → Prog B Unit} {xs : List α} :
    (forEachNoted n f xs).erase = forEach f xs := by
  rw [forEachNoted, erase_forEach]
  congr 1
  funext x
  rw [erase_bind, erase_silently]
  rfl

-- The notes neither change what a program does nor what it issues.
theorem run_erase {p : Prog (B.noted ν) α} {s : B.State} {l : List ν} :
    (p.erase.run [] s).state = (p.run [] (s, l)).state.1 ∧
    (p.erase.run [] s).log.map Prod.fst =
      ((p.run [] (s, l)).log.map Prod.fst).filterMap Sum.getLeft? := by
  induction p generalizing s l
  case ret   => exact ⟨rfl, rfl⟩
  case throw => exact ⟨rfl, rfl⟩
  case call c k hi =>
    cases c
    case inr n =>
      have h := hi (.ok ()) (s := s) (l := l ++ [n])
      exact ⟨h.left, h.right⟩
    case inl c =>
      have h := hi (B.exec c s).1 (s := (B.exec c s).2) (l := l)
      rw [erase, run_call_nil, run_call_nil]
      exact ⟨h.left, congrArg (c :: ·) h.right⟩

section

variable {P : B.Cmd → Prop} {p : Prog B α} {s : B.State}

-- The environment of an undisturbed program, all of whose commands have a given property.
def obeying (B : Backend ε) (P : B.Cmd → Prop) : Environment B B.State where
  allows _ _       := True
  answers s c r s' := P c ∧ B.exec c s = (r, s')
  ends _ _         := False

theorem wp_call_obeying {Q : Result ε α → B.State → Prop} {c : B.Cmd}
    {k : Except ε (B.Ans c) → Prog B α} :
    wp (obeying B P) Q (call c k) s ↔
      (P c → wp (obeying B P) Q (k (B.exec c s).1) (B.exec c s).2) := by
  rw [wp_call]
  constructor
  case mp  => exact fun h hc => h.2.1 _ _ ⟨hc, rfl⟩
  case mpr =>
    refine fun h => ⟨trivial, ?_, False.elim⟩
    rintro _ _ ⟨hc, he⟩
    have hr := h hc
    rwa [he] at hr

theorem wp_perform_obeying {c : B.Cmd} {Q : Result ε (B.Ans c) → B.State → Prop} :
    wp (obeying B P) Q (perform c) s ↔ (P c → ansPost Q (B.exec c s).1 (B.exec c s).2) := by
  simp only [perform, wp_call_obeying, wp_ofExcept]

-- The weakest precondition speaks about the run of the program if its commands obey.
theorem wp_run_obeying {Q : Result ε α → B.State → Prop} (h : wp (obeying B P) Q p s)
    (hp : ∀ c ∈ (p.run [] s).log.map Prod.fst, P c) :
    Q (p.run [] s).result (p.run [] s).state := by
  induction p generalizing s
  case ret   => exact h
  case throw => exact h
  case call c k hi =>
    have h := wp_call_obeying.mp h
    rw [run_call_nil] at hp ⊢
    have hp := List.forall_mem_cons.mp hp
    exact hi _ (h hp.left) hp.right

theorem wp_obeying_of_none {Q : Result ε α → B.State → Prop} (h : wp (under B .none) Q p s) :
    wp (obeying B P) Q p s := by
  induction p generalizing s
  case ret     => exact h
  case throw   => exact h
  case call hi => exact wp_call_obeying.mpr fun _ => hi _ (wp_call_under.mp h).left

-- What no command of a program destroys that obeys.
theorem Only.wp_obeying {P' : B.Cmd → Prop} {I : B.State → Prop} (h : Only P' p)
    (hc : ∀ s c, P' c → P c → I s → I (B.exec c s).2) (hs : I s) :
    Prog.wp (obeying B P) (fun _ => I) p s := by
  apply h.wp
  case ha => exact fun _ _ _ _ => trivial
  case hs => exact hs
  case hc =>
    rintro s c r s' h' hs ⟨hp, he⟩
    have hn := hc s c h' hp hs
    rwa [he] at hn

-- A program that takes no notes leaves those that there are.
theorem wp_silently {l : List ν} {Q : Result ε α → B.State × List ν → Prop}
    (h : wp (obeying B P) (fun r s' => Q r (s', l)) p s) :
    wp (obeying (B.noted ν) (Sum.elim P fun _ => True)) Q (silently p) (s, l) := by
  induction p generalizing s
  case ret   => exact h
  case throw => exact h
  case call c k hi =>
    refine wp_call_obeying.mpr fun hc => ?_
    have hr : (B.exec c s).1.map ((noting ν).ans c) = (B.exec c s).1 := by
      cases (B.exec c s).1 <;> rfl
    have hk := hi _ (wp_call_obeying.mp h hc)
    rw [← hr] at hk
    exact hk

theorem wp_silently_bind {l : List ν} {f : α → Prog (B.noted ν) β}
    {Q : Result ε β → B.State × List ν → Prop}
    (h : wp (obeying B P)
      (fun r s' => seqPost (obeying (B.noted ν) (Sum.elim P fun _ => True)) Q f r (s', l)) p s) :
    wp (obeying (B.noted ν) (Sum.elim P fun _ => True)) Q (silently p >>= f) (s, l) :=
  wp_bind.mpr (wp_silently h)

theorem wp_silently_step {c : B.Cmd} {a : B.Ans c} {s' : B.State} {l : List ν}
    {f : B.Ans c → Prog (B.noted ν) β} {Q : Result ε β → B.State × List ν → Prop}
    (hx : B.exec c s = (.ok a, s'))
    (hf : wp (obeying (B.noted ν) (Sum.elim P fun _ => True)) Q (f a) (s', l)) :
    wp (obeying (B.noted ν) (Sum.elim P fun _ => True)) Q (silently (perform c) >>= f) (s, l) := by
  refine wp_silently_bind (wp_perform_obeying.mpr fun _ => ?_)
  rw [hx]
  exact hf

theorem wp_note_bind {n : ν} {l : List ν} {f : Unit → Prog (B.noted ν) β}
    {Q : Result ε β → B.State × List ν → Prop}
    (h : wp (obeying (B.noted ν) (Sum.elim P fun _ => True)) Q (f ()) (s, l ++ [n])) :
    wp (obeying (B.noted ν) (Sum.elim P fun _ => True)) Q (note n >>= f) (s, l) :=
  wp_call_obeying.mpr fun _ => h

-- All elements are noted if none of the programs fails.
theorem wp_forEachNoted {n : α → ν} {f : α → Prog B Unit} {xs : List α} {l : List ν}
    (h : ∀ x s, wp (under B .none) (returns fun _ => True) (f x) s) :
    wp (obeying (B.noted ν) (Sum.elim P fun _ => True)) (returns fun p => p.2 = l ++ xs.map n)
      (forEachNoted n f xs) (s, l) := by
  let I (xs' : List α) (p : B.State × List ν) : Prop := p.2 ++ xs'.map n = l ++ xs.map n
  refine wp_returns_mono (wp_forEach (I := I) ?_ rfl) fun p hp => (List.append_nil _).symm.trans hp
  intro x xs' ⟨s', l'⟩ hp
  have hl : (l' ++ [n x]) ++ xs'.map n = l ++ xs.map n := by
    rw [List.append_assoc]
    exact hp
  refine wp_note_bind (wp_silently (wp_obeying_of_none (wp_mono (h x s') fun r _ hr => ?_)))
  cases r
  case ok    => exact hl
  case error => exact hr
  case ended => exact hr

end

end Prog
end Effects
