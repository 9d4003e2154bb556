import Mastermind.Effects.Prog

namespace Effects

-- The commands of a backend as commands of a larger one, with the answers read back.
structure Embedding {ε : Type} (B B' : Backend ε) where
  cmd : B.Cmd → B'.Cmd
  ans : (c : B.Cmd) → B'.Ans (cmd c) → B.Ans c

namespace Prog

variable {ε : Type} {B B' : Backend ε} {α : Type}

-- A program that runs against the larger backend.
def lift (e : Embedding B B') : Prog B α → Prog B' α
  | ret a    => ret a
  | throw x  => throw x
  | call c k => call (e.cmd c) fun r => (k (r.map (e.ans c))).lift e

theorem Only.lift {e : Embedding B B'} {P : B'.Cmd → Prop} {p : Prog B α}
    (h : p.Only fun c => P (e.cmd c)) : (p.lift e).Only P := by
  induction p
  case ret     => trivial
  case throw   => trivial
  case call hi => exact ⟨h.left, fun r => hi _ (h.right _)⟩

end Prog

-- The commands of a backend as commands of another one that may have other errors, with the answers
-- and the errors read back.
structure Translation {ε ε' : Type} (B : Backend ε) (B' : Backend ε') where
  cmd    : B.Cmd → B'.Cmd
  ans    : (c : B.Cmd) → B'.Ans (cmd c) → B.Ans c
  raise  : ε → ε'
  caught : ε' → ε

namespace Translation

variable {ε ε' α : Type} {B : Backend ε} {B' : Backend ε'}

def read (t : Translation B B') (c : B.Cmd) : Except ε' (B'.Ans (t.cmd c)) → Except ε (B.Ans c)
  | .ok a    => .ok (t.ans c a)
  | .error x => .error (t.caught x)

def result (t : Translation B B') : Result ε α → Result ε' α
  | .ok a    => .ok a
  | .error x => .error (t.raise x)
  | .ended   => .ended

end Translation

namespace Prog

variable {ε ε' σ α : Type} {B : Backend ε} {B' : Backend ε'} {t : Translation B B'}

def translate (t : Translation B B') : Prog B α → Prog B' α
  | ret a    => ret a
  | throw x  => throw (t.raise x)
  | call c k => call (t.cmd c) fun r => (k (t.read c r)).translate t

-- A translated program meets nothing but what the program itself may meet.
theorem wp_translate {E : Environment B σ} {E' : Environment B' σ} {Q : Result ε' α → σ → Prop}
    {p : Prog B α} {s : σ} (ha : ∀ s c, E.allows s c → E'.allows s (t.cmd c))
    (hr : ∀ s c r s', E'.answers s (t.cmd c) r s' → E.answers s c (t.read c r) s')
    (he : ∀ s c, E'.ends s (t.cmd c) → E.ends s c)
    (h : wp E (fun r => Q (t.result r)) p s) : wp E' Q (p.translate t) s := by
  induction p generalizing s
  case ret   => exact h
  case throw => exact h
  case call c k hi =>
    exact ⟨ha _ _ h.1, fun r s' hs => hi _ (h.2.1 _ s' (hr _ _ _ _ hs)), fun hs => h.2.2 (he _ _ hs)⟩

theorem Only.translate {P : B.Cmd → Prop} {P' : B'.Cmd → Prop} {p : Prog B α}
    (hp : ∀ c, P c → P' (t.cmd c)) (h : p.Only P) : (p.translate t).Only P' := by
  induction p
  case ret     => trivial
  case throw   => trivial
  case call hi => exact ⟨hp _ h.left, fun r => hi _ (h.right _)⟩

end Prog
end Effects
