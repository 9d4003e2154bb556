import Mastermind.Effects.Runs
import Mastermind.Files.Tree

open Effects Prog

namespace Files

inductive Err
  | notExist
  | other (text : String)
  deriving DecidableEq

namespace Err

def text : Err → String
  | notExist   => "file does not exist"
  | other text => text

-- An error that says what was being done.
def wrap (context : String) (e : Err) : Err :=
  other (context ++ ": " ++ e.text)

end Err

inductive Cmd
  | stat     (p : Path)
  | lstat    (p : Path)
  | readDir  (p : Path)
  | walk     (p : Path)
  | open     (p : Path)
  | read     (p : Path)
  | mkdirAll (p : Path)
  | create   (p : Path) (exclusive : Bool)
  | append   (p : Path) (byte : UInt8)
  | close    (p : Path)
  | remove   (p : Path)
  | rename   (p q : Path)
  | wait
  deriving DecidableEq

abbrev Cmd.Ans : Cmd → Type
  | .stat _    => Node
  | .lstat _   => Node
  | .readDir _ => List (String × Node)
  | .walk _    => List (Path × Node)
  | .read _    => Bytes
  | _          => Unit

namespace Node

-- What can be read from a node.
def data? : Node → Option Bytes
  | dir       => none
  | file data => some data
  | link data => data

def isLink : Node → Bool
  | link _ => true
  | _      => false

-- What a link leads to.
def target : Node → Node
  | link none        => dir
  | link (some data) => file data
  | node             => node

-- What is written through a link can be read through it.
def write (data : Bytes) : Node → Node
  | dir    => dir
  | file _ => file data
  | link _ => link data

end Node

-- Directories that are missing are made in one step, and data is written byte by byte.
def exec : (c : Cmd) → Fs → Except Err c.Ans × Fs
  | .stat p, s =>
    match s.get p with
    | none      => (.error .notExist, s)
    | some node => (.ok node.target, s)
  | .lstat p, s =>
    match s.get p with
    | none      => (.error .notExist, s)
    | some node => (.ok node, s)
  | .readDir p, s =>
    match s.get p with
    | none      => (.error .notExist, s)
    | some .dir => (.ok ((s.children p).filterMap fun x => (s.get (p ++ [x])).map (x, ·)), s)
    | some _    => (.error (.other "not a directory"), s)
  | .walk p, s => (.ok (s.walk p), s)
  | .open p, s =>
    match s.get p with
    | none   => (.error .notExist, s)
    | some _ => (.ok (), s)
  | .read p, s =>
    match (s.get p).bind Node.data? with
    | none      => (.error (.other "cannot be read"), s)
    | some data => (.ok data, s)
  | .mkdirAll p, s =>
    if s.Passable p then (.ok (), s.makeAll p) else (.error (.other "not a directory"), s)
  | .create p exclusive, s =>
    if h : s.HasRoom p ∧ s.Bare p then
      match s.get p with
      | none      => (.ok (), s.put p (.file []) h.left (.inr h.right))
      | some node =>
        if exclusive ∨ node = .dir then (.error (.other "exists"), s)
        else (.ok (), s.put p (node.write []) h.left (.inr h.right))
    else (.error .notExist, s)
  | .append p byte, s =>
    if h : s.HasRoom p ∧ s.Bare p then
      match s.get p with
      | none      => (.error .notExist, s)
      | some node =>
        match node.data? with
        | none      => (.error (.other "cannot be written"), s)
        | some data => (.ok (), s.put p (node.write (data ++ [byte])) h.left (.inr h.right))
    else (.error .notExist, s)
  | .close _, s  => (.ok (), s)
  | .remove p, s =>
    match s.get p with
    | none   => (.error .notExist, s)
    | some _ =>
      if h : p ≠ [] ∧ s.Bare p then (.ok (), s.erase p h.left h.right)
      else (.error (.other "not empty"), s)
  | .rename p q, s =>
    match s.get p with
    | none      => (.error .notExist, s)
    | some node =>
      if h : Apart p q ∧ s.HasRoom q then
        if s.Bare q ∧ (s.get q).all (fun n => n = .dir ↔ node = .dir) then
          (.ok (), s.move p q h.left h.right)
        else (.error (.other "exists"), s)
      else (.error .notExist, s)
  | .wait, s     => (.ok (), s)

-- The file system with the root alone.
def Fs.empty : Fs where
  get p  := if p = [] then some .dir else none
  paths  := [[]]
  listed := by simp
  rooted := rfl
  closed := by simp

def Fs.after (cs : List Cmd) : Fs :=
  cs.foldl (fun s c => (exec c s).2) .empty

@[reducible]
def disk : Backend Err where
  State    := Fs
  Cmd      := Cmd
  Ans      := Cmd.Ans
  exec     := exec
  fault    := .other "input/output error"
  local? _ := false

abbrev Disk :=
  Prog disk

abbrev send (c : Cmd) : Disk c.Ans :=
  perform (B := disk) c

-- A command whose error is an answer as well.
def ask (c : Cmd) : Disk (Except Err c.Ans) :=
  .call c .ret

def inContext {α : Type} (context : String) (prog : Disk α) : Disk α :=
  prog.handle fun e => .throw (e.wrap context)

def ignoreErrors (prog : Disk Unit) : Disk Unit :=
  prog.handle fun _ => return

-- Removes some of the nodes below a path, and goes on after an error.
def removeEach (p : Path) : List Path → Disk Unit
  | []      => return
  | r :: rs => do
    let answer ← ask (.remove (p ++ r))
    removeEach p rs
    .ofExcept answer

-- `os.RemoveAll`, which comes to what lies in a directory before it comes to the directory.
def removeAll (p : Path) : Disk Unit := do
  let nodes ← send (.walk p)
  removeEach p (nodes.map Prod.fst).reverse

def writeAll (p : Path) (data : Bytes) : Disk Unit :=
  forEach (fun byte => send (.append p byte)) data

-- The paths whose nodes a command may change.
def Cmd.Writes : Cmd → Path → Prop
  | .mkdirAll p, q  => q <+: p
  | .create p _, q  => q = p
  | .append p _, q  => q = p
  | .remove p, q    => q = p
  | .rename p p', q => p <+: q ∨ p' <+: q
  | _, _            => False

variable {s s' : Fs} {p q : Path} {c : Cmd}

theorem exec_get (h : ¬c.Writes q) : (exec c s).2.get q = s.get q := by
  cases c <;> simp only [Cmd.Writes, not_or] at h <;> rw [exec]
  case stat => split <;> rfl
  case lstat => split <;> rfl
  case readDir => split <;> rfl
  case «open» => split <;> rfl
  case read => split <;> rfl
  case mkdirAll =>
    split
    case isTrue  => exact if_neg h
    case isFalse => rfl
  case create =>
    split
    case isFalse => rfl
    case isTrue  =>
      split
      case h_1 => exact if_neg h
      case h_2 =>
        split
        case isTrue  => rfl
        case isFalse => exact if_neg h
  case append =>
    split
    case isFalse => rfl
    case isTrue  =>
      split
      case h_1 => rfl
      case h_2 =>
        split
        case h_1 => rfl
        case h_2 => exact if_neg h
  case remove =>
    split
    case h_1 => rfl
    case h_2 =>
      split
      case isTrue  => exact if_neg h
      case isFalse => rfl
  case rename =>
    split
    case h_1 => rfl
    case h_2 =>
      split
      case isFalse => rfl
      case isTrue  =>
        split
        case isTrue  => exact (if_neg h.right).trans (if_neg h.left)
        case isFalse => rfl

section

variable {α : Type} {Q : Result Err α → Fs → Prop} {f : Except Err c.Ans → Disk α}

-- A program goes on with the answer of a command.
theorem wp_ask_under {D : Disturbance disk} : (ask c >>= f).wp (under disk D) Q s ↔
    (f (exec c s).1).wp (under disk D) Q (exec c s).2 ∧
    (D c .failed → (f (.error disk.fault)).wp (under disk D) Q s) ∧ (D c .ended → Q .ended s) := by
  have h := wp_call_under (B := disk) (D := D) (Q := Q) (s := s) (c := c) (k := f)
  exact h.trans (by simp)

theorem wp_ask : (ask c >>= f).wp (under disk .none) Q s ↔
    (f (exec c s).1).wp (under disk .none) Q (exec c s).2 :=
  wp_ask_under.trans ⟨And.left, fun h => ⟨h, False.elim, False.elim⟩⟩

end

-- A program that does not change the nodes of some paths.
structure Leaves {α : Type} (Q : Path → Prop) (prog : Disk α) : Prop where
  only : Only (fun c : Cmd => ∀ q, Q q → ¬c.Writes q) prog

namespace Leaves

variable {α β : Type} {prog : Disk α} {Q : Path → Prop}

-- The nodes are still there wherever the program stops.
theorem wp {D : Disturbance disk} (h : Leaves Q prog) :
    prog.wp (under disk D) (fun _ (s' : Fs) => ∀ q, Q q → s'.get q = s.get q) s := by
  apply h.only.wp_under
  case hs => exact fun _ _ => rfl
  case hc => exact fun s' c hc hq q h => (exec_get (hc q h)).trans (hq q h)

theorem run (h : Leaves Q prog) (fs : List Fate) (hq : Q q) :
    (prog.run fs s).state.get q = s.get q :=
  wp_run (h.wp (D := .any)) (fun _ _ _ => trivial) q hq

theorem pure {a : α} : Leaves Q (pure a) :=
  ⟨.pure⟩

theorem throw {e : Err} : Leaves Q (throw e : Disk α) :=
  ⟨.throw⟩

theorem ofExcept {r : Except Err α} : Leaves Q (ofExcept r) :=
  ⟨.ofExcept⟩

theorem send (h : ∀ q, Q q → ¬c.Writes q) : Leaves Q (send c) :=
  ⟨.perform h⟩

theorem ask (h : ∀ q, Q q → ¬c.Writes q) : Leaves Q (ask c) :=
  ⟨h, fun _ => trivial⟩

theorem bind {f : α → Disk β} (h : Leaves Q prog) (hf : ∀ a, Leaves Q (f a)) :
    Leaves Q (prog >>= f) :=
  ⟨h.only.bind fun a => (hf a).only⟩

theorem forEach {f : α → Disk Unit} {xs : List α} (h : ∀ x, Leaves Q (f x)) :
    Leaves Q (forEach f xs) :=
  ⟨.forEach fun x => (h x).only⟩

theorem handle {f : Err → Disk α} (h : Leaves Q prog) (hf : ∀ e, Leaves Q (f e)) :
    Leaves Q (prog.handle f) :=
  ⟨h.only.handle fun e => (hf e).only⟩

theorem inContext {context : String} (h : Leaves Q prog) : Leaves Q (inContext context prog) :=
  h.handle fun _ => .throw

theorem ignoreErrors {prog : Disk Unit} (h : Leaves Q prog) : Leaves Q (ignoreErrors prog) :=
  h.handle fun _ => .pure

theorem removeEach {rs : List Path} (h : ∀ q, Q q → ¬p <+: q) : Leaves Q (removeEach p rs) := by
  induction rs
  case nil          => exact .pure
  case cons r rs hi =>
    have hr : ∀ q, Q q → ¬(Cmd.remove (p ++ r)).Writes q :=
      fun q hq he => h q hq (he ▸ List.prefix_append _ _)
    exact (Leaves.ask hr).bind fun _ => hi.bind fun _ => .ofExcept

theorem removeAll (h : ∀ q, Q q → ¬p <+: q) : Leaves Q (removeAll p) :=
  (Leaves.send fun _ _ => id).bind fun _ => removeEach h

theorem writeAll {data : Bytes} (h : ∀ q, Q q → q ≠ p) : Leaves Q (writeAll p data) :=
  .forEach fun _ => .send h

end Leaves

section

variable {r : Path} {rs : List Path}

-- The nodes that are left come before the one that is removed.
theorem wp_removeEach (hp : p ≠ []) (hs : rs.Pairwise (· > ·))
    (hm : ∀ r, (s.get (p ++ r)).isSome ↔ r ∈ rs) :
    (removeEach p rs).wp (under disk .none)
      (returns fun s' : Fs => ∀ r, s'.get (p ++ r) = none) s := by
  induction rs generalizing s
  case nil => exact fun r => by simpa using hm r
  case cons r rs hi =>
    have ⟨hr, hs⟩ := List.pairwise_cons.mp hs
    have hb : s.Bare (p ++ r) := by
      rintro q _ ⟨t, rfl⟩ hq
      by_contra hn
      have hl : r < r ++ t := by
        apply lt_of_le_of_ne (le_of_isPrefix (List.prefix_append _ _))
        rintro he
        exact hq (by rw [List.append_assoc, ← he])
      have hm := (hm (r ++ t)).mp (by simpa [← List.append_assoc] using Option.isSome_iff_ne_none.mpr hn)
      cases List.mem_cons.mp hm
      case inl he => exact absurd he.le (not_le_of_gt hl)
      case inr hm => exact absurd (hr _ hm) (not_lt_of_gt hl)
    have hn : p ++ r ≠ [] := by simp [hp]
    have ⟨node, hg⟩ := Option.isSome_iff_exists.mp <| (hm r).mpr List.mem_cons_self
    have hx : exec (.remove (p ++ r)) s = (.ok (), s.erase (p ++ r) hn hb) := by
      simp only [exec, hg]
      exact dif_pos ⟨hn, hb⟩
    have hi := hi (s := s.erase (p ++ r) hn hb) hs fun r' => by
      simp only [Fs.erase, List.append_cancel_left_eq]
      split
      case isTrue he  => subst he; simpa using fun hm => absurd (hr _ hm) (lt_irrefl _)
      case isFalse he => simpa [he] using hm r'
    rw [removeEach]
    apply wp_ask.mpr
    rw [hx]
    exact wp_bind_returns hi fun _ _ h => h

-- Everything at and below a path is removed if nothing disturbs it.
theorem wp_removeAll (hp : p ≠ []) :
    (removeAll p).wp (under disk .none)
      (returns fun s' : Fs => ∀ q, s'.get q = if p <+: q then none else s.get q) s := by
  have hw : (removeAll p).wp (under disk .none)
      (returns fun s' : Fs => ∀ r, s'.get (p ++ r) = none) s := by
    refine wp_step (rfl : exec (.walk p) s = (.ok (s.walk p), s)) ?_ fun _ _ => False.elim
    rw [Fs.map_walk]
    apply wp_removeEach hp
    case hs =>
      rw [List.pairwise_reverse]
      exact (Fs.sorted_below.and Fs.nodup_below).imp fun h => lt_of_le_of_ne h.left h.right
    case hm => exact fun r => by rw [List.mem_reverse, Fs.mem_below]
  have hr := wp_none_iff.mp hw
  apply wp_none_iff.mpr
  apply hr.imp
  intro hg q
  split
  case isTrue h =>
    obtain ⟨r, hr⟩ := h
    exact hr ▸ hg r
  case isFalse h =>
    have hl : Leaves (· = q) (removeAll p) := .removeAll fun _ he => he ▸ h
    exact hl.run [] rfl

end

-- What a renaming does to the tree that it moves.
theorem exec_rename (p q : Path) (s : Fs) :
    (∃ e, exec (.rename p q) s = (.error e, s)) ∨
    ∃ s', (exec (.rename p q) s = (.ok (), s')) ∧ s'.tree q = s.tree p ∧
      ∀ r, p <+: r → s'.get r = none := by
  simp only [exec]
  split
  case h_1 => exact .inl ⟨_, rfl⟩
  case h_2 =>
    split
    case isFalse  => exact .inl ⟨_, rfl⟩
    case isTrue h =>
      split
      case isFalse => exact .inl ⟨_, rfl⟩
      case isTrue  =>
        refine .inr ⟨_, rfl, ?_, ?_⟩
        · funext r
          exact (if_pos (List.prefix_append _ _)).trans (by rw [List.drop_left]; rfl)
        · intro r hr
          have hq : ¬q <+: r := by
            intro hq
            cases List.prefix_or_prefix_of_prefix hr hq
            case inl hp => exact h.left.left hp
            case inr hq => exact h.left.right hq
          exact (if_neg hq).trans (if_pos hr)

section

variable {data d : Bytes} {D : Disturbance disk}

theorem Fs.Bare.of_file (h : s.get p = some (.file data)) : s.Bare p := by
  intro q _ hq hn
  by_contra hg
  have hd := Fs.get_of_isPrefix hq hn.symm (Option.isSome_iff_ne_none.mpr hg)
  rw [h] at hd
  nomatch hd

theorem Fs.Bare.of_none (h : s.get p = none) : s.Bare p := by
  intro q _ hq hn
  by_contra hg
  have hd := Fs.get_of_isPrefix hq hn.symm (Option.isSome_iff_ne_none.mpr hg)
  rw [h] at hd
  nomatch hd

theorem Fs.HasRoom.of_file (h : s.get p = some (.file data)) : s.HasRoom p := by
  have hn : p ≠ [] := by
    rintro rfl
    rw [s.rooted] at h
    nomatch h
  refine ⟨hn, ?_⟩
  rw [← List.dropLast_append_getLast hn] at h
  exact s.closed (by rw [h]; rfl)

-- The data is in the file once all of it has been written.
theorem wp_writeAll (h : s.get p = some (.file d)) :
    (writeAll p data).wp (under disk D)
      (unlessDisturbed D fun s' : Fs => ∀ q, s'.get q =
        if q = p then some (.file (d ++ data)) else s.get q) s := by
  induction data generalizing s d
  case nil =>
    intro q
    split
    case isTrue hq  => rw [hq, h, List.append_nil]
    case isFalse hq => rfl
  case cons byte data hi =>
    have hx : exec (.append p byte) s =
        (.ok (), s.put p (.file (d ++ [byte])) (.of_file h) (.inr (.of_file h))) := by
      simp only [exec, h, Node.data?, Node.write]
      exact dif_pos ⟨.of_file h, .of_file h⟩
    apply wp_unless_step hx
    apply wp_mono (hi (d := d ++ [byte]) (if_pos rfl))
    intro r s' hr
    cases r
    case error => exact hr
    case ended => exact hr
    case ok    =>
      intro q
      rw [hr q]
      split
      case isTrue       => rw [List.append_assoc, List.singleton_append]
      case isFalse hq => exact if_neg hq

end

end Files
