import Mastermind.Effects.System
import Mastermind.Effects.Table
import Mastermind.Logs.Service
import Mastermind.Text.Utf8

open Effects Utf8

namespace Agent.LogTail

def maxChunkSize : Nat := 64 * 1024
def initialTail  : Nat := 64 * 1024

-- In milliseconds.
def batchLatency : ℤ := 350

abbrev FileId := Nat

-- The files that a path has named, and the one that it names now.
structure Files where
  contents : Table Bytes
  path     : Option FileId

def Files.content (f : Files) (id : FileId) : Bytes :=
  (f.contents[id]?).getD []

-- The position in the open file is `readOffset`. Times are in milliseconds.
structure Tailer where
  file         : Option FileId := none
  initialized  : Bool          := false
  readOffset   : Nat           := 0
  ackedOffset  : Nat           := 0
  pending      : Bytes         := []
  pendingSince : ℤ             := 0
  resetPending : Bool          := false
  replaced     : Bool          := false
  missing      : Bool          := false

namespace Tailer

-- The tailer after `open`, `none` if there is no file.
def open? (t : Tailer) (f : Files) : Option Tailer :=
  f.path.map fun id =>
    let size := (f.content id).length
    let start := if !t.initialized && initialTail < size then size - initialTail else 0
    { t with
      file := some id, initialized := true, readOffset := start, ackedOffset := start
      replaced := false, missing := false, resetPending := false }

def observePath (t : Tailer) (f : Files) (id : FileId) : Tailer :=
  let t := if (f.content id).length < t.readOffset then { t with resetPending := true } else t
  match f.path with
  | none      => { t with missing := true }
  | some path => { t with missing := false, replaced := id ≠ path }

def reset (t : Tailer) : Tailer :=
  { t with readOffset := 0, ackedOffset := 0, resetPending := false }

-- Reads into the free part of the buffer. A read gets at least one of the bytes that there are, and
-- at most `n` of them.
def read (t : Tailer) (f : Files) (id : FileId) (now : ℤ) (n : Nat) : Tailer :=
  if t.pending.length < maxChunkSize ∧ t.resetPending = false then
    let rest := (f.content id).drop t.readOffset
    let bytes := rest.take (min (max n 1) (maxChunkSize - t.pending.length))
    if bytes ≠ [] then
      { t with
        pendingSince := if t.pending = [] then now else t.pendingSince
        pending      := t.pending ++ bytes
        readOffset   := t.readOffset + bytes.length }
    else if (t.replaced ∨ t.missing) ∧ t.pending ≠ [] then
      -- Finish the old file promptly before following a replacement.
      { t with pendingSince := now - batchLatency }
    else t
  else t

def batchDue (t : Tailer) (now : ℤ) : Bool :=
  t.pending ≠ [] && !(now < t.pendingSince + batchLatency)

def flushDue (t : Tailer) (now : ℤ) : Bool :=
  t.pending.length = maxChunkSize || t.batchDue now

-- The tailer after an upload that has succeeded.
def flushed (t : Tailer) : Tailer :=
  { t with ackedOffset := t.ackedOffset + t.pending.length, pending := [], pendingSince := 0 }

def switchToReplacement (t : Tailer) (path : FileId) : Tailer :=
  { t with
    file := some path, readOffset := 0, ackedOffset := 0
    replaced := false, missing := false, resetPending := false }

end Tailer

-- The tailer with its surroundings: the files, the chunks that it has delivered and the contents of
-- the rows that the control plane has stored for them.
structure Tail where
  files     : Files
  tailer    : Tailer       := {}
  delivered : List Bytes   := []
  stored    : List String  := []

namespace Tail

-- The text of a chunk. `json.Marshal` writes bytes that are not part of a character as U+FFFD.
def textOf (chunk : Bytes) : String :=
  .ofList (decode chunk)

-- The upload of a chunk, `none` if it fails. An upload reaches the control plane if `up`.
def streamLogBytes (s : Tail) (chunk : Bytes) (up : Bool) : Option Tail :=
  if up then
    match Logs.append (textOf chunk) s.stored with
    | .ok stored => some { s with delivered := s.delivered ++ [chunk], stored }
    | .error _   => none
  else none

-- The first part of `step`, up to the read.
def fill (s : Tail) (t : Tailer) (id : FileId) (now : ℤ) (n : Nat) : Tailer :=
  let t := t.observePath s.files id
  let t := if t.resetPending ∧ t.pending = [] then t.reset else t
  t.read s.files id now n

-- The tailer of a step when it comes to the question whether to flush.
def filled? (s : Tail) (now : ℤ) (n : Nat) : Option Tailer :=
  match s.tailer.file with
  | some id => some (s.fill s.tailer id now n)
  | none    => (s.tailer.open? s.files).bind fun t => t.file.map fun id => s.fill t id now n

def flush (s : Tail) (up : Bool) : Option Tail :=
  if s.tailer.pending = [] then some s
  else (s.streamLogBytes s.tailer.pending up).map fun s => { s with tailer := s.tailer.flushed }

-- An error ends a step, and another step comes later.
def step (s : Tail) (now : ℤ) (n : Nat) (up : Bool) : Tail :=
  match s.filled? now n with
  | none   => s
  | some t =>
    let s := { s with tailer := t }
    match if t.flushDue now then s.flush up else some s with
    | none   => s
    | some s =>
      match s.files.path with
      | some path =>
        if s.tailer.pending = [] ∧ s.tailer.replaced = true then
          { s with tailer := s.tailer.switchToReplacement path }
        else s
      | none => s

end Tail

-- The events are what others do to the files, and the steps of the tailer.
inductive Event
  | write    (bytes : Bytes)
  | replace  (bytes : Bytes)
  | truncate (size : Nat)
  | remove
  | step     (now : ℤ) (n : Nat) (up : Bool)

def Files.change (f : Files) (g : Bytes → Bytes) : Files :=
  match f.path with
  | none    => f
  | some id => { f with contents := f.contents.modify id g }

@[reducible]
def tailing : System where
  State := Tail
  Event := Event
  next s
    | .write bytes    => { s with files := s.files.change (· ++ bytes) }
    | .replace bytes  =>
      { s with files := ⟨s.files.contents ++ [bytes], some s.files.contents.length⟩ }
    | .truncate size  => { s with files := s.files.change (·.take size) }
    | .remove         => { s with files := { s.files with path := none } }
    | .step now n up  => s.step now n up

-- The tailer has just opened a file.
def Tail.opened (present : Bytes) : Tail :=
  let files := ⟨[present], some 0⟩
  { files, tailer := (Tailer.open? {} files).getD {} }

end Agent.LogTail
