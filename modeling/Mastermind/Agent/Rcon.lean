import Mastermind.Text.Pieces

namespace Agent.Rcon

abbrev Bytes :=
  List UInt8

def typeAuth     : Int32 := 3
def typeCommand  : Int32 := 2
def typeResponse : Int32 := 0

-- The connection fails to write if it is broken. Once `incoming` has been read, reading fails, as
-- the deadline passes or the server closes the connection.
structure Client where
  requestID : Int32      := 0
  incoming  : List Bytes := []
  written   : Bytes      := []
  broken    : Bool       := false

inductive Exception
  | write
  | read
  | rcon (message : String)
  deriving DecidableEq

def tooLarge : Exception := .rcon "rcon: packet too large"
def tooShort : Exception := .rcon "rcon: packet too short"

-- `binary.LittleEndian.PutUint32`
def putUint32 (n : UInt32) : Bytes :=
  Endian.little 4 n.toNat

-- `binary.LittleEndian.Uint32`
def uint32 (bs : Bytes) : UInt32 :=
  .ofNat (Endian.ofLittle bs)

-- What follows the length of a packet.
def body (requestID typ : Int32) (payload : Bytes) : Bytes :=
  putUint32 requestID.toUInt32 ++ putUint32 typ.toUInt32 ++ (payload ++ [0]) ++ [0]

def packet (requestID typ : Int32) (payload : Bytes) : Bytes :=
  let bodyLen := 4 + 4 + (payload ++ [0]).length + 1
  putUint32 (.ofNat bodyLen) ++ body requestID typ payload

namespace Client

def nextID (c : Client) : Int32 × Client :=
  let requestID := c.requestID + 1
  (requestID, { c with requestID })

def send (c : Client) (requestID typ : Int32) (payload : Bytes) : Except Exception Unit × Client :=
  if c.broken then (.error .write, c)
  else (.ok (), { c with written := c.written ++ packet requestID typ payload })

-- `buf := make([]byte, n)` and `c.conn.Read(buf)`
def read (c : Client) (n : Nat) : Except Exception Bytes × Client :=
  if n = 0 then (.ok [], c)
  else
    match Pieces.read n c.incoming with
    | none                 => (.error .read, c)
    | some (got, incoming) =>
      (.ok (got ++ List.replicate (n - got.length) 0), { c with incoming })

def recv (c : Client) : Except Exception (Int32 × Bytes) × Client :=
  match c.read 4 with
  | (.error e, c)   => (.error e, c)
  | (.ok lenBuf, c) =>
    let length := uint32 lenBuf
    if 4096 + 16 < length then (.error tooLarge, c)
    else
      match c.read length.toNat with
      | (.error e, c) => (.error e, c)
      | (.ok rest, c) =>
        if length < 10 then (.error tooShort, c)
        else
          let requestID := (uint32 (rest.take 4)).toInt32
          let pay := rest.drop 8
          (.ok (requestID, pay.takeWhile (· ≠ 0)), c)

theorem read_incoming {c c' : Client} {n : Nat} {r : Except Exception Bytes}
    (h : c.read n = (r, c')) :
    c' = c ∨ ∃ got, n ≠ 0 ∧ Pieces.read n c.incoming = some (got, c'.incoming) := by
  rw [read] at h
  split at h
  case isTrue => exact .inl (Prod.mk.inj h).right.symm
  case isFalse hn =>
    split at h
    case h_1 => exact .inl (Prod.mk.inj h).right.symm
    case h_2 hr =>
      obtain rfl := (Prod.mk.inj h).right
      exact .inr ⟨_, hn, hr⟩

theorem size_read {c c' : Client} {n : Nat} {r : Except Exception Bytes} (h : c.read n = (r, c')) :
    Pieces.size c'.incoming ≤ Pieces.size c.incoming := by
  obtain rfl | ⟨got, hn, hr⟩ := read_incoming h
  case inl => exact Nat.le_refl _
  case inr => exact Nat.le_of_lt (Pieces.read_size hr hn)

-- A packet is read from the pieces that are left.
theorem size_recv {c c' : Client} {r : Int32 × Bytes} (h : c.recv = (.ok r, c')) :
    Pieces.size c'.incoming < Pieces.size c.incoming := by
  rw [recv] at h
  split at h
  case h_1 => nomatch h
  case h_2 lenBuf c₁ h₁ =>
    have hs : Pieces.size c₁.incoming < Pieces.size c.incoming := by
      rw [read, if_neg (by decide)] at h₁
      split at h₁
      case h_1    => nomatch h₁
      case h_2 hr =>
        obtain rfl := (Prod.mk.inj h₁).right
        exact Pieces.read_size hr (by decide)
    simp only at h
    split at h
    case isTrue  => nomatch h
    case isFalse =>
      split at h
      case h_1 => nomatch h
      case h_2 rest c₂ h₂ =>
        split at h
        case isTrue => nomatch h
        case isFalse =>
          obtain rfl := (Prod.mk.inj h).right
          exact Nat.lt_of_le_of_lt (size_read h₂) hs

end Client

def joinResponses : List Bytes → Bytes
  | []     => []
  | [part] => part
  | parts  => [10].intercalate parts

namespace Client

-- The loop of `exec`.
def execLoop (reqID : Int32) (out : List Bytes) (c : Client) : Except Exception Bytes × Client :=
  match _ : c.recv with
  | (.error e, c) => (if out ≠ [] then .ok (joinResponses out) else .error e, c)
  | (.ok (id, payload), c) =>
    if id = reqID ∧ payload ≠ [] then
      let out := out ++ [payload]
      -- If response is smaller than typical max (4096), assume done
      if payload.length < 4000 then (.ok (joinResponses out), c)
      else execLoop reqID out c
    else execLoop reqID out c
termination_by Pieces.size c.incoming
decreasing_by all_goals exact size_recv ‹_›

def exec (c : Client) (command : Bytes) : Except Exception Bytes × Client :=
  let (reqID, c) := c.nextID
  match c.send reqID typeCommand command with
  | (.error e, c) => (.error e, c)
  | (.ok (), c)   => execLoop reqID [] c

def auth (c : Client) (password : Bytes) : Except Exception Unit × Client :=
  let (reqID, c) := c.nextID
  match c.send reqID typeAuth password with
  | (.error e, c) => (.error e, c)
  | (.ok (), c)   =>
    match c.recv with
    | (.error e, c)    => (.error e, c)
    | (.ok (id, _), c) =>
      (if id = -1 then .error (.rcon "rcon: authentication failed") else .ok (), c)

end Client
end Agent.Rcon
