import Mathlib.Data.Rat.Floor
import Mastermind.Script.Text

namespace Js

-- Numbers are IEEE doubles. The finite ones are represented by their rational value, which does not
-- tell `-0` from `0`.
inductive Number
  | fin (q : ℚ)
  | inf (negative : Bool)
  | nan
  deriving DecidableEq

namespace Number

-- `Number.isInteger`
def integer? : Number → Option ℤ
  | fin q => if q.den = 1 then some q.num else none
  | _     => none

@[simp]
theorem integer?_natCast (n : Nat) : integer? (fin n) = some (n : ℤ) := by
  simp [integer?]

def neg : Number → Number
  | fin q => fin (-q)
  | inf b => inf !b
  | nan   => nan

-- `Math.abs(x)`
def abs : Number → Number
  | fin q => fin |q|
  | inf _ => inf false
  | nan   => nan

def pow2 (e : ℤ) : ℚ :=
  if 0 ≤ e then (2 ^ e.toNat : Nat) else mkRat 1 (2 ^ (-e).toNat)

-- The exponent `e` with `2 ^ e ≤ q < 2 ^ (e + 1)`, for positive `q`.
def exponent (q : ℚ) : ℤ :=
  let e : ℤ := q.num.toNat.log2 - q.den.log2
  if pow2 e ≤ q then e else e - 1

def roundHalfEven (q : ℚ) : ℤ :=
  let r := q - q.floor
  if r < mkRat 1 2 then q.floor
  else if mkRat 1 2 < r then q.floor + 1
  else if q.floor % 2 = 0 then q.floor
  else q.floor + 1

-- The double closest to a positive rational: 53 bits of precision, exponents from -1074 on.
def roundPositive (q : ℚ) : Number :=
  let e := max (exponent q - 52) (-1074)
  let v := roundHalfEven (q / pow2 e) * pow2 e
  if v < pow2 1024 then fin v else inf false

def round (q : ℚ) : Number :=
  if q = 0 then fin 0
  else if q < 0 then (roundPositive (-q)).neg
  else roundPositive q

def add : Number → Number → Number
  | fin p, fin q             => round (p + q)
  | inf a, inf b             => if a = b then inf a else nan
  | inf a, fin _ | fin _, inf a => inf a
  | _, _                     => nan

-- `a - b`
def sub (a b : Number) : Number :=
  a.add b.neg

def mul : Number → Number → Number
  | fin p, fin q             => round (p * q)
  | inf a, inf b             => inf (a != b)
  | inf a, fin q | fin q, inf a => if q = 0 then nan else inf (a != decide (q < 0))
  | _, _                     => nan

-- `a <= b`
def le : Number → Number → Bool
  | nan, _ | _, nan            => false
  | inf true, _ | _, inf false => true
  | fin p, fin q               => p ≤ q
  | _, _                       => false

-- `a < b`
def lt : Number → Number → Bool
  | nan, _ | _, nan => false
  | a, b            => !le b a

-- The integer that a finite number has before its point.
def trunc? : Number → Option ℤ
  | fin q => some (q.num.tdiv q.den)
  | _     => none

end Number

-- The JSON values. A field that an object does not have reads as `none` (`undefined`).
inductive Json
  | null
  | bool (b : Bool)
  | num  (n : Number)
  | str  (s : String)
  | arr  (l : List Json)
  | obj  (fields : List (String × Json))

def digitsValue (ds : List Char) : Nat :=
  ds.foldl (fun n c => 10 * n + (c.toNat - '0'.toNat)) 0

def isDigit (c : Char) : Bool :=
  '0' ≤ c && c ≤ '9'

-- Reads an optional sign and tells whether it was a minus.
def scanSign : List Char → Bool × List Char
  | '-' :: cs => (true, cs)
  | '+' :: cs => (false, cs)
  | cs        => (false, cs)

-- Reads an optional exponent part.
def scanExponent : List Char → Option (ℤ × List Char)
  | c :: cs =>
    if c = 'e' || c = 'E' then
      let (negative, cs) := scanSign cs
      match cs.span isDigit with
      | ([], _)    => none
      | (ds, rest) => some (if negative then -digitsValue ds else digitsValue ds, rest)
    else some (0, c :: cs)
  | [] => some (0, [])

-- The value of a decimal literal with the given digits before and after the point.
def decimalValue (whole fraction : List Char) (e : ℤ) : ℚ :=
  let m := digitsValue (whole ++ fraction)
  let e := e - fraction.length
  if 0 ≤ e then (m * 10 ^ e.toNat : Nat) else mkRat m (10 ^ (-e).toNat)

-- Reads the part of a decimal literal after its sign.
def scanDecimal (cs : List Char) : Option (ℚ × List Char) :=
  let (whole, rest) := cs.span isDigit
  let (fraction, rest) :=
    match rest with
    | '.' :: rest => rest.span isDigit
    | _           => ([], rest)
  if whole.isEmpty && fraction.isEmpty then none
  else (scanExponent rest).map fun (e, rest) => (decimalValue whole fraction e, rest)

def radixDigit? (radix : Nat) (c : Char) : Option Nat :=
  let d :=
    if isDigit c then c.toNat - '0'.toNat
    else if 'a' ≤ c && c ≤ 'f' then c.toNat - 'a'.toNat + 10
    else if 'A' ≤ c && c ≤ 'F' then c.toNat - 'A'.toNat + 10
    else radix
  if d < radix then some d else none

def radixNumber (radix : Nat) (cs : List Char) : Number :=
  match cs.mapM (radixDigit? radix) with
  | some (d :: ds) => .round ((d :: ds).foldl (fun n d => radix * n + d) 0 : Nat)
  | _              => .nan

-- `Number(s)` for a string
def stringToNumber (s : String) : Number :=
  match trimChars s.toList with
  | [] => .fin 0
  | '0' :: 'x' :: cs | '0' :: 'X' :: cs => radixNumber 16 cs
  | '0' :: 'o' :: cs | '0' :: 'O' :: cs => radixNumber 8 cs
  | '0' :: 'b' :: cs | '0' :: 'B' :: cs => radixNumber 2 cs
  | cs =>
    let (negative, cs) := scanSign cs
    let n :=
      if cs = "Infinity".toList then .inf false
      else
        match scanDecimal cs with
        | some (q, []) => .round q
        | _            => .nan
    if negative then n.neg else n

namespace Json

def ofNat (n : Nat) : Json :=
  num (.fin n)

-- `record.key`
def get? (key : String) : Json → Option Json
  | obj fields => fields.lookup key
  | _          => none

-- `a ?? b`
def coalesce : Option Json → Option Json → Option Json
  | none, b | some null, b => b
  | a, _                   => a

-- `Number(x)`. The string of an array of one element is the string of the element, and the string
-- of a number reads as the number again.
def toNumber : Json → Number
  | null          => .fin 0
  | bool b        => .fin (if b then 1 else 0)
  | num n         => n
  | str s         => stringToNumber s
  | arr []        => .fin 0
  | arr [null]    => .fin 0
  | arr [bool _]  => .nan
  | arr [j]       => j.toNumber
  | arr (_ :: _)  => .nan
  | obj _         => .nan

-- Sets a field, keeping its place if the object has it already.
def setField (key : String) (v : Json) : List (String × Json) → List (String × Json)
  | []             => [(key, v)]
  | (k, w) :: rest => if k = key then (k, v) :: rest else (k, w) :: setField key v rest

-- `{ ...a, ...b }`
def spread (a b : List (String × Json)) : List (String × Json) :=
  b.foldl (fun fields (k, v) => setField k v fields) a

def fields : Json → List (String × Json)
  | obj fields => fields
  | _          => []

end Json

namespace Parse

def skipSpace (cs : List Char) : List Char :=
  cs.dropWhile fun c => c = ' ' || c = '\t' || c = '\n' || c = '\r'

def hex4? (a b c d : Char) : Option Nat :=
  ([a, b, c, d].mapM (radixDigit? 16)).map (List.foldl (fun n d => 16 * n + d) 0)

def escape? : Char → Option Nat
  | '"'  => some 0x22
  | '\\' => some 0x5C
  | '/'  => some 0x2F
  | 'b'  => some 0x08
  | 'f'  => some 0x0C
  | 'n'  => some 0x0A
  | 'r'  => some 0x0D
  | 't'  => some 0x09
  | _    => none

-- Reads the rest of a string literal as UTF-16 code units.
def string : List Char → Option (List Nat × List Char)
  | '"' :: cs => some ([], cs)
  | '\\' :: 'u' :: a :: b :: c :: d :: cs => do
    let u ← hex4? a b c d
    let (us, rest) ← string cs
    return (u :: us, rest)
  | '\\' :: e :: cs => do
    let u ← escape? e
    let (us, rest) ← string cs
    return (u :: us, rest)
  | c :: cs =>
    if c.toNat < 0x20 || c = '\\' then none
    else do
      let (us, rest) ← string cs
      return (unitsOf c ++ us, rest)
  | [] => none

-- Numbers have no leading zeros and a digit on both sides of the point.
def number (cs : List Char) : Option (Number × List Char) :=
  let (negative, cs) :=
    match cs with
    | '-' :: cs => (true, cs)
    | _         => (false, cs)
  let (whole, rest) := cs.span isDigit
  let wellFormed :=
    match whole, rest with
    | [], _             => false
    | '0' :: _ :: _, _  => false
    | _, ['.']          => false
    | _, '.' :: d :: _  => isDigit d
    | _, _              => true
  if wellFormed then
    (scanDecimal cs).map fun (q, rest) => (if negative then (Number.round q).neg else .round q, rest)
  else none

def literal (word : String) (v : Json) (cs : List Char) : Option (Json × List Char) :=
  if word.toList.isPrefixOf cs then some (v, cs.drop word.length) else none

-- Reads the rest of an array after an element or after the opening bracket.
def elements (value : List Char → Option (Json × List Char)) :
    Nat → List Char → Option (List Json × List Char)
  | 0, _ => none
  | fuel + 1, cs => do
    let (v, rest) ← value cs
    match skipSpace rest with
    | ',' :: rest => do
      let (vs, rest) ← elements value fuel rest
      return (v :: vs, rest)
    | ']' :: rest => return ([v], rest)
    | _           => none

def members (value : List Char → Option (Json × List Char)) :
    Nat → List Char → Option (List (String × Json) × List Char)
  | 0, _ => none
  | fuel + 1, cs =>
    match skipSpace cs with
    | '"' :: cs => do
      let (key, rest) ← string cs
      match skipSpace rest with
      | ':' :: rest => do
        let (v, rest) ← value rest
        match skipSpace rest with
        | ',' :: rest => do
          let (ms, rest) ← members value fuel rest
          return ((.ofList (ofUnits key), v) :: ms, rest)
        | '}' :: rest => return ([(.ofList (ofUnits key), v)], rest)
        | _           => none
      | _ => none
    | _ => none

-- Every nested value is shorter than the value around it, so that the length of a text is enough
-- fuel for it.
def value : Nat → List Char → Option (Json × List Char)
  | 0, _ => none
  | fuel + 1, cs =>
    match skipSpace cs with
    | 'n' :: cs => literal "null" .null ('n' :: cs)
    | 't' :: cs => literal "true" (.bool true) ('t' :: cs)
    | 'f' :: cs => literal "false" (.bool false) ('f' :: cs)
    | '"' :: cs => (string cs).map fun (us, rest) => (.str (.ofList (ofUnits us)), rest)
    | '[' :: cs =>
      match skipSpace cs with
      | ']' :: rest => some (.arr [], rest)
      | cs => (elements (value fuel) (cs.length + 1) cs).map fun (vs, rest) => (.arr vs, rest)
    | '{' :: cs =>
      match skipSpace cs with
      | '}' :: rest => some (.obj [], rest)
      | cs =>
        (members (value fuel) (cs.length + 1) cs).map fun (ms, rest) =>
          (.obj (Json.spread [] ms), rest)
    | cs => (number cs).map fun (n, rest) => (.num n, rest)

end Parse

-- `JSON.parse(text)`
def Json.parse? (text : String) : Option Json :=
  match Parse.value (text.length + 1) text.toList with
  | some (v, rest) => if (Parse.skipSpace rest).isEmpty then some v else none
  | none           => none

end Js
