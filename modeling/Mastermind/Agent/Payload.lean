import Mathlib.Data.List.DropRight
import Mathlib.Data.List.Infix
import Mastermind.Script.Object

open Js

namespace Agent

-- The white space of `strings.TrimSpace`. It has U+0085, which scripts do not trim, but not U+FEFF.
def isSpace (c : Char) : Bool :=
  (9 ≤ c.toNat && c.toNat ≤ 13) || c.toNat = 0x20 || c.toNat = 0x85 || c.toNat = 0xA0 ||
  c.toNat = 0x1680 || (0x2000 ≤ c.toNat && c.toNat ≤ 0x200A) || c.toNat = 0x2028 ||
  c.toNat = 0x2029 || c.toNat = 0x202F || c.toNat = 0x205F || c.toNat = 0x3000

def trimSpace (s : String) : String :=
  .ofList ((s.toList.dropWhile isSpace).rdropWhile isSpace)

-- `v, _ := x.(string)`
def stringOf : Option Json → String
  | some (.str s) => s
  | _             => ""

-- The range of `int`.
def fitsInt (n : ℤ) : Bool :=
  -2 ^ 63 ≤ n && n < 2 ^ 63

-- `int(v)` for a `float64`. What does not fit becomes the smallest value (on amd64).
def toInt (q : ℚ) : ℤ :=
  let n := q.num.tdiv q.den
  if fitsInt n then n else -2 ^ 63

-- `strconv.Atoi`
def atoi (s : String) : Option ℤ :=
  let (negative, cs) := scanSign s.toList
  if cs.isEmpty || !cs.all isDigit then none
  else
    let n : ℤ := if negative then -digitsValue cs else digitsValue cs
    if fitsInt n then some n else none

def getString (m : Fields) (key default : String) : String :=
  match m.lookup key with
  | some (.str s) => s
  | _             => default

-- A number that is not finite is sent as `null`.
def getInt (m : Fields) (key : String) (default : ℤ) : ℤ :=
  match m.lookup key with
  | some (.num (.fin q)) => toInt q
  | some (.str s)        => (atoi s).getD default
  | _                    => default

-- `strings.Contains`
def contains (s part : String) : Bool :=
  part.toList <:+: s.toList

-- `filepath.Base`
def base (s : String) : String :=
  let cs := s.toList.rdropWhile (· = '/')
  if s = "" then "."
  else if cs = [] then "/"
  else .ofList (cs.rtakeWhile (· ≠ '/'))

-- A name of at most 200 characters that begins with a letter or a digit.
def matchesName (isNameChar : Char → Bool) (name : String) : Bool :=
  match name.toList with
  | []      => false
  | c :: cs => c.isAlphanum && cs.length ≤ 199 && cs.all isNameChar

end Agent
