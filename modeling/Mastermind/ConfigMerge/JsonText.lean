import Mastermind.ConfigMerge.Json
import Mastermind.Script.Shortest
import Mastermind.Slots.Index

open Js

namespace ConfigMerge

-- A JSON text by its syntax. A literal of a number stands for the number that it denotes, and a key
-- may occur twice in an object.
inductive Document
  | null
  | bool   (b : Bool)
  | number (q : ℚ)
  | string (s : String)
  | array  (items : List Document)
  | object (members : List (String × Document))

namespace Value

variable {ν μ : Type}

def map (f : ν → μ) : Value ν → Value μ
  | null               => null
  | bool b             => bool b
  | number x           => number (f x)
  | string s           => string s
  | array n items      => array n fun i => (items i).map f
  | object keys fields => object keys fun key => (fields key).map f

theorem isSome_fill {members : List (String × Value ν)} {key : String}
    (h : key ∈ (members.map Prod.fst).toFinset) : (Index.fill members key).isSome := by
  rw [Option.isSome_iff_ne_none, ne_eq, Index.fill_eq_none_iff]
  intro hn
  have ⟨e, he, hk⟩ := List.mem_map.mp (List.mem_toFinset.mp h)
  exact hn e he hk

-- A map with the given members, of which the last one of a key counts.
def ofMembers (members : List (String × Value ν)) : Value ν :=
  object (members.map Prod.fst).toFinset fun key =>
    (Index.fill members key.val).get (isSome_fill key.property)

end Value

namespace Document

variable {ν : Type}

mutual

-- `json.Unmarshal`, for a conversion of numbers that may fail.
def decode (num : ℚ → Option ν) : Document → Option (Value ν)
  | null           => some .null
  | bool b         => some (.bool b)
  | number q       => (num q).map .number
  | string s       => some (.string s)
  | array items    => (decodeItems num items).map fun vs => .array vs.length vs.get
  | object members => (decodeMembers num members).map Value.ofMembers

def decodeItems (num : ℚ → Option ν) : List Document → Option (List (Value ν))
  | []         => some []
  | d :: items => do
    let v ← decode num d
    let vs ← decodeItems num items
    some (v :: vs)

def decodeMembers (num : ℚ → Option ν) :
    List (String × Document) → Option (List (String × Value ν))
  | []                  => some []
  | (key, d) :: members => do
    let v ← decode num d
    let vs ← decodeMembers num members
    some ((key, v) :: vs)

end

mutual

-- What a document says, with the numbers as they are.
def value : Document → Value ℚ
  | null           => .null
  | bool b         => .bool b
  | number q       => .number q
  | string s       => .string s
  | array items    => .array (valueItems items).length (valueItems items).get
  | object members => .ofMembers (valueMembers members)

def valueItems : List Document → List (Value ℚ)
  | []         => []
  | d :: items => value d :: valueItems items

def valueMembers : List (String × Document) → List (String × Value ℚ)
  | []                  => []
  | (key, d) :: members => (key, value d) :: valueMembers members

end

end Document

-- A number as a `float64`, unless it is too large.
def toFloat64 (q : ℚ) : Option ℚ :=
  match Number.round q with
  | .fin x => some x
  | _      => none

-- The merged text by what it says, and the counters. There is no result if the merge is skipped.
def mergeJSON (tmpl live : Document) : Option (Value ℚ × MergeStats) := do
  let tmpl ← tmpl.decode toFloat64
  let live ← live.decode toFloat64
  let (merged, stats) := mergeJSONValue tmpl live
  some (merged.map Number.formatFloat, stats + { dropped := countDroppedKeys tmpl live })

end ConfigMerge
