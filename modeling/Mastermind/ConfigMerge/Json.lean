import Mathlib.Algebra.BigOperators.Group.Finset.Basic
import Mathlib.Data.Fintype.Basic
import Mastermind.ConfigMerge.Stats

namespace ConfigMerge

-- What `json.Unmarshal` stores in an `interface{}`, for any kind of numbers. A map is given by its
-- keys and a value for each of them.
inductive Value (ν : Type)
  | null
  | bool   (b : Bool)
  | number (x : ν)
  | string (s : String)
  | array  (n : Nat) (items : Fin n → Value ν)
  | object (keys : Finset String) (fields : keys → Value ν)

namespace Value

variable {ν : Type}

-- `fmt.Sprintf("%T", v)`
def typeOf : Value ν → String
  | null       => "<nil>"
  | bool _     => "bool"
  | number _   => "float64"
  | string _   => "string"
  | array _ _  => "[]interface {}"
  | object _ _ => "map[string]interface {}"

def isNil : Value ν → Bool
  | null => true
  | _    => false

-- `v.(map[string]interface{})`
def isMap : Value ν → Bool
  | object _ _ => true
  | _          => false

def keys : Value ν → Finset String
  | object keys _ => keys
  | _             => ∅

def get? (v : Value ν) (key : String) : Option (Value ν) :=
  match v with
  | object keys fields => if h : key ∈ keys then some (fields ⟨key, h⟩) else none
  | _                  => none

-- The value at a path of keys.
def at? (v : Value ν) : List String → Option (Value ν)
  | []          => some v
  | key :: path => (v.get? key).bind (·.at? path)

end Value

open Value

variable {ν : Type}

-- The case of `mergeJSONValue` for leaves and for values of different types.
def mergeLeaf (tmpl live : Value ν) : Value ν × MergeStats :=
  if tmpl.isNil || live.isNil then
    if !live.isNil && !tmpl.isNil then (live, { carried := 1 })
    else if live.isNil then (tmpl, { newKeys := 1 })
    else (tmpl, 0)
  else if tmpl.typeOf = live.typeOf then (live, { carried := 1 })
  else (tmpl, { newKeys := 1 })

-- The merged value and what is counted for it.
def mergeJSONValue : (tmpl live : Value ν) → Value ν × MergeStats
  | object keys tmpl, object liveKeys live =>
    let result (key : keys) :=
      if h : key.val ∈ liveKeys then mergeJSONValue (tmpl key) (live ⟨key, h⟩)
      else (tmpl key, { newKeys := 1 })
    (object keys fun key => (result key).1, ∑ key : keys, (result key).2)
  | tmpl, live => mergeLeaf tmpl live

def countDroppedKeys : (tmpl live : Value ν) → Nat
  | object keys tmpl, object liveKeys live =>
    ∑ key : liveKeys, if h : key.val ∈ keys then countDroppedKeys (tmpl ⟨key, h⟩) (live key) else 1
  | _, _ => 0

end ConfigMerge
