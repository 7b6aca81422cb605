/-
# PegFlow.Value.Tree — values and JSON trees

A value becomes a JSON tree part by part; a float that has no number there becomes
null. On the way back a number that is no integer of 64 signed bits becomes a float.

The trees belong to a library, of which only what is used here is named
(`JsonLibrary`): how it makes numbers and what it tells of them, and which members
an object keeps, in which order.
-/
import PegFlow.Value

namespace PegFlow

set_option autoImplicit false

/-- A JSON tree over the numbers of a library. -/
inductive JsonTree (Number : Type) where
  | null
  | bool (b : Bool)
  | number (n : Number)
  | string (s : String)
  | array (items : List (JsonTree Number))
  | object (members : List (String × JsonTree Number))

/-- What a library of JSON trees provides. -/
structure JsonLibrary where
  Number : Type
  ofInt : Int64 → Number
  ofFloat? : Float → Option Number
  int? : Number → Option Int64
  float? : Number → Option Float
  collect : List (String × JsonTree Number) → List (String × JsonTree Number)

namespace Value

variable (L : JsonLibrary)

mutual

/-- The tree of a value. -/
def toTree : Value → JsonTree L.Number
  | .null => .null
  | .bool b => .bool b
  | .int n => .number (L.ofInt n)
  | .float x =>
    match L.ofFloat? x with
    | some n => .number n
    | none => .null
  | .string s => .string s
  | .array items => .array (itemsToTree items)
  | .object members => .object (L.collect (membersToTree members))

def itemsToTree : List Value → List (JsonTree L.Number)
  | [] => []
  | v :: rest => v.toTree :: itemsToTree rest

def membersToTree : List (String × Value) → List (String × JsonTree L.Number)
  | [] => []
  | (k, v) :: rest => (k, v.toTree) :: membersToTree rest

end

mutual

/-- The value of a tree; a number that tells nothing of itself is not a number. -/
def ofTree : JsonTree L.Number → Value
  | .null => .null
  | .bool b => .bool b
  | .number n =>
    match L.int? n with
    | some i => .int i
    | none => .float ((L.float? n).getD (0 / 0))
  | .string s => .string s
  | .array items => .array (itemsOfTree items)
  | .object members => ofMembers (membersOfTree members)

def itemsOfTree : List (JsonTree L.Number) → List Value
  | [] => []
  | t :: rest => ofTree t :: itemsOfTree rest

def membersOfTree : List (String × JsonTree L.Number) → List (String × Value)
  | [] => []
  | (k, t) :: rest => (k, ofTree t) :: membersOfTree rest

end

end Value

end PegFlow
