/-
# PegFlow.Value.Json — values and documents

The trees of values as documents. A number is an integer or a float, and an object
keeps its members sorted by key, the last one of a key.
-/
import PegFlow.Json
import PegFlow.Value.Tree

namespace PegFlow

set_option autoImplicit false

namespace Json

/-- A number in a tree. -/
inductive Number where
  | int (n : Int)
  | float (x : Float)

namespace Number

def int? : Number → Option Int64
  | .int n => int64? n
  | .float _ => none

def toFloat : Number → Float
  | .int n => nearest n
  | .float x => x

end Number

/-- The library whose trees are those of documents. -/
def library : JsonLibrary where
  Number := Number
  ofInt n := .int n.toInt
  ofFloat? x := if x.isFinite then some (.float x) else none
  int? := Number.int?
  float? n := some n.toFloat
  collect := Keyed.ofList

mutual

/-- The document of a tree. -/
def ofTree : JsonTree Number → Json
  | .null => .null
  | .bool b => .bool b
  | .number (.int n) => .int n
  | .number (.float x) => .float x
  | .string s => .string s
  | .array items => .array (itemsOfTree items)
  | .object members => .object (membersOfTree members)

def itemsOfTree : List (JsonTree Number) → List Json
  | [] => []
  | t :: rest => ofTree t :: itemsOfTree rest

def membersOfTree : List (String × JsonTree Number) → List (String × Json)
  | [] => []
  | (k, t) :: rest => (k, ofTree t) :: membersOfTree rest

end

mutual

/-- The tree of a document; none when a part of it is void. -/
def toTree? : Json → Option (JsonTree Number)
  | .null => some .null
  | .bool b => some (.bool b)
  | .int n => some (.number (.int n))
  | .float x => some (.number (.float x))
  | .string s => some (.string s)
  | .array items => (itemsToTree? items).map .array
  | .object members => (membersToTree? members).map fun ms => .object (Keyed.ofList ms)
  | .void => none

def itemsToTree? : List Json → Option (List (JsonTree Number))
  | [] => some []
  | j :: rest => do return (← toTree? j) :: (← itemsToTree? rest)

def membersToTree? : List (String × Json) → Option (List (String × JsonTree Number))
  | [] => some []
  | (k, j) :: rest => do return (k, ← toTree? j) :: (← membersToTree? rest)

end

end Json

namespace Value

def toJson (v : Value) : Json := Json.ofTree (v.toTree Json.library)

def ofJson? (j : Json) : Option Value := j.toTree?.map (ofTree Json.library)

end Value

end PegFlow
