/-
# PegFlow.Json — JSON documents as trees

An object keeps its members as written, in order and with repetitions. Integers
stay apart from floats: a number written without a point and without an
exponent is an integer when it fits in 64 bits, signed or unsigned.

`void` stands where the text is grammatical but names no value that can be
held: a number beyond the largest float, text with half a surrogate pair, or a
container inside too many others. A document may hold one where nobody looks;
whoever reads that part refuses it.
-/
namespace PegFlow

set_option autoImplicit false

/-- A JSON document. -/
inductive Json where
  | null
  | bool (b : Bool)
  | int (n : Int)
  | float (x : Float)
  | string (s : String)
  | array (items : List Json)
  | object (members : List (String × Json))
  | void
deriving Inhabited

namespace Json

mutual

/-- Whether no part of the document is void. -/
def isSolid : Json → Bool
  | .void => false
  | .array items => areSolid items
  | .object members => haveSolid members
  | _ => true

def areSolid : List Json → Bool
  | [] => true
  | j :: rest => j.isSolid && areSolid rest

def haveSolid : List (String × Json) → Bool
  | [] => true
  | (_, j) :: rest => j.isSolid && haveSolid rest

end

/-- An integer of 64 signed bits. -/
def int64? (n : Int) : Option Int64 :=
  if Int64.minValue.toInt ≤ n ∧ n ≤ Int64.maxValue.toInt then some (Int64.ofInt n) else none

/-- The float nearest to an integer. -/
def nearest (n : Int) : Float :=
  if n < 0 then -n.natAbs.toUInt64.toFloat else n.natAbs.toUInt64.toFloat

end Json

end PegFlow
