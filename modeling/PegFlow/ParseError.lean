/-
# PegFlow.ParseError — a fault and where it happened

The place of a fault is an offset, with line and column as long as the text
around it is kept, and with the line itself when that is kept from its start.
-/
import PegFlow.Fault

namespace PegFlow

set_option autoImplicit false

/-- A fault with its place, and what was expected there. -/
structure ParseError where
  fault : Fault
  position : Nat
  lineAndColumn : Option (Nat × Nat)
  pointer : Option String
  expected : List String
deriving DecidableEq, Repr

namespace ParseError

def place (e : ParseError) : String :=
  match e.lineAndColumn with
  | some (line, column) => s!" at line {line}, column {column}"
  | none => s!" at offset {e.position}"

def message (e : ParseError) : String :=
  e.fault.message ++ e.place ++
    if e.expected.isEmpty then "" else "; expected one of: " ++ ", ".intercalate e.expected

/-- The wording with the line below it. -/
def fullMessage (e : ParseError) : String :=
  match e.pointer with
  | some pointer => e.message ++ "\n" ++ pointer
  | none => e.message

end ParseError

end PegFlow
