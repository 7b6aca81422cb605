/-
# PegFlow.Value.Printer — values for a reader

Numbers are written plainly, texts and keys between quotes, arrays in brackets
and objects in braces, with a comma and a blank between the parts. This text is
for messages; the text for other programs is that of `Value.toJson`.
-/
import PegFlow.Value
import PegFlow.Decimal
import PegFlow.Text.Quoted

namespace PegFlow.Value

set_option autoImplicit false

mutual

def display : Value → String
  | .null => "null"
  | .bool true => "true"
  | .bool false => "false"
  | .int n => String.ofList (intText n.toInt)
  | .float x => FloatText.plain x
  | .string s => Text.quoted s
  | .array items => "[" ++ ", ".intercalate (displayItems items) ++ "]"
  | .object members => "\x7b" ++ ", ".intercalate (displayMembers members) ++ "\x7d"

def displayItems : List Value → List String
  | [] => []
  | v :: rest => v.display :: displayItems rest

def displayMembers : List (String × Value) → List String
  | [] => []
  | (k, v) :: rest => (Text.quoted k ++ ": " ++ v.display) :: displayMembers rest

end

end PegFlow.Value
