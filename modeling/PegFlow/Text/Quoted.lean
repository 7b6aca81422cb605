/-
# PegFlow.Text.Quoted — text between quotes, as messages show it

A quoted text keeps every character that can be read off a page and writes the
others as escapes: the five with a name of their own (NUL, tab, carriage
return, line feed, backslash), the quote itself, and by number in braces all
that `isUnprintable` names. The other kind of quote is not escaped.
-/
import PegFlow.Text.Unprintable

namespace PegFlow.Text

set_option autoImplicit false

/-- A number in lower-case base sixteen, without leading zeros. -/
def hexDigits (n : Nat) : List Char := Nat.toDigits 16 n

/-- One character of a text between two `quote`s. -/
def escapeChar (quote c : Char) : List Char :=
  if c = '\x00' then ['\\', '0']
  else if c = '\t' then ['\\', 't']
  else if c = '\r' then ['\\', 'r']
  else if c = '\n' then ['\\', 'n']
  else if c = '\\' ∨ c = quote then ['\\', c]
  else if isUnprintable c then ['\\', 'u', '\x7b'] ++ hexDigits c.toNat ++ ['\x7d']
  else [c]

/-- A text between double quotes. -/
def quoted (s : String) : String :=
  String.ofList ('"' :: s.toList.flatMap (escapeChar '"') ++ ['"'])

/-- A character between single quotes. -/
def quotedChar (c : Char) : String :=
  String.ofList ('\'' :: escapeChar '\'' c ++ ['\''])

end PegFlow.Text
