/-
# PegFlow.Json.Printer — documents as text

A document is written without blanks. A text escapes the quote, the backslash
and the characters below U+0020, these by a letter where there is one and else
by four digits; all other characters stand for themselves. A float that is not
finite, and a void part, have no JSON form and are written `null`.
-/
import PegFlow.Json
import PegFlow.Decimal
import PegFlow.Text.Quoted

namespace PegFlow.Json

set_option autoImplicit false

/-- A number below 256 as four digits in base sixteen. -/
def fourDigits (n : Nat) : List Char :=
  ['0', '0', Nat.digitChar (n / 16), Nat.digitChar (n % 16)]

/-- One character of a text. -/
def escapeChar (c : Char) : List Char :=
  if c = '"' then ['\\', '"']
  else if c = '\\' then ['\\', '\\']
  else if c = '\x08' then ['\\', 'b']
  else if c = '\x0c' then ['\\', 'f']
  else if c = '\n' then ['\\', 'n']
  else if c = '\r' then ['\\', 'r']
  else if c = '\t' then ['\\', 't']
  else if c.toNat < 0x20 then ['\\', 'u'] ++ fourDigits c.toNat
  else [c]

def printString (s : String) : List Char := '"' :: s.toList.flatMap escapeChar ++ ['"']

/-- A float; one that is not finite is no number. -/
def printFloat (x : Float) : List Char :=
  if x.isFinite then FloatText.numeral x else "null".toList

mutual

/-- The text of a document. -/
def print : Json → List Char
  | .null => "null".toList
  | .bool true => "true".toList
  | .bool false => "false".toList
  | .int n => intText n
  | .float x => printFloat x
  | .string s => printString s
  | .array [] => ['[', ']']
  | .array (j :: js) => '[' :: print j ++ printItems js
  | .object [] => ['\x7b', '\x7d']
  | .object ((k, j) :: ms) => '\x7b' :: printString k ++ ':' :: print j ++ printMembers ms
  | .void => "null".toList

/-- The items after the first one of an array, and its end. -/
def printItems : List Json → List Char
  | [] => [']']
  | j :: js => ',' :: print j ++ printItems js

/-- The members after the first one of an object, and its end. -/
def printMembers : List (String × Json) → List Char
  | [] => ['\x7d']
  | (k, j) :: ms => ',' :: printString k ++ ':' :: print j ++ printMembers ms

end

def toText (j : Json) : String := String.ofList j.print

end PegFlow.Json
