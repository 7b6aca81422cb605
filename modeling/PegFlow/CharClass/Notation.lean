/-
# PegFlow.CharClass.Notation — classes in brackets

A class is written between brackets, which may be left out: after an optional
`^` for a negated class come characters and ranges with a dash, as in `[a-z_]`.
A backslash takes the next character literally, except that `n`, `t`, `r` and
`0` name control characters, and `d`, `w` and `s` put in the ranges of digits,
of word characters and of blanks. A dash at the end stands for itself.

`describe` writes a class in this notation for messages; of the control
characters those without a letter are written by number in braces.
-/
import PegFlow.CharClass
import PegFlow.Text.Quoted

namespace PegFlow.ClassSpec

set_option autoImplicit false

def digits : List CharRange := [⟨'0', '9'⟩]

def wordChars : List CharRange := [⟨'0', '9'⟩, ⟨'A', 'Z'⟩, ⟨'_', '_'⟩, ⟨'a', 'z'⟩]

def blanks : List CharRange := [⟨'\t', '\r'⟩, ⟨' ', ' '⟩]

/-- The ranges that a letter after a backslash stands for. -/
def shorthand? (c : Char) : Option (List CharRange) :=
  match c with
  | 'd' => some digits
  | 'w' => some wordChars
  | 's' => some blanks
  | _ => none

/-- The character that a character after a backslash stands for. -/
def unescape (c : Char) : Char :=
  match c with
  | 'n' => '\n'
  | 't' => '\t'
  | 'r' => '\r'
  | '0' => '\x00'
  | c => c

/-- What stands before a dash, or alone. -/
inductive Unit where
  | char (c : Char)
  | ranges (rs : List CharRange)

/-- The unit at the start of the text, and the text after it. A backslash at the
end stands for itself. -/
def readUnit : List Char → Option (Unit × List Char)
  | [] => none
  | ['\\'] => some (.char '\\', [])
  | '\\' :: c :: rest =>
    match shorthand? c with
    | some rs => some (.ranges rs, rest)
    | none => some (.char (unescape c), rest)
  | c :: rest => some (.char c, rest)

/-- The last character of a range that starts before a dash, if there is one,
and the text after it. -/
def readLast : List Char → Option (Char × List Char)
  | ['-', '\\'] => some ('\\', [])
  | '-' :: '\\' :: c :: rest => some (unescape c, rest)
  | '-' :: c :: rest => some (c, rest)
  | _ => none

/-- The ranges of a text without brackets and sign. Each step uses up at least
one character, so the length of the text is fuel enough. -/
def readRanges : Nat → List Char → List CharRange
  | 0, _ => []
  | fuel + 1, cs =>
    match readUnit cs with
    | none => []
    | some (.ranges rs, rest) => rs ++ readRanges fuel rest
    | some (.char first, rest) =>
      match readLast rest with
      | some (last, rest) => ⟨first, last⟩ :: readRanges fuel rest
      | none => CharRange.single first :: readRanges fuel rest

/-- The text between brackets at both ends, or the whole text. -/
def stripBrackets : List Char → List Char
  | '[' :: rest => if rest.getLast? = some ']' then rest.dropLast else '[' :: rest
  | cs => cs

def ofText (text : String) : ClassSpec :=
  match stripBrackets text.toList with
  | '^' :: rest => ⟨readRanges rest.length rest, true⟩
  | cs => ⟨readRanges cs.length cs, false⟩

def isControl (c : Char) : Bool :=
  c.toNat < 0x20 || (0x7F ≤ c.toNat && c.toNat < 0xA0)

/-- One end of a range. -/
def describeChar (c : Char) : List Char :=
  if c = '\n' then ['\\', 'n']
  else if c = '\t' then ['\\', 't']
  else if c = '\r' then ['\\', 'r']
  else if c = '\x00' then ['\\', '0']
  else if c = '\\' ∨ c = ']' ∨ c = '-' ∨ c = '^' then ['\\', c]
  else if isControl c then ['\\', 'u', '\x7b'] ++ Text.hexDigits c.toNat ++ ['\x7d']
  else [c]

/-- One range: a character alone when both ends are the same. -/
def describeRange (r : CharRange) : List Char :=
  if r.last = r.first then describeChar r.first
  else describeChar r.first ++ '-' :: describeChar r.last

def describe (spec : ClassSpec) : String :=
  String.ofList <|
    '[' :: (if spec.negated then ['^'] else []) ++ spec.ranges.flatMap describeRange ++ [']']

end PegFlow.ClassSpec
