/-
# PegFlow.Json.Reader — documents from text

`ofText?` reads one value with blanks around it. The grammar is that of JSON
without extensions: blanks are space, tab, line feed and carriage return, a
text holds no unescaped character below U+0020, an escape by number has four
digits, and a character above U+FFFF may be escaped as two halves of a
surrogate pair. A container may stand inside 126 others; one nested deeper is
`void`, and so is an object with a key that is.

The functions recurse on fuel. Every step that is taken uses up a character, so
the length of the text is enough.
-/
import PegFlow.Json.Numeral

namespace PegFlow.Json

set_option autoImplicit false

/-- The containers that may be nested in each other. -/
def maxNesting : Nat := 127

def isBlank (c : Char) : Bool := c = ' ' || c = '\n' || c = '\t' || c = '\r'

def skipBlanks (cs : List Char) : List Char := cs.dropWhile isBlank

/-- The value of a digit in base sixteen, in either case. -/
def hexValue? (c : Char) : Option Nat :=
  if '0' ≤ c ∧ c ≤ '9' then some (c.toNat - '0'.toNat)
  else if 'a' ≤ c ∧ c ≤ 'f' then some (c.toNat - 'a'.toNat + 10)
  else if 'A' ≤ c ∧ c ≤ 'F' then some (c.toNat - 'A'.toNat + 10)
  else none

/-- The 16-bit unit of four digits in base sixteen. -/
def unit? (a b c d : Char) : Option Nat := do
  return (((← hexValue? a) * 16 + (← hexValue? b)) * 16 + (← hexValue? c)) * 16 + (← hexValue? d)

/-- The character that a one-letter escape stands for. -/
def shortEscape? (c : Char) : Option Char :=
  match c with
  | '"' => some '"'
  | '\\' => some '\\'
  | '/' => some '/'
  | 'b' => some '\x08'
  | 'f' => some '\x0c'
  | 'n' => some '\n'
  | 'r' => some '\r'
  | 't' => some '\t'
  | _ => none

/-- Whether a 16-bit unit is the first half of a surrogate pair. -/
def isHighHalf (u : Nat) : Bool := 0xD800 ≤ u && u < 0xDC00

/-- Whether a 16-bit unit is the second half of a surrogate pair. -/
def isLowHalf (u : Nat) : Bool := 0xDC00 ≤ u && u < 0xE000

def pairCode (high low : Nat) : Nat := 0x10000 + (high - 0xD800) * 0x400 + (low - 0xDC00)

/-- Put a character after a text that is still being read, both backwards; half
of a pair, `none`, spoils the text. -/
def push (read : Option (List Char)) (c : Option Char) : Option (List Char) := do
  return (← c) :: (← read)

/-- The rest of a text after its opening quote, `read` being what came before
it, backwards, and what follows the closing quote. The text is `none` when an
escape in it names half a surrogate pair. -/
def scanString : Nat → Option (List Char) → List Char → Option (Option (List Char) × List Char)
  | 0, _, _ => none
  | _ + 1, read, '"' :: rest => some (read.map List.reverse, rest)
  | fuel + 1, read, '\\' :: 'u' :: a :: b :: c :: d :: rest =>
    match unit? a b c d with
    | none => none
    | some u =>
      if isHighHalf u then
        match rest with
        | '\\' :: 'u' :: a' :: b' :: c' :: d' :: rest' =>
          match unit? a' b' c' d' with
          | none => none
          | some u' =>
            if isLowHalf u' then scanString fuel (push read (Char.ofNat (pairCode u u'))) rest'
            else scanString fuel (push read none) rest
        | _ => scanString fuel (push read none) rest
      else if isLowHalf u then scanString fuel (push read none) rest
      else scanString fuel (push read (Char.ofNat u)) rest
  | fuel + 1, read, '\\' :: c :: rest =>
    match shortEscape? c with
    | none => none
    | some c => scanString fuel (push read c) rest
  | fuel + 1, read, c :: rest =>
    if c.toNat < 0x20 ∨ c = '\\' then none else scanString fuel (push read c) rest
  | _ + 1, _, [] => none

/-- A text as a document, void when it holds half a pair. -/
def ofChars? : Option (List Char) → Json
  | none => .void
  | some cs => .string (String.ofList cs)

/-- An array of `items`, with room for `depth` containers. -/
def arrayWithin (depth : Nat) (items : List Json) : Json :=
  if depth = 0 then .void else .array items

/-- An object of `members`, with room for `depth` containers. -/
def objectWithin (depth : Nat) (members : List (Option (List Char) × Json)) : Json :=
  match members.mapM fun m => m.1.map fun k => (String.ofList k, m.2) with
  | some members => if depth = 0 then .void else .object members
  | none => .void

mutual

/-- A value after its blanks, and the text after it. Containers may nest
`depth` deep. -/
def scanValue : Nat → Nat → List Char → Option (Json × List Char)
  | 0, _, _ => none
  | fuel + 1, depth, cs =>
    match skipBlanks cs with
    | 'n' :: 'u' :: 'l' :: 'l' :: rest => some (.null, rest)
    | 't' :: 'r' :: 'u' :: 'e' :: rest => some (.bool true, rest)
    | 'f' :: 'a' :: 'l' :: 's' :: 'e' :: rest => some (.bool false, rest)
    | '"' :: rest => do
      let (s, rest) ← scanString (rest.length + 1) (some []) rest
      return (ofChars? s, rest)
    | '[' :: rest =>
      match skipBlanks rest with
      | ']' :: rest => some (arrayWithin depth [], rest)
      | rest => do
        let (j, rest) ← scanValue fuel (depth - 1) rest
        let (js, rest) ← scanItems fuel (depth - 1) rest
        return (arrayWithin depth (j :: js), rest)
    | '\x7b' :: rest =>
      match skipBlanks rest with
      | '\x7d' :: rest => some (objectWithin depth [], rest)
      | rest => do
        let (m, rest) ← scanMember fuel (depth - 1) rest
        let (ms, rest) ← scanMembers fuel (depth - 1) rest
        return (objectWithin depth (m :: ms), rest)
    | '-' :: rest => do
      let (n, rest) ← Numeral.scan true rest
      return (n.value, rest)
    | rest => do
      let (n, rest) ← Numeral.scan false rest
      return (n.value, rest)
termination_by structural fuel _ _ => fuel

/-- The items after the first one of an array, up to its end. -/
def scanItems : Nat → Nat → List Char → Option (List Json × List Char)
  | 0, _, _ => none
  | fuel + 1, depth, cs =>
    match skipBlanks cs with
    | ']' :: rest => some ([], rest)
    | ',' :: rest => do
      let (j, rest) ← scanValue fuel depth rest
      let (js, rest) ← scanItems fuel depth rest
      return (j :: js, rest)
    | _ => none
termination_by structural fuel _ _ => fuel

/-- A key with its value. -/
def scanMember : Nat → Nat → List Char → Option ((Option (List Char) × Json) × List Char)
  | 0, _, _ => none
  | fuel + 1, depth, cs =>
    match skipBlanks cs with
    | '"' :: rest => do
      let (k, rest) ← scanString (rest.length + 1) (some []) rest
      match skipBlanks rest with
      | ':' :: rest =>
        let (j, rest) ← scanValue fuel depth rest
        return ((k, j), rest)
      | _ => none
    | _ => none
termination_by structural fuel _ _ => fuel

/-- The members after the first one of an object, up to its end. -/
def scanMembers : Nat → Nat → List Char → Option (List (Option (List Char) × Json) × List Char)
  | 0, _, _ => none
  | fuel + 1, depth, cs =>
    match skipBlanks cs with
    | '\x7d' :: rest => some ([], rest)
    | ',' :: rest => do
      let (m, rest) ← scanMember fuel depth rest
      let (ms, rest) ← scanMembers fuel depth rest
      return (m :: ms, rest)
    | _ => none
termination_by structural fuel _ _ => fuel

end

/-- The document that a text holds, parts of it possibly void. -/
def ofText? (text : String) : Option Json :=
  let cs := text.toList
  match scanValue (2 * cs.length + 2) maxNesting cs with
  | some (j, rest) => if skipBlanks rest = [] then some j else none
  | none => none

end PegFlow.Json
