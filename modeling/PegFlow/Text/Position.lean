/-
# PegFlow.Text.Position — lines and columns

A `Cursor` counts the lines and, in the current line, the characters that have
gone by. It moves octet by octet: a line feed opens a line, the first octet of
any other character moves one column, an octet that continues a character
moves nothing. Because the cursor is a fold over octets, a text may be cut
anywhere, even inside a character, and counted piece by piece.

A `SourcePosition` is an offset with the line and column that a reader sees,
both counted from one.
-/
import PegFlow.Text.Octets

namespace PegFlow

set_option autoImplicit false

/-- What has gone by: complete lines, and characters of the current line. -/
structure Cursor where
  lines : Nat
  column : Nat
deriving DecidableEq, Repr, Inhabited

namespace Cursor

def start : Cursor := ⟨0, 0⟩

/-- The cursor after one more octet. -/
def step (c : Cursor) (b : UInt8) : Cursor :=
  if b = Text.newline then ⟨c.lines + 1, 0⟩
  else if Text.isContinuation b then c
  else ⟨c.lines, c.column + 1⟩

def advance (c : Cursor) (octets : List UInt8) : Cursor := octets.foldl step c

theorem advance_append (c : Cursor) (a b : List UInt8) :
    c.advance (a ++ b) = (c.advance a).advance b := by
  simp [advance, List.foldl_append]

end Cursor

/-- A place in a text: an octet offset, and its line and column from one. -/
structure SourcePosition where
  offset : Nat
  line : Nat
  column : Nat
deriving DecidableEq, Repr, Inhabited

namespace SourcePosition

def origin : SourcePosition := ⟨0, 1, 1⟩

/-- The position of an offset; an offset past the end counts as the end. -/
def ofOffset (text : String) (offset : Nat) : SourcePosition :=
  let offset := min offset text.utf8ByteSize
  let c := Cursor.start.advance ((Text.octets text).take offset)
  ⟨offset, c.lines + 1, c.column + 1⟩

def describe (p : SourcePosition) : String :=
  s!"line {p.line}, column {p.column}"

end SourcePosition

/-- A line of text with a caret under its `column`th character. Tabs before the
caret are kept, so that it stays under the character however wide a tab is. -/
def pointerText (line : String) (column : Nat) : String :=
  let pad := (line.toList.take (column - 1)).map fun c => if c = '\t' then '\t' else ' '
  line ++ "\n" ++ String.ofList pad ++ "^"

end PegFlow
