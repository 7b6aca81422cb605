/-
# PegFlow.Buffer — input that comes in pieces

Text arrives in chunks. The buffer shows them as one text that is addressed by
octet offsets from its very start, wherever the chunks were cut. To bound the
memory, the oldest chunks are let go as soon as what is kept after them has at
least `minRetained` octets; the newest chunk always stays. A read below the
window of what is kept is refused, and so is one that splits a character.

Of the text let go only its cursor is kept, so lines and columns still count
from the start.
-/
import PegFlow.Fault
import PegFlow.Text.Position

namespace PegFlow

set_option autoImplicit false

/-- A piece of the input and where it starts. -/
structure Chunk where
  offset : Nat
  text : String
deriving DecidableEq, Repr

def Chunk.stop (c : Chunk) : Nat := c.offset + c.text.utf8ByteSize

/-- The chunks that are kept, oldest first; `start` is where they begin, `length`
where the text so far ends, and `evicted` the cursor of the text before
`start`. -/
structure Buffer where
  minRetained : Nat
  chunks : List Chunk := []
  start : Nat := 0
  length : Nat := 0
  closed : Bool := false
  evicted : Cursor := Cursor.start
deriving DecidableEq, Repr

namespace Buffer

/-- The greatest offset there is. -/
def maxOffset : Nat := UInt64.size - 1

def empty (minRetained : Nat) : Buffer := { minRetained }

/-- Let go of the oldest chunk while the others hold enough. -/
def evict (minRetained length : Nat) (start : Nat) (evicted : Cursor) :
    List Chunk → Nat × Cursor × List Chunk
  | [] => (start, evicted, [])
  | [c] => (start, evicted, [c])
  | c :: d :: rest =>
    if length - start - c.text.utf8ByteSize < minRetained then (start, evicted, c :: d :: rest)
    else evict minRetained length c.stop (evicted.advance (Text.octets c.text)) (d :: rest)

/-- Add text at the end; a closed buffer takes none. -/
def append (b : Buffer) (text : String) : Except ReadError Buffer :=
  if b.closed then .error .closed
  else if text.utf8ByteSize = 0 then .ok b
  else
    let length := b.length + text.utf8ByteSize
    let (start, evicted, chunks) :=
      evict b.minRetained length b.start b.evicted (b.chunks ++ [⟨b.length, text⟩])
    .ok { b with chunks, start, length, evicted }

def close (b : Buffer) : Buffer := { b with closed := true }

/-- A closed buffer that holds a whole text and lets nothing go. -/
def complete (text : String) : Buffer :=
  match (empty maxOffset).append text with
  | .ok b => b.close
  | .error _ => (empty maxOffset).close

def isEmpty (b : Buffer) : Bool := b.length = 0

/-- Why a read beyond the end gives nothing. -/
def pastEnd (b : Buffer) : ReadError := if b.closed then .endOfInput else .needInput

/-- Refuse an offset below the window. -/
def checkRetained (b : Buffer) (p : Nat) : Except ReadError Unit :=
  if p < b.start then .error (.inputFreed p b.start) else .ok ()

/-- The chunks from the one that holds offset `p`. -/
def chunksAt (b : Buffer) (p : Nat) : List Chunk := b.chunks.dropWhile fun c => c.stop ≤ p

/-- The character at an offset. -/
def charAt (b : Buffer) (p : Nat) : Except ReadError Char := do
  b.checkRetained p
  if b.length ≤ p then .error b.pastEnd
  else
    match b.chunksAt p with
    | [] => .error (.misaligned p)
    | c :: _ =>
      match Text.charAt? c.text (p - c.offset) with
      | some ch => .ok ch
      | none => .error (.misaligned p)

/-- Compare chunks, the first one from offset `p` on, with wanted octets: `none`
at the first difference, else the octets still wanted at the end. -/
def matchChunks (p : Nat) : List Chunk → List UInt8 → Option (List UInt8)
  | [], wanted => some wanted
  | c :: rest, wanted =>
    match Text.matchFrom c.text (p - c.offset) wanted with
    | none => none
    | some [] => some []
    | some (w :: left) => matchChunks c.stop rest (w :: left)

/-- Whether the text from an offset begins with `literal`. A difference is seen
as soon as it is there; an end of the text that agrees so far asks for more. -/
def startsWith (b : Buffer) (p : Nat) (literal : String) : Except ReadError Bool := do
  b.checkRetained p
  match matchChunks p (b.chunksAt p) (Text.octets literal) with
  | none => .ok false
  | some [] => .ok true
  | some (_ :: _) => if b.closed then .ok false else .error .needInput

/-- The pieces of the chunks that lie between `p` and `q`. -/
def pieces (p q : Nat) : List Chunk → Except ReadError String
  | [] => .ok ""
  | c :: rest =>
    if q ≤ c.offset then .ok ""
    else
      let i := max p c.offset - c.offset
      match Text.slice? c.text i (min q c.stop - c.offset) with
      | none => .error (.misaligned (c.offset + i))
      | some s => do return s ++ (← pieces p q rest)

/-- The text between two offsets within the window. -/
def slice (b : Buffer) (p q : Nat) : Except ReadError String :=
  match b.chunksAt p with
  | [] => .error (.misaligned p)
  | c :: rest =>
    if q ≤ c.stop then
      match Text.slice? c.text (p - c.offset) (q - c.offset) with
      | some s => .ok s
      | none => .error (.misaligned p)
    else pieces p q (c :: rest)

/-- The text of at most `n` octets from an offset, as far as there is text. -/
def substr (b : Buffer) (p n : Nat) : Except ReadError String := do
  b.checkRetained p
  let q := min (min (p + n) maxOffset) b.length
  if q ≤ p then .ok "" else b.slice p q

/-- The text of exactly `n` octets from an offset. -/
def substrExact (b : Buffer) (p n : Nat) : Except ReadError String := do
  b.checkRetained p
  let q := min (p + n) maxOffset
  if b.length < q then .error b.pastEnd
  else if n = 0 then .ok ""
  else b.slice p q

/-- The line and column of an offset, both from one; an offset past the end
counts as the end. -/
def lineAndColumn (b : Buffer) (p : Nat) : Except ReadError (Nat × Nat) := do
  b.checkRetained p
  let p := min p b.length
  let c := b.chunks.foldl
    (fun cursor c => cursor.advance ((Text.octets c.text).take (p - c.offset))) b.evicted
  return (c.lines + 1, c.column + 1)

def retained (b : Buffer) : String := String.join (b.chunks.map Chunk.text)

/-- A text without the carriage returns at its end. -/
def trimReturns (s : String) : String :=
  String.ofList (s.toList.reverse.dropWhile (· = '\r')).reverse

/-- The line around an offset, without its end; none when the start of the line
is not kept any more. -/
def lineText (b : Buffer) (p : Nat) : Option String :=
  let p := min p b.length
  if p < b.start then none
  else
    let i := p - b.start
    let octets := Text.octets b.retained
    let before := (octets.take i).reverse.takeWhile (· ≠ Text.newline)
    let after := (octets.drop i).takeWhile (· ≠ Text.newline)
    if before.length = i ∧ 0 < b.evicted.column then none
    else (Text.slice? b.retained (i - before.length) (i + after.length)).map trimReturns

end Buffer

end PegFlow
