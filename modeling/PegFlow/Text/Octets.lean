/-
# PegFlow.Text.Octets — text addressed by UTF-8 offsets

Offsets into a text count the octets of its UTF-8 form. An offset at which a
character starts, or at which the text ends, is a boundary; the other offsets
lie inside a character and denote no place to read from.

`matchFrom` compares the octets of a text with wanted ones and hands back what
is still wanted when the text ends first, so a comparison can go on in the
next piece of a text that came in pieces.
-/
namespace PegFlow.Text

set_option autoImplicit false

/-- The octets of the UTF-8 form. -/
def octets (s : String) : List UInt8 := s.toByteArray.data.toList

/-- Whether an octet continues a character that an earlier octet began. -/
def isContinuation (b : UInt8) : Bool := b &&& 0xC0 == 0x80

def newline : UInt8 := 0x0A

/-- The character that starts at offset `i`. -/
def charAt? (s : String) (i : Nat) : Option Char :=
  (s.pos? ⟨i⟩).bind String.Pos.get?

/-- The text between two boundaries in order. -/
def slice? (s : String) (i j : Nat) : Option String :=
  match s.pos? ⟨i⟩, s.pos? ⟨j⟩ with
  | some p, some q => if i ≤ j then some (String.extract p q) else none
  | _, _ => none

/-- Compare the octets of `s` from offset `i` on with `wanted`: `none` at the
first difference, else the wanted octets that lie beyond the end of `s`. -/
def matchFrom (s : String) : Nat → List UInt8 → Option (List UInt8)
  | _, [] => some []
  | i, b :: rest =>
    if h : (⟨i⟩ : String.Pos.Raw) < s.rawEndPos then
      if s.getUTF8Byte ⟨i⟩ h = b then matchFrom s (i + 1) rest else none
    else some (b :: rest)

def charSize (c : Char) : Nat := c.utf8Size

end PegFlow.Text
