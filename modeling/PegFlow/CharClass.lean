/-
# PegFlow.CharClass — sets of characters given by ranges

A class is written as closed ranges of characters, in any order and with any
overlap, and may be negated. `CharClass.compile?` turns it into a table: one bit
for each character below U+0080, and for the others disjoint ranges of code
points in increasing order with gaps between them. A range whose ends are in
the wrong order has no meaning and is reported.
-/
namespace PegFlow

set_option autoImplicit false

/-- A closed range of characters. -/
structure CharRange where
  first : Char
  last : Char
deriving DecidableEq, Repr, Inhabited

namespace CharRange

def single (c : Char) : CharRange := ⟨c, c⟩

def isOrdered (r : CharRange) : Bool := r.first.toNat ≤ r.last.toNat

def contains (r : CharRange) (c : Char) : Bool :=
  r.first.toNat ≤ c.toNat && c.toNat ≤ r.last.toNat

end CharRange

/-- A class as written. -/
structure ClassSpec where
  ranges : List CharRange
  negated : Bool
deriving DecidableEq, Repr, Inhabited

/-- A compiled class. Bit `i` of `low` stands for the character `i`; `high` lists
ranges of code points from U+0080 on. -/
structure CharClass where
  low : Nat
  high : List (Nat × Nat)
  negated : Bool
deriving DecidableEq, Repr

namespace CharClass

/-- The first code point without a bit of its own. -/
def lowSize : Nat := 0x80

/-- The bits of one range below `lowSize`. -/
def lowBits (r : CharRange) : Nat :=
  let stop := min (r.last.toNat + 1) lowSize
  let start := min r.first.toNat stop
  (1 <<< stop) - (1 <<< start)

/-- The part of one range from `lowSize` on. -/
def highPart? (r : CharRange) : Option (Nat × Nat) :=
  if lowSize ≤ r.last.toNat then some (max r.first.toNat lowSize, r.last.toNat) else none

/-- Put a range of code points where its start belongs. -/
def insertRange (r : Nat × Nat) : List (Nat × Nat) → List (Nat × Nat)
  | [] => [r]
  | s :: rest => if r.1 ≤ s.1 then r :: s :: rest else s :: insertRange r rest

/-- Join each range of an ordered list with the next one while they touch. -/
def joinFrom (current : Nat × Nat) : List (Nat × Nat) → List (Nat × Nat)
  | [] => [current]
  | r :: rest =>
    if r.1 ≤ current.2 + 1 then joinFrom (current.1, max current.2 r.2) rest
    else current :: joinFrom r rest

/-- Disjoint ranges that cover the same code points, in order. -/
def normalize (ranges : List (Nat × Nat)) : List (Nat × Nat) :=
  match ranges.foldr insertRange [] with
  | [] => []
  | r :: rest => joinFrom r rest

/-- The table of a class, or the first range whose ends are in the wrong order. -/
def compile? (spec : ClassSpec) : Except CharRange CharClass :=
  match spec.ranges.find? fun r => !r.isOrdered with
  | some r => .error r
  | none =>
    .ok {
      low := spec.ranges.foldl (fun bits r => bits ||| lowBits r) 0
      high := normalize (spec.ranges.filterMap highPart?)
      negated := spec.negated }

/-- Whether ordered ranges hold a code point. -/
def search (code : Nat) : List (Nat × Nat) → Bool
  | [] => false
  | r :: rest => if code < r.1 then false else if code ≤ r.2 then true else search code rest

def contains (t : CharClass) (c : Char) : Bool :=
  let code := c.toNat
  (if code < lowSize then t.low.testBit code else search code t.high) != t.negated

end CharClass

end PegFlow
