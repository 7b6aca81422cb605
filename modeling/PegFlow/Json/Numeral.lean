/-
# PegFlow.Json.Numeral — numbers as written in a JSON text

A numeral is a sign, a whole part without leading zeros, and optionally places
after a point and a power of ten. Its value is an integer when it has neither
places nor power and fits in 64 bits.

Otherwise it is a float, found in two steps. First the digits are gathered into
a significand of 64 bits: digits of the whole part that no longer fit count as
factors of ten, and the places stop at the first digit that does not fit. Then
the significand, rounded to a float, is multiplied or divided by the power of
ten that is left, in steps of at most 308 places. Every step rounds, so the
last digit may differ from the float nearest to the numeral.
-/
import PegFlow.Json

namespace PegFlow.Json

set_option autoImplicit false

/-- A number as written. Digits are numbers below ten; `places` is empty when
there is no point, and `power` holds whether the exponent is negative and its
digits. -/
structure Numeral where
  negative : Bool
  whole : List Nat
  places : List Nat
  power : Option (Bool × List Nat)
deriving DecidableEq, Repr

namespace Numeral

/-- The digits at the start of the text, and the text after them. -/
def spanDigits : List Char → List Nat × List Char
  | [] => ([], [])
  | c :: rest =>
    if c.isDigit then
      let (ds, rest) := spanDigits rest
      ((c.toNat - '0'.toNat) :: ds, rest)
    else ([], c :: rest)

/-- A whole part: one zero, or digits that start with another. -/
def scanWhole (cs : List Char) : Option (List Nat × List Char) :=
  match spanDigits cs with
  | ([], _) => none
  | (0 :: _ :: _, _) => none
  | (ds, rest) => some (ds, rest)

/-- A point with at least one digit after it, or nothing. -/
def scanPlaces : List Char → Option (List Nat × List Char)
  | '.' :: rest =>
    match spanDigits rest with
    | ([], _) => none
    | (ds, rest) => some (ds, rest)
  | rest => some ([], rest)

/-- The digits of an exponent, at least one. -/
def scanPower (negative : Bool) (cs : List Char) : Option (Option (Bool × List Nat) × List Char) :=
  match spanDigits cs with
  | ([], _) => none
  | (ds, rest) => some (some (negative, ds), rest)

/-- An exponent with its mark and sign, or nothing. -/
def scanExponent : List Char → Option (Option (Bool × List Nat) × List Char)
  | c :: rest =>
    if c = 'e' ∨ c = 'E' then
      match rest with
      | '+' :: rest => scanPower false rest
      | '-' :: rest => scanPower true rest
      | rest => scanPower false rest
    else some (none, c :: rest)
  | [] => some (none, [])

/-- A numeral at the start of the text, after its sign, and the text after it. -/
def scan (negative : Bool) (cs : List Char) : Option (Numeral × List Char) := do
  let (whole, rest) ← scanWhole cs
  let (places, rest) ← scanPlaces rest
  let (power, rest) ← scanExponent rest
  return (⟨negative, whole, places, power⟩, rest)

def maxSignificand : Nat := UInt64.size - 1

/-- Append digits to `m` while the result fits; the digits that do not follow. -/
def absorb (m : Nat) : List Nat → Nat × List Nat
  | [] => (m, [])
  | d :: rest => if m * 10 + d ≤ maxSignificand then absorb (m * 10 + d) rest else (m, d :: rest)

def ofDigits (ds : List Nat) : Nat := ds.foldl (fun n d => n * 10 + d) 0

/-- A power of ten up to `10 ^ 308`, rounded to a float. -/
def tenTo (n : Nat) : Float := Float.ofScientific 1 false n

/-- Divide by `10 ^ n`, at most 308 places a step. -/
def divideTen (x : Float) (n : Nat) : Float :=
  if n ≤ 308 then x / tenTo n
  else if x == 0 then x
  else divideTen (x / tenTo 308) (n - 308)
termination_by n

/-- Multiply by `10 ^ n`; nothing when the product is no finite float. -/
def multiplyTen (x : Float) (n : Nat) : Option Float :=
  if n ≤ 308 then
    let y := x * tenTo n
    if y.isInf then none else some y
  else if x == 0 then some x
  else none

/-- The float of a significand and a power of ten. -/
def scaled (m : Nat) (e : Int) : Option Float :=
  let x := m.toUInt64.toFloat
  if 0 ≤ e then multiplyTen x e.toNat else some (divideTen x (-e).toNat)

/-- The largest exponent that is computed with. -/
def maxPower : Nat := 0x7FFFFFFF

/-- The magnitude of a numeral that is not an integer of 64 bits. -/
def magnitude (n : Numeral) : Option Float :=
  let (m, dropped) := absorb 0 n.whole
  let (m, unused) := absorb m n.places
  let e : Int := (dropped.length : Int) - ((n.places.length - unused.length : Nat) : Int)
  match n.power with
  | none => scaled m e
  | some (negative, ds) =>
    let p := ofDigits ds
    if p ≤ maxPower then scaled m (if negative then e - p else e + p)
    else if m = 0 ∨ negative then some 0
    else none

/-- The value of a numeral, `void` when it lies beyond the largest float. -/
def value (n : Numeral) : Json :=
  let m := ofDigits n.whole
  if n.places = [] ∧ n.power = none ∧ m ≤ maxSignificand ∧
      (n.negative = true → m ≠ 0 ∧ m ≤ 0x8000000000000000) then
    .int (if n.negative then -(m : Int) else m)
  else
    match n.magnitude with
    | none => .void
    | some x => .float (if n.negative then -x else x)

end Numeral

end PegFlow.Json
