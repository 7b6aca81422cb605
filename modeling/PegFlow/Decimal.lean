/-
# PegFlow.Decimal — the fewest digits that read back

A finite float stands for every real that rounds to it. `Decimal.shortest`
picks, of the decimals in that interval, one with the fewest digits and among
those the nearest to the float itself; when two are equally near, a `Tie` says
which. All comparisons are exact, over naturals.

A decimal is written in one of two layouts: `positional`, all digits and zeros
around a point, and `scientific`, one digit, a point if more follow, and a
signed power of ten.
-/
namespace PegFlow

set_option autoImplicit false

/-- A finite magnitude, `significand * 2 ^ exponent`. `narrow` marks the powers
of two, whose neighbour below is half as far away as the one above. -/
structure Dyadic where
  significand : Nat
  exponent : Int
  narrow : Bool
deriving DecidableEq, Repr

namespace Dyadic

/-- The magnitude of the float with these bits, the sign left out. The bits are
those of a finite float. -/
def ofBits (bits : UInt64) : Dyadic :=
  let biased := ((bits >>> 52) &&& 0x7FF).toNat
  let fraction := (bits &&& 0xFFFFFFFFFFFFF).toNat
  if biased = 0 then ⟨fraction, -1074, false⟩
  else ⟨0x10000000000000 + fraction, (biased : Int) - 1075, fraction = 0 ∧ 1 < biased⟩

end Dyadic

/-- A positive decimal, `digits * 10 ^ exponent`. -/
structure Decimal where
  digits : Nat
  exponent : Int
deriving DecidableEq, Repr

/-- Which of two equally near decimals is taken. -/
inductive Tie where
  /-- The one whose last digit is even. -/
  | even
  /-- The larger one. -/
  | up
deriving DecidableEq, Repr

namespace Decimal

/-- Compare `a * 10 ^ i` with `b * 2 ^ j`. -/
def compareBinary (a : Nat) (i : Int) (b : Nat) (j : Int) : Ordering :=
  compare (a * Nat.pow 10 i.toNat * Nat.pow 2 (-j).toNat)
    (b * Nat.pow 2 j.toNat * Nat.pow 10 (-i).toNat)

/-- Whether a decimal rounds to `x`: it lies between the midpoints to the two
neighbours of `x`, or on one of them when the significand of `x` is even. -/
def roundsTo (d : Decimal) (x : Dyadic) : Bool :=
  let below := 4 * x.significand - (if x.narrow then 1 else 2)
  let above := 4 * x.significand + 2
  let lower := compareBinary d.digits d.exponent below (x.exponent - 2)
  let upper := compareBinary d.digits d.exponent above (x.exponent - 2)
  let onEnds := x.significand % 2 == 0
  (lower == .gt || (onEnds && lower == .eq)) && (upper == .lt || (onEnds && upper == .eq))

/-- The largest multiple of `10 ^ k` not above `x`, divided by `10 ^ k`. -/
def floorAt (x : Dyadic) (k : Int) : Nat :=
  (x.significand * Nat.pow 2 x.exponent.toNat * Nat.pow 10 (-k).toNat) /
    (Nat.pow 2 (-x.exponent).toNat * Nat.pow 10 k.toNat)

def digitCount (n : Nat) : Nat := (Nat.toDigits 10 n).length

/-- The power of ten just above `x`: the least `k` with `x < 10 ^ k`. Every
positive float is at least `10 ^ (-324)`, so four hundred places show its first
digit. -/
def scale (x : Dyadic) : Int := (digitCount (floorAt x (-400)) : Int) - 400

/-- The nearer of `low` and `low + 1` on the grid of `10 ^ k`. -/
def nearer (tie : Tie) (x : Dyadic) (k : Int) (low : Nat) : Nat :=
  match compareBinary (2 * low + 1) k (2 * x.significand) x.exponent with
  | .lt => low + 1
  | .gt => low
  | .eq =>
    match tie with
    | .even => if low % 2 = 0 then low else low + 1
    | .up => low + 1

/-- A decimal on the grid of `10 ^ k` that rounds to `x`. -/
def onGrid? (tie : Tie) (x : Dyadic) (k : Int) : Option Decimal :=
  let low := floorAt x k
  match roundsTo ⟨low, k⟩ x, roundsTo ⟨low + 1, k⟩ x with
  | true, true => some ⟨nearer tie x k low, k⟩
  | true, false => some ⟨low, k⟩
  | false, true => some ⟨low + 1, k⟩
  | false, false => none

/-- Move trailing zeros of the digits into the exponent, at most `n` of them. -/
def stripZeros : Nat → Decimal → Decimal
  | 0, d => d
  | n + 1, d =>
    if d.digits ≠ 0 ∧ d.digits % 10 = 0 then stripZeros n ⟨d.digits / 10, d.exponent + 1⟩ else d

/-- The shortest decimal for `x`: grids are tried from the leading digit on, one
digit more at a time. Seventeen digits always suffice; should none be found,
the exact value stands in. -/
def shortest (tie : Tie) (x : Dyadic) : Decimal :=
  let k := scale x
  let found := (List.range 17).findSome? fun n => onGrid? tie x (k - (n + 1 : Nat))
  let exact : Decimal :=
    ⟨x.significand * Nat.pow 2 x.exponent.toNat * Nat.pow 5 (-x.exponent).toNat, min x.exponent 0⟩
  stripZeros 400 (found.getD exact)

def digitText (d : Decimal) : List Char := Nat.toDigits 10 d.digits

/-- The power of ten of the first digit. -/
def leading (d : Decimal) : Int := d.exponent + (digitCount d.digits : Int) - 1

/-- All digits with zeros up to the units on one side or from them on the other.
`point` is the text after an integer. -/
def positional (point : List Char) (d : Decimal) : List Char :=
  let ds := d.digitText
  if 0 ≤ d.exponent then ds ++ List.replicate d.exponent.toNat '0' ++ point
  else
    let places := (-d.exponent).toNat
    if places < ds.length then
      ds.take (ds.length - places) ++ '.' :: ds.drop (ds.length - places)
    else '0' :: '.' :: List.replicate (places - ds.length) '0' ++ ds

/-- One digit, the others after a point, and the power of ten with its sign. -/
def scientific (d : Decimal) : List Char :=
  let mantissa :=
    match d.digitText with
    | [] => []
    | [c] => [c]
    | c :: rest => c :: '.' :: rest
  let e := d.leading
  mantissa ++ ['e', if e < 0 then '-' else '+'] ++ Nat.toDigits 10 e.natAbs

end Decimal

def intText (n : Int) : List Char :=
  if n < 0 then '-' :: Nat.toDigits 10 n.natAbs else Nat.toDigits 10 n.natAbs

namespace FloatText

def isNegative (x : Float) : Bool := x.toBits >>> 63 == 1

def magnitude (x : Float) : Dyadic := Dyadic.ofBits x.toBits

def isZero (x : Float) : Bool := x.toBits <<< 1 == 0

/-- A minus sign for a negative float. -/
def withSign (x : Float) (text : List Char) : List Char :=
  if isNegative x then '-' :: text else text

/-- A float for a reader: the shortest digits, positional however many zeros
that takes, and no point after an integer. A tie goes up. -/
def plain (x : Float) : String :=
  if x.isNaN then "NaN"
  else String.ofList <| withSign x <|
    if x.isInf then "inf".toList
    else if isZero x then ['0']
    else (Decimal.shortest .up (magnitude x)).positional []

/-- A finite float as a number of a JSON text: the shortest digits, positional
with at least one place from `1e-5` up to `1e16`, scientific beyond. A tie goes
to the even digit. -/
def numeral (x : Float) : List Char :=
  withSign x <|
    if isZero x then "0.0".toList
    else
      let d := Decimal.shortest .even (magnitude x)
      if -5 ≤ d.leading ∧ d.leading < 16 then d.positional ".0".toList else d.scientific

end FloatText

end PegFlow
