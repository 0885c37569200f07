import Pushbroom.Scalar.Binary64

namespace Pushbroom
namespace Decimal

/-!
# Shortest decimals

The decimal text of a double.  The digits are the fewest that read back as the same
double, and of those the nearest to its value.  They are found on decimal grids, the
multiples of a power of ten, tried from the coarsest down: the first grid with a point
among the reals that round to the double gives the digits.  All comparisons are between
exact integers.

The text is always positional: it has no exponent, and an integral value has no point.
-/

/-- The non negative decimal number `digits * 10 ^ exponent`. -/
structure Number where
  digits : Nat
  exponent : Int

/-- The reals that round to a double, counted in quarters of its last place:
`[low, high] * 2 ^ exponent` about `middle * 2 ^ exponent`.  The ends belong to it when
`closed`. -/
structure Interval where
  low : Nat
  middle : Nat
  high : Nat
  exponent : Int
  closed : Bool

/-- The reals that round to `p`.  Below a power of two the doubles lie twice as dense, so
the lower half of the interval is then half as wide. -/
def Interval.ofParts (p : Binary64.Parts) : Interval where
  low := 4 * p.mantissa -
    (if p.mantissa = Binary64.fractions ∧ Binary64.leastExponent < p.exponent then 1 else 2)
  middle := 4 * p.mantissa
  high := 4 * p.mantissa + 2
  exponent := p.exponent - 2
  closed := p.mantissa % 2 == 0

/-- The point of the grid of multiples of `10 ^ e` that lies in the interval, the one
nearest to its middle when there are two, and the upper one when both are as near. -/
def Interval.gridPoint? (v : Interval) (e : Int) : Option Number :=
  let binary := Nat.pow 2 v.exponent.toNat * Nat.pow 10 (-e).toNat
  let decimal := Nat.pow 10 e.toNat * Nat.pow 2 (-v.exponent).toNat
  let within (c : Nat) : Bool :=
    if v.closed then decide (v.low * binary ≤ c * decimal ∧ c * decimal ≤ v.high * binary)
    else decide (v.low * binary < c * decimal ∧ c * decimal < v.high * binary)
  let below := v.middle * binary / decimal
  let nearer := decide
    (v.middle * binary - below * decimal < (below + 1) * decimal - v.middle * binary)
  if within below && (nearer || !within (below + 1)) then some ⟨below, e⟩
  else if within (below + 1) then some ⟨below + 1, e⟩
  else none

/-- The point of the coarsest grid that has one in the interval. -/
def Interval.shortest (v : Interval) : Number :=
  ((List.range 633).findSome? fun (i : Nat) => v.gridPoint? (308 - (i : Int))).getD ⟨0, 0⟩

/-- Positional text of a decimal number. -/
def Number.text (n : Number) : String :=
  let digits := Nat.toDigits 10 n.digits
  if 0 ≤ n.exponent then
    String.ofList (digits ++ List.replicate n.exponent.toNat '0')
  else
    let places := (-n.exponent).toNat
    let padded := List.replicate (places + 1 - digits.length) '0' ++ digits
    let whole := padded.length - places
    String.ofList (padded.take whole ++ '.' :: padded.drop whole)

/-- Text of a double: shortest, positional, with `NaN`, `inf` and a signed zero. -/
def text (x : Float) : String :=
  match Binary64.parts? x with
  | some p =>
    let magnitude :=
      if p.mantissa = 0 then "0" else (Interval.ofParts p).shortest.text
    if p.negative then "-" ++ magnitude else magnitude
  | none => if x < 0 then "-inf" else if 0 < x then "inf" else "NaN"

end Decimal
end Pushbroom
