import Pushbroom.Scalar.Basic

namespace Pushbroom

/-!
# Doubles as scalars

The binary64 instance of `Scalar` and `Elementary`.  The floor is read off the sixty-four
bits of a double, so it is exact for every finite value and can be evaluated inside a
proof; the other operations are those of `Float`.
-/

namespace Binary64

/-- A finite double: its value is `mantissa * 2 ^ exponent`, negated when `negative`. -/
structure Parts where
  negative : Bool
  mantissa : Nat
  exponent : Int

/-- The number of mantissas that a field of fifty-two bits can hold. -/
def fractions : Nat :=
  0x10000000000000

/-- The number of values of the exponent field, of eleven bits. -/
def exponents : Nat :=
  0x800

/-- The exponent of the smallest doubles. -/
def leastExponent : Int :=
  -1074

/-- Sign, mantissa and exponent of a double; none for an infinity or a NaN. -/
def parts? (x : Float) : Option Parts :=
  let bits : Nat := x.toBits.toNat
  let negative := decide (exponents * fractions ≤ bits)
  let field : Nat := bits / fractions % exponents
  let fraction : Nat := bits % fractions
  if field = exponents - 1 then none
  else if field = 0 then some ⟨negative, fraction, leastExponent⟩
  else some ⟨negative, fractions + fraction, leastExponent + (field : Int) - 1⟩

/-- The greatest integer at or below the value of `p`. -/
def Parts.floor (p : Parts) : Int :=
  let magnitude : Int := (p.mantissa : Int)
  let signed : Int := if p.negative then -magnitude else magnitude
  if 0 ≤ p.exponent then signed * (Nat.pow 2 p.exponent.toNat : Int)
  else signed / (Nat.pow 2 (-p.exponent).toNat : Int)

end Binary64

instance : Scalar Float where
  natCast := Float.ofNat
  intCast := Float.ofInt
  decideLT := inferInstance
  decideLE := inferInstance
  floor? x := (Binary64.parts? x).map Binary64.Parts.floor

instance : Elementary Float where
  turn := 6.283185307179586
  sqrt := Float.sqrt
  sin := Float.sin
  cos := Float.cos
  asin := Float.asin
  atan2 := Float.atan2

end Pushbroom
