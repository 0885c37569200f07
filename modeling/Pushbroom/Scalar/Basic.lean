namespace Pushbroom

/-!
# Scalars

Every model of this library is computed over a number type that is left open.  A
`Scalar` has the four operations, literals, comparisons and one rounding primitive,
`floor?`; everything else here is built from these.  No law is assumed, so the same
definition can be read over doubles, where it rounds and meets infinities and NaN, and
over an exact ordered field, where its theory lives.

`Elementary` adds the square root, the trigonometric functions and the full turn.  It is
a class of its own because some results hold whatever function stands for the cosine.
-/

/-- A number type with arithmetic, literals, comparisons and a floor.  No law is assumed. -/
class Scalar (α : Type) extends Zero α, One α, Add α, Sub α, Mul α, Div α, Neg α,
    NatCast α, IntCast α, OfScientific α, LT α, LE α, BEq α where
  decideLT (a b : α) : Decidable (a < b)
  decideLE (a b : α) : Decidable (a ≤ b)
  /-- The greatest integer at or below a number; none when the number is not finite. -/
  floor? : α → Option Int

attribute [reducible] Scalar.decideLT Scalar.decideLE

-- a number type with operations of its own reads an expression with those
attribute [instance (50)] Scalar.toZero Scalar.toOne Scalar.toAdd Scalar.toSub Scalar.toMul
  Scalar.toDiv Scalar.toNeg Scalar.toNatCast Scalar.toIntCast Scalar.toOfScientific Scalar.toLT
  Scalar.toLE Scalar.toBEq Scalar.decideLT Scalar.decideLE

/-- Square root, trigonometric functions and the full turn they are periodic by. -/
class Elementary (α : Type) where
  /-- One full turn, in radians. -/
  turn : α
  sqrt : α → α
  /-- Sine of an angle in radians. -/
  sin : α → α
  cos : α → α
  asin : α → α
  /-- `atan2 y x` is the angle of the point `(x, y)` seen from the origin. -/
  atan2 : α → α → α

namespace Scalar

variable {α : Type} [Scalar α]

/-- Only an infinity or a NaN leaves something when it is taken from itself. -/
def isFinite (x : α) : Bool :=
  x - x == 0

def abs (x : α) : α :=
  if x < 0 then -x else x

/-- `-1` for a number whose sign is negative, `1` otherwise.  The inverse of a zero tells
the two signed zeros apart where the number type has them. -/
def sign (x : α) : α :=
  if x < 0 ∨ 1 / x < 0 then -1 else 1

/-- The larger of two numbers; a NaN gives way to the other number. -/
def maxNum (a b : α) : α :=
  if a < b then b else if a == a then a else b

/-- The smaller of two numbers; a NaN gives way to the other number. -/
def minNum (a b : α) : α :=
  if b < a then b else if a == a then a else b

/-- Brings a number into `[low, high]`; a NaN stays. -/
def clamp (low high x : α) : α :=
  if x < low then low else if high < x then high else x

/-- Sum of a list from the left.  It starts from the negative zero, which unlike the
positive one changes no number it is added to. -/
def sum (terms : List α) : α :=
  terms.foldl (· + ·) (-0)

/-! ## Rounding to integers -/

/-- The integer next to a number in the direction of zero. -/
def trunc? (x : α) : Option Int :=
  if x < 0 then (floor? (-x)).map (fun k => -k) else floor? x

/-- The integer nearest to a number that is not negative, a half going up. -/
def nearestUp? (x : α) : Option Int :=
  (floor? x).map fun (k : Int) => if x - (k : α) < 0.5 then k else k + 1

/-- The integer nearest to a number, a half going away from zero. -/
def nearest? (x : α) : Option Int :=
  if x < 0 then (nearestUp? (-x)).map (fun k => -k) else nearestUp? x

/-- A number rounded by `rounding`; a number that is not finite is left as it is. -/
def roundWith (rounding : α → Option Int) (x : α) : α :=
  match rounding x with
  | some k => (k : α)
  | none => x

/-- The greatest integer at or below a number, as a number. -/
def floor (x : α) : α :=
  roundWith floor? x

/-- The least integer at or above a number, as a number. -/
def ceil (x : α) : α :=
  -floor (-x)

/-- The nearest integer, a half going away from zero, as a number. -/
def round (x : α) : α :=
  roundWith nearest? x

/-- The position a number points at: its integer part, zero for a negative number or a
NaN, and past every table for an infinity. -/
def toPosition (x : α) : Nat :=
  match floor? x with
  | some k => k.toNat
  | none => if 0 < x then 0xffffffffffffffff else 0

/-- The signed position at or below a number: zero for a NaN, and past every table, on
the side of its sign, for an infinity. -/
def toOffset (x : α) : Int :=
  match floor? x with
  | some k => k
  | none => if 0 < x then 0x7fffffffffffffff else if x < 0 then -0x8000000000000000 else 0

end Scalar

/-! ## Sizes -/

/-- The number of sizes that sixty-four bits tell apart. -/
def sizeCount : Nat :=
  0x10000000000000000

/-- A size as it is kept.  Beyond the greatest one, counting starts again from zero. -/
def wrapSize (size : Nat) : Nat :=
  size % sizeCount

theorem wrapSize_of_lt {size : Nat} (kept : size < sizeCount) : wrapSize size = size :=
  Nat.mod_eq_of_lt kept

end Pushbroom
