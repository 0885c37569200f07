import Pushbroom.Proofs.Scalar.Real

namespace Pushbroom

/-!
# Numbers with guarded divisions

In a field a number divided by zero is zero, so a computation over a field does not show whether
it divides by zero.  Over guarded numbers it does: a quotient by zero is no number, nor is the
root of a negative number, and what is computed from one that is none is none either.  A
computation whose results are numbers here has come by numbers all the way, and they are those
of the field.
-/

/-- A number of a field, or none, which is what a division by zero gives. -/
inductive Guarded (K : Type) where
  | number (x : K)
  | undefined

namespace Guarded

section Operations

variable {K : Type}

def lift (f : K → K) : Guarded K → Guarded K
  | number x => number (f x)
  | undefined => undefined

def lift₂ (f : K → K → K) : Guarded K → Guarded K → Guarded K
  | number x, number y => number (f x y)
  | _, _ => undefined

/-- A comparison, which holds of numbers only. -/
def Holds (r : K → K → Prop) : Guarded K → Guarded K → Prop
  | number x, number y => r x y
  | _, _ => False

instance decidableHolds (r : K → K → Prop) [DecidableRel r] : DecidableRel (Holds r)
  | number x, number y => inferInstanceAs (Decidable (r x y))
  | number _, undefined => inferInstanceAs (Decidable False)
  | undefined, _ => inferInstanceAs (Decidable False)

variable [Field K] [LinearOrder K] [FloorRing K]

def divide : Guarded K → Guarded K → Guarded K
  | number x, number y => if y = 0 then undefined else number (x / y)
  | _, _ => undefined

def same : Guarded K → Guarded K → Bool
  | number x, number y => x == y
  | _, _ => false

instance : Scalar (Guarded K) where
  zero := number 0
  one := number 1
  add := lift₂ (· + ·)
  sub := lift₂ (· - ·)
  mul := lift₂ (· * ·)
  div := divide
  neg := lift (- ·)
  natCast n := number n
  intCast k := number k
  ofScientific m negative e := number (OfScientific.ofScientific m negative e)
  lt := Holds (· < ·)
  le := Holds (· ≤ ·)
  beq := same
  decideLT := decidableHolds (· < ·)
  decideLE := decidableHolds (· ≤ ·)
  floor?
    | number x => Scalar.floor? x
    | undefined => none

end Operations

noncomputable instance : Elementary (Guarded ℝ) where
  turn := number Elementary.turn
  sqrt
    | number x => if x < 0 then undefined else number (Elementary.sqrt x)
    | undefined => undefined
  sin := lift Elementary.sin
  cos := lift Elementary.cos
  asin := lift Elementary.asin
  atan2 := lift₂ Elementary.atan2

/-! ## Computing with numbers -/

section Numbers

variable {K : Type} [Field K] [LinearOrder K] [FloorRing K]

theorem number_div {x y : K} (hNonzero : y ≠ 0) : number x / number y = number (x / y) :=
  if_neg hNonzero

theorem sum_number (terms : List K) :
    Scalar.sum (terms.map number) = number (Scalar.sum terms) := by
  have hFold (start : K) :
      (terms.map number).foldl (· + ·) (number start) = number (terms.foldl (· + ·) start) := by
    induction terms generalizing start with
    | nil => rfl
    | cons term rest ih => exact ih (start + term)
  exact hFold (-0)

/-- The sign of zero is that of the field, although its inverse is no number. -/
theorem sign_number (x : K) : Scalar.sign (number x) = number (Scalar.sign x) := by
  have hSame : (number x < 0 ∨ 1 / number x < 0) ↔ (x < 0 ∨ 1 / x < 0) := by
    by_cases hZero : x = 0
    · have hInverse : 1 / number x = undefined := if_pos hZero
      rw [hInverse, hZero, div_zero]
      exact Iff.or Iff.rfl ⟨False.elim, fun hLess => lt_irrefl _ hLess⟩
    · have hInverse : 1 / number x = number (1 / x) := number_div hZero
      rw [hInverse]
      exact Iff.rfl
  unfold Scalar.sign
  by_cases hNegative : x < 0 ∨ 1 / x < 0
  · rw [if_pos hNegative, if_pos (hSame.mpr hNegative)]
    rfl
  · rw [if_neg hNegative, if_neg (fun hGuarded => hNegative (hSame.mp hGuarded))]
    rfl

end Numbers

theorem sqrt_number {x : ℝ} (hNonneg : 0 ≤ x) :
    Elementary.sqrt (number x) = number (Elementary.sqrt x) :=
  if_neg (not_lt.mpr hNonneg)

end Guarded
end Pushbroom
