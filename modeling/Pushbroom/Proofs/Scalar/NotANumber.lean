import Mathlib
import Pushbroom.Scalar.Binary64

namespace Pushbroom
namespace Binary64

/-!
# Not a number

The doubles have one value that is no number.  It comes out of every sum, difference and
quotient that it goes into, and every comparison with it is false.  A test that rejects what
lies on the wrong side of a bound therefore lets it through.

An operation on doubles unpacks its operands, computes an exact result or a rounded one, and
stores that in sixty-four bits again.

`Float.nan` and what is known of it come with the whole of Mathlib and with no part of it, so
the whole is imported here, and nowhere else.
-/

open Float.Model (UnpackedFloat)

/-- What a double stands for: no number, an infinity, a zero or a finite number. -/
def datum (x : Float) : UnpackedFloat :=
  x.toModel.unpack

/-- What is read back of a datum that was stored. -/
def stored (u : UnpackedFloat) : UnpackedFloat :=
  (Float.Model.pack u).unpack

theorem datum_add (x y : Float) :
    datum (x + y) = stored (UnpackedFloat.add .binary64 (datum x) (datum y)) :=
  rfl

theorem datum_sub (x y : Float) :
    datum (x - y) = stored (UnpackedFloat.sub .binary64 (datum x) (datum y)) :=
  rfl

theorem datum_mul (x y : Float) :
    datum (x * y) = stored (UnpackedFloat.mul .binary64 (datum x) (datum y)) :=
  rfl

theorem datum_div (x y : Float) :
    datum (x / y) = stored (UnpackedFloat.div .binary64 (datum x) (datum y)) :=
  rfl

theorem datum_neg (x : Float) : datum (-x) = stored (datum x).neg :=
  rfl

theorem lt_iff (x y : Float) : x < y ↔ (datum x).compare (datum y) = some .lt := by
  change decide (x.toModel < y.toModel) = true ↔ _
  rw [decide_eq_true_iff]
  exact beq_iff_eq

theorem le_iff (x y : Float) : x ≤ y ↔ ((datum x).compare (datum y)).any (·.isLE) = true := by
  change decide (x.toModel ≤ y.toModel) = true ↔ _
  rw [decide_eq_true_iff]
  rfl

theorem isNaN_iff (x : Float) : x.isNaN = true ↔ datum x = .notANumber :=
  UnpackedFloat.isNaN_iff

theorem eq_nan_of_isNaN {x : Float} (hNaN : x.isNaN = true) : x = Float.nan := by
  rwa [Float.isNaN_eq_decide_eq_nan, decide_eq_true_iff] at hNaN

/-! ## Arithmetic -/

@[simp]
theorem stored_notANumber : stored .notANumber = .notANumber :=
  rfl

theorem isNaN_add {x y : Float} (hNaN : x.isNaN = true ∨ y.isNaN = true) :
    (x + y).isNaN = true := by
  simp only [isNaN_iff, datum_add] at hNaN ⊢
  rcases hNaN with hLeft | hRight
  · rw [hLeft]
    simp [UnpackedFloat.add]
  · rw [hRight]
    cases datum x <;> simp [UnpackedFloat.add]

theorem isNaN_sub {x y : Float} (hNaN : x.isNaN = true ∨ y.isNaN = true) :
    (x - y).isNaN = true := by
  simp only [isNaN_iff, datum_sub] at hNaN ⊢
  rcases hNaN with hLeft | hRight
  · rw [hLeft]
    simp [UnpackedFloat.sub]
  · rw [hRight]
    cases datum x <;> simp [UnpackedFloat.sub]

theorem isNaN_mul {x y : Float} (hNaN : x.isNaN = true ∨ y.isNaN = true) :
    (x * y).isNaN = true := by
  simp only [isNaN_iff, datum_mul] at hNaN ⊢
  rcases hNaN with hLeft | hRight
  · rw [hLeft]
    simp [UnpackedFloat.mul]
  · rw [hRight]
    cases datum x <;> simp [UnpackedFloat.mul]

theorem isNaN_div {x y : Float} (hNaN : x.isNaN = true ∨ y.isNaN = true) :
    (x / y).isNaN = true := by
  simp only [isNaN_iff, datum_div] at hNaN ⊢
  rcases hNaN with hLeft | hRight
  · rw [hLeft]
    simp [UnpackedFloat.div]
  · rw [hRight]
    cases datum x <;> simp [UnpackedFloat.div]

/-! ## Comparisons -/

theorem not_lt_of_isNaN {x y : Float} (hNaN : x.isNaN = true ∨ y.isNaN = true) : ¬x < y := by
  simp only [isNaN_iff, lt_iff] at hNaN ⊢
  rcases hNaN with hLeft | hRight
  · rw [hLeft]
    cases datum y <;> simp [UnpackedFloat.compare]
  · rw [hRight]
    cases datum x <;> simp [UnpackedFloat.compare]

/-- What is not below or at zero is above it, or no number. -/
theorem not_le_zero_iff (x : Float) : ¬x ≤ 0 ↔ 0 < x ∨ x.isNaN = true := by
  have hZero : datum 0 = .zero .positive := rfl
  rw [le_iff, lt_iff, isNaN_iff, hZero]
  cases datum x with
  | notANumber => simp [UnpackedFloat.compare]
  | infinity sign => cases sign <;> simp [UnpackedFloat.compare, Ordering.isLE]
  | zero sign => simp [UnpackedFloat.compare, Ordering.isLE]
  | finite sign mantissa exponent hPositive =>
      cases sign <;> simp [UnpackedFloat.compare, Ordering.isLE]

end Binary64
end Pushbroom
