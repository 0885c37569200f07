import Mathlib.Algebra.Order.Round
import Mathlib.Data.Rat.Cast.OfScientific
import Mathlib.Tactic
import Pushbroom.Scalar.Basic

namespace Pushbroom

/-!
# Ordered fields as scalars

Every ordered field with a floor is a `Scalar`, so what is proved here over all such fields
holds of the rational and of the real numbers.  The operations that are written with
comparisons, for the sake of infinities, NaN and signed zeros, become those of the field.

Rounding is the one operation that needs a word: halves go away from zero, which is the
rounding of the field for numbers that are not negative and its reflection for the others.
-/

variable {K : Type} [Field K] [LinearOrder K] [FloorRing K]

/-- An ordered field with a floor.  All of its numbers are finite. -/
instance Scalar.exact : Scalar K where
  decideLT := inferInstance
  decideLE := inferInstance
  floor? x := some ⌊x⌋

/-- The integer nearest to a number, a half going away from zero. -/
def roundAway (x : K) : ℤ :=
  if x < 0 then -round (-x) else round x

namespace Scalar

theorem isFinite_eq (x : K) : Scalar.isFinite x = true := by
  simp [Scalar.isFinite]

theorem sum_eq (terms : List K) : Scalar.sum terms = terms.sum := by
  have hFold (start : K) : terms.foldl (· + ·) start = start + terms.sum := by
    induction terms generalizing start with
    | nil => simp
    | cons term rest ih => simp [ih, add_assoc]
  rw [Scalar.sum, hFold, neg_zero, zero_add]

theorem maxNum_eq (x y : K) : Scalar.maxNum x y = max x y := by
  simp [Scalar.maxNum, max_def_lt]

theorem minNum_eq (x y : K) : Scalar.minNum x y = min x y := by
  simp [Scalar.minNum, min_comm x y, min_def_lt]

theorem floor_eq (x : K) : Scalar.floor x = (⌊x⌋ : K) :=
  rfl

variable [IsStrictOrderedRing K]

theorem ceil_eq (x : K) : Scalar.ceil x = (⌈x⌉ : K) := by
  rw [Scalar.ceil, floor_eq, Int.floor_neg, Int.cast_neg, neg_neg]

theorem abs_eq (x : K) : Scalar.abs x = |x| := by
  unfold Scalar.abs
  split
  · rename_i hNegative
    rw [abs_of_neg hNegative]
  · rename_i hNonneg
    rw [abs_of_nonneg (not_lt.mp hNonneg)]

theorem toPosition_intCast (k : ℤ) : Scalar.toPosition (k : K) = k.toNat := by
  change ⌊(k : K)⌋.toNat = k.toNat
  rw [Int.floor_intCast]

end Scalar

/-! ## Rounding -/

section Rounding

variable [IsStrictOrderedRing K]

/-- Rounding a half up: the fraction that is cut off is compared with a half. -/
theorem nearestUp?_eq (x : K) : Scalar.nearestUp? x = some (round x) := by
  change some (if x - (⌊x⌋ : K) < 0.5 then ⌊x⌋ else ⌊x⌋ + 1) = some (round x)
  have hHalf : (0.5 : K) = 1 / 2 := by norm_num
  rw [hHalf, round_eq]
  congr 1
  -- the fraction that is cut off, below a half or not, decides on both sides
  have hLow := Int.floor_le x
  have hHigh := Int.lt_floor_add_one x
  split
  · rename_i hBelow
    symm
    rw [Int.floor_eq_iff]
    constructor <;> linarith
  · rename_i hAbove
    symm
    rw [Int.floor_eq_iff]
    push_cast
    constructor <;> linarith

theorem nearest?_eq (x : K) : Scalar.nearest? x = some (roundAway x) := by
  unfold Scalar.nearest? roundAway
  split <;> simp [nearestUp?_eq]

theorem round_eq_roundAway (x : K) : Scalar.round x = (roundAway x : K) := by
  simp [Scalar.round, Scalar.roundWith, nearest?_eq]

theorem abs_sub_roundAway_le (x : K) : |x - roundAway x| ≤ 1 / 2 := by
  unfold roundAway
  split
  · have hReflected := abs_sub_round (-x)
    push_cast
    rwa [show x - -(round (-x) : K) = -(-x - round (-x)) by ring, abs_neg]
  · exact abs_sub_round x

/-- A number nearer than a half to an integer is rounded to it. -/
theorem roundAway_eq_of_abs_sub_lt {x : K} {k : ℤ} (hNear : |x - k| < 1 / 2) :
    roundAway x = k := by
  have hRounded := abs_sub_roundAway_le x
  have hDistance : |((roundAway x - k : ℤ) : K)| < 1 := by
    push_cast
    calc |(roundAway x : K) - k| = |(x - k) - (x - roundAway x)| := by congr 1; ring
      _ ≤ |x - k| + |x - roundAway x| := abs_sub _ _
      _ < 1 := by linarith
  have hZero : roundAway x - k = 0 := by
    rw [← Int.abs_lt_one_iff]
    exact_mod_cast hDistance
  omega

end Rounding

/-! ## Rational numbers -/

/-- Rational stand-ins for the elementary functions, so that whole runs can be evaluated.
The waves are triangular and agree with the sine and the cosine at every quarter turn.  The
angle of a point is the right one when its coordinates have magnitudes that sum to one. -/
instance Elementary.triangular : Elementary ℚ where
  turn := 1
  sqrt := Rat.sqrt
  sin x := 1 - 4 * |x - 1 / 4 - round (x - 1 / 4)|
  cos x := 1 - 4 * |x - round x|
  asin x := x / 4
  atan2 y x := if 0 ≤ x then y / 4 else if y < 0 then (-2 - y) / 4 else (2 - y) / 4

theorem Elementary.triangular_cos_neg (x : ℚ) :
    (Elementary.cos (-x) : ℚ) = Elementary.cos x := by
  change 1 - 4 * |-x - round (-x)| = 1 - 4 * |x - round x|
  rw [abs_sub_round_eq_min, abs_sub_round_eq_min]
  by_cases hInteger : Int.fract x = 0
  · rw [hInteger, Int.fract_neg_eq_zero.mpr hInteger]
  · rw [Int.fract_neg hInteger, sub_sub_cancel, min_comm]

end Pushbroom
