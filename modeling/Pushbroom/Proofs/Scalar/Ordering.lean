import Pushbroom.Proofs.Scalar.Rounding

namespace Pushbroom
namespace Binary64

/-!
# Doubles in order

Two doubles are compared by sign, then by exponent and then by mantissa.  As every mantissa has
full width, unless the exponent is the least one, this is the order of the numbers they stand for.
Infinities take their places beyond all finite numbers, and the two zeros stand for the same one.
-/

open Float.Model (UnpackedFloat)
open Float.Model.UnpackedFloat (Sign packComponents)

/-- The mantissas and exponents of finite doubles. -/
structure Canonical (m : ℕ) (e : ℤ) : Prop where
  width : m < 2 ^ 53
  full : e ≠ -1074 → 2 ^ 52 ≤ m
  least : -1074 ≤ e
  greatest : e ≤ 971

/-- A datum of some double other than NaN. -/
inductive IsNumber : UnpackedFloat → Prop
  | infinity (sign : Sign) : IsNumber (.infinity sign)
  | zero (sign : Sign) : IsNumber (.zero sign)
  | finite (sign : Sign) {m : ℕ} {e : ℤ} (hPositive : 0 < m) (hCanonical : Canonical m e) :
      IsNumber (.finite sign m e hPositive)

def signed (sign : Sign) (magnitude : ℚ) : ℚ :=
  match sign with
  | .positive => magnitude
  | .negative => -magnitude

/-- The first power of two that is too large for a double. -/
def farOut : ℚ :=
  2 ^ 1024

/-- The number a datum stands for.  Infinities are as far out as no finite number is. -/
def value : UnpackedFloat → ℚ
  | .notANumber => 0
  | .infinity sign => signed sign farOut
  | .zero _ => 0
  | .finite sign m e _ => signed sign (m * 2 ^ e)

/-! ## The data of doubles -/

theorem isNumber_datum {x : Float} (hNumber : x.isNaN = false) : IsNumber (datum x) := by
  have hParts := parts?_eq x
  have hNotNaN : datum x ≠ .notANumber := by
    rw [Ne, ← isNaN_iff, hNumber]
    exact Bool.false_ne_true
  generalize datum x = u at hParts hNotNaN
  cases u with
  | notANumber => exact absurd rfl hNotNaN
  | infinity sign => exact .infinity sign
  | zero sign => exact .zero sign
  | finite sign m e hPositive =>
      have hField : x.toBits.toNat / fractions % exponents < exponents := Nat.mod_lt _ (by decide)
      have hFraction : x.toBits.toNat % fractions < fractions := Nat.mod_lt _ (by decide)
      simp only [parts?, partsOf] at hParts
      unfold fractions exponents leastExponent at *
      -- the field of zero has no leading one
      split at hParts
      · cases hParts
      · split at hParts <;> obtain ⟨-, rfl, rfl⟩ := Parts.mk.inj (Option.some.inj hParts)
        · exact .finite sign hPositive ⟨by omega, by omega, by omega, by omega⟩
        · exact .finite sign hPositive ⟨by omega, by omega, by omega, by omega⟩

/-! ## Comparison -/

section Magnitudes

variable {m₁ m₂ : ℕ} {e₁ e₂ : ℤ}

/-- A larger exponent outweighs every mantissa. -/
theorem Canonical.lt_of_exponent_lt (h₁ : Canonical m₁ e₁) (h₂ : Canonical m₂ e₂)
    (hLess : e₁ < e₂) : (m₁ * 2 ^ e₁ : ℚ) < m₂ * 2 ^ e₂ := by
  have hLeast := h₁.least
  have hWidth : (m₁ : ℚ) < 2 ^ 53 := by exact_mod_cast h₁.width
  have hFull : (2 ^ 52 : ℚ) ≤ m₂ := by exact_mod_cast h₂.full (by omega)
  calc (m₁ * 2 ^ e₁ : ℚ) < 2 ^ 53 * 2 ^ e₁ := by gcongr
    _ = 2 ^ 52 * 2 ^ (e₁ + 1) := by rw [zpow_add₀ two_ne_zero]; ring
    _ ≤ m₂ * 2 ^ e₂ := by gcongr <;> [norm_num; omega]

theorem Canonical.compare_eq (h₁ : Canonical m₁ e₁) (h₂ : Canonical m₂ e₂) :
    compare (m₁ * 2 ^ e₁ : ℚ) (m₂ * 2 ^ e₂) = (compare e₁ e₂).then (compare m₁ m₂) := by
  rcases lt_trichotomy e₁ e₂ with hLess | rfl | hMore
  · rw [compare_lt_iff_lt.mpr hLess, Ordering.lt_then, compare_lt_iff_lt]
    exact h₁.lt_of_exponent_lt h₂ hLess
  · rw [compare_eq_iff_eq.mpr rfl, Ordering.eq_then]
    have hScale : (0 : ℚ) < 2 ^ e₁ := by positivity
    rcases lt_trichotomy m₁ m₂ with hLess | rfl | hMore
    · rw [compare_lt_iff_lt.mpr hLess, compare_lt_iff_lt]
      gcongr
    · rw [compare_eq_iff_eq.mpr (rfl : m₁ = m₁), compare_eq_iff_eq]
    · rw [compare_gt_iff_gt.mpr hMore, compare_gt_iff_gt]
      gcongr
  · rw [compare_gt_iff_gt.mpr hMore, Ordering.gt_then, compare_gt_iff_gt]
    exact h₂.lt_of_exponent_lt h₁ hMore

theorem Canonical.magnitude_bounds (h₁ : Canonical m₁ e₁) (hPositive : 0 < m₁) :
    (0 : ℚ) < m₁ * 2 ^ e₁ ∧ (m₁ * 2 ^ e₁ : ℚ) < farOut := by
  have hWidth : (m₁ : ℚ) < 2 ^ 53 := by exact_mod_cast h₁.width
  have hGreatest := h₁.greatest
  refine ⟨by positivity, ?_⟩
  calc (m₁ * 2 ^ e₁ : ℚ) < 2 ^ 53 * 2 ^ e₁ := by gcongr
    _ ≤ 2 ^ 53 * 2 ^ (971 : ℤ) := by gcongr; norm_num
    _ = 2 ^ (53 + 971) := by rw [zpow_ofNat, ← pow_add]

end Magnitudes

theorem farOut_pos : 0 < farOut := by
  unfold farOut
  positivity

theorem compare_infinities (sign other : Sign) :
    compare (signed sign farOut) (signed other farOut) = compare sign other := by
  have hApart : -farOut < farOut := neg_lt_self farOut_pos
  cases sign <;> cases other
  · exact compare_eq_iff_eq.mpr rfl
  · exact compare_lt_iff_lt.mpr hApart
  · exact compare_gt_iff_gt.mpr hApart
  · exact compare_eq_iff_eq.mpr rfl

theorem compare_neg (x y : ℚ) : compare (-x) (-y) = compare y x := by
  rcases lt_trichotomy x y with hLess | rfl | hMore
  · rw [compare_gt_iff_gt.mpr hLess, compare_gt_iff_gt]
    exact neg_lt_neg hLess
  · rw [compare_eq_iff_eq.mpr (rfl : x = x), compare_eq_iff_eq]
  · rw [compare_lt_iff_lt.mpr hMore, compare_lt_iff_lt]
    exact neg_lt_neg hMore

theorem compare_finite {m₁ m₂ : ℕ} {e₁ e₂ : ℤ} (hPositive₁ : 0 < m₁) (hPositive₂ : 0 < m₂)
    (h₁ : Canonical m₁ e₁) (h₂ : Canonical m₂ e₂) (sign other : Sign) :
    some (compare (signed sign (m₁ * 2 ^ e₁)) (signed other (m₂ * 2 ^ e₂))) =
      (UnpackedFloat.finite sign m₁ e₁ hPositive₁).compare (.finite other m₂ e₂ hPositive₂) := by
  have hLeft : (0 : ℚ) < m₁ * 2 ^ e₁ := by positivity
  have hRight : (0 : ℚ) < m₂ * 2 ^ e₂ := by positivity
  cases sign <;> cases other <;> refine congrArg some ?_
  · rw [← h₁.compare_eq h₂, ← Std.OrientedOrd.eq_swap]
    exact compare_neg _ _
  · exact compare_lt_iff_lt.mpr ((neg_lt_zero.mpr hLeft).trans hRight)
  · exact compare_gt_iff_gt.mpr ((neg_lt_zero.mpr hRight).trans hLeft)
  · exact h₁.compare_eq h₂

/-- Data of doubles are compared as the numbers they stand for. -/
theorem IsNumber.compare_eq {u v : UnpackedFloat} (hu : IsNumber u) (hv : IsNumber v) :
    some (compare (value u) (value v)) = u.compare v := by
  have hFar := farOut_pos
  cases hu with
  | infinity sign =>
      cases hv with
      | infinity other => exact congrArg some (compare_infinities sign other)
      | zero other =>
          cases sign <;> simp [UnpackedFloat.compare, value, signed, compare_lt_iff_lt,
            compare_gt_iff_gt, hFar]
      | finite other hPositive hCanonical =>
          obtain ⟨hAbove, hBelow⟩ := hCanonical.magnitude_bounds hPositive
          cases sign <;> cases other <;> simp only [UnpackedFloat.compare, value, signed,
            Option.some.injEq, compare_lt_iff_lt, compare_gt_iff_gt] <;> linarith
  | zero sign =>
      cases hv with
      | infinity other =>
          cases other <;> simp [UnpackedFloat.compare, value, signed, compare_lt_iff_lt,
            compare_gt_iff_gt, hFar]
      | zero other => simp [UnpackedFloat.compare, value]
      | finite other hPositive hCanonical =>
          obtain ⟨hAbove, -⟩ := hCanonical.magnitude_bounds hPositive
          cases other <;> simp only [UnpackedFloat.compare, value, signed, Option.some.injEq,
            compare_lt_iff_lt, compare_gt_iff_gt] <;> linarith
  | finite sign hPositive hCanonical =>
      obtain ⟨hAbove, hBelow⟩ := hCanonical.magnitude_bounds hPositive
      cases hv with
      | infinity other =>
          cases sign <;> cases other <;> simp only [UnpackedFloat.compare, value, signed,
            Option.some.injEq, compare_lt_iff_lt, compare_gt_iff_gt] <;> linarith
      | zero other =>
          cases sign <;> simp only [UnpackedFloat.compare, value, signed, Option.some.injEq,
            compare_lt_iff_lt, compare_gt_iff_gt] <;> linarith
      | finite other hOther hOtherCanonical =>
          exact compare_finite hPositive hOther hCanonical hOtherCanonical sign other

/-! ## Storing what a double stands for -/

theorem stored_small {m : ℕ} (hPositive : 0 < m) (hSmall : m < 2 ^ 52) (sign : Sign) :
    stored (.finite sign m (-1074) hPositive) = .finite sign m (-1074) hPositive := by
  have hLog : ¬m.log2 + 1 = 53 := by
    have := (Nat.log2_lt hPositive.ne').mpr hSmall
    omega
  have hPack : UnpackedFloat.pack .binary64 (.finite sign m (-1074) hPositive) =
      packComponents .binary64 sign 0#11 (BitVec.ofNat 52 m) := by
    change (if m.log2 + 1 = 53 then _ else
      packComponents .binary64 sign 0#11 (BitVec.ofNat 52 m)) = _
    rw [if_neg hLog]
  have hMantissa : (BitVec.ofNat 52 m).toNat = m := by
    rw [BitVec.toNat_ofNat, Nat.mod_eq_of_lt hSmall]
  have hNotZero : BitVec.ofNat 52 m ≠ 0#52 := by
    intro hZero
    have := congrArg BitVec.toNat hZero
    rw [hMantissa] at this
    exact hPositive.ne' this
  change UnpackedFloat.unpack .binary64 (UnpackedFloat.pack .binary64 _) = _
  rw [hPack]
  simp only [UnpackedFloat.unpack, UnpackedFloat.unpackExponent_packComponents,
    UnpackedFloat.unpackMantissa_packComponents, UnpackedFloat.unpackSign_packComponents,
    Sign.ofBitVec_toBitVec]
  rw [if_neg (by decide), if_pos trivial, dif_neg hNotZero]
  congr 1

theorem IsNumber.stored_eq {u : UnpackedFloat} (hu : IsNumber u) : stored u = u := by
  cases hu with
  | infinity sign => exact stored_infinity sign
  | zero sign => cases sign <;> rfl
  | @finite sign m e hPositive hCanonical =>
      by_cases hFull : 2 ^ 52 ≤ m
      · exact stored_finite ⟨hFull, hCanonical.width⟩ hCanonical.least hCanonical.greatest sign
          hPositive
      · obtain rfl : e = -1074 := by
          by_contra hOther
          exact hFull (hCanonical.full hOther)
        exact stored_small hPositive (not_le.mp hFull) sign

theorem IsNumber.neg {u : UnpackedFloat} (hu : IsNumber u) : IsNumber u.neg := by
  cases hu with
  | infinity sign => exact .infinity (-sign)
  | zero sign => exact .zero (-sign)
  | finite sign hPositive hCanonical => exact .finite (-sign) hPositive hCanonical

theorem signed_neg (sign : Sign) (magnitude : ℚ) :
    signed (-sign) magnitude = -signed sign magnitude := by
  cases sign
  · exact (neg_neg magnitude).symm
  · rfl

theorem value_neg (u : UnpackedFloat) : value u.neg = -value u := by
  cases u with
  | notANumber => exact neg_zero.symm
  | infinity sign => exact signed_neg sign farOut
  | zero sign => exact neg_zero.symm
  | finite sign m e _ => exact signed_neg sign _

/-! ## Doubles as numbers -/

/-- The number a double stands for. -/
def number (x : Float) : ℚ :=
  value (datum x)

section Numbers

variable {x y : Float} (hx : x.isNaN = false) (hy : y.isNaN = false)

include hx

theorem number_neg : number (-x) = -number x := by
  rw [number, datum_neg, (isNumber_datum hx).neg.stored_eq, value_neg, number]

theorem isNaN_neg : (-x).isNaN = false := by
  have hNeg := (isNumber_datum hx).neg
  rw [← Bool.not_eq_true, isNaN_iff, datum_neg, hNeg.stored_eq]
  intro hNaN
  rw [hNaN] at hNeg
  cases hNeg

include hy

theorem number_lt_iff : x < y ↔ number x < number y := by
  rw [lt_iff, ← (isNumber_datum hx).compare_eq (isNumber_datum hy), Option.some.injEq,
    compare_lt_iff_lt]
  rfl

theorem number_le_iff : x ≤ y ↔ number x ≤ number y := by
  rw [le_iff, ← (isNumber_datum hx).compare_eq (isNumber_datum hy), Option.any_some,
    Std.LawfulBCmp.isLE_iff_le]
  rfl

omit hy

theorem number_abs : number (Scalar.abs x) = |number x| ∧ (Scalar.abs x).isNaN = false := by
  have hZero : number 0 = 0 := rfl
  have hBelow : x < 0 ↔ number x < 0 := by
    rw [number_lt_iff hx rfl, hZero]
  unfold Scalar.abs
  split
  · rename_i hNegative
    rw [number_neg hx, abs_of_neg (hBelow.mp hNegative)]
    exact ⟨rfl, isNaN_neg hx⟩
  · rename_i hNonneg
    rw [abs_of_nonneg (not_lt.mp (mt hBelow.mpr hNonneg))]
    exact ⟨rfl, hx⟩

end Numbers

end Binary64
end Pushbroom
