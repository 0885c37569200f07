import Mathlib.Analysis.SpecialFunctions.Complex.Arg
import Pushbroom.Proofs.Scalar.Exact

namespace Pushbroom

/-!
# Real numbers as scalars

Over the real numbers the elementary functions are what they stand for, and a turn is `2π`.
The angle of a point is the argument of the complex number at that point.
-/

/-- The functions of real analysis. -/
noncomputable instance Elementary.real : Elementary ℝ where
  turn := Real.pi + Real.pi
  sqrt := Real.sqrt
  sin := Real.sin
  cos := Real.cos
  asin := Real.arcsin
  atan2 y x := Complex.arg ⟨x, y⟩

namespace Elementary

theorem turn_eq : (turn : ℝ) = 2 * Real.pi :=
  (two_mul Real.pi).symm

@[simp]
theorem sin_eq (angle : ℝ) : sin angle = Real.sin angle :=
  rfl

@[simp]
theorem cos_eq (angle : ℝ) : cos angle = Real.cos angle :=
  rfl

@[simp]
theorem asin_eq (x : ℝ) : asin x = Real.arcsin x :=
  rfl

theorem norm_point {x y r : ℝ} (hRadius : 0 ≤ r) (hPoint : x ^ 2 + y ^ 2 = r ^ 2) :
    ‖(⟨x, y⟩ : ℂ)‖ = r := by
  rw [Complex.norm_def, Complex.normSq_mk, ← pow_two, ← pow_two, hPoint, Real.sqrt_sq hRadius]

/-- A point on a circle about the origin is at the angle that `atan2` finds for it. -/
theorem mul_cos_atan2 {x y r : ℝ} (hRadius : 0 ≤ r) (hPoint : x ^ 2 + y ^ 2 = r ^ 2) :
    r * Real.cos (atan2 y x) = x := by
  have hPolar := Complex.norm_mul_cos_arg ⟨x, y⟩
  rwa [norm_point hRadius hPoint] at hPolar

theorem mul_sin_atan2 {x y r : ℝ} (hRadius : 0 ≤ r) (hPoint : x ^ 2 + y ^ 2 = r ^ 2) :
    r * Real.sin (atan2 y x) = y := by
  have hPolar := Complex.norm_mul_sin_arg ⟨x, y⟩
  rwa [norm_point hRadius hPoint] at hPolar

/-- The angle of a point away from the origin, within half a turn of zero, is the one that `atan2`
finds. -/
theorem atan2_polar {r angle : ℝ} (hRadius : 0 < r) (hAngle : angle ∈ Set.Ioc (-Real.pi) Real.pi) :
    atan2 (r * Real.sin angle) (r * Real.cos angle) = angle := by
  have hPoint : (⟨r * Real.cos angle, r * Real.sin angle⟩ : ℂ) =
      r * (Complex.cos angle + Complex.sin angle * Complex.I) := by
    rw [← Complex.ofReal_cos, ← Complex.ofReal_sin]
    apply Complex.ext <;> simp [Complex.cos_ofReal_re, Complex.sin_ofReal_re]
  change Complex.arg ⟨_, _⟩ = angle
  rw [hPoint, Complex.arg_mul_cos_add_sin_mul_I hRadius hAngle]

theorem atan2_origin : atan2 (0 : ℝ) 0 = 0 :=
  Complex.arg_zero

end Elementary

end Pushbroom
