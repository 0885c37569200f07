import Pushbroom.Geometry.Vec3
import Pushbroom.Proofs.Scalar.Real

namespace Pushbroom
namespace Vec3

/-!
# Lengths of vectors

Over the real numbers the norm of a vector is its length: it vanishes for the null vector alone, and
what is left of a vector that is divided by it has length one.
-/

theorem norm_sq (v : Vec3 ℝ) : v.norm ^ 2 = v.x ^ 2 + v.y ^ 2 + v.z ^ 2 := by
  have hNonneg : 0 ≤ v.dot v :=
    add_nonneg (add_nonneg (mul_self_nonneg _) (mul_self_nonneg _)) (mul_self_nonneg _)
  have hSquare : v.norm ^ 2 = v.dot v := Real.sq_sqrt hNonneg
  rw [hSquare, dot]
  ring

theorem norm_nonneg (v : Vec3 ℝ) : 0 ≤ v.norm :=
  Real.sqrt_nonneg _

theorem norm_eq {v : Vec3 ℝ} {r : ℝ} (hNonneg : 0 ≤ r)
    (hSum : v.x ^ 2 + v.y ^ 2 + v.z ^ 2 = r ^ 2) : v.norm = r :=
  (sq_eq_sq₀ v.norm_nonneg hNonneg).mp (v.norm_sq.trans hSum)

theorem norm_eq_zero_iff {v : Vec3 ℝ} : v.norm = 0 ↔ v = 0 := by
  constructor
  · intro hNorm
    have hSum := v.norm_sq
    rw [hNorm] at hSum
    have hx := sq_nonneg v.x
    have hy := sq_nonneg v.y
    have hz := sq_nonneg v.z
    apply Vec3.ext <;> exact (pow_eq_zero_iff two_ne_zero).mp (by linarith)
  · rintro rfl
    apply norm_eq le_rfl
    change (0 : ℝ) ^ 2 + 0 ^ 2 + 0 ^ 2 = 0 ^ 2
    norm_num

theorem norm_pos_iff {v : Vec3 ℝ} : 0 < v.norm ↔ v ≠ 0 := by
  rw [lt_iff_le_and_ne, ne_comm, Ne, norm_eq_zero_iff]
  exact and_iff_right v.norm_nonneg

theorem norm_normalize {v : Vec3 ℝ} (hSome : v ≠ 0) : v.normalize.norm = 1 := by
  have hPositive := norm_pos_iff.mpr hSome
  apply norm_eq zero_le_one
  change (v.x / v.norm) ^ 2 + (v.y / v.norm) ^ 2 + (v.z / v.norm) ^ 2 = 1 ^ 2
  rw [div_pow, div_pow, div_pow, ← add_div, ← add_div, ← norm_sq,
    div_self (pow_ne_zero 2 hPositive.ne'), one_pow]

end Vec3
end Pushbroom
