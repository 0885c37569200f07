import Mathlib.LinearAlgebra.Matrix.NonsingularInverse
import Pushbroom.Proofs.Geometry.Acceptance
import Pushbroom.Proofs.Geometry.Rotation

namespace Pushbroom
namespace Mat3

/-!
# Inverses

The cofactors divided by the determinant are the inverse matrix.  A matrix is refused for the
magnitude of its determinant alone, and the inverse, whose determinant is the inverse one, is
refused in turn when that of the matrix was too large.  A rotation matrix has the determinant one
and is its own matrix of cofactors, so it is always accepted and its inverse is its transpose.
-/

variable {K : Type} [Field K] [LinearOrder K] [FloorRing K]

theorem toMatrix_shrink (m : Mat3 K) (k : K) : (m.shrink k).toMatrix = k⁻¹ • m.toMatrix := by
  ext i j
  rw [Matrix.smul_apply, smul_eq_mul, mul_comm, ← div_eq_mul_inv]
  fin_cases i <;> fin_cases j <;> rfl

/-- The cofactors divided by the determinant. -/
theorem toMatrix_adjugate_shrink (m : Mat3 K) :
    (m.adjugate.shrink m.det).toMatrix = m.toMatrix⁻¹ := by
  rw [toMatrix_shrink, toMatrix_adjugate, Matrix.inv_def, Ring.inverse_eq_inv', det_toMatrix]

variable [IsStrictOrderedRing K] {m : Mat3 K}

theorem invert_eq (m : Mat3 K) :
    m.invert = if |m.det| ≤ 1 / 10 ^ 9 then .error .singularMatrix
      else .ok (m.adjugate.shrink m.det) := by
  have hSingular : (singularDeterminant : K) = 1 / 10 ^ 9 := by norm_num [singularDeterminant]
  rw [invert, Scalar.abs_eq, hSingular]

theorem invert_eq_error_iff : m.invert = .error .singularMatrix ↔ |m.det| ≤ 1 / 10 ^ 9 := by
  rw [invert_eq]
  by_cases hSmall : |m.det| ≤ 1 / 10 ^ 9
  · rw [if_pos hSmall]
    exact iff_of_true rfl hSmall
  · rw [if_neg hSmall]
    exact iff_of_false (fun hFails => nomatch hFails) hSmall

/-- The inverse that is found is the inverse matrix. -/
theorem exists_invert_eq (hRegular : 1 / 10 ^ 9 < |m.det|) :
    ∃ n, m.invert = .ok n ∧ n.toMatrix = m.toMatrix⁻¹ := by
  refine ⟨m.adjugate.shrink m.det, ?_, toMatrix_adjugate_shrink m⟩
  rw [invert_eq, if_neg (not_le.mpr hRegular)]

theorem isUnit_det_of_regular (hRegular : 1 / 10 ^ 9 < |m.det|) : IsUnit m.toMatrix.det := by
  rw [det_toMatrix, isUnit_iff_ne_zero, ← abs_pos]
  exact lt_trans (by positivity) hRegular

/-- The inverse of a matrix whose determinant is not too large has an inverse itself, the
matrix. -/
theorem invert_of_toMatrix_eq_inv {n : Mat3 K} (hRegular : 1 / 10 ^ 9 < |m.det|)
    (hLimited : |m.det| < 10 ^ 9) (hInverse : n.toMatrix = m.toMatrix⁻¹) : n.invert = .ok m := by
  have hDet : |n.det| = |m.det|⁻¹ := by
    rw [← det_toMatrix, hInverse, Matrix.det_nonsing_inv, Ring.inverse_eq_inv', det_toMatrix,
      abs_inv]
  have hBack : 1 / 10 ^ 9 < |n.det| := by
    have hPositive : 0 < |m.det| := lt_trans (by positivity) hRegular
    rw [hDet, one_div]
    exact (inv_lt_inv₀ (by positivity) hPositive).mpr hLimited
  obtain ⟨back, hOk, hMatrix⟩ := exists_invert_eq hBack
  rw [hInverse, Matrix.nonsing_inv_nonsing_inv _ (isUnit_det_of_regular hRegular)] at hMatrix
  rw [hOk, toMatrix_injective hMatrix]

theorem IsRotation.invert_eq (hRotation : m.IsRotation) : m.invert = .ok m.transpose := by
  have hShrink : m.transpose.shrink 1 = m.transpose := by
    apply toMatrix_injective
    rw [toMatrix_shrink, inv_one, one_smul]
  rw [Mat3.invert_eq, hRotation.det, hRotation.adjugate_eq, hShrink, if_neg (by norm_num)]

/-- A matrix is refused as singular exactly when its determinant is at most `10⁻⁹` in magnitude.
Every other one gets its inverse, and if its determinant is below `10⁹` as well it is the inverse
of the inverse.  The matrices of angles and of quaternions of norm one get their transposes. -/
theorem invert_inverts :
    (∀ m : Mat3 K, (m.invert = .error .singularMatrix ↔ |m.toMatrix.det| ≤ 1 / 10 ^ 9) ∧
      (1 / 10 ^ 9 < |m.toMatrix.det| → ∃ n, m.invert = .ok n ∧
        m.toMatrix * n.toMatrix = 1 ∧ n.toMatrix * m.toMatrix = 1 ∧
        (|m.toMatrix.det| < 10 ^ 9 → n.invert = .ok m))) ∧
    (∀ angles : Vec3 ℝ,
      (Rotation.ofAngles angles).invert = .ok (Rotation.ofAngles angles).transpose) ∧
    ∀ q : Quaternion K, q.normSquare = 1 → q.toMatrix.invert = .ok q.toMatrix.transpose := by
  refine ⟨fun m => ?_, ?_, ?_⟩
  · rw [det_toMatrix]
    refine ⟨invert_eq_error_iff, fun hRegular => ?_⟩
    obtain ⟨n, hOk, hInverse⟩ := exists_invert_eq hRegular
    refine ⟨n, hOk, ?_, ?_, fun hLimited => invert_of_toMatrix_eq_inv hRegular hLimited hInverse⟩
    · rw [hInverse, Matrix.mul_nonsing_inv _ (isUnit_det_of_regular hRegular)]
    · rw [hInverse, Matrix.nonsing_inv_mul _ (isUnit_det_of_regular hRegular)]
  · exact fun angles => (Rotation.ofAngles_isRotation angles).invert_eq
  · exact fun q hUnit => (Quaternion.isRotation_toMatrix hUnit).invert_eq

/-- A matrix of determinant twenty-five. -/
def uneven : Mat3 ℚ :=
  ⟨⟨2, 0, 1⟩, ⟨1, 3, 0⟩, ⟨0, 1, 4⟩⟩

/-- A thousandth of the identity.  Its determinant is the largest one that is refused. -/
def thousandth : Mat3 ℚ :=
  ⟨⟨1 / 1000, 0, 0⟩, ⟨0, 1 / 1000, 0⟩, ⟨0, 0, 1 / 1000⟩⟩

theorem invert_inverts_uneven :
    thousandth.invert = .error .singularMatrix ∧
      (∃ n, uneven.invert = .ok n ∧ uneven.toMatrix * n.toMatrix = 1 ∧
        n.toMatrix * uneven.toMatrix = 1 ∧ n.invert = .ok uneven) ∧
      ∃ q : Quaternion ℚ, q.normSquare = 1 ∧ q.toMatrix.invert = .ok q.toMatrix.transpose := by
  have hThousandth : |thousandth.toMatrix.det| ≤ 1 / 10 ^ 9 := by
    rw [det_toMatrix]
    norm_num [thousandth, det, adjugate]
  have hUneven : uneven.toMatrix.det = 25 := by
    rw [det_toMatrix]
    norm_num [uneven, det, adjugate]
  have hUnit : (⟨1 / 2, -1 / 2, 1 / 2, 1 / 2⟩ : Quaternion ℚ).normSquare = 1 := by
    norm_num [Quaternion.normSquare]
  obtain ⟨hMatrices, -, hQuaternions⟩ := invert_inverts (K := ℚ)
  obtain ⟨n, hOk, hRight, hLeft, hBack⟩ := (hMatrices uneven).2 (by norm_num [hUneven])
  exact ⟨(hMatrices thousandth).1.mpr hThousandth,
    ⟨n, hOk, hRight, hLeft, hBack (by norm_num [hUneven])⟩, _, hUnit, hQuaternions _ hUnit⟩

end Mat3
end Pushbroom
