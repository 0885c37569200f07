import Mathlib.LinearAlgebra.Matrix.Adjugate
import Mathlib.Tactic
import Pushbroom.Geometry.Mat3
import Pushbroom.Proofs.Scalar.Exact

namespace Pushbroom
namespace Mat3

/-!
# Matrices of three rows as matrices

Products, determinants and transposed matrices are those of matrices over `Fin 3`, so the laws
of these hold.  The rotation matrices are closed under products, and each is its own matrix of
cofactors.
-/

variable {K : Type}

/-- The matrix with the same entries, its rows and columns counted from zero. -/
def toMatrix (m : Mat3 K) : Matrix (Fin 3) (Fin 3) K :=
  !![m.row₀.x, m.row₀.y, m.row₀.z;
     m.row₁.x, m.row₁.y, m.row₁.z;
     m.row₂.x, m.row₂.y, m.row₂.z]

theorem toMatrix_injective : Function.Injective (toMatrix : Mat3 K → Matrix (Fin 3) (Fin 3) K) := by
  intro m n hSame
  have hEntry (i j : Fin 3) : m.toMatrix i j = n.toMatrix i j := by rw [hSame]
  ext
  · exact hEntry 0 0
  · exact hEntry 0 1
  · exact hEntry 0 2
  · exact hEntry 1 0
  · exact hEntry 1 1
  · exact hEntry 1 2
  · exact hEntry 2 0
  · exact hEntry 2 1
  · exact hEntry 2 2

@[simp]
theorem toMatrix_transpose (m : Mat3 K) [Scalar K] :
    m.transpose.toMatrix = m.toMatrix.transpose := by
  ext i j
  fin_cases i <;> fin_cases j <;> rfl

variable [Field K] [LinearOrder K] [FloorRing K]

@[simp]
theorem toMatrix_mul (m n : Mat3 K) : (m * n).toMatrix = m.toMatrix * n.toMatrix := by
  ext i j
  rw [Matrix.mul_apply, Fin.sum_univ_three]
  fin_cases i <;> fin_cases j <;> rfl

@[simp]
theorem toMatrix_identity : (identity : Mat3 K).toMatrix = 1 := by
  ext i j
  fin_cases i <;> fin_cases j <;> rfl

@[simp]
theorem toMatrix_adjugate (m : Mat3 K) : m.adjugate.toMatrix = m.toMatrix.adjugate := by
  rw [Matrix.adjugate_fin_three]
  ext i j
  fin_cases i <;> fin_cases j <;> simp [toMatrix, adjugate] <;> ring

theorem det_toMatrix (m : Mat3 K) : m.toMatrix.det = m.det := by
  rw [Matrix.det_fin_three]
  simp [toMatrix, det, adjugate]
  ring

/-! ## Rotation matrices -/

/-- The rows of a rotation matrix are orthonormal, and its determinant is one. -/
structure IsRotation (m : Mat3 K) : Prop where
  orthonormal : m * m.transpose = identity
  det : m.det = 1

theorem isRotation_of_rows {m : Mat3 K} (hNorm₀ : m.row₀.dot m.row₀ = 1)
    (hNorm₁ : m.row₁.dot m.row₁ = 1) (hNorm₂ : m.row₂.dot m.row₂ = 1)
    (hOrthogonal₀₁ : m.row₀.dot m.row₁ = 0) (hOrthogonal₀₂ : m.row₀.dot m.row₂ = 0)
    (hOrthogonal₁₂ : m.row₁.dot m.row₂ = 0) (hDet : m.det = 1) : m.IsRotation where
  orthonormal := by
    have hComm (u v : Vec3 K) : u.dot v = v.dot u := by
      simp only [Vec3.dot]
      ring
    ext
    · exact hNorm₀
    · exact hOrthogonal₀₁
    · exact hOrthogonal₀₂
    · exact (hComm _ _).trans hOrthogonal₀₁
    · exact hNorm₁
    · exact hOrthogonal₁₂
    · exact (hComm _ _).trans hOrthogonal₀₂
    · exact (hComm _ _).trans hOrthogonal₁₂
    · exact hNorm₂
  det := hDet

namespace IsRotation

variable {m n : Mat3 K}

theorem mul_transpose_toMatrix (hRotation : m.IsRotation) :
    m.toMatrix * m.toMatrix.transpose = 1 := by
  rw [← toMatrix_transpose, ← toMatrix_mul, hRotation.orthonormal, toMatrix_identity]

theorem mul (hFirst : m.IsRotation) (hSecond : n.IsRotation) : (m * n).IsRotation where
  orthonormal := by
    apply toMatrix_injective
    rw [toMatrix_mul, toMatrix_transpose, toMatrix_mul, toMatrix_identity, Matrix.transpose_mul]
    calc m.toMatrix * n.toMatrix * (n.toMatrix.transpose * m.toMatrix.transpose)
        = m.toMatrix * (n.toMatrix * n.toMatrix.transpose) * m.toMatrix.transpose := by
          simp only [Matrix.mul_assoc]
      _ = 1 := by
          rw [hSecond.mul_transpose_toMatrix, Matrix.mul_one, hFirst.mul_transpose_toMatrix]
  det := by
    rw [← det_toMatrix, toMatrix_mul, Matrix.det_mul, det_toMatrix, det_toMatrix, hFirst.det,
      hSecond.det, mul_one]

/-- The columns are orthonormal as well. -/
theorem transpose_mul (hRotation : m.IsRotation) : m.transpose * m = identity := by
  apply toMatrix_injective
  rw [toMatrix_mul, toMatrix_transpose, toMatrix_identity]
  exact mul_eq_one_comm.mp hRotation.mul_transpose_toMatrix

/-- Every entry is its own cofactor. -/
theorem adjugate_eq (hRotation : m.IsRotation) : m.adjugate = m.transpose := by
  apply toMatrix_injective
  rw [toMatrix_adjugate, toMatrix_transpose]
  calc m.toMatrix.adjugate
      = m.toMatrix.adjugate * (m.toMatrix * m.toMatrix.transpose) := by
        rw [hRotation.mul_transpose_toMatrix, Matrix.mul_one]
    _ = m.toMatrix.det • m.toMatrix.transpose := by
        rw [← Matrix.mul_assoc, Matrix.adjugate_mul, Matrix.smul_mul, Matrix.one_mul]
    _ = m.toMatrix.transpose := by rw [det_toMatrix, hRotation.det, one_smul]

/-- The four entries outside of the first column and the last row follow from those in them,
unless the corner that both share has magnitude one. -/
theorem inner_entries (hRotation : m.IsRotation) :
    m.row₀.y * (1 - m.row₂.x ^ 2) = -m.row₂.x * m.row₀.x * m.row₂.y - m.row₁.x * m.row₂.z ∧
      m.row₀.z * (1 - m.row₂.x ^ 2) = m.row₁.x * m.row₂.y - m.row₂.x * m.row₀.x * m.row₂.z ∧
      m.row₁.y * (1 - m.row₂.x ^ 2) = m.row₀.x * m.row₂.z - m.row₂.x * m.row₁.x * m.row₂.y ∧
      m.row₁.z * (1 - m.row₂.x ^ 2) = -m.row₀.x * m.row₂.y - m.row₂.x * m.row₁.x * m.row₂.z := by
  have h₀₁ : m.row₁.z * m.row₂.x - m.row₁.x * m.row₂.z = m.row₀.y :=
    congrArg (fun n : Mat3 K => n.row₁.x) hRotation.adjugate_eq
  have h₀₂ : m.row₁.x * m.row₂.y - m.row₁.y * m.row₂.x = m.row₀.z :=
    congrArg (fun n : Mat3 K => n.row₂.x) hRotation.adjugate_eq
  have h₁₁ : m.row₀.x * m.row₂.z - m.row₀.z * m.row₂.x = m.row₁.y :=
    congrArg (fun n : Mat3 K => n.row₁.y) hRotation.adjugate_eq
  have h₁₂ : m.row₀.y * m.row₂.x - m.row₀.x * m.row₂.y = m.row₁.z :=
    congrArg (fun n : Mat3 K => n.row₂.y) hRotation.adjugate_eq
  refine ⟨?_, ?_, ?_, ?_⟩
  · linear_combination -h₀₁ - m.row₂.x * h₁₂
  · linear_combination -h₀₂ + m.row₂.x * h₁₁
  · linear_combination -h₁₁ + m.row₂.x * h₀₂
  · linear_combination -h₁₂ - m.row₂.x * h₀₁

/-- Rotation matrices with the same first column and last row are equal, unless the corner
that both share has magnitude one. -/
theorem eq_of_border (hFirst : m.IsRotation) (hSecond : n.IsRotation)
    (hColumn₀ : m.row₀.x = n.row₀.x) (hColumn₁ : m.row₁.x = n.row₁.x) (hRow : m.row₂ = n.row₂)
    (hCorner : n.row₂.x ^ 2 ≠ 1) : m = n := by
  obtain ⟨hm₀₁, hm₀₂, hm₁₁, hm₁₂⟩ := hFirst.inner_entries
  obtain ⟨hn₀₁, hn₀₂, hn₁₁, hn₁₂⟩ := hSecond.inner_entries
  rw [hColumn₀, hColumn₁, hRow] at hm₀₁ hm₀₂
  rw [hColumn₀, hColumn₁, hRow] at hm₁₁ hm₁₂
  have hCancel : 1 - n.row₂.x ^ 2 ≠ 0 := sub_ne_zero.mpr hCorner.symm
  ext
  · exact hColumn₀
  · exact mul_right_cancel₀ hCancel (hm₀₁.trans hn₀₁.symm)
  · exact mul_right_cancel₀ hCancel (hm₀₂.trans hn₀₂.symm)
  · exact hColumn₁
  · exact mul_right_cancel₀ hCancel (hm₁₁.trans hn₁₁.symm)
  · exact mul_right_cancel₀ hCancel (hm₁₂.trans hn₁₂.symm)
  · rw [hRow]
  · rw [hRow]
  · rw [hRow]

end IsRotation

end Mat3
end Pushbroom
