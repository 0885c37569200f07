import Pushbroom.Proofs.Geometry.Quaternion

namespace Pushbroom
namespace Quaternion

/-!
# Matrices that pass the redundancy check

The check reads the squares on the diagonal and the products in the row of the largest of them.
Without a tolerance it accepts a matrix exactly when the components that are found have these
products, where a negative square counts as zero.  The three products outside of that row are
not read, so matrices that are no rotation matrices are accepted as well.  A matrix that is
accepted is a rotation matrix when all of its products are those of the components.
-/

section Products

variable {K : Type} [Field K] [LinearOrder K] [FloorRing K]

/-- The components have the products that are read of a matrix: those with the component of the
largest square, which is positive, and their squares, a negative one counting as zero. -/
structure MatchesRow (q : Quaternion K) (m : Mat3 K) : Prop where
  positive : 0 < q.component (diagonalSquares m).largest
  row : ∀ i, q.component (diagonalSquares m).largest * q.component i =
    product m (diagonalSquares m).largest i
  squares : ∀ i, q.component i * q.component i = max (product m i i) 0

variable [IsStrictOrderedRing K]

/-- The matrix of a quaternion has the products of its components, except for the square of the
first one, which the others leave of one. -/
theorem product_toMatrix (q : Quaternion K) {i j : Component} (hOther : i ≠ .w ∨ j ≠ .w) :
    product q.toMatrix i j = q.component i * q.component j := by
  cases i <;> cases j <;> simp at hOther <;>
    simp only [component, product, diagonalSquares, toMatrix] <;> linarith

/-- The products with one of the last three components determine a matrix. -/
theorem eq_of_product_eq {m n : Mat3 K}
    (hSame : ∀ i j, i ≠ .w ∨ j ≠ .w → product m i j = product n i j) : m = n := by
  have hxx := hSame .x .x (by decide)
  have hyy := hSame .y .y (by decide)
  have hzz := hSame .z .z (by decide)
  have hwx := hSame .w .x (by decide)
  have hwy := hSame .w .y (by decide)
  have hwz := hSame .w .z (by decide)
  have hxy := hSame .x .y (by decide)
  have hxz := hSame .x .z (by decide)
  have hyz := hSame .y .z (by decide)
  simp only [product, diagonalSquares] at hxx hyy hzz hwx hwy hwz hxy hxz hyz
  ext <;> linarith

theorem toMatrix_eq_iff {q : Quaternion K} {m : Mat3 K} :
    q.toMatrix = m ↔
      ∀ i j, i ≠ .w ∨ j ≠ .w → q.component i * q.component j = product m i j := by
  constructor
  · rintro rfl i j hOther
    exact (product_toMatrix q hOther).symm
  · intro hProducts
    exact eq_of_product_eq fun i j hOther =>
      (product_toMatrix q hOther).trans (hProducts i j hOther)

/-- The matrix of a quaternion of norm one is a rotation matrix. -/
theorem isRotation_toMatrix {q : Quaternion K} (hUnit : q.normSquare = 1) :
    q.toMatrix.IsRotation := by
  obtain ⟨w, x, y, z⟩ := q
  simp only [normSquare] at hUnit
  have hTwo : (2.0 : K) = 2 := by norm_num
  apply Mat3.isRotation_of_rows <;> simp only [toMatrix, Vec3.dot, Mat3.det, Mat3.adjugate, hTwo]
  · linear_combination 4 * (y * y + z * z) * hUnit
  · linear_combination 4 * (x * x + z * z) * hUnit
  · linear_combination 4 * (x * x + y * y) * hUnit
  · linear_combination -4 * x * y * hUnit
  · linear_combination -4 * x * z * hUnit
  · linear_combination -4 * y * z * hUnit
  · linear_combination 4 * (x * x + y * y + z * z) * hUnit

theorem Factors.isRotation {q : Quaternion K} {m : Mat3 K} (hFactors : q.Factors m) :
    m.IsRotation := by
  rw [← hFactors.toMatrix_eq]
  exact isRotation_toMatrix hFactors.normSquare_eq

end Products

/-! ## No tolerance -/

theorem disagrees_zero_iff (derived square : ℝ) :
    disagrees 0 derived square = false ↔ derived * derived = max square 0 := by
  have hNonneg : 0 ≤ max square 0 := le_max_right _ _
  rw [disagrees, decide_eq_false_iff_not, not_lt, Scalar.abs_eq, abs_nonpos_iff, sub_eq_zero,
    Scalar.abs_eq, magnitude_eq, ← abs_mul_abs_self derived]
  constructor
  · intro hRoot
    rw [hRoot, Real.mul_self_sqrt hNonneg]
  · intro hSquare
    rw [← hSquare, Real.sqrt_mul_self (abs_nonneg derived)]

/-- What the check accepts is what it reads. -/
theorem ofMatrix_zero_eq_ok_iff {m : Mat3 ℝ} {q : Quaternion ℝ} :
    ofMatrix m 0 = .ok q ↔ q.MatchesRow m := by
  obtain ⟨pivot, hMagnitude, hHalf, hSquare⟩ := exists_pivot m
  have hPositive : 0 < pivot := by linarith
  have hComponent := component_ofPivot hPositive.ne' hSquare
  simp only [ofMatrix_eq_ok_iff hMagnitude hHalf, disagrees_zero_iff, component_diagonalSquares]
  constructor
  · rintro ⟨rfl, hSquares⟩
    have hLargest : (ofPivot m (diagonalSquares m).largest pivot).component
        (diagonalSquares m).largest = pivot := by
      rw [hComponent, ← hSquare, mul_div_cancel_right₀ _ hPositive.ne']
    refine ⟨hLargest.symm ▸ hPositive, fun i => ?_, hSquares⟩
    rw [hLargest, hComponent, mul_div_cancel₀ _ hPositive.ne', product_comm]
  · rintro ⟨hLargestPositive, hRow, hSquares⟩
    have hLargest : q.component (diagonalSquares m).largest = pivot := by
      rcases mul_self_eq_mul_self_iff.mp ((hRow _).trans hSquare.symm) with hSame | hOpposite
      · exact hSame
      · linarith
    refine ⟨ext_component fun i => ?_, hSquares⟩
    rw [hComponent, product_comm, ← hRow, hLargest, mul_div_cancel_left₀ _ hPositive.ne']

theorem isRotation_iff_factors {m : Mat3 ℝ} {q : Quaternion ℝ} (hOk : ofMatrix m 0 = .ok q) :
    m.IsRotation ↔ q.Factors m := by
  refine ⟨fun hRotation => ?_, Factors.isRotation⟩
  obtain ⟨found, hFound, hFactors⟩ := (rankOne_of_isRotation hRotation).exists_ofMatrix le_rfl
  rw [hOk] at hFound
  cases hFound
  exact hFactors

theorem exists_ofMatrix_of_isRotation {m : Mat3 ℝ} (hRotation : m.IsRotation) :
    ∃ q, ofMatrix m 0 = .ok q ∧ q.toMatrix = m := by
  obtain ⟨q, hOk, hFactors⟩ := (rankOne_of_isRotation hRotation).exists_ofMatrix le_rfl
  exact ⟨q, hOk, hFactors.toMatrix_eq⟩

/-- Without a tolerance, a matrix is accepted exactly when the components have the products that
are read.  The quaternion of a matrix that is accepted gives the matrix back exactly when it has
the other products as well, and the matrix is a rotation matrix exactly when, moreover, no square
is negative.  Every rotation matrix is accepted and given back. -/
theorem ofMatrix_accepts_iff (m : Mat3 ℝ) (q : Quaternion ℝ) :
    (ofMatrix m 0 = .ok q ↔ q.MatchesRow m) ∧
      (ofMatrix m 0 = .ok q →
        (q.toMatrix = m ↔
          ∀ i j, i ≠ .w ∨ j ≠ .w → q.component i * q.component j = product m i j) ∧
        (m.IsRotation ↔ q.Factors m) ∧ (m.IsRotation → q.toMatrix = m)) ∧
      (m.IsRotation → ∃ found, ofMatrix m 0 = .ok found ∧ found.toMatrix = m) :=
  ⟨ofMatrix_zero_eq_ok_iff, fun hOk => ⟨toMatrix_eq_iff, isRotation_iff_factors hOk,
    fun hRotation => ((isRotation_iff_factors hOk).mp hRotation).toMatrix_eq⟩,
    exists_ofMatrix_of_isRotation⟩

theorem matchesRow_nextAxis :
    MatchesRow (⟨1 / 2, 1 / 2, 1 / 2, 1 / 2⟩ : Quaternion ℝ) nextAxis := by
  have hLargest : (diagonalSquares nextAxis).largest = .w := by
    norm_num [diagonalSquares, nextAxis, largest]
  constructor
  · norm_num [hLargest, component]
  · intro i
    rw [hLargest]
    cases i <;> norm_num [component, product, diagonalSquares, nextAxis]
  · intro i
    cases i <;> norm_num [component, product, diagonalSquares, nextAxis]

theorem ofMatrix_accepts_iff_nextAxis :
    ofMatrix nextAxis 0 = .ok ⟨1 / 2, 1 / 2, 1 / 2, 1 / 2⟩ ∧ nextAxis.IsRotation ∧
      toMatrix ⟨1 / 2, 1 / 2, 1 / 2, 1 / 2⟩ = nextAxis ∧
      ∃ found, ofMatrix nextAxis 0 = .ok found ∧ found.toMatrix = nextAxis := by
  have hAccepts := ofMatrix_accepts_iff nextAxis ⟨1 / 2, 1 / 2, 1 / 2, 1 / 2⟩
  have hOk := hAccepts.1.mpr matchesRow_nextAxis
  have hRotation := (hAccepts.2.1 hOk).2.1.mpr fun i j => by
    cases i <;> cases j <;> norm_num [component, product, diagonalSquares, nextAxis]
  exact ⟨hOk, hRotation, (hAccepts.2.1 hOk).2.2 hRotation, hAccepts.2.2 hRotation⟩

/-- The first two axes leaned towards each other. -/
noncomputable def leaning : Mat3 ℝ :=
  ⟨⟨1, 0.3, 0⟩, ⟨0.3, 1, 0⟩, ⟨0, 0, 1⟩⟩

/-- The quaternion of no turn is found for axes that are not orthogonal. -/
theorem ofMatrix_leaning :
    ofMatrix leaning 0 = .ok ⟨1, 0, 0, 0⟩ ∧ toMatrix ⟨1, 0, 0, 0⟩ ≠ leaning ∧
      leaning * leaning.transpose ≠ Mat3.identity := by
  have hLargest : (diagonalSquares leaning).largest = .w := by
    norm_num [diagonalSquares, leaning, largest]
  refine ⟨ofMatrix_zero_eq_ok_iff.mpr ⟨?_, ?_, ?_⟩, ?_, ?_⟩
  · norm_num [hLargest, component]
  · intro i
    rw [hLargest]
    cases i <;> norm_num [component, product, diagonalSquares, leaning]
  · intro i
    cases i <;> norm_num [component, product, diagonalSquares, leaning]
  · intro hSame
    have hEntry := congrArg (fun m : Mat3 ℝ => m.row₀.y) hSame
    norm_num [toMatrix, leaning] at hEntry
  · intro hSame
    have hEntry : (1 : ℝ) * 0.3 + 0.3 * 1 + 0 * 0 = 0 :=
      congrArg (fun m : Mat3 ℝ => m.row₀.y) hSame
    norm_num at hEntry

end Quaternion
end Pushbroom
