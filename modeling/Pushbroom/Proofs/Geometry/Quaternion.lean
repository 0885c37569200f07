import Pushbroom.Geometry.Quaternion
import Pushbroom.Proofs.Geometry.Matrix
import Pushbroom.Proofs.Scalar.Real

namespace Pushbroom
namespace Quaternion

/-!
# Quaternions of rotation matrices

The entries of the matrix of a quaternion of norm one are sums and differences of the products
of its components, so every product can be read off the matrix.  Read off a rotation matrix,
they form a table of rank one with trace one.  The row of the table through its largest square,
divided by the root of that square, is the quaternion that is found, whichever row that is.
-/

theorem ext_component {α : Type} {p q : Quaternion α}
    (hSame : ∀ i, p.component i = q.component i) : p = q :=
  Quaternion.ext (hSame .w) (hSame .x) (hSame .y) (hSame .z)

/-! ## The largest component -/

/-- A component with its value, or the lowest number in its place, and no component that was seen
before has a larger one. -/
structure Leads {K : Type} [LE K] (lowest : K) (q : Quaternion K) (best : Component × K)
    (seen : List Component) : Prop where
  value : best.2 = q.component best.1 ∨ best.2 = lowest
  greatest : ∀ i ∈ seen, q.component i ≤ best.2

theorem Leads.next {K : Type} [LinearOrder K] {lowest : K} {q : Quaternion K}
    {best : Component × K} {seen : List Component} (hLeads : Leads lowest q best seen)
    (i : Component) :
    Leads lowest q (if best.2 < q.component i then (i, q.component i) else best) (i :: seen) := by
  split
  · rename_i hLarger
    refine ⟨Or.inl rfl, List.forall_mem_cons.mpr ⟨le_rfl, fun j hSeen => ?_⟩⟩
    exact (hLeads.greatest j hSeen).trans hLarger.le
  · rename_i hSmaller
    exact ⟨hLeads.value, List.forall_mem_cons.mpr ⟨not_lt.mp hSmaller, hLeads.greatest⟩⟩

section Products

variable {K : Type} [Field K]

/-- The sum of the squares of the components. -/
def normSquare (q : Quaternion K) : K :=
  q.w * q.w + q.x * q.x + q.y * q.y + q.z * q.z

/-- The quaternion of the same rotation with the other sign. -/
def opposite (q : Quaternion K) : Quaternion K :=
  ⟨-q.w, -q.x, -q.y, -q.z⟩

theorem component_opposite (q : Quaternion K) (i : Component) :
    q.opposite.component i = -q.component i := by
  cases i <;> rfl

variable [LinearOrder K] [FloorRing K]

/-- The product of two components, read off a rotation matrix. -/
def product (m : Mat3 K) : Component → Component → K
  | .w, .w => (diagonalSquares m).w
  | .x, .x => (diagonalSquares m).x
  | .y, .y => (diagonalSquares m).y
  | .z, .z => (diagonalSquares m).z
  | .w, .x | .x, .w => (m.row₂.y - m.row₁.z) / 4.0
  | .w, .y | .y, .w => (m.row₀.z - m.row₂.x) / 4.0
  | .w, .z | .z, .w => (m.row₁.x - m.row₀.y) / 4.0
  | .x, .y | .y, .x => (m.row₀.y + m.row₁.x) / 4.0
  | .x, .z | .z, .x => (m.row₀.z + m.row₂.x) / 4.0
  | .y, .z | .z, .y => (m.row₁.z + m.row₂.y) / 4.0

/-- The components of a quaternion have the products that are read off a matrix. -/
def Factors (q : Quaternion K) (m : Mat3 K) : Prop :=
  ∀ i j, q.component i * q.component j = product m i j

/-- The table of products has rank one: two entries of a column multiply to the entry where
their rows cross and the square in that column. -/
def RankOne (m : Mat3 K) : Prop :=
  ∀ i j k, product m i k * product m j k = product m i j * product m k k

theorem component_diagonalSquares (m : Mat3 K) (i : Component) :
    (diagonalSquares m).component i = product m i i := by
  cases i <;> rfl

theorem product_comm (m : Mat3 K) (i j : Component) : product m i j = product m j i := by
  cases i <;> cases j <;> rfl

theorem Factors.rankOne {q : Quaternion K} {m : Mat3 K} (hFactors : q.Factors m) :
    RankOne m := by
  intro i j k
  simp only [← hFactors _ _]
  ring

/-- The quaternion found for a component is the row of the table through that component. -/
theorem component_ofPivot {m : Mat3 K} {k : Component} {pivot : K} (hPivot : pivot ≠ 0)
    (hSquare : pivot * pivot = product m k k) (i : Component) :
    (ofPivot m k pivot).component i = product m i k / pivot := by
  have hQuarter (x : K) : x / (4.0 * pivot) = x / 4.0 / pivot := (div_div _ _ _).symm
  by_cases hSelf : i = k
  · rw [hSelf, ← hSquare, mul_div_cancel_right₀ _ hPivot]
    cases k <;> rfl
  · cases i <;> cases k <;> first | contradiction | exact hQuarter _

variable [IsStrictOrderedRing K]

/-- Of components that are not all negative, a largest one is found. -/
theorem component_le_largest {q : Quaternion K} {j : Component} (hNonneg : 0 ≤ q.component j)
    (i : Component) : q.component i ≤ q.component q.largest := by
  have hStart : Leads (-1.7976931348623157e308 : K) q (Component.w, -1.7976931348623157e308) [] :=
    ⟨Or.inr rfl, List.forall_mem_nil _⟩
  have hLast := (((hStart.next .w).next .x).next .y).next .z
  have hSeen (i : Component) : i ∈ [Component.z, .y, .x, .w] := by cases i <;> decide
  rcases hLast.value with hValue | hLowest
  · exact (hLast.greatest i (hSeen i)).trans_eq hValue
  · have hBelow := hNonneg.trans (hLast.greatest j (hSeen j))
    rw [hLowest] at hBelow
    exact absurd hBelow (by norm_num)

/-! ## Products of components -/

theorem trace_product (m : Mat3 K) :
    product m .w .w + product m .x .x + product m .y .y + product m .z .z = 1 := by
  simp only [product, diagonalSquares]
  linarith

theorem factors_toMatrix {q : Quaternion K} (hUnit : q.normSquare = 1) :
    q.Factors q.toMatrix := by
  unfold normSquare at hUnit
  intro i j
  cases i <;> cases j <;> simp only [component, product, diagonalSquares, toMatrix] <;> linarith

theorem Factors.normSquare_eq {q : Quaternion K} {m : Mat3 K} (hFactors : q.Factors m) :
    q.normSquare = 1 := by
  have hTrace := trace_product m
  simp only [← hFactors _ _, component] at hTrace
  exact hTrace

theorem Factors.toMatrix_eq {q : Quaternion K} {m : Mat3 K} (hFactors : q.Factors m) :
    q.toMatrix = m := by
  have hxx := hFactors .x .x
  have hyy := hFactors .y .y
  have hzz := hFactors .z .z
  have hwx := hFactors .w .x
  have hwy := hFactors .w .y
  have hwz := hFactors .w .z
  have hxy := hFactors .x .y
  have hxz := hFactors .x .z
  have hyz := hFactors .y .z
  simp only [component, product, diagonalSquares] at hxx hyy hzz hwx hwy hwz hxy hxz hyz
  ext <;> simp only [toMatrix] <;> linarith

/-- Two quaternions with the same products are equal or opposite. -/
theorem Factors.eq_or_eq_opposite {p q : Quaternion K} {m : Mat3 K} (hLeft : p.Factors m)
    (hRight : q.Factors m) : p = q ∨ p = q.opposite := by
  obtain ⟨k, hNonzero⟩ : ∃ k, q.component k ≠ 0 := by
    by_contra hZero
    simp only [not_exists, not_not] at hZero
    have hTrace := trace_product m
    simp only [← hRight _ _, hZero, mul_zero, add_zero, zero_ne_one] at hTrace
  have hSame (i j : Component) :
      p.component i * p.component j = q.component i * q.component j :=
    (hLeft i j).trans (hRight i j).symm
  -- one component that is not zero tells the sign of all the others
  rcases mul_self_eq_mul_self_iff.mp (hSame k k) with hEqual | hOpposite
  · refine Or.inl (ext_component fun i => mul_right_cancel₀ hNonzero ?_)
    rw [← hSame, hEqual]
  · refine Or.inr (ext_component fun i => mul_right_cancel₀ hNonzero ?_)
    rw [component_opposite, neg_mul, ← hSame, hOpposite, mul_neg, neg_neg]

/-! ## Rotation matrices -/

/-- The square of a product is the product of two squares: rows and columns have norm one, and
the entries on the diagonal are their own cofactors. -/
theorem product_mul_self {m : Mat3 K} (hRotation : m.IsRotation) (i j : Component) :
    product m i j * product m i j = product m i i * product m j j := by
  obtain ⟨⟨a, b, c⟩, ⟨d, e, f⟩, ⟨g, h, k⟩⟩ := m
  have hRow₀ : a * a + b * b + c * c = 1 := congrArg (·.row₀.x) hRotation.orthonormal
  have hRow₁ : d * d + e * e + f * f = 1 := congrArg (·.row₁.y) hRotation.orthonormal
  have hRow₂ : g * g + h * h + k * k = 1 := congrArg (·.row₂.z) hRotation.orthonormal
  have hColumn₀ : a * a + d * d + g * g = 1 := congrArg (·.row₀.x) hRotation.transpose_mul
  have hColumn₁ : b * b + e * e + h * h = 1 := congrArg (·.row₁.y) hRotation.transpose_mul
  have hColumn₂ : c * c + f * f + k * k = 1 := congrArg (·.row₂.z) hRotation.transpose_mul
  have h₀₀ : e * k - f * h = a := congrArg (·.row₀.x) hRotation.adjugate_eq
  have h₁₁ : a * k - c * g = e := congrArg (·.row₁.y) hRotation.adjugate_eq
  have h₂₂ : a * e - b * d = k := congrArg (·.row₂.z) hRotation.adjugate_eq
  cases i <;> cases j <;> simp only [product, diagonalSquares] <;> linarith

/-- Two products with one component in common: rows and columns are orthogonal, and the entries
off the diagonal are their own cofactors. -/
theorem product_mul_product {m : Mat3 K} (hRotation : m.IsRotation) {i j k : Component}
    (hij : i ≠ j) (hik : i ≠ k) (hjk : j ≠ k) :
    product m i k * product m j k = product m i j * product m k k := by
  obtain ⟨⟨a, b, c⟩, ⟨d, e, f⟩, ⟨g, h, l⟩⟩ := m
  have hRows₀₁ : a * d + b * e + c * f = 0 := congrArg (·.row₀.y) hRotation.orthonormal
  have hRows₀₂ : a * g + b * h + c * l = 0 := congrArg (·.row₀.z) hRotation.orthonormal
  have hRows₁₂ : d * g + e * h + f * l = 0 := congrArg (·.row₁.z) hRotation.orthonormal
  have hColumns₀₁ : a * b + d * e + g * h = 0 := congrArg (·.row₀.y) hRotation.transpose_mul
  have hColumns₀₂ : a * c + d * f + g * l = 0 := congrArg (·.row₀.z) hRotation.transpose_mul
  have hColumns₁₂ : b * c + e * f + h * l = 0 := congrArg (·.row₁.z) hRotation.transpose_mul
  have h₀₁ : c * h - b * l = d := congrArg (·.row₀.y) hRotation.adjugate_eq
  have h₀₂ : b * f - c * e = g := congrArg (·.row₀.z) hRotation.adjugate_eq
  have h₁₀ : f * g - d * l = b := congrArg (·.row₁.x) hRotation.adjugate_eq
  have h₁₂ : c * d - a * f = h := congrArg (·.row₁.z) hRotation.adjugate_eq
  have h₂₀ : d * h - e * g = c := congrArg (·.row₂.x) hRotation.adjugate_eq
  have h₂₁ : b * g - a * h = f := congrArg (·.row₂.y) hRotation.adjugate_eq
  cases i <;> cases j <;> cases k <;> try contradiction
  all_goals
    simp only [product, diagonalSquares]
    linarith

/-- The table of a rotation matrix has rank one. -/
theorem rankOne_of_isRotation {m : Mat3 K} (hRotation : m.IsRotation) : RankOne m := by
  intro i j k
  by_cases hik : i = k
  · rw [hik, product_comm m j k, mul_comm]
  by_cases hjk : j = k
  · rw [hjk]
  by_cases hij : i = j
  · rw [hij, product_mul_self hRotation]
  · exact product_mul_product hRotation hij hik hjk

/-! ## The row through the largest square -/

/-- The squares have the sum one, so the largest is at least a quarter. -/
theorem quarter_le_largest (m : Mat3 K) :
    1 / 4 ≤ product m (diagonalSquares m).largest (diagonalSquares m).largest := by
  have hTrace := trace_product m
  obtain ⟨j, hNonneg⟩ : ∃ j, 0 ≤ product m j j := by
    by_contra hNegative
    simp only [not_exists, not_le] at hNegative
    linarith [hNegative .w, hNegative .x, hNegative .y, hNegative .z]
  have hLargest (i : Component) :
      product m i i ≤ product m (diagonalSquares m).largest (diagonalSquares m).largest := by
    rw [← component_diagonalSquares, ← component_diagonalSquares]
    rw [← component_diagonalSquares] at hNonneg
    exact component_le_largest hNonneg i
  linarith [hLargest .w, hLargest .x, hLargest .y, hLargest .z]

theorem RankOne.factors_ofPivot {m : Mat3 K} (hRank : RankOne m) {k : Component} {pivot : K}
    (hPivot : pivot ≠ 0) (hSquare : pivot * pivot = product m k k) :
    (ofPivot m k pivot).Factors m := by
  intro i j
  rw [component_ofPivot hPivot hSquare, component_ofPivot hPivot hSquare, div_mul_div_comm,
    hRank, hSquare, mul_div_cancel_right₀]
  rw [← hSquare]
  exact mul_ne_zero hPivot hPivot

end Products

/-! ## Real numbers -/

theorem magnitude_eq (x : ℝ) : magnitude x = Real.sqrt (max x 0) := by
  rw [magnitude, Scalar.maxNum_eq]
  rfl

theorem magnitude_eq_sqrt {x : ℝ} (hNonneg : 0 ≤ x) : magnitude x = Real.sqrt x := by
  rw [magnitude_eq, max_eq_left hNonneg]

theorem disagrees_mul_self {tolerance : ℝ} (hTolerance : 0 ≤ tolerance) (x : ℝ) :
    disagrees tolerance x (x * x) = false := by
  have hZero : Scalar.abs (Scalar.abs x - magnitude (x * x)) = 0 := by
    rw [magnitude_eq_sqrt (mul_self_nonneg x), Real.sqrt_mul_self_eq_abs, Scalar.abs_eq x,
      sub_self, Scalar.abs_eq, abs_zero]
  rw [disagrees, hZero]
  exact decide_eq_false (not_lt.mpr hTolerance)

/-- The root of the largest square is far from zero. -/
theorem exists_pivot (m : Mat3 ℝ) :
    ∃ pivot, magnitude ((diagonalSquares m).component (diagonalSquares m).largest) = pivot ∧
      1 / 2 ≤ pivot ∧
      pivot * pivot = product m (diagonalSquares m).largest (diagonalSquares m).largest := by
  have hQuarter := quarter_le_largest m
  have hNonneg : 0 ≤ product m (diagonalSquares m).largest (diagonalSquares m).largest := by
    linarith
  refine ⟨_, ?_, Real.le_sqrt_of_sq_le ?_, Real.mul_self_sqrt hNonneg⟩
  · rw [component_diagonalSquares, magnitude_eq_sqrt hNonneg]
  · linarith

/-- The quaternion that is found is the row through the largest square, when each of its
components agrees with its own square. -/
theorem ofMatrix_eq_ok_iff {m : Mat3 ℝ} {tolerance pivot : ℝ} {q : Quaternion ℝ}
    (hMagnitude : magnitude ((diagonalSquares m).component (diagonalSquares m).largest) = pivot)
    (hHalf : 1 / 2 ≤ pivot) :
    ofMatrix m tolerance = .ok q ↔ ofPivot m (diagonalSquares m).largest pivot = q ∧
      ∀ i, disagrees tolerance (q.component i) ((diagonalSquares m).component i) = false := by
  have hPivot : ¬4.0 * pivot ≤ epsilon := by
    rw [not_le]
    norm_num [epsilon]
    linarith
  simp only [ofMatrix, hMagnitude, if_neg hPivot]
  constructor
  · intro hOk
    split at hOk
    · cases hOk
    · rename_i hAgrees
      cases hOk
      simp only [Bool.or_eq_true, not_or, Bool.not_eq_true] at hAgrees
      obtain ⟨⟨⟨hw, hx⟩, hy⟩, hz⟩ := hAgrees
      refine ⟨rfl, fun i => ?_⟩
      cases i
      · exact hw
      · exact hx
      · exact hy
      · exact hz
  · rintro ⟨rfl, hAgrees⟩
    have hw := hAgrees .w
    have hx := hAgrees .x
    have hy := hAgrees .y
    have hz := hAgrees .z
    simp only [component] at hw hx hy hz
    simp only [hw, hx, hy, hz, Bool.or_self, Bool.false_eq_true, if_false]

/-- A matrix whose table has rank one is accepted, and its quaternion has the products of the
table. -/
theorem RankOne.exists_ofMatrix {m : Mat3 ℝ} (hRank : RankOne m) {tolerance : ℝ}
    (hTolerance : 0 ≤ tolerance) : ∃ q, ofMatrix m tolerance = .ok q ∧ q.Factors m := by
  obtain ⟨pivot, hMagnitude, hHalf, hSquare⟩ := exists_pivot m
  have hFactors := hRank.factors_ofPivot (by linarith) hSquare
  refine ⟨_, (ofMatrix_eq_ok_iff hMagnitude hHalf).mpr ⟨rfl, fun i => ?_⟩, hFactors⟩
  -- every component is held against the square it is a root of
  rw [component_diagonalSquares, ← hFactors i i]
  exact disagrees_mul_self hTolerance _

/-- With no negative tolerance, every rotation matrix is the matrix of the quaternion of norm
one that is found for it, and for the matrix of a quaternion of norm one the quaternion or its
opposite is found. -/
theorem ofMatrix_inverts_toMatrix (tolerance : ℝ) (hTolerance : 0 ≤ tolerance) :
    (∀ m : Mat3 ℝ, m.IsRotation →
      ∃ q, ofMatrix m tolerance = .ok q ∧ q.normSquare = 1 ∧ q.toMatrix = m) ∧
    ∀ p : Quaternion ℝ, p.normSquare = 1 →
      ofMatrix p.toMatrix tolerance = .ok p ∨ ofMatrix p.toMatrix tolerance = .ok p.opposite := by
  constructor
  · intro m hRotation
    obtain ⟨q, hOk, hFactors⟩ := (rankOne_of_isRotation hRotation).exists_ofMatrix hTolerance
    exact ⟨q, hOk, hFactors.normSquare_eq, hFactors.toMatrix_eq⟩
  · intro p hUnit
    have hProducts := factors_toMatrix hUnit
    obtain ⟨q, hOk, hFactors⟩ := hProducts.rankOne.exists_ofMatrix hTolerance
    rw [hOk]
    exact (hFactors.eq_or_eq_opposite hProducts).imp (congrArg Except.ok) (congrArg Except.ok)

/-- The rotation that moves each axis to the next one.  The four squares are equal. -/
def nextAxis : Mat3 ℝ :=
  ⟨⟨0, 0, 1⟩, ⟨1, 0, 0⟩, ⟨0, 1, 0⟩⟩

theorem ofMatrix_inverts_toMatrix_nextAxis :
    nextAxis.IsRotation ∧
      (∃ q, ofMatrix nextAxis 0 = .ok q ∧ q.normSquare = 1 ∧ q.toMatrix = nextAxis) ∧
      ∃ p : Quaternion ℝ, p.normSquare = 1 ∧
        (ofMatrix p.toMatrix 0 = .ok p ∨ ofMatrix p.toMatrix 0 = .ok p.opposite) := by
  have hRotation : nextAxis.IsRotation := by
    apply Mat3.isRotation_of_rows <;> norm_num [nextAxis, Vec3.dot, Mat3.det, Mat3.adjugate]
  have hUnit : (⟨1 / 2, -1 / 2, 1 / 2, 1 / 2⟩ : Quaternion ℝ).normSquare = 1 := by
    norm_num [normSquare]
  exact ⟨hRotation, (ofMatrix_inverts_toMatrix 0 le_rfl).1 nextAxis hRotation,
    _, hUnit, (ofMatrix_inverts_toMatrix 0 le_rfl).2 _ hUnit⟩

end Quaternion
end Pushbroom
