import Pushbroom.Dense.Householder
import Pushbroom.Proofs.Scalar.Real

namespace Pushbroom
namespace Householder

/-!
# Reflections of columns

A reflection `I - beta v vᵀ` undoes itself when its scalar is two over the square of its vector.
The one chosen for a column is of this kind, its scalar lies between one and two, and it leaves
nothing of the column but its first entry, unless the norm of the column is positive and counts
as vanishing.
-/

section Lengths

variable {α : Type} [Scalar α]

theorem length_apply {h : Reflection α} {column : List α}
    (hLength : column.length = h.vector.length) : (h.apply column).length = column.length := by
  rw [Reflection.apply, List.length_zipWith, hLength, min_self]

theorem length_vector_reflection [Elementary α] {column : List α} (hSome : column ≠ []) :
    (reflection column).vector.length = column.length := by
  cases column with
  | nil => exact absurd rfl hSome
  | cons pivot below =>
      simp only [reflection]
      split <;> simp [Reflection.vector]

end Lengths

section Columns

variable {K : Type} [Field K]

/-- The sum of the products of two columns, entry by entry. -/
def inner (u v : List K) : K :=
  (List.zipWith (· * ·) u v).sum

/-- A column less a multiple of another one. -/
def lessMultiple (c : K) (column v : List K) : List K :=
  List.zipWith (fun entry x => entry - c * x) column v

/-- A column of zeros. -/
def zeros (size : ℕ) : List K :=
  List.replicate size 0

@[simp]
theorem inner_nil (v : List K) : inner [] v = 0 :=
  rfl

@[simp]
theorem inner_cons (x y : K) (u v : List K) : inner (x :: u) (y :: v) = x * y + inner u v := by
  simp only [inner, List.zipWith_cons_cons, List.sum_cons]

theorem inner_append {u w : List K} (hLength : u.length = w.length) (v x : List K) :
    inner (u ++ v) (w ++ x) = inner u w + inner v x := by
  rw [inner, List.zipWith_append hLength, List.sum_append]
  rfl

theorem inner_zeros (size : ℕ) (v : List K) : inner (zeros size) v = 0 := by
  induction size generalizing v with
  | zero => rfl
  | succ size ih =>
      cases v with
      | nil => rfl
      | cons y v => rw [zeros, List.replicate_succ, inner_cons, zero_mul, zero_add]; exact ih v

theorem inner_map_div (b : K) (u v : List K) :
    inner (u.map fun entry => entry / b) v = inner u v / b := by
  induction u generalizing v with
  | nil => simp
  | cons x u ih =>
      cases v with
      | nil => simp [inner]
      | cons y v =>
          rw [List.map_cons, inner_cons, inner_cons, ih]
          ring

theorem inner_comm (u v : List K) : inner u v = inner v u := by
  rw [inner, inner, List.zipWith_comm_of_comm]
  exact mul_comm

@[simp]
theorem lessMultiple_cons (c y x : K) (column v : List K) :
    lessMultiple c (y :: column) (x :: v) = (y - c * x) :: lessMultiple c column v :=
  rfl

theorem inner_lessMultiple (c : K) {u column v : List K} (hColumn : column.length = u.length)
    (hVector : v.length = u.length) :
    inner u (lessMultiple c column v) = inner u column - c * inner u v := by
  induction u generalizing column v with
  | nil => simp
  | cons x u ih =>
      obtain ⟨y, column, rfl⟩ := List.exists_cons_of_length_eq_add_one hColumn
      obtain ⟨z, v, rfl⟩ := List.exists_cons_of_length_eq_add_one hVector
      simp only [lessMultiple_cons, inner_cons, ih (Nat.succ.inj hColumn) (Nat.succ.inj hVector)]
      ring

theorem lessMultiple_neg_lessMultiple (c : K) {column v : List K}
    (hLength : column.length = v.length) :
    lessMultiple (-c) (lessMultiple c column v) v = column := by
  induction column generalizing v with
  | nil => rfl
  | cons y column ih =>
      obtain ⟨x, v, rfl⟩ := List.exists_cons_of_length_eq_add_one hLength.symm
      rw [lessMultiple_cons, lessMultiple_cons, ih (Nat.succ.inj hLength)]
      congr 1
      ring

theorem lessMultiple_zero {column v : List K} (hLength : column.length = v.length) :
    lessMultiple 0 column v = column := by
  induction column generalizing v with
  | nil => rfl
  | cons y column ih =>
      obtain ⟨x, v, rfl⟩ := List.exists_cons_of_length_eq_add_one hLength.symm
      rw [lessMultiple_cons, ih (Nat.succ.inj hLength), zero_mul, sub_zero]

theorem lessMultiple_zeros (c : K) (column : List K) :
    lessMultiple c column (zeros column.length) = column := by
  induction column with
  | nil => rfl
  | cons y column ih =>
      rw [zeros, List.length_cons, List.replicate_succ, lessMultiple_cons, mul_zero, sub_zero]
      exact congrArg (y :: ·) ih

theorem lessMultiple_map_div {b : K} (hNonzero : b ≠ 0) (column : List K) :
    lessMultiple b column (column.map fun entry => entry / b) = zeros column.length := by
  induction column with
  | nil => rfl
  | cons y column ih =>
      rw [List.map_cons, lessMultiple_cons, ih, mul_div_cancel₀ y hNonzero, sub_self]
      rfl

variable [LinearOrder K] [IsStrictOrderedRing K]

theorem inner_self_nonneg (u : List K) : 0 ≤ inner u u := by
  rw [inner, List.zipWith_self]
  refine List.sum_nonneg fun square hSquare => ?_
  obtain ⟨entry, _, rfl⟩ := List.mem_map.mp hSquare
  exact mul_self_nonneg entry

theorem eq_zeros_of_inner_self {u : List K} (hZero : inner u u = 0) : u = zeros u.length := by
  induction u with
  | nil => rfl
  | cons x u ih =>
      rw [inner_cons] at hZero
      have hRest := inner_self_nonneg u
      have hFirst := mul_self_nonneg x
      rw [mul_self_eq_zero.mp (by linarith : x * x = 0), ih (by linarith)]
      simp [zeros, List.replicate_succ]

end Columns

section Exact

variable {K : Type} [Field K] [LinearOrder K] [FloorRing K]

theorem apply_eq (h : Reflection K) (column : List K) :
    h.apply column = lessMultiple (h.beta * inner h.vector column) column h.vector := by
  simp only [Reflection.apply, Scalar.sum_eq]
  rfl

theorem apply_zeros {h : Reflection K} {size : ℕ} (hVector : h.vector.length = size) :
    h.apply (zeros size) = zeros size := by
  rw [apply_eq, inner_comm, inner_zeros, mul_zero, lessMultiple_zero]
  rw [zeros, List.length_replicate, hVector]

theorem sumOfSquares_eq (entries : List K) : sumOfSquares entries = inner entries entries := by
  rw [sumOfSquares, Scalar.sum_eq, inner, List.zipWith_self]

/-- A reflection whose scalar fits its vector and lies between one and two. -/
structure Reflection.Proper (h : Reflection K) : Prop where
  fits : h.beta * inner h.vector h.vector = 2
  one_le : 1 ≤ h.beta
  le_two : h.beta ≤ 2

theorem Reflection.Proper.apply_apply {h : Reflection K} (hProper : h.Proper) {column : List K}
    (hLength : column.length = h.vector.length) : h.apply (h.apply column) = column := by
  have hInner : h.beta * inner h.vector (h.apply column) =
      -(h.beta * inner h.vector column) := by
    rw [apply_eq, inner_lessMultiple _ hLength rfl]
    linear_combination (-h.beta * inner h.vector column) * hProper.fits
  rw [apply_eq h (h.apply column), hInner, apply_eq, lessMultiple_neg_lessMultiple _ hLength]

variable [IsStrictOrderedRing K]

theorem sign_cases (x : K) :
    (Scalar.sign x = 1 ∧ |x| = x) ∨ (Scalar.sign x = -1 ∧ |x| = -x) := by
  unfold Scalar.sign
  by_cases hNegative : x < 0
  · exact Or.inr ⟨if_pos (Or.inl hNegative), abs_of_neg hNegative⟩
  · have hInverse : ¬1 / x < 0 := by
      rw [not_lt]
      exact one_div_nonneg.mpr (not_lt.mp hNegative)
    exact Or.inl ⟨if_neg (not_or.mpr ⟨hNegative, hInverse⟩), abs_of_nonneg (not_lt.mp hNegative)⟩

end Exact

/-! ## The reflection of a column -/

noncomputable def columnNorm (column : List ℝ) : ℝ :=
  Elementary.sqrt (sumOfSquares column)

theorem columnNorm_eq (column : List ℝ) : columnNorm column = Real.sqrt (inner column column) := by
  rw [columnNorm, sumOfSquares_eq]
  rfl

theorem columnNorm_mul_self (column : List ℝ) :
    columnNorm column * columnNorm column = inner column column := by
  rw [columnNorm_eq]
  exact Real.mul_self_sqrt (inner_self_nonneg column)

theorem columnNorm_nonneg (column : List ℝ) : 0 ≤ columnNorm column :=
  Real.sqrt_nonneg _

theorem vanishing_pos : (0 : ℝ) < vanishing := by
  norm_num [vanishing]

/-- What the entries below the first one are divided by. -/
noncomputable def divisor (pivot : ℝ) (below : List ℝ) : ℝ :=
  pivot + Scalar.sign pivot * columnNorm (pivot :: below)

variable {pivot : ℝ} {below : List ℝ}

theorem reflection_of_large (hLarge : vanishing < columnNorm (pivot :: below)) :
    reflection (pivot :: below) =
      ⟨2.0 / sumOfSquares (1 :: below.map fun entry => entry / divisor pivot below),
        below.map fun entry => entry / divisor pivot below⟩ :=
  if_pos hLarge

theorem reflection_of_small (hSmall : ¬vanishing < columnNorm (pivot :: below)) :
    reflection (pivot :: below) = ⟨2.0 / 1, zeros below.length⟩ := by
  rw [zeros, ← List.map_const']
  exact if_neg hSmall

/-- The first entry and the norm are added in magnitude. -/
theorem divisor_eq (pivot : ℝ) (below : List ℝ) :
    divisor pivot below * divisor pivot below =
        (columnNorm (pivot :: below) + |pivot|) * (columnNorm (pivot :: below) + |pivot|) ∧
      pivot * divisor pivot below = |pivot| * (columnNorm (pivot :: below) + |pivot|) := by
  unfold divisor
  rcases sign_cases pivot with ⟨hSign, hAbs⟩ | ⟨hSign, hAbs⟩ <;>
    · rw [hSign, hAbs]
      constructor <;> ring

theorem divisor_ne_zero (hLarge : vanishing < columnNorm (pivot :: below)) :
    divisor pivot below ≠ 0 := by
  have hPositive : 0 < columnNorm (pivot :: below) + |pivot| := by
    linarith [vanishing_pos, abs_nonneg pivot]
  intro hZero
  have hSquare := (divisor_eq pivot below).1
  rw [hZero, mul_zero] at hSquare
  exact (mul_pos hPositive hPositive).ne hSquare

/-- The square of the vector of a column that does not vanish. -/
theorem inner_vector_of_large (hLarge : vanishing < columnNorm (pivot :: below)) :
    inner (reflection (pivot :: below)).vector (reflection (pivot :: below)).vector *
      (columnNorm (pivot :: below) + |pivot|) = 2 * columnNorm (pivot :: below) := by
  have hPositive : 0 < columnNorm (pivot :: below) + |pivot| := by
    linarith [vanishing_pos, abs_nonneg pivot]
  have hNorm := columnNorm_mul_self (pivot :: below)
  rw [inner_cons, ← abs_mul_abs_self pivot] at hNorm
  rw [reflection_of_large hLarge, Reflection.vector, inner_cons, inner_map_div, inner_comm,
    inner_map_div, div_div, (divisor_eq pivot below).1]
  field_simp
  linear_combination -hNorm

theorem beta_reflection (column : List ℝ) : (reflection column).beta =
    2 / inner (reflection column).vector (reflection column).vector := by
  have hTwo : (2.0 : ℝ) = 2 := by norm_num
  cases column with
  | nil => simp [reflection, Reflection.vector, hTwo]
  | cons pivot below =>
      by_cases hLarge : vanishing < columnNorm (pivot :: below)
      · rw [reflection_of_large hLarge, sumOfSquares_eq, hTwo]
        rfl
      · rw [reflection_of_small hLarge, Reflection.vector, inner_cons, inner_zeros, hTwo]
        norm_num

theorem one_le_inner_vector (h : Reflection ℝ) : 1 ≤ inner h.vector h.vector := by
  rw [Reflection.vector, inner_cons, one_mul]
  linarith [inner_self_nonneg h.tail]

theorem inner_vector_le_two (column : List ℝ) :
    inner (reflection column).vector (reflection column).vector ≤ 2 := by
  cases column with
  | nil => norm_num [reflection, Reflection.vector]
  | cons pivot below =>
      by_cases hLarge : vanishing < columnNorm (pivot :: below)
      · have hPositive : 0 < columnNorm (pivot :: below) + |pivot| := by
          linarith [vanishing_pos, abs_nonneg pivot]
        refine le_of_mul_le_mul_right ?_ hPositive
        rw [inner_vector_of_large hLarge]
        linarith [abs_nonneg pivot]
      · rw [reflection_of_small hLarge, Reflection.vector, inner_cons, inner_zeros]
        norm_num

theorem reflection_proper (column : List ℝ) : (reflection column).Proper := by
  have hOne := one_le_inner_vector (reflection column)
  have hTwo := inner_vector_le_two column
  have hPositive : 0 < inner (reflection column).vector (reflection column).vector := by linarith
  refine ⟨?_, ?_, ?_⟩
  · rw [beta_reflection, div_mul_cancel₀ _ hPositive.ne']
  · rw [beta_reflection, le_div_iff₀ hPositive]
    linarith
  · rw [beta_reflection, div_le_iff₀ hPositive]
    linarith

/-- Of a column that does not vanish, the multiple of the vector is taken away whose entries
below the first are those of the column. -/
theorem beta_mul_inner_of_large (hLarge : vanishing < columnNorm (pivot :: below)) :
    (reflection (pivot :: below)).beta *
      inner (reflection (pivot :: below)).vector (pivot :: below) = divisor pivot below := by
  have hNonzero := divisor_ne_zero hLarge
  obtain ⟨hSquare, hPivot⟩ := divisor_eq pivot below
  have hFits := (reflection_proper (pivot :: below)).fits
  have hVector := inner_vector_of_large hLarge
  have hNorm := columnNorm_mul_self (pivot :: below)
  rw [inner_cons, ← abs_mul_abs_self pivot] at hNorm
  have hBeta : (reflection (pivot :: below)).beta * columnNorm (pivot :: below) =
      columnNorm (pivot :: below) + |pivot| := by
    linear_combination
      -(reflection (pivot :: below)).beta / 2 * hVector +
        (columnNorm (pivot :: below) + |pivot|) / 2 * hFits
  have hInner : inner (reflection (pivot :: below)).vector (pivot :: below) *
      divisor pivot below =
        columnNorm (pivot :: below) * (columnNorm (pivot :: below) + |pivot|) := by
    rw [reflection_of_large hLarge, Reflection.vector, inner_cons, inner_map_div, one_mul, add_mul,
      div_mul_cancel₀ _ hNonzero]
    linear_combination hPivot - hNorm
  refine mul_right_cancel₀ hNonzero ?_
  linear_combination (reflection (pivot :: below)).beta * hInner - hSquare +
    (columnNorm (pivot :: below) + |pivot|) * hBeta

/-- Nothing is left of a column below its first entry, unless its norm is positive and counts as
vanishing. -/
theorem drop_apply_reflection {column : List ℝ}
    (hNorm : ¬(0 < columnNorm column ∧ columnNorm column ≤ vanishing)) :
    ((reflection column).apply column).drop 1 = zeros (column.length - 1) := by
  cases column with
  | nil => rfl
  | cons pivot below =>
      by_cases hLarge : vanishing < columnNorm (pivot :: below)
      · rw [apply_eq, beta_mul_inner_of_large hLarge, reflection_of_large hLarge,
          Reflection.vector, lessMultiple_cons]
        exact lessMultiple_map_div (divisor_ne_zero hLarge) below
      · have hZero : columnNorm (pivot :: below) = 0 := by
          refine le_antisymm (not_lt.mp fun hPositive => ?_) (columnNorm_nonneg _)
          exact hNorm ⟨hPositive, not_lt.mp hLarge⟩
        have hInner := columnNorm_mul_self (pivot :: below)
        rw [hZero, mul_zero] at hInner
        have hZeros := List.tail_eq_of_cons_eq (eq_zeros_of_inner_self hInner.symm)
        rw [apply_eq, reflection_of_small hLarge, Reflection.vector, lessMultiple_cons]
        exact (lessMultiple_zeros _ below).trans hZeros

end Householder
end Pushbroom
