import Mathlib.Data.List.GetD
import Mathlib.LinearAlgebra.UnitaryGroup
import Pushbroom.Proofs.Dense.Divisions

namespace Pushbroom
namespace Householder

/-!
# The product of an orthogonal and a triangular matrix

Read as matrices, the reflections that a factorization keeps are orthogonal, and their product
times the triangle is the matrix that was factored.
-/

open Matrix (vecMulVec)
open scoped Matrix

/-! ## Reflections as matrices -/

/-- The matrix `I - beta v vᵀ`. -/
noncomputable def reflectionMatrix {rows : ℕ} (beta : ℝ) (v : Fin rows → ℝ) :
    Matrix (Fin rows) (Fin rows) ℝ :=
  1 - beta • vecMulVec v v

theorem reflectionMatrix_mem_orthogonalGroup {rows : ℕ} {beta : ℝ} {v : Fin rows → ℝ}
    (hFits : beta * v ⬝ᵥ v = 2) :
    reflectionMatrix beta v ∈ Matrix.orthogonalGroup (Fin rows) ℝ := by
  have hSymmetric : (reflectionMatrix beta v)ᵀ = reflectionMatrix beta v := by
    rw [reflectionMatrix, Matrix.transpose_sub, Matrix.transpose_one, Matrix.transpose_smul,
      Matrix.transpose_vecMulVec]
  have hSquare : vecMulVec v v * vecMulVec v v = (v ⬝ᵥ v) • vecMulVec v v := by
    rw [Matrix.vecMulVec_mul_vecMulVec, Matrix.vecMulVec_smul]
  have hScalar : beta * beta * v ⬝ᵥ v = beta + beta := by
    rw [mul_assoc, hFits, mul_two]
  rw [Matrix.mem_orthogonalGroup_iff, hSymmetric, reflectionMatrix, sub_mul, one_mul, mul_sub,
    mul_one, Matrix.smul_mul, Matrix.mul_smul, hSquare, smul_smul, smul_smul, hScalar, add_smul]
  abel

/-- A column as a vector. -/
def vectorOf (rows : ℕ) (column : List ℝ) : Fin rows → ℝ :=
  fun i => column.getD i 0

theorem vectorOf_cons (rows : ℕ) (entry : ℝ) (column : List ℝ) :
    vectorOf (rows + 1) (entry :: column) = Fin.cons entry (vectorOf rows column) := by
  funext i
  cases i using Fin.cases <;> rfl

theorem dotProduct_vectorOf {rows : ℕ} {u v : List ℝ} (hLeft : u.length = rows)
    (hRight : v.length = rows) : vectorOf rows u ⬝ᵥ vectorOf rows v = inner u v := by
  induction rows generalizing u v with
  | zero =>
      rw [List.length_eq_zero_iff.mp hLeft]
      rfl
  | succ rows ih =>
      obtain ⟨x, u, rfl⟩ := List.exists_cons_of_length_eq_add_one hLeft
      obtain ⟨y, v, rfl⟩ := List.exists_cons_of_length_eq_add_one hRight
      rw [vectorOf_cons, vectorOf_cons, inner_cons, ← ih (Nat.succ.inj hLeft) (Nat.succ.inj hRight)]
      exact Matrix.cons_dotProduct_cons x _ y _

theorem vectorOf_lessMultiple {rows : ℕ} {column v : List ℝ} (c : ℝ)
    (hColumn : column.length = rows) (hVector : v.length = rows) :
    vectorOf rows (lessMultiple c column v) = vectorOf rows column - c • vectorOf rows v := by
  funext i
  have hLeft : i < column.length := by omega
  have hRight : i < v.length := by omega
  simp [vectorOf, lessMultiple, hLeft, hRight]

theorem reflectionMatrix_mulVec {rows : ℕ} (beta : ℝ) {column v : List ℝ}
    (hColumn : column.length = rows) (hVector : v.length = rows) :
    reflectionMatrix beta (vectorOf rows v) *ᵥ vectorOf rows column =
      vectorOf rows (lessMultiple (beta * inner v column) column v) := by
  rw [vectorOf_lessMultiple _ hColumn hVector, reflectionMatrix, Matrix.sub_mulVec,
    Matrix.one_mulVec, Matrix.smul_mulVec, Matrix.vecMulVec_mulVec,
    dotProduct_vectorOf hVector hColumn]
  simp [smul_smul]

/-- The matrix of a reflection that leaves the first `offset` rows as they are. -/
noncomputable def Reflection.matrix (rows offset : ℕ) (h : Reflection ℝ) :
    Matrix (Fin rows) (Fin rows) ℝ :=
  reflectionMatrix h.beta (vectorOf rows (zeros offset ++ h.vector))

theorem length_take_eq {offset : ℕ} {column : List ℝ} (hOffset : offset ≤ column.length) :
    (zeros offset : List ℝ).length = (column.take offset).length := by
  rw [zeros, List.length_replicate, List.length_take, Nat.min_eq_left hOffset]

theorem inner_zeros_append {offset : ℕ} {column : List ℝ} (hOffset : offset ≤ column.length)
    (v : List ℝ) : inner (zeros offset ++ v) column = inner v (column.drop offset) := by
  conv_lhs => rw [← List.take_append_drop offset column]
  rw [inner_append (length_take_eq hOffset), inner_zeros, zero_add]

theorem lessMultiple_zeros_append (c : ℝ) {offset : ℕ} {column : List ℝ}
    (hOffset : offset ≤ column.length) (v : List ℝ) :
    lessMultiple c column (zeros offset ++ v) =
      column.take offset ++ lessMultiple c (column.drop offset) v := by
  conv_lhs => rw [← List.take_append_drop offset column]
  rw [lessMultiple, List.zipWith_append (length_take_eq hOffset).symm]
  have hTake := lessMultiple_zeros c (column.take offset)
  rw [List.length_take, Nat.min_eq_left hOffset] at hTake
  exact congrArg (· ++ _) hTake

theorem Reflection.matrix_mulVec {rows offset : ℕ} {h : Reflection ℝ} {column : List ℝ}
    (hColumn : column.length = rows) (hOffset : offset ≤ rows)
    (hVector : h.vector.length = rows - offset) :
    h.matrix rows offset *ᵥ vectorOf rows column =
      vectorOf rows (column.take offset ++ h.apply (column.drop offset)) := by
  have hWhole : (zeros offset ++ h.vector).length = rows := by
    rw [List.length_append, zeros, List.length_replicate, hVector]
    omega
  rw [matrix, reflectionMatrix_mulVec _ hColumn hWhole,
    inner_zeros_append (hOffset.trans_eq hColumn.symm),
    lessMultiple_zeros_append _ (hOffset.trans_eq hColumn.symm), apply_eq]

/-- The product of the matrices of reflections applies them to a column, the first of them to
the rows from `offset` on. -/
theorem prod_matrix_mulVec {rows offset : ℕ} {hs : List (Reflection ℝ)}
    (hStaircase : Staircase (rows - offset) hs) (hOffset : offset ≤ rows) {column : List ℝ}
    (hColumn : column.length = rows) :
    (hs.mapIdx fun k h => h.matrix rows (offset + k)).prod *ᵥ vectorOf rows column =
      vectorOf rows (column.take offset ++ applyAll hs (column.drop offset)) := by
  induction hs generalizing offset column with
  | nil =>
      rw [List.mapIdx_nil, List.prod_nil, Matrix.one_mulVec, applyAll, List.take_append_drop]
  | cons h hs ih =>
      obtain ⟨hVector, hRest⟩ := hStaircase
      rw [Nat.sub_sub] at hRest
      have hBelow : offset + 1 ≤ rows := by
        have hPositive : 0 < rows - offset := hVector ▸ Nat.succ_pos _
        omega
      have hShift : (fun k (h : Reflection ℝ) => h.matrix rows (offset + (k + 1))) =
          fun k h => h.matrix rows (offset + 1 + k) := by
        funext k h
        rw [Nat.add_assoc, Nat.add_comm 1 k]
      have hLength : (column.take (offset + 1) ++
          applyAll hs (column.drop (offset + 1))).length = rows := by
        rw [List.length_append, hRest.length_applyAll (by rw [List.length_drop, hColumn]),
          List.length_take, hColumn]
        omega
      rw [List.mapIdx_cons, List.prod_cons, hShift, ← Matrix.mulVec_mulVec, ih hRest hBelow hColumn,
        Nat.add_zero, Reflection.matrix_mulVec hLength hOffset hVector, applyAll]
      have hHead : offset ≤ (column.take (offset + 1)).length := by
        rw [List.length_take, hColumn]
        omega
      rw [List.take_append_of_le_length hHead, List.drop_append_of_le_length hHead,
        List.take_take, List.drop_take, List.drop_drop, Nat.min_eq_left (Nat.le_succ offset),
        Nat.add_sub_cancel_left]

/-! ## Matrices in a buffer -/

/-- The matrix that a buffer holds column by column. -/
def storedMatrix (rows columns : ℕ) (buffer : Array ℝ) : Matrix (Fin rows) (Fin columns) ℝ :=
  Matrix.of fun i j => buffer.getD (j * rows + i) 0

/-- The triangle on and above the diagonal of the matrix in a buffer. -/
noncomputable def storedTriangle (rows columns : ℕ) (buffer : Array ℝ) :
    Matrix (Fin rows) (Fin columns) ℝ :=
  Matrix.of fun i j => if i.val ≤ j.val then storedMatrix rows columns buffer i j else 0

/-- The vector whose entries after a first one, which is one, are kept below the diagonal in a
column of the matrix in a buffer. -/
noncomputable def storedVector (rows columns : ℕ) (buffer : Array ℝ) (j : Fin columns) :
    Fin rows → ℝ :=
  fun i =>
    if i.val < j.val then 0
    else if i.val = j.val then 1
    else storedMatrix rows columns buffer i j

/-- The matrix `I - beta v vᵀ` of the reflection kept for a column. -/
noncomputable def storedReflection (rows columns : ℕ) (betas : List ℝ) (buffer : Array ℝ)
    (j : Fin columns) : Matrix (Fin rows) (Fin rows) ℝ :=
  reflectionMatrix (betas.getD j 0) (storedVector rows columns buffer j)

theorem getD_zeros (size i : ℕ) : (zeros size : List ℝ).getD i 0 = 0 := by
  rw [zeros, List.getD_eq_getElem?_getD, List.getElem?_replicate]
  split <;> rfl

theorem getD_zeros_append (j i : ℕ) (column : List ℝ) :
    (zeros j ++ 1 :: column.drop (j + 1)).getD i 0 =
      if i < j then 0 else if i = j then 1 else column.getD i 0 := by
  have hLength : (zeros j : List ℝ).length = j := List.length_replicate
  rcases lt_trichotomy i j with hAbove | hDiagonal | hBelow
  · rw [List.getD_append _ _ _ _ (hAbove.trans_eq hLength.symm), getD_zeros, if_pos hAbove]
  · rw [List.getD_append_right _ _ _ _ (by omega), hLength, hDiagonal, Nat.sub_self,
      if_neg (lt_irrefl j), if_pos rfl, List.getD_cons_zero]
  · obtain ⟨k, rfl⟩ := Nat.exists_eq_add_of_lt hBelow
    have hIndex : j + k + 1 - j = k + 1 := by omega
    rw [List.getD_append_right _ _ _ _ (by omega), hLength, hIndex, List.getD_cons_succ,
      if_neg (by omega), if_neg (by omega)]
    simp only [List.getD_eq_getElem?_getD, List.getElem?_drop]
    congr 2
    omega

theorem getD_take_append_zeros (k i size : ℕ) (column : List ℝ) :
    (column.take (k + 1) ++ zeros size).getD i 0 = if i ≤ k then column.getD i 0 else 0 := by
  rcases Nat.lt_or_ge i (column.take (k + 1)).length with hTaken | hBeyond
  · have hUpper : i < k + 1 := hTaken.trans_le (List.length_take_le _ _)
    rw [List.getD_append _ _ _ _ hTaken, if_pos (Nat.le_of_lt_succ hUpper)]
    simp only [List.getD_eq_getElem?_getD, List.getElem?_take, if_pos hUpper]
  · rw [List.getD_append_right _ _ _ _ hBeyond, getD_zeros]
    split
    · rename_i hUpper
      rw [List.length_take] at hBeyond
      rw [List.getD_eq_default _ _ (by omega)]
    · rfl

theorem getD_flatten {rows : ℕ} {columns : List (List ℝ)}
    (hLengths : ∀ column ∈ columns, column.length = rows) (j : ℕ) {i : ℕ} (hRow : i < rows) :
    columns.flatten.getD (j * rows + i) 0 = (columns.getD j []).getD i 0 := by
  induction columns generalizing j with
  | nil => simp
  | cons column columns ih =>
      obtain ⟨hLength, hOthers⟩ := List.forall_mem_cons.mp hLengths
      rw [List.flatten_cons]
      cases j with
      | zero =>
          rw [Nat.zero_mul, Nat.zero_add, List.getD_append _ _ _ _ (hRow.trans_eq hLength.symm)]
          rfl
      | succ j =>
          have hBeyond : column.length ≤ (j + 1) * rows + i := by
            rw [hLength, Nat.succ_mul]
            omega
          have hShift : (j + 1) * rows + i - column.length = j * rows + i := by
            rw [hLength, Nat.succ_mul]
            omega
          rw [List.getD_append_right _ _ _ _ hBeyond, hShift, ih hOthers]
          rfl

theorem storedMatrix_flatten {rows size : ℕ} {columns : List (List ℝ)}
    (hLengths : ∀ column ∈ columns, column.length = rows) (i : Fin rows) (j : Fin size) :
    storedMatrix rows size columns.flatten.toArray i j = (columns.getD j []).getD i 0 := by
  rw [← getD_flatten hLengths j i.isLt]
  simp [storedMatrix]

/-! ## The factored matrix -/

variable {rows : ℕ} {columns : List (List ℝ)}

/-- The reflection kept for a column is the one the factorization took for it. -/
theorem storedReflection_eq (hTall : Tall rows columns) {size : ℕ} {j : Fin size}
    {h : Reflection ℝ} (hGet : (reflections columns)[j.val]? = some h) :
    storedReflection rows size (factorColumns columns).betas
        (factorColumns columns).columns.flatten.toArray j = h.matrix rows j := by
  have hBeta : (factorColumns columns).betas.getD j 0 = h.beta := by
    rw [betas_factorColumns, List.getD_eq_getElem?_getD, List.getElem?_map, hGet]
    rfl
  have hTail : h.tail = ((factorColumns columns).columns.getD j []).drop (j + 1) := by
    have hTails := congrArg (·[j.val]?) (mapIdx_drop_factorColumns hTall)
    simp only [List.getElem?_mapIdx, List.getElem?_map, hGet, Option.map_some] at hTails
    obtain ⟨column, hColumn, hDrop⟩ := Option.map_eq_some_iff.mp hTails
    rw [List.getD_eq_getElem?_getD, hColumn, ← hDrop]
    rfl
  rw [storedReflection, hBeta, Reflection.matrix]
  congr 1
  funext i
  rw [vectorOf, Reflection.vector, hTail, getD_zeros_append, storedVector,
    storedMatrix_flatten (length_of_mem_factorColumns hTall)]

/-- A column of the triangle that is kept. -/
theorem storedTriangle_column (hTall : Tall rows columns) {size : ℕ} {j : Fin size}
    {column : List ℝ} (hGet : (factorColumns columns).columns[j.val]? = some column) :
    (fun i => storedTriangle rows size (factorColumns columns).columns.flatten.toArray i j) =
      vectorOf rows (column.take (j + 1) ++ zeros (rows - (j + 1))) := by
  have hColumn : (factorColumns columns).columns.getD j [] = column := by
    rw [List.getD_eq_getElem?_getD, hGet]
    rfl
  funext i
  rw [vectorOf, getD_take_append_zeros, storedTriangle, Matrix.of_apply,
    storedMatrix_flatten (length_of_mem_factorColumns hTall), hColumn]

theorem ofFn_storedReflection (hTall : Tall rows columns) {size : ℕ}
    (hSize : columns.length = size) :
    List.ofFn (storedReflection rows size (factorColumns columns).betas
        (factorColumns columns).columns.flatten.toArray) =
      (reflections columns).mapIdx fun k h => h.matrix rows k := by
  apply List.ext_getElem
  · rw [List.length_ofFn, List.length_mapIdx, length_reflections, hSize]
  · intro k hLeft hRight
    rw [List.length_mapIdx] at hRight
    rw [List.getElem_ofFn, List.getElem_mapIdx]
    exact storedReflection_eq hTall (List.getElem?_eq_getElem hRight)

/-- The product of the reflections and the triangle is the matrix. -/
theorem prod_mul_storedTriangle (hTall : Tall rows columns) {size : ℕ}
    (hSize : columns.length = size)
    (hNorms : ∀ column ∈ remainders columns,
      ¬(0 < columnNorm column ∧ columnNorm column ≤ vanishing)) :
    (List.ofFn (storedReflection rows size (factorColumns columns).betas
        (factorColumns columns).columns.flatten.toArray)).prod *
      storedTriangle rows size (factorColumns columns).columns.flatten.toArray =
        storedMatrix rows size columns.flatten.toArray := by
  rw [ofFn_storedReflection hTall hSize]
  ext i j
  have hFactored : j.val < (factorColumns columns).columns.length := by
    rw [length_factorColumns, hSize]
    exact j.isLt
  have hColumn : j.val < columns.length := j.isLt.trans_eq hSize.symm
  -- the product is read column by column
  have hTriangle := storedTriangle_column hTall (List.getElem?_eq_getElem hFactored)
  have hLength : ((factorColumns columns).columns[j.val].take (j + 1) ++
      zeros (rows - (j + 1))).length = rows := by
    have hRows := length_of_mem_factorColumns hTall _ (List.getElem_mem hFactored)
    have hUpper := hTall.size_le
    rw [List.length_append, List.length_take, hRows, zeros, List.length_replicate]
    omega
  have hStairs : Staircase (rows - 0) (reflections columns) := staircase_reflections hTall
  have hProduct := prod_matrix_mulVec hStairs (Nat.zero_le rows) hLength
  have hApplied : applyAll (reflections columns) ((factorColumns columns).columns[j.val].take
      (j + 1) ++ zeros (rows - (j + 1))) = columns[j.val] := by
    have hAll := List.getElem_of_eq (map_applyAll_triangle hTall hNorms)
      (by rw [List.length_map, triangle, List.length_mapIdx]; exact hFactored)
    rw [List.getElem_map] at hAll
    simpa only [triangle, List.getElem_mapIdx] using hAll
  simp only [Nat.zero_add] at hProduct
  change (((reflections columns).mapIdx fun k h => h.matrix rows k).prod *ᵥ
    fun i => storedTriangle rows size (factorColumns columns).columns.flatten.toArray i j) i = _
  rw [hTriangle, hProduct, List.take_zero, List.drop_zero, List.nil_append, hApplied,
    storedMatrix_flatten hTall.lengths, List.getD_eq_getElem _ _ hColumn]
  rfl

theorem storedReflection_mem_orthogonalGroup (hTall : Tall rows columns) {size : ℕ}
    (hSize : columns.length = size) (j : Fin size) :
    storedReflection rows size (factorColumns columns).betas
      (factorColumns columns).columns.flatten.toArray j ∈ Matrix.orthogonalGroup (Fin rows) ℝ := by
  have hIndex : j.val < (reflections columns).length := by
    rw [length_reflections, hSize]
    exact j.isLt
  have hGet := List.getElem?_eq_getElem hIndex
  have hVector := (staircase_reflections hTall).length_vector hGet
  have hProper : (reflections columns)[j.val].Proper := by
    simp only [reflections, List.getElem_map]
    exact reflection_proper _
  have hUpper : j.val ≤ rows := j.isLt.le.trans (hSize.symm.trans_le hTall.size_le)
  have hWhole : (zeros j ++ (reflections columns)[j.val].vector).length = rows := by
    rw [List.length_append, zeros, List.length_replicate, hVector]
    omega
  rw [storedReflection_eq hTall hGet, Reflection.matrix]
  apply reflectionMatrix_mem_orthogonalGroup
  rw [dotProduct_vectorOf hWhole hWhole, inner_append rfl, inner_zeros, zero_add]
  exact hProper.fits

/-- A matrix with no more columns than rows is factored, and no step divides by zero: over
guarded numbers the same numbers come out.  There is one scalar for each column, between one and
two, and every reflection that is kept is orthogonal.  Unless the norm of what remains of a
column is positive and counts as vanishing, the product of the reflections and of the triangle
is the matrix. -/
theorem factor_orthogonal (rows columns : ℕ) (hSome : 1 ≤ columns) (hTall : columns ≤ rows)
    (buffer : Array ℝ) (hSize : buffer.size = rows * columns) :
    ∃ betas factored, factor buffer rows columns .byColumn = .ok (betas, factored) ∧
      factor (buffer.map Guarded.number) rows columns .byColumn =
        .ok (betas.map Guarded.number, factored.map Guarded.number) ∧
      betas.length = columns ∧ factored.size = rows * columns ∧
      (∀ beta ∈ betas, 1 ≤ beta ∧ beta ≤ 2) ∧
      (∀ j : Fin columns, storedReflection rows columns betas factored j ∈
        Matrix.orthogonalGroup (Fin rows) ℝ) ∧
      ((∀ column ∈ remainders (splitColumns rows columns buffer.toList),
          ¬(0 < columnNorm column ∧ columnNorm column ≤ vanishing)) →
        (List.ofFn (storedReflection rows columns betas factored)).prod *
          storedTriangle rows columns factored = storedMatrix rows columns buffer) := by
  have hLength : buffer.toList.length = rows * columns := hSize
  have hSplit := tall_splitColumns hTall hLength
  have hCount := length_splitColumns rows columns buffer.toList
  have hFactored : factor buffer rows columns .byColumn =
      .ok (factorByColumn rows columns buffer) := by
    rw [factor, checkDimensions_eq_ok_iff.mpr ⟨hSome, hTall, hSize⟩]
  have hGuarded : factor (buffer.map Guarded.number) rows columns .byColumn =
      .ok (factorByColumn rows columns (buffer.map Guarded.number)) := by
    rw [factor, checkDimensions_eq_ok_iff.mpr ⟨hSome, hTall, (Array.size_map ..).trans hSize⟩]
  rw [factorByColumn_guarded] at hGuarded
  have hBetas := betas_factorColumns (splitColumns rows columns buffer.toList)
  refine ⟨_, _, hFactored, hGuarded, ?_, ?_, ?_, ?_, ?_⟩
  · rw [hBetas, List.length_map, length_reflections, hCount]
  · change (factorColumns _).columns.flatten.length = rows * columns
    rw [length_flatten (length_of_mem_factorColumns hSplit), length_factorColumns, hCount]
  · intro beta hMem
    change beta ∈ (factorColumns _).betas at hMem
    rw [hBetas, reflections, List.map_map] at hMem
    obtain ⟨column, -, rfl⟩ := List.mem_map.mp hMem
    exact ⟨(reflection_proper column).one_le, (reflection_proper column).le_two⟩
  · exact storedReflection_mem_orthogonalGroup hSplit hCount
  · intro hNorms
    have hProduct := prod_mul_storedTriangle hSplit hCount hNorms
    rwa [flatten_splitColumns rows columns hLength] at hProduct

/-- Two columns, of which the first one is zero. -/
def zeroColumn : Array ℝ :=
  #[0, 0, 3, 4]

theorem factor_orthogonal_zeroColumn :
    ∃ betas factored, factor zeroColumn 2 2 .byColumn = .ok (betas, factored) ∧
      (List.ofFn (storedReflection 2 2 betas factored)).prod * storedTriangle 2 2 factored =
        storedMatrix 2 2 zeroColumn := by
  obtain ⟨betas, factored, hFactored, -, -, -, -, -, hProduct⟩ :=
    factor_orthogonal 2 2 (by decide) le_rfl zeroColumn rfl
  refine ⟨betas, factored, hFactored, hProduct ?_⟩
  have hZero : columnNorm [0, 0] = 0 := by
    rw [columnNorm_eq]
    norm_num
  have hFour : columnNorm [4] = 4 := by
    rw [columnNorm_eq, inner_cons, inner_nil, add_zero]
    exact Real.sqrt_mul_self (by norm_num)
  have hSmall : ¬vanishing < columnNorm [0, 0] := by
    rw [hZero]
    exact vanishing_pos.not_gt
  have hRemaining : remaining [0, 0] [[3, 4]] = [[(4 : ℝ)]] := by
    simp [remaining, reflection_of_small hSmall, apply_eq, Reflection.vector, zeros, lessMultiple]
  have hRemainders : remainders (splitColumns 2 2 zeroColumn.toList) = [[0, 0], [4]] := by
    change remainders [[0, 0], [3, 4]] = _
    rw [remainders, hRemaining, remainders, remaining, List.map_nil, List.map_nil, remainders]
  rw [hRemainders, List.forall_mem_cons, List.forall_mem_singleton, hZero, hFour]
  refine ⟨fun hNorm => lt_irrefl _ hNorm.1, fun hNorm => ?_⟩
  norm_num [vanishing] at hNorm

end Householder
end Pushbroom
