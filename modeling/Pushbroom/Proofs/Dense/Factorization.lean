import Pushbroom.Proofs.Dense.Reflection

namespace Pushbroom
namespace Householder

/-!
# The columns of a factorization

A factorization reflects what remains of one column after the other.  What it leaves are the
columns of a triangle, and beneath them the vectors of the reflections.  The reflections, each on
what lies below the rows of those before it, bring the triangle back to the columns that were
factored, as long as no remaining norm is positive and counts as vanishing.
-/

section Run

variable {α : Type} [Scalar α] [Elementary α]

/-- What remains of the other columns once the first has been reflected. -/
def remaining (first : List α) (others : List (List α)) : List (List α) :=
  (others.map (reflection first).apply).map (·.drop 1)

/-- What remains of each column when it is its turn to be reflected. -/
def remainders : List (List α) → List (List α)
  | [] => []
  | first :: others => first :: remainders (remaining first others)
termination_by columns => columns.length
decreasing_by simp [remaining]

/-- The reflections of a factorization. -/
def reflections (columns : List (List α)) : List (Reflection α) :=
  (remainders columns).map reflection

/-- Columns put beneath the first entries of other columns. -/
def beneath (heads rests : List (List α)) : List (List α) :=
  List.zipWith (fun column rest => column.take 1 ++ rest) heads rests

theorem factorColumns_cons (first : List α) (others : List (List α)) :
    factorColumns (first :: others) =
      { betas := (reflection first).beta :: (factorColumns (remaining first others)).betas
        columns := (((reflection first).apply first).take 1 ++ (reflection first).tail) ::
          beneath (others.map (reflection first).apply)
            (factorColumns (remaining first others)).columns } := by
  rw [factorColumns]
  rfl

theorem reflections_cons (first : List α) (others : List (List α)) :
    reflections (first :: others) = reflection first :: reflections (remaining first others) := by
  rw [reflections, remainders, List.map_cons]
  rfl

theorem length_remaining (first : List α) (others : List (List α)) :
    (remaining first others).length = others.length := by
  simp [remaining]

theorem betas_factorColumns (columns : List (List α)) :
    (factorColumns columns).betas = (reflections columns).map Reflection.beta := by
  induction columns using remainders.induct with
  | case1 => simp [factorColumns, reflections, remainders]
  | case2 first others ih => rw [factorColumns_cons, reflections_cons, List.map_cons, ih]

theorem length_factorColumns (columns : List (List α)) :
    (factorColumns columns).columns.length = columns.length := by
  induction columns using remainders.induct with
  | case1 => simp [factorColumns]
  | case2 first others ih =>
      rw [factorColumns_cons, List.length_cons, beneath, List.length_zipWith, ih,
        length_remaining, List.length_map, min_self, List.length_cons]

theorem length_reflections (columns : List (List α)) :
    (reflections columns).length = columns.length := by
  induction columns using remainders.induct with
  | case1 => simp [reflections, remainders]
  | case2 first others ih =>
      rw [reflections_cons, List.length_cons, ih, length_remaining, List.length_cons]

/-- The product of reflections, each of which acts on what lies below the rows of those before
it, applied to a column. -/
def applyAll : List (Reflection α) → List α → List α
  | [], column => column
  | h :: others, column => h.apply (column.take 1 ++ applyAll others (column.drop 1))

/-- The vectors of the reflections get shorter by one entry each. -/
def Staircase : ℕ → List (Reflection α) → Prop
  | _, [] => True
  | size, h :: others => h.vector.length = size ∧ Staircase (size - 1) others

end Run

section Beneath

variable {α : Type} {heads rests : List (List α)}

theorem take_append_of_ne_nil {column : List α} (hSome : column ≠ []) (rest : List α) (k : ℕ) :
    (column.take 1 ++ rest).take (k + 1) = column.take 1 ++ rest.take k := by
  obtain ⟨entry, below, rfl⟩ := List.exists_cons_of_ne_nil hSome
  rfl

theorem drop_append_of_ne_nil {column : List α} (hSome : column ≠ []) (rest : List α) (k : ℕ) :
    (column.take 1 ++ rest).drop (k + 1) = rest.drop k := by
  obtain ⟨entry, below, rfl⟩ := List.exists_cons_of_ne_nil hSome
  rfl

theorem length_of_mem_beneath {size : ℕ} (hHeads : ∀ head ∈ heads, head ≠ [])
    (hRests : ∀ rest ∈ rests, rest.length = size) :
    ∀ column ∈ beneath heads rests, column.length = size + 1 := by
  induction heads generalizing rests with
  | nil => simp [beneath]
  | cons head heads ih =>
      cases rests with
      | nil => simp [beneath]
      | cons rest rests =>
          obtain ⟨hHead, hOthers⟩ := List.forall_mem_cons.mp hHeads
          obtain ⟨hRest, hRests⟩ := List.forall_mem_cons.mp hRests
          obtain ⟨entry, below, rfl⟩ := List.exists_cons_of_ne_nil hHead
          rw [beneath, List.zipWith_cons_cons, List.forall_mem_cons]
          refine ⟨?_, ih hOthers hRests⟩
          rw [List.length_append, hRest, Nat.add_comm]
          rfl

theorem beneath_drop (heads : List (List α)) : beneath heads (heads.map (·.drop 1)) = heads := by
  induction heads with
  | nil => rfl
  | cons column heads ih =>
      rw [List.map_cons, beneath, List.zipWith_cons_cons, List.take_append_drop]
      exact congrArg (column :: ·) ih

theorem mapIdx_drop_beneath (hHeads : ∀ head ∈ heads, head ≠ [])
    (hLength : heads.length = rests.length) :
    ((beneath heads rests).mapIdx fun k column => column.drop (k + 1 + 1)) =
      rests.mapIdx fun k column => column.drop (k + 1) := by
  apply List.ext_getElem
  · simp [beneath, hLength]
  · intro k hLeft hRight
    have hHead : k < heads.length := by
      rw [List.length_mapIdx] at hRight
      omega
    simp only [beneath, List.getElem_mapIdx, List.getElem_zipWith]
    exact drop_append_of_ne_nil (hHeads _ (List.getElem_mem hHead)) _ _

variable [Scalar α]

/-- Below the first rows, the reflections after the first act on what is beneath. -/
theorem applyAll_beneath (hHeads : ∀ head ∈ heads, head ≠ []) (h : Reflection α)
    (hs : List (Reflection α)) : (beneath heads rests).map (applyAll (h :: hs)) =
      (beneath heads (rests.map (applyAll hs))).map h.apply := by
  induction heads generalizing rests with
  | nil => simp [beneath]
  | cons head heads ih =>
      cases rests with
      | nil => simp [beneath]
      | cons rest rests =>
          obtain ⟨hHead, hOthers⟩ := List.forall_mem_cons.mp hHeads
          obtain ⟨entry, below, rfl⟩ := List.exists_cons_of_ne_nil hHead
          simp only [beneath, List.zipWith_cons_cons, List.map_cons] at ih ⊢
          rw [ih hOthers]
          rfl

end Beneath

/-! ## Tall matrices -/

/-- Columns of a matrix that has no more columns than rows. -/
structure Tall {α : Type} (rows : ℕ) (columns : List (List α)) : Prop where
  lengths : ∀ column ∈ columns, column.length = rows
  size_le : columns.length ≤ rows

section Sizes

variable {α : Type} {rows : ℕ}

namespace Tall

variable {first : List α} {others : List (List α)}

theorem pos (hTall : Tall rows (first :: others)) : 0 < rows :=
  Nat.lt_of_lt_of_le (Nat.succ_pos _) hTall.size_le

theorem length_first (hTall : Tall rows (first :: others)) : first.length = rows :=
  hTall.lengths first List.mem_cons_self

theorem ne_nil (hTall : Tall rows (first :: others)) {column : List α}
    (hMem : column ∈ first :: others) : column ≠ [] := by
  rw [← List.length_pos_iff, hTall.lengths column hMem]
  exact hTall.pos

variable [Scalar α] [Elementary α]

theorem length_vector (hTall : Tall rows (first :: others)) :
    (reflection first).vector.length = rows := by
  rw [length_vector_reflection (hTall.ne_nil List.mem_cons_self), hTall.length_first]

theorem length_reflected_first (hTall : Tall rows (first :: others)) :
    ((reflection first).apply first).length = rows := by
  rw [length_apply (hTall.length_first.trans hTall.length_vector.symm), hTall.length_first]

theorem length_reflected (hTall : Tall rows (first :: others)) {column : List α}
    (hMem : column ∈ others.map (reflection first).apply) : column.length = rows := by
  obtain ⟨other, hOther, rfl⟩ := List.mem_map.mp hMem
  have hLength := hTall.lengths other (List.mem_cons_of_mem first hOther)
  rw [length_apply (hLength.trans hTall.length_vector.symm), hLength]

theorem reflected_ne_nil (hTall : Tall rows (first :: others)) :
    ∀ column ∈ others.map (reflection first).apply, column ≠ [] := by
  intro column hMem
  rw [← List.length_pos_iff, hTall.length_reflected hMem]
  exact hTall.pos

theorem remaining (hTall : Tall (rows + 1) (first :: others)) :
    Tall rows (remaining first others) where
  lengths column hMem := by
    obtain ⟨reflected, hReflected, rfl⟩ := List.mem_map.mp hMem
    rw [List.length_drop, hTall.length_reflected hReflected, Nat.add_sub_cancel]
  size_le := by
    rw [length_remaining]
    exact Nat.le_of_succ_le_succ hTall.size_le

end Tall

variable [Scalar α] [Elementary α]

/-- The factored columns have the rows of the columns they are factored from. -/
theorem length_of_mem_factorColumns {columns : List (List α)} (hTall : Tall rows columns) :
    ∀ column ∈ (factorColumns columns).columns, column.length = rows := by
  induction columns using remainders.induct generalizing rows with
  | case1 => simp [factorColumns]
  | case2 first others ih =>
      obtain ⟨rows, rfl⟩ := Nat.exists_eq_add_one.mpr hTall.pos
      have hTail : (reflection first).tail.length = rows := Nat.succ.inj hTall.length_vector
      rw [factorColumns_cons, List.forall_mem_cons]
      constructor
      · rw [List.length_append, List.length_take, hTall.length_reflected_first, hTail]
        omega
      · exact length_of_mem_beneath hTall.reflected_ne_nil (ih hTall.remaining)

end Sizes

/-! ## Columns stored one after the other -/

section Storage

variable {α : Type}

theorem length_flatten {rows : ℕ} {columns : List (List α)}
    (hLengths : ∀ column ∈ columns, column.length = rows) :
    columns.flatten.length = rows * columns.length := by
  rw [List.length_flatten, List.map_congr_left hLengths, List.map_const', List.sum_replicate,
    smul_eq_mul, Nat.mul_comm]

theorem flatten_splitColumns (rows columns : ℕ) {entries : List α}
    (hLength : entries.length = rows * columns) :
    (splitColumns rows columns entries).flatten = entries := by
  induction columns generalizing entries with
  | zero =>
      rw [List.length_eq_zero_iff.mp hLength]
      rfl
  | succ columns ih =>
      rw [splitColumns, List.flatten_cons, ih, List.take_append_drop]
      rw [List.length_drop, hLength, Nat.mul_succ, Nat.add_sub_cancel]

theorem length_splitColumns (rows columns : ℕ) (entries : List α) :
    (splitColumns rows columns entries).length = columns := by
  induction columns generalizing entries with
  | zero => rfl
  | succ columns ih => rw [splitColumns, List.length_cons, ih]

theorem length_of_mem_splitColumns {rows columns : ℕ} {entries : List α}
    (hLength : entries.length = rows * columns) :
    ∀ column ∈ splitColumns rows columns entries, column.length = rows := by
  induction columns generalizing entries with
  | zero => simp [splitColumns]
  | succ columns ih =>
      rw [splitColumns, List.forall_mem_cons]
      constructor
      · rw [List.length_take, hLength, Nat.mul_succ]
        omega
      · apply ih
        rw [List.length_drop, hLength, Nat.mul_succ, Nat.add_sub_cancel]

theorem tall_splitColumns {rows columns : ℕ} (hTall : columns ≤ rows) {entries : List α}
    (hLength : entries.length = rows * columns) :
    Tall rows (splitColumns rows columns entries) :=
  ⟨length_of_mem_splitColumns hLength, (length_splitColumns rows columns entries).trans_le hTall⟩

theorem size_factorByColumn [Scalar α] [Elementary α] {rows columns : ℕ} (hTall : columns ≤ rows)
    {buffer : Array α} (hSize : buffer.size = rows * columns) :
    (factorByColumn rows columns buffer).2.size = rows * columns := by
  have hColumns := tall_splitColumns hTall ((Array.length_toList).trans hSize)
  change (factorColumns (splitColumns rows columns buffer.toList)).columns.flatten.length = _
  rw [length_flatten (length_of_mem_factorColumns hColumns), length_factorColumns,
    length_splitColumns]

end Storage

/-! ## What the reflections keep -/

variable {rows : ℕ} {columns : List (List ℝ)}

theorem staircase_reflections (hTall : Tall rows columns) :
    Staircase rows (reflections columns) := by
  induction columns using remainders.induct generalizing rows with
  | case1 =>
      rw [reflections, remainders]
      trivial
  | case2 first others ih =>
      obtain ⟨rows, rfl⟩ := Nat.exists_eq_add_one.mpr hTall.pos
      rw [reflections_cons]
      exact ⟨hTall.length_vector, ih hTall.remaining⟩

theorem Staircase.length_vector {size : ℕ} {hs : List (Reflection ℝ)}
    (hStaircase : Staircase size hs) {k : ℕ} {h : Reflection ℝ} (hGet : hs[k]? = some h) :
    h.vector.length = size - k := by
  induction hs generalizing size k with
  | nil => cases hGet
  | cons first hs ih =>
      obtain ⟨hVector, hRest⟩ := hStaircase
      cases k with
      | zero =>
          cases hGet
          exact hVector
      | succ k => rw [ih hRest hGet, Nat.sub_sub, Nat.add_comm 1 k]

theorem Staircase.length_applyAll {size : ℕ} {hs : List (Reflection ℝ)}
    (hStaircase : Staircase size hs) {column : List ℝ} (hLength : column.length = size) :
    (applyAll hs column).length = size := by
  induction hs generalizing size column with
  | nil => exact hLength
  | cons h hs ih =>
      obtain ⟨hVector, hRest⟩ := hStaircase
      have hPositive : 0 < size := hVector ▸ Nat.succ_pos _
      have hBelow : (applyAll hs (column.drop 1)).length = size - 1 :=
        ih hRest (by rw [List.length_drop, hLength])
      have hAll : (column.take 1 ++ applyAll hs (column.drop 1)).length = size := by
        rw [List.length_append, List.length_take, hBelow]
        omega
      rw [applyAll, length_apply (hAll.trans hVector.symm), hAll]

theorem Staircase.applyAll_zeros {size : ℕ} {hs : List (Reflection ℝ)}
    (hStaircase : Staircase size hs) : applyAll hs (zeros size) = zeros size := by
  induction hs generalizing size with
  | nil => rfl
  | cons h hs ih =>
      obtain ⟨hVector, hRest⟩ := hStaircase
      have hPositive : 0 < size := hVector ▸ Nat.succ_pos _
      obtain ⟨size, rfl⟩ := Nat.exists_eq_add_one.mpr hPositive
      have hBelow : applyAll hs ((zeros (size + 1)).drop 1) = zeros size := ih hRest
      rw [applyAll, hBelow]
      exact apply_zeros hVector

/-- The vectors of the reflections are kept below the diagonal. -/
theorem mapIdx_drop_factorColumns (hTall : Tall rows columns) :
    ((factorColumns columns).columns.mapIdx fun k column => column.drop (k + 1)) =
      (reflections columns).map Reflection.tail := by
  induction columns using remainders.induct generalizing rows with
  | case1 => simp [factorColumns, reflections, remainders]
  | case2 first others ih =>
      obtain ⟨rows, rfl⟩ := Nat.exists_eq_add_one.mpr hTall.pos
      have hFirst : (reflection first).apply first ≠ [] := by
        rw [← List.length_pos_iff, hTall.length_reflected_first]
        exact Nat.succ_pos rows
      have hLength : (others.map (reflection first).apply).length =
          (factorColumns (remaining first others)).columns.length := by
        rw [List.length_map, length_factorColumns, length_remaining]
      rw [factorColumns_cons, List.mapIdx_cons, reflections_cons, List.map_cons,
        drop_append_of_ne_nil hFirst, List.drop_zero, ← ih hTall.remaining,
        mapIdx_drop_beneath hTall.reflected_ne_nil hLength]

/-- The columns of the triangle on and above the diagonal. -/
noncomputable def triangle (rows : ℕ) (columns : List (List ℝ)) : List (List ℝ) :=
  columns.mapIdx fun k column => column.take (k + 1) ++ zeros (rows - (k + 1))

theorem triangle_cons_beneath {heads rests : List (List ℝ)} (hHeads : ∀ head ∈ heads, head ≠ [])
    (column : List ℝ) : triangle (rows + 1) (column :: beneath heads rests) =
      (column.take 1 ++ zeros rows) :: beneath heads (triangle rows rests) := by
  rw [triangle, List.mapIdx_cons]
  congr 1
  apply List.ext_getElem
  · simp [beneath, triangle]
  · intro k hLeft hRight
    have hHead : k < heads.length := by
      simp [beneath] at hLeft
      exact hLeft.1
    simp only [beneath, triangle, List.getElem_mapIdx, List.getElem_zipWith]
    rw [take_append_of_ne_nil (hHeads _ (List.getElem_mem hHead)), List.append_assoc,
      Nat.add_sub_add_right]

/-- The reflections bring the triangle back to the columns. -/
theorem map_applyAll_triangle (hTall : Tall rows columns)
    (hNorms : ∀ column ∈ remainders columns,
      ¬(0 < columnNorm column ∧ columnNorm column ≤ vanishing)) :
    (triangle rows (factorColumns columns).columns).map (applyAll (reflections columns)) =
      columns := by
  induction columns using remainders.induct generalizing rows with
  | case1 => simp [factorColumns, triangle]
  | case2 first others ih =>
      obtain ⟨rows, rfl⟩ := Nat.exists_eq_add_one.mpr hTall.pos
      rw [remainders, List.forall_mem_cons] at hNorms
      -- each column is reflected twice, the first one with zeros below its first entry
      have hTwice : ∀ column ∈ first :: others,
          (reflection first).apply ((reflection first).apply column) = column := by
        intro column hMem
        exact (reflection_proper first).apply_apply
          ((hTall.lengths column hMem).trans hTall.length_vector.symm)
      obtain ⟨entry, hFirst⟩ : ∃ entry, (reflection first).apply first = entry :: zeros rows := by
        have hBelow := drop_apply_reflection hNorms.1
        rw [hTall.length_first] at hBelow
        obtain ⟨entry, below, hCons⟩ :=
          List.exists_cons_of_length_eq_add_one hTall.length_reflected_first
        rw [hCons] at hBelow ⊢
        exact ⟨entry, congrArg (entry :: ·) hBelow⟩
      rw [factorColumns_cons, triangle_cons_beneath hTall.reflected_ne_nil, reflections_cons,
        List.map_cons, applyAll_beneath hTall.reflected_ne_nil, ih hTall.remaining hNorms.2]
      congr 1
      · have hZeros := (staircase_reflections hTall.remaining).applyAll_zeros
        have hBelow : applyAll (reflections (remaining first others))
            ((entry :: zeros rows).drop 1) = zeros rows := hZeros
        rw [hFirst]
        change (reflection first).apply ([entry] ++ applyAll _ ((entry :: zeros rows).drop 1)) = _
        rw [hBelow, List.singleton_append, ← hFirst]
        exact hTwice first List.mem_cons_self
      · rw [remaining, beneath_drop, List.map_map]
        refine (List.map_congr_left fun column hMem => ?_).trans (List.map_id others)
        exact hTwice column (List.mem_cons_of_mem first hMem)

end Householder
end Pushbroom
