import Pushbroom.Proofs.Filter.Pruning

namespace Pushbroom
namespace Filter

/-!
# The greatest error of the grid

An exchange stops when the errors at the chosen positions are level.  This bounds the error of
the whole grid when the greatest one is among them.

The greatest error is a local extremum at the last of its equal neighbours, since the next one is
smaller or on the other side of zero.  Only where equal errors go on to the end of the grid none of
them is, as the last error has to exceed the one before it.
-/

variable {K : Type} {n : ℕ}

/-- A position is the last of its equal neighbours, and at the end of the grid it has none. -/
structure EndsRun (values : Fin n → K) (i : Fin n) : Prop where
  after : ∀ j : Fin n, j.val = i.val + 1 → values j ≠ values i
  last : i.val + 1 = n → ∀ j : Fin n, j.val + 1 = i.val → values j ≠ values i

theorem EndsRun.of_comp {values : Fin n → K} {i : Fin n} {f : K → K}
    (hRun : EndsRun (fun j => f (values j)) i) : EndsRun values i :=
  ⟨fun j hj hSame => hRun.after j hj (congrArg f hSame),
    fun hLast j hj hSame => hRun.last hLast j hj (congrArg f hSame)⟩

variable [Field K] [LinearOrder K]

/-- No number is farther from zero than the one at a position. -/
def IsGreatest (values : Fin n → K) (i : Fin n) : Prop :=
  ∀ j, |values j| ≤ |values i|

instance (values : Fin n → K) (i : Fin n) : Decidable (IsGreatest values i) :=
  inferInstanceAs (Decidable (∀ j, |values j| ≤ |values i|))

/-! ## Extrema of the greatest magnitude -/

section Greatest

variable {values : Fin n → K} {i : Fin n}

theorem IsPeak.endsRun (hPeak : IsPeak values i) : EndsRun values i :=
  ⟨fun j hj => (hPeak.after j hj).ne, fun hLast j hj => (hPeak.last hLast j hj).ne⟩

theorem IsLocalExtremum.endsRun (hExtremum : IsLocalExtremum values i) : EndsRun values i :=
  hExtremum.elim IsPeak.endsRun fun hPeak => hPeak.endsRun.of_comp

variable [IsStrictOrderedRing K]

theorem IsGreatest.isPeak (hGreatest : IsGreatest values i) (hRun : EndsRun values i)
    (hPositive : 0 < values i) : IsPeak values i := by
  have hLe (j : Fin n) : values j ≤ values i :=
    (le_abs_self _).trans ((hGreatest j).trans_eq (abs_of_pos hPositive))
  exact ⟨hPositive, fun j _ => hLe j, fun j hj => lt_of_le_of_ne (hLe j) (hRun.after j hj),
    fun hLast j hj => lt_of_le_of_ne (hLe j) (hRun.last hLast j hj)⟩

/-- Numbers that are all zero are equal up to the end of the grid. -/
theorem IsGreatest.ne_zero (hGreatest : IsGreatest values i) (hRun : EndsRun values i)
    (hTwo : 2 ≤ n) : values i ≠ 0 := by
  intro hZero
  have hAll (j : Fin n) : values j = values i := by
    have hLe := hGreatest j
    rw [hZero, abs_zero] at hLe
    rw [hZero, abs_nonpos_iff.mp hLe]
  by_cases hLast : i.val + 1 = n
  · exact hRun.last hLast ⟨i.val - 1, by omega⟩ (by simp; omega) (hAll _)
  · exact hRun.after ⟨i.val + 1, by omega⟩ rfl (hAll _)

theorem IsGreatest.isLocalExtremum (hGreatest : IsGreatest values i) (hRun : EndsRun values i)
    (hTwo : 2 ≤ n) : IsLocalExtremum values i := by
  rcases (hGreatest.ne_zero hRun hTwo).lt_or_gt with hNegative | hPositive
  · have hOpposite : IsGreatest (fun j => -values j) i := fun j => by
      rw [abs_neg, abs_neg]
      exact hGreatest j
    have hReflected : EndsRun (fun j => -values j) i := by
      refine EndsRun.of_comp (f := Neg.neg) ?_
      simpa only [neg_neg] using hRun
    exact .inr (hOpposite.isPeak hReflected (neg_pos.mpr hNegative))
  · exact .inl (hGreatest.isPeak hRun hPositive)

/-- The greatest error is among the positions that are chosen exactly when it ends a run. -/
theorem ReadAs.exists_greatest_iff {α : Type} [Scalar α] {errors : Vector α n}
    (hReads : ReadAs errors values) (hTwo : 2 ≤ n) {count : ℕ} (hCount : 1 ≤ count)
    {positions : List (Fin n)} (hSelect : selectExtrema count errors = .ok positions) :
    (∃ i ∈ positions, IsGreatest values i) ↔ ∃ i, IsGreatest values i ∧ EndsRun values i := by
  constructor
  · rintro ⟨i, hMember, hGreatest⟩
    obtain ⟨-, rfl⟩ := selectExtrema_eq_ok_iff.mp hSelect
    have hExtremum := (hReads.mem_extrema_iff hTwo i).mp
      ((prune_sublist errors count _ _).subset hMember)
    exact ⟨i, hGreatest, hExtremum.endsRun⟩
  · rintro ⟨i, hGreatest, hRun⟩
    obtain ⟨k, hMember, hLargest⟩ := hReads.exists_largest_selected hTwo hCount hSelect
    exact ⟨k, hMember, fun j =>
      (hGreatest j).trans (hLargest i (hGreatest.isLocalExtremum hRun hTwo))⟩

end Greatest

/-! ## Level errors -/

section Levelled

theorem foldl_magnitudes (values : Fin n → K) (positions : List (Fin n)) (start : K × K) :
    let range := positions.foldl
      (fun range i => (min range.1 |values i|, max range.2 |values i|)) start
    (range.1 ≤ start.1 ∧ start.2 ≤ range.2) ∧
      ∀ i ∈ positions, range.1 ≤ |values i| ∧ |values i| ≤ range.2 := by
  induction positions generalizing start with
  | nil => exact ⟨⟨le_rfl, le_rfl⟩, fun i hi => absurd hi List.not_mem_nil⟩
  | cons first rest ih =>
      obtain ⟨⟨hLeast, hGreatest⟩, hRest⟩ :=
        ih (min start.1 |values first|, max start.2 |values first|)
      obtain ⟨hStartLeast, hFirstLeast⟩ := le_min_iff.mp hLeast
      obtain ⟨hStartGreatest, hFirstGreatest⟩ := max_le_iff.mp hGreatest
      exact ⟨⟨hStartLeast, hStartGreatest⟩,
        List.forall_mem_cons.mpr ⟨⟨hFirstLeast, hFirstGreatest⟩, hRest⟩⟩

variable [FloorRing K] [IsStrictOrderedRing K]

/-- The range holds the magnitudes of all errors it is taken of. -/
theorem magnitudeRange_bounds (values : Fin n → K) {positions : List (Fin n)} {i : Fin n}
    (hMember : i ∈ positions) :
    (magnitudeRange (Vector.ofFn values) positions).1 ≤ |values i| ∧
      |values i| ≤ (magnitudeRange (Vector.ofFn values) positions).2 := by
  unfold magnitudeRange
  simp only [Scalar.abs_eq, Scalar.minNum_eq, Scalar.maxNum_eq, Fin.getElem_fin,
    Vector.getElem_ofFn, Fin.eta]
  exact (foldl_magnitudes values positions _).2 i hMember

/-- Level errors differ by less than one part in ten thousand of the largest of them. -/
theorem lt_of_levelled {values : Fin n → K} {positions : List (Fin n)}
    (hLevelled : levelled (Vector.ofFn values) positions = true) {i j : Fin n}
    (hi : i ∈ positions) (hj : j ∈ positions) (hNonzero : values i ≠ 0) :
    (1 - 1e-4) * |values i| < |values j| := by
  obtain ⟨-, hGreatest⟩ := magnitudeRange_bounds values hi
  obtain ⟨hLeast, -⟩ := magnitudeRange_bounds values hj
  have hPositive := (abs_pos.mpr hNonzero).trans_le hGreatest
  simp only [levelled, Bool.or_eq_true, beq_iff_eq, hPositive.ne', false_or, decide_eq_true_eq,
    div_lt_iff₀ hPositive] at hLevelled
  calc (1 - 1e-4) * |values i|
      ≤ (1 - 1e-4) * (magnitudeRange (Vector.ofFn values) positions).2 :=
        mul_le_mul_of_nonneg_left hGreatest (by norm_num)
    _ < (magnitudeRange (Vector.ofFn values) positions).1 := by linarith
    _ ≤ |values j| := hLeast

end Levelled

/-- The greatest error of the grid is among the positions that are chosen exactly when it is one
that ends a run, and then level errors there bound those of the whole grid. -/
theorem greatest_selected [FloorRing K] [IsStrictOrderedRing K] {α : Type} [Scalar α]
    {errors : Vector α n} {values : Fin n → K} (hReads : ReadAs errors values) (hTwo : 2 ≤ n)
    {r : ℕ} {positions : List (Fin n)} (hSelect : selectExtrema (r + 1) errors = .ok positions) :
    ((∃ i ∈ positions, IsGreatest values i) ↔ ∃ i, IsGreatest values i ∧ EndsRun values i) ∧
      ((∃ i, IsGreatest values i ∧ EndsRun values i) →
        levelled (Vector.ofFn values) positions = true →
        ∀ i, ∀ j ∈ positions, (1 - 1e-4) * |values i| < |values j|) := by
  have hIff := hReads.exists_greatest_iff hTwo (Nat.le_add_left 1 r) hSelect
  refine ⟨hIff, fun hRun hLevelled i j hj => ?_⟩
  obtain ⟨top, hTop, hGreatest⟩ := hIff.mpr hRun
  obtain ⟨k, hTopRun, hRun⟩ := hRun
  have hNonzero : values top ≠ 0 := by
    have hPositive := (abs_pos.mpr (hTopRun.ne_zero hRun hTwo)).trans_le (hGreatest k)
    exact abs_pos.mp hPositive
  calc (1 - 1e-4) * |values i|
      ≤ (1 - 1e-4) * |values top| := mul_le_mul_of_nonneg_left (hGreatest i) (by norm_num)
    _ < |values j| := lt_of_levelled hLevelled hTop hj hNonzero

/-- The magnitude one is reached three times, and the later two are chosen. -/
theorem greatest_selected_five :
    let errors : Fin 5 → ℚ := ![1, 0, -1, 1, 1 / 2]
    (∃ i ∈ [2, 3], IsGreatest errors i) ∧
      ∀ i, ∀ j ∈ [2, 3], (1 - 1e-4) * |errors i| < |errors j| := by
  intro errors
  have hSelect : selectExtrema 2 (Vector.ofFn errors) = .ok [2, 3] :=
    selectExtrema_eq_ok_iff.mpr (by decide +kernel)
  have hRun : EndsRun errors 3 := ⟨by decide +kernel, by decide +kernel⟩
  have hGreatest : IsGreatest errors 3 := by decide +kernel
  obtain ⟨hIff, hBound⟩ := greatest_selected (readAs_ofFn errors) (by decide) hSelect
  exact ⟨hIff.mpr ⟨3, hGreatest, hRun⟩, hBound ⟨3, hGreatest, hRun⟩ (by decide +kernel)⟩

/-- The greatest error is at both of the last two points, and neither of them is chosen.  The
errors at the chosen positions are level at half of it. -/
theorem greatest_lost :
    let errors : Fin 5 → ℚ := ![-1, 1, -1, 2, 2]
    selectExtrema 2 (Vector.ofFn errors) = .ok [1, 2] ∧
      (¬ ∃ i ∈ [1, 2], IsGreatest errors i) ∧
      levelled (Vector.ofFn errors) [1, 2] = true ∧ |errors 1| < |errors 3| := by
  refine ⟨selectExtrema_eq_ok_iff.mpr ?_, ?_, ?_, ?_⟩ <;> decide +kernel

end Filter
end Pushbroom
