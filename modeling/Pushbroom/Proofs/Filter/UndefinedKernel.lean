import Pushbroom.Proofs.Filter.Nodes
import Pushbroom.Proofs.Filter.Requests
import Pushbroom.Proofs.Scalar.Exceptional

namespace Pushbroom
namespace Filter

/-!
# Kernels of no numbers

The sum of the taps is compared with the least gain, and no comparison with what is no number
holds.  So taps of which one is not finite are divided by their sum like any others, and come out
as no numbers.

Weights of the errors can lead there.  The level of a response is a quotient of two sums, divided
by the weight at each point, so it makes the response no number when a weight is none, and when all
weights are zero or all are infinite.  A search notices that, as errors that are no numbers have no
extrema, but without a single exchange there is no search.
-/

open Binary64 (datum IsEndless IsVoid IsOrdinary)

/-! ## The terms of a level -/

section Level

variable {α : Type} [Scalar α]

theorem isExtremum_eq_false {left? right? : Option α} {error : α} (hUp : ¬0 < error)
    (hDown : ¬error < 0) : isExtremum left? right? error = false := by
  cases left? <;> cases right? <;> simp [isExtremum, hUp, hDown]

variable [Elementary α]

/-- The terms whose sum the levelled error of some points is divided by. -/
def levelTerms (points : List (GridPoint α)) : List α :=
  (weighted points).zipIdx.map fun entry =>
    alternation entry.2 * entry.1.2 / entry.1.1.weight

def levelDivisor (points : List (GridPoint α)) : α :=
  (levelTerms points).foldl (· + ·) 0

theorem exists_levelledError_eq (points : List (GridPoint α)) :
    ∃ numerator, levelledError (weighted points) = numerator / levelDivisor points := by
  refine ⟨(weighted points).foldl (fun total point => total + point.2 * point.1.gain) 0, ?_⟩
  rw [levelDivisor, levelTerms, List.foldl_map]
  rfl

end Level

/-! ## Points without a level -/

/-- Points at whose weights no level is defined: one weight is no number, or every one is a zero or
none, or every one is an infinity or none. -/
inductive Unlevelled (points : List (GridPoint Float)) : Prop
  | notANumber {point : GridPoint Float} (hMem : point ∈ points)
      (hNaN : point.weight.isNaN = true)
  | void (hVoid : ∀ point ∈ points, IsVoid (datum point.weight))
  | endless (hEndless : ∀ point ∈ points, IsEndless (datum point.weight))

theorem isOrdinary_alternation (i : ℕ) : IsOrdinary (datum (alternation i)) := by
  unfold alternation
  split
  · exact ⟨_, _, _, _, rfl⟩
  · exact ⟨_, _, _, _, rfl⟩

section Unlevelled

variable {points : List (GridPoint Float)}

/-- Every weight counts in the divisor of the level. -/
theorem levelDivisor_of_exists {P Q : Float → Prop} (hAbsorbing : ∀ x y, P x ∨ P y → P (x + y))
    (hTerm : ∀ x weight, Q weight → P (x / weight)) {point : GridPoint Float}
    (hMem : point ∈ points) (hWeight : Q point.weight) : P (levelDivisor points) := by
  rw [← map_zipIdx_weighted points] at hMem
  obtain ⟨entry, hEntry, rfl⟩ := List.mem_map.mp hMem
  exact Binary64.foldl_add_of_absorbing hAbsorbing
    (Or.inr ⟨_, List.mem_map_of_mem hEntry, hTerm _ _ hWeight⟩)

theorem levelDivisor_of_forall {P Q : Float → Prop} (hKept : ∀ x y, P x → P y → P (x + y))
    (hZero : P 0) (hTerm : ∀ x weight, Q weight → P (x / weight))
    (hWeights : ∀ point ∈ points, Q point.weight) : P (levelDivisor points) := by
  refine Binary64.foldl_add_of_kept hKept hZero fun term hMem => ?_
  obtain ⟨entry, hEntry, rfl⟩ := List.mem_map.mp hMem
  refine hTerm _ _ (hWeights _ ?_)
  rw [← map_zipIdx_weighted points]
  exact List.mem_map_of_mem hEntry

/-- A level that is not defined leaves no number for any value of the response. -/
theorem Unlevelled.isNaN_value (hUnlevelled : Unlevelled points) {node : Node Float}
    (hNode : node ∈ nodes points) : node.value.isNaN = true := by
  obtain ⟨point, hPoint, i, hValue⟩ := exists_of_mem_nodes hNode
  obtain ⟨numerator, hQuotient⟩ := exists_levelledError_eq points
  rw [hValue, hQuotient]
  refine Binary64.isNaN_sub (Or.inr ?_)
  cases hUnlevelled with
  | notANumber hMem hNaN =>
      have hDivisor : (levelDivisor points).isNaN = true :=
        levelDivisor_of_exists (P := fun x => x.isNaN = true) (fun _ _ => Binary64.isNaN_add)
          (fun _ _ hWeight => Binary64.isNaN_div (Or.inr hWeight)) hMem hNaN
      have hLevel := Binary64.isNaN_div (x := numerator) (Or.inr hDivisor)
      exact Binary64.isNaN_div (Or.inl (Binary64.isNaN_mul (Or.inr hLevel)))
  | void hVoid =>
      -- a divisor with an infinite term makes the level a zero
      have hDivisor : IsEndless (datum (levelDivisor points)) :=
        levelDivisor_of_exists (P := fun x => IsEndless (datum x))
          (fun _ _ => Binary64.isEndless_add) (fun x _ => Binary64.isEndless_div x) hPoint
          (hVoid point hPoint)
      have hLevel := Binary64.isVoid_div numerator hDivisor
      exact Binary64.isNaN_div_of_isVoid
        (Binary64.isVoid_mul (isOrdinary_alternation i) hLevel) (hVoid point hPoint)
  | endless hEndless =>
      -- every term is a zero or none, so the level is an infinity or none
      have hDivisor : IsVoid (datum (levelDivisor points)) :=
        levelDivisor_of_forall (P := fun x => IsVoid (datum x)) (fun _ _ => Binary64.isVoid_add)
          (.zero .positive) (fun x _ => Binary64.isVoid_div x) hEndless
      have hLevel := Binary64.isEndless_div numerator hDivisor
      exact Binary64.isNaN_div_of_isEndless
        (Binary64.isEndless_mul (isOrdinary_alternation i) hLevel) (hEndless point hPoint)

end Unlevelled

/-! ## Responses that are no numbers -/

/-- Nodes, at least one, whose values are no numbers. -/
structure Undefined (nodes : List (Node Float)) : Prop where
  nonempty : nodes ≠ []
  isNaN_value : ∀ node ∈ nodes, node.value.isNaN = true

theorem isNaN_evaluateFrom (snap x denominator : Float) {numerator : Float}
    {nodes : List (Node Float)} (hValues : ∀ node ∈ nodes, node.value.isNaN = true)
    (hSome : numerator.isNaN = true ∨ nodes ≠ []) :
    (evaluateFrom snap x numerator denominator nodes).isNaN = true := by
  -- the value of the node is the answer at its cosine and makes the numerator none elsewhere
  induction nodes generalizing numerator denominator with
  | nil => exact Binary64.isNaN_div (Or.inl (hSome.resolve_right (absurd rfl)))
  | cons node rest ih =>
      obtain ⟨hNode, hRest⟩ := List.forall_mem_cons.mp hValues
      rw [evaluateFrom]
      split
      · exact hNode
      · have hProduct := Binary64.isNaN_mul (x := node.weight / (x - node.cosine)) (Or.inr hNode)
        exact ih _ hRest (Or.inl (Binary64.isNaN_add (Or.inr hProduct)))

section Undefined

variable {nodes : List (Node Float)} (hUndefined : Undefined nodes)

include hUndefined

theorem Undefined.isNaN_response (frequency : Float) : (response nodes frequency).isNaN = true :=
  isNaN_evaluateFrom _ _ _ hUndefined.isNaN_value (Or.inr hUndefined.nonempty)

/-- Errors that are no numbers have no extrema. -/
theorem Undefined.extrema_eq (grid : Array (GridPoint Float)) :
    extrema (weightedErrors grid nodes) = [] := by
  refine List.filter_eq_nil_iff.mpr fun i _ => ?_
  have hError : ((weightedErrors grid nodes)[i]).isNaN = true := by
    have hResponse := hUndefined.isNaN_response grid[i].frequency
    have hValue : (weightedErrors grid nodes)[i] =
        grid[i].weight * (grid[i].gain - response nodes grid[i].frequency) := by
      simp [weightedErrors]
    rw [hValue]
    exact Binary64.isNaN_mul (Or.inr (Binary64.isNaN_sub (Or.inr hResponse)))
  rw [isExtremum_eq_false (Binary64.not_lt_of_isNaN (Or.inr hError))
    (Binary64.not_lt_of_isNaN (Or.inl hError))]
  exact Bool.false_ne_true

theorem Undefined.selectExtrema_eq (grid : Array (GridPoint Float)) {count : ℕ}
    (hCount : 0 < count) :
    selectExtrema count (weightedErrors grid nodes) = .error .filterDesign := by
  rw [selectExtrema, hUndefined.extrema_eq]
  exact if_pos hCount

end Undefined

theorem Undefined.isNaN_tap {length : ℕ} {points : Array (GridPoint Float)}
    {positions : List (Fin points.size)} (hUndefined : Undefined (nodesAt points positions)) :
    ∀ tap ∈ tapsAt length points positions, tap.isNaN = true := by
  intro tap hTap
  rw [tapsAt, List.range_succ_eq_map, List.map_cons] at hTap
  obtain ⟨i, -, rfl⟩ := List.mem_map.mp hTap
  have hConstant := hUndefined.isNaN_response (((0 : ℕ) : Float) / (length : Float))
  exact Binary64.isNaN_div (Or.inl (Binary64.isNaN_add (Or.inl hConstant)))

/-! ## Division by the gain -/

section Normalize

variable {taps kernel : List Float}

theorem isEndless_sum {tap : Float} (hMem : tap ∈ taps) (hEndless : IsEndless (datum tap)) :
    IsEndless (datum (Scalar.sum taps)) :=
  Binary64.foldl_add_of_absorbing (P := fun x => IsEndless (datum x))
    (fun _ _ => Binary64.isEndless_add) (Or.inr ⟨tap, hMem, hEndless⟩)

theorem normalize_of_isEndless (hEndless : IsEndless (datum (Scalar.sum taps))) :
    normalize taps = .ok (taps.map fun tap => tap / Scalar.sum taps) :=
  if_neg (Binary64.not_abs_lt_of_isEndless hEndless _)

theorem isNaN_of_normalize (hNormalize : normalize taps = .ok kernel)
    (hFinite : ∀ tap ∈ taps, ¬IsEndless (datum tap)) : ∀ tap ∈ kernel, ¬tap.isNaN = true := by
  obtain ⟨hGain, rfl⟩ := normalize_eq_ok hNormalize
  have hNumber : ¬(Scalar.sum taps).isNaN = true :=
    Binary64.foldl_add_of_kept (P := fun x => ¬x.isNaN = true)
      (fun _ _ => Binary64.isNaN_add_eq_false) Bool.false_ne_true hFinite
  have hSum : ¬IsVoid (datum (Scalar.sum taps)) := fun hVoid =>
    hGain (Binary64.abs_lt_of_isVoid (Bool.not_eq_true _ ▸ hNumber) hVoid (by decide))
  intro tap hTap
  obtain ⟨designed, hDesigned, rfl⟩ := List.mem_map.mp hTap
  exact Binary64.isNaN_div_eq_false (hFinite designed hDesigned) hSum

/-- A kernel of which some tap is no number comes from taps of which some is not finite. -/
theorem exists_isNaN_normalize_iff :
    (∃ kernel, normalize taps = .ok kernel ∧ ∃ tap ∈ kernel, tap.isNaN = true) ↔
      ∃ tap ∈ taps, tap.isFinite = false := by
  simp only [Binary64.isFinite_eq_false_iff]
  constructor
  · rintro ⟨kernel, hNormalize, tap, hTap, hNaN⟩
    by_contra hFinite
    exact isNaN_of_normalize hNormalize
      (fun designed hDesigned hEndless => hFinite ⟨designed, hDesigned, hEndless⟩) tap hTap hNaN
  · rintro ⟨tap, hTap, hEndless⟩
    have hSum := isEndless_sum hTap hEndless
    exact ⟨_, normalize_of_isEndless hSum, _, List.mem_map_of_mem hTap,
      Binary64.isNaN_div_of_isEndless hEndless hSum⟩

/-- Taps that are no numbers, at least one, are divided by their sum like any others. -/
theorem exists_kernel_of_isNaN (hSome : 0 < taps.length)
    (hTaps : ∀ tap ∈ taps, tap.isNaN = true) :
    ∃ kernel, normalize taps = .ok kernel ∧ kernel.length = taps.length ∧
      ∀ tap ∈ kernel, tap.isNaN = true := by
  obtain ⟨first, hFirst⟩ := List.exists_mem_of_length_pos hSome
  have hSum := isEndless_sum hFirst (Binary64.isEndless_of_isNaN (hTaps first hFirst))
  refine ⟨_, normalize_of_isEndless hSum, List.length_map _, ?_⟩
  exact List.forall_mem_map.mpr fun tap hTap => Binary64.isNaN_div (Or.inl (hTaps tap hTap))

end Normalize

/-! ## Weights of the two bands -/

section Grid

variable {α : Type} [Scalar α] {density r : ℕ} {band : FrequencyBand α}
  {bands : List (FrequencyBand α)}

theorem weight_of_mem_points {step : α} {point : GridPoint α} (hPoint : point ∈ band.points step) :
    point.weight = band.weight := by
  obtain ⟨frequency, -, rfl⟩ := List.mem_map.mp hPoint
  rfl

theorem exists_points_eq_append (step : α) (band : FrequencyBand α) :
    ∃ others last, band.points step = others ++ [last] :=
  ⟨_, _, List.map_append⟩

theorem exists_points_eq_cons (step : α) (band : FrequencyBand α) :
    ∃ first others, band.points step = first :: others := by
  obtain ⟨others, last, hPoints⟩ := exists_points_eq_append step band
  rw [hPoints]
  exact List.exists_cons_of_ne_nil (List.concat_ne_nil last others)

theorem weight_of_mem_grid {point : GridPoint α} (hPoint : point ∈ (grid density r bands).toList) :
    ∃ band ∈ bands, point.weight = band.weight := by
  obtain ⟨band, hBand, hMem⟩ := List.mem_flatMap.mp hPoint
  exact ⟨band, hBand, weight_of_mem_points hMem⟩

theorem weight_first (i : Fin (grid density r (band :: bands)).size) (hFirst : i.val = 0) :
    (grid density r (band :: bands))[i].weight = band.weight := by
  obtain ⟨first, others, hPoints⟩ := exists_points_eq_cons (gridStep density r) band
  have hGrid : grid density r (band :: bands) =
      (first :: (others ++ bands.flatMap (FrequencyBand.points (gridStep density r)))).toArray := by
    rw [grid, List.flatMap_cons, hPoints, List.cons_append]
  have hMem : first ∈ band.points (gridStep density r) := hPoints ▸ List.mem_cons_self
  simpa [hGrid, hFirst] using weight_of_mem_points hMem

theorem weight_last (bands : List (FrequencyBand α))
    (i : Fin (grid density r (bands ++ [band])).size)
    (hLast : i.val = (grid density r (bands ++ [band])).size - 1) :
    (grid density r (bands ++ [band]))[i].weight = band.weight := by
  obtain ⟨others, last, hPoints⟩ := exists_points_eq_append (gridStep density r) band
  have hGrid : grid density r (bands ++ [band]) =
      (bands.flatMap (FrequencyBand.points (gridStep density r)) ++ others ++ [last]).toArray := by
    rw [grid, List.flatMap_append, List.flatMap_singleton, hPoints, List.append_assoc]
  have hMem : last ∈ band.points (gridStep density r) := hPoints ▸ List.mem_concat_self
  simpa [hGrid, hLast] using weight_of_mem_points hMem

end Grid

/-- The exchanges start from the first and the last point among others. -/
theorem exists_mem_startOf {α : Type} {length : ℕ} {points : Array (GridPoint α)}
    (hEnough : length / 2 + 2 ≤ points.size) :
    (∃ i ∈ startOf hEnough, i.val = 0) ∧ ∃ i ∈ startOf hEnough, i.val = points.size - 1 := by
  have hSize := Nat.lt_of_lt_of_le (Nat.succ_pos _) hEnough
  obtain ⟨first, hFirst, hZero⟩ :=
    Option.map_eq_some_iff.mp (head?_spread (length / 2 + 1) hSize)
  obtain ⟨last, hLast, hEnd⟩ :=
    Option.map_eq_some_iff.mp (getLast?_spread (Nat.succ_pos (length / 2)) hSize)
  exact ⟨⟨first, List.mem_of_head? hFirst, hZero⟩, last, List.mem_of_getLast? hLast, hEnd⟩

/-- Error weights of the two bands between which no level is defined: one of them is no number, both
are zero, or both are infinite. -/
inductive WithoutLevel (settings : Settings Float) : Prop
  | pass (hNaN : settings.passWeight.isNaN = true)
  | stop (hNaN : settings.stopWeight.isNaN = true)
  | zero (hPass : (settings.passWeight == 0) = true) (hStop : (settings.stopWeight == 0) = true)
  | infinite (hPass : settings.passWeight.isInf = true) (hStop : settings.stopWeight.isInf = true)

section Request

variable {interval cutoff : Float} {settings : Settings Float}

theorem forall_weight_lowPass {P : Float → Prop} (hPass : P settings.passWeight)
    (hStop : P settings.stopWeight) {density r : ℕ}
    (i : Fin (grid density r (lowPassBands interval cutoff settings)).size) :
    P (grid density r (lowPassBands interval cutoff settings))[i].weight := by
  obtain ⟨band, hBand, hWeight⟩ := weight_of_mem_grid (Array.getElem_mem_toList i.isLt)
  rw [Fin.getElem_fin, hWeight]
  obtain rfl | rfl := List.mem_pair.mp hBand
  · exact hPass
  · exact hStop

/-- The points that the exchanges start from, the first and the last of the grid among them, have no
level when the weights of the two bands have none. -/
theorem WithoutLevel.unlevelled (hWithout : WithoutLevel settings) {length density : ℕ}
    (hEnough : length / 2 + 2 ≤
      (pointsOf length density (lowPassBands interval cutoff settings)).size) :
    Unlevelled ((startOf hEnough).map fun i =>
      (pointsOf length density (lowPassBands interval cutoff settings))[i]) := by
  obtain ⟨⟨first, hFirst, hZero⟩, last, hLast, hEnd⟩ := exists_mem_startOf hEnough
  cases hWithout with
  | pass hNaN =>
      refine .notANumber (List.mem_map_of_mem hFirst) ?_
      exact (weight_first first hZero).symm ▸ hNaN
  | stop hNaN =>
      refine .notANumber (List.mem_map_of_mem hLast) ?_
      exact (weight_last [_] last hEnd).symm ▸ hNaN
  | zero hPass hStop =>
      refine .void (List.forall_mem_map.mpr fun i _ => ?_)
      exact forall_weight_lowPass (P := fun x => IsVoid (datum x))
        (Binary64.isVoid_of_beq_zero hPass) (Binary64.isVoid_of_beq_zero hStop) i
  | infinite hPass hStop =>
      refine .endless (List.forall_mem_map.mpr fun i _ => ?_)
      exact forall_weight_lowPass (P := fun x => IsEndless (datum x))
        (Binary64.isEndless_of_isInf hPass) (Binary64.isEndless_of_isInf hStop) i

theorem WithoutLevel.undefined (hWithout : WithoutLevel settings) {length density : ℕ}
    (hEnough : length / 2 + 2 ≤
      (pointsOf length density (lowPassBands interval cutoff settings)).size) :
    Undefined (nodesAt _ (startOf hEnough)) where
  nonempty := by
    rw [← List.length_pos_iff, nodesAt, length_nodes, List.length_map]
    exact List.length_pos_of_mem (exists_mem_startOf hEnough).1.choose_spec.1
  isNaN_value _ hNode := (hWithout.unlevelled hEnough).isNaN_value hNode

/-- The exchanges of a request without a level fail in the first search. -/
theorem Accepted.lowPassKernel_eq_error (hAccepted : Accepted interval cutoff settings)
    (hUndefined : Undefined (nodesAt _ (startOf hAccepted.enough)))
    (hExchange : settings.maxIterations ≠ 0) :
    lowPassKernel interval cutoff settings = .error .filterDesign := by
  obtain ⟨iterations, hIterations⟩ := Nat.exists_eq_succ_of_ne_zero hExchange
  rw [hAccepted.lowPassKernel_eq, hIterations, exchange,
    hUndefined.selectExtrema_eq _ (Nat.succ_pos _)]
  rfl

/-- Without an exchange its kernel is made of no numbers. -/
theorem Accepted.exists_kernel (hAccepted : Accepted interval cutoff settings)
    (hUndefined : Undefined (nodesAt _ (startOf hAccepted.enough)))
    (hNone : settings.maxIterations = 0) :
    ∃ kernel, lowPassKernel interval cutoff settings = .ok kernel ∧
      kernel.length = settings.kernelLength cutoff interval ∧ ∀ tap ∈ kernel, tap.isNaN = true := by
  have hLength := length_tapsOfAmplitudes (α := Float) (settings.kernelLength cutoff interval)
  have hSome : 0 < settings.kernelLength cutoff interval :=
    Nat.lt_of_lt_of_le (by decide) hAccepted.inOrder.atLeastThree
  obtain ⟨kernel, hKernel, hSame, hNaN⟩ := exists_kernel_of_isNaN
    ((hLength _).symm ▸ hSome) hUndefined.isNaN_tap
  refine ⟨kernel, ?_, hSame.trans (hLength _), hNaN⟩
  rw [hAccepted.lowPassKernel_eq, hNone]
  exact hKernel

/-- A kernel has a tap that is no number exactly when the design has a tap that is not finite.  When
the weights of the two bands have no level between them, a request that passes all checks has a
kernel of no numbers if no exchange is allowed, and otherwise has none. -/
theorem lowPassKernel_notANumber (interval cutoff : Float) (settings : Settings Float) :
    ((∃ kernel, lowPassKernel interval cutoff settings = .ok kernel ∧
        ∃ tap ∈ kernel, tap.isNaN = true) ↔
      Accepted interval cutoff settings ∧
        ∃ taps, design (settings.kernelLength cutoff interval)
            (lowPassBands interval cutoff settings) settings.gridDensity settings.maxIterations =
              .ok taps ∧
          ∃ tap ∈ taps, tap.isFinite = false) ∧
    (Accepted interval cutoff settings → WithoutLevel settings →
      (settings.maxIterations = 0 → ∃ kernel, lowPassKernel interval cutoff settings = .ok kernel ∧
        kernel.length = settings.kernelLength cutoff interval ∧
          ∀ tap ∈ kernel, tap.isNaN = true) ∧
      (settings.maxIterations ≠ 0 →
        lowPassKernel interval cutoff settings = .error .filterDesign)) := by
  constructor
  · constructor
    · rintro ⟨kernel, hKernel, hNaN⟩
      by_cases hInterval : 0 < interval
      · by_cases hCutoff : 0 < cutoff ∧ settings.stopRatio * cutoff < 0.5 / interval
        · rw [lowPassKernel_of_fits hInterval hCutoff] at hKernel
          obtain ⟨taps, hDesign, hNormalize⟩ := Failure.bind_eq_ok.mp hKernel
          exact ⟨accepted_of_design hInterval hCutoff hDesign, taps, hDesign,
            exists_isNaN_normalize_iff.mp ⟨kernel, hNormalize, hNaN⟩⟩
        · rw [lowPassKernel_of_cutoff hInterval hCutoff] at hKernel
          cases hKernel
      · rw [lowPassKernel_of_interval hInterval] at hKernel
        cases hKernel
    · rintro ⟨hAccepted, taps, hDesign, hEndless⟩
      obtain ⟨kernel, hNormalize, hNaN⟩ := exists_isNaN_normalize_iff.mpr hEndless
      refine ⟨kernel, ?_, hNaN⟩
      rw [lowPassKernel_of_fits hAccepted.interval_pos hAccepted.cutoff_fits, hDesign]
      exact hNormalize
  · intro hAccepted hWithout
    have hUndefined := hWithout.undefined hAccepted.enough
    exact ⟨hAccepted.exists_kernel hUndefined, hAccepted.lowPassKernel_eq_error hUndefined⟩

end Request

/-- Settings without any weight. -/
def weightless (iterations : ℕ) : Settings Float where
  passWeight := 0
  stopWeight := 0
  stopRatio := 1.5
  lengthFactor := 1
  gridDensity := 16
  maxIterations := iterations

theorem withoutLevel_weightless (iterations : ℕ) : WithoutLevel (weightless iterations) := by
  have hZero : ((0 : Float) == 0) = true := by decide +kernel
  exact .zero hZero hZero

theorem accepted_weightless (iterations : ℕ) : Accepted 1 0.25 (weightless iterations) where
  interval_pos := by decide
  cutoff_fits := by
    change (0 : Float) < 0.25 ∧ (1.5 : Float) * 0.25 < 0.5 / 1
    decide +kernel
  inOrder := by
    change InOrder ((weightless 0).kernelLength 0.25 1) 16 (lowPassBands 1 0.25 (weightless 0))
    exact ⟨by decide +kernel, by decide +kernel, by decide, by decide +kernel⟩
  enough := by
    change (weightless 0).kernelLength 0.25 1 / 2 + 2 ≤ (pointsOf
      ((weightless 0).kernelLength 0.25 1) 16 (lowPassBands 1 0.25 (weightless 0))).size
    decide +kernel

/-- Five taps that are no numbers are answered without an exchange, and a failure with forty. -/
theorem lowPassKernel_notANumber_weightless :
    (∃ kernel, lowPassKernel 1 0.25 (weightless 0) = .ok kernel ∧ kernel.length = 5 ∧
      ∀ tap ∈ kernel, tap.isNaN = true) ∧
    lowPassKernel 1 0.25 (weightless 40) = .error .filterDesign := by
  have hLength : (weightless 0).kernelLength 0.25 1 = 5 := by decide +kernel
  have hNone := (lowPassKernel_notANumber 1 0.25 (weightless 0)).2
    (accepted_weightless 0) (withoutLevel_weightless 0)
  have hForty := (lowPassKernel_notANumber 1 0.25 (weightless 40)).2
    (accepted_weightless 40) (withoutLevel_weightless 40)
  exact ⟨hLength ▸ hNone.1 rfl, hForty.2 (by decide)⟩

/-- A kernel with a tap that is no number. -/
theorem exists_kernel_notANumber :
    ∃ (interval cutoff : Float) (settings : Settings Float) (kernel : List Float),
      lowPassKernel interval cutoff settings = .ok kernel ∧ ∃ tap ∈ kernel, tap.isNaN = true := by
  have hAccepted := accepted_weightless 0
  obtain ⟨kernel, hKernel, hLength, hNaN⟩ := hAccepted.exists_kernel
    ((withoutLevel_weightless 0).undefined hAccepted.enough) rfl
  have hSome : 0 < kernel.length :=
    hLength ▸ Nat.lt_of_lt_of_le (by decide) hAccepted.inOrder.atLeastThree
  obtain ⟨tap, hTap⟩ := List.exists_mem_of_length_pos hSome
  exact ⟨1, 0.25, weightless 0, kernel, hKernel, tap, hTap, hNaN tap hTap⟩

end Filter
end Pushbroom
