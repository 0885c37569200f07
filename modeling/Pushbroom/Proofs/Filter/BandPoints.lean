import Pushbroom.Proofs.Filter.Tables

namespace Pushbroom
namespace Filter

/-!
# The points of a grid

Every band is laid out in equal steps from its own lower edge and ends on its upper edge.  It has as
many points as its width has steps, rounded, and one at least.  That is one less than a whole number
of steps would need, so the gap before the upper edge is the widest: between one and a half and two
and a half steps.  The points stay in order, and no frequency is one and a half steps away from all
of them, also where a band is so narrow that only its upper edge is left.
-/

variable {K : Type} [Field K] [LinearOrder K] [FloorRing K]

/-- The points of a band: as many as its width has steps, in increasing order within the band, with
its gain and error weight, the last one on its upper edge, and none of its frequencies far from
all of them. -/
structure LaidOut (step : K) (band : FrequencyBand K) (points : List (GridPoint K)) : Prop where
  count : points.length = max 1 ⌊(band.high - band.low) / step + 1 / 2⌋.toNat
  carried : ∀ point ∈ points, point.gain = band.gain ∧ point.weight = band.weight
  inside : ∀ point ∈ points, band.low ≤ point.frequency ∧ point.frequency ≤ band.high
  increasing : points.Pairwise fun first second => first.frequency < second.frequency
  last : points.getLast?.map GridPoint.frequency = some band.high
  near : ∀ frequency, band.low ≤ frequency → frequency ≤ band.high →
    ∃ point ∈ points, |frequency - point.frequency| < 3 * step / 2

/-! ## Counting the points of a band -/

theorem gridStep_eq (density r : ℕ) : (gridStep density r : K) = 1 / (2 * density * r) := by
  rw [gridStep]
  push_cast
  norm_num [mul_assoc, div_div]

theorem length_points (step : K) (band : FrequencyBand K) :
    (band.points step).length = band.pointCount step := by
  have hOne : 1 ≤ band.pointCount step := le_max_left 1 _
  simp only [FrequencyBand.points, FrequencyBand.frequencies, List.length_map, List.length_append,
    List.length_range, List.length_singleton]
  omega

theorem pointCount_eq (step : K) (band : FrequencyBand K) :
    band.pointCount step = max 1 ⌊(band.high - band.low) / step + 1 / 2⌋.toNat := by
  have hHalf : (0.5 : K) = 1 / 2 := by norm_num
  rw [FrequencyBand.pointCount, hHalf]
  rfl

theorem mem_points {step : K} {band : FrequencyBand K} {point : GridPoint K} :
    point ∈ band.points step ↔
      (∃ i : ℕ, i + 1 < band.pointCount step ∧
        point = ⟨band.low + i * step, band.gain, band.weight⟩) ∨
      point = ⟨band.high, band.gain, band.weight⟩ := by
  simp only [FrequencyBand.points, FrequencyBand.frequencies, List.map_append, List.map_map,
    List.mem_append, List.mem_map, List.mem_range, List.map_cons, List.map_nil,
    List.mem_singleton, Function.comp_apply]
  constructor
  · rintro (⟨i, hi, rfl⟩ | rfl)
    · exact .inl ⟨i, by omega, rfl⟩
    · exact .inr rfl
  · rintro (⟨i, hi, rfl⟩ | rfl)
    · exact .inl ⟨i, by omega, rfl⟩
    · exact .inr rfl

variable [IsStrictOrderedRing K]

/-- Rounding the width of a band in steps loses less than half a point. -/
theorem lt_pointCount (step : K) (band : FrequencyBand K) :
    (band.high - band.low) / step - 1 / 2 < band.pointCount step := by
  have hFloor := Int.lt_floor_add_one ((band.high - band.low) / step + 1 / 2)
  have hNat : ((⌊(band.high - band.low) / step + 1 / 2⌋ : ℤ) : K) ≤
      (⌊(band.high - band.low) / step + 1 / 2⌋.toNat : ℕ) := by
    exact_mod_cast Int.self_le_toNat _
  have hCount : (⌊(band.high - band.low) / step + 1 / 2⌋.toNat : K) ≤ band.pointCount step := by
    rw [pointCount_eq]
    exact_mod_cast le_max_right 1 ⌊(band.high - band.low) / step + 1 / 2⌋.toNat
  linarith

omit [IsStrictOrderedRing K] in
/-- Rounding adds half a point at most, unless it makes one of nothing. -/
theorem pointCount_le {step : K} {band : FrequencyBand K} (hMany : 2 ≤ band.pointCount step) :
    (band.pointCount step : K) ≤ (band.high - band.low) / step + 1 / 2 := by
  have hFloor := Int.floor_le ((band.high - band.low) / step + 1 / 2)
  have hCount : (band.pointCount step : ℤ) = ⌊(band.high - band.low) / step + 1 / 2⌋ := by
    rw [pointCount_eq] at hMany ⊢
    omega
  have hCast : (band.pointCount step : K) =
      ((⌊(band.high - band.low) / step + 1 / 2⌋ : ℤ) : K) := by
    exact_mod_cast congrArg (Int.cast : ℤ → K) hCount
  rwa [← hCast] at hFloor

omit [IsStrictOrderedRing K] in
theorem div_gridStep (density r : ℕ) (width : K) :
    width / gridStep density r = 2 * width * (density * r) := by
  rw [gridStep_eq, div_div_eq_mul_div]
  ring

section Band

variable {step : K} (hStep : 0 < step) {band : FrequencyBand K}

include hStep

/-- A point that is laid before the last one is well below the upper edge. -/
theorem laid_lt_high {i : ℕ} (hi : i + 1 < band.pointCount step) :
    band.low + i * step < band.high := by
  have hCount := pointCount_le (by omega : 2 ≤ band.pointCount step)
  rw [← sub_le_iff_le_add, le_div_iff₀ hStep] at hCount
  have hIndex : ((i + 1 : ℕ) : K) * step < band.pointCount step * step := by
    gcongr
  push_cast at hIndex
  linarith

/-- From a frequency past the last whole step it is not far to the upper edge. -/
theorem high_sub_lt {frequency : K}
    (hPast : band.low + (band.pointCount step - 1 : ℕ) * step ≤ frequency) :
    band.high - frequency < 3 * step / 2 := by
  have hOne : 1 ≤ band.pointCount step := le_max_left 1 _
  have hCount := lt_pointCount step band
  rw [sub_lt_iff_lt_add, div_lt_iff₀ hStep] at hCount
  rw [Nat.cast_sub hOne] at hPast
  push_cast at hPast
  linarith

theorem exists_near_point {frequency : K}
    (hLow : band.low ≤ frequency) (hHigh : frequency ≤ band.high) :
    ∃ point ∈ band.points step, |frequency - point.frequency| < 3 * step / 2 := by
  -- the point a whole number of steps below the frequency, as long as it is laid
  have hBelow := Nat.floor_le (div_nonneg (sub_nonneg.mpr hLow) hStep.le)
  have hAbove := Nat.lt_floor_add_one ((frequency - band.low) / step)
  rw [le_div_iff₀ hStep] at hBelow
  rw [div_lt_iff₀ hStep] at hAbove
  by_cases hLaid : ⌊(frequency - band.low) / step⌋₊ + 1 < band.pointCount step
  · refine ⟨_, mem_points.mpr (.inl ⟨_, hLaid, rfl⟩), ?_⟩
    rw [abs_lt]
    constructor <;> linarith
  · refine ⟨_, mem_points.mpr (.inr rfl), ?_⟩
    have hPast : ((band.pointCount step - 1 : ℕ) : K) * step ≤
        ⌊(frequency - band.low) / step⌋₊ * step := by
      gcongr
      omega
    have hEnd := high_sub_lt hStep (by linarith : _ ≤ frequency)
    rw [abs_sub_comm, abs_of_nonneg (sub_nonneg.mpr hHigh)]
    exact hEnd

theorem laidOut_points (hBand : band.low ≤ band.high) : LaidOut step band (band.points step) where
  count := by rw [length_points, pointCount_eq]
  carried point hPoint := by
    rcases mem_points.mp hPoint with ⟨i, -, rfl⟩ | rfl <;> exact ⟨rfl, rfl⟩
  inside point hPoint := by
    rcases mem_points.mp hPoint with ⟨i, hi, rfl⟩ | rfl
    · exact ⟨le_add_of_nonneg_right (by positivity), (laid_lt_high hStep hi).le⟩
    · exact ⟨hBand, le_rfl⟩
  increasing := by
    rw [FrequencyBand.points, List.pairwise_map]
    refine List.pairwise_append.mpr ⟨?_, List.pairwise_singleton _ _, ?_⟩
    · rw [List.pairwise_map]
      refine List.pairwise_lt_range.imp fun {i j} hLess => ?_
      change band.low + (i : K) * step < band.low + (j : K) * step
      gcongr
    · intro frequency hFrequency high hLast
      obtain ⟨i, hi, rfl⟩ := List.mem_map.mp hFrequency
      have hIndex := List.mem_range.mp hi
      rw [List.mem_singleton.mp hLast]
      exact laid_lt_high hStep (by omega)
  last := by simp [FrequencyBand.points, FrequencyBand.frequencies]
  near _ := exists_near_point hStep

end Band

/-! ## All bands -/

omit [Field K] [FloorRing K] [IsStrictOrderedRing K] in
/-- Where edges do not descend, no band ends before it starts or after a later one starts. -/
theorem inOrder_of_edges {bands : List (FrequencyBand K)}
    (hEdges : (edges bands).Pairwise (· ≤ ·)) :
    (∀ band ∈ bands, band.low ≤ band.high) ∧
      bands.Pairwise fun first second => first.high ≤ second.low := by
  rw [edges, List.pairwise_flatMap] at hEdges
  refine ⟨fun band hBand => ?_, hEdges.2.imp fun hBoth => ?_⟩
  · simpa using hEdges.1 band hBand
  · exact hBoth _ (by simp) _ (by simp)

/-- The frequencies of the whole grid are in order, also where bands touch. -/
theorem pairwise_flatMap_points {step : K} (hStep : 0 < step) {bands : List (FrequencyBand K)}
    (hEdges : (edges bands).Pairwise (· ≤ ·)) :
    (bands.flatMap (FrequencyBand.points step)).Pairwise
      fun first second => first.frequency ≤ second.frequency := by
  obtain ⟨hBands, hOrder⟩ := inOrder_of_edges hEdges
  have hLaidOut (band : FrequencyBand K) (hBand : band ∈ bands) :
      LaidOut step band (band.points step) :=
    laidOut_points hStep (hBands band hBand)
  rw [List.pairwise_flatMap]
  refine ⟨fun band hBand => (hLaidOut band hBand).increasing.imp le_of_lt,
    hOrder.imp_of_mem fun {first second} hFirst hSecond hApart point hPoint other hOther => ?_⟩
  calc point.frequency ≤ first.high := ((hLaidOut first hFirst).inside point hPoint).2
    _ ≤ second.low := hApart
    _ ≤ other.frequency := ((hLaidOut second hSecond).inside other hOther).1

/-- The grid of bands whose edges do not descend: every band lays out its points, the frequencies
are in order over the whole grid, and kept in three tables they are as many as the gains and the
error weights. -/
theorem grid_laysOut {density r : ℕ} (hDensity : 1 ≤ density) (hRange : 1 ≤ r)
    {bands : List (FrequencyBand K)} (hEdges : (edges bands).Pairwise (· ≤ ·)) :
    ∃ blocks : List (List (GridPoint K)),
      List.Forall₂ (LaidOut (1 / (2 * (density : K) * r))) bands blocks ∧
      (grid density r bands).toList = blocks.flatten ∧
      blocks.flatten.Pairwise (fun first second => first.frequency ≤ second.frequency) ∧
      ∃ tables, Indexed.denseGrid density r (edges bands) (bands.map FrequencyBand.gain)
          (bands.map FrequencyBand.weight) = .ok tables ∧
        tables = .ofPoints blocks.flatten ∧
        tables.gains.length = tables.frequencies.length ∧
        tables.weights.length = tables.frequencies.length := by
  have hStep : (0 : K) < 1 / (2 * density * r) := by positivity
  have hGrid : (grid density r bands).toList =
      (bands.map (FrequencyBand.points (1 / (2 * (density : K) * r)))).flatten := by
    rw [grid, gridStep_eq, List.flatMap_def]
  refine ⟨_, ?_, hGrid, ?_, _, Indexed.denseGrid_eq density r bands, ?_, ?_, ?_⟩
  · rw [List.forall₂_map_right_iff, List.forall₂_same]
    exact fun band hBand => laidOut_points hStep ((inOrder_of_edges hEdges).1 band hBand)
  · rw [← List.flatMap_def]
    exact pairwise_flatMap_points hStep hEdges
  · rw [hGrid]
  · simp [Indexed.Tables.ofPoints]
  · simp [Indexed.Tables.ofPoints]

/-- A band that is narrower than two steps, a single frequency and a band of four points, the last
of which is more than two steps behind the others. -/
def unevenBands : List (FrequencyBand ℚ) :=
  [⟨0, 1 / 10, 1, 1⟩, ⟨1 / 8, 1 / 8, 1 / 2, 2⟩, ⟨3 / 20, 1 / 2, 0, 10⟩]

theorem grid_laysOut_unevenBands :
    1 ≤ 2 ∧ 1 ≤ 3 ∧ (edges unevenBands).Pairwise (· ≤ ·) ∧
      ∃ blocks : List (List (GridPoint ℚ)),
        List.Forall₂ (LaidOut (1 / 12)) unevenBands blocks ∧
        (grid 2 3 unevenBands).toList = blocks.flatten ∧
        blocks.flatten.map GridPoint.frequency =
          [1 / 10, 1 / 8, 3 / 20, 7 / 30, 19 / 60, 1 / 2] := by
  have hTwo : 1 ≤ 2 := by decide
  have hThree : 1 ≤ 3 := by decide
  have hEdges : (edges unevenBands).Pairwise (· ≤ ·) := by decide +kernel
  have hStep : (1 : ℚ) / (2 * (2 : ℕ) * (3 : ℕ)) = 1 / 12 := by norm_num
  have hFrequencies : (grid 2 3 unevenBands).toList.map GridPoint.frequency =
      [1 / 10, 1 / 8, 3 / 20, 7 / 30, 19 / 60, 1 / 2] := by decide +kernel
  obtain ⟨blocks, hLaidOut, hGrid, -⟩ := grid_laysOut hTwo hThree hEdges
  rw [hStep] at hLaidOut
  exact ⟨hTwo, hThree, hEdges, blocks, hLaidOut, hGrid, hGrid ▸ hFrequencies⟩

end Filter
end Pushbroom
