import Pushbroom.Proofs.Filter.BandPoints
import Pushbroom.Proofs.Filter.Requests

namespace Pushbroom
namespace Filter

/-!
# Low pass requests

In exact arithmetic a cut-off frequency that suits the sampling interval always makes a request
that passes the checks of a design: at least two periods of the cut-off frequency fit between two
samples per period, so there are three taps or more, and the two bands together are wide enough
for the points of the grid.
-/

variable {K : Type} [Field K] [LinearOrder K] [FloorRing K]

/-! ## Points of the grid -/

theorem size_grid_pair (density r : ℕ) (first second : FrequencyBand K) :
    (grid density r [first, second]).size =
      first.pointCount (gridStep density r) + second.pointCount (gridStep density r) := by
  simp [grid, length_points]

/-- Half the sampling rate. -/
theorem half_div_eq (interval : K) : (0.5 : K) / interval = 1 / (2 * interval) := by
  norm_num
  ring

variable [IsStrictOrderedRing K]

/-- What a low pass filter is asked for: a stop band that starts at or beyond the cut-off frequency
and below half the sampling rate, a kernel of one period at least, and a grid whose density is twice
the ratio of the two frequencies. -/
structure Suits (interval cutoff : K) (settings : Settings K) : Prop where
  cutoff_pos : 0 < cutoff
  one_le_stopRatio : 1 ≤ settings.stopRatio
  one_le_lengthFactor : 1 ≤ settings.lengthFactor
  dense : 2 * settings.stopRatio ≤ settings.gridDensity
  below_nyquist : settings.stopRatio * cutoff < 1 / (2 * interval)

variable {interval cutoff : K} {settings : Settings K}

section Suits

variable (hInterval : 0 < interval) (hSuits : Suits interval cutoff settings)

include hInterval hSuits

/-- The stop band starts below half a cycle per sample. -/
theorem Suits.stop_lt : settings.stopRatio * (cutoff * interval) < 1 / 2 := by
  have hBelow := hSuits.below_nyquist
  rw [lt_div_iff₀ (by positivity)] at hBelow
  linarith

omit [FloorRing K] in
theorem Suits.cutoff_le : cutoff * interval ≤ settings.stopRatio * (cutoff * interval) :=
  le_mul_of_one_le_left (mul_pos hSuits.cutoff_pos hInterval).le hSuits.one_le_stopRatio

/-- More than two samples are taken in a period of the cut-off frequency. -/
theorem Suits.two_le_periods : 2 ≤ Scalar.toPosition (1 / (cutoff * interval)) := by
  have hPass : 0 < cutoff * interval := mul_pos hSuits.cutoff_pos hInterval
  have hTwo : (2 : ℤ) ≤ ⌊1 / (cutoff * interval)⌋ := by
    rw [Int.le_floor, le_div_iff₀ hPass]
    push_cast
    linarith [hSuits.cutoff_le hInterval, hSuits.stop_lt hInterval]
  change 2 ≤ ⌊1 / (cutoff * interval)⌋.toNat
  omega

theorem Suits.kernelLength_odd : settings.kernelLength cutoff interval % 2 = 1 ∧
    3 ≤ settings.kernelLength cutoff interval := by
  have hPeriods := hSuits.two_le_periods hInterval
  have hFactor := hSuits.one_le_lengthFactor
  have hProduct : 1 * 2 ≤ settings.lengthFactor * Scalar.toPosition (1 / (cutoff * interval)) :=
    Nat.mul_le_mul hFactor hPeriods
  rw [Settings.kernelLength]
  split <;> omega

theorem Suits.admissible : admissible (lowPassBands interval cutoff settings) = true := by
  have hPass : 0 < cutoff * interval := mul_pos hSuits.cutoff_pos hInterval
  have hApart : cutoff * interval ≤ settings.stopRatio * cutoff * interval := by
    rw [mul_assoc]
    exact hSuits.cutoff_le hInterval
  have hEdge : settings.stopRatio * cutoff * interval ≤ (0.5 : K) := by
    rw [mul_assoc]
    norm_num
    linarith [hSuits.stop_lt hInterval]
  have hHalf : (0 : K) ≤ 0.5 := by norm_num
  simp [Filter.admissible, lowPassBands, edges, descends, hPass.le, hApart, hEdge, hHalf,
    hPass.le.trans hApart, hApart.trans hEdge]

theorem Suits.inOrder : InOrder (settings.kernelLength cutoff interval) settings.gridDensity
    (lowPassBands interval cutoff settings) where
  atLeastThree := (hSuits.kernelLength_odd hInterval).2
  odd := (hSuits.kernelLength_odd hInterval).1
  dense := by
    have hDense := hSuits.dense
    have hRatio := hSuits.one_le_stopRatio
    have hPositive : (0 : K) < settings.gridDensity := by linarith
    exact_mod_cast hPositive
  admissible := hSuits.admissible hInterval

/-- What the bands leave out between them is outweighed by the density of the grid. -/
theorem Suits.two_le_covered : 2 ≤ (2 * (cutoff * interval) + 1 -
    2 * (settings.stopRatio * (cutoff * interval))) * settings.gridDensity := by
  have hPass : 0 < cutoff * interval := mul_pos hSuits.cutoff_pos hInterval
  have hStop := hSuits.stop_lt hInterval
  have hRatio := hSuits.one_le_stopRatio
  have hDense := hSuits.dense
  generalize cutoff * interval = pass at hPass hStop ⊢
  generalize settings.stopRatio = ratio at hStop hRatio hDense ⊢
  have hWidth : 0 ≤ 1 - 2 * (ratio * pass) := by linarith
  have hCovered : 0 ≤ 2 * pass + 1 - 2 * (ratio * pass) := by linarith
  calc (2 : K) = 2 * (2 * (ratio * pass) + 1 * (1 - 2 * (ratio * pass))) := by ring
    _ ≤ 2 * (2 * (ratio * pass) + ratio * (1 - 2 * (ratio * pass))) := by gcongr
    _ = (2 * pass + 1 - 2 * (ratio * pass)) * (2 * ratio) := by ring
    _ ≤ (2 * pass + 1 - 2 * (ratio * pass)) * settings.gridDensity := by gcongr

/-- However narrow one of the bands is, the two have at least `2 * r` points together. -/
theorem Suits.two_mul_le_size (r : ℕ) :
    2 * r ≤ (grid settings.gridDensity r (lowPassBands interval cutoff settings)).size := by
  obtain ⟨pass, stop, hBands, hPassWidth, hStopWidth⟩ : ∃ pass stop : FrequencyBand K,
      lowPassBands interval cutoff settings = [pass, stop] ∧
        pass.high - pass.low = cutoff * interval ∧
        stop.high - stop.low = 1 / 2 - settings.stopRatio * (cutoff * interval) := by
    refine ⟨_, _, rfl, sub_zero _, ?_⟩
    norm_num [mul_assoc]
  have hPass := lt_pointCount (gridStep settings.gridDensity r) pass
  have hStop := lt_pointCount (gridStep settings.gridDensity r) stop
  rw [hPassWidth, div_gridStep] at hPass
  rw [hStopWidth, div_gridStep] at hStop
  have hCovered : (2 : K) * r ≤ (2 * (cutoff * interval) + 1 -
      2 * (settings.stopRatio * (cutoff * interval))) * settings.gridDensity * r :=
    mul_le_mul_of_nonneg_right (hSuits.two_le_covered hInterval) (Nat.cast_nonneg r)
  -- each band loses less than half a point, so both together lose less than one
  have hTotal : (2 * r : K) < pass.pointCount (gridStep settings.gridDensity r) +
      stop.pointCount (gridStep settings.gridDensity r) + 1 := by
    linarith
  rw [hBands, size_grid_pair]
  exact Nat.le_of_lt_succ (by exact_mod_cast hTotal)

theorem Suits.enough : settings.kernelLength cutoff interval / 2 + 2 ≤
    (pointsOf (settings.kernelLength cutoff interval) settings.gridDensity
      (lowPassBands interval cutoff settings)).size := by
  have hSize := hSuits.two_mul_le_size hInterval (settings.kernelLength cutoff interval / 2 + 1)
  have hLength := (hSuits.kernelLength_odd hInterval).2
  rw [pointsOf]
  omega

theorem Suits.accepted : Accepted interval cutoff settings where
  interval_pos := hInterval
  cutoff_fits := ⟨hSuits.cutoff_pos, half_div_eq interval ▸ hSuits.below_nyquist⟩
  inOrder := hSuits.inOrder hInterval
  enough := hSuits.enough hInterval

end Suits

/-- A low pass request that suits the sampling interval passes every check of a design and starts
from positions that increase from the first point of the grid to the last.  It then fails only where
a search finds too few extrema or the taps have no gain.  A cut-off frequency that is not positive,
or whose stop band starts beyond half the sampling rate, is refused whatever the settings are. -/
theorem lowPassKernel_request [Elementary K] {interval : K} (hInterval : 0 < interval) (cutoff : K)
    (settings : Settings K) :
    (Suits interval cutoff settings →
      let length := settings.kernelLength cutoff interval
      let bands := lowPassBands interval cutoff settings
      let points := pointsOf length settings.gridDensity bands
      InOrder length settings.gridDensity bands ∧
        ∃ hEnough : length / 2 + 2 ≤ points.size,
          (startOf hEnough).length = length / 2 + 2 ∧ (startOf hEnough).Pairwise (· < ·) ∧
          (startOf hEnough).head?.map Fin.val = some 0 ∧
          (startOf hEnough).getLast?.map Fin.val = some (points.size - 1) ∧
          ∀ error, lowPassKernel interval cutoff settings = .error error →
            error = .filterDesign ∧
            ((∃ positions, Reaches points (length / 2 + 2) (startOf hEnough) positions ∧
                (extrema (weightedErrors points (nodesAt points positions))).length <
                  length / 2 + 2) ∨
              ∃ positions, exchange points (length / 2 + 2) settings.maxIterations
                  (startOf hEnough) = .ok positions ∧
                |(tapsAt length points positions).sum| < leastGain)) ∧
      (cutoff ≤ 0 ∨ 1 / (2 * interval) ≤ settings.stopRatio * cutoff →
        lowPassKernel interval cutoff settings = .error (.cutoffFrequency cutoff)) := by
  refine ⟨fun hSuits => ?_, fun hRefused => ?_⟩
  · intro length bands points
    have hEnough : length / 2 + 2 ≤ points.size := hSuits.enough hInterval
    refine ⟨hSuits.inOrder hInterval, hEnough, length_spread _ _ _,
      spread_pairwise (Nat.succ_pos _) hEnough _, head?_spread _ _,
      getLast?_spread (Nat.succ_pos _) _, fun error hFails => ?_⟩
    rw [(hSuits.accepted hInterval).lowPassKernel_eq] at hFails
    rcases Failure.bind_eq_error.mp hFails with hExchange | ⟨positions, hExchange, hNormalize⟩
    · obtain ⟨hError, hFew⟩ := Reaches.start.of_exchange_eq_error hExchange
      exact ⟨hError, Or.inl hFew⟩
    · obtain ⟨hError, hGain⟩ := normalize_eq_error hNormalize
      rw [Scalar.abs_eq, Scalar.sum_eq] at hGain
      exact ⟨hError, Or.inr ⟨positions, hExchange, hGain⟩⟩
  · refine lowPassKernel_of_cutoff hInterval fun hCutoff => ?_
    rcases hRefused with hNegative | hBeyond
    · exact absurd hCutoff.1 (not_lt.mpr hNegative)
    · exact absurd (half_div_eq interval ▸ hCutoff.2) (not_lt.mpr hBeyond)

/-- Settings without a gap between the bands and with the sparsest grid. -/
def sparsest : Settings ℚ where
  passWeight := 1
  stopWeight := 1
  stopRatio := 1
  lengthFactor := 1
  gridDensity := 2
  maxIterations := 0

/-- A grid of six points for five taps, whose design starts from four of them, and a cut-off
frequency of zero. -/
theorem lowPassKernel_request_sparsest :
    let length := sparsest.kernelLength (1 / 4) 1
    let bands := lowPassBands 1 (1 / 4) sparsest
    let points := pointsOf length sparsest.gridDensity bands
    length = 5 ∧ points.size = 6 ∧ InOrder length sparsest.gridDensity bands ∧
      (∃ hEnough : length / 2 + 2 ≤ points.size,
        (startOf hEnough).length = 4 ∧ (startOf hEnough).Pairwise (· < ·)) ∧
      lowPassKernel 1 0 sparsest = .error (.cutoffFrequency 0) := by
  have hSuits : Suits 1 (1 / 4) sparsest := by
    constructor <;> norm_num [sparsest]
  have hLength : sparsest.kernelLength (1 / 4) 1 = 5 := by decide +kernel
  have hSize : (pointsOf 5 sparsest.gridDensity (lowPassBands 1 (1 / 4) sparsest)).size = 6 := by
    decide +kernel
  obtain ⟨hOrder, hEnough, hCount, hIncreasing, -⟩ :=
    (lowPassKernel_request one_pos (1 / 4) sparsest).1 hSuits
  refine ⟨hLength, hLength ▸ hSize, hOrder, ⟨hEnough, ?_, hIncreasing⟩,
    (lowPassKernel_request one_pos 0 sparsest).2 (Or.inl le_rfl)⟩
  rw [hCount, hLength]

end Filter
end Pushbroom
