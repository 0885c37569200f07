import Pushbroom.Proofs.Filter.Exchange
import Pushbroom.Proofs.Filter.Kernel

namespace Pushbroom
namespace Filter

/-!
# Requests for a design

A design checks its arguments and whether its grid has enough points before the first exchange.
A request that passes fails in two ways only: a search finds too few extrema, or the taps have no
gain to be divided by.
-/

variable {α : Type} [Scalar α]

/-- The arguments of a design are in order. -/
structure InOrder (length density : ℕ) (bands : List (FrequencyBand α)) : Prop where
  atLeastThree : 3 ≤ length
  odd : length % 2 = 1
  dense : 0 < density
  admissible : admissible bands = true

/-- The points on which a design of the given length is checked. -/
def pointsOf (length density : ℕ) (bands : List (FrequencyBand α)) : Array (GridPoint α) :=
  grid density (length / 2 + 1) bands

/-- The positions that a design of the given length starts from. -/
def startOf {length : ℕ} {points : Array (GridPoint α)} (hEnough : length / 2 + 2 ≤ points.size) :
    List (Fin points.size) :=
  spread (length / 2 + 1) points.size (Nat.lt_of_lt_of_le (Nat.succ_pos _) hEnough)

theorem head?_spread (r : ℕ) {size : ℕ} (hSize : 0 < size) :
    (spread r size hSize).head?.map Fin.val = some 0 := by
  simp [spread, List.finRange_succ]

theorem getLast?_spread {r : ℕ} (hPositive : 0 < r) {size : ℕ} (hSize : 0 < size) :
    (spread r size hSize).getLast?.map Fin.val = some (size - 1) := by
  simp [spread, List.finRange_succ_last, Nat.mul_div_cancel_left _ hPositive]

/-! ## Failures of a search and of a division by the gain -/

theorem selectExtrema_eq_error {n count : ℕ} {errors : Vector α n} {error : Error α}
    (hSelect : selectExtrema count errors = .error error) :
    error = .filterDesign ∧ (extrema errors).length < count := by
  unfold selectExtrema at hSelect
  dsimp only at hSelect
  split at hSelect
  · rename_i hFew
    cases hSelect
    exact ⟨rfl, hFew⟩
  · cases hSelect

theorem normalize_eq_error {taps : List α} {error : Error α}
    (hNormalize : normalize taps = .error error) :
    error = .filterDesign ∧ Scalar.abs (Scalar.sum taps) < leastGain := by
  unfold normalize at hNormalize
  dsimp only at hNormalize
  split at hNormalize
  · rename_i hGain
    cases hNormalize
    exact ⟨rfl, hGain⟩
  · cases hNormalize

theorem normalize_eq_ok {taps kernel : List α} (hNormalize : normalize taps = .ok kernel) :
    ¬Scalar.abs (Scalar.sum taps) < leastGain ∧
      kernel = taps.map fun tap => tap / Scalar.sum taps := by
  unfold normalize at hNormalize
  dsimp only at hNormalize
  split at hNormalize
  · cases hNormalize
  · rename_i hGain
    cases hNormalize
    exact ⟨hGain, rfl⟩

/-! ## Designs -/

variable [Elementary α]

/-- The taps of the response that is levelled at some points of the grid. -/
def tapsAt (length : ℕ) (points : Array (GridPoint α)) (positions : List (Fin points.size)) :
    List α :=
  tapsOfAmplitudes length ((List.range (length / 2 + 1)).map fun (k : ℕ) =>
    response (nodesAt points positions) ((k : α) / (length : α)))

/-- Exchanges fail at positions whose errors have too few extrema. -/
theorem Reaches.of_exchange_eq_error {grid : Array (GridPoint α)} {count iterations : ℕ}
    {start positions : List (Fin grid.size)} {error : Error α}
    (hReached : Reaches grid count start positions)
    (hExchange : exchange grid count iterations positions = .error error) :
    error = .filterDesign ∧ ∃ last, Reaches grid count start last ∧
      (extrema (weightedErrors grid (nodesAt grid last))).length < count := by
  induction iterations generalizing positions with
  | zero => cases hExchange
  | succ iterations ih =>
      rcases Failure.bind_eq_error.mp hExchange with hSelect | ⟨next, hSelect, hRest⟩
      · obtain ⟨hError, hFew⟩ := selectExtrema_eq_error hSelect
        exact ⟨hError, positions, hReached, hFew⟩
      · split at hRest
        · cases hRest
        · exact ih (hReached.next hSelect) hRest

/-- What a request that passes all checks is answered by. -/
theorem InOrder.design_eq {length density : ℕ} {bands : List (FrequencyBand α)}
    (hOrder : InOrder length density bands)
    (hEnough : length / 2 + 2 ≤ (pointsOf length density bands).size) (iterations : ℕ) :
    design length bands density iterations =
      exchange (pointsOf length density bands) (length / 2 + 2) iterations (startOf hEnough) >>=
        fun positions => .ok (tapsAt length (pointsOf length density bands) positions) := by
  have hPasses :
      ¬(length < 3 ∨ length % 2 = 0 ∨ density = 0 ∨ Filter.admissible bands = false) := by
    rintro (hShort | hEven | hSparse | hBands)
    · exact absurd hOrder.atLeastThree (Nat.not_le.mpr hShort)
    · exact absurd (hOrder.odd.symm.trans hEven) Nat.one_ne_zero
    · exact absurd hSparse hOrder.dense.ne'
    · exact absurd (hOrder.admissible.symm.trans hBands) Bool.noConfusion
  rw [design, if_neg hPasses]
  exact dif_pos hEnough

/-- A request that a check refuses. -/
theorem design_eq_error_of_refused {length density : ℕ} {bands : List (FrequencyBand α)}
    (hRefused : InOrder length density bands →
      ¬length / 2 + 2 ≤ (pointsOf length density bands).size) (iterations : ℕ) :
    design length bands density iterations = .error .filterDesign := by
  unfold design
  split
  · rfl
  · rename_i hPasses
    have hOrder : InOrder length density bands := ⟨by omega, by omega, by omega, by simp_all⟩
    exact dif_neg (hRefused hOrder)

theorem design_eq_error {length density iterations : ℕ} {bands : List (FrequencyBand α)}
    {error : Error α} (hDesign : design length bands density iterations = .error error) :
    error = .filterDesign := by
  by_cases hPasses : InOrder length density bands ∧
      length / 2 + 2 ≤ (pointsOf length density bands).size
  · rw [hPasses.1.design_eq hPasses.2] at hDesign
    rcases Failure.bind_eq_error.mp hDesign with hExchange | ⟨positions, _, hTaps⟩
    · exact (Reaches.start.of_exchange_eq_error hExchange).1
    · cases hTaps
  · rw [design_eq_error_of_refused (not_and.mp hPasses)] at hDesign
    cases hDesign
    rfl

/-! ## Low pass requests -/

/-- A low pass request that passes every check. -/
structure Accepted (interval cutoff : α) (settings : Settings α) : Prop where
  interval_pos : 0 < interval
  cutoff_fits : 0 < cutoff ∧ settings.stopRatio * cutoff < 0.5 / interval
  inOrder : InOrder (settings.kernelLength cutoff interval) settings.gridDensity
    (lowPassBands interval cutoff settings)
  enough : settings.kernelLength cutoff interval / 2 + 2 ≤
    (pointsOf (settings.kernelLength cutoff interval) settings.gridDensity
      (lowPassBands interval cutoff settings)).size

variable {interval cutoff : α} {settings : Settings α}

theorem lowPassKernel_of_interval (hInterval : ¬0 < interval) (cutoff : α)
    (settings : Settings α) :
    lowPassKernel interval cutoff settings = .error (.sampleTime interval) := by
  rw [lowPassKernel, if_pos hInterval]

theorem lowPassKernel_of_cutoff (hInterval : 0 < interval)
    (hCutoff : ¬(0 < cutoff ∧ settings.stopRatio * cutoff < 0.5 / interval)) :
    lowPassKernel interval cutoff settings = .error (.cutoffFrequency cutoff) := by
  rw [lowPassKernel, if_neg (not_not.mpr hInterval), if_pos hCutoff]

/-- A cut-off frequency that suits the sampling interval is designed for. -/
theorem lowPassKernel_of_fits (hInterval : 0 < interval)
    (hCutoff : 0 < cutoff ∧ settings.stopRatio * cutoff < 0.5 / interval) :
    lowPassKernel interval cutoff settings =
      design (settings.kernelLength cutoff interval) (lowPassBands interval cutoff settings)
        settings.gridDensity settings.maxIterations >>= normalize := by
  rw [lowPassKernel, if_neg (not_not.mpr hInterval), if_neg (not_not.mpr hCutoff)]

/-- The causes for which a low pass request has no kernel. -/
theorem lowPassKernel_eq_error {error : Error α}
    (hKernel : lowPassKernel interval cutoff settings = .error error) :
    error = .sampleTime interval ∨ error = .cutoffFrequency cutoff ∨ error = .filterDesign := by
  by_cases hInterval : 0 < interval
  · by_cases hCutoff : 0 < cutoff ∧ settings.stopRatio * cutoff < 0.5 / interval
    · rw [lowPassKernel_of_fits hInterval hCutoff] at hKernel
      rcases Failure.bind_eq_error.mp hKernel with hDesign | ⟨taps, _, hNormalize⟩
      · exact Or.inr (Or.inr (design_eq_error hDesign))
      · exact Or.inr (Or.inr (normalize_eq_error hNormalize).1)
    · rw [lowPassKernel_of_cutoff hInterval hCutoff] at hKernel
      cases hKernel
      exact Or.inr (Or.inl rfl)
  · rw [lowPassKernel_of_interval hInterval] at hKernel
    cases hKernel
    exact Or.inl rfl

theorem length_lowPassKernel {kernel : List α}
    (hKernel : lowPassKernel interval cutoff settings = .ok kernel) :
    kernel.length = settings.kernelLength cutoff interval := by
  obtain ⟨-, amplitudes, hNormalize⟩ := lowPassKernel_cases hKernel
  obtain ⟨-, rfl⟩ := normalize_eq_ok hNormalize
  rw [List.length_map, length_tapsOfAmplitudes]

/-- An accepted request is answered by its exchanges and their taps. -/
theorem Accepted.lowPassKernel_eq (hAccepted : Accepted interval cutoff settings) :
    lowPassKernel interval cutoff settings =
      exchange (pointsOf (settings.kernelLength cutoff interval) settings.gridDensity
          (lowPassBands interval cutoff settings))
          (settings.kernelLength cutoff interval / 2 + 2) settings.maxIterations
          (startOf hAccepted.enough) >>= fun positions =>
        normalize (tapsAt (settings.kernelLength cutoff interval) _ positions) := by
  rw [lowPassKernel_of_fits hAccepted.interval_pos hAccepted.cutoff_fits,
    hAccepted.inOrder.design_eq hAccepted.enough, bind_assoc]
  rfl

/-- Only accepted requests have kernels. -/
theorem accepted_of_design {taps : List α} (hInterval : 0 < interval)
    (hCutoff : 0 < cutoff ∧ settings.stopRatio * cutoff < 0.5 / interval)
    (hDesign : design (settings.kernelLength cutoff interval)
      (lowPassBands interval cutoff settings) settings.gridDensity settings.maxIterations =
        .ok taps) : Accepted interval cutoff settings := by
  by_contra hRefused
  rw [design_eq_error_of_refused fun hOrder hEnough =>
    hRefused ⟨hInterval, hCutoff, hOrder, hEnough⟩] at hDesign
  cases hDesign

end Filter
end Pushbroom
