import Pushbroom.Filter.Design
import Pushbroom.Proofs.Failure
import Pushbroom.Proofs.Scalar.Exact

namespace Pushbroom
namespace Filter

/-!
# Low pass kernels

Whatever amplitudes the exchange ends with, the taps found from them have the length asked
for, which is odd, and read the same from both ends, because the tap at a distance from the
centre is a sum of cosines of that distance.  Divided by their sum they sum to one.
-/

section Design

variable {α : Type} [Scalar α] [Elementary α]

theorem length_tapsOfAmplitudes (length : Nat) (amplitudes : List α) :
    (tapsOfAmplitudes length amplitudes).length = length := by
  simp [tapsOfAmplitudes]

/-- A design samples the response that is levelled at the points its exchanges end with. -/
theorem exchange_of_design {length : Nat} {bands : List (FrequencyBand α)}
    {density iterations : Nat} {taps : List α}
    (hDesign : design length bands density iterations = .ok taps) :
    ∃ half, length = 2 * half + 1 ∧
      ∃ (hSize : 0 < (grid density (half + 1) bands).size)
        (positions : List (Fin (grid density (half + 1) bands).size)),
        exchange (grid density (half + 1) bands) (half + 2) iterations
            (spread (half + 1) (grid density (half + 1) bands).size hSize) = .ok positions ∧
          taps = tapsOfAmplitudes length ((List.range (half + 1)).map fun (k : Nat) =>
            response (nodesAt (grid density (half + 1) bands) positions)
              ((k : α) / (length : α))) := by
  unfold design at hDesign
  split at hDesign
  · cases hDesign
  · rename_i hValid
    dsimp only at hDesign
    split at hDesign
    · obtain ⟨positions, hExchange, hTaps⟩ := Failure.bind_eq_ok.mp hDesign
      cases hTaps
      exact ⟨length / 2, by omega, _, positions, hExchange, rfl⟩
    · cases hDesign

theorem design_cases {length : Nat} {bands : List (FrequencyBand α)} {density iterations : Nat}
    {taps : List α} (hDesign : design length bands density iterations = .ok taps) :
    length % 2 = 1 ∧ ∃ amplitudes, taps = tapsOfAmplitudes length amplitudes := by
  obtain ⟨half, hLength, _, positions, _, hTaps⟩ := exchange_of_design hDesign
  exact ⟨by omega, _, hTaps⟩

/-- A low pass kernel is a design of the length that its settings ask for, normalized. -/
theorem lowPassKernel_cases {interval cutoff : α} {settings : Settings α} {kernel : List α}
    (hKernel : lowPassKernel interval cutoff settings = .ok kernel) :
    settings.kernelLength cutoff interval % 2 = 1 ∧ ∃ amplitudes,
      normalize (tapsOfAmplitudes (settings.kernelLength cutoff interval) amplitudes) =
        .ok kernel := by
  unfold lowPassKernel at hKernel
  split at hKernel
  · cases hKernel
  · split at hKernel
    · cases hKernel
    · obtain ⟨taps, hDesign, hNormalize⟩ := Failure.bind_eq_ok.mp hKernel
      obtain ⟨hOdd, amplitudes, rfl⟩ := design_cases hDesign
      exact ⟨hOdd, amplitudes, hNormalize⟩

end Design

/-! ## Symmetry and sum -/

variable {K : Type} [Field K] [LinearOrder K] [FloorRing K]

/-- A kernel of odd length that reads the same from both ends and sums to one. -/
structure SmoothingKernel (half : Nat) (kernel : List K) : Prop where
  length : kernel.length = 2 * half + 1
  symmetric : kernel.reverse = kernel
  sum : kernel.sum = 1

theorem reverse_tapsOfAmplitudes [Elementary K]
    (hCos : ∀ x : K, Elementary.cos (-x) = Elementary.cos x) {length : Nat}
    (hOdd : length % 2 = 1) (amplitudes : List K) :
    (tapsOfAmplitudes length amplitudes).reverse = tapsOfAmplitudes length amplitudes := by
  apply List.ext_getElem
  · simp
  · intro i hReverse hTaps
    have hIndex : i < length := by simpa [length_tapsOfAmplitudes] using hTaps
    -- the opposite tap is at the opposite distance from the centre
    have hPhase : (Elementary.turn : K) *
          (((length - 1 - i : Nat) : K) - (((length - 1) / 2 : Nat) : K)) / (length : K) =
        -(Elementary.turn * ((i : K) - (((length - 1) / 2 : Nat) : K)) / (length : K)) := by
      have hOpposite : length - 1 - i + i = 2 * ((length - 1) / 2) := by omega
      have hCast : ((length - 1 - i : Nat) : K) + (i : K) =
          2 * (((length - 1) / 2 : Nat) : K) := by exact_mod_cast hOpposite
      linear_combination (Elementary.turn / (length : K)) * hCast
    rw [List.getElem_reverse]
    simp only [tapsOfAmplitudes, List.length_map, List.length_range, List.getElem_map,
      List.getElem_range, hPhase]
    cases amplitudes with
    | nil => rfl
    | cons constant others => simp only [neg_mul, hCos]

variable [IsStrictOrderedRing K]

theorem normalize_cases {taps kernel : List K} (hNormalize : normalize taps = .ok kernel) :
    taps.sum ≠ 0 ∧ kernel = taps.map fun tap => tap / taps.sum := by
  unfold normalize at hNormalize
  simp only [Scalar.sum_eq, Scalar.abs_eq] at hNormalize
  split at hNormalize
  · cases hNormalize
  · rename_i hGain
    cases hNormalize
    refine ⟨?_, rfl⟩
    intro hZero
    apply hGain
    rw [hZero, abs_zero]
    unfold leastGain
    positivity

theorem lowPassKernel_smoothingKernel [Elementary K]
    (hCos : ∀ x : K, Elementary.cos (-x) = Elementary.cos x) {interval cutoff : K}
    {settings : Settings K} {kernel : List K}
    (hKernel : lowPassKernel interval cutoff settings = .ok kernel) :
    kernel.length = settings.kernelLength cutoff interval ∧
      SmoothingKernel (kernel.length / 2) kernel := by
  obtain ⟨hOdd, amplitudes, hNormalize⟩ := lowPassKernel_cases hKernel
  obtain ⟨hSum, rfl⟩ := normalize_cases hNormalize
  have hLength := length_tapsOfAmplitudes (settings.kernelLength cutoff interval) amplitudes
  refine ⟨by rw [List.length_map, hLength], ?_, ?_, ?_⟩
  · rw [List.length_map, hLength]
    omega
  · rw [← List.map_reverse, reverse_tapsOfAmplitudes hCos hOdd]
  · simp only [div_eq_mul_inv, List.sum_map_mul_right, List.map_id']
    exact mul_inv_cancel₀ hSum

end Filter
end Pushbroom
