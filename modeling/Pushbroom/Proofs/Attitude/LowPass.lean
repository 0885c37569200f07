import Pushbroom.Proofs.Attitude.Sampling
import Pushbroom.Proofs.Filter.Smoothing

namespace Pushbroom
namespace Attitude
namespace Sequence

/-!
# Low frequency sequences

The low frequency content of a sequence comes from one linear operator, given by the kernel
and the number of samples, that acts on roll, pitch and yaw of both channels separately.  The
kernel is symmetric and sums to one, so a constant attitude is kept, and so is a uniform
rotation away from the ends: smoothing has no phase.
-/

variable {α : Type}

/-- The numbers of one channel along one axis, sample by sample. -/
def component (sequence : Sequence α) (channel : Channel) (axis : Axis)
    (i : Fin sequence.size) : α :=
  (sequence.samples[(i : Fin sequence.samples.size)].channel channel).coordinate axis

theorem component_eq (sequence : Sequence α) (channel : Channel) (axis : Axis)
    (i : Fin sequence.size) (hSize : sequence.size = (sequence.channel channel).size) :
    sequence.component channel axis i =
      (sequence.channel channel)[i.cast hSize].coordinate axis := by
  simp only [component, Sequence.channel, Fin.getElem_fin, Array.getElem_map]
  rfl

variable {K : Type} [Field K] [LinearOrder K] [FloorRing K]

theorem component_smoothWith (sequence : Sequence K) (kernel : List K) (channel : Channel)
    (axis : Axis) (i : ℕ) (hSmooth : i < (sequence.smoothWith kernel).size)
    (hWhole : i < sequence.size) :
    (sequence.smoothWith kernel).component channel axis ⟨i, hSmooth⟩ =
      Filter.operator kernel sequence.size (sequence.component channel axis) ⟨i, hWhole⟩ := by
  have hSize : sequence.size = (sequence.channel channel).size := by
    simp [Sequence.channel, Sequence.size]
  have hSmoothSize : (sequence.smoothWith kernel).size =
      ((sequence.smoothWith kernel).channel channel).size := by
    simp [Sequence.channel, Sequence.size]
  have hComponent : sequence.component channel axis =
      fun j => (sequence.channel channel)[j.cast hSize].coordinate axis := by
    funext j
    exact component_eq sequence channel axis j hSize
  rw [component_eq _ _ _ _ hSmoothSize, hComponent]
  simp only [channel_smoothWith, Fin.cast_mk, Fin.getElem_fin]
  exact Filter.coordinate_smooth kernel (sequence.channel channel) hSize axis i _ hWhole

variable [IsStrictOrderedRing K]

/-- Whatever even function stands for the cosine, smoothing is one linear operator on the six
components of a sequence, and it keeps constants and, away from the ends, affine trends. -/
theorem lowPass_keeps_trends [Elementary K]
    (hCos : ∀ x : K, Elementary.cos (-x) = Elementary.cos x) {sequence low : Sequence K}
    {cutoff : K} {settings : Filter.Settings K}
    (hLow : sequence.lowPass cutoff settings = .ok low) :
    ∃ kernel half, sequence.kernel cutoff settings = .ok kernel ∧
      kernel.length = settings.kernelLength cutoff sequence.interval ∧
      Filter.SmoothingKernel half kernel ∧
      low.SameSampling sequence ∧
      (∀ channel axis i (hSmooth : i < low.size) (hWhole : i < sequence.size),
        low.component channel axis ⟨i, hSmooth⟩ =
          Filter.operator kernel sequence.size (sequence.component channel axis) ⟨i, hWhole⟩) ∧
      ∀ n, Filter.KeepsTrends half n (Filter.operator kernel n) := by
  obtain ⟨kernel, hKernel, rfl⟩ := lowPass_cases hLow
  obtain ⟨hLength, hSmoothing⟩ := Filter.lowPassKernel_smoothingKernel hCos hKernel
  exact ⟨kernel, kernel.length / 2, hKernel, hLength, hSmoothing,
    sequence.smoothWith_sameSampling kernel, sequence.component_smoothWith kernel,
    hSmoothing.keepsTrends⟩

/-- A sequence shorter than its kernel of five taps. -/
theorem lowPass_keeps_trends_jerk :
    ∃ low kernel half, jerk.lowPass (1 / 4) fiveTaps = .ok low ∧
      jerk.kernel (1 / 4) fiveTaps = .ok kernel ∧
      kernel.length = fiveTaps.kernelLength (1 / 4) jerk.interval ∧
      Filter.SmoothingKernel half kernel ∧
      low.SameSampling jerk ∧
      (∀ channel axis i (hSmooth : i < low.size) (hWhole : i < jerk.size),
        low.component channel axis ⟨i, hSmooth⟩ =
          Filter.operator kernel jerk.size (jerk.component channel axis) ⟨i, hWhole⟩) ∧
      ∀ n, Filter.KeepsTrends half n (Filter.operator kernel n) := by
  have hOk : (jerk.lowPass (1 / 4) fiveTaps).isOk = true := by decide +kernel
  obtain ⟨low, hLow⟩ := Failure.exists_eq_ok_of_isOk hOk
  obtain ⟨kernel, half, hRest⟩ := lowPass_keeps_trends Elementary.triangular_cos_neg hLow
  exact ⟨low, kernel, half, hLow, hRest⟩

end Sequence
end Attitude
end Pushbroom
