import Pushbroom.Attitude.Bias
import Pushbroom.Attitude.Smoothing
import Pushbroom.Proofs.Failure
import Pushbroom.Proofs.Scalar.Exact

namespace Pushbroom
namespace Attitude
namespace Sequence

/-!
# What the operations on sequences keep

Smoothing, subtraction and the transfer of a mean change the attitudes of a sequence.  Its
epoch, its sampling interval and the number and the times of its samples stay as they are.
-/

variable {α : Type}

/-- Two sequences are sampled at the same times, counted from the same epoch. -/
structure SameSampling (left right : Sequence α) : Prop where
  epoch : left.epoch = right.epoch
  interval : left.interval = right.interval
  size : left.size = right.size
  times : left.samples.map Sample.time = right.samples.map Sample.time

theorem SameSampling.trans {first second third : Sequence α}
    (hFirst : first.SameSampling second) (hSecond : second.SameSampling third) :
    first.SameSampling third where
  epoch := hFirst.epoch.trans hSecond.epoch
  interval := hFirst.interval.trans hSecond.interval
  size := hFirst.size.trans hSecond.size
  times := hFirst.times.trans hSecond.times

/-- A function of samples that keeps the time of each keeps the sampling. -/
theorem mapSamples_sameSampling {f : Sample α → Sample α}
    (hTime : ∀ sample, (f sample).time = sample.time) (sequence : Sequence α) :
    (sequence.mapSamples f).SameSampling sequence where
  epoch := rfl
  interval := rfl
  size := by simp [mapSamples, Sequence.size]
  times := by simp [mapSamples, Function.comp_def, hTime]

variable [Scalar α]

/-- The smoothed angles of a channel are the smoothed signal of that channel. -/
theorem channel_smoothWith (sequence : Sequence α) (kernel : List α) (channel : Channel) :
    (sequence.smoothWith kernel).channel channel =
      Filter.smooth kernel (sequence.channel channel) := by
  apply Array.ext
  · simp [smoothWith, Sequence.channel, Filter.smooth]
  · intro i hLeft hRight
    cases channel <;> simp [smoothWith, Sequence.channel, Sample.channel]

theorem smoothWith_sameSampling (sequence : Sequence α) (kernel : List α) :
    (sequence.smoothWith kernel).SameSampling sequence where
  epoch := rfl
  interval := rfl
  size := by simp [smoothWith, Sequence.size, Sequence.channel, Filter.smooth]
  times := by
    apply Array.ext
    · simp [smoothWith, Sequence.channel, Filter.smooth]
    · intro i hLeft hRight
      simp [smoothWith]

/-- A sequence that can be subtracted leaves the sampling of the one it is taken from. -/
theorem subtract_sameSampling {left right difference : Sequence α}
    (hSubtract : left.subtract right = .ok difference) :
    difference.SameSampling left := by
  unfold subtract at hSubtract
  split at hSubtract
  · cases hSubtract
  · rename_i hLong
    cases hSubtract
    have hSize : left.samples.size ≤ right.samples.size := Nat.le_of_not_lt hLong
    refine ⟨rfl, rfl, ?_, ?_⟩
    · simp [Sequence.size, hSize]
    · apply Array.ext
      · simp [hSize]
      · intro i hFirst hSecond
        simp [Sample.mapChannels]

/-- The difference of two sequences, channel by channel. -/
theorem channel_subtract {left right difference : Sequence α}
    (hSubtract : left.subtract right = .ok difference) (channel : Channel) :
    difference.channel channel =
      Array.zipWith (· - ·) (left.channel channel) (right.channel channel) := by
  unfold subtract at hSubtract
  split at hSubtract
  · cases hSubtract
  · cases hSubtract
    apply Array.ext
    · simp [Sequence.channel]
    · intro i hLeft hRight
      cases channel <;> simp [Sequence.channel, Sample.channel, Sample.mapChannels]

theorem channel_lower (sequence : Sequence α) (shift : Channel → Vec3 α) (channel : Channel) :
    (sequence.lower shift).channel channel =
      (sequence.channel channel).map fun angles => angles - shift channel := by
  cases channel <;> simp [lower, mapSamples, Sequence.channel, Sample.channel,
    Sample.mapChannels, Function.comp_def]

theorem channel_raise (sequence : Sequence α) (shift : Channel → Vec3 α) (channel : Channel) :
    (sequence.raise shift).channel channel =
      (sequence.channel channel).map fun angles => angles + shift channel := by
  cases channel <;> simp [raise, mapSamples, Sequence.channel, Sample.channel,
    Sample.mapChannels, Function.comp_def]

theorem lower_sameSampling (sequence : Sequence α) (shift : Channel → Vec3 α) :
    (sequence.lower shift).SameSampling sequence := by
  apply mapSamples_sameSampling
  intro sample
  rfl

theorem raise_sameSampling (sequence : Sequence α) (shift : Channel → Vec3 α) :
    (sequence.raise shift).SameSampling sequence := by
  apply mapSamples_sameSampling
  intro sample
  rfl

/-! ## Smoothing and splitting -/

variable [Elementary α]

/-- A low frequency sequence is the sequence smoothed with the kernel designed for it. -/
theorem lowPass_cases {sequence low : Sequence α} {cutoff : α} {settings : Filter.Settings α}
    (hLow : sequence.lowPass cutoff settings = .ok low) :
    ∃ kernel, sequence.kernel cutoff settings = .ok kernel ∧
      low = sequence.smoothWith kernel := by
  unfold lowPass at hLow
  by_cases hEmpty : sequence.size = 0
  · rw [if_pos hEmpty] at hLow
    cases hLow
  · rw [if_neg hEmpty] at hLow
    obtain ⟨kernel, hKernel, hSmoothed⟩ := Failure.bind_eq_ok.mp hLow
    cases hSmoothed
    exact ⟨kernel, hKernel, rfl⟩

/-- A split subtracts the low frequency sequence from the whole one. -/
theorem split_cases {whole low high : Sequence α} {cutoff : α} {settings : Filter.Settings α}
    (hSplit : whole.split cutoff settings = .ok (low, high)) :
    ∃ kernel, whole.kernel cutoff settings = .ok kernel ∧ low = whole.smoothWith kernel ∧
      whole.subtract low = .ok high := by
  unfold split at hSplit
  obtain ⟨smoothed, hLow, hRest⟩ := Failure.bind_eq_ok.mp hSplit
  obtain ⟨difference, hHigh, hPair⟩ := Failure.bind_eq_ok.mp hRest
  cases hPair
  obtain ⟨kernel, hKernel, hSmoothed⟩ := lowPass_cases hLow
  exact ⟨kernel, hKernel, hSmoothed, hHigh⟩

/-! ## A short sequence -/

/-- Three samples, one second apart, that neither stand still nor change evenly. -/
def jerk : Sequence ℚ where
  epoch := Epoch.default
  interval := 1
  samples := #[⟨0, ⟨0, 1, 2⟩, ⟨0, 0, 1⟩⟩, ⟨1, ⟨1, 1, 0⟩, ⟨0, 3, 1⟩⟩, ⟨2, ⟨2, 1, 5⟩, ⟨0, 1, 4⟩⟩]

/-- Settings that ask for a kernel of five taps at a quarter of the sampling rate. -/
def fiveTaps : Filter.Settings ℚ where
  passWeight := 1
  stopWeight := 10
  stopRatio := 3 / 2
  lengthFactor := 1
  gridDensity := 4
  maxIterations := 3

end Sequence
end Attitude
end Pushbroom
