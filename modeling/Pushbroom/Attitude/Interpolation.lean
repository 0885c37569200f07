import Pushbroom.Attitude.Basic
import Pushbroom.Polynomial.Lagrange

namespace Pushbroom
namespace Attitude
namespace Sequence

/-!
# Attitude between samples

One channel is interpolated linearly between the two samples around a time.  Jitter, the
precision channel of a high frequency sequence, is interpolated by a cubic through two
samples on either side.  Neither is continued beyond the sampled span.
-/

variable {α : Type} [Scalar α]

/-- The attitude of a channel at `time` seconds from the epoch, by linear interpolation. -/
def interpolate (sequence : Sequence α) (channel : Channel) (time : α) :
    Except (Error α) (Vec3 α) := do
  let interval ← sequence.positiveInterval
  let first ← sequence.firstTime
  let offset := (time - first) / interval
  let lower := Scalar.floor offset
  if lower < 0 ∨ ((sequence.size - 1 : Nat) : α) < lower + 1 then
    throw (.timeOutOfRange time)
  let index := Scalar.toPosition lower
  let before ← sequence.sampleAt index
  let after ← sequence.sampleAt (index + 1)
  return (before.channel channel).between (after.channel channel) (offset - lower)

/-- The jitter at `time` seconds from the epoch, by cubic interpolation of the precision
channel.  The first of the four samples is counted among the integers.  Counted in sixty-four
bits it overflows where the offset is at or below `-2 ^ 63`: a debug build stops there, and in
a release build the count comes out past every sample, which is the same error. -/
def jitter (sequence : Sequence α) (time : α) : Except (Error α) (Vec3 α) := do
  let interval ← sequence.positiveInterval
  let first ← sequence.firstTime
  let start := Scalar.toOffset ((time - first) / interval) - 1
  if start < 0 ∨ sequence.size ≤ start.toNat + 3 then
    throw (.notEnoughSamples time)
  let window := (sequence.samples.extract start.toNat (start.toNat + 4)).toList
  let nodes := window.map fun sample => (sample.time, sample.precision)
  return Lagrange.interpolate nodes time

end Sequence
end Attitude
end Pushbroom
