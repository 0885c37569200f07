import Pushbroom.Attitude.Basic
import Pushbroom.Filter.Convolution
import Pushbroom.Filter.Design

namespace Pushbroom
namespace Attitude
namespace Sequence

/-!
# Separation of jitter

A low pass kernel is designed for the sampling interval of a sequence and applied to both
channels.  What it takes away is the jitter, so the low and the high frequency sequences
add up to the one they come from.
-/

variable {α : Type} [Scalar α] [Elementary α]

/-- The low pass kernel for the sampling interval of a sequence. -/
def kernel (sequence : Sequence α) (cutoff : α) (settings : Filter.Settings α) :
    Except (Error α) (List α) :=
  Filter.lowPassKernel sequence.interval cutoff settings

def smoothWith (sequence : Sequence α) (kernel : List α) : Sequence α :=
  let satellite := Filter.smooth kernel (sequence.channel .satellite)
  let precision := Filter.smooth kernel (sequence.channel .precision)
  { sequence with
    samples := Array.zipWith
      (fun (sample : Sample α) (smoothed : Vec3 α × Vec3 α) =>
        { sample with satellite := smoothed.1, precision := smoothed.2 })
      sequence.samples (Array.zip satellite precision) }

def lowPass (sequence : Sequence α) (cutoff : α) (settings : Filter.Settings α) :
    Except (Error α) (Sequence α) := do
  if sequence.size = 0 then throw .emptySequence
  let kernel ← sequence.kernel cutoff settings
  return sequence.smoothWith kernel

/-- The low and the high frequency content of a sequence, which sum to it. -/
def split (sequence : Sequence α) (cutoff : α) (settings : Filter.Settings α) :
    Except (Error α) (Sequence α × Sequence α) := do
  let low ← sequence.lowPass cutoff settings
  let high ← sequence.subtract low
  return (low, high)

end Sequence
end Attitude
end Pushbroom
