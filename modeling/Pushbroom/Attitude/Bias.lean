import Pushbroom.Attitude.Basic

namespace Pushbroom
namespace Attitude

/-!
# Transfer of a mean attitude

Whatever constant attitude a separation left in the high frequency sequence can be moved
back into the low frequency one: the mean over a window of time is taken from every sample
of one sequence and added to every sample of another.  The sum of the two is not changed.

A transfer changes the two sequences one after the other and may fail.  What it had changed
before a failure would stay changed, so it checks everything first.
-/

variable {α : Type} [Scalar α]

/-- The mean of a list of vectors, brought up to date one vector after the other. -/
def runningMean (vectors : List (Vec3 α)) : Vec3 α :=
  let step (state : Vec3 α × Nat) (vector : Vec3 α) : Vec3 α × Nat :=
    let count : α := ((state.2 + 1 : Nat) : α)
    (vector.shrink count + (state.1.scale (count - 1)).shrink count, state.2 + 1)
  (vectors.foldl step (0, 0)).1

namespace Sequence

/-- The first and the last index of the samples in a window of time.  They may be any
numbers: the window has samples when the first is not beyond the last. -/
def windowBounds (sequence : Sequence α) (interval first start stop : α) : α × α :=
  let last : α := ((sequence.size - 1 : Nat) : α)
  (Scalar.maxNum (Scalar.ceil ((start - first) / interval)) 0,
   Scalar.minNum (Scalar.floor ((stop - first) / interval)) last)

/-- The samples of a sequence in a window of time, which may not be without any. -/
def window (sequence : Sequence α) (start stop : α) : Except (Error α) (List (Sample α)) := do
  let interval ← sequence.positiveInterval
  let first ← sequence.firstTime
  let (low, high) := sequence.windowBounds interval first start stop
  if high < low then throw (.biasWindow start stop)
  return (sequence.samples.extract (Scalar.toPosition low) (Scalar.toPosition high + 1)).toList

def lower (sequence : Sequence α) (shift : Channel → Vec3 α) : Sequence α :=
  sequence.mapSamples (Sample.mapChannels fun channel angles => angles - shift channel)

def raise (sequence : Sequence α) (shift : Channel → Vec3 α) : Sequence α :=
  sequence.mapSamples (Sample.mapChannels fun channel angles => angles + shift channel)

end Sequence

/-- Moves the mean of the first of two sequences over `[start, stop]`, in seconds from its
epoch, into the second one, on both channels. -/
def transferBias (start stop : α) :
    ExceptT (Error α) (StateM (Sequence α × Sequence α)) Unit := do
  let (source, target) ← get
  if source.size = 0 ∨ target.size = 0 then throw .emptySequence
  let samples ← MonadExcept.ofExcept (source.window start stop)
  let mean (channel : Channel) := runningMean (samples.map fun sample => sample.channel channel)
  let satellite := mean .satellite
  let precision := mean .precision
  let shift : Channel → Vec3 α
    | .satellite => satellite
    | .precision => precision
  modify fun pair => (pair.1.lower shift, pair.2)
  modify fun pair => (pair.1, pair.2.raise shift)

end Attitude
end Pushbroom
