import Pushbroom.Geometry.Vec3
import Pushbroom.Time.Epoch

namespace Pushbroom
namespace Attitude

/-!
# Attitude sequences

The attitude of a spacecraft, as roll, pitch, yaw angles sampled at a uniform interval.
Each sample has two channels: the attitude as it was measured, and the attitude after the
precision correction.
-/

/-- The two attitudes that each sample carries. -/
inductive Channel where
  /-- The attitude measured on board. -/
  | satellite
  /-- The attitude after the precision correction. -/
  | precision
deriving DecidableEq

@[ext]
structure Sample (α : Type) where
  /-- Seconds from the epoch of the sequence. -/
  time : α
  satellite : Vec3 α
  precision : Vec3 α
deriving BEq

namespace Sample

variable {α : Type}

def channel (sample : Sample α) : Channel → Vec3 α
  | .satellite => sample.satellite
  | .precision => sample.precision

/-- A sample with the same attitude on both channels. -/
def ofAngles (time : α) (angles : Vec3 α) : Sample α :=
  ⟨time, angles, angles⟩

/-- Applies a function to the attitude of both channels. -/
def mapChannels (f : Channel → Vec3 α → Vec3 α) (sample : Sample α) : Sample α :=
  { sample with
    satellite := f .satellite sample.satellite
    precision := f .precision sample.precision }

end Sample

/-- Attitude samples in the order of their times, which are counted from one epoch and
spaced by one interval. -/
@[ext]
structure Sequence (α : Type) where
  epoch : Epoch α
  /-- Nominal seconds from one sample to the next. -/
  interval : α
  samples : Array (Sample α)
deriving BEq

namespace Sequence

variable {α : Type} [Scalar α]

def empty (epoch : Epoch α) (interval : α) : Sequence α :=
  ⟨epoch, interval, #[]⟩

def size (sequence : Sequence α) : Nat :=
  sequence.samples.size

def channel (sequence : Sequence α) (channel : Channel) : Array (Vec3 α) :=
  sequence.samples.map fun sample => sample.channel channel

def mapSamples (f : Sample α → Sample α) (sequence : Sequence α) : Sequence α :=
  { sequence with samples := sequence.samples.map f }

/-- The sampling interval, which has to be positive. -/
def positiveInterval (sequence : Sequence α) : Except (Error α) α :=
  if 0 < sequence.interval then .ok sequence.interval
  else .error (.sampleTime sequence.interval)

def firstTime (sequence : Sequence α) : Except (Error α) α :=
  match sequence.samples[0]? with
  | some sample => .ok sample.time
  | none => .error .emptySequence

def sampleAt (sequence : Sequence α) (index : Nat) : Except (Error α) (Sample α) :=
  match sequence.samples[index]? with
  | some sample => .ok sample
  | none => .error (.indexOutOfRange index sequence.size)

/-- The difference of two sequences, sample by sample and on both channels.  The right one
may be longer, but not shorter. -/
def subtract (left right : Sequence α) : Except (Error α) (Sequence α) :=
  if right.size < left.size then .error (.sequenceLength left.size right.size)
  else
    .ok { left with
      samples := Array.zipWith
        (fun sample other =>
          sample.mapChannels fun channel angles => angles - other.channel channel)
        left.samples right.samples }

end Sequence

end Attitude
end Pushbroom
