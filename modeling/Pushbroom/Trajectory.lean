import Pushbroom.Polynomial.Lagrange
import Pushbroom.Time.Epoch

namespace Pushbroom

/-!
# Trajectories

The positions and velocities of a spacecraft, sampled at a uniform interval in an inertial
and in an Earth fixed frame.  The state between samples is interpolated through up to four
of them, which becomes linear interpolation for a trajectory of two samples.
-/

inductive Frame where
  /-- Earth centred inertial. -/
  | inertial
  /-- Earth centred, Earth fixed. -/
  | earthFixed
deriving DecidableEq

/-- A position in metres and a velocity in metres per second. -/
@[ext]
structure State (α : Type) where
  position : Vec3 α
  velocity : Vec3 α
deriving BEq

namespace Trajectory

/-- The state of a spacecraft at one time, in both frames. -/
@[ext]
structure Sample (α : Type) where
  /-- Seconds from the epoch of the trajectory. -/
  time : α
  inertial : State α
  earthFixed : State α
deriving BEq

def Sample.state {α : Type} (sample : Sample α) : Frame → State α
  | .inertial => sample.inertial
  | .earthFixed => sample.earthFixed

end Trajectory

/-- Trajectory samples in the order of their times, which are counted from one epoch and
spaced by one interval. -/
@[ext]
structure Trajectory (α : Type) where
  epoch : Epoch α
  /-- Nominal seconds from one sample to the next. -/
  interval : α
  samples : Array (Trajectory.Sample α)
deriving BEq

namespace Trajectory

variable {α : Type} [Scalar α]

def size (trajectory : Trajectory α) : Nat :=
  trajectory.samples.size

/-- The largest number of samples a state is interpolated through. -/
def maxNodes : Nat :=
  4

/-- Of `size` samples, the index of the first and the number of those that surround a
position counted in samples. -/
def nodeRange (size : Nat) (offset : α) : Nat × Nat :=
  let count := min maxNodes size
  (min (Scalar.toPosition offset - (count / 2 - 1)) (size - count), count)

/-- The time of the first sample of a trajectory that has several, which is what a state at
`time` needs. -/
def firstTime (trajectory : Trajectory α) (time : α) : Except (Error α) α :=
  match trajectory.samples[0]? with
  | some sample =>
    if 1 < trajectory.size then .ok sample.time else .error (.notEnoughSamples time)
  | none => .error (.notEnoughSamples time)

/-- The `count` samples from the one at `start` on. -/
def window (trajectory : Trajectory α) (start count : Nat) : Except (Error α) (List (Sample α)) :=
  if start + count ≤ trajectory.size then
    .ok (trajectory.samples.extract start (start + count)).toList
  else .error (.indexOutOfRange (start + count) trajectory.size)

/-- The state in a frame at `time` seconds from the epoch. -/
def stateAt (trajectory : Trajectory α) (time : α) (frame : Frame) :
    Except (Error α) (State α) := do
  if trajectory.interval ≤ 0 then throw (.sampleTime trajectory.interval)
  let first ← trajectory.firstTime time
  let offset := (time - first) / trajectory.interval
  if offset < 0 ∨ ((trajectory.size - 1 : Nat) : α) < offset then
    throw (.timeOutOfRange time)
  let (start, count) := nodeRange trajectory.size offset
  let nodes ← trajectory.window start count
  return {
    position := Lagrange.interpolate
      (nodes.map fun sample => (sample.time, (sample.state frame).position)) time
    velocity := Lagrange.interpolate
      (nodes.map fun sample => (sample.time, (sample.state frame).velocity)) time }

end Trajectory

end Pushbroom
