import Pushbroom.Instrument.Jitter
import Pushbroom.Instrument.Mirror
import Pushbroom.Satellite.Identity

namespace Pushbroom

/-!
# Timing of a sensor

When the frames of a sensor start, and the sampled motions that belong to the sensor: the
jitter at its frames and the angles of its mirror.
-/

structure SensorTiming (α : Type) where
  sensor : Sensor
  present : Bool
  /-- The epoch that frame times are counted from. -/
  frameEpoch : Epoch α
  /-- The start of every frame, in seconds from `frameEpoch`. -/
  frameTimes : Array α
  jitter? : Option (JitterTable α)
  mirror? : Option (Mirror α)
deriving BEq

namespace SensorTiming

variable {α : Type} [Scalar α]

/-- The timing of a sensor without frames. -/
def initial (sensor : Sensor) (present : Bool) : SensorTiming α :=
  ⟨sensor, present, Epoch.default, #[], none, none⟩

/-- The time at fraction `w` of the frame at an index.  Within the last frame the last frame
period is continued; a single frame has no period, so only its start has a time. -/
def timeWithin? (times : Array α) (index : Nat) (w : α) : Option α := do
  let start ← times[index]?
  match times[index + 1]? with
  | some next => return start + w * (next - start)
  | none =>
    if w == 0 then return start
    else if index = 0 then none
    else
      let previous ← times[index - 1]?
      return start + w * (start - previous)

/-- The time of a fractional frame position, in seconds from `frameEpoch`. -/
def frameTime? (timing : SensorTiming α) (frame : α) : Option α :=
  if Scalar.isFinite frame = false ∨ frame < 0 ∨ (timing.frameTimes.size : α) ≤ frame then
    none
  else
    let index := Scalar.toPosition frame
    timeWithin? timing.frameTimes index (frame - (index : α))

/-- Takes away all sampled data. -/
def release (timing : SensorTiming α) : SensorTiming α :=
  { timing with frameTimes := #[], jitter? := none, mirror? := none }

end SensorTiming

end Pushbroom
