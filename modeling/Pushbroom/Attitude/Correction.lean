import Pushbroom.Attitude.Basic
import Pushbroom.Geometry.Rotation
import Pushbroom.Polynomial.Series

namespace Pushbroom

/-!
# Precision corrections

Ground control gives corrections of attitude and position as power series in the time
elapsed since a reference time, which is itself counted from the epoch of the image.  The
attitude correction is a rotation applied after the measured attitude.
-/

/-- Corrections of roll, pitch, yaw and of a position, as power series in time. -/
structure Correction (α : Type) where
  /-- The reference time, in seconds from the image epoch. -/
  reference : α
  /-- The highest degree used of the position series. -/
  positionOrder : Nat
  x : List α
  y : List α
  z : List α
  /-- The highest degree used of the attitude series. -/
  attitudeOrder : Nat
  roll : List α
  pitch : List α
  yaw : List α

namespace Correction

variable {α : Type} [Scalar α]

/-- The seconds from the reference time to a time `seconds` after `epoch`. -/
def elapsed (correction : Correction α) (imageEpoch epoch : Epoch α) (seconds : α) :
    Except (Error α) α := do
  let offset ← Epoch.secondsBetween epoch imageEpoch
  return offset + seconds - correction.reference

/-- A series, cut at a degree, `elapsed` seconds after the reference time. -/
def valueAt (order : Nat) (series : List α) (elapsed : α) : α :=
  Series.power (Series.upToOrder series order) elapsed

/-- The roll, pitch, yaw correction `elapsed` seconds after the reference time. -/
def attitudeAt (correction : Correction α) (elapsed : α) : Vec3 α :=
  ⟨valueAt correction.attitudeOrder correction.roll elapsed,
   valueAt correction.attitudeOrder correction.pitch elapsed,
   valueAt correction.attitudeOrder correction.yaw elapsed⟩

/-- The position correction `elapsed` seconds after the reference time. -/
def positionAt (correction : Correction α) (elapsed : α) : Vec3 α :=
  ⟨valueAt correction.positionOrder correction.x elapsed,
   valueAt correction.positionOrder correction.y elapsed,
   valueAt correction.positionOrder correction.z elapsed⟩

variable [Elementary α]

/-- A measured attitude followed by the correction. -/
def compose (correction : Correction α) (elapsed : α) (measured : Vec3 α) : Vec3 α :=
  Rotation.toAngles
    (Rotation.ofAngles (correction.attitudeAt elapsed) * Rotation.ofAngles measured)

/-- Computes the precision channel of a sequence from its measured channel. -/
def apply (correction : Correction α) (imageEpoch : Epoch α)
    (sequence : Attitude.Sequence α) : Except (Error α) (Attitude.Sequence α) := do
  let offset ← correction.elapsed imageEpoch sequence.epoch 0
  return sequence.mapSamples fun sample =>
    { sample with precision := correction.compose (offset + sample.time) sample.satellite }

end Correction

end Pushbroom
