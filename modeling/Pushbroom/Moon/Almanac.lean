import Pushbroom.Imager.Basic
import Pushbroom.Moon.Position

namespace Pushbroom
namespace Moon

/-!
# The Moon from an almanac

An almanac gives the vector from the Earth to the Moon at an instant.  Together with the
frame times of the sensor and the trajectory of the spacecraft it says where the Moon
stands as seen from the spacecraft.
-/

/-- The vector from the Earth to the Moon, in kilometres along inertial axes, for the
instants that are covered. -/
abbrev Almanac (α : Type) := Instant → Option (Vec3 α)

variable {α : Type} [Scalar α] [Elementary α]

/-- The Moon in metres from the Earth. -/
def Almanac.moon (almanac : Almanac α) (instant : Instant) : Except (Error α) (Vec3 α) :=
  match almanac instant with
  | some kilometres => .ok (kilometres.scale 1000.0)
  | none => .error .almanac

/-- The apparent Moon at a place on the focal plane of an imager. -/
def Almanac.position (almanac : Almanac α) (imager : Imager α) (location : Location α) :
    Except (Error α) (Position α) := do
  let timing ← imager.timingForBand location.bandIndex
  let time ← imager.lineTime location.bandIndex location.line
  let start ← timing.frameEpoch.toInstant
  let shift ← Duration.ofSeconds time
  let offset ← Epoch.secondsBetween timing.frameEpoch imager.trajectory.epoch
  let spacecraft ← imager.trajectory.stateAt (offset + time) .inertial
  let moon ← almanac.moon (start + shift)
  match Position.ofVector? (moon - spacecraft.position) with
  | some position => return position
  | none => throw (.moonEphemeris location.line)

end Moon
end Pushbroom
