import Pushbroom.Geometry.Vec3
import Pushbroom.Instrument.Chip

namespace Pushbroom
namespace Moon

/-!
# Apparent positions of the Moon

The Moon as it is seen from a place on the focal plane at one image line.  Right ascensions
are only known up to whole turns; `unwrap` picks the turn near a reference.
-/

@[ext]
structure Position (α : Type) where
  /-- Right ascension in radians. -/
  ra : α
  dec : α
  distance : α

/-- A place on the focal plane and the image line observed there. -/
structure Location (α : Type) where
  bandIndex : Nat
  chipIndex : Nat
  line : α
  detector : α
  kind : DetectorKind

variable {α : Type} [Scalar α] [Elementary α]

/-- The apparent position of a Moon that lies at a vector from the observer, in an
equatorial frame.  The null vector has none. -/
def Position.ofVector? (vector : Vec3 α) : Option (Position α) :=
  let distance := vector.norm
  if 0 < distance then
    some ⟨Elementary.atan2 vector.y vector.x, Elementary.asin (vector.z / distance), distance⟩
  else none

/-- The angle from which on a right ascension is brought nearer to its reference. -/
def unwrapThreshold : α :=
  Elementary.turn / 4.0

/-- An angle shifted by the whole turns between it and a reference.  An angle within a
quarter turn of the reference is left as it is. -/
def unwrap (angle reference : α) : α :=
  let difference := angle - reference
  if unwrapThreshold < Scalar.abs difference then
    angle - Elementary.turn * Scalar.round (difference / Elementary.turn)
  else angle

end Moon
end Pushbroom
