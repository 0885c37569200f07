import Pushbroom.Geometry.Mat3

namespace Pushbroom
namespace Rotation

/-!
# Roll, pitch and yaw

An attitude is a triple of angles about the `x`, `y` and `z` axes.  Its matrix applies the
roll first and the yaw last: `Rz(yaw) Ry(pitch) Rx(roll)`.
-/

variable {α : Type} [Scalar α] [Elementary α]

open Elementary (sin cos asin atan2)

def ofAngles (angles : Vec3 α) : Mat3 α :=
  let sr := sin angles.x
  let cr := cos angles.x
  let sp := sin angles.y
  let cp := cos angles.y
  let sy := sin angles.z
  let cy := cos angles.z
  ⟨⟨cp * cy, sr * sp * cy - cr * sy, cr * sp * cy + sr * sy⟩,
   ⟨cp * sy, sr * sp * sy + cr * cy, cr * sp * sy - sr * cy⟩,
   ⟨-sp, sr * cp, cr * cp⟩⟩

/-- The roll, pitch, yaw angles of a rotation matrix.  An entry that rounding pushed out
of the range of the sine is brought back into it. -/
def toAngles (m : Mat3 α) : Vec3 α :=
  ⟨atan2 m.row₂.y m.row₂.z,
   asin (Scalar.clamp (-1) 1 (-m.row₂.x)),
   atan2 m.row₁.x m.row₀.x⟩

end Rotation
end Pushbroom
