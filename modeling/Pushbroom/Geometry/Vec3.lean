import Pushbroom.Scalar.Basic

namespace Pushbroom

/-!
# Vectors of three coordinates

Positions, lines of sight and roll, pitch, yaw triples.  Sums and products are taken in
the order in which the coordinates are written.
-/

@[ext]
structure Vec3 (α : Type) where
  x : α
  y : α
  z : α
deriving BEq

namespace Vec3

variable {α : Type} [Scalar α]

instance : Zero (Vec3 α) where
  zero := ⟨0, 0, 0⟩

instance : Add (Vec3 α) where
  add u v := ⟨u.x + v.x, u.y + v.y, u.z + v.z⟩

instance : Sub (Vec3 α) where
  sub u v := ⟨u.x - v.x, u.y - v.y, u.z - v.z⟩

def scale (v : Vec3 α) (k : α) : Vec3 α :=
  ⟨v.x * k, v.y * k, v.z * k⟩

def shrink (v : Vec3 α) (k : α) : Vec3 α :=
  ⟨v.x / k, v.y / k, v.z / k⟩

def cross (u v : Vec3 α) : Vec3 α :=
  ⟨u.y * v.z - u.z * v.y, u.z * v.x - u.x * v.z, u.x * v.y - u.y * v.x⟩

def dot (u v : Vec3 α) : α :=
  u.x * v.x + u.y * v.y + u.z * v.z

/-- The point at fraction `w` of the way from `u` to `v`. -/
def between (u v : Vec3 α) (w : α) : Vec3 α :=
  u.scale (1 - w) + v.scale w

variable [Elementary α]

def norm (v : Vec3 α) : α :=
  Elementary.sqrt (v.dot v)

/-- The vector of length one in the direction of `v`. -/
def normalize (v : Vec3 α) : Vec3 α :=
  v.shrink v.norm

end Vec3

end Pushbroom
