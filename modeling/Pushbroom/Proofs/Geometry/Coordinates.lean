import Pushbroom.Geometry.Vec3
import Pushbroom.Proofs.Scalar.Exact

namespace Pushbroom

/-!
# Coordinates of vectors

The operations on vectors work on each coordinate by itself.  Laws of vectors are proved
for one coordinate at a time, whichever it is.
-/

/-- One of the three coordinates of a vector. -/
inductive Axis where
  | x
  | y
  | z
deriving DecidableEq

namespace Vec3

variable {α : Type}

/-- The coordinate along an axis. -/
def coordinate (v : Vec3 α) : Axis → α
  | .x => v.x
  | .y => v.y
  | .z => v.z

/-- Vectors with the same coordinates are equal. -/
theorem ext_coordinate {u v : Vec3 α}
    (hSame : ∀ axis, u.coordinate axis = v.coordinate axis) : u = v :=
  Vec3.ext (hSame .x) (hSame .y) (hSame .z)

variable [Scalar α]

@[simp]
theorem coordinate_zero (axis : Axis) : (0 : Vec3 α).coordinate axis = 0 := by
  cases axis <;> rfl

@[simp]
theorem coordinate_add (u v : Vec3 α) (axis : Axis) :
    (u + v).coordinate axis = u.coordinate axis + v.coordinate axis := by
  cases axis <;> rfl

@[simp]
theorem coordinate_sub (u v : Vec3 α) (axis : Axis) :
    (u - v).coordinate axis = u.coordinate axis - v.coordinate axis := by
  cases axis <;> rfl

@[simp]
theorem coordinate_scale (v : Vec3 α) (k : α) (axis : Axis) :
    (v.scale k).coordinate axis = v.coordinate axis * k := by
  cases axis <;> rfl

@[simp]
theorem coordinate_shrink (v : Vec3 α) (k : α) (axis : Axis) :
    (v.shrink k).coordinate axis = v.coordinate axis / k := by
  cases axis <;> rfl

/-- In exact arithmetic a sum of vectors adds up each coordinate. -/
theorem coordinate_foldl_add {K β : Type} [Field K] [LinearOrder K] [FloorRing K]
    (terms : β → Vec3 K) (entries : List β) (start : Vec3 K) (axis : Axis) :
    (entries.foldl (fun total entry => total + terms entry) start).coordinate axis =
      start.coordinate axis + (entries.map fun entry => (terms entry).coordinate axis).sum := by
  induction entries generalizing start with
  | nil => simp
  | cons entry rest ih =>
      rw [List.foldl_cons, ih, coordinate_add, List.map_cons, List.sum_cons, add_assoc]

end Vec3

end Pushbroom
