import Pushbroom.Geometry.Mat3

namespace Pushbroom

/-!
# Quaternions

A rotation as a quaternion.  The four diagonal combinations of a rotation matrix give the
squares of the quaternion's components.  The largest of them is divided through the
off-diagonal entries to get the other three with their signs, and every component so
obtained is held against its own square: a matrix whose redundant entries disagree by more
than a tolerance is refused.
-/

/-- A quaternion `w + x i + y j + z k`. -/
@[ext]
structure Quaternion (α : Type) where
  w : α
  x : α
  y : α
  z : α
deriving BEq

namespace Quaternion

variable {α : Type} [Scalar α]

/-- The rotation matrix of a quaternion of norm one. -/
def toMatrix (q : Quaternion α) : Mat3 α :=
  let ⟨w, x, y, z⟩ := q
  ⟨⟨1 - 2.0 * (y * y + z * z), 2.0 * (x * y - w * z), 2.0 * (x * z + w * y)⟩,
   ⟨2.0 * (x * y + w * z), 1 - 2.0 * (x * x + z * z), 2.0 * (y * z - w * x)⟩,
   ⟨2.0 * (x * z - w * y), 2.0 * (y * z + w * x), 1 - 2.0 * (x * x + y * y)⟩⟩

/-- The squares of the components, read off the diagonal of a rotation matrix. -/
def diagonalSquares (m : Mat3 α) : Quaternion α :=
  let a := m.row₀.x
  let b := m.row₁.y
  let c := m.row₂.z
  ⟨0.25 * (1 + a + b + c), 0.25 * (1 + a - b - c),
   0.25 * (1 - a + b - c), 0.25 * (1 - a - b + c)⟩

inductive Component where
  | w
  | x
  | y
  | z
deriving DecidableEq

/-- The first component that is larger than those before it and at least as large as those
after it.  A NaN is larger than nothing. -/
def largest (q : Quaternion α) : Component :=
  let step (best : Component × α) (next : Component × α) : Component × α :=
    if best.2 < next.2 then next else best
  let lowest : α := -1.7976931348623157e308
  (step (step (step (step (.w, lowest) (.w, q.w)) (.x, q.x)) (.y, q.y)) (.z, q.z)).1

def component (q : Quaternion α) : Component → α
  | .w => q.w
  | .x => q.x
  | .y => q.y
  | .z => q.z

variable [Elementary α]

/-- Magnitude of a component whose square is `square`. -/
def magnitude (square : α) : α :=
  Elementary.sqrt (Scalar.maxNum square 0)

/-- The quaternion of a matrix, with `pivot` for its largest component. -/
def ofPivot (m : Mat3 α) (largest : Component) (pivot : α) : Quaternion α :=
  let denominator := 4.0 * pivot
  let xw := (m.row₂.y - m.row₁.z) / denominator
  let yw := (m.row₀.z - m.row₂.x) / denominator
  let zw := (m.row₁.x - m.row₀.y) / denominator
  let xy := (m.row₀.y + m.row₁.x) / denominator
  let xz := (m.row₀.z + m.row₂.x) / denominator
  let yz := (m.row₁.z + m.row₂.y) / denominator
  match largest with
  | .w => ⟨pivot, xw, yw, zw⟩
  | .x => ⟨xw, pivot, xy, xz⟩
  | .y => ⟨yw, xy, pivot, yz⟩
  | .z => ⟨zw, xz, yz, pivot⟩

/-- The smallest number that added to one gives another number in double precision. -/
def epsilon : α :=
  2.220446049250313080847263336181640625e-16

/-- A component disagrees with its square when their magnitudes differ by more than the
tolerance. -/
def disagrees (tolerance derived square : α) : Bool :=
  decide (tolerance < Scalar.abs (Scalar.abs derived - magnitude square))

/-- The quaternion of a rotation matrix. -/
def ofMatrix (m : Mat3 α) (tolerance : α) : Except (Error α) (Quaternion α) :=
  let squares := diagonalSquares m
  let pivot := magnitude (squares.component squares.largest)
  if 4.0 * pivot ≤ epsilon then .error .quaternionMismatch
  else
    let q := ofPivot m squares.largest pivot
    if disagrees tolerance q.w squares.w || disagrees tolerance q.x squares.x ||
        disagrees tolerance q.y squares.y || disagrees tolerance q.z squares.z then
      .error .quaternionMismatch
    else .ok q

end Quaternion

end Pushbroom
