import Pushbroom.Error
import Pushbroom.Geometry.Vec3

namespace Pushbroom

/-!
# Matrices of three rows and three columns

A matrix is kept as its rows.  Its inverse is the transposed matrix of its cofactors
divided by its determinant; a determinant at or below `10⁻⁹` in magnitude counts as
vanishing.
-/

/-- A matrix of three rows and three columns, row by row. -/
@[ext]
structure Mat3 (α : Type) where
  row₀ : Vec3 α
  row₁ : Vec3 α
  row₂ : Vec3 α
deriving BEq

namespace Mat3

variable {α : Type} [Scalar α]

def identity : Mat3 α :=
  ⟨⟨1, 0, 0⟩, ⟨0, 1, 0⟩, ⟨0, 0, 1⟩⟩

def transpose (m : Mat3 α) : Mat3 α :=
  ⟨⟨m.row₀.x, m.row₁.x, m.row₂.x⟩,
   ⟨m.row₀.y, m.row₁.y, m.row₂.y⟩,
   ⟨m.row₀.z, m.row₁.z, m.row₂.z⟩⟩

/-- A row vector times a matrix, given by its columns. -/
def rowTimes (row : Vec3 α) (columns : Mat3 α) : Vec3 α :=
  ⟨row.dot columns.row₀, row.dot columns.row₁, row.dot columns.row₂⟩

instance : Mul (Mat3 α) where
  mul m n :=
    let columns := n.transpose
    ⟨rowTimes m.row₀ columns, rowTimes m.row₁ columns, rowTimes m.row₂ columns⟩

/-- The transposed matrix of cofactors. -/
def adjugate (m : Mat3 α) : Mat3 α :=
  let ⟨a, b, c⟩ := m
  ⟨⟨b.y * c.z - b.z * c.y, a.z * c.y - a.y * c.z, a.y * b.z - a.z * b.y⟩,
   ⟨b.z * c.x - b.x * c.z, a.x * c.z - a.z * c.x, a.z * b.x - a.x * b.z⟩,
   ⟨b.x * c.y - b.y * c.x, a.y * c.x - a.x * c.y, a.x * b.y - a.y * b.x⟩⟩

/-- The determinant, expanded along the first row. -/
def det (m : Mat3 α) : α :=
  let adj := m.adjugate
  m.row₀.x * adj.row₀.x + m.row₀.y * adj.row₁.x + m.row₀.z * adj.row₂.x

def shrink (m : Mat3 α) (k : α) : Mat3 α :=
  ⟨m.row₀.shrink k, m.row₁.shrink k, m.row₂.shrink k⟩

/-- The largest magnitude of a determinant that counts as vanishing. -/
def singularDeterminant : α :=
  1e-9

/-- The inverse of a matrix whose determinant does not vanish. -/
def invert (m : Mat3 α) : Except (Error α) (Mat3 α) :=
  if Scalar.abs m.det ≤ singularDeterminant then .error .singularMatrix
  else .ok (m.adjugate.shrink m.det)

end Mat3

end Pushbroom
