import Pushbroom.Dense.Transposition
import Pushbroom.Error
import Pushbroom.Scalar.Basic

namespace Pushbroom
namespace Householder

/-!
# Orthogonal factorization by reflections

A matrix with at least as many rows as columns is brought to triangular form by one
reflection per column, without pivoting.  The result keeps the triangle on and above the
diagonal and, below it, the entries of each reflection's vector after the first, which is
one.  Together with the scalars `beta` the reflections `I - beta v vᵀ` can be rebuilt.

The factorization works on columns.  A buffer stored row by row is transposed before and
after it.
-/

inductive Layout where
  | byColumn
  | byRow
deriving DecidableEq

/-- Checks the dimensions of a matrix whose buffer has `size` entries.  The number of entries of the
matrix is kept as a size, and where that wraps around, a buffer can pass without having the last of
them.  Where sizes do not wrap around but end the computation, such a matrix ends it with every
buffer. -/
def checkDimensions {α : Type} (rows columns size : Nat) : Except (Error α) Unit :=
  if rows = 0 ∨ columns = 0 ∨ rows < columns then .error (.matrixDimension rows columns)
  else if size = rows * columns then .ok ()
  else if size = wrapSize (rows * columns) then
    .error (.indexOutOfRange (rows * columns - 1) size)
  else .error (.matrixDimension rows columns)

/-- What passes the check is a matrix with no more columns than rows that has all of its entries. -/
theorem checkDimensions_eq_ok_iff {α : Type} {rows columns size : Nat} :
    checkDimensions rows columns size = (.ok () : Except (Error α) Unit) ↔
      1 ≤ columns ∧ columns ≤ rows ∧ size = rows * columns := by
  unfold checkDimensions
  split
  · exact ⟨nofun, by omega⟩
  · split
    · exact ⟨fun _ => by omega, fun _ => rfl⟩
    · split <;> exact ⟨nofun, by omega⟩

/-- A reflection `I - beta v vᵀ` about a vector `v` whose first entry is one. -/
structure Reflection (α : Type) where
  beta : α
  /-- The entries of `v` after the first. -/
  tail : List α

variable {α : Type} [Scalar α]

def Reflection.vector (h : Reflection α) : List α :=
  1 :: h.tail

def Reflection.apply (h : Reflection α) (column : List α) : List α :=
  let w := Scalar.sum (List.zipWith (· * ·) h.vector column)
  List.zipWith (fun entry v => entry - h.beta * w * v) column h.vector

def sumOfSquares (entries : List α) : α :=
  Scalar.sum (entries.map fun entry => entry * entry)

/-- The norm at or below which a column counts as vanishing. -/
def vanishing : α :=
  2.220446049250313080847263336181640625e-16

variable [Elementary α]

/-- The reflection that clears a column below its first entry.  The sign is chosen so that
the first entry and the norm are added; a vanishing column is reflected about the first
axis. -/
def reflection : List α → Reflection α
  | [] => ⟨2.0 / 1, []⟩
  | pivot :: below =>
    let norm := Elementary.sqrt (sumOfSquares (pivot :: below))
    if vanishing < norm then
      let b := pivot + Scalar.sign pivot * norm
      let tail := below.map fun entry => entry / b
      ⟨2.0 / sumOfSquares (1 :: tail), tail⟩
    else ⟨2.0 / 1, below.map fun _ => 0⟩

/-- A factored matrix: one scalar per column, and the columns with the reflection vectors
below the diagonal. -/
structure Factors (α : Type) where
  betas : List α
  columns : List (List α)

/-- Factors the columns of a matrix.  After the first column's reflection the first row is
final, and the rest is factored by itself. -/
def factorColumns : List (List α) → Factors α
  | [] => ⟨[], []⟩
  | first :: others =>
    let h := reflection first
    let reflected := others.map h.apply
    let inner := factorColumns (reflected.map (·.drop 1))
    { betas := h.beta :: inner.betas
      columns := ((h.apply first).take 1 ++ h.tail) ::
        List.zipWith (fun column rest => column.take 1 ++ rest) reflected inner.columns }
termination_by columns => columns.length

/-- The columns, of `rows` entries each, stored one after the other in a list. -/
def splitColumns (rows : Nat) : Nat → List α → List (List α)
  | 0, _ => []
  | columns + 1, entries =>
    entries.take rows :: splitColumns rows columns (entries.drop rows)

/-- Factors a matrix stored column by column. -/
def factorByColumn (rows columns : Nat) (buffer : Array α) : List α × Array α :=
  let factors := factorColumns (splitColumns rows columns buffer.toList)
  (factors.betas, factors.columns.flatten.toArray)

/-- Factors the `rows × columns` matrix in a buffer.  Returns the scalars of the
reflections and the factored matrix in the layout of the given one. -/
def factor (buffer : Array α) (rows columns : Nat) (layout : Layout) :
    Except (Error α) (List α × Array α) :=
  let refused := Error.matrixDimension rows columns
  match checkDimensions rows columns buffer.size with
  | .error fault => .error fault
  | .ok () =>
    match layout with
    | .byColumn => .ok (factorByColumn rows columns buffer)
    | .byRow =>
      match Transposition.inPlace rows columns buffer with
      | none => .error refused
      | some stored =>
        let (betas, factored) := factorByColumn rows columns stored
        match Transposition.inPlace columns rows factored with
        | none => .error refused
        | some result => .ok (betas, result)

/-- Transposes the matrix in the buffer. -/
def transposeBuffer (rows columns : Nat) (refused : Error α) :
    ExceptT (Error α) (StateM (Array α)) Unit := do
  match Transposition.inPlace rows columns (← get) with
  | none => throw refused
  | some moved => set moved

/-- The factorization done in the buffer itself, which holds the factored matrix afterwards.
Returns the scalars of the reflections.  What had been done to the buffer before a failure would
stay done, so the dimensions are checked first. -/
def factorInPlace (rows columns : Nat) (layout : Layout) :
    ExceptT (Error α) (StateM (Array α)) (List α) := do
  let refused := Error.matrixDimension rows columns
  let buffer ← get
  MonadExcept.ofExcept (checkDimensions rows columns buffer.size)
  if layout = .byRow then transposeBuffer rows columns refused
  let betas ← modifyGet (factorByColumn rows columns)
  if layout = .byRow then transposeBuffer columns rows refused
  return betas

end Householder
end Pushbroom
