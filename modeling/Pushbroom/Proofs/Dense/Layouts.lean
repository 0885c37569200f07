import Mathlib.LinearAlgebra.Matrix.Notation
import Pushbroom.Proofs.Dense.Factorization
import Pushbroom.Proofs.Dense.Transposition
import Pushbroom.Scalar.Binary64

namespace Pushbroom
namespace Householder

/-!
# Factorizations of stored matrices

A matrix stored row by row is transposed into one stored column by column, factored, and
transposed back.  Both transpositions come to an end, so whatever the arithmetic does, the scalars
and the factored matrix are those of the same matrix stored column by column.  Only the dimensions
can make a factorization fail, and they are looked at before anything is moved.
-/

/-! ## Stored matrices -/

section Storage

variable {β : Type} {rows columns : ℕ}

/-- The entries of a matrix, one row after the other. -/
def storedByRow (matrix : Matrix (Fin rows) (Fin columns) β) : Array β :=
  Array.ofFn fun k : Fin (rows * columns) => matrix k.divNat k.modNat

/-- The entries of a matrix, one column after the other. -/
def storedByColumn (matrix : Matrix (Fin rows) (Fin columns) β) : Array β :=
  storedByRow matrix.transpose

theorem size_storedByRow (matrix : Matrix (Fin rows) (Fin columns) β) :
    (storedByRow matrix).size = rows * columns :=
  Array.size_ofFn

theorem size_storedByColumn (matrix : Matrix (Fin rows) (Fin columns) β) :
    (storedByColumn matrix).size = rows * columns := by
  rw [storedByColumn, size_storedByRow, Nat.mul_comm]

theorem val_mkDivMod (i : Fin rows) (j : Fin columns) :
    (Fin.mkDivMod i j).val = i.val * columns + j.val := by
  rw [Fin.coe_mkDivMod, Nat.mul_comm]

theorem getElem?_storedByRow (matrix : Matrix (Fin rows) (Fin columns) β) (i : Fin rows)
    (j : Fin columns) : (storedByRow matrix)[i.val * columns + j.val]? = some (matrix i j) := by
  rw [← val_mkDivMod, storedByRow, Array.getElem?_ofFn, dif_pos (Fin.mkDivMod i j).isLt, Fin.eta,
    Fin.divNat_mkDivMod, Fin.modNat_mkDivMod]

/-- A buffer with the entries of a matrix row by row stores it. -/
theorem eq_storedByRow {buffer : Array β} (hSize : buffer.size = rows * columns)
    {matrix : Matrix (Fin rows) (Fin columns) β}
    (hEntries : ∀ i j, buffer[i.val * columns + j.val]? = some (matrix i j)) :
    buffer = storedByRow matrix := by
  apply Transposition.ext_entry hSize (size_storedByRow matrix)
  intro i hRow j hColumn
  exact (hEntries ⟨i, hRow⟩ ⟨j, hColumn⟩).trans
    (getElem?_storedByRow matrix ⟨i, hRow⟩ ⟨j, hColumn⟩).symm

/-- Every buffer of the right size stores a matrix. -/
theorem exists_eq_storedByRow {buffer : Array β} (hSize : buffer.size = rows * columns) :
    ∃ matrix : Matrix (Fin rows) (Fin columns) β, buffer = storedByRow matrix := by
  refine ⟨Matrix.ofArray buffer hSize, eq_storedByRow hSize fun i j => ?_⟩
  rw [← val_mkDivMod, Matrix.ofArray_apply]
  exact Array.getElem?_eq_getElem _

theorem exists_eq_storedByColumn {buffer : Array β} (hSize : buffer.size = rows * columns) :
    ∃ matrix : Matrix (Fin rows) (Fin columns) β, buffer = storedByColumn matrix := by
  rw [Nat.mul_comm] at hSize
  obtain ⟨matrix, hStored⟩ := exists_eq_storedByRow hSize
  exact ⟨matrix.transpose, hStored⟩

theorem inPlace_storedByRow (matrix : Matrix (Fin rows) (Fin columns) β) :
    Transposition.inPlace rows columns (storedByRow matrix) = some (storedByColumn matrix) := by
  obtain ⟨result, hRun, hSettled⟩ := Transposition.inPlace_settles (size_storedByRow matrix)
  have hSize : result.size = columns * rows := hSettled.placed.size.trans (Nat.mul_comm _ _)
  rw [hRun, storedByColumn, eq_storedByRow hSize fun j i => ?_]
  rw [hSettled.getElem?_entry i.isLt j.isLt, getElem?_storedByRow]
  rfl

theorem inPlace_storedByColumn (matrix : Matrix (Fin rows) (Fin columns) β) :
    Transposition.inPlace columns rows (storedByColumn matrix) = some (storedByRow matrix) :=
  inPlace_storedByRow matrix.transpose

end Storage

/-! ## Factorizations

The steps of a factorization in the buffer, and what they leave there. -/

/-- A step that succeeds hands its value and the buffer it leaves to the next one. -/
theorem run_bind_of_ok {α β γ : Type} {first : ExceptT (Error α) (StateM (Array α)) β}
    {next : β → ExceptT (Error α) (StateM (Array α)) γ} {buffer left : Array α} {value : β}
    (hFirst : first.run.run buffer = (.ok value, left)) :
    (first >>= next).run.run buffer = (next value).run.run left := by
  rw [ExceptT.run_bind, StateT.run_bind, hFirst]
  rfl

theorem run_transposeBuffer {α : Type} {rows columns : ℕ} {refused : Error α}
    {buffer moved : Array α} (hMoved : Transposition.inPlace rows columns buffer = some moved) :
    (transposeBuffer rows columns refused).run.run buffer = (.ok (), moved) := by
  have hRead : (get : ExceptT (Error α) (StateM (Array α)) (Array α)).run.run buffer =
      (.ok buffer, buffer) := rfl
  rw [transposeBuffer, run_bind_of_ok hRead, hMoved]
  rfl

/-- Dimensions that do not fit are refused, unless it is the length that does not fit and the number
of entries is not kept as a size. -/
theorem checkDimensions_eq_error {α : Type} {rows columns size : ℕ}
    (hRefused : rows = 0 ∨ columns = 0 ∨ rows < columns ∨
      size ≠ rows * columns ∧ rows * columns < sizeCount) :
    checkDimensions (α := α) rows columns size = .error (.matrixDimension rows columns) := by
  unfold checkDimensions
  split
  · rfl
  · obtain ⟨hLength, hKept⟩ : size ≠ rows * columns ∧ rows * columns < sizeCount := by omega
    rw [if_neg hLength, wrapSize_of_lt hKept, if_neg hLength]

section Factorization

variable {α : Type} [Scalar α] [Elementary α] {rows columns : ℕ}

/-- What is left of a stored matrix is a stored matrix. -/
theorem exists_factorByColumn_eq (hTall : columns ≤ rows)
    (matrix : Matrix (Fin rows) (Fin columns) α) :
    ∃ (betas : List α) (factored : Matrix (Fin rows) (Fin columns) α),
      factorByColumn rows columns (storedByColumn matrix) = (betas, storedByColumn factored) := by
  obtain ⟨factored, hFactored⟩ :=
    exists_eq_storedByColumn (size_factorByColumn hTall (size_storedByColumn matrix))
  exact ⟨_, factored, Prod.ext rfl hFactored⟩

/-- A matrix has the same factorization in both layouts. -/
theorem exists_factor_stored (hSome : 1 ≤ columns) (hTall : columns ≤ rows)
    (matrix : Matrix (Fin rows) (Fin columns) α) :
    ∃ (betas : List α) (factored : Matrix (Fin rows) (Fin columns) α),
      factor (storedByColumn matrix) rows columns .byColumn =
        .ok (betas, storedByColumn factored) ∧
      factor (storedByRow matrix) rows columns .byRow = .ok (betas, storedByRow factored) := by
  obtain ⟨betas, factored, hFactored⟩ := exists_factorByColumn_eq hTall matrix
  refine ⟨betas, factored, ?_, ?_⟩
  · rw [factor, checkDimensions_eq_ok_iff.mpr ⟨hSome, hTall, size_storedByColumn matrix⟩]
    exact congrArg Except.ok hFactored
  · rw [factor, checkDimensions_eq_ok_iff.mpr ⟨hSome, hTall, size_storedByRow matrix⟩]
    simp only [inPlace_storedByRow, hFactored, inPlace_storedByColumn]

/-- Done in the buffer itself, a factorization ends with the factored matrix there, or it fails and
leaves the buffer as it was. -/
theorem run_factorInPlace (buffer : Array α) (rows columns : ℕ) (layout : Layout) :
    (factorInPlace rows columns layout).run.run buffer =
      match factor buffer rows columns layout with
      | .ok (betas, result) => (.ok betas, result)
      | .error error => (.error error, buffer) := by
  have hRead : (get : ExceptT (Error α) (StateM (Array α)) (Array α)).run.run buffer =
      (.ok buffer, buffer) := rfl
  unfold factorInPlace factor
  rw [run_bind_of_ok hRead]
  cases hCheck : checkDimensions (α := α) rows columns buffer.size with
  | error fault => rfl
  | ok _ =>
    cases layout with
    | byColumn => rfl
    | byRow =>
        obtain ⟨-, hTall, hSize⟩ := checkDimensions_eq_ok_iff.mp hCheck
        obtain ⟨stored, hStored, hSettled⟩ := Transposition.inPlace_settles hSize
        have hFactored := (size_factorByColumn hTall hSettled.placed.size).trans (Nat.mul_comm _ _)
        obtain ⟨result, hResult, _⟩ := Transposition.inPlace_settles hFactored
        -- three steps in the buffer, none of which fails
        change (transposeBuffer rows columns (.matrixDimension rows columns) >>= fun _ =>
          modifyGet (factorByColumn rows columns) >>= fun betas =>
          transposeBuffer columns rows (.matrixDimension rows columns) >>= fun _ =>
          pure betas : ExceptT (Error α) (StateM (Array α)) (List α)).run.run buffer = _
        have hModify : (modifyGet (factorByColumn rows columns) :
            ExceptT (Error α) (StateM (Array α)) (List α)).run.run stored =
              (.ok (factorByColumn rows columns stored).1,
                (factorByColumn rows columns stored).2) := rfl
        rw [run_bind_of_ok (run_transposeBuffer hStored), run_bind_of_ok hModify,
          run_bind_of_ok (run_transposeBuffer hResult)]
        simp only [hStored, hResult]
        rfl

/-- Whatever the arithmetic, a tall matrix stored row by row has the scalars it has stored column by
column, and the same factored matrix is left of it, stored row by row.  A request whose dimensions
do not fit is refused, and the buffer is left as it was; the number of entries a buffer should have
has to be a size for that. -/
theorem factorInPlace_layouts (rows columns : ℕ) :
    (1 ≤ columns → columns ≤ rows → ∀ matrix : Matrix (Fin rows) (Fin columns) α,
      ∃ (betas : List α) (factored : Matrix (Fin rows) (Fin columns) α),
        (factorInPlace rows columns .byColumn).run.run (storedByColumn matrix) =
          (.ok betas, storedByColumn factored) ∧
        (factorInPlace rows columns .byRow).run.run (storedByRow matrix) =
          (.ok betas, storedByRow factored)) ∧
    ∀ (layout : Layout) (buffer : Array α),
      rows = 0 ∨ columns = 0 ∨ rows < columns ∨
          buffer.size ≠ rows * columns ∧ rows * columns < sizeCount →
        (factorInPlace rows columns layout).run.run buffer =
          (.error (.matrixDimension rows columns), buffer) := by
  constructor
  · intro hSome hTall matrix
    obtain ⟨betas, factored, hByColumn, hByRow⟩ := exists_factor_stored hSome hTall matrix
    refine ⟨betas, factored, ?_, ?_⟩
    · rw [run_factorInPlace, hByColumn]
    · rw [run_factorInPlace, hByRow]
  · intro layout buffer hRefused
    have hFactor : factor buffer rows columns layout = .error (.matrixDimension rows columns) := by
      unfold factor
      rw [checkDimensions_eq_error hRefused]
    rw [run_factorInPlace, hFactor]

end Factorization

/-- Three rows and two columns of doubles, one entry of which is no number. -/
def undefinedCorner : Matrix (Fin 3) (Fin 2) Float :=
  !![0 / 0, 1; 2, 3; 4, 5]

/-- The same buffer, taken for two rows of three columns, is refused. -/
theorem factorInPlace_layouts_undefinedCorner :
    (∃ (betas : List Float) (factored : Matrix (Fin 3) (Fin 2) Float),
      (factorInPlace 3 2 .byColumn).run.run (storedByColumn undefinedCorner) =
        (.ok betas, storedByColumn factored) ∧
      (factorInPlace 3 2 .byRow).run.run (storedByRow undefinedCorner) =
        (.ok betas, storedByRow factored)) ∧
    (factorInPlace 2 3 .byRow).run.run (storedByRow undefinedCorner) =
      (.error (.matrixDimension 2 3), storedByRow undefinedCorner) :=
  ⟨(factorInPlace_layouts 3 2).1 (by decide) (by decide) undefinedCorner,
    (factorInPlace_layouts 2 3).2 .byRow _ (by decide)⟩

/-- Half of all sizes as rows and two columns have so many entries that their number is kept as none.
An empty buffer passes for such a matrix, and its last entry is missed. -/
theorem factorInPlace_wrapped :
    (#[] : Array ℝ).size ≠ 2 ^ 63 * 2 ∧
      (factorInPlace (2 ^ 63) 2 .byColumn).run.run (#[] : Array ℝ) =
        (.error (.indexOutOfRange (2 ^ 64 - 1) 0), #[]) ∧
      (factorInPlace (2 ^ 63) 2 .byColumn).run.run (#[] : Array ℝ) ≠
        (.error (.matrixDimension (2 ^ 63) 2), #[]) := by
  have hFault : (factorInPlace (2 ^ 63) 2 .byColumn).run.run (#[] : Array ℝ) =
      (.error (.indexOutOfRange (2 ^ 64 - 1) 0), #[]) := by
    rw [run_factorInPlace]
    rfl
  refine ⟨by decide, hFault, fun hRefused => ?_⟩
  have hSame := (congrArg Prod.fst hFault).symm.trans (congrArg Prod.fst hRefused)
  exact nomatch Except.error.inj hSame

end Householder
end Pushbroom
