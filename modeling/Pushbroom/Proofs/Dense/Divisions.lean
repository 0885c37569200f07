import Pushbroom.Proofs.Dense.Factorization
import Pushbroom.Proofs.Scalar.Guarded

namespace Pushbroom
namespace Householder

/-!
# The divisions of a factorization

Over guarded numbers a factorization comes by the numbers it comes by over the real numbers, so
it divides by no zero: the entries of a column by the sum of two magnitudes, one of which does
not vanish, and two by the square of a vector whose first entry is one.
-/

open Guarded (number)

/-- A reflection over guarded numbers. -/
def Reflection.guarded (h : Reflection ℝ) : Reflection (Guarded ℝ) :=
  ⟨number h.beta, h.tail.map number⟩

theorem zipWith_number {f : ℝ → ℝ → ℝ} {g : Guarded ℝ → Guarded ℝ → Guarded ℝ}
    (hSame : ∀ x y, g (number x) (number y) = number (f x y)) (u v : List ℝ) :
    List.zipWith g (u.map number) (v.map number) = (List.zipWith f u v).map number := by
  rw [List.zipWith_map, List.map_zipWith]
  simp only [hSame]

theorem apply_guarded (h : Reflection ℝ) (column : List ℝ) :
    h.guarded.apply (column.map number) = (h.apply column).map number := by
  have hVector : h.guarded.vector = h.vector.map number := rfl
  have hInner : Scalar.sum (List.zipWith (· * ·) (h.vector.map number) (column.map number)) =
      number (Scalar.sum (List.zipWith (· * ·) h.vector column)) := by
    rw [zipWith_number (fun _ _ => rfl), Guarded.sum_number]
  rw [Reflection.apply, hVector, hInner, Reflection.apply]
  exact zipWith_number (fun _ _ => rfl) column h.vector

theorem sumOfSquares_guarded (entries : List ℝ) :
    sumOfSquares (entries.map number) = number (sumOfSquares entries) := by
  have hSquares : (entries.map number).map (fun entry => entry * entry) =
      (entries.map fun entry => entry * entry).map number := by
    simp only [List.map_map]
    rfl
  rw [sumOfSquares, hSquares, Guarded.sum_number, sumOfSquares]

theorem norm_guarded (column : List ℝ) :
    Elementary.sqrt (sumOfSquares (column.map number)) = number (columnNorm column) := by
  rw [sumOfSquares_guarded, Guarded.sqrt_number, columnNorm]
  rw [sumOfSquares_eq]
  exact inner_self_nonneg column

theorem divisor_guarded (pivot : ℝ) (below : List ℝ) :
    number pivot + Scalar.sign (number pivot) *
      Elementary.sqrt (sumOfSquares (number pivot :: below.map number)) =
        number (divisor pivot below) := by
  have hNorm := norm_guarded (pivot :: below)
  rw [List.map_cons] at hNorm
  rw [hNorm, Guarded.sign_number]
  rfl

/-- Entries divided by the divisor of a column that does not vanish are numbers. -/
theorem map_div_guarded {pivot : ℝ} {below : List ℝ}
    (hLarge : vanishing < columnNorm (pivot :: below)) :
    ((below.map number).map fun entry => entry / number (divisor pivot below)) =
      (below.map fun entry => entry / divisor pivot below).map number := by
  rw [List.map_map, List.map_map]
  exact List.map_congr_left fun entry _ => Guarded.number_div (divisor_ne_zero hLarge)

/-- Two divided by the square of a vector is a number. -/
theorem two_div_guarded (tail : List ℝ) :
    2.0 / sumOfSquares (1 :: tail.map number) = number (2.0 / sumOfSquares (1 :: tail)) := by
  have hSquare := sumOfSquares_guarded (1 :: tail)
  have hNonzero : sumOfSquares (1 :: tail) ≠ 0 := by
    rw [sumOfSquares_eq]
    exact (lt_of_lt_of_le one_pos (one_le_inner_vector ⟨0, tail⟩)).ne'
  rw [List.map_cons] at hSquare
  change number 2.0 / sumOfSquares (number 1 :: tail.map number) = _
  rw [hSquare, Guarded.number_div hNonzero]

theorem reflection_guarded (column : List ℝ) :
    reflection (column.map number) = (reflection column).guarded := by
  have hTwo : (2.0 / 1 : Guarded ℝ) = number (2.0 / 1) := Guarded.number_div one_ne_zero
  cases column with
  | nil => exact congrArg (Reflection.mk · []) hTwo
  | cons pivot below =>
      have hNorm := norm_guarded (pivot :: below)
      rw [List.map_cons] at hNorm ⊢
      by_cases hLarge : vanishing < columnNorm (pivot :: below)
      · have hGuarded : vanishing <
            Elementary.sqrt (sumOfSquares (number pivot :: below.map number)) := by
          rw [hNorm]
          exact hLarge
        rw [reflection_of_large hLarge, reflection]
        simp only [if_pos hGuarded, divisor_guarded, map_div_guarded hLarge, two_div_guarded]
        rfl
      · have hGuarded : ¬vanishing <
            Elementary.sqrt (sumOfSquares (number pivot :: below.map number)) := by
          rw [hNorm]
          exact hLarge
        rw [reflection_of_small hLarge, reflection]
        simp only [if_neg hGuarded, hTwo, Reflection.guarded, zeros, List.map_const',
          List.length_map, List.map_replicate]
        rfl

theorem map_apply_guarded (h : Reflection ℝ) (columns : List (List ℝ)) :
    (columns.map (·.map number)).map h.guarded.apply =
      (columns.map h.apply).map (·.map number) := by
  rw [List.map_map, List.map_map]
  exact List.map_congr_left fun column _ => apply_guarded h column

theorem remaining_guarded (first : List ℝ) (others : List (List ℝ)) :
    remaining (first.map number) (others.map (·.map number)) =
      (remaining first others).map (·.map number) := by
  rw [remaining, reflection_guarded, map_apply_guarded, remaining, List.map_map,
    List.map_map (l := others.map _)]
  exact List.map_congr_left fun column _ => List.map_drop.symm

theorem beneath_map {α β : Type} (f : α → β) (heads rests : List (List α)) :
    beneath (heads.map (·.map f)) (rests.map (·.map f)) = (beneath heads rests).map (·.map f) := by
  simp only [beneath, List.zipWith_map, List.map_zipWith, List.map_append, List.map_take]

theorem factorColumns_guarded (columns : List (List ℝ)) :
    factorColumns (columns.map (·.map number)) =
      ⟨(factorColumns columns).betas.map number,
        (factorColumns columns).columns.map (·.map number)⟩ := by
  induction columns using remainders.induct with
  | case1 => simp [factorColumns]
  | case2 first others ih =>
      rw [List.map_cons, factorColumns_cons, remaining_guarded, ih, factorColumns_cons,
        reflection_guarded, apply_guarded, map_apply_guarded, beneath_map, ← List.map_take]
      simp only [List.map_cons, List.map_append]
      rfl

theorem splitColumns_map {α β : Type} (f : α → β) (rows columns : ℕ) (entries : List α) :
    splitColumns rows columns (entries.map f) =
      (splitColumns rows columns entries).map (·.map f) := by
  induction columns generalizing entries with
  | zero => rfl
  | succ columns ih =>
      rw [splitColumns, splitColumns, List.map_cons, ← List.map_take, ← List.map_drop, ih]

theorem factorByColumn_guarded (rows columns : ℕ) (buffer : Array ℝ) :
    factorByColumn rows columns (buffer.map number) =
      ((factorByColumn rows columns buffer).1.map number,
        (factorByColumn rows columns buffer).2.map number) := by
  simp only [factorByColumn, Array.toList_map, splitColumns_map, factorColumns_guarded]
  refine Prod.ext rfl ?_
  simp [List.map_flatten]

end Householder
end Pushbroom
