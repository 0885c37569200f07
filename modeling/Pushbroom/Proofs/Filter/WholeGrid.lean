import Pushbroom.Proofs.Filter.Barycentric
import Pushbroom.Proofs.Filter.LocalExtrema
import Pushbroom.Proofs.Filter.Selection

namespace Pushbroom
namespace Filter

/-!
# Grids of the extremals alone

On a grid of as many points as the exchange asks for, the errors of the levelled response
alternate from each point to the next.  Unless the level is zero, every point is an extremum
then, and the exchange stays where it is.
-/

variable {K : Type} [Field K] [LinearOrder K] [FloorRing K]

theorem alternation_succ (i : ℕ) : (alternation (i + 1) : K) = -alternation i := by
  unfold alternation
  rcases Nat.mod_two_eq_zero_or_one i with hEven | hOdd
  · rw [if_neg (by omega), if_pos hEven]
  · rw [if_pos (by omega), if_neg (by omega), neg_neg]

theorem alternation_eq_pow (i : ℕ) : (alternation i : K) = (-1) ^ i := by
  induction i with
  | zero => rw [alternation, if_pos rfl, pow_zero]
  | succ i ih => rw [alternation_succ, ih, pow_succ, mul_neg_one]

theorem alternation_ne_zero (i : ℕ) : (alternation i : K) ≠ 0 := by
  rw [alternation_eq_pow]
  exact pow_ne_zero i (neg_ne_zero.mpr one_ne_zero)

variable [IsStrictOrderedRing K]

/-- A number between its opposites is a local extremum, also at an end of the grid. -/
theorem isLocalExtremum_of_opposite {n : ℕ} {values : Fin n → K} {i : Fin n}
    (hNonzero : values i ≠ 0)
    (hNeighbour : ∀ j : Fin n, j.val + 1 = i.val ∨ j.val = i.val + 1 → values j = -values i) :
    IsLocalExtremum values i := by
  rcases hNonzero.lt_or_gt with hNegative | hPositive
  · have hLess (j : Fin n) (hj : j.val + 1 = i.val ∨ j.val = i.val + 1) :
        -values j < -values i := by
      rw [hNeighbour j hj]
      linarith
    exact .inr ⟨neg_pos.mpr hNegative, fun j hj => (hLess j (.inl hj)).le,
      fun j hj => hLess j (.inr hj), fun _ j hj => hLess j (.inl hj)⟩
  · have hLess (j : Fin n) (hj : j.val + 1 = i.val ∨ j.val = i.val + 1) :
        values j < values i := by
      rw [hNeighbour j hj]
      linarith
    exact .inl ⟨hPositive, fun j hj => (hLess j (.inl hj)).le,
      fun j hj => hLess j (.inr hj), fun _ j hj => hLess j (.inl hj)⟩

/-- Errors that alternate on the whole grid are all extrema. -/
theorem extrema_of_alternating {n : ℕ} {errors : Vector K n} {level : K} (hLevel : level ≠ 0)
    (hErrors : ∀ (i : ℕ) (_ : i < n), errors[i] = alternation i * level) (hTwo : 2 ≤ n) :
    extrema errors = List.finRange n := by
  have hValue (i : Fin n) : errors.get i = alternation i.val * level := hErrors i.val i.isLt
  refine (readAs_get errors).extrema_eq hTwo (List.pairwise_lt_finRange n) fun i =>
    iff_of_true (List.mem_finRange i) (isLocalExtremum_of_opposite ?_ fun j hj => ?_)
  · rw [hValue]
    exact mul_ne_zero (alternation_ne_zero _) hLevel
  · rw [hValue, hValue]
    rcases hj with hBefore | hAfter
    · rw [← hBefore, alternation_succ, neg_mul, neg_neg]
    · rw [hAfter, alternation_succ, neg_mul]

variable [Elementary K]

/-- The points of a grid at some of its positions. -/
def pointsAt {n : ℕ} (grid : Array (GridPoint K)) (positions : Fin n → Fin grid.size) (i : Fin n) :
    GridPoint K :=
  grid[positions i]

omit [IsStrictOrderedRing K] in
theorem nodesAt_ofFn {n : ℕ} {grid : Array (GridPoint K)} (extremals : Fin n → Fin grid.size) :
    nodesAt grid (List.ofFn extremals) = nodes (List.ofFn (pointsAt grid extremals)) := by
  rw [nodesAt, List.map_ofFn]
  rfl

/-- The errors on the grid have one magnitude and alternating signs where they are levelled. -/
theorem Unguarded.weightedErrors_eq {n : ℕ} {grid : Array (GridPoint K)}
    {extremals : Fin n → Fin grid.size} (hUnguarded : Unguarded (pointsAt grid extremals))
    (i : Fin n) :
    (weightedErrors grid (nodesAt grid (List.ofFn extremals)))[extremals i] =
      alternation i.val * level (pointsAt grid extremals) (nodeWeight (pointsAt grid extremals)) := by
  rw [← hUnguarded.error_nodeValue i, ← response_eq_nodeValue hUnguarded, nodesAt_ofFn]
  simp [weightedErrors, pointsAt]

/-- A grid of no more points than a response alternates at keeps them all. -/
theorem exchange_wholeGrid {grid : Array (GridPoint K)}
    (hUnguarded : Unguarded (pointsAt grid id))
    (hLevel : level (pointsAt grid id) (nodeWeight (pointsAt grid id)) ≠ 0)
    (hTwo : 2 ≤ grid.size) (iterations : ℕ) :
    exchange grid grid.size iterations (List.finRange grid.size) =
      .ok (List.finRange grid.size) := by
  have hErrors (i : ℕ) (hi : i < grid.size) :
      (weightedErrors grid (nodesAt grid (List.finRange grid.size)))[i] =
        alternation i * level (pointsAt grid id) (nodeWeight (pointsAt grid id)) := by
    have hAt := hUnguarded.weightedErrors_eq ⟨i, hi⟩
    rwa [List.ofFn_id] at hAt
  have hSelect : selectExtrema grid.size
      (weightedErrors grid (nodesAt grid (List.finRange grid.size))) =
        .ok (List.finRange grid.size) := by
    rw [selectExtrema, extrema_of_alternating hLevel hErrors hTwo]
    simp [prune]
  induction iterations with
  | zero => rfl
  | succ iterations ih =>
      rw [exchange, hSelect, Failure.ok_bind]
      split
      · rfl
      · exact ih

end Filter
end Pushbroom
