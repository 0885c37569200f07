import Pushbroom.Proofs.Filter.WholeGrid

namespace Pushbroom
namespace Filter

/-!
# The response that is levelled at some points of the grid

One exchange takes a response through one point more than a response of its degree is free to pass.
What is left over is the level: the error it leaves at each of the points, in alternating
directions, is such that the polynomial through all of them loses its highest degree.
-/

variable {K : Type} [Field K] [LinearOrder K] [FloorRing K] [IsStrictOrderedRing K] [Elementary K]

theorem weights_nodesAt {n : ℕ} {grid : Array (GridPoint K)} {extremals : Fin n → Fin grid.size}
    (hUnguarded : Unguarded (pointsAt grid extremals)) :
    (nodesAt grid (List.ofFn extremals)).map Node.weight =
      List.ofFn fun i => 1 / separation (cosines (pointsAt grid extremals)) i := by
  rw [nodesAt_ofFn, nodes_ofFn hUnguarded, List.map_ofFn]
  refine congrArg List.ofFn (funext fun i => ?_)
  rw [Function.comp_apply, nodeWeight, one_div]

/-- The response at the extremals of an exchange, whatever function stands for the cosine.  Its
weights are the products of the distances, each taken once in the order of the stride, its weighted
errors alternate at one level, and it is a polynomial in the cosine of the angular frequency, of a
degree two below the number of extremals. -/
theorem levelled_response {r : ℕ} {grid : Array (GridPoint K)}
    {extremals : Fin (r + 1) → Fin grid.size} (hUnguarded : Unguarded (pointsAt grid extremals)) :
    (strided (strideFor (r + 1)) (List.ofFn (cosines (pointsAt grid extremals)))).Perm
        (List.ofFn (cosines (pointsAt grid extremals))).zipIdx ∧
      ((nodesAt grid (List.ofFn extremals)).map Node.weight = List.ofFn fun i =>
        1 / ∏ k ∈ Finset.univ.erase i, 2 * (cosines (pointsAt grid extremals) i -
          cosines (pointsAt grid extremals) k)) ∧
      (∃ level, ∀ i : Fin (r + 1),
        (weightedErrors grid (nodesAt grid (List.ofFn extremals)))[extremals i] =
          (-1) ^ (i : ℕ) * level) ∧
      ∃ P : Polynomial K, P.degree < r ∧ ∀ frequency,
        (∀ i, cosineAt frequency = cosines (pointsAt grid extremals) i ∨
          1e-7 ≤ |cosineAt frequency - cosines (pointsAt grid extremals) i|) →
        response (nodesAt grid (List.ofFn extremals)) frequency =
          P.eval (cosineAt frequency) := by
  refine ⟨strided_perm (Nat.succ_pos _) _, weights_nodesAt hUnguarded,
    ⟨level (pointsAt grid extremals) (nodeWeight (pointsAt grid extremals)), fun i => ?_⟩,
    interpolant (pointsAt grid extremals), degree_interpolant_lt hUnguarded r.succ_pos,
    fun frequency hResolved => ?_⟩
  · rw [hUnguarded.weightedErrors_eq i, alternation_eq_pow]
  · rw [response, nodesAt_ofFn, evaluate_nodes hUnguarded r.succ_pos hResolved]

/-! ## Seventeen extremals -/

/-- Thirty-three frequencies, of which the lower half shall pass. -/
def evenGrid : Array (GridPoint ℚ) :=
  Array.ofFn fun i : Fin 33 =>
    ⟨((i : ℕ) : ℚ) / 64, if i < 16 then 1 else 0, if i < 16 then 1 else 10⟩

/-- Every second position of the grid. -/
def everySecond (i : Fin 17) : Fin evenGrid.size :=
  ⟨2 * i, by rw [evenGrid, Array.size_ofFn]; omega⟩

theorem unguarded_everySecond : Unguarded (pointsAt evenGrid everySecond) where
  apart := by decide +kernel
  unclamped := by decide +kernel
  weighted := by decide +kernel
  divisor := by decide +kernel

/-- The error of a response through seventeen points, whose distances are multiplied in two rounds,
alternates at all of them. -/
theorem levelled_response_everySecond :
    Unguarded (pointsAt evenGrid everySecond) ∧ strideFor 17 = 2 ∧
      (∃ level, ∀ i : Fin 17,
        (weightedErrors evenGrid (nodesAt evenGrid (List.ofFn everySecond)))[everySecond i] =
          (-1) ^ (i : ℕ) * level) ∧
      ∃ P : Polynomial ℚ, P.degree < (16 : ℕ) ∧
        response (nodesAt evenGrid (List.ofFn everySecond)) (1 / 5) =
          P.eval (cosineAt (1 / 5)) := by
  obtain ⟨-, -, hAlternates, P, hDegree, hResponse⟩ := levelled_response unguarded_everySecond
  exact ⟨unguarded_everySecond, rfl, hAlternates, P, hDegree, hResponse _ (by decide +kernel)⟩

end Filter
end Pushbroom
