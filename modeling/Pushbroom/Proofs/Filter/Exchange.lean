import Pushbroom.Proofs.Filter.Pruning

namespace Pushbroom
namespace Filter

/-!
# The extremals of every exchange

An exchange starts from evenly spread positions and goes on with those that are chosen from the
local extrema.  Whatever the errors are, NaN among them, these are as many positions as it was
asked for and in increasing order.
-/

section Positions

variable {α : Type} [Scalar α]

theorem pairwise_of_selectExtrema {n count : ℕ} {errors : Vector α n} {positions : List (Fin n)}
    (hSelect : selectExtrema count errors = .ok positions) : positions.Pairwise (· < ·) := by
  obtain ⟨-, rfl⟩ := selectExtrema_eq_ok_iff.mp hSelect
  exact extrema_pairwise.sublist (prune_sublist errors count _ _)

/-- Evenly spread positions are different as long as there are enough points. -/
theorem spread_pairwise {r size : ℕ} (hPositive : 1 ≤ r) (hEnough : r + 1 ≤ size)
    (hSize : 0 < size) : (spread r size hSize).Pairwise (· < ·) := by
  rw [spread, List.pairwise_map]
  refine (List.pairwise_lt_finRange (r + 1)).imp fun {i j} hLess => ?_
  have hStep : i.val * (size - 1) + r ≤ j.val * (size - 1) := calc
    i.val * (size - 1) + r ≤ i.val * (size - 1) + (size - 1) := by omega
    _ = (i.val + 1) * (size - 1) := (Nat.succ_mul _ _).symm
    _ ≤ j.val * (size - 1) := Nat.mul_le_mul_right _ hLess
  have hNext : i.val * (size - 1) / r + 1 ≤ j.val * (size - 1) / r := calc
    i.val * (size - 1) / r + 1 = (i.val * (size - 1) + r) / r :=
      (Nat.add_div_right _ hPositive).symm
    _ ≤ j.val * (size - 1) / r := Nat.div_le_div_right hStep
  exact hNext

theorem Reaches.pairwise [Elementary α] {grid : Array (GridPoint α)} {count : ℕ}
    {start positions : List (Fin grid.size)} (hStart : start.Pairwise (· < ·))
    (hReached : Reaches grid count start positions) : positions.Pairwise (· < ·) := by
  cases hReached with
  | start => exact hStart
  | next _ hSelect => exact pairwise_of_selectExtrema hSelect

end Positions

variable {α K : Type} [Scalar α] [Field K] [LinearOrder K] [IsStrictOrderedRing K]

/-- The local extrema of an error curve are chosen all when there are as many as asked for, and
otherwise the largest of them is among those that are chosen. -/
theorem ReadAs.selectExtrema_cases {n count : ℕ} {errors : Vector α n} {values : Fin n → K}
    (hReads : ReadAs errors values) (hTwo : 2 ≤ n) (hCount : 1 ≤ count) {found : List (Fin n)}
    (hSorted : found.Pairwise (· < ·)) (hFound : ∀ i, i ∈ found ↔ IsLocalExtremum values i) :
    (selectExtrema count errors = .error .filterDesign ↔ found.length < count) ∧
      (found.length = count → selectExtrema count errors = .ok found) ∧
      (count < found.length → ∃ positions, selectExtrema count errors = .ok positions ∧
        positions.length = count ∧ positions.Pairwise (· < ·) ∧ positions ⊆ found ∧
        ∃ i ∈ positions, ∀ j ∈ found, |values j| ≤ |values i|) := by
  have hExtrema := hReads.extrema_eq hTwo hSorted hFound
  refine ⟨?_, fun hExact => ?_, fun hMore => ?_⟩
  · unfold selectExtrema
    simp [hExtrema]
  · rw [selectExtrema_eq_ok_iff, hExtrema, hExact, Nat.sub_self]
    exact ⟨le_rfl, rfl⟩
  · have hSelect : selectExtrema count errors =
        .ok (prune errors count (found.length - count) found) := by
      rw [selectExtrema_eq_ok_iff, hExtrema]
      exact ⟨hMore.le, rfl⟩
    obtain ⟨i, hMember, hLargest⟩ := hReads.exists_largest_selected hTwo hCount hSelect
    exact ⟨_, hSelect, length_of_selectExtrema hSelect, pairwise_of_selectExtrema hSelect,
      (prune_sublist errors count _ _).subset, i, hMember,
      fun j hj => hLargest j ((hFound j).mp hj)⟩

/-- As many of the local extrema of an error curve are chosen as were asked for, the largest of
them among these, unless there are fewer.  From evenly spread positions on, every exchange is
therefore at `r + 1` positions of the grid in increasing order. -/
theorem extremals_of_search [Elementary α] {r : ℕ} (hPositive : 1 ≤ r) :
    (∀ {n : ℕ} {errors : Vector α n} {values : Fin n → K} {found : List (Fin n)},
      ReadAs errors values → 2 ≤ n → found.Pairwise (· < ·) →
      (∀ i, i ∈ found ↔ IsLocalExtremum values i) →
      (selectExtrema (r + 1) errors = .error .filterDesign ↔ found.length < r + 1) ∧
        (found.length = r + 1 → selectExtrema (r + 1) errors = .ok found) ∧
        (r + 1 < found.length → ∃ positions, selectExtrema (r + 1) errors = .ok positions ∧
          positions.length = r + 1 ∧ positions.Pairwise (· < ·) ∧ positions ⊆ found ∧
          ∃ i ∈ positions, ∀ j ∈ found, |values j| ≤ |values i|)) ∧
      ∀ (grid : Array (GridPoint α)) (hSize : r + 1 ≤ grid.size),
        let start := spread r grid.size (Nat.lt_of_lt_of_le (Nat.succ_pos r) hSize)
        (∀ iterations positions, exchange grid (r + 1) iterations start = .ok positions →
          Reaches grid (r + 1) start positions) ∧
        ∀ positions, Reaches grid (r + 1) start positions →
          positions.length = r + 1 ∧ positions.Pairwise (· < ·) := by
  refine ⟨fun hReads hTwo hSorted hFound =>
    hReads.selectExtrema_cases hTwo (Nat.le_add_left 1 r) hSorted hFound, fun grid hSize => ?_⟩
  have hStart := Nat.lt_of_lt_of_le (Nat.succ_pos r) hSize
  exact ⟨fun _ _ hExchange => Reaches.start.of_exchange hExchange, fun _ hReached =>
    ⟨hReached.length_eq (length_spread r _ hStart),
      hReached.pairwise (spread_pairwise hPositive hSize hStart)⟩⟩

/-- Of four doubles that alternate two are chosen, and three points are enough to start from the
first and the last. -/
theorem extremals_of_search_two :
    let errors : Vector Float 4 := #v[2, -3, 1, -3]
    let found : List (Fin 4) := [0, 1, 2, 3]
    let grid : Array (GridPoint Float) := #[⟨0, 1, 1⟩, ⟨0.25, 1, 1⟩, ⟨0.5, 0, 1⟩]
    (∃ positions, selectExtrema 2 errors = .ok positions ∧ positions.length = 2 ∧
      positions.Pairwise (· < ·) ∧ positions ⊆ found ∧ ∃ i ∈ positions, ∀ j ∈ found,
        |Binary64.number (errors.get j)| ≤ |Binary64.number (errors.get i)|) ∧
    ∀ iterations positions, exchange grid 2 iterations [0, 2] = .ok positions →
      positions.length = 2 ∧ positions.Pairwise (· < ·) := by
  intro errors found grid
  have hReads : ReadAs errors fun i => Binary64.number (errors.get i) :=
    readAs_number (by decide +kernel)
  have hExtrema : extrema errors = found := by decide +kernel
  have hFound (i : Fin 4) : i ∈ found ↔
      IsLocalExtremum (fun i : Fin 4 => Binary64.number (errors.get i)) i := by
    rw [← hExtrema]
    exact hReads.mem_extrema_iff (by decide) i
  obtain ⟨hSearch, hExchanges⟩ := extremals_of_search (α := Float) (K := ℚ) (r := 1) le_rfl
  obtain ⟨-, -, hMore⟩ := hSearch hReads (by decide) (by decide) hFound
  obtain ⟨hReached, hIncreasing⟩ := hExchanges grid (by decide)
  have hStart : spread 1 grid.size (by decide) = [0, 2] := by decide
  rw [hStart] at hReached hIncreasing
  exact ⟨hMore (by decide), fun iterations positions hExchange =>
    hIncreasing positions (hReached iterations positions hExchange)⟩

end Filter
end Pushbroom
