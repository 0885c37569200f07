import Pushbroom.Filter.Design
import Pushbroom.Proofs.Failure

namespace Pushbroom
namespace Filter

/-!
# How many extrema an exchange keeps

The superfluous extremum is one of those there are, so each that is dropped leaves one less,
and an exchange that does not fail goes on with as many positions as it was asked for.
-/

variable {α : Type} [Scalar α]

/-- The smallest error that was met lies before the errors still to come, or is one of them. -/
theorem scanSigns_lt (errors : List α) (up : Bool) (smallest : Nat × α) (position : Nat)
    (hSmallest : smallest.1 < position) :
    (scanSigns up smallest position errors).1 < position + errors.length := by
  induction errors generalizing up smallest position with
  | nil => exact hSmallest
  | cons error rest ih =>
      have hNext : (if Scalar.abs error < Scalar.abs smallest.2 then (position, error)
          else smallest).1 < position + 1 := by
        split
        · exact Nat.lt_succ_self position
        · exact Nat.lt_succ_of_lt hSmallest
      have hRest (up : Bool) := ih up _ (position + 1) hNext
      rw [List.length_cons]
      simp only [scanSigns]
      split
      · have hDown := hRest false
        omega
      · split
        · have hUp := hRest true
          omega
        · exact Nat.lt_of_lt_of_le hNext (by omega)

theorem superfluous_lt (count : Nat) {errors : List α} (hErrors : errors ≠ []) :
    superfluous count errors < errors.length := by
  cases errors with
  | nil => exact absurd rfl hErrors
  | cons first rest =>
      have hScan := scanSigns_lt rest (decide (0 < first)) (0, first) 1 Nat.one_pos
      simp only [superfluous]
      split
      · split
        · split
          · exact Nat.sub_one_lt (by simp)
          · exact Nat.succ_pos _
        · exact Nat.succ_pos _
      · rw [List.length_cons]
        omega

theorem prune_succ {n : Nat} (errors : Vector α n) (count excess : Nat) (found : List (Fin n)) :
    prune errors count (excess + 1) found =
      prune errors count excess (found.eraseIdx (superfluous count (found.map errors.get))) :=
  rfl

/-- A round leaves one position less. -/
theorem length_eraseIdx_superfluous {n : Nat} (errors : Vector α n) (count : Nat)
    {found : List (Fin n)} (hFound : found ≠ []) :
    (found.eraseIdx (superfluous count (found.map errors.get))).length =
      found.length - 1 := by
  have hErrors : found.map errors.get ≠ [] := mt List.map_eq_nil_iff.mp hFound
  have hDropped := superfluous_lt count hErrors
  rw [List.length_map] at hDropped
  exact List.length_eraseIdx_of_lt hDropped

theorem length_prune {n : Nat} (errors : Vector α n) (count excess : Nat)
    (found : List (Fin n)) (hExcess : excess ≤ found.length) :
    (prune errors count excess found).length = found.length - excess := by
  induction excess generalizing found with
  | zero => rfl
  | succ excess ih =>
      have hShorter := length_eraseIdx_superfluous errors count
        (List.ne_nil_of_length_pos (Nat.lt_of_lt_of_le (Nat.succ_pos excess) hExcess))
      rw [prune_succ, ih _ (by omega), hShorter]
      omega

theorem selectExtrema_eq_ok_iff {n count : Nat} {errors : Vector α n}
    {positions : List (Fin n)} :
    selectExtrema count errors = .ok positions ↔
      count ≤ (extrema errors).length ∧
        prune errors count ((extrema errors).length - count) (extrema errors) = positions := by
  unfold selectExtrema
  dsimp only
  split
  · rename_i hFew
    exact ⟨(nomatch ·), fun hPruned => absurd hPruned.1 (Nat.not_le.mpr hFew)⟩
  · rename_i hEnough
    rw [Except.ok.injEq, and_iff_right (Nat.not_lt.mp hEnough)]

theorem length_of_selectExtrema {n count : Nat} {errors : Vector α n}
    {positions : List (Fin n)} (hSelect : selectExtrema count errors = .ok positions) :
    positions.length = count := by
  obtain ⟨hEnough, rfl⟩ := selectExtrema_eq_ok_iff.mp hSelect
  rw [length_prune _ _ _ _ (Nat.sub_le _ _)]
  omega

/-! ## Exchanges -/

section Exchanges

variable [Elementary α] {grid : Array (GridPoint α)} {count : Nat} {start : List (Fin grid.size)}

/-- The positions that exchanges go through, one selection after the other. -/
inductive Reaches (grid : Array (GridPoint α)) (count : Nat) (start : List (Fin grid.size)) :
    List (Fin grid.size) → Prop
  | start : Reaches grid count start start
  | next {positions next : List (Fin grid.size)} (hReached : Reaches grid count start positions)
      (hSelect : selectExtrema count (weightedErrors grid (nodesAt grid positions)) = .ok next) :
      Reaches grid count start next

/-- Exchanges from positions that were reached end with positions that are reached. -/
theorem Reaches.of_exchange {iterations : Nat} {positions final : List (Fin grid.size)}
    (hReached : Reaches grid count start positions)
    (hExchange : exchange grid count iterations positions = .ok final) :
    Reaches grid count start final := by
  induction iterations generalizing positions with
  | zero =>
      cases hExchange
      exact hReached
  | succ iterations ih =>
      obtain ⟨next, hSelect, hRest⟩ := Failure.bind_eq_ok.mp hExchange
      have hNext := hReached.next hSelect
      split at hRest
      · cases hRest
        exact hNext
      · exact ih hNext hRest

theorem Reaches.length_eq (hStart : start.length = count) {positions : List (Fin grid.size)}
    (hReached : Reaches grid count start positions) : positions.length = count := by
  cases hReached with
  | start => exact hStart
  | next _ hSelect => exact length_of_selectExtrema hSelect

end Exchanges

theorem length_spread (r size : Nat) (hSize : 0 < size) : (spread r size hSize).length = r + 1 := by
  simp [spread]

end Filter
end Pushbroom
