import Pushbroom.Moon.Position
import Pushbroom.Proofs.Scalar.Exact

namespace Pushbroom
namespace Moon

/-!
# Unwrapped angles

Unwrapping takes from an angle the whole turns that bring it within half a turn of its
reference.  The threshold of a quarter turn, below which an angle is left alone, makes no
difference: the number of turns that would be taken there is zero.  An angle that has a
representative strictly within half a turn is brought to that representative, however many
turns it is off.
-/

open Elementary (turn)

variable {K : Type} [Field K] [LinearOrder K] [FloorRing K] [IsStrictOrderedRing K]
  [Elementary K]

theorem unwrap_eq_sub_turns (hTurn : 0 < (turn : K)) (angle reference : K) :
    unwrap angle reference = angle - turn * roundAway ((angle - reference) / turn) := by
  simp only [unwrap, unwrapThreshold, Scalar.abs_eq, round_eq_roundAway]
  split
  · rfl
  · rename_i hNear
    -- below the threshold the quotient is at most a quarter and rounds to zero
    have hQuarter : |angle - reference| ≤ turn / 4 := by
      have hFour : (4.0 : K) = 4 := by norm_num
      rw [hFour] at hNear
      exact not_lt.mp hNear
    have hZero : roundAway ((angle - reference) / turn) = 0 := by
      apply roundAway_eq_of_abs_sub_lt
      rw [Int.cast_zero, sub_zero, abs_div, abs_of_pos hTurn, div_lt_iff₀ hTurn]
      linarith
    rw [hZero, Int.cast_zero, mul_zero, sub_zero]

theorem exists_unwrap_eq_add_turns (hTurn : 0 < (turn : K)) (angle reference : K) :
    ∃ n : ℤ, unwrap angle reference = angle + n * turn := by
  refine ⟨-roundAway ((angle - reference) / turn), ?_⟩
  rw [unwrap_eq_sub_turns hTurn]
  push_cast
  ring

theorem abs_unwrap_sub_le (hTurn : 0 < (turn : K)) (angle reference : K) :
    |unwrap angle reference - reference| ≤ turn / 2 := by
  have hRounded := abs_sub_roundAway_le ((angle - reference) / turn)
  have hScaled : unwrap angle reference - reference =
      ((angle - reference) / turn - roundAway ((angle - reference) / turn)) * turn := by
    rw [unwrap_eq_sub_turns hTurn]
    field_simp
    ring
  rw [hScaled, abs_mul, abs_of_pos hTurn]
  calc |(angle - reference) / turn - roundAway ((angle - reference) / turn)| * turn
      ≤ 1 / 2 * turn := by gcongr
    _ = turn / 2 := by ring

/-- The representative strictly within half a turn of the reference is found from any
number of turns away. -/
theorem unwrap_eq_of_near (hTurn : 0 < (turn : K)) {angle reference near : K} {n : ℤ}
    (hTurns : angle = near + n * turn) (hNear : |near - reference| < turn / 2) :
    unwrap angle reference = near := by
  have hRound : roundAway ((angle - reference) / turn) = n := by
    apply roundAway_eq_of_abs_sub_lt
    have hQuotient : (angle - reference) / turn - n = (near - reference) / turn := by
      rw [hTurns]
      field_simp
      ring
    rw [hQuotient, abs_div, abs_of_pos hTurn, div_lt_iff₀ hTurn]
    linarith
  rw [unwrap_eq_sub_turns hTurn, hRound, hTurns]
  ring

/-- Whole turns added to an angle do not change what it is unwrapped to, unless it is an odd
number of half turns away from the reference, where there are two nearest representatives. -/
theorem unwrap_add_turns (hTurn : 0 < (turn : K)) {angle reference : K}
    (hOff : ∀ k : ℤ, angle - reference ≠ (2 * k + 1) * (turn / 2)) (n : ℤ) :
    unwrap (angle + n * turn) reference = unwrap angle reference := by
  obtain ⟨m, hm⟩ := exists_unwrap_eq_add_turns hTurn angle reference
  have hWithin := abs_unwrap_sub_le hTurn angle reference
  have hStrict : |unwrap angle reference - reference| < turn / 2 := by
    refine lt_of_le_of_ne hWithin fun hHalf => ?_
    -- at exactly half a turn the angle itself is an odd number of half turns away
    rcases eq_or_eq_neg_of_abs_eq hHalf with hAbove | hBelow
    · apply hOff (-m)
      push_cast
      linear_combination hAbove - hm
    · apply hOff (-m - 1)
      push_cast
      linear_combination hBelow - hm
  apply unwrap_eq_of_near hTurn (n := n - m) _ hStrict
  rw [hm]
  push_cast
  ring

end Moon
end Pushbroom
