import Mathlib.Tactic
import Pushbroom.Polynomial.Series
import Pushbroom.Proofs.Scalar.Exact

namespace Pushbroom
namespace Series

/-!
# Power series as sums

The nested form of a power series is the sum of its coefficients times the powers, and cutting
it at a degree below the greatest size cuts that sum.
-/

variable {K : Type} [Field K]

theorem power_eq_sum (coefficients : List K) (x : K) :
    power coefficients x =
      ∑ k ∈ Finset.range coefficients.length, coefficients.getD k 0 * x ^ k := by
  induction coefficients with
  | nil => rfl
  | cons c rest ih =>
      have hNested : power (c :: rest) x = power rest x * x + c := rfl
      rw [hNested, ih, List.length_cons, Finset.sum_range_succ', Finset.sum_mul]
      simp only [List.getD_cons_succ, List.getD_cons_zero, pow_succ, pow_zero, mul_one, mul_assoc]

theorem power_upToOrder_eq_sum (coefficients : List K) {order : ℕ} (hOrder : order + 1 < sizeCount)
    (x : K) :
    power (upToOrder coefficients order) x =
      ∑ k ∈ Finset.range (min (order + 1) coefficients.length),
        coefficients.getD k 0 * x ^ k := by
  rw [power_eq_sum, upToOrder, wrapSize_of_lt hOrder, List.length_take]
  refine Finset.sum_congr rfl fun k hk => ?_
  have hBelow : k < order + 1 := by
    have hRange := Finset.mem_range.mp hk
    omega
  rw [List.getD_eq_getElem?_getD, List.getD_eq_getElem?_getD, List.getElem?_take, if_pos hBelow]

end Series
end Pushbroom
