import Mathlib.Data.Nat.Choose.Central
import Pushbroom.Polynomial.Series
import Pushbroom.Proofs.Scalar.Exact

namespace Pushbroom
namespace Series

/-!
# Legendre series as sums

A Legendre series is the sum of its coefficients times the Legendre polynomials, which are given
here by the powers that they consist of.  That these polynomials meet the recurrence they are
computed by is seen power by power: the numbers that come with a power are central binomial
coefficients times binomial coefficients, and these change by simple factors from one power and one
degree to the next.
-/

/-- What the power `m` of the Legendre polynomial of degree `m + 2 * j` has for a number, but for
its sign and the powers of two that it is divided by. -/
def legendreWeight (m j : ℕ) : ℕ :=
  (m + j).centralBinom * (m + j).choose j

theorem choose_mul_choose_eq_weight (m j : ℕ) :
    (m + 2 * j).choose j * (2 * (m + j)).choose (m + 2 * j) = legendreWeight m j := by
  have hSymm : (m + 2 * j).choose j = (m + 2 * j).choose (m + j) :=
    Nat.choose_symm_of_eq_add (by omega)
  rw [hSymm, mul_comm, Nat.choose_mul (by omega), legendreWeight, Nat.centralBinom]
  congr 2 <;> omega

theorem legendreWeight_comm (m j : ℕ) : legendreWeight m j = legendreWeight j m := by
  rw [legendreWeight, legendreWeight, Nat.add_comm j, Nat.choose_symm_add]

theorem succ_mul_weight_left (m j : ℕ) :
    (m + 1) * legendreWeight (m + 1) j = 2 * (2 * (m + j) + 1) * legendreWeight m j := by
  have hChoose := Nat.choose_mul_succ_eq (m + j) j
  have hCentral := Nat.succ_mul_centralBinom_succ (m + j)
  rw [show m + j + 1 - j = m + 1 by omega] at hChoose
  rw [legendreWeight, legendreWeight, show m + 1 + j = m + j + 1 by omega]
  calc (m + 1) * ((m + j + 1).centralBinom * (m + j + 1).choose j)
      = (m + j + 1).centralBinom * ((m + j + 1).choose j * (m + 1)) := by ring
    _ = (m + j + 1) * (m + j + 1).centralBinom * (m + j).choose j := by rw [← hChoose]; ring
    _ = 2 * (2 * (m + j) + 1) * ((m + j).centralBinom * (m + j).choose j) := by
        rw [hCentral]; ring

theorem succ_mul_weight_right (m j : ℕ) :
    (j + 1) * legendreWeight m (j + 1) = 2 * (2 * (m + j) + 1) * legendreWeight m j := by
  rw [legendreWeight_comm m, legendreWeight_comm m, Nat.add_comm m]
  exact succ_mul_weight_left j m

/-- The recurrence of the Legendre polynomials, at a power that occurs in all three. -/
theorem weight_recurrence (m j : ℕ) :
    (m + 2 * j + 3) * legendreWeight (m + 1) (j + 1) =
      2 * (2 * m + 4 * j + 5) * legendreWeight m (j + 1) +
        4 * (m + 2 * j + 2) * legendreWeight (m + 1) j := by
  have hLeft := succ_mul_weight_left m (j + 1)
  have hRight := succ_mul_weight_right (m + 1) j
  refine Nat.eq_of_mul_eq_mul_left (show 0 < 2 * m + 2 * j + 3 by omega) ?_
  zify at hLeft hRight ⊢
  linear_combination (2 * m + 4 * j + 5 : ℤ) * hLeft + 2 * (m + 2 * j + 2 : ℤ) * hRight

variable {K : Type} [Field K]

/-- The Legendre polynomial of degree `k`. -/
def legendrePolynomial (k : ℕ) (x : K) : K :=
  (∑ j ∈ Finset.range (k / 2 + 1),
    (-1) ^ j * (k.choose j : K) * ((2 * k - 2 * j).choose k : K) * x ^ (k - 2 * j)) /
      ((2 ^ k : ℕ) : K)

/-- The term of the Legendre polynomial of degree `k` whose power is `2 * j` below the degree. -/
def legendreTerm (x : K) (k j : ℕ) : K :=
  if 2 * j ≤ k then
    (-1) ^ j * (legendreWeight (k - 2 * j) j : K) * x ^ (k - 2 * j) / ((2 ^ k : ℕ) : K)
  else 0

theorem legendreTerm_add (x : K) (m j : ℕ) :
    legendreTerm x (m + 2 * j) j =
      (-1) ^ j * (legendreWeight m j : K) * x ^ m / 2 ^ (m + 2 * j) := by
  rw [legendreTerm, if_pos (Nat.le_add_left _ _), Nat.add_sub_cancel, Nat.cast_pow,
    Nat.cast_ofNat]

theorem legendreTerm_of_lt (x : K) {k j : ℕ} (hBeyond : k < 2 * j) : legendreTerm x k j = 0 :=
  if_neg (Nat.not_le.mpr hBeyond)

theorem legendrePolynomial_eq_sum (x : K) {k n : ℕ} (hTerms : k / 2 < n) :
    legendrePolynomial k x = ∑ j ∈ Finset.range n, legendreTerm x k j := by
  have hRest : ∀ j ∈ Finset.range n, j ∉ Finset.range (k / 2 + 1) → legendreTerm x k j = 0 := by
    intro j _ hBeyond
    rw [Finset.mem_range] at hBeyond
    exact legendreTerm_of_lt x (by omega)
  have hSubset : Finset.range (k / 2 + 1) ⊆ Finset.range n :=
    Finset.range_subset_range.mpr hTerms
  rw [← Finset.sum_subset hSubset hRest, legendrePolynomial, Finset.sum_div]
  refine Finset.sum_congr rfl fun j hRange => ?_
  have hPower : 2 * j ≤ k := by
    rw [Finset.mem_range] at hRange
    omega
  obtain ⟨m, rfl⟩ := Nat.exists_eq_add_of_le' hPower
  have hWeight : ((m + 2 * j).choose j : K) *
      ((2 * (m + 2 * j) - 2 * j).choose (m + 2 * j) : K) = legendreWeight m j := by
    rw [← Nat.cast_mul, ← choose_mul_choose_eq_weight]
    congr 3
    omega
  rw [legendreTerm_add, Nat.add_sub_cancel, mul_assoc ((-1) ^ j), hWeight, Nat.cast_pow,
    Nat.cast_ofNat]

section Recurrence

variable [CharZero K]

theorem legendreTerm_recurrence_zero (x : K) (k : ℕ) :
    (k + 2 : K) * legendreTerm x (k + 2) 0 = (2 * k + 3) * x * legendreTerm x (k + 1) 0 := by
  have hWeight := succ_mul_weight_left (k + 1) 0
  have hTop := legendreTerm_add x (k + 2) 0
  have hNext := legendreTerm_add x (k + 1) 0
  rw [mul_zero, add_zero] at hTop hNext
  rw [hTop, hNext]
  have hCast : ((k : K) + 2) * legendreWeight (k + 2) 0 =
      2 * (2 * k + 3) * legendreWeight (k + 1) 0 := by
    have hCasted := congrArg (Nat.cast (R := K)) hWeight
    push_cast at hCasted
    linear_combination hCasted
  linear_combination x ^ (k + 2) / 2 ^ (k + 2) * hCast

theorem legendreTerm_recurrence_succ (x : K) (k j : ℕ) :
    (k + 2 : K) * legendreTerm x (k + 2) (j + 1) =
      (2 * k + 3) * x * legendreTerm x (k + 1) (j + 1) - (k + 1) * legendreTerm x k j := by
  rcases Nat.lt_or_ge k (2 * j) with hBeyond | hPower
  · rw [legendreTerm_of_lt x (by omega), legendreTerm_of_lt x (by omega),
      legendreTerm_of_lt x hBeyond]
    ring
  · obtain ⟨m, rfl⟩ := Nat.exists_eq_add_of_le' hPower
    cases m with
    | zero =>
        have hWeight := congrArg (Nat.cast (R := K)) (succ_mul_weight_right 0 j)
        have hTop := legendreTerm_add x 0 (j + 1)
        have hLow := legendreTerm_add x 0 j
        rw [show 0 + 2 * (j + 1) = 0 + 2 * j + 2 by ring] at hTop
        rw [hTop, hLow, legendreTerm_of_lt x (show 0 + 2 * j + 1 < 2 * (j + 1) by omega)]
        push_cast at hWeight ⊢
        linear_combination (-1) ^ (j + 1) * 2 / 2 ^ (0 + 2 * j + 2) * hWeight
    | succ m =>
        have hWeight := congrArg (Nat.cast (R := K)) (weight_recurrence m j)
        have hTop := legendreTerm_add x (m + 1) (j + 1)
        have hNext := legendreTerm_add x m (j + 1)
        have hLow := legendreTerm_add x (m + 1) j
        rw [show m + 1 + 2 * (j + 1) = m + 1 + 2 * j + 2 by ring] at hTop
        rw [show m + 2 * (j + 1) = m + 1 + 2 * j + 1 by ring] at hNext
        rw [hTop, hNext, hLow]
        push_cast at hWeight ⊢
        linear_combination (-1) ^ (j + 1) * x ^ (m + 1) / 2 ^ (m + 1 + 2 * j + 2) * hWeight

/-- The recurrence of the Legendre polynomials. -/
theorem legendrePolynomial_recurrence (x : K) (k : ℕ) :
    (k + 2 : K) * legendrePolynomial (k + 2) x =
      (2 * k + 3) * x * legendrePolynomial (k + 1) x - (k + 1) * legendrePolynomial k x := by
  -- the polynomial two degrees below has each power one place later
  rw [legendrePolynomial_eq_sum x (n := k + 1 + 1) (by omega),
    legendrePolynomial_eq_sum x (n := k + 1 + 1) (by omega),
    legendrePolynomial_eq_sum x (n := k + 1) (by omega), Finset.sum_range_succ',
    Finset.sum_range_succ' _ (k + 1), mul_add, mul_add, legendreTerm_recurrence_zero,
    Finset.mul_sum, Finset.mul_sum, Finset.mul_sum]
  simp only [legendreTerm_recurrence_succ, Finset.sum_sub_distrib]
  ring

end Recurrence

theorem legendrePolynomial_zero (x : K) : legendrePolynomial 0 x = 1 := by
  simp [legendrePolynomial]

theorem legendrePolynomial_one [CharZero K] (x : K) : legendrePolynomial 1 x = x := by
  simp [legendrePolynomial]

variable [LinearOrder K] [FloorRing K] [IsStrictOrderedRing K]

theorem bonnet_legendrePolynomial (k : ℕ) (x : K) :
    bonnet (k + 2) x (legendrePolynomial k x) (legendrePolynomial (k + 1) x) =
      legendrePolynomial (k + 2) x := by
  have hTwo : (2.0 : K) = 2 := by norm_num
  have hDegree : ((k : K) + 2) ≠ 0 := by positivity
  rw [bonnet, hTwo]
  push_cast
  rw [div_eq_iff hDegree]
  linear_combination -legendrePolynomial_recurrence x k

/-- The loop adds the terms that are left, as long as it carries the polynomials of the two degrees
below. -/
theorem legendreFrom_eq_sum (x : K) (k : ℕ) (total : K) (coefficients : List K) :
    legendreFrom x (k + 2) (legendrePolynomial k x) (legendrePolynomial (k + 1) x) total
        coefficients =
      total + ∑ i ∈ Finset.range coefficients.length,
        coefficients.getD i 0 * legendrePolynomial (k + 2 + i) x := by
  induction coefficients generalizing k total with
  | nil => simp [legendreFrom]
  | cons c rest ih =>
      have hDegree (i : ℕ) : k + 2 + (i + 1) = k + 1 + 2 + i := by omega
      rw [legendreFrom, bonnet_legendrePolynomial, ih (k + 1), List.length_cons,
        Finset.sum_range_succ']
      simp only [List.getD_cons_succ, List.getD_cons_zero, add_zero, hDegree]
      ring

/-- A Legendre series is the sum of its coefficients times the Legendre polynomials. -/
theorem legendre_eq_sum (coefficients : List K) (x : K) :
    legendre coefficients x =
      ∑ k ∈ Finset.range coefficients.length, coefficients.getD k 0 * legendrePolynomial k x := by
  match coefficients with
  | [] => rfl
  | [c] => simp [legendre, legendrePolynomial_zero]
  | c₀ :: c₁ :: rest =>
      have hRest := legendreFrom_eq_sum x 0 (0 + c₀ + c₁ * x) rest
      have hDegree (i : ℕ) : 0 + 2 + i = i + 1 + 1 := by omega
      rw [legendrePolynomial_zero, legendrePolynomial_one] at hRest
      rw [legendre, hRest, List.length_cons, List.length_cons, Finset.sum_range_succ',
        Finset.sum_range_succ']
      simp only [List.getD_cons_succ, List.getD_cons_zero, hDegree, legendrePolynomial_zero,
        zero_add, legendrePolynomial_one]
      ring

/-- A Legendre series written out in powers: the polynomial of degree `k` has the powers `k`, `k - 2`
and so on, each with a product of two binomial coefficients, of alternating sign, over `2 ^ k`. -/
theorem legendre_eq_sum_powers (coefficients : List K) (x : K) :
    legendre coefficients x =
      ∑ k ∈ Finset.range coefficients.length, coefficients.getD k 0 *
        ((2 ^ k)⁻¹ * ∑ j ∈ Finset.range (k / 2 + 1),
          (-1) ^ j * (k.choose j : K) * ((2 * k - 2 * j).choose k : K) * x ^ (k - 2 * j)) := by
  rw [legendre_eq_sum]
  refine Finset.sum_congr rfl fun k _ => ?_
  rw [legendrePolynomial, div_eq_inv_mul, Nat.cast_pow, Nat.cast_ofNat]

/-- A series with a term of degree four, which takes three steps of the recurrence. -/
theorem legendre_eq_sum_powers_fiveTerms :
    legendre [1, 2, 3, 4, 5] (3 / 10 : ℚ) = 1 + 2 * (3 / 10) +
      3 * ((3 * (3 / 10) ^ 2 - 1) / 2) + 4 * ((5 * (3 / 10) ^ 3 - 3 * (3 / 10)) / 2) +
      5 * ((35 * (3 / 10) ^ 4 - 30 * (3 / 10) ^ 2 + 3) / 8) := by
  rw [legendre_eq_sum_powers]
  norm_num [Finset.sum_range_succ, Nat.choose]

end Series
end Pushbroom
