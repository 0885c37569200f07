import Mathlib.Analysis.SpecialFunctions.Trigonometric.Chebyshev.Basic
import Mathlib.LinearAlgebra.Lagrange
import Pushbroom.Filter.Design
import Pushbroom.Proofs.Scalar.Real

namespace Pushbroom
namespace Filter

/-!
# Frequency sampling

The taps found from samples of an amplitude response have that response at the sampled
frequencies, because the cosines of different multiples of the reciprocal length are
orthogonal over the taps.  The response of `2m + 1` taps is a polynomial of degree `m` in the
cosine of the angular frequency, so the `m + 1` samples determine it.
-/

open Polynomial (eval)

/-- The amplitude response of taps about the tap at position `half`, `frequency` being in
cycles per sample. -/
noncomputable def amplitude (half : ℕ) (taps : List ℝ) (frequency : ℝ) : ℝ :=
  ∑ i ∈ Finset.range taps.length,
    taps.getD i 0 * Real.cos (Elementary.turn * frequency * ((i : ℝ) - half))

/-! ## Orthogonality of the sampled cosines -/

/-- A sum of cosines about the centre, times twice the sine of half their step, is a
telescoping sum of sines. -/
theorem two_mul_sin_mul_sum_cos (half : ℕ) (step : ℝ) :
    2 * Real.sin (step / 2) *
        ∑ i ∈ Finset.range (2 * half + 1), Real.cos (step * ((i : ℝ) - half)) =
      2 * Real.sin (step * (half + 1 / 2)) := by
  have hTerm (i : ℕ) : 2 * Real.sin (step / 2) * Real.cos (step * ((i : ℝ) - half)) =
      Real.sin (step * (((i + 1 : ℕ) : ℝ) - half - 1 / 2)) -
        Real.sin (step * ((i : ℝ) - half - 1 / 2)) := by
    rw [Real.two_mul_sin_mul_cos, ← neg_sub (step * ((i : ℝ) - half)), Real.sin_neg, add_comm,
      ← sub_eq_add_neg]
    congr 2
    · push_cast
      ring
    · ring
  rw [Finset.mul_sum]
  simp only [hTerm]
  rw [Finset.sum_range_sub fun i : ℕ => Real.sin (step * ((i : ℝ) - half - 1 / 2))]
  have hFirst : step * (((0 : ℕ) : ℝ) - half - 1 / 2) = -(step * (half + 1 / 2)) := by
    push_cast
    ring
  have hLast : step * (((2 * half + 1 : ℕ) : ℝ) - half - 1 / 2) = step * (half + 1 / 2) := by
    push_cast
    ring
  rw [hFirst, hLast, Real.sin_neg]
  ring

/-- The phase of a tap at the lowest of the sampled frequencies that is not zero. -/
noncomputable def tapPhase (half i : ℕ) : ℝ :=
  Elementary.turn * ((i : ℝ) - half) / (2 * half + 1 : ℕ)

/-- Over all the taps the waves cancel, but for the constant one. -/
theorem sum_cos_tapPhase {half : ℕ} {k : ℤ} (hk : k.natAbs ≤ 2 * half) :
    ∑ i ∈ Finset.range (2 * half + 1), Real.cos (k * tapPhase half i) =
      if k = 0 then ((2 * half + 1 : ℕ) : ℝ) else 0 := by
  split
  · rename_i hZero
    simp [hZero]
  · rename_i hWave
    have hLength : (0 : ℝ) < (2 * half + 1 : ℕ) := by positivity
    have hStep (i : ℕ) : (k : ℝ) * tapPhase half i =
        2 * Real.pi * k / (2 * half + 1 : ℕ) * ((i : ℝ) - half) := by
      rw [tapPhase, Elementary.turn_eq]
      ring
    have hWhole : 2 * Real.pi * k / (2 * half + 1 : ℕ) * ((half : ℝ) + 1 / 2) = k * Real.pi := by
      field_simp
      push_cast
      ring
    have hTelescope := two_mul_sin_mul_sum_cos half (2 * Real.pi * k / (2 * half + 1 : ℕ))
    rw [hWhole, Real.sin_int_mul_pi, mul_zero] at hTelescope
    simp only [hStep]
    refine (mul_eq_zero.mp hTelescope).resolve_left ?_
    -- half the step is a fraction of half a turn
    have hAngle : 2 * Real.pi * k / (2 * half + 1 : ℕ) / 2 =
        k / (2 * half + 1 : ℕ) * Real.pi := by
      ring
    have hFraction : |(k : ℝ) / (2 * half + 1 : ℕ)| < 1 := by
      rw [abs_div, abs_of_pos hLength, div_lt_one hLength]
      have hBelow : |k| < (2 * half + 1 : ℕ) := by
        rw [Int.abs_eq_natAbs]
        omega
      exact_mod_cast hBelow
    obtain ⟨hLow, hHigh⟩ := abs_lt.mp hFraction
    have hNonzero : (k : ℝ) / (2 * half + 1 : ℕ) ≠ 0 :=
      div_ne_zero (Int.cast_ne_zero.mpr hWave) hLength.ne'
    rw [hAngle]
    apply mul_ne_zero two_ne_zero
    rw [Ne, Real.sin_eq_zero_iff_of_lt_of_lt (by nlinarith [Real.pi_pos])
      (by nlinarith [Real.pi_pos])]
    exact mul_ne_zero hNonzero Real.pi_ne_zero

/-! ## Taps and samples -/

theorem exists_eq_ofFn {β : Type} {n : ℕ} {entries : List β} (hLength : entries.length = n) :
    ∃ f : Fin n → β, entries = List.ofFn f := by
  subst hLength
  exact ⟨fun i => entries[i], List.ofFn_getElem.symm⟩

/-- A tap, as the sum of the sampled waves at its phase. -/
noncomputable def sampledTap {half : ℕ} (samples : Fin (half + 1) → ℝ) (i : ℕ) : ℝ :=
  (samples 0 + ∑ k : Fin half,
    2.0 * samples k.succ * Real.cos (((k : ℕ) + 1 : ℕ) * tapPhase half i)) / (2 * half + 1 : ℕ)

theorem tapsOfAmplitudes_ofFn {half : ℕ} (samples : Fin (half + 1) → ℝ) :
    tapsOfAmplitudes (2 * half + 1) (List.ofFn samples) =
      (List.range (2 * half + 1)).map (sampledTap samples) := by
  have hCentre : (2 * half + 1 - 1) / 2 = half := by omega
  have hWaves (x : ℝ) :
      ((List.ofFn fun k : Fin half => samples k.succ).zipIdx 1).map
          (fun entry => 2.0 * entry.1 * Elementary.cos (x * (entry.2 : ℝ))) =
        List.ofFn fun k : Fin half =>
          2.0 * samples k.succ * Real.cos (((k : ℕ) + 1 : ℕ) * x) := by
    apply List.ext_getElem
    · simp
    · intro k hLeft hRight
      simp [add_comm, mul_comm x]
  unfold tapsOfAmplitudes
  refine List.map_congr_left fun i _ => ?_
  rw [List.ofFn_succ, hCentre]
  simp only [hWaves, Scalar.sum_eq, List.sum_ofFn]
  rfl

theorem getD_tapsOfAmplitudes {half i : ℕ} (samples : Fin (half + 1) → ℝ)
    (hi : i < 2 * half + 1) :
    (tapsOfAmplitudes (2 * half + 1) (List.ofFn samples)).getD i 0 = sampledTap samples i := by
  rw [tapsOfAmplitudes_ofFn, List.getD_eq_getElem?_getD, List.getElem?_map,
    List.getElem?_range hi]
  rfl

/-- A tap times a wave, with the products of two waves as waves of their sum and difference. -/
theorem sampledTap_mul_cos {half : ℕ} (samples : Fin (half + 1) → ℝ) (k i : ℕ) :
    sampledTap samples i * Real.cos ((k : ℤ) * tapPhase half i) =
      (samples 0 * Real.cos ((k : ℤ) * tapPhase half i) +
        ∑ j : Fin half, samples j.succ *
          (Real.cos ((((j : ℕ) : ℤ) + 1 - k : ℤ) * tapPhase half i) +
            Real.cos ((((j : ℕ) : ℤ) + 1 + k : ℤ) * tapPhase half i))) /
        (2 * half + 1 : ℕ) := by
  have hTwo : (2.0 : ℝ) = 2 := by norm_num
  rw [sampledTap, div_mul_eq_mul_div, add_mul, Finset.sum_mul, hTwo]
  congr 2
  refine Finset.sum_congr rfl fun j _ => ?_
  have hProduct := Real.two_mul_cos_mul_cos (((j : ℕ) + 1 : ℕ) * tapPhase half i)
    ((k : ℝ) * tapPhase half i)
  push_cast at hProduct ⊢
  rw [sub_mul, add_mul (((j : ℕ) : ℝ) + 1), ← hProduct]
  ring

/-- The response of taps at a sampled frequency. -/
theorem amplitude_sample {half : ℕ} {taps : List ℝ} (hLength : taps.length = 2 * half + 1)
    (k : ℕ) :
    amplitude half taps (k / (2 * half + 1 : ℕ)) =
      ∑ i ∈ Finset.range (2 * half + 1), taps.getD i 0 * Real.cos (k * tapPhase half i) := by
  rw [amplitude, hLength]
  refine Finset.sum_congr rfl fun i _ => ?_
  rw [tapPhase]
  ring_nf

/-- The taps have the response they were sampled from. -/
theorem amplitude_tapsOfAmplitudes {half : ℕ} (samples : Fin (half + 1) → ℝ)
    (k : Fin (half + 1)) :
    amplitude half (tapsOfAmplitudes (2 * half + 1) (List.ofFn samples))
      ((k : ℕ) / (2 * half + 1 : ℕ)) = samples k := by
  have hLength : (tapsOfAmplitudes (2 * half + 1) (List.ofFn samples)).length = 2 * half + 1 := by
    rw [tapsOfAmplitudes_ofFn, List.length_map, List.length_range]
  have hWaves : amplitude half (tapsOfAmplitudes (2 * half + 1) (List.ofFn samples))
      ((k : ℕ) / (2 * half + 1 : ℕ)) =
        ∑ i ∈ Finset.range (2 * half + 1),
          sampledTap samples i * Real.cos (((k : ℕ) : ℤ) * tapPhase half i) := by
    rw [amplitude_sample hLength]
    refine Finset.sum_congr rfl fun i hi => ?_
    rw [getD_tapsOfAmplitudes samples (Finset.mem_range.mp hi), Int.cast_natCast]
  have hDifference (j : Fin half) : (((j : ℕ) : ℤ) + 1 - (k : ℕ)).natAbs ≤ 2 * half := by omega
  have hSum (j : Fin half) : (((j : ℕ) : ℤ) + 1 + (k : ℕ)).natAbs ≤ 2 * half := by omega
  rw [hWaves]
  simp only [sampledTap_mul_cos]
  rw [← Finset.sum_div, Finset.sum_add_distrib, ← Finset.mul_sum, Finset.sum_comm,
    sum_cos_tapPhase (by omega)]
  simp only [← Finset.mul_sum, Finset.sum_add_distrib, sum_cos_tapPhase (hDifference _),
    sum_cos_tapPhase (hSum _)]
  -- the only wave that is left is the one of frequency `k`, which may be the constant one
  have hConstant : (((k : ℕ) : ℤ) = 0) = (0 = k) := by
    rw [Fin.ext_iff, Fin.val_zero, eq_iff_iff]
    omega
  have hSame (j : Fin half) : (((j : ℕ) : ℤ) + 1 - (k : ℕ) = 0) = (j.succ = k) := by
    rw [Fin.ext_iff, Fin.val_succ, eq_iff_iff]
    omega
  have hNever (j : Fin half) : ¬ ((j : ℕ) : ℤ) + 1 + (k : ℕ) = 0 := by
    omega
  simp only [hConstant, hSame, hNever, if_false, add_zero]
  rw [← Fin.sum_univ_succ fun j => samples j * if j = k then ((2 * half + 1 : ℕ) : ℝ) else 0]
  simp only [mul_ite, mul_zero, Finset.sum_ite_eq', Finset.mem_univ, if_true]
  exact mul_div_cancel_right₀ _ (by positivity)

/-! ## The response as a polynomial -/

/-- The response of taps, as a polynomial in the cosine of the angular frequency. -/
noncomputable def amplitudePolynomial (half : ℕ) (taps : List ℝ) : Polynomial ℝ :=
  ∑ i ∈ Finset.range taps.length,
    Polynomial.C (taps.getD i 0) * Polynomial.Chebyshev.T ℝ ((i : ℤ) - half)

theorem eval_amplitudePolynomial (half : ℕ) (taps : List ℝ) (frequency : ℝ) :
    eval (cosineAt frequency) (amplitudePolynomial half taps) = amplitude half taps frequency := by
  rw [amplitudePolynomial, Polynomial.eval_finsetSum, amplitude]
  refine Finset.sum_congr rfl fun i _ => ?_
  rw [Polynomial.eval_mul, Polynomial.eval_C, cosineAt, Elementary.cos_eq,
    Polynomial.Chebyshev.T_real_cos]
  push_cast
  ring_nf

theorem degree_amplitudePolynomial_lt {half : ℕ} {taps : List ℝ}
    (hLength : taps.length = 2 * half + 1) :
    (amplitudePolynomial half taps).degree < (half + 1 : ℕ) := by
  have hDegree : (amplitudePolynomial half taps).natDegree ≤ half := by
    refine Polynomial.natDegree_sum_le_of_forall_le _ _ fun i hi => ?_
    have hRange := Finset.mem_range.mp hi
    refine (Polynomial.natDegree_C_mul_le _ _).trans ?_
    rw [Polynomial.Chebyshev.natDegree_T]
    omega
  exact Polynomial.degree_le_natDegree.trans_lt (by exact_mod_cast Nat.lt_succ_of_le hDegree)

/-- The cosine of the angular frequency of a sample. -/
noncomputable def sampleCosine (half : ℕ) (k : Fin (half + 1)) : ℝ :=
  cosineAt ((k : ℕ) / (2 * half + 1 : ℕ))

theorem sampleCosine_injective (half : ℕ) : Function.Injective (sampleCosine half) := by
  have hLength : (0 : ℝ) < (2 * half + 1 : ℕ) := by positivity
  -- the sampled frequencies do not pass half a cycle per sample
  have hRange (k : Fin (half + 1)) :
      Elementary.turn * ((k : ℕ) / (2 * half + 1 : ℕ) : ℝ) ∈ Set.Icc 0 Real.pi := by
    have hk : (2 * (k : ℕ) : ℝ) ≤ (2 * half + 1 : ℕ) := by
      exact_mod_cast (by omega : 2 * (k : ℕ) ≤ 2 * half + 1)
    rw [Elementary.turn_eq]
    refine ⟨by positivity, ?_⟩
    calc 2 * Real.pi * ((k : ℕ) / (2 * half + 1 : ℕ))
        = Real.pi * (2 * (k : ℕ) / (2 * half + 1 : ℕ)) := by ring
      _ ≤ Real.pi * 1 := by
        gcongr
        exact (div_le_one hLength).mpr hk
      _ = Real.pi := mul_one _
  intro k l hSame
  have hAngle := Real.injOn_cos (hRange k) (hRange l) hSame
  rw [Elementary.turn_eq] at hAngle
  have hFrequency := mul_left_cancel₀ Real.two_pi_pos.ne' hAngle
  have hIndex := (div_left_inj' hLength.ne').mp hFrequency
  exact Fin.ext (by exact_mod_cast hIndex)

/-- The samples determine a polynomial of the degree of the response. -/
theorem eq_of_eval_sampleCosine {half : ℕ} {p q : Polynomial ℝ}
    (hp : p.degree < (half + 1 : ℕ)) (hq : q.degree < (half + 1 : ℕ))
    (hSamples : ∀ k, eval (sampleCosine half k) p = eval (sampleCosine half k) q) : p = q := by
  apply Polynomial.eq_of_degrees_lt_of_eval_index_eq Finset.univ
    (sampleCosine_injective half).injOn
  · simpa using hp
  · simpa using hq
  · intro k _
    exact hSamples k

end Filter
end Pushbroom
