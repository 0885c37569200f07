import Pushbroom.Proofs.Filter.FrequencySampling
import Pushbroom.Proofs.Filter.Kernel

namespace Pushbroom
namespace Filter

/-!
# Taps and samples determine each other

An odd number of symmetric taps has one free tap at the centre and one for each distance from it,
and its response is sampled as many times.  Sampling the response and finding taps from samples
undo each other, because the sampled waves are orthogonal in both directions: over the taps for two
frequencies, and over the frequencies for two taps.
-/

/-- Symmetric taps whose response takes the given amplitudes at multiples of the reciprocal
length. -/
structure Realises (half : ℕ) (amplitudes taps : List ℝ) : Prop where
  length : taps.length = 2 * half + 1
  symmetric : taps.reverse = taps
  response : ∀ (k : ℕ) (hk : k < amplitudes.length),
    amplitude half taps (k / (2 * half + 1 : ℕ)) = amplitudes[k]

/-! ## Orthogonality of two taps -/

/-- An even function over the numbers from `-half` to `half`. -/
theorem sum_centred (half : ℕ) {f : ℝ → ℝ} (hEven : ∀ x, f (-x) = f x) :
    ∑ j ∈ Finset.range (2 * half + 1), f ((j : ℝ) - half) =
      f 0 + ∑ k : Fin half, 2 * f (((k : ℕ) + 1 : ℕ) : ℝ) := by
  induction half with
  | zero => simp
  | succ half ih =>
      have hFirst : ((0 : ℕ) : ℝ) - (half + 1 : ℕ) = -((half + 1 : ℕ) : ℝ) := by
        push_cast
        ring
      have hLast : ((2 * half + 1 + 1 : ℕ) : ℝ) - (half + 1 : ℕ) = ((half + 1 : ℕ) : ℝ) := by
        push_cast
        ring
      have hInner (j : ℕ) : ((j + 1 : ℕ) : ℝ) - (half + 1 : ℕ) = (j : ℝ) - half := by
        push_cast
        ring
      rw [Fin.sum_univ_castSucc, show 2 * (half + 1) + 1 = 2 * half + 1 + 1 + 1 by ring,
        Finset.sum_range_succ, Finset.sum_range_succ', hFirst, hLast, hEven]
      simp only [hInner, ih, Fin.val_castSucc, Fin.val_last]
      ring

/-- The product of the waves of two taps, over the sampled frequencies on both sides of zero. -/
noncomputable def overlap (half n i : ℕ) : ℝ :=
  ∑ j ∈ Finset.range (2 * half + 1),
    Real.cos (((j : ℝ) - half) * tapPhase half n) * Real.cos (((j : ℝ) - half) * tapPhase half i)

theorem overlap_eq (half n i : ℕ) :
    overlap half n i = 1 + ∑ k : Fin half, 2 * (Real.cos (((k : ℕ) + 1 : ℕ) * tapPhase half n) *
      Real.cos (((k : ℕ) + 1 : ℕ) * tapPhase half i)) := by
  have hEven (x : ℝ) : Real.cos (-x * tapPhase half n) * Real.cos (-x * tapPhase half i) =
      Real.cos (x * tapPhase half n) * Real.cos (x * tapPhase half i) := by
    rw [neg_mul, neg_mul, Real.cos_neg, Real.cos_neg]
  have hCentred := sum_centred half
    (f := fun x => Real.cos (x * tapPhase half n) * Real.cos (x * tapPhase half i)) hEven
  rwa [zero_mul, zero_mul, Real.cos_zero, one_mul] at hCentred

/-- The waves of two taps cancel, unless one of the taps is the other or its opposite. -/
theorem two_mul_overlap {half n i : ℕ} (hn : n ≤ 2 * half) (hi : i ≤ 2 * half) :
    2 * overlap half n i =
      (if n = i then ((2 * half + 1 : ℕ) : ℝ) else 0) +
        if n = 2 * half - i then ((2 * half + 1 : ℕ) : ℝ) else 0 := by
  -- the phases of two taps differ by that of their distance, and likewise for the sum
  have hDifference (j : ℕ) : ((j : ℝ) - half) * tapPhase half n - ((j : ℝ) - half) * tapPhase half i =
      ((n - i : ℤ) : ℝ) * tapPhase half j := by
    simp only [tapPhase]
    push_cast
    ring
  have hSum (j : ℕ) : ((j : ℝ) - half) * tapPhase half n + ((j : ℝ) - half) * tapPhase half i =
      ((n + i - 2 * half : ℤ) : ℝ) * tapPhase half j := by
    simp only [tapPhase]
    push_cast
    ring
  have hSame : ((n : ℤ) - i = 0) = (n = i) := by
    rw [eq_iff_iff]
    omega
  have hOpposite : ((n : ℤ) + i - 2 * half = 0) = (n = 2 * half - i) := by
    rw [eq_iff_iff]
    omega
  rw [overlap, Finset.mul_sum]
  simp only [← mul_assoc (2 : ℝ), Real.two_mul_cos_mul_cos, hDifference, hSum]
  rw [Finset.sum_add_distrib, sum_cos_tapPhase (by omega), sum_cos_tapPhase (by omega)]
  simp only [hSame, hOpposite]

/-! ## From taps to samples and back -/

section Symmetric

variable {half : ℕ} {taps : List ℝ} (hLength : taps.length = 2 * half + 1)

include hLength

theorem sampledTap_amplitude_eq_sum (i : ℕ) :
    sampledTap (fun k : Fin (half + 1) => amplitude half taps ((k : ℕ) / (2 * half + 1 : ℕ))) i =
      (∑ n ∈ Finset.range (2 * half + 1), taps.getD n 0 * overlap half n i) /
        (2 * half + 1 : ℕ) := by
  have hTwo : (2.0 : ℝ) = 2 := by norm_num
  have hConstant : amplitude half taps (((0 : Fin (half + 1)) : ℕ) / (2 * half + 1 : ℕ)) =
      ∑ n ∈ Finset.range (2 * half + 1), taps.getD n 0 := by
    rw [amplitude_sample hLength]
    refine Finset.sum_congr rfl fun n _ => ?_
    rw [Fin.val_zero, Nat.cast_zero, zero_mul, Real.cos_zero, mul_one]
  unfold sampledTap
  simp only [overlap_eq, hTwo, hConstant, amplitude_sample hLength, mul_add, mul_one, Finset.mul_sum,
    Finset.sum_mul, Finset.sum_add_distrib, Fin.val_succ]
  rw [Finset.sum_comm]
  congr 2
  refine Finset.sum_congr rfl fun n _ => Finset.sum_congr rfl fun k _ => ?_
  ring

theorem getD_opposite (hSymmetric : taps.reverse = taps) {i : ℕ} (hi : i ≤ 2 * half) :
    taps.getD (2 * half - i) 0 = taps.getD i 0 := by
  have hReverse := List.getElem?_reverse (l := taps) (i := i) (by omega)
  rw [hSymmetric, hLength] at hReverse
  rw [List.getD_eq_getElem?_getD, List.getD_eq_getElem?_getD, hReverse]
  rfl

/-- The taps found from the samples of symmetric taps are these taps. -/
theorem sampledTap_amplitude (hSymmetric : taps.reverse = taps) {i : ℕ} (hi : i ≤ 2 * half) :
    sampledTap (fun k : Fin (half + 1) => amplitude half taps ((k : ℕ) / (2 * half + 1 : ℕ))) i =
      taps.getD i 0 := by
  have hDoubled : 2 * ∑ n ∈ Finset.range (2 * half + 1), taps.getD n 0 * overlap half n i =
      2 * (taps.getD i 0 * (2 * half + 1 : ℕ)) := by
    calc 2 * ∑ n ∈ Finset.range (2 * half + 1), taps.getD n 0 * overlap half n i
        = ∑ n ∈ Finset.range (2 * half + 1),
            ((if n = i then taps.getD n 0 * (2 * half + 1 : ℕ) else 0) +
              if n = 2 * half - i then taps.getD n 0 * (2 * half + 1 : ℕ) else 0) := by
          rw [Finset.mul_sum]
          refine Finset.sum_congr rfl fun n hn => ?_
          have hInside := Finset.mem_range.mp hn
          rw [mul_left_comm, two_mul_overlap (by omega) hi, mul_add, mul_ite, mul_ite, mul_zero]
      _ = taps.getD i 0 * (2 * half + 1 : ℕ) +
            taps.getD (2 * half - i) 0 * (2 * half + 1 : ℕ) := by
          rw [Finset.sum_add_distrib, Finset.sum_ite_eq', Finset.sum_ite_eq',
            if_pos (Finset.mem_range.mpr (by omega)), if_pos (Finset.mem_range.mpr (by omega))]
      _ = 2 * (taps.getD i 0 * (2 * half + 1 : ℕ)) := by
          rw [getD_opposite hLength hSymmetric hi, ← two_mul]
  rw [sampledTap_amplitude_eq_sum hLength, mul_left_cancel₀ two_ne_zero hDoubled]
  exact mul_div_cancel_right₀ _ (by positivity)

end Symmetric

/-- The taps found from amplitudes are symmetric and take them, and no other taps of their number
do. -/
theorem tapsOfAmplitudes_inverts {half : ℕ} {amplitudes : List ℝ}
    (hLength : amplitudes.length = half + 1) :
    Realises half amplitudes (tapsOfAmplitudes (2 * half + 1) amplitudes) ∧
      ∀ taps, Realises half amplitudes taps →
        taps = tapsOfAmplitudes (2 * half + 1) amplitudes := by
  obtain ⟨samples, rfl⟩ := exists_eq_ofFn hLength
  refine ⟨⟨length_tapsOfAmplitudes _ _, reverse_tapsOfAmplitudes Real.cos_neg (by omega) _, ?_⟩,
    fun taps hRealises => ?_⟩
  · intro k hk
    rw [List.getElem_ofFn]
    exact amplitude_tapsOfAmplitudes samples ⟨k, by simpa using hk⟩
  · have hSamples : samples =
        fun k : Fin (half + 1) => amplitude half taps ((k : ℕ) / (2 * half + 1 : ℕ)) := by
      funext k
      rw [hRealises.response k (by rw [List.length_ofFn]; exact k.isLt), List.getElem_ofFn]
    rw [tapsOfAmplitudes_ofFn]
    apply List.ext_getElem
    · simp [hRealises.length]
    · intro i hTaps hFound
      have hInside : i ≤ 2 * half := by
        have hLess := hRealises.length ▸ hTaps
        omega
      rw [List.getElem_map, List.getElem_range, hSamples,
        sampledTap_amplitude hRealises.length hRealises.symmetric hInside,
        List.getD_eq_getElem?_getD, List.getElem?_eq_getElem hTaps, Option.getD_some]

/-- A flat response is that of a unit impulse. -/
theorem tapsOfAmplitudes_inverts_flat :
    ([1, 1, 1] : List ℝ).length = 2 + 1 ∧ Realises 2 [1, 1, 1] (tapsOfAmplitudes 5 [1, 1, 1]) ∧
      tapsOfAmplitudes 5 [1, 1, 1] = [0, 0, (1 : ℝ), 0, 0] := by
  have hImpulse : Realises 2 [1, 1, 1] [0, 0, 1, 0, 0] := by
    refine ⟨rfl, rfl, fun k hk => ?_⟩
    have hFlat (frequency : ℝ) : amplitude 2 [0, 0, 1, 0, 0] frequency = 1 := by
      simp [amplitude, Finset.sum_range_succ]
    have hOne : ([1, 1, 1] : List ℝ)[k] = 1 :=
      List.eq_of_mem_replicate (n := 3) (List.getElem_mem hk)
    rw [hFlat, hOne]
  obtain ⟨hRealises, hUnique⟩ :=
    tapsOfAmplitudes_inverts (show ([1, 1, 1] : List ℝ).length = 2 + 1 from rfl)
  exact ⟨rfl, hRealises, (hUnique _ hImpulse).symm⟩

end Filter
end Pushbroom
