import Pushbroom.Proofs.Filter.FrequencySampling
import Pushbroom.Proofs.Filter.Kernel
import Pushbroom.Proofs.Filter.WholeGrid

namespace Pushbroom
namespace Filter

/-!
# Designs realise the level of their last exchange

The points that the exchanges end with are one more than the degree of freedom of the taps, so
there is a response whose weighted error has one magnitude and alternating signs at them.
When no guard is used on the way, the taps of the design have that response: the polynomial
through the points has the degree of a response of this many taps, and the samples of it that
the taps are made of determine it.
-/

/-- A sampled cosine that counts as that of a point is the cosine of that point. -/
def Resolved {n : ℕ} (half : ℕ) (points : Fin n → GridPoint ℝ) : Prop :=
  ∀ (k : Fin (half + 1)) (i : Fin n), sampleCosine half k = cosines points i ∨
    1e-7 ≤ |sampleCosine half k - cosines points i|

/-- The weighted error of the response of taps has one magnitude and alternating signs at some
points. -/
def Alternates {n : ℕ} (half : ℕ) (taps : List ℝ) (points : Fin n → GridPoint ℝ) : Prop :=
  ∃ level, ∀ i : Fin n, (points i).weight *
      ((points i).gain - amplitude half taps (points i).frequency) = alternation i.val * level

/-- The taps of the samples of a levelled response have that response. -/
theorem amplitude_eq_interpolant {half : ℕ} {points : Fin (half + 2) → GridPoint ℝ}
    (hUnguarded : Unguarded points) (hResolved : Resolved half points) (frequency : ℝ) :
    amplitude half
        (tapsOfAmplitudes (2 * half + 1) (List.ofFn fun k : Fin (half + 1) =>
          evaluate (nodes (List.ofFn points)) (sampleCosine half k)))
        frequency =
      (interpolant points).eval (cosineAt frequency) := by
  have hDegree : (interpolant points).degree < (half + 1 : ℕ) :=
    degree_interpolant_lt hUnguarded (Nat.succ_pos _)
  rw [← eval_amplitudePolynomial]
  congr 1
  refine eq_of_eval_sampleCosine (degree_amplitudePolynomial_lt (length_tapsOfAmplitudes _ _))
    hDegree fun k => ?_
  rw [← evaluate_nodes hUnguarded (Nat.succ_pos _) (hResolved k), sampleCosine,
    eval_amplitudePolynomial, amplitude_tapsOfAmplitudes]
  rfl

/-- The exchanges of a design end with one point more than its response has coefficients, and
the taps are those of the samples of the response that is levelled there. -/
theorem extremals_of_design {length density iterations : ℕ} {bands : List (FrequencyBand ℝ)}
    {taps : List ℝ} (hDesign : design length bands density iterations = .ok taps) :
    ∃ half, length = 2 * half + 1 ∧
      ∃ (hSize : 0 < (grid density (half + 1) bands).size)
        (extremals : Fin (half + 2) → Fin (grid density (half + 1) bands).size),
        exchange (grid density (half + 1) bands) (half + 2) iterations
            (spread (half + 1) (grid density (half + 1) bands).size hSize) =
          .ok (List.ofFn extremals) ∧
        taps = tapsOfAmplitudes (2 * half + 1) (List.ofFn fun k : Fin (half + 1) =>
          evaluate (nodes (List.ofFn (pointsAt _ extremals))) (sampleCosine half k)) := by
  obtain ⟨half, rfl, hSize, positions, hExchange, rfl⟩ := exchange_of_design hDesign
  have hCount := (Reaches.start.of_exchange hExchange).length_eq (length_spread _ _ hSize)
  obtain ⟨extremals, rfl⟩ := exists_eq_ofFn hCount
  refine ⟨half, rfl, hSize, extremals, hExchange, ?_⟩
  congr 1
  apply List.ext_getElem
  · simp
  · intro k hLeft hRight
    simp only [List.getElem_map, List.getElem_range, List.getElem_ofFn, response, nodesAt,
      List.map_ofFn]
    rfl

/-- A design has the level of the points that its exchanges end with, which are one more than
the coefficients of its response. -/
theorem design_realises_level {length density iterations : ℕ} {bands : List (FrequencyBand ℝ)}
    {taps : List ℝ} (hDesign : design length bands density iterations = .ok taps) :
    ∃ half, length = 2 * half + 1 ∧ taps.length = length ∧
      ∃ (hSize : 0 < (grid density (half + 1) bands).size)
        (extremals : Fin (half + 2) → Fin (grid density (half + 1) bands).size),
        exchange (grid density (half + 1) bands) (half + 2) iterations
            (spread (half + 1) (grid density (half + 1) bands).size hSize) =
          .ok (List.ofFn extremals) ∧
        (Unguarded (pointsAt _ extremals) → Resolved half (pointsAt _ extremals) →
          Alternates half taps (pointsAt _ extremals)) := by
  obtain ⟨half, rfl, hSize, extremals, hExchange, rfl⟩ := extremals_of_design hDesign
  refine ⟨half, rfl, length_tapsOfAmplitudes _ _, hSize, extremals, hExchange, ?_⟩
  intro hUnguarded hResolved
  refine ⟨level (pointsAt _ extremals) (nodeWeight (pointsAt _ extremals)), fun i => ?_⟩
  rw [amplitude_eq_interpolant hUnguarded hResolved, ← hUnguarded.error_nodeValue,
    ← eval_interpolant hUnguarded]
  rfl

/-! ## Three single frequencies -/

/-- A band without width is its one frequency. -/
theorem points_of_width_zero (step frequency gain weight : ℝ) :
    FrequencyBand.points step ⟨frequency, frequency, gain, weight⟩ = [⟨frequency, gain, weight⟩] := by
  have hCount : FrequencyBand.pointCount step ⟨frequency, frequency, gain, weight⟩ = 1 := by
    have hHalf : Scalar.toPosition ((0.5 : ℝ)) = 0 := by
      change ⌊(0.5 : ℝ)⌋.toNat = 0
      norm_num
    simp [FrequencyBand.pointCount, hHalf]
  simp [FrequencyBand.points, FrequencyBand.frequencies, hCount]

/-- Three single frequencies, of which only the lowest shall pass. -/
noncomputable def threeTones : List (FrequencyBand ℝ) :=
  [⟨0, 0, 1, 1⟩, ⟨0.25, 0.25, 0, 1⟩, ⟨0.5, 0.5, 0, 1⟩]

noncomputable def threeTonePoints : Fin 3 → GridPoint ℝ :=
  ![⟨0, 1, 1⟩, ⟨0.25, 0, 1⟩, ⟨0.5, 0, 1⟩]

noncomputable def threeToneGrid : Array (GridPoint ℝ) :=
  #[⟨0, 1, 1⟩, ⟨0.25, 0, 1⟩, ⟨0.5, 0, 1⟩]

theorem grid_threeTones : grid 1 2 threeTones = threeToneGrid := by
  simp [grid, threeTones, threeToneGrid, points_of_width_zero]

theorem cosines_threeTonePoints : cosines threeTonePoints = ![1, 0, -1] := by
  have hQuarter : Elementary.turn * 0.25 = Real.pi / 2 := by
    rw [Elementary.turn_eq]
    ring
  have hHalf : Elementary.turn * 0.5 = Real.pi := by
    rw [Elementary.turn_eq]
    ring
  funext i
  fin_cases i <;> simp [cosines, cosineAt, threeTonePoints, hQuarter, hHalf]

theorem nodeWeight_threeTonePoints :
    nodeWeight threeTonePoints = ![1 / 8, -(1 / 4), 1 / 8] := by
  have hOthers (i : Fin 3) : Finset.univ.erase i = {i + 1, i + 2} := by
    decide +revert
  have hApart (i : Fin 3) : i + 1 ≠ i + 2 := by
    decide +revert
  funext i
  rw [nodeWeight, separation, hOthers, Finset.prod_pair (hApart i), cosines_threeTonePoints]
  fin_cases i
  · change (2 * ((1 : ℝ) - 0) * (2 * (1 - -1)))⁻¹ = 1 / 8
    norm_num
  · change (2 * ((0 : ℝ) - -1) * (2 * (0 - 1)))⁻¹ = -(1 / 4)
    norm_num
  · change (2 * ((-1 : ℝ) - 1) * (2 * (-1 - 0)))⁻¹ = 1 / 8
    norm_num

theorem unguarded_threeTonePoints : Unguarded threeTonePoints where
  apart i j hOther := by
    rw [cosines_threeTonePoints]
    fin_cases i <;> fin_cases j <;> simp at hOther ⊢ <;> norm_num
  unclamped i := by
    have hWeight := congrFun nodeWeight_threeTonePoints i
    rw [nodeWeight, inv_eq_iff_eq_inv] at hWeight
    rw [hWeight]
    fin_cases i <;> norm_num [abs_of_neg]
  weighted i := by
    fin_cases i <;> norm_num [threeTonePoints]
  divisor := by
    rw [nodeWeight_threeTonePoints, Fin.sum_univ_three]
    change 1 * (1 / 8) / 1 + -1 * -(1 / 4) / 1 + 1 * (1 / 8) / (1 : ℝ) ≠ 0
    norm_num

theorem level_threeTonePoints :
    level threeTonePoints (nodeWeight threeTonePoints) = 1 / 4 := by
  rw [nodeWeight_threeTonePoints, level, Fin.sum_univ_three, Fin.sum_univ_three]
  change (1 / 8 * 1 + -(1 / 4) * 0 + 1 / 8 * 0) /
    (1 * (1 / 8) / 1 + -1 * -(1 / 4) / 1 + 1 * (1 / 8) / (1 : ℝ)) = 1 / 4
  norm_num

theorem resolved_threeTonePoints : Resolved 1 threeTonePoints := by
  have hThird : Elementary.turn * (1 / 3) = Real.pi - Real.pi / 3 := by
    rw [Elementary.turn_eq]
    ring
  intro k i
  rw [cosines_threeTonePoints]
  fin_cases k
  · fin_cases i <;> norm_num [sampleCosine, cosineAt]
  · have hCosine : sampleCosine 1 1 = -(1 / 2) := by
      norm_num [sampleCosine, cosineAt, hThird]
    rw [show (⟨1, by decide⟩ : Fin 2) = 1 from rfl, hCosine]
    fin_cases i <;> norm_num

theorem admissible_threeTones : admissible threeTones = true := by
  norm_num [admissible, threeTones, edges, descends]

theorem points_threeToneGrid : pointsAt threeToneGrid id = threeTonePoints := by
  funext i
  change Fin 3 at i
  fin_cases i <;> rfl

/-- Exchanges on the grid of the three bands end with its three points. -/
theorem extremals_threeTones {points : Array (GridPoint ℝ)} (hPoints : points = threeToneGrid)
    (iterations : ℕ) (hSize : 0 < points.size) :
    ∃ extremals : Fin 3 → Fin points.size, pointsAt points extremals = threeTonePoints ∧
      exchange points 3 iterations (spread 2 points.size hSize) = .ok (List.ofFn extremals) := by
  subst hPoints
  refine ⟨id, points_threeToneGrid, ?_⟩
  have hUnguarded : Unguarded (pointsAt threeToneGrid id) := by
    rw [points_threeToneGrid]
    exact unguarded_threeTonePoints
  have hLevel : level threeTonePoints (nodeWeight threeTonePoints) ≠ 0 := by
    rw [level_threeTonePoints]
    norm_num
  refine exchange_wholeGrid hUnguarded ?_ (by decide) iterations
  rw [points_threeToneGrid]
  exact hLevel

/-- A design for three single frequencies, as many as the points it needs: every exchange stays
at them. -/
theorem design_realises_level_threeTones :
    ∃ taps, design 3 threeTones 1 40 = .ok taps ∧ Alternates 1 taps threeTonePoints := by
  have hGrid : grid 1 2 threeTones = threeToneGrid :=
    grid_threeTones
  obtain ⟨taps, hDesign⟩ : ∃ taps, design 3 threeTones 1 40 = .ok taps := by
    have hSize : 3 ≤ (grid 1 2 threeTones).size := by
      rw [hGrid]
      decide
    obtain ⟨extremals, _, hExchange⟩ := extremals_threeTones hGrid 40 (by omega)
    rw [design, if_neg (by simp [admissible_threeTones])]
    exact ⟨_, (dif_pos hSize).trans (congrArg (· >>= _) hExchange)⟩
  obtain ⟨half, hLength, _, hSize, extremals, hExchange, hAlternates⟩ :=
    design_realises_level hDesign
  obtain rfl : half = 1 := by omega
  obtain ⟨stays, hPoints, hStays⟩ := extremals_threeTones hGrid 40 hSize
  have hSame : extremals = stays :=
    List.ofFn_injective (Except.ok.inj (hExchange.symm.trans hStays))
  subst hSame
  rw [hPoints] at hAlternates
  exact ⟨taps, hDesign, hAlternates unguarded_threeTonePoints resolved_threeTonePoints⟩

end Filter
end Pushbroom
