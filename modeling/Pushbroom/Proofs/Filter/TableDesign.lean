import Pushbroom.Proofs.Filter.Requests
import Pushbroom.Proofs.Filter.TableSearch

namespace Pushbroom
namespace Filter
namespace Indexed

/-!
# Low pass kernels from tables

The exchanges are counted here up to a limit, and end there or when the errors are level.  The
checks that come before them are what every lookup relies on: two edges for each gain and as many
gains as weights, and a grid with at least as many points as there are extremals.

Nothing is assumed of the numbers, so this holds whatever the comparisons of errors and the cosines
are, those of what is no number among them.
-/

variable {α : Type} [Scalar α]

/-! ## Level errors -/

/-- Goes on with the smallest and the largest magnitude of the errors at the extremals. -/
def widen (errors : List α) (range : α × α) (extremal : ℕ) : Except (Error α) (α × α) := do
  let error ← entry errors extremal
  return (Scalar.minNum range.1 (Scalar.abs error), Scalar.maxNum range.2 (Scalar.abs error))

def levelledOf (errors : List α) (extremals : List ℕ) : Except (Error α) Bool := do
  let range ← extremals.foldlM (widen errors) (1.7976931348623157e308, 0)
  return range.2 == 0 || decide ((range.2 - range.1) / range.2 < 1e-4)

theorem levelledOf_eq {n : ℕ} (errors : Vector α n) (positions : List (Fin n)) :
    levelledOf errors.toList (positions.map Fin.val) = .ok (levelled errors positions) := by
  have hRange : (positions.map Fin.val).foldlM (widen errors.toList) (1.7976931348623157e308, 0) =
      .ok (magnitudeRange errors positions) := by
    refine Failure.foldlM_eq_ok_of_getElem (List.length_map _) (fun k _ range => ?_) _
    rw [List.getElem_map, widen, entry_eq (by simp)]
    simp [pure, Except.pure, bind, Except.bind]
  rw [levelledOf, hRange]
  rfl

variable [Elementary α]

/-! ## Exchanges -/

/-- Exchanges until the errors are level, `limit` at most, with the number of them made so far. -/
def exchangeOf (tables : Tables α) (count limit exchanges : ℕ) (done : Bool)
    (extremals : List ℕ) : Except (Error α) (ℕ × List ℕ) :=
  if _hGoesOn : exchanges < limit ∧ done = false then do
    let nodes ← nodesOf tables extremals
    let errors ← errorsOf tables nodes
    let next ← searchOf count errors
    let level ← levelledOf errors next
    exchangeOf tables count limit (exchanges + 1) level next
  else return (exchanges, extremals)
termination_by limit - exchanges

theorem exchangeOf_done (tables : Tables α) (count limit exchanges : ℕ) (extremals : List ℕ) :
    exchangeOf tables count limit exchanges true extremals = .ok (exchanges, extremals) := by
  rw [exchangeOf, dif_neg (fun hGoesOn => Bool.noConfusion hGoesOn.2)]
  rfl

/-- Counted exchanges are the exchanges that are left. -/
theorem exchangeOf_eq {points : Array (GridPoint α)} (hTwo : 2 ≤ points.size) (count limit : ℕ)
    {exchanges : ℕ} (hLimit : exchanges ≤ limit) (positions : List (Fin points.size)) :
    ∃ made ≤ limit, exchangeOf (.ofPoints points.toList) count limit exchanges false
        (positions.map Fin.val) =
      (exchange points count (limit - exchanges) positions).map fun final =>
        (made, final.map Fin.val) := by
  -- on the exchanges left; a search that fails ends both loops, and so do level errors
  induction hLeft : limit - exchanges generalizing exchanges positions with
  | zero =>
      refine ⟨exchanges, hLimit, ?_⟩
      rw [exchangeOf, dif_neg (by omega)]
      rfl
  | succ left ih =>
      rw [exchangeOf, dif_pos ⟨by omega, rfl⟩, nodesOf_eq, Failure.ok_bind, errorsOf_eq,
        Failure.ok_bind, searchOf_eq hTwo, exchange]
      cases hSelect : selectExtrema count (weightedErrors points (nodesAt points positions)) with
      | error error => exact ⟨exchanges, hLimit, rfl⟩
      | ok next =>
          have hRest : ∃ made ≤ limit, exchangeOf (.ofPoints points.toList) count limit
              (exchanges + 1) (levelled (weightedErrors points (nodesAt points positions)) next)
              (next.map Fin.val) =
            (if levelled (weightedErrors points (nodesAt points positions)) next then .ok next
              else exchange points count left next).map fun final => (made, final.map Fin.val) := by
            cases levelled (weightedErrors points (nodesAt points positions)) next with
            | true => exact ⟨exchanges + 1, by omega, exchangeOf_done _ _ _ _ _⟩
            | false => exact ih (by omega) next (by omega)
          obtain ⟨made, hMade, hSame⟩ := hRest
          refine ⟨made, hMade, Eq.trans ?_ hSame⟩
          change levelledOf _ (next.map Fin.val) >>= _ = _
          rw [levelledOf_eq, Failure.ok_bind]

/-! ## Taps -/

/-- Twice an amplitude, at its phase in a tap. -/
def waveOf (amplitudes : List α) (x : α) (k : ℕ) : Except (Error α) α := do
  let amplitude ← entry amplitudes k
  return 2.0 * amplitude * Elementary.cos (x * (k : α))

def tapOf (length : ℕ) (amplitudes : List α) (i : ℕ) : Except (Error α) α := do
  let center : α := (((length - 1) / 2 : ℕ) : α)
  let x := Elementary.turn * ((i : α) - center) / (length : α)
  let constant ← entry amplitudes 0
  let waves ← (List.range' 1 ((length - 1) / 2)).mapM (waveOf amplitudes x)
  return (constant + Scalar.sum waves) / (length : α)

def tapsOf (length : ℕ) (amplitudes : List α) : Except (Error α) (List α) :=
  (List.range length).mapM (tapOf length amplitudes)

/-- A tap needs one amplitude for its constant and one for each of its waves. -/
theorem tapsOf_eq {length : ℕ} {amplitudes : List α}
    (hEnough : amplitudes.length = (length - 1) / 2 + 1) :
    tapsOf length amplitudes = .ok (tapsOfAmplitudes length amplitudes) := by
  obtain ⟨constant, others, rfl⟩ := List.exists_cons_of_length_eq_add_one hEnough
  have hOthers : others.length = (length - 1) / 2 := Nat.succ.inj hEnough
  have hWaves (x : α) : (List.range' 1 ((length - 1) / 2)).mapM (waveOf (constant :: others) x) =
      .ok ((others.zipIdx 1).map fun entry =>
        2.0 * entry.1 * Elementary.cos (x * (entry.2 : α))) := by
    refine Failure.mapM_eq_ok_of_getElem (by simp [hOthers]) fun k hIndex => ?_
    have hOther : k < others.length := by simpa [hOthers] using hIndex
    have hAmplitude : (constant :: others)[1 + k]? = some others[k] := by
      rw [Nat.add_comm, List.getElem?_cons_succ, List.getElem?_eq_getElem hOther]
    rw [List.getElem_range', Nat.one_mul, waveOf, entry_of_getElem? hAmplitude]
    simp [pure, Except.pure, bind, Except.bind]
  refine Failure.mapM_eq_ok_of_getElem
    (by rw [List.length_range, length_tapsOfAmplitudes]) fun i _ => ?_
  rw [List.getElem_range, tapOf, entry_eq (Nat.succ_pos _), Failure.ok_bind, hWaves,
    Failure.ok_bind]
  simp [tapsOfAmplitudes, pure, Except.pure]

/-! ## Designs -/

/-- The checks of the arguments of a design. -/
def refused (length density : ℕ) (edges gains weights : List α) : Bool :=
  decide (length < 3 ∨ length % 2 = 0 ∨ density = 0 ∨ edges.length ≠ 2 * gains.length ∨
      gains.length ≠ weights.length) ||
    descends edges || !edges.all fun edge => decide (0 ≤ edge ∧ edge ≤ 0.5)

/-- The taps of a design on a grid and the number of exchanges made for it. -/
def designOn (length limit : ℕ) (tables : Tables α) : Except (Error α) (ℕ × List α) :=
  let r := length / 2 + 1
  let size := tables.frequencies.length
  if size < r + 1 then .error .filterDesign
  else do
    let start := (List.range (r + 1)).map fun i => i * (size - 1) / r
    let (exchanges, extremals) ← exchangeOf tables (r + 1) limit 0 false start
    let nodes ← nodesOf tables extremals
    let amplitudes := (List.range (length / 2 + 1)).map fun (k : ℕ) =>
      response nodes ((k : α) / (length : α))
    let taps ← tapsOf length amplitudes
    return (exchanges, taps)

def designOf (length : ℕ) (edges gains weights : List α) (density limit : ℕ) :
    Except (Error α) (ℕ × List α) :=
  if refused length density edges gains weights then .error .filterDesign
  else do
    let tables ← denseGrid density (length / 2 + 1) edges gains weights
    designOn length limit tables

/-- A kernel from tables and the number of exchanges made for it. -/
def lowPassKernelOf (interval cutoff : α) (settings : Settings α) :
    Except (Error α) (ℕ × List α) :=
  if ¬0 < interval then .error (.sampleTime interval)
  else if ¬(0 < cutoff ∧ settings.stopRatio * cutoff < 0.5 / interval) then
    .error (.cutoffFrequency cutoff)
  else do
    let (exchanges, taps) ← designOf (settings.kernelLength cutoff interval)
      [0, cutoff * interval, settings.stopRatio * cutoff * interval, 0.5] [1, 0]
      [settings.passWeight, settings.stopWeight] settings.gridDensity settings.maxIterations
    let kernel ← normalize taps
    return (exchanges, kernel)

omit [Elementary α] in
theorem refused_eq_false_iff (length density : ℕ) (bands : List (FrequencyBand α)) :
    refused length density (edges bands) (bands.map FrequencyBand.gain)
        (bands.map FrequencyBand.weight) = false ↔ InOrder length density bands := by
  rw [refused, length_edges, List.length_map, List.length_map]
  constructor
  · intro hPasses
    simp only [Bool.or_eq_false_iff, decide_eq_false_iff_not, Bool.not_eq_false'] at hPasses
    obtain ⟨⟨hSizes, hAscends⟩, hInside⟩ := hPasses
    refine ⟨by omega, by omega, by omega, ?_⟩
    rw [admissible, hAscends, hInside]
    rfl
  · rintro ⟨hLong, hOdd, hDense, hAdmissible⟩
    rw [admissible, Bool.and_eq_true, Bool.not_eq_true'] at hAdmissible
    rw [hAdmissible.1, hAdmissible.2, Bool.not_true, Bool.or_false, Bool.or_false,
      decide_eq_false_iff_not]
    omega

theorem map_val_spread (r size : ℕ) (hSize : 0 < size) :
    (spread r size hSize).map Fin.val = (List.range (r + 1)).map fun i => i * (size - 1) / r := by
  refine List.ext_getElem (by simp [spread]) fun k _ _ => ?_
  simp [spread]

/-- On a grid with enough points, the taps are those of the extremals that the exchanges end
with. -/
theorem designOn_eq {length : ℕ} (hOdd : length % 2 = 1) (limit : ℕ) {points : Array (GridPoint α)}
    (hEnough : length / 2 + 2 ≤ points.size) :
    ∃ made ≤ limit, designOn length limit (.ofPoints points.toList) =
      (exchange points (length / 2 + 2) limit (startOf hEnough)).map fun positions =>
        (made, tapsAt length points positions) := by
  have hStart : (startOf hEnough).map Fin.val =
      (List.range (length / 2 + 2)).map fun i => i * (points.size - 1) / (length / 2 + 1) :=
    map_val_spread _ _ _
  obtain ⟨made, hMade, hExchange⟩ := exchangeOf_eq (Nat.le_trans (Nat.le_add_left 2 _) hEnough)
    (length / 2 + 2) limit (Nat.zero_le limit) (startOf hEnough)
  rw [hStart, Nat.sub_zero] at hExchange
  refine ⟨made, hMade, ?_⟩
  rw [designOn]
  dsimp only
  rw [Tables.length_frequencies_ofPoints, Array.length_toList, if_neg (Nat.not_lt.mpr hEnough),
    hExchange]
  cases exchange points (length / 2 + 2) limit (startOf hEnough) with
  | error error => rfl
  | ok positions =>
      change nodesOf _ (positions.map Fin.val) >>= _ = _
      rw [nodesOf_eq, Failure.ok_bind, tapsOf_eq (by simp; omega)]
      rfl

/-- The design on tables is the design, with at most as many exchanges as are allowed. -/
theorem designOf_eq (length density limit : ℕ) (bands : List (FrequencyBand α)) :
    ∃ made ≤ limit, designOf length (edges bands) (bands.map FrequencyBand.gain)
        (bands.map FrequencyBand.weight) density limit =
      (design length bands density limit).map fun taps => (made, taps) := by
  by_cases hOrder : InOrder length density bands
  · rw [designOf, (refused_eq_false_iff length density bands).mpr hOrder,
      if_neg Bool.false_ne_true, denseGrid_eq, Failure.ok_bind]
    by_cases hEnough : length / 2 + 2 ≤ (pointsOf length density bands).size
    · obtain ⟨made, hMade, hSame⟩ := designOn_eq hOrder.odd limit hEnough
      refine ⟨made, hMade, hSame.trans ?_⟩
      rw [hOrder.design_eq hEnough]
      cases exchange (pointsOf length density bands) (length / 2 + 2) limit (startOf hEnough) <;>
        rfl
    · have hFew : (Tables.ofPoints (pointsOf length density bands).toList).frequencies.length <
          length / 2 + 2 := by
        rw [Tables.length_frequencies_ofPoints, Array.length_toList]
        exact Nat.not_le.mp hEnough
      refine ⟨0, Nat.zero_le _, ?_⟩
      rw [design_eq_error_of_refused fun _ => hEnough]
      exact if_pos hFew
  · refine ⟨0, Nat.zero_le _, ?_⟩
    rw [design_eq_error_of_refused fun hPasses => absurd hPasses hOrder, designOf, if_pos]
    · rfl
    · rw [← Bool.not_eq_false, refused_eq_false_iff]
      exact hOrder

theorem lowPassKernelOf_eq (interval cutoff : α) (settings : Settings α) :
    ∃ made ≤ settings.maxIterations, lowPassKernelOf interval cutoff settings =
      (lowPassKernel interval cutoff settings).map fun kernel => (made, kernel) := by
  by_cases hInterval : 0 < interval
  · by_cases hCutoff : 0 < cutoff ∧ settings.stopRatio * cutoff < 0.5 / interval
    · obtain ⟨made, hMade, hDesign⟩ := designOf_eq (settings.kernelLength cutoff interval)
        settings.gridDensity settings.maxIterations (lowPassBands interval cutoff settings)
      change designOf _ [0, cutoff * interval, settings.stopRatio * cutoff * interval, 0.5] [1, 0]
        [settings.passWeight, settings.stopWeight] _ _ = _ at hDesign
      refine ⟨made, hMade, ?_⟩
      rw [lowPassKernel_of_fits hInterval hCutoff, lowPassKernelOf,
        if_neg (not_not.mpr hInterval), if_neg (not_not.mpr hCutoff), hDesign]
      cases design (settings.kernelLength cutoff interval) (lowPassBands interval cutoff settings)
          settings.gridDensity settings.maxIterations with
      | error error => rfl
      | ok taps =>
          change (normalize taps >>= fun kernel => .ok (made, kernel)) = (normalize taps).map _
          cases normalize taps <;> rfl
    · refine ⟨0, Nat.zero_le _, ?_⟩
      rw [lowPassKernel_of_cutoff hInterval hCutoff, lowPassKernelOf,
        if_neg (not_not.mpr hInterval), if_pos hCutoff]
      rfl
  · refine ⟨0, Nat.zero_le _, ?_⟩
    rw [lowPassKernel_of_interval hInterval, lowPassKernelOf, if_pos hInterval]
    rfl

/-- A low pass kernel that is looked up entry by entry is found after no more exchanges than are
allowed and has the length asked for, or there is none for one of three causes.  No lookup fails,
whatever the numbers are, and the kernel and the cause are those of the design on points. -/
theorem lowPassKernelOf_total (interval cutoff : α) (settings : Settings α) :
    (∃ made kernel, lowPassKernelOf interval cutoff settings = .ok (made, kernel) ∧
      made ≤ settings.maxIterations ∧ kernel.length = settings.kernelLength cutoff interval ∧
      lowPassKernel interval cutoff settings = .ok kernel) ∨
    ∃ error, lowPassKernelOf interval cutoff settings = .error error ∧
      (error = .sampleTime interval ∨ error = .cutoffFrequency cutoff ∨ error = .filterDesign) ∧
      lowPassKernel interval cutoff settings = .error error := by
  obtain ⟨made, hMade, hSame⟩ := lowPassKernelOf_eq interval cutoff settings
  cases hKernel : lowPassKernel interval cutoff settings with
  | error error =>
      rw [hKernel] at hSame
      exact Or.inr ⟨error, hSame, lowPassKernel_eq_error hKernel, rfl⟩
  | ok kernel =>
      rw [hKernel] at hSame
      exact Or.inl ⟨made, kernel, hSame, hMade, length_lowPassKernel hKernel, rfl⟩

end Indexed
end Filter
end Pushbroom
