import Pushbroom.Proofs.Attitude.Sampling
import Pushbroom.Proofs.Attitude.Transfer
import Pushbroom.Proofs.Geometry.Coordinates

namespace Pushbroom
namespace Attitude

/-!
# The mean that a transfer moves

In exact arithmetic the samples between the rounded bounds of a window are those whose times lie
in it, ends included, and a mean that is brought up to date vector by vector is the arithmetic
mean.  A transfer over a window with samples therefore leaves samples there whose mean is zero,
and the same transfer made again moves nothing.
-/

variable {K : Type} [Field K] [LinearOrder K] [FloorRing K]

/-! ## Means -/

/-- The arithmetic mean of vectors, coordinate by coordinate. -/
def average (vectors : List (Vec3 K)) : Vec3 K :=
  ⟨(vectors.map Vec3.x).sum / vectors.length, (vectors.map Vec3.y).sum / vectors.length,
    (vectors.map Vec3.z).sum / vectors.length⟩

omit [LinearOrder K] [FloorRing K] in
theorem coordinate_average (vectors : List (Vec3 K)) (axis : Axis) :
    (average vectors).coordinate axis =
      (vectors.map fun v => v.coordinate axis).sum / vectors.length := by
  cases axis <;> rfl

/-- Takes one more vector into the mean of `state.2` vectors. -/
def meanStep (state : Vec3 K × ℕ) (vector : Vec3 K) : Vec3 K × ℕ :=
  let count : K := ((state.2 + 1 : ℕ) : K)
  (vector.shrink count + (state.1.scale (count - 1)).shrink count, state.2 + 1)

/-- One step keeps the mean times the count equal to the sum. -/
theorem coordinate_meanStep (state : Vec3 K × ℕ) (vector : Vec3 K) (axis : Axis) :
    (meanStep state vector).1.coordinate axis * ((state.2 + 1 : ℕ) : K) =
      state.1.coordinate axis * state.2 + vector.coordinate axis := by
  have hCount : ((state.2 + 1 : ℕ) : K) ≠ 0 := Nat.cast_ne_zero.mpr (Nat.succ_ne_zero _)
  simp only [meanStep, Vec3.coordinate_add, Vec3.coordinate_shrink, Vec3.coordinate_scale]
  rw [add_mul, div_mul_cancel₀ _ hCount, div_mul_cancel₀ _ hCount]
  push_cast
  ring

theorem coordinate_foldl_meanStep (vectors : List (Vec3 K)) (state : Vec3 K × ℕ) (axis : Axis) :
    (vectors.foldl meanStep state).1.coordinate axis * ((state.2 + vectors.length : ℕ) : K) =
      state.1.coordinate axis * state.2 + (vectors.map fun v => v.coordinate axis).sum := by
  induction vectors generalizing state with
  | nil => simp
  | cons vector rest ih =>
      have hStep := coordinate_meanStep state vector axis
      have hRest := ih (meanStep state vector)
      have hLength : (meanStep state vector).2 + rest.length =
          state.2 + (vector :: rest).length := by
        rw [List.length_cons, meanStep]
        omega
      rw [hLength] at hRest
      rw [List.foldl_cons, hRest, List.map_cons, List.sum_cons, ← add_assoc, ← hStep]
      rfl

theorem runningMean_eq_average (vectors : List (Vec3 K)) :
    runningMean vectors = average vectors := by
  apply Vec3.ext_coordinate
  intro axis
  have hFold := coordinate_foldl_meanStep vectors (0, 0) axis
  rw [Nat.zero_add, Nat.cast_zero, mul_zero, zero_add] at hFold
  change (vectors.foldl meanStep (0, 0)).1.coordinate axis = _
  rw [coordinate_average, ← hFold]
  cases vectors with
  | nil =>
      rw [List.length_nil, Nat.cast_zero, mul_zero, zero_div]
      exact Vec3.coordinate_zero axis
  | cons vector rest =>
      exact (mul_div_cancel_right₀ _ (Nat.cast_ne_zero.mpr (Nat.succ_ne_zero _))).symm

/-- Taking the same vector from all of some vectors takes it from their mean. -/
theorem average_map_sub {vectors : List (Vec3 K)} (hSome : vectors ≠ []) (shift : Vec3 K) :
    average (vectors.map fun v => v - shift) = average vectors - shift := by
  apply Vec3.ext_coordinate
  intro axis
  have hCount : (vectors.length : K) ≠ 0 :=
    Nat.cast_ne_zero.mpr (mt List.eq_nil_of_length_eq_zero hSome)
  have hSum : ((vectors.map fun v => v - shift).map fun v => v.coordinate axis).sum =
      (vectors.map fun v => v.coordinate axis).sum - vectors.length * shift.coordinate axis := by
    clear hSome hCount
    induction vectors with
    | nil => simp
    | cons v rest ih =>
        simp only [List.map_cons, List.sum_cons, List.length_cons, ih, Vec3.coordinate_sub]
        push_cast
        ring
  rw [Vec3.coordinate_sub, coordinate_average, coordinate_average, hSum, List.length_map, sub_div,
    mul_div_cancel_left₀ _ hCount]

/-! ## Windows -/

/-- The entries of a list that stand in a range of positions are those that pass a test when the
test passes exactly there. -/
theorem filter_eq_drop_take {β : Type} {entries : List β} {p : β → Bool} {low high : ℕ}
    (hRange : ∀ i (hIndex : i < entries.length), p entries[i] = true ↔ low ≤ i ∧ i < high) :
    entries.filter p = (entries.take high).drop low := by
  -- one entry less moves both ends of the range one position down
  induction entries generalizing low high with
  | nil => simp
  | cons entry rest ih =>
      have hRest : ∀ i (hIndex : i < rest.length),
          p rest[i] = true ↔ low - 1 ≤ i ∧ i < high - 1 := by
        intro i hIndex
        have hNext := hRange (i + 1) (Nat.succ_lt_succ hIndex)
        rw [List.getElem_cons_succ] at hNext
        rw [hNext]
        omega
      have hFirst := hRange 0 (Nat.succ_pos _)
      rw [List.getElem_cons_zero] at hFirst
      cases high with
      | zero =>
          rw [List.take_zero, List.drop_nil, List.filter_cons_of_neg (by simp [hFirst]), ih hRest]
          simp
      | succ high =>
          cases low with
          | zero =>
              rw [List.filter_cons_of_pos (hFirst.mpr (by omega)), ih hRest]
              simp
          | succ low =>
              rw [List.filter_cons_of_neg (by simp [hFirst]), ih hRest]
              simp

namespace Sequence

/-- The samples whose times lie in a window. -/
def within (sequence : Sequence K) (start stop : K) : List (Sample K) :=
  sequence.samples.toList.filter fun sample => decide (start ≤ sample.time ∧ sample.time ≤ stop)

/-- The mean of a channel over the samples in a window. -/
def averageOver (sequence : Sequence K) (start stop : K) (channel : Channel) : Vec3 K :=
  average ((sequence.within start stop).map fun sample => sample.channel channel)

/-- The samples are taken one interval apart, from `first` on. -/
def EvenlyFrom (first : K) (sequence : Sequence K) : Prop :=
  ∀ i (hIndex : i < sequence.samples.size),
    sequence.samples[i].time = first + i * sequence.interval

section First

variable {sequence : Sequence K} {first : K}

omit [LinearOrder K] [FloorRing K] in
theorem EvenlyFrom.exists_first (hEven : sequence.EvenlyFrom first)
    (hSome : 0 < sequence.size) :
    ∃ sample, sequence.samples[0]? = some sample ∧ sample.time = first := by
  refine ⟨_, Array.getElem?_eq_getElem hSome, ?_⟩
  rw [hEven 0 hSome, Nat.cast_zero, zero_mul, add_zero]

omit [LinearOrder K] [FloorRing K] in
theorem EvenlyFrom.firstTime_eq (hEven : sequence.EvenlyFrom first)
    (hSome : 0 < sequence.size) : sequence.firstTime = .ok first := by
  obtain ⟨sample, hSample, hTime⟩ := hEven.exists_first hSome
  simp only [Sequence.firstTime, hSample, hTime]

end First

omit [Field K] [FloorRing K] in
theorem within_ne_nil_iff (sequence : Sequence K) (start stop : K) :
    sequence.within start stop ≠ [] ↔
      ∃ sample ∈ sequence.samples, start ≤ sample.time ∧ sample.time ≤ stop := by
  simp [within, List.filter_eq_nil_iff]

section Bounds

variable [IsStrictOrderedRing K] {sequence : Sequence K} {first : K}

/-- A sample of an evenly sampled sequence is in a window when its index is between the rounded
bounds of the window. -/
theorem EvenlyFrom.within_iff (hEven : sequence.EvenlyFrom first)
    (hInterval : 0 < sequence.interval) (start stop : K) {i : ℕ}
    (hIndex : i < sequence.samples.size) :
    start ≤ sequence.samples[i].time ∧ sequence.samples[i].time ≤ stop ↔
      ⌈(start - first) / sequence.interval⌉ ≤ (i : ℤ) ∧
        (i : ℤ) ≤ ⌊(stop - first) / sequence.interval⌋ := by
  rw [hEven i hIndex, Int.ceil_le, Int.le_floor, div_le_iff₀ hInterval, le_div_iff₀ hInterval,
    Int.cast_natCast, sub_le_iff_le_add', le_sub_iff_add_le']

theorem windowBounds_eq (sequence : Sequence K) (interval first start stop : K) :
    sequence.windowBounds interval first start stop =
      (((max ⌈(start - first) / interval⌉ 0 : ℤ) : K),
        ((min ⌊(stop - first) / interval⌋ ((sequence.size - 1 : ℕ) : ℤ) : ℤ) : K)) := by
  rw [windowBounds, Scalar.maxNum_eq, Scalar.minNum_eq, Scalar.ceil_eq, Scalar.floor_eq]
  push_cast
  rfl

/-- The samples of a window are those whose times lie in it, and it is refused exactly when there
is none. -/
theorem window_eq (hEven : sequence.EvenlyFrom first) (hInterval : 0 < sequence.interval)
    (hSome : 0 < sequence.size) (start stop : K) :
    sequence.window start stop =
      if sequence.within start stop = [] then .error (.biasWindow start stop)
      else .ok (sequence.within start stop) := by
  have hSize : sequence.size = sequence.samples.size := rfl
  have hPositive : sequence.positiveInterval = .ok sequence.interval := if_pos hInterval
  simp only [window, hPositive, hEven.firstTime_eq hSome, Failure.ok_bind, windowBounds_eq,
    Int.cast_lt, Scalar.toPosition_intCast]
  have hInside {i : ℕ} (hIndex : i < sequence.samples.size) :=
    hEven.within_iff hInterval start stop hIndex
  -- both sides depend on the window through its rounded bounds only, before they are clamped
  generalize ⌈(start - first) / sequence.interval⌉ = low at hInside ⊢
  generalize ⌊(stop - first) / sequence.interval⌋ = high at hInside ⊢
  by_cases hEmpty : min high ((sequence.size - 1 : ℕ) : ℤ) < max low 0
  · have hNone : sequence.within start stop = [] := by
      rw [within, List.filter_eq_nil_iff]
      intro sample hSample
      obtain ⟨i, hIndex, rfl⟩ := Array.mem_iff_getElem.mp (Array.mem_toList_iff.mp hSample)
      rw [decide_eq_true_eq, hInside hIndex]
      omega
    rw [if_pos hEmpty, if_pos hNone]
    rfl
  · have hWithin : sequence.within start stop = sequence.samples.toList.extract
        (max low 0).toNat ((min high ((sequence.size - 1 : ℕ) : ℤ)).toNat + 1) := by
      rw [within, List.extract_eq_take_drop, ← List.drop_take]
      refine filter_eq_drop_take fun i hIndex => ?_
      rw [Array.length_toList] at hIndex
      rw [Array.getElem_toList, decide_eq_true_eq, hInside hIndex]
      omega
    have hIndex : (max low 0).toNat < sequence.samples.size := by omega
    have hMember : sequence.samples[(max low 0).toNat] ∈ sequence.within start stop := by
      rw [within, List.mem_filter]
      exact ⟨Array.mem_toList_iff.mpr (Array.getElem_mem hIndex),
        decide_eq_true ((hInside hIndex).mpr (by omega))⟩
    rw [if_neg hEmpty, if_neg (List.ne_nil_of_mem hMember), hWithin, Array.toList_extract]
    rfl

end Bounds

/-! ## After a transfer -/

theorem EvenlyFrom.lower {sequence : Sequence K} {first : K} (hEven : sequence.EvenlyFrom first)
    (shift : Channel → Vec3 K) : (sequence.lower shift).EvenlyFrom first := by
  intro i hIndex
  have hSize : i < sequence.samples.size := by
    simpa [Sequence.lower, mapSamples] using hIndex
  simpa [Sequence.lower, mapSamples, Sample.mapChannels] using hEven i hSize

theorem within_lower (sequence : Sequence K) (shift : Channel → Vec3 K) (start stop : K) :
    (sequence.lower shift).within start stop = (sequence.within start stop).map
      (Sample.mapChannels fun channel angles => angles - shift channel) := by
  rw [within, within, lower, mapSamples, Array.toList_map, List.filter_map]
  rfl

/-- What is taken from every sample is taken from the mean over a window with samples. -/
theorem averageOver_lower {sequence : Sequence K} {start stop : K}
    (hSome : sequence.within start stop ≠ []) (shift : Channel → Vec3 K) (channel : Channel) :
    (sequence.lower shift).averageOver start stop channel =
      sequence.averageOver start stop channel - shift channel := by
  have hChannels :
      ((sequence.lower shift).within start stop).map (fun sample => sample.channel channel) =
      ((sequence.within start stop).map fun sample => sample.channel channel).map
        fun angles => angles - shift channel := by
    rw [within_lower, List.map_map, List.map_map]
    cases channel <;> rfl
  rw [averageOver, averageOver, hChannels,
    average_map_sub (mt List.map_eq_nil_iff.mp hSome)]

omit [Field K] [LinearOrder K] [FloorRing K] in
theorem mapSamples_mapChannels_eq_self (sequence : Sequence K) {f : Channel → Vec3 K → Vec3 K}
    (hSame : ∀ channel angles, f channel angles = angles) :
    sequence.mapSamples (Sample.mapChannels f) = sequence := by
  have hIdentity : Sample.mapChannels f = id := by
    funext sample
    simp [Sample.mapChannels, hSame]
  rw [mapSamples, hIdentity, Array.map_id]

theorem lower_zero (sequence : Sequence K) : (sequence.lower fun _ => 0) = sequence :=
  mapSamples_mapChannels_eq_self sequence fun _ angles => by
    apply Vec3.ext_coordinate
    intro axis
    simp

theorem raise_zero (sequence : Sequence K) : (sequence.raise fun _ => 0) = sequence :=
  mapSamples_mapChannels_eq_self sequence fun _ angles => by
    apply Vec3.ext_coordinate
    intro axis
    simp

end Sequence

variable [IsStrictOrderedRing K] {source target : Sequence K} {first : K}

/-- How a transfer ends: refused when no sample is in the window, and otherwise by moving the
arithmetic mean over the samples that are. -/
theorem transferBias_eq (hInterval : 0 < source.interval) (hEven : source.EvenlyFrom first)
    (hSource : 0 < source.size) (hTarget : 0 < target.size) (start stop : K) :
    (transferBias start stop).run.run (source, target) =
      if source.within start stop = [] then (.error (.biasWindow start stop), source, target)
      else (.ok (), source.lower (source.averageOver start stop),
        target.raise (source.averageOver start stop)) := by
  have hFilled : ¬(source.size = 0 ∨ target.size = 0) := by omega
  have hWindow := Sequence.window_eq hEven hInterval hSource start stop
  split
  · rename_i hNone
    rw [if_pos hNone] at hWindow
    exact transferBias_of_window_error hFilled hWindow
  · rename_i hSome
    rw [if_neg hSome] at hWindow
    have hMean : meanAttitude (source.within start stop) = source.averageOver start stop := by
      funext channel
      exact runningMean_eq_average _
    rw [transferBias_of_window hFilled hWindow, hMean]

/-- A transfer succeeds when there are samples in its window.  It takes their mean from every
sample of the source and gives it to every sample of the target, channel by channel; the mean over
the window is then zero, and the same transfer moves nothing.  A refused transfer changes nothing
either. -/
theorem transferBias_moves_average (hInterval : 0 < source.interval)
    (hEven : source.EvenlyFrom first) (hSource : 0 < source.size) (hTarget : 0 < target.size)
    (start stop : K) :
    let transfer := (transferBias start stop).run
    let (result, source', target') := transfer.run (source, target)
    (result = .ok () ↔ ∃ sample ∈ source.samples, start ≤ sample.time ∧ sample.time ≤ stop) ∧
      (result = .ok () →
        source'.SameSampling source ∧ target'.SameSampling target ∧
        (∀ channel,
          source'.channel channel = (source.channel channel).map
            (fun angles => angles - source.averageOver start stop channel) ∧
          target'.channel channel = (target.channel channel).map
            (fun angles => angles + source.averageOver start stop channel) ∧
          source'.averageOver start stop channel = 0) ∧
        transfer.run (source', target') = (.ok (), source', target')) ∧
      (result ≠ .ok () → source' = source ∧ target' = target) := by
  dsimp only
  rw [transferBias_eq hInterval hEven hSource hTarget, ← Sequence.within_ne_nil_iff]
  by_cases hNone : source.within start stop = []
  · simp [hNone]
  · generalize hShift : source.averageOver start stop = shift
    have hLowered := source.lower_sameSampling shift
    have hRaised := target.raise_sameSampling shift
    have hZero : (source.lower shift).averageOver start stop = fun _ => 0 := by
      funext channel
      rw [Sequence.averageOver_lower hNone, hShift]
      apply Vec3.ext_coordinate
      intro axis
      simp
    have hSome : (source.lower shift).within start stop ≠ [] := by
      rw [Sequence.within_lower]
      exact mt List.map_eq_nil_iff.mp hNone
    have hStep : 0 < (source.lower shift).interval := hInterval
    have hAgain := transferBias_eq hStep (hEven.lower shift) (hLowered.size.symm ▸ hSource)
      (hRaised.size.symm ▸ hTarget) start stop
    rw [if_neg hSome, hZero, Sequence.lower_zero, Sequence.raise_zero] at hAgain
    rw [if_neg hNone]
    exact ⟨iff_of_true rfl hNone, fun _ => ⟨hLowered, hRaised, fun channel =>
      ⟨source.channel_lower shift channel, target.channel_raise shift channel,
        congrFun hZero channel⟩, hAgain⟩, fun hFailed => absurd rfl hFailed⟩

/-- Three samples at the times zero to two, of which a window holds the last two. -/
theorem transferBias_moves_average_jerk :
    let transfer := (transferBias (1 / 2 : ℚ) 2).run
    let (result, source, target) := transfer.run (Sequence.jerk, Sequence.jerk)
    result = .ok () ∧ Sequence.jerk.averageOver (1 / 2) 2 .satellite = ⟨3 / 2, 1, 5 / 2⟩ ∧
      source.averageOver (1 / 2) 2 .satellite = 0 ∧
      transfer.run (source, target) = (.ok (), source, target) := by
  have hEven : Sequence.jerk.EvenlyFrom 0 := by
    intro i hIndex
    change i < 3 at hIndex
    interval_cases i <;> simp [Sequence.jerk]
  have hStep : 0 < Sequence.jerk.interval := by decide
  have hSome : 0 < Sequence.jerk.size := by decide
  obtain ⟨hSucceeds, hMoves, -⟩ := transferBias_moves_average hStep hEven hSome hSome (1 / 2) 2
  have hOk := hSucceeds.mpr ⟨Sequence.jerk.samples[1], Array.getElem_mem _, by decide +kernel⟩
  have hMean : Sequence.jerk.averageOver (1 / 2) 2 .satellite = ⟨3 / 2, 1, 5 / 2⟩ := by
    apply Vec3.ext <;> decide +kernel
  obtain ⟨-, -, hChannels, hAgain⟩ := hMoves hOk
  exact ⟨hOk, hMean, (hChannels .satellite).2.2, hAgain⟩

end Attitude
end Pushbroom
