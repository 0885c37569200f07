import Pushbroom.Proofs.Attitude.Polyline
import Pushbroom.Proofs.Polynomial.Reproduction

namespace Pushbroom
namespace Attitude

/-!
# Cubic interpolation of jitter

In exact arithmetic jitter is interpolated at the times that have two samples on either side, the
sample at the time itself counting as one before it.  The cubic through these four has the
precision attitude of a sample at its time, and it is the cubic that the attitudes are sampled from
when there is one.  The measured attitudes are not read.
-/

/-- What a sample contributes to an interpolated jitter. -/
def Sample.node {α : Type} (sample : Sample α) : α × Vec3 α :=
  (sample.time, sample.precision)

namespace Sequence

/-! ## What is read -/

section Read

variable {α : Type}

theorem firstTime_eq (sequence : Sequence α) :
    sequence.firstTime = match (sequence.samples.map Sample.node)[0]? with
      | some first => .ok first.1
      | none => .error .emptySequence := by
  rw [firstTime, Array.getElem?_map]
  cases sequence.samples[0]? <;> rfl

theorem nodes_congr {left right : Sequence α}
    (hTimes : left.samples.map Sample.time = right.samples.map Sample.time)
    (hPrecision : left.channel .precision = right.channel .precision) :
    left.samples.map Sample.node = right.samples.map Sample.node := by
  have hNodes (sequence : Sequence α) : sequence.samples.map Sample.node =
      (sequence.samples.map Sample.time).zip (sequence.channel .precision) := by
    apply Array.ext <;> simp [Sequence.channel, Sample.node, Sample.channel]
  rw [hNodes, hNodes, hTimes, hPrecision]

variable [Scalar α]

/-- The nodes of the cubic through four samples. -/
def cubicNodes (sequence : Sequence α) (start : ℕ) : List (α × Vec3 α) :=
  (sequence.samples.extract start (start + 4)).toList.map Sample.node

theorem jitter_eq (sequence : Sequence α) (time : α) :
    sequence.jitter time = sequence.positiveInterval >>= fun interval =>
      sequence.firstTime >>= fun first =>
        let start := Scalar.toOffset ((time - first) / interval) - 1
        if start < 0 ∨ sequence.size ≤ start.toNat + 3 then .error (.notEnoughSamples time)
        else .ok (Lagrange.interpolate (sequence.cubicNodes start.toNat) time) := by
  unfold jitter
  refine bind_congr fun interval => ?_
  refine bind_congr fun first => ?_
  dsimp only
  split <;> rfl

/-- Sequences with the same intervals, times and precision attitudes have the same jitter. -/
theorem jitter_congr {left right : Sequence α} (hInterval : left.interval = right.interval)
    (hTimes : left.samples.map Sample.time = right.samples.map Sample.time)
    (hPrecision : left.channel .precision = right.channel .precision) (time : α) :
    left.jitter time = right.jitter time := by
  have hNodes := nodes_congr hTimes hPrecision
  have hSize : left.size = right.size := by
    simpa [Sequence.size] using congrArg Array.size hTimes
  have hCubic (start : ℕ) : left.cubicNodes start = right.cubicNodes start := by
    rw [cubicNodes, cubicNodes, ← Array.toList_map, ← Array.toList_map, Array.map_extract,
      Array.map_extract, hNodes]
  have hFirst : left.firstTime = right.firstTime := by rw [firstTime_eq, firstTime_eq, hNodes]
  have hPositive : left.positiveInterval = right.positiveInterval := by
    rw [positiveInterval, positiveInterval, hInterval]
  simp only [jitter_eq, hPositive, hFirst, hSize, hCubic]

end Read

variable {K : Type} [Field K] [LinearOrder K] [FloorRing K] [IsStrictOrderedRing K]
  {sequence : Sequence K} {first : K}

/-! ## When there is a jitter -/

/-- There are two samples on either side from the second sample on and before the last but one. -/
theorem floor_offset_surrounded_iff (hInterval : 0 < sequence.interval) (time : K) :
    (1 ≤ ⌊(time - first) / sequence.interval⌋ ∧
        ⌊(time - first) / sequence.interval⌋ < (sequence.size : ℤ) - 2) ↔
      first + sequence.interval ≤ time ∧
        time < first + ((sequence.size : K) - 2) * sequence.interval := by
  rw [le_floor_offset_iff hInterval, floor_offset_lt_iff hInterval]
  push_cast
  rw [one_mul]

omit [IsStrictOrderedRing K] in
theorem EvenlyFrom.jitter_eq_of_some (hEven : sequence.EvenlyFrom first)
    (hInterval : 0 < sequence.interval) (hSome : 0 < sequence.size) (time : K) :
    sequence.jitter time =
      if ⌊(time - first) / sequence.interval⌋ - 1 < 0 ∨
          sequence.size ≤ (⌊(time - first) / sequence.interval⌋ - 1).toNat + 3 then
        .error (.notEnoughSamples time)
      else .ok (Lagrange.interpolate
        (sequence.cubicNodes (⌊(time - first) / sequence.interval⌋ - 1).toNat) time) := by
  rw [jitter_eq, positiveInterval, if_pos hInterval, hEven.firstTime_eq hSome]
  rfl

theorem EvenlyFrom.jitter_of_outside (hEven : sequence.EvenlyFrom first)
    (hInterval : 0 < sequence.interval) {time : K}
    (hOutside : ¬(first + sequence.interval ≤ time ∧
      time < first + ((sequence.size : K) - 2) * sequence.interval)) :
    sequence.jitter time =
      .error (if sequence.size = 0 then .emptySequence else .notEnoughSamples time) := by
  rw [← floor_offset_surrounded_iff hInterval] at hOutside
  split
  · rename_i hEmpty
    have hNone : sequence.samples[0]? = none := Array.getElem?_eq_none (Nat.le_of_eq hEmpty)
    rw [jitter_eq, positiveInterval, if_pos hInterval, Sequence.firstTime, hNone]
    rfl
  · rename_i hSome
    rw [hEven.jitter_eq_of_some hInterval (Nat.pos_of_ne_zero hSome), if_pos (by omega)]

/-- Between two samples the cubic goes through them and their neighbours. -/
theorem EvenlyFrom.jitter_of_bracket (hEven : sequence.EvenlyFrom first)
    (hInterval : 0 < sequence.interval) {start : ℕ} (hStop : start + 3 < sequence.samples.size)
    {time : K} (hLow : sequence.samples[start + 1].time ≤ time)
    (hHigh : time < sequence.samples[start + 2].time) :
    sequence.jitter time = .ok (Lagrange.interpolate (sequence.cubicNodes start) time) := by
  have hSize : sequence.size = sequence.samples.size := rfl
  rw [hEven (start + 1) (by omega)] at hLow
  rw [hEven (start + 2) (by omega)] at hHigh
  have hFloor : ⌊(time - first) / sequence.interval⌋ = (start + 1 : ℕ) :=
    (floor_offset_eq_iff hInterval).mpr ⟨hLow, hHigh⟩
  have hStart : (⌊(time - first) / sequence.interval⌋ - 1).toNat = start := by omega
  rw [hEven.jitter_eq_of_some hInterval (by omega), hStart, if_neg (by omega)]

theorem EvenlyFrom.exists_surrounded (hEven : sequence.EvenlyFrom first)
    (hInterval : 0 < sequence.interval) {time : K}
    (hInside : first + sequence.interval ≤ time ∧
      time < first + ((sequence.size : K) - 2) * sequence.interval) :
    ∃ (start : ℕ) (hStop : start + 3 < sequence.samples.size),
      sequence.samples[start + 1].time ≤ time ∧ time < sequence.samples[start + 2].time := by
  obtain ⟨hLow, hHigh⟩ := (floor_offset_surrounded_iff hInterval time).mpr hInside
  obtain ⟨i, hIndex⟩ := Int.eq_ofNat_of_zero_le (zero_le_one.trans hLow)
  -- the first of the four samples is the one before the time's own
  obtain ⟨start, rfl⟩ : ∃ start, i = start + 1 := ⟨i - 1, by omega⟩
  have hStop : start + 3 < sequence.samples.size := by
    have hSize : sequence.size = sequence.samples.size := rfl
    omega
  refine ⟨start, hStop, ?_⟩
  rw [hEven (start + 1) (by omega), hEven (start + 2) (by omega)]
  exact (floor_offset_eq_iff hInterval).mp hIndex

/-! ## The cubic -/

/-- The cubic has the precision attitude of a sample at its time. -/
theorem EvenlyFrom.interpolate_cubicNodes_sample (hEven : sequence.EvenlyFrom first)
    (hInterval : 0 < sequence.interval) {start : ℕ} (hStop : start + 3 < sequence.samples.size)
    {sample : Sample K} (hSample : sample ∈ sequence.samples)
    (hLow : sequence.samples[start + 1].time ≤ sample.time)
    (hHigh : sample.time < sequence.samples[start + 2].time) :
    Lagrange.interpolate (sequence.cubicNodes start) sample.time = sample.precision := by
  rw [hEven (start + 1) (by omega)] at hLow
  rw [hEven (start + 2) (by omega)] at hHigh
  have hStart : first + start * sequence.interval ≤ sample.time :=
    ((evenTime_le_iff hInterval).mpr (Nat.le_succ start)).trans hLow
  have hEnd : sample.time < first + ((start + 4 : ℕ) : K) * sequence.interval :=
    hHigh.trans_le ((evenTime_le_iff hInterval).mpr (by omega))
  exact Lagrange.interpolate_stretch_sample hInterval hEven hSample hStart hEnd

/-- Attitudes sampled from a cubic give that cubic back. -/
theorem EvenlyFrom.coordinate_interpolate_cubicNodes (hEven : sequence.EvenlyFrom first)
    (hInterval : 0 < sequence.interval) {start : ℕ} (hStop : start + 3 < sequence.samples.size)
    {p : Polynomial K} {axis : Axis} (hDegree : p.natDegree ≤ 3)
    (hSampled : ∀ sample ∈ sequence.samples,
      sample.precision.coordinate axis = p.eval sample.time) (time : K) :
    (Lagrange.interpolate (sequence.cubicNodes start) time).coordinate axis = p.eval time :=
  Lagrange.coordinate_interpolate_stretch hInterval hEven hStop (by omega) hSampled time

/-- There is a jitter from the second sample on and before the last but one.  It is the precision
attitude of a sample at its time, and the value of the cubics that the precision attitudes are
sampled from, if they are; the measured attitudes have no part in it. -/
theorem jitter_follows_cubic (hInterval : 0 < sequence.interval)
    (hEven : sequence.EvenlyFrom first) (time : K) :
    ((∃ angles, sequence.jitter time = .ok angles) ↔
      first + sequence.interval ≤ time ∧
        time < first + ((sequence.size : K) - 2) * sequence.interval) ∧
    (¬(first + sequence.interval ≤ time ∧
        time < first + ((sequence.size : K) - 2) * sequence.interval) →
      sequence.jitter time =
        .error (if sequence.size = 0 then .emptySequence else .notEnoughSamples time)) ∧
    (∀ angles, sequence.jitter time = .ok angles →
      (∀ sample ∈ sequence.samples, sample.time = time → angles = sample.precision) ∧
      ∀ p : Axis → Polynomial K, (∀ axis, (p axis).natDegree ≤ 3) →
        (∀ sample ∈ sequence.samples, ∀ axis,
          sample.precision.coordinate axis = (p axis).eval sample.time) →
        ∀ axis, angles.coordinate axis = (p axis).eval time) ∧
    ∀ other : Sequence K, other.interval = sequence.interval →
      other.samples.map Sample.time = sequence.samples.map Sample.time →
      other.channel .precision = sequence.channel .precision →
        other.jitter time = sequence.jitter time := by
  by_cases hInside : first + sequence.interval ≤ time ∧
      time < first + ((sequence.size : K) - 2) * sequence.interval
  · obtain ⟨start, hStop, hLow, hHigh⟩ := hEven.exists_surrounded hInterval hInside
    have hJitter := hEven.jitter_of_bracket hInterval hStop hLow hHigh
    refine ⟨iff_of_true ⟨_, hJitter⟩ hInside, fun hOutside => absurd hInside hOutside, ?_,
      fun other hStep hTimes hPrecision => jitter_congr hStep hTimes hPrecision time⟩
    intro angles hOk
    obtain rfl : Lagrange.interpolate (sequence.cubicNodes start) time = angles :=
      Except.ok.inj (hJitter.symm.trans hOk)
    constructor
    · rintro sample hSample rfl
      exact hEven.interpolate_cubicNodes_sample hInterval hStop hSample hLow hHigh
    · intro p hDegree hSampled axis
      exact hEven.coordinate_interpolate_cubicNodes hInterval hStop (hDegree axis)
        (fun sample hSample => hSampled sample hSample axis) time
  · have hFails := hEven.jitter_of_outside hInterval hInside
    have hNone (angles : Vec3 K) : sequence.jitter time ≠ .ok angles := by
      rw [hFails]
      simp
    exact ⟨iff_of_false (fun ⟨angles, hOk⟩ => hNone angles hOk) hInside, fun _ => hFails,
      fun angles hOk => absurd hOk (hNone angles),
      fun other hStep hTimes hPrecision => jitter_congr hStep hTimes hPrecision time⟩

/-- The polynomials that the precision attitudes of `cube` are sampled from. -/
noncomputable def cubeCurve : Axis → Polynomial ℚ
  | .x => (Polynomial.C 2 * Polynomial.X - Polynomial.C 2) ^ 3
  | .y => Polynomial.C 2 * Polynomial.X - Polynomial.C 2
  | .z => 1

theorem cube_on_curve : ∀ sample ∈ cube.samples, ∀ axis,
    sample.precision.coordinate axis = (cubeCurve axis).eval sample.time := by
  intro sample hSample axis
  obtain ⟨i, -, rfl⟩ : ∃ i ∈ Array.range 5, _ := Array.mem_map.mp hSample
  cases axis <;> simp [cubeCurve, Vec3.coordinate] <;> ring

theorem natDegree_cubeCurve (axis : Axis) : (cubeCurve axis).natDegree ≤ 3 := by
  cases axis with
  | x =>
      rw [cubeCurve]
      compute_degree
  | y =>
      refine le_trans (b := 1) ?_ (by decide)
      rw [cubeCurve]
      compute_degree
  | z => simp [cubeCurve]

/-- Between two samples, at a sample, and at the last sample but one. -/
theorem jitter_follows_cubic_cube :
    (∃ angles, cube.jitter (9 / 4) = .ok angles ∧
      ∀ axis, angles.coordinate axis = (cubeCurve axis).eval (9 / 4)) ∧
    cube.jitter 2 = .ok ⟨8, 2, 1⟩ ∧
    cube.jitter (5 / 2) = .error (.notEnoughSamples (5 / 2)) := by
  have hInterval : 0 < cube.interval := by decide +kernel
  have hTheorem := jitter_follows_cubic hInterval cube_evenlyFrom
  refine ⟨?_, ?_, ?_⟩
  · obtain ⟨angles, hOk⟩ := (hTheorem (9 / 4)).1.mpr (by decide +kernel)
    obtain ⟨-, hCurve⟩ := (hTheorem (9 / 4)).2.2.1 angles hOk
    exact ⟨angles, hOk, hCurve cubeCurve natDegree_cubeCurve cube_on_curve⟩
  · obtain ⟨angles, hOk⟩ := (hTheorem 2).1.mpr (by decide +kernel)
    obtain ⟨hSample, -⟩ := (hTheorem 2).2.2.1 angles hOk
    have hIndex : 2 < cube.samples.size := by decide +kernel
    have hTime : cube.samples[2].time = 2 := by norm_num [cube]
    have hStored : cube.samples[2].precision = ⟨8, 2, 1⟩ := by norm_num [cube]
    rw [hOk, hSample cube.samples[2] (Array.getElem_mem hIndex) hTime, hStored]
  · have hFails := (hTheorem (5 / 2)).2.1 (by decide +kernel)
    rwa [if_neg (by decide +kernel)] at hFails

end Sequence
end Attitude
end Pushbroom
