import Mathlib.Topology.Algebra.Order.Field
import Pushbroom.Proofs.Attitude.BiasWindow
import Pushbroom.Proofs.Attitude.SpanTest
import Pushbroom.Proofs.EvenTimes

namespace Pushbroom
namespace Attitude
namespace Sequence

/-!
# Linear interpolation of an attitude

In exact arithmetic the attitude of a channel is interpolated at every time from the first sample
on and before the last one.  It follows the only function that has the attitude of each sample at
its time and is affine from each sample to the next.  Every such function is continuous, across the
samples too, so nothing jumps where one pair of samples gives way to the next pair.
-/

variable {K : Type} [Field K] [LinearOrder K] [FloorRing K]

/-- A function that has the attitude of every sample at its time and is affine from each sample to
the next, both included. -/
structure Polyline (sequence : Sequence K) (channel : Channel) (f : K → Vec3 K) : Prop where
  at_sample : ∀ i (hIndex : i < sequence.samples.size),
    f sequence.samples[i].time = sequence.samples[i].channel channel
  affine : ∀ i (hNext : i + 1 < sequence.samples.size), ∃ start slope : Vec3 K, ∀ time,
    sequence.samples[i].time ≤ time → time ≤ sequence.samples[i + 1].time →
      f time = start + slope.scale time

/-- The time of the last sample when there are any. -/
def lastTime (sequence : Sequence K) (first : K) : K :=
  first + ((sequence.size - 1 : ℕ) : K) * sequence.interval

/-! ## What interpolation answers -/

variable {sequence : Sequence K} {first : K}

omit [LinearOrder K] [FloorRing K] in
theorem EvenlyFrom.next_time (hEven : sequence.EvenlyFrom first) {i : ℕ}
    (hNext : i + 1 < sequence.samples.size) :
    sequence.samples[i + 1].time = sequence.samples[i].time + sequence.interval := by
  rw [hEven i (Nat.lt_of_succ_lt hNext), hEven (i + 1) hNext]
  push_cast
  ring

variable [IsStrictOrderedRing K]

/-- From the first sample on and before the last one there is a sample on either side. -/
theorem floor_offset_inside_iff (hInterval : 0 < sequence.interval) (time : K) :
    (0 ≤ ⌊(time - first) / sequence.interval⌋ ∧
        ⌊(time - first) / sequence.interval⌋ < ((sequence.size - 1 : ℕ) : ℤ)) ↔
      first ≤ time ∧ time < sequence.lastTime first := by
  rw [le_floor_offset_iff hInterval, floor_offset_lt_iff hInterval, Int.cast_zero, zero_mul,
    add_zero, Int.cast_natCast, lastTime]

theorem passes_iff (hInterval : 0 < sequence.interval) (time : K) :
    sequence.Passes ((time - first) / sequence.interval) ↔
      first ≤ time ∧ time < sequence.lastTime first := by
  rw [← floor_offset_inside_iff hInterval, Passes, Scalar.floor_eq]
  norm_cast
  omega

theorem EvenlyFrom.exists_bracket (hEven : sequence.EvenlyFrom first)
    (hInterval : 0 < sequence.interval) {time : K} (hLow : first ≤ time)
    (hHigh : time < sequence.lastTime first) :
    ∃ (i : ℕ) (hNext : i + 1 < sequence.samples.size),
      sequence.samples[i].time ≤ time ∧ time < sequence.samples[i + 1].time := by
  obtain ⟨hNonneg, hBelow⟩ := (floor_offset_inside_iff hInterval time).mpr ⟨hLow, hHigh⟩
  obtain ⟨i, hIndex⟩ := Int.eq_ofNat_of_zero_le hNonneg
  have hNext : i + 1 < sequence.samples.size := by
    have hSize : sequence.size = sequence.samples.size := rfl
    omega
  refine ⟨i, hNext, ?_⟩
  rw [hEven i (Nat.lt_of_succ_lt hNext), hEven (i + 1) hNext]
  exact (floor_offset_eq_iff hInterval).mp hIndex

theorem EvenlyFrom.interpolate_of_outside (hEven : sequence.EvenlyFrom first)
    (hInterval : 0 < sequence.interval) (hSome : 0 < sequence.size) (channel : Channel) {time : K}
    (hOutside : ¬(first ≤ time ∧ time < sequence.lastTime first)) :
    sequence.interpolate channel time = .error (.timeOutOfRange time) := by
  rw [← passes_iff hInterval, Passes, not_not] at hOutside
  simp only [interpolate, positiveInterval, if_pos hInterval, hEven.firstTime_eq hSome,
    Failure.ok_bind, if_pos hOutside]
  rfl

/-- From the time of a sample on, and before the next one, both are weighed by the time between. -/
theorem EvenlyFrom.interpolate_eq (hEven : sequence.EvenlyFrom first)
    (hInterval : 0 < sequence.interval) (channel : Channel) {i : ℕ}
    (hNext : i + 1 < sequence.samples.size) {time : K} (hLow : sequence.samples[i].time ≤ time)
    (hHigh : time < sequence.samples[i + 1].time) :
    sequence.interpolate channel time =
      .ok ((sequence.samples[i].channel channel).between (sequence.samples[i + 1].channel channel)
        ((time - sequence.samples[i].time) / sequence.interval)) := by
  obtain ⟨sample, hSample, hFirst⟩ := hEven.exists_first (Nat.zero_lt_of_lt hNext)
  rw [hEven i (Nat.lt_of_succ_lt hNext)] at hLow ⊢
  rw [hEven (i + 1) hNext] at hHigh
  have hFloor : ⌊(time - first) / sequence.interval⌋ = i :=
    (floor_offset_eq_iff hInterval).mpr ⟨hLow, hHigh⟩
  have hPasses : sequence.Passes ((time - first) / sequence.interval) := by
    rw [passes_iff hInterval, ← floor_offset_inside_iff hInterval, hFloor]
    have hSize : sequence.size = sequence.samples.size := rfl
    omega
  have hWeight : (time - first) / sequence.interval - ((i : ℤ) : K) =
      (time - (first + i * sequence.interval)) / sequence.interval := by
    rw [Int.cast_natCast, ← sub_sub, sub_div _ (i * sequence.interval),
      mul_div_cancel_right₀ _ hInterval.ne']
  rw [interpolate_of_passes hInterval hSample channel (by rwa [hFirst]), hFirst, attitudeFrom,
    Scalar.floor_eq, hFloor, hWeight]
  simp only [Scalar.toPosition_intCast, Int.toNat_natCast,
    sampleAt_of_lt (Nat.lt_of_succ_lt hNext), sampleAt_of_lt hNext, Failure.ok_bind]
  rfl

/-! ## The polyline -/

omit [IsStrictOrderedRing K] in
/-- Between two samples a polyline weighs both by the time between. -/
theorem Polyline.eq_between {channel : Channel} {f : K → Vec3 K}
    (hPolyline : sequence.Polyline channel f) (hEven : sequence.EvenlyFrom first)
    (hInterval : 0 < sequence.interval) {i : ℕ} (hNext : i + 1 < sequence.samples.size) {time : K}
    (hLow : sequence.samples[i].time ≤ time) (hHigh : time ≤ sequence.samples[i + 1].time) :
    f time = (sequence.samples[i].channel channel).between (sequence.samples[i + 1].channel channel)
      ((time - sequence.samples[i].time) / sequence.interval) := by
  obtain ⟨start, slope, hAffine⟩ := hPolyline.affine i hNext
  -- an affine function is known from its values at both samples
  have hBefore := hPolyline.at_sample i (Nat.lt_of_succ_lt hNext)
  have hAfter := hPolyline.at_sample (i + 1) hNext
  rw [hAffine _ le_rfl (hLow.trans hHigh)] at hBefore
  rw [hAffine _ (hLow.trans hHigh) le_rfl, hEven.next_time hNext] at hAfter
  rw [hAffine time hLow hHigh, ← hBefore, ← hAfter]
  apply Vec3.ext_coordinate
  intro axis
  simp only [Vec3.between, Vec3.coordinate_add, Vec3.coordinate_scale]
  field_simp
  ring

/-- The interpolated attitude, continued by the attitude of the last sample. -/
def continued (sequence : Sequence K) (channel : Channel) (last : Vec3 K) (time : K) : Vec3 K :=
  (sequence.interpolate channel time).toOption.getD last

theorem EvenlyFrom.continued_at_sample (hEven : sequence.EvenlyFrom first)
    (hInterval : 0 < sequence.interval) (channel : Channel) {i : ℕ}
    (hIndex : i < sequence.samples.size) :
    sequence.continued channel
        (sequence.samples[sequence.samples.size - 1].channel channel) sequence.samples[i].time =
      sequence.samples[i].channel channel := by
  by_cases hNext : i + 1 < sequence.samples.size
  · have hLater : sequence.samples[i].time < sequence.samples[i + 1].time := by
      rw [hEven.next_time hNext]
      exact lt_add_of_pos_right _ hInterval
    rw [continued, hEven.interpolate_eq hInterval channel hNext le_rfl hLater]
    apply Vec3.ext_coordinate
    intro axis
    simp [Except.toOption, Vec3.between]
  · -- the last sample is where interpolation ends
    obtain rfl : i = sequence.samples.size - 1 := by omega
    have hOutside : ¬(first ≤ sequence.samples[sequence.samples.size - 1].time ∧
        sequence.samples[sequence.samples.size - 1].time < sequence.lastTime first) := by
      rw [hEven _ hIndex]
      exact fun hInside => lt_irrefl _ hInside.2
    rw [continued,
      hEven.interpolate_of_outside hInterval (Nat.zero_lt_of_lt hIndex) channel hOutside]
    rfl

theorem EvenlyFrom.polyline_continued (hEven : sequence.EvenlyFrom first)
    (hInterval : 0 < sequence.interval) (hSome : 0 < sequence.samples.size) (channel : Channel) :
    sequence.Polyline channel (sequence.continued channel
      (sequence.samples[sequence.samples.size - 1].channel channel)) where
  at_sample _ hIndex := hEven.continued_at_sample hInterval channel hIndex
  affine := by
    intro i hNext
    let before := sequence.samples[i].channel channel
    let slope := (sequence.samples[i + 1].channel channel - before).shrink sequence.interval
    refine ⟨before - slope.scale sequence.samples[i].time, slope, fun time hLow hHigh => ?_⟩
    rcases hHigh.lt_or_eq with hBefore | rfl
    · rw [continued, hEven.interpolate_eq hInterval channel hNext hLow hBefore]
      apply Vec3.ext_coordinate
      intro axis
      simp only [Except.toOption, Option.getD_some, Vec3.between, Vec3.coordinate_add,
        Vec3.coordinate_sub, Vec3.coordinate_scale, Vec3.coordinate_shrink, slope, before]
      ring
    · rw [hEven.continued_at_sample hInterval channel hNext, hEven.next_time hNext]
      apply Vec3.ext_coordinate
      intro axis
      simp only [Vec3.coordinate_add, Vec3.coordinate_sub, Vec3.coordinate_scale,
        Vec3.coordinate_shrink, slope, before]
      field_simp
      ring

/-- Interpolation follows every polyline. -/
theorem Polyline.interpolate_eq {channel : Channel} {f : K → Vec3 K}
    (hPolyline : sequence.Polyline channel f) (hEven : sequence.EvenlyFrom first)
    (hInterval : 0 < sequence.interval) {time : K} (hLow : first ≤ time)
    (hHigh : time < sequence.lastTime first) :
    sequence.interpolate channel time = .ok (f time) := by
  obtain ⟨i, hNext, hStart, hStop⟩ := hEven.exists_bracket hInterval hLow hHigh
  rw [hEven.interpolate_eq hInterval channel hNext hStart hStop,
    hPolyline.eq_between hEven hInterval hNext hStart hStop.le]

/-- There is only one polyline. -/
theorem Polyline.unique {channel : Channel} {f g : K → Vec3 K}
    (hFirst : sequence.Polyline channel f) (hSecond : sequence.Polyline channel g)
    (hEven : sequence.EvenlyFrom first) (hInterval : 0 < sequence.interval)
    (hSome : 0 < sequence.samples.size) {time : K} (hLow : first ≤ time)
    (hHigh : time ≤ sequence.lastTime first) : f time = g time := by
  rcases hHigh.lt_or_eq with hBefore | rfl
  · have hSame := hFirst.interpolate_eq hEven hInterval hLow hBefore
    rw [hSecond.interpolate_eq hEven hInterval hLow hBefore] at hSame
    exact (Except.ok.inj hSame).symm
  · have hLast : sequence.lastTime first =
        sequence.samples[sequence.samples.size - 1].time := (hEven _ _).symm
    rw [hLast, hFirst.at_sample, hSecond.at_sample]

omit [IsStrictOrderedRing K] in
/-- Attitudes sampled from an affine function lie on it. -/
theorem polyline_of_affine {channel : Channel} {start slope : Vec3 K}
    (hSampled : ∀ sample ∈ sequence.samples,
      sample.channel channel = start + slope.scale sample.time) :
    sequence.Polyline channel fun time => start + slope.scale time where
  at_sample _ _ := (hSampled _ (Array.getElem_mem _)).symm
  affine _ _ := ⟨start, slope, fun _ _ _ => rfl⟩

section Continuity

variable [TopologicalSpace K] [OrderTopology K] {channel : Channel} {f : K → Vec3 K}

theorem Polyline.continuousOn_piece (hPolyline : sequence.Polyline channel f) (axis : Axis)
    {i : ℕ} (hNext : i + 1 < sequence.samples.size) :
    ContinuousOn (fun time => (f time).coordinate axis)
      (Set.Icc sequence.samples[i].time sequence.samples[i + 1].time) := by
  obtain ⟨start, slope, hAffine⟩ := hPolyline.affine i hNext
  have hContinuous : Continuous fun time : K =>
      start.coordinate axis + slope.coordinate axis * time := by fun_prop
  refine hContinuous.continuousOn.congr fun time hTime => ?_
  rw [hAffine time hTime.1 hTime.2, Vec3.coordinate_add, Vec3.coordinate_scale]

/-- The pieces of a polyline meet at the samples. -/
theorem Polyline.continuousOn (hPolyline : sequence.Polyline channel f)
    (hEven : sequence.EvenlyFrom first) (hInterval : 0 < sequence.interval) (axis : Axis) :
    ContinuousOn (fun time => (f time).coordinate axis)
      (Set.Icc first (sequence.lastTime first)) := by
  refine continuousOn_of_pieces hInterval fun i hIndex => ?_
  have hNext : i + 1 < sequence.samples.size := by
    have hSize : sequence.size = sequence.samples.size := rfl
    omega
  have hPiece := hPolyline.continuousOn_piece axis hNext
  rwa [hEven i (Nat.lt_of_succ_lt hNext), hEven (i + 1) hNext] at hPiece

end Continuity

/-- The attitude of a channel is interpolated from the first sample on and before the last one,
and at no other time.  There it follows the polyline of the samples, which is continuous and the
only one, and so any affine function that the attitudes are sampled from. -/
theorem interpolate_follows_polyline [TopologicalSpace K] [OrderTopology K]
    (hInterval : 0 < sequence.interval) (hEven : sequence.EvenlyFrom first)
    (hSome : 0 < sequence.size) (channel : Channel) :
    (∀ time, (∃ attitude, sequence.interpolate channel time = .ok attitude) ↔
      first ≤ time ∧ time < sequence.lastTime first) ∧
    (∀ time, ¬(first ≤ time ∧ time < sequence.lastTime first) →
      sequence.interpolate channel time = .error (.timeOutOfRange time)) ∧
    (∃ f, sequence.Polyline channel f ∧
      (∀ time, first ≤ time → time < sequence.lastTime first →
        sequence.interpolate channel time = .ok (f time)) ∧
      (∀ axis, ContinuousOn (fun time => (f time).coordinate axis)
        (Set.Icc first (sequence.lastTime first))) ∧
      ∀ g, sequence.Polyline channel g →
        ∀ time, first ≤ time → time ≤ sequence.lastTime first → g time = f time) ∧
    ∀ start slope : Vec3 K,
      (∀ sample ∈ sequence.samples, sample.channel channel = start + slope.scale sample.time) →
      ∀ time, first ≤ time → time < sequence.lastTime first →
        sequence.interpolate channel time = .ok (start + slope.scale time) := by
  have hPolyline := hEven.polyline_continued hInterval hSome channel
  refine ⟨fun time => ?_, fun time hOutside =>
      hEven.interpolate_of_outside hInterval hSome channel hOutside,
    ⟨_, hPolyline, fun time hLow hHigh => hPolyline.interpolate_eq hEven hInterval hLow hHigh,
      hPolyline.continuousOn hEven hInterval, fun g hOther time hLow hHigh =>
        hOther.unique hPolyline hEven hInterval hSome hLow hHigh⟩,
    fun start slope hSampled time hLow hHigh =>
      (polyline_of_affine hSampled).interpolate_eq hEven hInterval hLow hHigh⟩
  constructor
  · rintro ⟨attitude, hOk⟩
    by_contra hOutside
    rw [hEven.interpolate_of_outside hInterval hSome channel hOutside] at hOk
    cases hOk
  · rintro ⟨hLow, hHigh⟩
    exact ⟨_, hPolyline.interpolate_eq hEven hInterval hLow hHigh⟩

/-- Five samples, half a second apart, of a cube on the precision channel. -/
def cube : Sequence ℚ where
  epoch := Epoch.default
  interval := 1 / 2
  samples := (Array.range 5).map fun (i : ℕ) => ⟨1 + i * (1 / 2), ⟨0, i, i⟩, ⟨i ^ 3, i, 1⟩⟩

theorem cube_evenlyFrom : cube.EvenlyFrom 1 := by
  intro i hIndex
  simp [cube]

/-- Halfway between two samples, and at the last one. -/
theorem interpolate_follows_polyline_cube :
    cube.interpolate .precision (9 / 4) = .ok ⟨35 / 2, 5 / 2, 1⟩ ∧
      cube.interpolate .precision 3 = .error (.timeOutOfRange 3) := by
  have hInterval : 0 < cube.interval := by decide +kernel
  obtain ⟨-, hFails, ⟨f, hPolyline, hFollows, -⟩, -⟩ :=
    interpolate_follows_polyline hInterval cube_evenlyFrom (by decide +kernel) .precision
  have hValue : f (9 / 4) = ⟨35 / 2, 5 / 2, 1⟩ := by
    rw [hPolyline.eq_between cube_evenlyFrom hInterval (i := 2) (by decide +kernel)
      (by decide +kernel) (by decide +kernel)]
    apply Vec3.ext <;> decide +kernel
  rw [hFollows (9 / 4) (by decide +kernel) (by decide +kernel), hValue]
  exact ⟨rfl, hFails 3 (by decide +kernel)⟩

end Sequence
end Attitude
end Pushbroom
