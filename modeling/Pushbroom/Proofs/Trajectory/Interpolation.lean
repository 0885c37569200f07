import Pushbroom.Proofs.Polynomial.Reproduction
import Pushbroom.Proofs.UndefinedTimes

namespace Pushbroom
namespace Trajectory

/-!
# States between samples

In exact arithmetic a trajectory of several samples has a state at every time from its first to its
last sample, both included.  The samples that it is interpolated through, up to four, have the time
between them, wherever it is.  The state at the time of a sample is the one of the sample, and
positions and velocities that are sampled from polynomials follow these as long as they do not need
more samples.
-/

variable {K : Type} [Field K]

/-- The samples are taken one interval apart, from `first` on. -/
def EvenlyFrom (first : K) (trajectory : Trajectory K) : Prop :=
  ∀ i (hIndex : i < trajectory.samples.size),
    trajectory.samples[i].time = first + i * trajectory.interval

/-- The time of the last sample. -/
def lastTime (trajectory : Trajectory K) (first : K) : K :=
  first + ((trajectory.size - 1 : ℕ) : K) * trajectory.interval

/-- The number of samples that a state is interpolated through. -/
def nodeCount (trajectory : Trajectory K) : ℕ :=
  min maxNodes trajectory.size

variable {trajectory : Trajectory K} {first : K}

omit [Field K] in
theorem two_le_nodeCount (hSeveral : 2 ≤ trajectory.size) : 2 ≤ trajectory.nodeCount :=
  Nat.le_min.mpr ⟨by decide, hSeveral⟩

theorem EvenlyFrom.firstTime_eq (hEven : trajectory.EvenlyFrom first)
    (hSeveral : 2 ≤ trajectory.size) (time : K) : trajectory.firstTime time = .ok first := by
  have hSome : 0 < trajectory.samples.size := Nat.zero_lt_of_lt hSeveral
  refine firstTime_eq_ok_iff.mpr ⟨hSeveral, ?_⟩
  rw [Array.getElem?_eq_getElem hSome, Option.map_some, hEven 0 hSome, Nat.cast_zero, zero_mul,
    add_zero]

variable [LinearOrder K] [FloorRing K]

/-! ## The samples around a time -/

/-- The index of the first sample that the state at a time is interpolated through. -/
def nodeStart (trajectory : Trajectory K) (first time : K) : ℕ :=
  (nodeRange trajectory.size ((time - first) / trajectory.interval)).1

/-- Around the sample at an index and the next one, if there is one, there are enough samples. -/
theorem nodeRange_surrounds {size i : ℕ} (hSeveral : 2 ≤ size) (hIndex : i < size) {offset : K}
    (hFloor : ⌊offset⌋ = i) :
    (nodeRange size offset).1 + min maxNodes size ≤ size ∧
      (nodeRange size offset).1 ≤ i ∧ i < (nodeRange size offset).1 + min maxNodes size ∧
      (i + 1 < size → i + 1 < (nodeRange size offset).1 + min maxNodes size) := by
  have hPosition : Scalar.toPosition offset = i := by
    change ⌊offset⌋.toNat = i
    rw [hFloor, Int.toNat_natCast]
  -- the start is cut off at zero, and moved back where the samples end
  simp only [nodeRange, hPosition, maxNodes]
  omega

variable [IsStrictOrderedRing K]

/-- The span test lets the times through from the first sample to the last. -/
theorem EvenlyFrom.stateAt_eq (hEven : trajectory.EvenlyFrom first)
    (hInterval : 0 < trajectory.interval) (hSeveral : 2 ≤ trajectory.size) (time : K)
    (frame : Frame) :
    trajectory.stateAt time frame =
      if first ≤ time ∧ time ≤ trajectory.lastTime first then
        .ok (trajectory.interpolated (trajectory.nodeStart first time) trajectory.nodeCount time
          frame)
      else .error (.timeOutOfRange time) := by
  have hRejected : ((time - first) / trajectory.interval < 0 ∨
      ((trajectory.size - 1 : ℕ) : K) < (time - first) / trajectory.interval) ↔
        ¬(first ≤ time ∧ time ≤ trajectory.lastTime first) := by
    rw [div_lt_iff₀ hInterval, zero_mul, sub_neg, lt_div_iff₀ hInterval, lt_sub_iff_add_lt',
      not_and_or, not_le, not_le, lastTime]
  rw [Trajectory.stateAt_eq, if_neg hInterval.not_ge, hEven.firstTime_eq hSeveral, Failure.ok_bind]
  by_cases hInside : first ≤ time ∧ time ≤ trajectory.lastTime first
  · rw [if_pos hInside, if_neg (hRejected.not_left.mpr hInside)]
    rfl
  · rw [if_neg hInside, if_pos (hRejected.mpr hInside)]

/-- The samples of a state have its time between them. -/
theorem nodeStart_brackets (hInterval : 0 < trajectory.interval)
    (hSeveral : 2 ≤ trajectory.size) {time : K} (hLow : first ≤ time)
    (hHigh : time ≤ trajectory.lastTime first) :
    trajectory.nodeStart first time + trajectory.nodeCount ≤ trajectory.size ∧
      first + trajectory.nodeStart first time * trajectory.interval ≤ time ∧
      time ≤ first +
        ((trajectory.nodeStart first time + trajectory.nodeCount - 1 : ℕ) : K) *
          trajectory.interval := by
  have hNonneg : 0 ≤ ⌊(time - first) / trajectory.interval⌋ := by
    rw [le_floor_offset_iff hInterval, Int.cast_zero, zero_mul, add_zero]
    exact hLow
  obtain ⟨i, hFloor⟩ := Int.eq_ofNat_of_zero_le hNonneg
  obtain ⟨hStart, hStop⟩ := (floor_offset_eq_iff hInterval).mp hFloor
  have hIndex : i < trajectory.size := by
    have hLast : i ≤ trajectory.size - 1 := (evenTime_le_iff hInterval).mp (hStart.trans hHigh)
    omega
  obtain ⟨hFits, hBefore, hAfter, hNext⟩ := nodeRange_surrounds hSeveral hIndex hFloor
  refine ⟨hFits, ((evenTime_le_iff hInterval).mpr hBefore).trans hStart, ?_⟩
  by_cases hLater : i + 1 < trajectory.size
  · have hRange := hNext hLater
    exact hStop.le.trans ((evenTime_le_iff hInterval).mpr (Nat.le_sub_one_of_lt hRange))
  · -- only the last sample has none after it, and it is the last of the range as well
    refine hHigh.trans ((evenTime_le_iff hInterval).mpr ?_)
    rw [nodeCount, nodeStart]
    omega

theorem EvenlyFrom.exists_bracket (hEven : trajectory.EvenlyFrom first)
    (hInterval : 0 < trajectory.interval) (hSeveral : 2 ≤ trajectory.size) {time : K}
    (hLow : first ≤ time) (hHigh : time ≤ trajectory.lastTime first) :
    ∃ earlier later,
      trajectory.samples[trajectory.nodeStart first time]? = some earlier ∧
      trajectory.samples[trajectory.nodeStart first time + trajectory.nodeCount - 1]? =
        some later ∧
      earlier.time ≤ time ∧ time ≤ later.time := by
  obtain ⟨hFits, hFrom, hTo⟩ := nodeStart_brackets hInterval hSeveral hLow hHigh
  have hCount := two_le_nodeCount hSeveral
  have hSize : trajectory.size = trajectory.samples.size := rfl
  have hStart : trajectory.nodeStart first time < trajectory.samples.size := by omega
  have hStop : trajectory.nodeStart first time + trajectory.nodeCount - 1 <
      trajectory.samples.size := by omega
  refine ⟨_, _, Array.getElem?_eq_getElem hStart, Array.getElem?_eq_getElem hStop, ?_, ?_⟩
  · rw [hEven _ hStart]
    exact hFrom
  · rw [hEven _ hStop]
    exact hTo

/-! ## The state -/

section State

variable (hEven : trajectory.EvenlyFrom first) (hInterval : 0 < trajectory.interval)
  {start count : ℕ}

include hEven hInterval

/-- The state through the samples around a time is the state of the sample at that time. -/
theorem EvenlyFrom.interpolated_sample {sample : Sample K} (hSample : sample ∈ trajectory.samples)
    (hLow : first + start * trajectory.interval ≤ sample.time)
    (hHigh : sample.time < first + ((start + count : ℕ) : K) * trajectory.interval)
    (frame : Frame) :
    trajectory.interpolated start count sample.time frame = sample.state frame :=
  State.ext (Lagrange.interpolate_stretch_sample hInterval hEven hSample hLow hHigh)
    (Lagrange.interpolate_stretch_sample hInterval hEven hSample hLow hHigh)

variable {p : Polynomial K} {axis : Axis} {frame : Frame}
  (hFits : start + count ≤ trajectory.size) (hDegree : p.natDegree < count)

include hFits hDegree

theorem EvenlyFrom.position_interpolated
    (hSampled : ∀ sample ∈ trajectory.samples,
      (sample.state frame).position.coordinate axis = p.eval sample.time) (time : K) :
    (trajectory.interpolated start count time frame).position.coordinate axis = p.eval time :=
  Lagrange.coordinate_interpolate_stretch hInterval hEven hFits (by omega) hSampled time

theorem EvenlyFrom.velocity_interpolated
    (hSampled : ∀ sample ∈ trajectory.samples,
      (sample.state frame).velocity.coordinate axis = p.eval sample.time) (time : K) :
    (trajectory.interpolated start count time frame).velocity.coordinate axis = p.eval time :=
  Lagrange.coordinate_interpolate_stretch hInterval hEven hFits (by omega) hSampled time

end State

/-- There is a state from the first sample to the last.  The samples it is interpolated through have
the time between them.  It is the state of a sample at its time, and its position and its velocity
have the values of the polynomials that they are sampled from, if they are, and if the samples are
enough for their degree. -/
theorem stateAt_follows_samples (hInterval : 0 < trajectory.interval)
    (hEven : trajectory.EvenlyFrom first) (hSeveral : 2 ≤ trajectory.size) (time : K)
    (frame : Frame) :
    ((∃ state, trajectory.stateAt time frame = .ok state) ↔
      first ≤ time ∧ time ≤ trajectory.lastTime first) ∧
    (¬(first ≤ time ∧ time ≤ trajectory.lastTime first) →
      trajectory.stateAt time frame = .error (.timeOutOfRange time)) ∧
    ∀ state, trajectory.stateAt time frame = .ok state →
      state = trajectory.interpolated (trajectory.nodeStart first time) trajectory.nodeCount time
        frame ∧
      (∃ earlier later,
        trajectory.samples[trajectory.nodeStart first time]? = some earlier ∧
        trajectory.samples[trajectory.nodeStart first time + trajectory.nodeCount - 1]? =
          some later ∧
        earlier.time ≤ time ∧ time ≤ later.time) ∧
      (∀ sample ∈ trajectory.samples, sample.time = time → state = sample.state frame) ∧
      ∀ p : Axis → Polynomial K, (∀ axis, (p axis).natDegree ≤ trajectory.nodeCount - 1) →
        ((∀ sample ∈ trajectory.samples, ∀ axis,
            (sample.state frame).position.coordinate axis = (p axis).eval sample.time) →
          ∀ axis, state.position.coordinate axis = (p axis).eval time) ∧
        ((∀ sample ∈ trajectory.samples, ∀ axis,
            (sample.state frame).velocity.coordinate axis = (p axis).eval sample.time) →
          ∀ axis, state.velocity.coordinate axis = (p axis).eval time) := by
  have hState := hEven.stateAt_eq hInterval hSeveral time frame
  by_cases hInside : first ≤ time ∧ time ≤ trajectory.lastTime first
  · rw [if_pos hInside] at hState
    refine ⟨iff_of_true ⟨_, hState⟩ hInside, fun hOutside => absurd hInside hOutside, ?_⟩
    intro state hOk
    obtain rfl := Except.ok.inj (hState.symm.trans hOk)
    obtain ⟨hFits, hLow, hHigh⟩ := nodeStart_brackets hInterval hSeveral hInside.1 hInside.2
    have hCount := two_le_nodeCount hSeveral
    refine ⟨rfl, hEven.exists_bracket hInterval hSeveral hInside.1 hInside.2, ?_, ?_⟩
    · rintro sample hSample rfl
      exact hEven.interpolated_sample hInterval hSample hLow
        (hHigh.trans_lt ((evenTime_lt_iff hInterval).mpr (by omega))) frame
    · intro p hDegree
      have hEnough (axis : Axis) : (p axis).natDegree < trajectory.nodeCount := by
        have hBound := hDegree axis
        omega
      constructor
      · intro hSampled axis
        exact hEven.position_interpolated hInterval hFits (hEnough axis)
          (fun sample hSample => hSampled sample hSample axis) time
      · intro hSampled axis
        exact hEven.velocity_interpolated hInterval hFits (hEnough axis)
          (fun sample hSample => hSampled sample hSample axis) time
  · rw [if_neg hInside] at hState
    have hNone (state : State K) : trajectory.stateAt time frame ≠ .ok state := by
      rw [hState]
      simp
    exact ⟨iff_of_false (fun ⟨state, hOk⟩ => hNone state hOk) hInside, fun _ => hState,
      fun state hOk => absurd hOk (hNone state)⟩

/-- Five states, two seconds apart, of a parabola in the inertial frame. -/
def parabola : Trajectory ℚ where
  epoch := Epoch.default
  interval := 2
  samples := (Array.range 5).map fun (i : ℕ) =>
    ⟨10 + i * 2, ⟨⟨(10 + i * 2) ^ 2, 1, 0⟩, ⟨2 * (10 + i * 2), 0, 0⟩⟩, ⟨⟨i, i, i⟩, ⟨1, 1, 1⟩⟩⟩

theorem parabola_evenlyFrom : parabola.EvenlyFrom 10 := by
  intro i hIndex
  simp [parabola]

/-- The polynomials that the inertial positions of `parabola` are sampled from. -/
noncomputable def parabolaCurve : Axis → Polynomial ℚ
  | .x => Polynomial.X ^ 2
  | .y => 1
  | .z => 0

theorem parabola_on_curve : ∀ sample ∈ parabola.samples, ∀ axis,
    (sample.state .inertial).position.coordinate axis =
      (parabolaCurve axis).eval sample.time := by
  intro sample hSample axis
  obtain ⟨i, -, rfl⟩ : ∃ i ∈ Array.range 5, _ := Array.mem_map.mp hSample
  cases axis <;> simp [parabolaCurve, Vec3.coordinate, Sample.state]

theorem natDegree_parabolaCurve (axis : Axis) :
    (parabolaCurve axis).natDegree ≤ parabola.nodeCount - 1 := by
  have hCount : parabola.nodeCount - 1 = 3 := by decide +kernel
  rw [hCount]
  cases axis <;> simp [parabolaCurve]

/-- Between the first two samples, at the last sample, and after it. -/
theorem stateAt_follows_samples_parabola :
    (∃ state, parabola.stateAt 11 .inertial = .ok state ∧
      ∀ axis, state.position.coordinate axis = (parabolaCurve axis).eval 11) ∧
    parabola.stateAt 18 .earthFixed = .ok ⟨⟨4, 4, 4⟩, ⟨1, 1, 1⟩⟩ ∧
    parabola.stateAt 19 .earthFixed = .error (.timeOutOfRange 19) := by
  have hInterval : 0 < parabola.interval := by decide +kernel
  have hTheorem := stateAt_follows_samples hInterval parabola_evenlyFrom (by decide +kernel)
  refine ⟨?_, ?_, ?_⟩
  · obtain ⟨state, hOk⟩ := (hTheorem 11 .inertial).1.mpr (by decide +kernel)
    obtain ⟨-, -, -, hCurve⟩ := (hTheorem 11 .inertial).2.2 state hOk
    exact ⟨state, hOk, (hCurve parabolaCurve natDegree_parabolaCurve).1 parabola_on_curve⟩
  · obtain ⟨state, hOk⟩ := (hTheorem 18 .earthFixed).1.mpr (by decide +kernel)
    obtain ⟨-, -, hSample, -⟩ := (hTheorem 18 .earthFixed).2.2 state hOk
    have hIndex : 4 < parabola.samples.size := by decide +kernel
    have hTime : parabola.samples[4].time = 18 := by norm_num [parabola]
    have hStored : parabola.samples[4].state .earthFixed = ⟨⟨4, 4, 4⟩, ⟨1, 1, 1⟩⟩ := by
      norm_num [parabola, Sample.state]
    rw [hOk, hSample parabola.samples[4] (Array.getElem_mem hIndex) hTime, hStored]
  · exact (hTheorem 19 .earthFixed).2.1 (by decide +kernel)

end Trajectory
end Pushbroom
