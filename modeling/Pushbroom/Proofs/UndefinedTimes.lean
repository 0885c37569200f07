import Pushbroom.Instrument.Mirror
import Pushbroom.Proofs.Scalar.NotANumber
import Pushbroom.Proofs.Trajectory

namespace Pushbroom

/-!
# Times that are no numbers

A state of a trajectory and an angle of the mirror are looked up after tests that reject a time
outside the samples, and a state also after one that rejects an interval at or below zero.  No
lookup misses the samples.  The tests let a time through that is no number, though, and an
interval that is none.
-/

/-! ## Trajectories -/

namespace Trajectory

section Lookup

variable {α : Type}

theorem firstTime_eq_ok_iff {trajectory : Trajectory α} {time first : α} :
    trajectory.firstTime time = .ok first ↔
      1 < trajectory.size ∧ trajectory.samples[0]?.map Sample.time = some first := by
  unfold firstTime
  split
  · split
    · simp_all
    · simp_all
  · simp_all

theorem firstTime_ne_indexOutOfRange (trajectory : Trajectory α) (time : α) (index size : ℕ) :
    trajectory.firstTime time ≠ .error (.indexOutOfRange index size) := by
  unfold firstTime
  split
  · split <;> simp
  · simp

theorem exists_firstTime {trajectory : Trajectory α} (hSeveral : 1 < trajectory.size) (time : α) :
    ∃ first, trajectory.firstTime time = .ok first := by
  have hSome := Array.getElem?_eq_getElem (Nat.lt_of_succ_lt hSeveral : 0 < trajectory.samples.size)
  exact ⟨_, firstTime_eq_ok_iff.mpr ⟨hSeveral, by rw [hSome]; rfl⟩⟩

variable [Scalar α]

theorem stateAt_ne_indexOutOfRange (trajectory : Trajectory α) (time : α) (frame : Frame)
    (index size : ℕ) : trajectory.stateAt time frame ≠ .error (.indexOutOfRange index size) := by
  rw [stateAt_eq]
  split
  · simp
  · intro hFails
    obtain hFirst | ⟨first, _, hRest⟩ := Failure.bind_eq_error.mp hFails
    · exact firstTime_ne_indexOutOfRange trajectory time index size hFirst
    · split at hRest <;> cases hRest

/-- There is a state when the interval and the offset from the first of several samples are not
rejected. -/
theorem exists_stateAt_iff {trajectory : Trajectory α} {time : α} {frame : Frame} :
    (∃ state, trajectory.stateAt time frame = .ok state) ↔
      ¬trajectory.interval ≤ 0 ∧ ∃ first, trajectory.firstTime time = .ok first ∧
        ¬((time - first) / trajectory.interval < 0 ∨
          ((trajectory.size - 1 : ℕ) : α) < (time - first) / trajectory.interval) := by
  rw [stateAt_eq]
  by_cases hInterval : trajectory.interval ≤ 0
  · simp [hInterval]
  · rw [if_neg hInterval]
    constructor
    · rintro ⟨state, hState⟩
      obtain ⟨first, hFirst, hRest⟩ := Failure.bind_eq_ok.mp hState
      refine ⟨hInterval, first, hFirst, fun hRejected => ?_⟩
      rw [if_pos hRejected] at hRest
      cases hRest
    · rintro ⟨-, first, hFirst, hPasses⟩
      exact ⟨_, Failure.bind_eq_ok.mpr ⟨first, hFirst, if_neg hPasses⟩⟩

end Lookup

variable {trajectory : Trajectory Float} {time : Float} {frame : Frame}

/-- A state comes from several samples, at an interval that is positive or no number. -/
theorem of_exists_stateAt (hState : ∃ state, trajectory.stateAt time frame = .ok state) :
    1 < trajectory.size ∧ (0 < trajectory.interval ∨ trajectory.interval.isNaN = true) := by
  obtain ⟨hInterval, first, hFirst, -⟩ := exists_stateAt_iff.mp hState
  exact ⟨(firstTime_eq_ok_iff.mp hFirst).1, (Binary64.not_le_zero_iff _).mp hInterval⟩

/-- Nothing but the number of samples and the interval stands between a time or an interval that
is no number and a state. -/
theorem exists_stateAt_of_isNaN (hNaN : time.isNaN = true ∨ trajectory.interval.isNaN = true) :
    (∃ state, trajectory.stateAt time frame = .ok state) ↔
      1 < trajectory.size ∧ (0 < trajectory.interval ∨ trajectory.interval.isNaN = true) := by
  refine ⟨of_exists_stateAt, ?_⟩
  rintro ⟨hSeveral, hInterval⟩
  obtain ⟨first, hFirst⟩ := exists_firstTime hSeveral time
  have hOffset : ((time - first) / trajectory.interval).isNaN = true :=
    Binary64.isNaN_div (hNaN.imp_left fun hTime => Binary64.isNaN_sub (Or.inl hTime))
  refine exists_stateAt_iff.mpr ⟨(Binary64.not_le_zero_iff _).mpr hInterval, first, hFirst, ?_⟩
  rintro (hLow | hHigh)
  · exact Binary64.not_lt_of_isNaN (Or.inl hOffset) hLow
  · exact Binary64.not_lt_of_isNaN (Or.inr hOffset) hHigh

end Trajectory

/-! ## The mirror -/

namespace Mirror

section Lookup

variable {α : Type}

theorem sampleAt_of_lt {mirror : Mirror α} {index : ℕ} (hIndex : index < mirror.samples.size) :
    mirror.sampleAt index = .ok mirror.samples[index] := by
  simp only [sampleAt, Array.getElem?_eq_getElem hIndex]

theorem ends_of_empty {mirror : Mirror α} (hEmpty : mirror.samples.size = 0) :
    mirror.ends = .error .emptySequence := by
  simp [ends, Array.size_eq_zero_iff.mp hEmpty]

theorem ends_of_pos {mirror : Mirror α} (hSome : 0 < mirror.samples.size) :
    mirror.ends = .ok (mirror.samples[0], mirror.samples[mirror.samples.size - 1]) := by
  have hLast : mirror.samples.size - 1 < mirror.samples.size := Nat.sub_one_lt hSome.ne'
  simp only [ends, Array.back?, Array.getElem?_eq_getElem hSome, Array.getElem?_eq_getElem hLast]

variable [Scalar α]

/-- With samples, there is an angle at every time that is not rejected. -/
theorem exists_angleAt_eq {mirror : Mirror α} (hSome : 0 < mirror.samples.size) (time : α) :
    ∃ angle, mirror.angleAt time =
      if time < mirror.samples[0].time ∨ mirror.samples[mirror.samples.size - 1].time < time then
        .error (.timeOutOfRange time)
      else .ok angle := by
  by_cases hRejected :
      time < mirror.samples[0].time ∨ mirror.samples[mirror.samples.size - 1].time < time
  · refine ⟨mirror.samples[0].angle, ?_⟩
    simp only [angleAt, ends_of_pos hSome, Failure.ok_bind, if_pos hRejected]
    rfl
  · simp only [angleAt, ends_of_pos hSome, Failure.ok_bind, if_neg hRejected]
    split
    · exact ⟨_, rfl⟩
    · rw [sampleAt_of_lt (by omega), sampleAt_of_lt (by omega)]
      exact ⟨_, rfl⟩

theorem angleAt_ne_indexOutOfRange (mirror : Mirror α) (time : α) (index size : ℕ) :
    mirror.angleAt time ≠ .error (.indexOutOfRange index size) := by
  intro hFails
  rcases Nat.eq_zero_or_pos mirror.samples.size with hEmpty | hSome
  · rw [angleAt, ends_of_empty hEmpty] at hFails
    cases hFails
  · obtain ⟨angle, hAngle⟩ := exists_angleAt_eq hSome time
    rw [hFails] at hAngle
    split at hAngle <;> cases hAngle

end Lookup

/-- A time that is no number has an angle as soon as there is a sample. -/
theorem exists_angleAt_of_isNaN {mirror : Mirror Float} {time : Float}
    (hNaN : time.isNaN = true) :
    (∃ angle, mirror.angleAt time = .ok angle) ↔ 0 < mirror.samples.size := by
  constructor
  · rintro ⟨angle, hOk⟩
    refine Nat.pos_of_ne_zero fun hEmpty => ?_
    rw [angleAt, ends_of_empty hEmpty] at hOk
    cases hOk
  · intro hSome
    obtain ⟨angle, hAngle⟩ := exists_angleAt_eq hSome time
    refine ⟨angle, hAngle.trans (if_neg ?_)⟩
    rintro (hLow | hHigh)
    · exact Binary64.not_lt_of_isNaN (Or.inl hNaN) hLow
    · exact Binary64.not_lt_of_isNaN (Or.inr hNaN) hHigh

end Mirror

/-! ## Both -/

/-- The lookups of a state and of an angle never miss the samples.  A state comes from several
samples at an interval that is positive or no number, which is all that is asked of a time or an
interval that is no number; an angle at a time that is no number comes from any samples. -/
theorem lookups_notANumber (trajectory : Trajectory Float) (frame : Frame)
    (mirror : Mirror Float) (time : Float) :
    ((∀ index size, trajectory.stateAt time frame ≠ .error (.indexOutOfRange index size)) ∧
      ((∃ state, trajectory.stateAt time frame = .ok state) →
        1 < trajectory.size ∧ (0 < trajectory.interval ∨ trajectory.interval.isNaN = true)) ∧
      (time.isNaN = true ∨ trajectory.interval.isNaN = true →
        1 < trajectory.size ∧ (0 < trajectory.interval ∨ trajectory.interval.isNaN = true) →
          ∃ state, trajectory.stateAt time frame = .ok state)) ∧
    (∀ index size, mirror.angleAt time ≠ .error (.indexOutOfRange index size)) ∧
      (time.isNaN = true →
        ((∃ angle, mirror.angleAt time = .ok angle) ↔ 0 < mirror.samples.size)) :=
  ⟨⟨Trajectory.stateAt_ne_indexOutOfRange trajectory time frame, Trajectory.of_exists_stateAt,
    fun hNaN => (Trajectory.exists_stateAt_of_isNaN hNaN).mpr⟩,
    Mirror.angleAt_ne_indexOutOfRange mirror time, Mirror.exists_angleAt_of_isNaN⟩

/-- Two states, one second apart; `interval` is the nominal distance. -/
def twoStates (interval : Float) : Trajectory Float :=
  ⟨Epoch.default, interval, #[⟨0, ⟨⟨0, 0, 0⟩, ⟨0, 0, 0⟩⟩, ⟨⟨0, 0, 0⟩, ⟨0, 0, 0⟩⟩⟩,
    ⟨1, ⟨⟨1, 1, 1⟩, ⟨0, 0, 0⟩⟩, ⟨⟨1, 1, 1⟩, ⟨0, 0, 0⟩⟩⟩]⟩

/-- A mirror seen at one time. -/
def glimpse : Mirror Float :=
  ⟨Epoch.default, Mat3.identity, #[⟨0, 0⟩]⟩

theorem lookups_notANumber_twoStates_glimpse :
    (∃ state, (twoStates 1).stateAt Float.nan .inertial = .ok state) ∧
      (∃ state, (twoStates Float.nan).stateAt 0 .inertial = .ok state) ∧
      ∃ angle, glimpse.angleAt Float.nan = .ok angle :=
  ⟨(lookups_notANumber (twoStates 1) .inertial glimpse Float.nan).1.2.2 (Or.inl rfl)
      ⟨by decide, Or.inl (by decide)⟩,
    (lookups_notANumber (twoStates Float.nan) .inertial glimpse 0).1.2.2 (Or.inr rfl)
      ⟨by decide, Or.inr rfl⟩,
    ((lookups_notANumber (twoStates 1) .inertial glimpse Float.nan).2.2 rfl).mpr (by decide)⟩

/-- A state and an angle are answered for a time that is no number, and a state for an interval
that is not positive. -/
theorem exists_lookups_notANumber :
    (∃ (trajectory : Trajectory Float) (time : Float) (frame : Frame) (state : State Float),
      time.isNaN = true ∧ trajectory.stateAt time frame = .ok state) ∧
    (∃ (trajectory : Trajectory Float) (time : Float) (frame : Frame) (state : State Float),
      ¬0 < trajectory.interval ∧ trajectory.stateAt time frame = .ok state) ∧
    ∃ (mirror : Mirror Float) (time angle : Float),
      time.isNaN = true ∧ mirror.angleAt time = .ok angle := by
  have hUndefined : Float.nan.isNaN = true := rfl
  obtain ⟨angle, hAngle⟩ : ∃ angle, glimpse.angleAt Float.nan = .ok angle :=
    (Mirror.exists_angleAt_of_isNaN hUndefined).mpr (by decide)
  exact ⟨⟨twoStates 1, Float.nan, .inertial, _, hUndefined, rfl⟩,
    ⟨twoStates Float.nan, 0, .inertial, _, by decide, rfl⟩,
    ⟨glimpse, Float.nan, angle, hUndefined, hAngle⟩⟩

end Pushbroom
