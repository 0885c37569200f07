import Pushbroom.Moon.Almanac
import Pushbroom.Proofs.Attitude.Correction
import Pushbroom.Proofs.Imager.LineTimes
import Pushbroom.Proofs.Time.Shift
import Pushbroom.Proofs.Trajectory

namespace Pushbroom

/-!
# Independence of reference epochs

Attitudes, trajectories and corrections tell their times from an epoch of their own, and what
is computed from them depends on moments alone.  When one of these epochs is moved and the times
told from it are changed the other way, the corrected attitudes and the positions of the Moon
stay what they are.

The laws hold while no duration is cut off, that is while the moved epoch is reached and no two
epochs are further apart than the longest duration.  Beyond that the moved epoch is not as much
later as the times told from it are less.
-/

namespace Attitude

/-- A sample with its time counted from `shift` seconds later. -/
def Sample.countedFrom {K : Type} [Field K] (shift : K) (sample : Sample K) : Sample K :=
  { sample with time := sample.time - shift }

/-- A sequence with another epoch, and its times counted from `shift` seconds later. -/
def Sequence.countedFrom {K : Type} [Field K] (sequence : Sequence K) (epoch : Epoch K)
    (shift : K) : Sequence K :=
  { sequence with epoch, samples := sequence.samples.map (Sample.countedFrom shift) }

end Attitude

namespace Correction

variable {K : Type} [Field K]

/-- A correction with its reference time counted from `shift` seconds later. -/
def countedFrom (correction : Correction K) (shift : K) : Correction K :=
  { correction with reference := correction.reference - shift }

variable [LinearOrder K] [FloorRing K]

section Samples

variable [Elementary K]

theorem recompose_countedFrom (correction : Correction K) (shift offset : K) :
    (correction.countedFrom shift).recompose offset = correction.recompose offset :=
  rfl

/-- A clock that is ahead by as much as the time of a sample is behind. -/
theorem precision_recompose_countedFrom (correction : Correction K) (shift offset : K)
    (sample : Attitude.Sample K) :
    (correction.recompose (offset + shift) (sample.countedFrom shift)).precision =
      (correction.recompose offset sample).precision := by
  have hTime : offset + shift + (sample.time - shift) = offset + sample.time :=
    add_add_sub_cancel offset sample.time shift
  simp only [recompose, Attitude.Sample.countedFrom, hTime]

end Samples

variable [IsStrictOrderedRing K]

theorem elapsed_moved (correction : Correction K) {imageEpoch epoch moved : Epoch K}
    {nanoseconds : ℤ} (hMoves : epoch.MovesTo nanoseconds moved)
    (hBefore : epoch.Comparable imageEpoch) (hAfter : moved.Comparable imageEpoch) (seconds : K) :
    correction.elapsed imageEpoch moved seconds =
      (correction.elapsed imageEpoch epoch seconds).map (· + (nanoseconds : K) / 10 ^ 9) := by
  rw [elapsed, elapsed, hMoves.secondsBetween_later hBefore hAfter]
  cases Epoch.secondsBetween epoch imageEpoch with
  | error error => rfl
  | ok offset =>
      refine congrArg Except.ok ?_
      ring

theorem elapsed_moved_image (correction : Correction K) {imageEpoch epoch moved : Epoch K}
    {nanoseconds : ℤ} (hMoves : imageEpoch.MovesTo nanoseconds moved)
    (hBefore : epoch.Comparable imageEpoch) (hAfter : epoch.Comparable moved) (seconds : K) :
    (correction.countedFrom ((nanoseconds : K) / 10 ^ 9)).elapsed moved epoch seconds =
      correction.elapsed imageEpoch epoch seconds := by
  rw [elapsed, elapsed, hMoves.secondsBetween_earlier hBefore hAfter]
  cases Epoch.secondsBetween epoch imageEpoch with
  | error error => rfl
  | ok offset =>
      refine congrArg Except.ok ?_
      rw [countedFrom]
      ring

variable [Elementary K]

theorem apply_countedFrom {correction : Correction K} {imageEpoch moved : Epoch K}
    {sequence : Attitude.Sequence K} {nanoseconds : ℤ}
    (hMoves : sequence.epoch.MovesTo nanoseconds moved)
    (hBefore : sequence.epoch.Comparable imageEpoch) (hAfter : moved.Comparable imageEpoch) :
    (correction.apply imageEpoch
        (sequence.countedFrom moved ((nanoseconds : K) / 10 ^ 9))).map
          (Attitude.Sequence.channel · .precision) =
      (correction.apply imageEpoch sequence).map (Attitude.Sequence.channel · .precision) := by
  have hElapsed := elapsed_moved correction hMoves hBefore hAfter 0
  have hEpoch : (sequence.countedFrom moved ((nanoseconds : K) / 10 ^ 9)).epoch = moved := rfl
  rw [apply_eq_map, apply_eq_map, hEpoch, hElapsed]
  cases correction.elapsed imageEpoch sequence.epoch 0 with
  | error error => rfl
  | ok offset =>
      refine congrArg Except.ok ?_
      simp only [Attitude.Sequence.channel, Attitude.Sequence.mapSamples,
        Attitude.Sequence.countedFrom, Array.map_map]
      refine Array.map_congr_left fun sample _ => ?_
      exact correction.precision_recompose_countedFrom _ offset sample

theorem apply_moved_image {correction : Correction K} {imageEpoch moved : Epoch K}
    {sequence : Attitude.Sequence K} {nanoseconds : ℤ}
    (hMoves : imageEpoch.MovesTo nanoseconds moved)
    (hBefore : sequence.epoch.Comparable imageEpoch) (hAfter : sequence.epoch.Comparable moved) :
    (correction.countedFrom ((nanoseconds : K) / 10 ^ 9)).apply moved sequence =
      correction.apply imageEpoch sequence := by
  simp only [apply_eq_map, elapsed_moved_image correction hMoves hBefore hAfter,
    recompose_countedFrom]

end Correction

namespace Trajectory

/-- The state in a frame `time` seconds after an epoch, which need not be that of the
trajectory. -/
def stateSince {α : Type} [Scalar α] (trajectory : Trajectory α) (epoch : Epoch α) (time : α)
    (frame : Frame) : Except (Error α) (State α) := do
  let offset ← Epoch.secondsBetween epoch trajectory.epoch
  trajectory.stateAt (offset + time) frame

variable {K : Type} [Field K] [LinearOrder K] [FloorRing K] [IsStrictOrderedRing K]

theorem toOption_stateSince_countedFrom {trajectory : Trajectory K} {epoch moved : Epoch K}
    {nanoseconds : ℤ} (hMoves : trajectory.epoch.MovesTo nanoseconds moved)
    (hBefore : epoch.Comparable trajectory.epoch) (hAfter : epoch.Comparable moved) (time : K)
    (frame : Frame) :
    ((trajectory.countedFrom moved ((nanoseconds : K) / 10 ^ 9)).stateSince epoch time
        frame).toOption =
      (trajectory.stateSince epoch time frame).toOption := by
  have hEpoch : (trajectory.countedFrom moved ((nanoseconds : K) / 10 ^ 9)).epoch = moved := rfl
  rw [stateSince, stateSince, hEpoch, hMoves.secondsBetween_earlier hBefore hAfter]
  cases Epoch.secondsBetween epoch trajectory.epoch with
  | error error => rfl
  | ok offset =>
      rw [Except.map, Failure.ok_bind, Failure.ok_bind, sub_add_eq_add_sub]
      exact toOption_stateAt_countedFrom trajectory moved _ (offset + time) frame

end Trajectory

/-- An imager whose trajectory has another epoch, and its times counted from `shift` seconds
later. -/
def Imager.trajectoryCountedFrom {K : Type} [Field K] (imager : Imager K) (epoch : Epoch K)
    (shift : K) : Imager K :=
  { imager with trajectory := imager.trajectory.countedFrom epoch shift }

namespace Moon

/-- The trajectory is asked for its state at the line, and for nothing else. -/
theorem Almanac.position_eq {α : Type} [Scalar α] [Elementary α] (almanac : Almanac α)
    (imager : Imager α) (location : Location α) :
    almanac.position imager location = (do
      let timing ← imager.timingForBand location.bandIndex
      let time ← imager.lineTime location.bandIndex location.line
      let start ← timing.frameEpoch.toInstant
      let shift ← Duration.ofSeconds time
      let spacecraft ← imager.trajectory.stateSince timing.frameEpoch time .inertial
      let moon ← almanac.moon (start + shift)
      match Position.ofVector? (moon - spacecraft.position) with
      | some position => return position
      | none => throw (.moonEphemeris location.line)) := by
  refine bind_congr fun timing => bind_congr fun time => bind_congr fun start =>
    bind_congr fun shift => ?_
  exact (bind_assoc _ _ _).symm

variable {K : Type} [Field K] [LinearOrder K] [FloorRing K] [IsStrictOrderedRing K]
  [Elementary K]

theorem Almanac.toOption_position_trajectoryCountedFrom (almanac : Almanac K)
    {imager : Imager K} {location : Location K} {moved : Epoch K} {nanoseconds : ℤ}
    (hMoves : imager.trajectory.epoch.MovesTo nanoseconds moved)
    (hComparable : ∀ timing, imager.timingForBand location.bandIndex = .ok timing →
      timing.frameEpoch.Comparable imager.trajectory.epoch ∧
        timing.frameEpoch.Comparable moved) :
    (almanac.position (imager.trajectoryCountedFrom moved ((nanoseconds : K) / 10 ^ 9))
        location).toOption =
      (almanac.position imager location).toOption := by
  have hTiming : (imager.trajectoryCountedFrom moved ((nanoseconds : K) / 10 ^ 9)).timingForBand
      location.bandIndex = imager.timingForBand location.bandIndex := rfl
  have hLineTime : (imager.trajectoryCountedFrom moved ((nanoseconds : K) / 10 ^ 9)).lineTime
      location.bandIndex location.line = imager.lineTime location.bandIndex location.line := rfl
  have hTrajectory : (imager.trajectoryCountedFrom moved ((nanoseconds : K) / 10 ^ 9)).trajectory =
      imager.trajectory.countedFrom moved ((nanoseconds : K) / 10 ^ 9) := rfl
  rw [position_eq, position_eq, hTiming, hLineTime, hTrajectory]
  cases hTimingOf : imager.timingForBand location.bandIndex with
  | error error => rw [Failure.error_bind, Failure.error_bind]
  | ok timing =>
      obtain ⟨hBefore, hAfter⟩ := hComparable timing hTimingOf
      simp only [Failure.ok_bind, Failure.toOption_bind,
        Trajectory.toOption_stateSince_countedFrom hMoves hBefore hAfter]

end Moon

namespace ReferenceEpoch

section Laws

variable {K : Type} [Field K] [LinearOrder K] [FloorRing K] [IsStrictOrderedRing K]
  [Elementary K]

/-- As long as no duration is cut off, nothing that is computed depends on the epoch that its
times are told from: neither the corrected attitudes on the epoch of the sequence or on that of
the image, nor the positions of the Moon on the epoch of the trajectory. -/
theorem results_independent :
    (∀ (correction : Correction K) (imageEpoch moved : Epoch K)
        (sequence : Attitude.Sequence K) (nanoseconds : ℤ),
      sequence.epoch.MovesTo nanoseconds moved → sequence.epoch.Comparable imageEpoch →
      moved.Comparable imageEpoch →
      (correction.apply imageEpoch
          (sequence.countedFrom moved ((nanoseconds : K) / 10 ^ 9))).map
            (Attitude.Sequence.channel · .precision) =
        (correction.apply imageEpoch sequence).map (Attitude.Sequence.channel · .precision)) ∧
    (∀ (correction : Correction K) (imageEpoch moved : Epoch K)
        (sequence : Attitude.Sequence K) (nanoseconds : ℤ),
      imageEpoch.MovesTo nanoseconds moved → sequence.epoch.Comparable imageEpoch →
      sequence.epoch.Comparable moved →
      (correction.countedFrom ((nanoseconds : K) / 10 ^ 9)).apply moved sequence =
        correction.apply imageEpoch sequence) ∧
    ∀ (almanac : Moon.Almanac K) (imager : Imager K) (location : Moon.Location K)
        (moved : Epoch K) (nanoseconds : ℤ),
      imager.trajectory.epoch.MovesTo nanoseconds moved →
      (∀ timing, imager.timingForBand location.bandIndex = .ok timing →
        timing.frameEpoch.Comparable imager.trajectory.epoch ∧
          timing.frameEpoch.Comparable moved) →
      (almanac.position (imager.trajectoryCountedFrom moved ((nanoseconds : K) / 10 ^ 9))
          location).toOption =
        (almanac.position imager location).toOption := by
  refine ⟨?_, ?_, ?_⟩
  · intro correction imageEpoch moved sequence nanoseconds hMoves hBefore hAfter
    exact Correction.apply_countedFrom hMoves hBefore hAfter
  · intro correction imageEpoch moved sequence nanoseconds hMoves hBefore hAfter
    exact Correction.apply_moved_image hMoves hBefore hAfter
  · intro almanac imager location moved nanoseconds hMoves hComparable
    exact almanac.toOption_position_trajectoryCountedFrom hMoves hComparable

end Laws

/-! ## Runs -/

deriving instance DecidableEq for Vec3

/-- A single sample, taken at the epoch of its sequence. -/
def levelAt (epoch : Epoch ℚ) : Attitude.Sequence ℚ where
  epoch
  interval := 1
  samples := #[⟨0, 0, 0⟩]

/-- A roll that grows with the time since a reference time. -/
def rolling (reference : ℚ) : Correction ℚ where
  reference
  positionOrder := 0
  x := []
  y := []
  z := []
  attitudeOrder := 1
  roll := [0, 1 / 10 ^ 7]
  pitch := []
  yaw := []

/-- Three frames in the first seconds of 2013, and a trajectory from the last second of the leap
year before. -/
def acrossNewYear : Imager ℚ :=
  { Imager.threeFrames with
    oli := { Imager.threeFrames.oli with frameEpoch := ⟨2013, 1, 3⟩ }
    trajectory := {
      epoch := ⟨2012, 366, 86399⟩
      interval := 10
      samples := #[⟨0, ⟨⟨7000000, 0, 0⟩, 0⟩, ⟨0, 0⟩⟩, ⟨10, ⟨⟨7000000, 70000, 0⟩, 0⟩, ⟨0, 0⟩⟩] } }

/-- A Moon that stands still in the direction of the equinox. -/
def stillMoon : Moon.Almanac ℚ :=
  fun _ => some ⟨380000, 0, 0⟩

theorem movesTo_newYear :
    (Epoch.mk 2012 366 86399 : Epoch ℚ).MovesTo (2 * 10 ^ 9) ⟨2013, 1, 1⟩ where
  offset := Failure.eq_ok_of_toOption (by decide +kernel)
  reaches := by decide +kernel

theorem results_independent_acrossNewYear :
    ((rolling 0).apply ⟨2013, 1, 3⟩ (levelAt ⟨2012, 366, 86399⟩)).isOk = true ∧
    ((rolling 0).apply ⟨2013, 1, 3⟩
        ((levelAt ⟨2012, 366, 86399⟩).countedFrom ⟨2013, 1, 1⟩
          (((2 * 10 ^ 9 : ℤ) : ℚ) / 10 ^ 9))).map
          (Attitude.Sequence.channel · .precision) =
      ((rolling 0).apply ⟨2013, 1, 3⟩ (levelAt ⟨2012, 366, 86399⟩)).map
        (Attitude.Sequence.channel · .precision) ∧
    ((rolling 0).countedFrom (((2 * 10 ^ 9 : ℤ) : ℚ) / 10 ^ 9)).apply ⟨2013, 1, 1⟩
        (levelAt ⟨2013, 1, 3⟩) =
      (rolling 0).apply ⟨2012, 366, 86399⟩ (levelAt ⟨2013, 1, 3⟩) ∧
    (stillMoon.position acrossNewYear ⟨0, 0, 1, 0, .nominal⟩).isOk = true ∧
    (stillMoon.position
        (acrossNewYear.trajectoryCountedFrom ⟨2013, 1, 1⟩ (((2 * 10 ^ 9 : ℤ) : ℚ) / 10 ^ 9))
        ⟨0, 0, 1, 0, .nominal⟩).toOption =
      (stillMoon.position acrossNewYear ⟨0, 0, 1, 0, .nominal⟩).toOption := by
  obtain ⟨hSequence, hImage, hTrajectory⟩ := results_independent (K := ℚ)
  refine ⟨by decide +kernel, ?_, ?_, by decide +kernel, ?_⟩
  · exact hSequence _ _ _ (levelAt ⟨2012, 366, 86399⟩) _ movesTo_newYear (by decide +kernel)
      (by decide +kernel)
  · exact hImage _ _ _ _ _ movesTo_newYear (by decide +kernel) (by decide +kernel)
  · apply hTrajectory _ acrossNewYear _ _ _ movesTo_newYear
    intro timing hTiming
    cases hTiming
    constructor <;> decide +kernel

/-- Two sequences whose epochs cannot be moved without a difference.  The first is moved by 100
days further away from an image that is the longest duration away already.  The second is after
the last instant, which stays the last one a day later. -/
theorem results_differ_where_cut_off :
    ((Epoch.mk 3270000 1 0 : Epoch ℚ).offset (((8640000 * 10 ^ 9 : ℤ) : ℚ) / 10 ^ 9) =
        .ok ⟨3270000, 101, 0⟩ ∧
      ((rolling 103407943680000).apply ⟨-3270000, 1, 0⟩
          ((levelAt ⟨3270000, 1, 0⟩).countedFrom ⟨3270000, 101, 0⟩
            (((8640000 * 10 ^ 9 : ℤ) : ℚ) / 10 ^ 9))).map
            (Attitude.Sequence.channel · .precision) ≠
        ((rolling 103407943680000).apply ⟨-3270000, 1, 0⟩ (levelAt ⟨3270000, 1, 0⟩)).map
          (Attitude.Sequence.channel · .precision)) ∧
    (Epoch.mk 3300000 1 0 : Epoch ℚ).offset (((86400 * 10 ^ 9 : ℤ) : ℚ) / 10 ^ 9) =
        .ok ⟨3278767, 106, 0⟩ ∧
      ((rolling 0).apply ⟨3278767, 106, 0⟩
          ((levelAt ⟨3300000, 1, 0⟩).countedFrom ⟨3278767, 106, 0⟩
            (((86400 * 10 ^ 9 : ℤ) : ℚ) / 10 ^ 9))).map
            (Attitude.Sequence.channel · .precision) ≠
        ((rolling 0).apply ⟨3278767, 106, 0⟩ (levelAt ⟨3300000, 1, 0⟩)).map
          (Attitude.Sequence.channel · .precision) := by
  refine ⟨⟨?_, ?_⟩, ?_, ?_⟩
  · exact Failure.eq_ok_of_toOption (by decide +kernel)
  · exact fun hSame => absurd (congrArg Except.toOption hSame) (by decide +kernel)
  · exact Failure.eq_ok_of_toOption (by decide +kernel)
  · exact fun hSame => absurd (congrArg Except.toOption hSame) (by decide +kernel)

end ReferenceEpoch

end Pushbroom
