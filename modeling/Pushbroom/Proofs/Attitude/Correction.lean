import Mathlib.Analysis.SpecialFunctions.Trigonometric.Bounds
import Pushbroom.Attitude.Correction
import Pushbroom.Proofs.Attitude.Sampling
import Pushbroom.Proofs.Geometry.Rotation
import Pushbroom.Proofs.Polynomial.Series
import Pushbroom.Proofs.Time.CalendarTime

namespace Pushbroom
namespace Correction

/-!
# What a precision correction does to a sequence

A correction reads the epoch, the times and the measured attitudes of a sequence and writes
its precision channel.  Since it writes nothing that it reads, the correction applied last is
the only one that counts.  Over the real numbers the attitude it writes has the matrix of the
measured attitude followed by that of the correction.
-/

section Channels

variable {α : Type} [Scalar α] [Elementary α]

/-- A sample with the precision attitude of a correction whose clock reads `offset` at the
epoch of the sequence. -/
def recompose (correction : Correction α) (offset : α) (sample : Attitude.Sample α) :
    Attitude.Sample α :=
  { sample with precision := correction.compose (offset + sample.time) sample.satellite }

theorem apply_eq_map (correction : Correction α) (imageEpoch : Epoch α)
    (sequence : Attitude.Sequence α) :
    correction.apply imageEpoch sequence =
      (correction.elapsed imageEpoch sequence.epoch 0).map fun offset =>
        sequence.mapSamples (correction.recompose offset) := by
  unfold apply
  cases correction.elapsed imageEpoch sequence.epoch 0 <;> rfl

theorem apply_cases {correction : Correction α} {imageEpoch : Epoch α}
    {sequence corrected : Attitude.Sequence α}
    (hApply : correction.apply imageEpoch sequence = .ok corrected) :
    ∃ offset, correction.elapsed imageEpoch sequence.epoch 0 = .ok offset ∧
      corrected = sequence.mapSamples (correction.recompose offset) := by
  obtain ⟨offset, hOffset, hMap⟩ := Failure.bind_eq_ok.mp hApply
  exact ⟨offset, hOffset, (Except.ok.inj hMap).symm⟩

theorem recompose_recompose (first second : Correction α) (before after : α)
    (sample : Attitude.Sample α) :
    second.recompose after (first.recompose before sample) = second.recompose after sample :=
  rfl

/-- A second correction finds nothing of the first one. -/
theorem apply_of_apply_eq_ok {first second : Correction α} {firstEpoch secondEpoch : Epoch α}
    {sequence corrected : Attitude.Sequence α}
    (hFirst : first.apply firstEpoch sequence = .ok corrected) :
    second.apply secondEpoch corrected = second.apply secondEpoch sequence := by
  obtain ⟨before, _, rfl⟩ := apply_cases hFirst
  have hTwice (after : α) :
      (sequence.mapSamples (first.recompose before)).mapSamples (second.recompose after) =
        sequence.mapSamples (second.recompose after) := by
    simp only [Attitude.Sequence.mapSamples, Array.map_map, Function.comp_def,
      recompose_recompose]
  change (second.elapsed secondEpoch sequence.epoch 0 >>= fun after =>
    .ok ((sequence.mapSamples (first.recompose before)).mapSamples (second.recompose after))) = _
  simp only [hTwice]
  rfl

end Channels

/-! ## Exact corrections -/

/-- The sum of the terms of a series up to and including the degree `order`. -/
noncomputable def truncatedSum (order : ℕ) (coefficients : List ℝ) (elapsed : ℝ) : ℝ :=
  ∑ k ∈ Finset.range (min (order + 1) coefficients.length), coefficients.getD k 0 * elapsed ^ k

/-- The rotation of a correction, `elapsed` seconds after its reference time. -/
noncomputable def rotationAt (correction : Correction ℝ) (elapsed : ℝ) : Mat3 ℝ :=
  Rotation.ofAngles
    ⟨truncatedSum correction.attitudeOrder correction.roll elapsed,
     truncatedSum correction.attitudeOrder correction.pitch elapsed,
     truncatedSum correction.attitudeOrder correction.yaw elapsed⟩

/-- The seconds from the reference time of a correction to a time `seconds` after an epoch, by the
calendar. -/
noncomputable def sinceReference (correction : Correction ℝ) (imageEpoch epoch : Epoch ℝ)
    (seconds : ℝ) : ℝ :=
  epoch.calendarDifference imageEpoch + seconds - correction.reference

/-- The matrix of a measured attitude followed by the rotation of a correction. -/
noncomputable def matrixAfter (correction : Correction ℝ) (elapsed : ℝ) (measured : Vec3 ℝ) :
    Mat3 ℝ :=
  correction.rotationAt elapsed * Rotation.ofAngles measured

/-- Neither the time between the epochs nor the number of coefficients is cut off. -/
structure Counts (correction : Correction ℝ) (imageEpoch epoch : Epoch ℝ) : Prop where
  image : imageEpoch.Representable
  start : epoch.Representable
  difference : |epoch.calendarTime - imageEpoch.calendarTime| ≤ longestDuration
  order : correction.attitudeOrder + 1 < sizeCount

theorem ofAngles_attitudeAt {correction : Correction ℝ}
    (hOrder : correction.attitudeOrder + 1 < sizeCount) (elapsed : ℝ) :
    Rotation.ofAngles (correction.attitudeAt elapsed) = correction.rotationAt elapsed := by
  simp only [attitudeAt, valueAt, Series.power_upToOrder_eq_sum _ hOrder, rotationAt, truncatedSum]

theorem ofAngles_compose {correction : Correction ℝ}
    (hOrder : correction.attitudeOrder + 1 < sizeCount) {elapsed : ℝ} {measured : Vec3 ℝ}
    (hPitch : |(correction.matrixAfter elapsed measured).row₂.x| ≠ 1) :
    Rotation.ofAngles (correction.compose elapsed measured) =
      correction.matrixAfter elapsed measured := by
  rw [compose, ofAngles_attitudeAt hOrder]
  exact Rotation.ofAngles_toAngles
    ((Rotation.ofAngles_isRotation _).mul (Rotation.ofAngles_isRotation _)) hPitch

theorem elapsed_of_secondsBetween {correction : Correction ℝ} {imageEpoch epoch : Epoch ℝ}
    {between : ℝ} (hBetween : Epoch.secondsBetween epoch imageEpoch = .ok between) (seconds : ℝ) :
    correction.elapsed imageEpoch epoch seconds =
      .ok (between + seconds - correction.reference) := by
  rw [elapsed, hBetween]
  rfl

theorem Counts.elapsed_eq {correction : Correction ℝ} {imageEpoch epoch : Epoch ℝ}
    (hCounts : correction.Counts imageEpoch epoch) (seconds : ℝ) :
    correction.elapsed imageEpoch epoch seconds =
      .ok (correction.sinceReference imageEpoch epoch seconds) :=
  elapsed_of_secondsBetween (Epoch.secondsBetween_eq_calendarDifference hCounts.start
    hCounts.image hCounts.difference) seconds

theorem exists_elapsed_iff {correction : Correction ℝ} {imageEpoch epoch : Epoch ℝ} {seconds : ℝ} :
    (∃ offset, correction.elapsed imageEpoch epoch seconds = .ok offset) ↔
      imageEpoch.WithinReach ∧ epoch.WithinReach := by
  rw [← Epoch.exists_toInstant_iff, ← Epoch.exists_toInstant_iff]
  constructor
  · rintro ⟨offset, hOffset⟩
    obtain ⟨between, hBetween, -⟩ := Failure.bind_eq_ok.mp hOffset
    obtain ⟨start, image, hStart, hImage, -⟩ := Epoch.secondsBetween_eq_ok_iff.mp hBetween
    exact ⟨⟨image, hImage⟩, ⟨start, hStart⟩⟩
  · rintro ⟨⟨image, hImage⟩, ⟨start, hStart⟩⟩
    exact ⟨_, elapsed_of_secondsBetween
      (Epoch.secondsBetween_eq_ok_iff.mpr ⟨start, image, hStart, hImage, rfl⟩) seconds⟩

theorem exists_apply_iff {correction : Correction ℝ} {imageEpoch : Epoch ℝ}
    {sequence : Attitude.Sequence ℝ} :
    (∃ corrected, correction.apply imageEpoch sequence = .ok corrected) ↔
      imageEpoch.WithinReach ∧ sequence.epoch.WithinReach := by
  have hElapsed := @exists_elapsed_iff correction imageEpoch sequence.epoch 0
  rw [← hElapsed]
  constructor
  · rintro ⟨corrected, hApply⟩
    obtain ⟨offset, hOffset, -⟩ := apply_cases hApply
    exact ⟨offset, hOffset⟩
  · rintro ⟨offset, hOffset⟩
    exact ⟨_, by rw [apply_eq_map, hOffset]; rfl⟩

/-- A sequence has the sampling and the measured attitudes of another one, and where nothing is cut
off, the matrices of its precision attitudes are those of the measured attitudes followed by the
rotation of the correction. -/
structure Composes (correction : Correction ℝ) (imageEpoch : Epoch ℝ)
    (sequence corrected : Attitude.Sequence ℝ) : Prop where
  sampling : corrected.SameSampling sequence
  measured : corrected.channel .satellite = sequence.channel .satellite
  composed : correction.Counts imageEpoch sequence.epoch →
    ∀ (i : ℕ) (sample : Attitude.Sample ℝ), sequence.samples[i]? = some sample →
      ∃ angles, (corrected.channel .precision)[i]? = some angles ∧
        (|(correction.matrixAfter
              (correction.sinceReference imageEpoch sequence.epoch sample.time)
              sample.satellite).row₂.x| ≠ 1 →
          Rotation.ofAngles angles =
            correction.matrixAfter
              (correction.sinceReference imageEpoch sequence.epoch sample.time) sample.satellite)

/-- What a correction writes into the precision channel. -/
theorem precision_of_apply {correction : Correction ℝ} {imageEpoch : Epoch ℝ}
    {sequence corrected : Attitude.Sequence ℝ} {offset : ℝ}
    (hApply : correction.apply imageEpoch sequence = .ok corrected)
    (hOffset : correction.elapsed imageEpoch sequence.epoch 0 = .ok offset) {i : ℕ}
    {sample : Attitude.Sample ℝ} (hSample : sequence.samples[i]? = some sample) :
    (corrected.channel .precision)[i]? =
      some (correction.compose (offset + sample.time) sample.satellite) := by
  obtain ⟨other, hOther, rfl⟩ := apply_cases hApply
  cases hOffset.symm.trans hOther
  simp [Attitude.Sequence.channel, Attitude.Sequence.mapSamples, Attitude.Sample.channel,
    recompose, hSample]

theorem composes_of_apply {correction : Correction ℝ} {imageEpoch : Epoch ℝ}
    {sequence corrected : Attitude.Sequence ℝ}
    (hApply : correction.apply imageEpoch sequence = .ok corrected) :
    correction.Composes imageEpoch sequence corrected := by
  refine ⟨?_, ?_, ?_⟩
  · obtain ⟨offset, -, rfl⟩ := apply_cases hApply
    apply Attitude.Sequence.mapSamples_sameSampling
    intro sample
    rfl
  · obtain ⟨offset, -, rfl⟩ := apply_cases hApply
    simp [Attitude.Sequence.channel, Attitude.Sequence.mapSamples, Function.comp_def,
      Attitude.Sample.channel, recompose]
  · intro hCounts i sample hSample
    -- the time of the sample is added to the offset after the reference was taken away
    have hElapsed : correction.sinceReference imageEpoch sequence.epoch 0 + sample.time =
        correction.sinceReference imageEpoch sequence.epoch sample.time := by
      simp only [sinceReference]
      ring
    refine ⟨_, precision_of_apply hApply (hCounts.elapsed_eq 0) hSample, ?_⟩
    rw [hElapsed]
    exact ofAngles_compose hCounts.order

/-- A correction can be applied when the two epochs have instants.  It composes its rotation with
the measured attitudes, the time between the epochs being told by the calendar, and a correction
applied after it gives what it would give alone. -/
theorem apply_composes_and_is_superseded (correction : Correction ℝ) (imageEpoch : Epoch ℝ)
    (sequence : Attitude.Sequence ℝ) :
    ((∃ corrected, correction.apply imageEpoch sequence = .ok corrected) ↔
      imageEpoch.WithinReach ∧ sequence.epoch.WithinReach) ∧
    ∀ corrected, correction.apply imageEpoch sequence = .ok corrected →
      correction.Composes imageEpoch sequence corrected ∧
      ∀ (later : Correction ℝ) (laterEpoch : Epoch ℝ),
        later.apply laterEpoch corrected = later.apply laterEpoch sequence :=
  ⟨exists_apply_iff, fun _ hApply =>
    ⟨composes_of_apply hApply, fun _ _ => apply_of_apply_eq_ok hApply⟩⟩

theorem representable_newYear {year : ℤ} (hYear : year.natAbs ≤ 3270000) :
    (⟨year, 1, 0⟩ : Epoch ℝ).Representable :=
  Epoch.representable_of_near hYear (by norm_num) (by norm_num)

/-- A pitch that grows by one radian a second from minus one, a second after the image epoch.  The
third coefficient is beyond the order. -/
noncomputable def growingPitch : Correction ℝ where
  reference := 1
  positionOrder := 0
  x := []
  y := []
  z := []
  attitudeOrder := 1
  roll := []
  pitch := [-1, 1, 1]
  yaw := []

/-- Two seconds before the end of a leap year. -/
noncomputable def yearEnd : Epoch ℝ :=
  ⟨2000, 366, 86398⟩

/-- One sample, a second after the start of a year and half a turn about the vertical. -/
noncomputable def turned : Attitude.Sequence ℝ where
  epoch := ⟨2001, 1, 0⟩
  interval := 1
  samples := #[⟨1, ⟨0, 0, Real.pi⟩, ⟨0, 0, 0⟩⟩]

theorem calendarTime_yearEnd : yearEnd.calendarTime = 3187295998 * 10 ^ 9 := by
  have hWhole : yearEnd.secondsOfDay * 10 ^ 9 = (86398 * 10 ^ 9 : ℤ) := by norm_num [yearEnd]
  rw [Epoch.calendarTime_of_whole hWhole]
  rfl

theorem calendarTime_turned : turned.epoch.calendarTime = 3187296000 * 10 ^ 9 := by
  have hWhole : turned.epoch.secondsOfDay * 10 ^ 9 = (0 : ℤ) := by norm_num [turned]
  rw [Epoch.calendarTime_of_whole hWhole]
  rfl

theorem counts_growingPitch : growingPitch.Counts yearEnd turned.epoch where
  image := Epoch.representable_of_near (by decide) (by decide) (by norm_num [yearEnd])
  start := representable_newYear (by decide)
  difference := by
    rw [calendarTime_yearEnd, calendarTime_turned]
    decide
  order := by decide

theorem sinceReference_growingPitch : growingPitch.sinceReference yearEnd turned.epoch 1 = 2 := by
  rw [sinceReference, Epoch.calendarDifference, calendarTime_yearEnd, calendarTime_turned]
  norm_num [growingPitch]

theorem rotationAt_growingPitch : growingPitch.rotationAt 2 = Rotation.ofAngles ⟨0, 1, 0⟩ := by
  norm_num [rotationAt, truncatedSum, growingPitch, Finset.sum_range_succ]

/-- The pitch of one radian that the correction has reached is less than a right angle, so the
matrix of the sample is one whose angles give it back. -/
theorem apply_composes_and_is_superseded_turned :
    ∃ corrected, growingPitch.apply yearEnd turned = .ok corrected ∧
      (∃ angles, (corrected.channel .precision)[0]? = some angles ∧
        Rotation.ofAngles angles =
          Rotation.ofAngles ⟨0, 1, 0⟩ * Rotation.ofAngles ⟨0, 0, Real.pi⟩) ∧
      growingPitch.apply yearEnd corrected = .ok corrected := by
  have hTheorem := apply_composes_and_is_superseded growingPitch yearEnd turned
  have hCounts := counts_growingPitch
  obtain ⟨corrected, hApply⟩ :=
    hTheorem.1.mpr ⟨hCounts.image.withinReach, hCounts.start.withinReach⟩
  obtain ⟨hComposes, hSuperseded⟩ := hTheorem.2 corrected hApply
  have hSample : turned.samples[0]? = some ⟨1, ⟨0, 0, Real.pi⟩, ⟨0, 0, 0⟩⟩ := rfl
  obtain ⟨angles, hAngles, hMatrix⟩ := hComposes.composed hCounts 0 _ hSample
  refine ⟨corrected, hApply, ⟨angles, hAngles, ?_⟩, (hSuperseded _ _).trans hApply⟩
  rw [sinceReference_growingPitch, matrixAfter, rotationAt_growingPitch] at hMatrix
  apply hMatrix
  have hEntry : (Rotation.ofAngles (⟨0, 1, 0⟩ : Vec3 ℝ) *
      Rotation.ofAngles ⟨0, 0, Real.pi⟩).row₂.x = Real.sin 1 := by
    change Vec3.dot _ ⟨_, _, _⟩ = _
    simp [Rotation.ofAngles, Vec3.dot]
  have hPositive : 0 < Real.sin 1 := Real.sin_pos_of_pos_of_le_one one_pos le_rfl
  rw [hEntry, abs_of_pos hPositive]
  exact (Real.sin_lt one_pos).ne

/-! ## What is cut off -/

/-- The time from the reference of a correction to a time counted from an epoch, when nothing is cut
off: neither what is less than a nanosecond nor what is longer than the longest duration. -/
noncomputable def uncut (correction : Correction ℝ) (imageEpoch epoch : Epoch ℝ) (seconds : ℝ) : ℝ :=
  epoch.calendarSeconds - imageEpoch.calendarSeconds + seconds - correction.reference

/-- The attitude of a sample is not the one that follows when nothing is cut off. -/
def Misses (correction : Correction ℝ) (imageEpoch : Epoch ℝ) (sequence : Attitude.Sequence ℝ) :
    Prop :=
  ∃ corrected, correction.apply imageEpoch sequence = .ok corrected ∧
    ∃ (i : ℕ) (sample : Attitude.Sample ℝ) (angles : Vec3 ℝ),
      sequence.samples[i]? = some sample ∧ (corrected.channel .precision)[i]? = some angles ∧
      |(correction.matrixAfter (correction.uncut imageEpoch sequence.epoch sample.time)
          sample.satellite).row₂.x| ≠ 1 ∧
      Rotation.ofAngles angles ≠
        correction.matrixAfter (correction.uncut imageEpoch sequence.epoch sample.time)
          sample.satellite

/-- A correction of the roll alone. -/
def rolling (reference : ℝ) (order : ℕ) (roll : List ℝ) : Correction ℝ where
  reference := reference
  positionOrder := 0
  x := []
  y := []
  z := []
  attitudeOrder := order
  roll := roll
  pitch := []
  yaw := []

/-- One sample without a turn, at an epoch. -/
noncomputable def still (epoch : Epoch ℝ) : Attitude.Sequence ℝ where
  epoch := epoch
  interval := 1
  samples := #[⟨0, ⟨0, 0, 0⟩, ⟨0, 0, 0⟩⟩]

theorem rotationAt_rolling (reference : ℝ) (order : ℕ) (roll : List ℝ) (elapsed : ℝ) :
    (rolling reference order roll).rotationAt elapsed =
      Rotation.ofAngles ⟨truncatedSum order roll elapsed, 0, 0⟩ := by
  simp [rotationAt, rolling, truncatedSum]

theorem ofAngles_roll_mul (roll : ℝ) :
    (Rotation.ofAngles ⟨roll, 0, 0⟩ * Rotation.ofAngles ⟨0, 0, 0⟩ : Mat3 ℝ).row₂.x = 0 ∧
      (Rotation.ofAngles ⟨roll, 0, 0⟩ * Rotation.ofAngles ⟨0, 0, 0⟩ : Mat3 ℝ).row₁.y =
        Real.cos roll := by
  constructor <;>
  · change Vec3.dot _ ⟨_, _, _⟩ = _
    simp [Rotation.ofAngles, Vec3.dot]

theorem ofAngles_compose_rolling {reference elapsed : ℝ} {order : ℕ} {roll : List ℝ}
    (hRoll : valueAt order roll elapsed = 0) :
    Rotation.ofAngles ((rolling reference order roll).compose elapsed ⟨0, 0, 0⟩) =
      Rotation.ofAngles ⟨0, 0, 0⟩ * Rotation.ofAngles ⟨0, 0, 0⟩ := by
  have hAttitude : (rolling reference order roll).attitudeAt elapsed = ⟨0, 0, 0⟩ := by
    rw [attitudeAt]
    ext
    · exact hRoll
    · simp [rolling, valueAt, Series.upToOrder, Series.power]
    · simp [rolling, valueAt, Series.upToOrder, Series.power]
  rw [compose, hAttitude]
  apply Rotation.ofAngles_toAngles
    ((Rotation.ofAngles_isRotation _).mul (Rotation.ofAngles_isRotation _))
  rw [(ofAngles_roll_mul 0).1, abs_zero]
  exact zero_ne_one

/-- A sample that is not rolled misses a roll of half a turn. -/
theorem misses_of_roll {reference offset : ℝ} {order : ℕ} {roll : List ℝ}
    {imageEpoch epoch : Epoch ℝ}
    (hOffset : (rolling reference order roll).elapsed imageEpoch epoch 0 = .ok offset)
    (hActual : valueAt order roll offset = 0)
    (hUncut : truncatedSum order roll ((rolling reference order roll).uncut imageEpoch epoch 0) =
      Real.pi) :
    (rolling reference order roll).Misses imageEpoch (still epoch) := by
  have hApply := apply_eq_map (rolling reference order roll) imageEpoch (still epoch)
  change _ = ((rolling reference order roll).elapsed imageEpoch epoch 0).map _ at hApply
  rw [hOffset] at hApply
  have hSample : (still epoch).samples[0]? = some ⟨0, ⟨0, 0, 0⟩, ⟨0, 0, 0⟩⟩ := rfl
  have hMatrix : (rolling reference order roll).matrixAfter
      ((rolling reference order roll).uncut imageEpoch epoch 0) ⟨0, 0, 0⟩ =
        Rotation.ofAngles ⟨Real.pi, 0, 0⟩ * Rotation.ofAngles ⟨0, 0, 0⟩ := by
    rw [matrixAfter, rotationAt_rolling, hUncut]
  have hAngles : Rotation.ofAngles ((rolling reference order roll).compose (offset + 0) ⟨0, 0, 0⟩) =
      Rotation.ofAngles ⟨0, 0, 0⟩ * Rotation.ofAngles ⟨0, 0, 0⟩ := by
    rw [add_zero]
    exact ofAngles_compose_rolling hActual
  refine ⟨_, hApply, 0, _, _, hSample, precision_of_apply hApply hOffset hSample, ?_, ?_⟩
  · change |(matrixAfter _ (uncut _ imageEpoch epoch 0) ⟨0, 0, 0⟩).row₂.x| ≠ 1
    rw [hMatrix, (ofAngles_roll_mul Real.pi).1, abs_zero]
    exact zero_ne_one
  · change Rotation.ofAngles (compose _ (offset + 0) ⟨0, 0, 0⟩) ≠
      matrixAfter _ (uncut _ imageEpoch epoch 0) ⟨0, 0, 0⟩
    rw [hMatrix, hAngles]
    intro hSame
    have hEntry := congrArg (fun matrix : Mat3 ℝ => matrix.row₁.y) hSame
    rw [(ofAngles_roll_mul 0).2, (ofAngles_roll_mul Real.pi).2, Real.cos_zero, Real.cos_pi] at hEntry
    norm_num at hEntry

theorem valueAt_linear (slope elapsed : ℝ) : valueAt 1 [0, slope] elapsed = slope * elapsed := by
  simp [valueAt, Series.upToOrder, wrapSize, sizeCount, Series.power]

theorem truncatedSum_linear (slope elapsed : ℝ) :
    truncatedSum 1 [0, slope] elapsed = slope * elapsed := by
  simp [truncatedSum, Finset.sum_range_succ]

/-- Two epochs 6540000 years apart are told as being the longest duration apart. -/
theorem misses_far :
    (rolling 103407943680000 1 [0, Real.pi / 102974522400000]).Misses ⟨-3270000, 1, 0⟩
      (still ⟨3270000, 1, 0⟩) := by
  have hLater : (⟨3270000, 1, 0⟩ : Epoch ℝ).Representable := representable_newYear (by decide)
  have hEarlier : (⟨-3270000, 1, 0⟩ : Epoch ℝ).Representable := representable_newYear (by decide)
  have hWhole : (0 : ℝ) * 10 ^ 9 = (0 : ℤ) := by simp
  have hCut : max (-longestDuration) (min longestDuration
      ((⟨3270000, 1, 0⟩ : Epoch ℝ).calendarTime - (⟨-3270000, 1, 0⟩ : Epoch ℝ).calendarTime)) =
        longestDuration := by
    rw [Epoch.calendarTime_of_whole hWhole, Epoch.calendarTime_of_whole hWhole]
    decide
  have hBetween := Epoch.secondsBetween_of_representable hLater hEarlier
  rw [hCut] at hBetween
  apply misses_of_roll (elapsed_of_secondsBetween hBetween 0)
  · rw [valueAt_linear]
    norm_num [longestDuration, rolling]
  · rw [truncatedSum_linear]
    norm_num [uncut, Epoch.calendarSeconds, Calendar.daysBetween_eq, Calendar.daysBeforeYear, rolling]

/-- Half a nanosecond is not told. -/
theorem misses_small :
    (rolling 0 1 [0, Real.pi * (2 * 10 ^ 9)]).Misses ⟨2000, 1, 0⟩
      (still ⟨2000, 1, 1 / (2 * 10 ^ 9)⟩) := by
  have hLater : (⟨2000, 1, 1 / (2 * 10 ^ 9)⟩ : Epoch ℝ).Representable :=
    Epoch.representable_of_near (by decide) (by decide) (by norm_num)
  have hEarlier : (⟨2000, 1, 0⟩ : Epoch ℝ).Representable := representable_newYear (by decide)
  have hHalf : (⟨2000, 1, 1 / (2 * 10 ^ 9)⟩ : Epoch ℝ).restCount = 0 := by
    norm_num [Epoch.restCount, Epoch.cut]
  have hNone : (⟨2000, 1, 0⟩ : Epoch ℝ).restCount = 0 := by
    norm_num [Epoch.restCount, Epoch.cut]
  have hSame : (⟨2000, 1, 1 / (2 * 10 ^ 9)⟩ : Epoch ℝ).calendarTime =
      (⟨2000, 1, 0⟩ : Epoch ℝ).calendarTime := by
    rw [Epoch.calendarTime, Epoch.calendarTime, hHalf, hNone]
    rfl
  have hBetween := Epoch.secondsBetween_eq_calendarDifference hLater hEarlier (by
    rw [hSame, sub_self]
    decide)
  rw [Epoch.calendarDifference, hSame, sub_self] at hBetween
  apply misses_of_roll (elapsed_of_secondsBetween hBetween 0)
  · rw [valueAt_linear]
    norm_num [rolling]
  · rw [truncatedSum_linear]
    norm_num [uncut, Epoch.calendarSeconds, rolling]
    ring

/-- Of a series up to the greatest size no coefficient is left. -/
theorem misses_greatest_order :
    (rolling 0 (sizeCount - 1) [Real.pi]).Misses Epoch.default (still Epoch.default) := by
  have hDefault : (Epoch.default : Epoch ℝ).Representable := representable_newYear (by decide)
  have hBetween := Epoch.secondsBetween_eq_calendarDifference hDefault hDefault (by
    rw [sub_self]
    decide)
  apply misses_of_roll (elapsed_of_secondsBetween hBetween 0)
  · simp [valueAt, Series.upToOrder, wrapSize, sizeCount, Series.power]
  · simp [truncatedSum, sizeCount]

/-- The elapsed time is not the one that follows without a bound when the epochs are further apart
than the longest duration or differ by less than a nanosecond, and of a series up to the greatest
size nothing is used. -/
theorem misses_cut_off :
    (rolling 103407943680000 1 [0, Real.pi / 102974522400000]).Misses ⟨-3270000, 1, 0⟩
        (still ⟨3270000, 1, 0⟩) ∧
      (rolling 0 1 [0, Real.pi * (2 * 10 ^ 9)]).Misses ⟨2000, 1, 0⟩
        (still ⟨2000, 1, 1 / (2 * 10 ^ 9)⟩) ∧
      (rolling 0 (sizeCount - 1) [Real.pi]).Misses Epoch.default (still Epoch.default) :=
  ⟨misses_far, misses_small, misses_greatest_order⟩

end Correction
end Pushbroom
