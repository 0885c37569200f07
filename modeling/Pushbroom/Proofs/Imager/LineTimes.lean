import Pushbroom.Imager.Basic
import Pushbroom.Proofs.Failure
import Pushbroom.Proofs.Instrument.FrameTimes

namespace Pushbroom

/-!
# Acquisition times of lines

The lines of a band are spread evenly over the frames of its sensor.  When the sensor has
several frames, which start one after the other, the lines that have an acquisition time are
those of the frames, the first line of every frame is acquired when the frame starts, and later
lines are acquired later.  The lines that the band counts are among them as long as it does not
count more frames than the sensor has.
-/

/-- The lines of a frame as they are timed: one at least. -/
def Band.timedLines {α : Type} (band : Band α) : ℕ :=
  max band.sampling.linesPerFrame 1

namespace Imager

open SensorTiming (timeAt timeAt_lt frameStart)

variable {K : Type} [Field K] [LinearOrder K] [FloorRing K]

theorem lineTime_eq_frameTime? {imager : Imager K} {index : ℕ} {band : Band K}
    (hBand : imager.band index = .ok band) (line : K) :
    imager.lineTime index line =
      match (imager.timing band.sensor).frameTime? (line / band.timedLines) with
      | some time => .ok time
      | none => .error (.missingFrameTime line) := by
  unfold lineTime
  rw [hBand]
  rfl

variable [IsStrictOrderedRing K]

theorem timedLines_pos (band : Band K) : 0 < (band.timedLines : K) := by
  have hPositive : 0 < band.timedLines := lt_of_lt_of_le Nat.zero_lt_one (le_max_right _ _)
  exact_mod_cast hPositive

theorem lineTime_eq {imager : Imager K} {index : ℕ} {band : Band K}
    (hBand : imager.band index = .ok band)
    (hSeveral : 2 ≤ (imager.timing band.sensor).frameTimes.size) (line : K) :
    imager.lineTime index line =
      if 0 ≤ line ∧ line < (imager.timing band.sensor).frameTimes.size * band.timedLines then
        .ok (timeAt (imager.timing band.sensor).frameTimes (line / band.timedLines))
      else .error (.missingFrameTime line) := by
  have hLines := timedLines_pos band
  have hFrames : 0 ≤ line / band.timedLines ∧
      line / band.timedLines < (imager.timing band.sensor).frameTimes.size ↔
      0 ≤ line ∧ line < (imager.timing band.sensor).frameTimes.size * band.timedLines := by
    rw [le_div_iff₀ hLines, zero_mul, div_lt_iff₀ hLines]
  rw [lineTime_eq_frameTime? hBand, SensorTiming.frameTime?_eq hSeveral]
  simp only [hFrames]
  by_cases hWithin : 0 ≤ line ∧
      line < (imager.timing band.sensor).frameTimes.size * band.timedLines
  · rw [if_pos hWithin, if_pos hWithin]
  · rw [if_neg hWithin, if_neg hWithin]

/-- A line with an acquisition time lies in the frames, and its time is that of its frame
position. -/
theorem lineTime_cases {imager : Imager K} {index : ℕ} {band : Band K}
    (hBand : imager.band index = .ok band)
    (hSeveral : 2 ≤ (imager.timing band.sensor).frameTimes.size) {line time : K}
    (hTime : imager.lineTime index line = .ok time) :
    (0 ≤ line ∧ line < (imager.timing band.sensor).frameTimes.size * band.timedLines) ∧
      time = timeAt (imager.timing band.sensor).frameTimes (line / band.timedLines) := by
  rw [lineTime_eq hBand hSeveral] at hTime
  split at hTime
  · rename_i hWithin
    exact ⟨hWithin, (Except.ok.inj hTime).symm⟩
  · cases hTime

theorem lineTime_lt {imager : Imager K} {index : ℕ} {band : Band K}
    (hBand : imager.band index = .ok band)
    (hSeveral : 2 ≤ (imager.timing band.sensor).frameTimes.size)
    (hIncreasing : (imager.timing band.sensor).frameTimes.toList.Pairwise (· < ·))
    {line later time laterTime : K} (hTime : imager.lineTime index line = .ok time)
    (hLaterTime : imager.lineTime index later = .ok laterTime) (hLess : line < later) :
    time < laterTime := by
  have hLines := timedLines_pos band
  obtain ⟨⟨hNonneg, _⟩, rfl⟩ := lineTime_cases hBand hSeveral hTime
  obtain ⟨⟨_, hBelow⟩, rfl⟩ := lineTime_cases hBand hSeveral hLaterTime
  apply timeAt_lt hSeveral hIncreasing (div_nonneg hNonneg hLines.le)
  · exact div_lt_div_of_pos_right hLess hLines
  · exact (div_lt_iff₀ hLines).mpr hBelow

/-- The first line of a frame is acquired when the frame starts. -/
theorem lineTime_at_frame {imager : Imager K} {index : ℕ} {band : Band K}
    (hBand : imager.band index = .ok band)
    (hSeveral : 2 ≤ (imager.timing band.sensor).frameTimes.size) {frame : ℕ}
    (hFrame : frame < (imager.timing band.sensor).frameTimes.size) :
    imager.lineTime index (frame * band.timedLines : ℕ) =
      .ok (imager.timing band.sensor).frameTimes[frame] := by
  have hLines := timedLines_pos band
  have hPosition : ((frame * band.timedLines : ℕ) : K) / band.timedLines = frame := by
    push_cast
    exact mul_div_cancel_right₀ _ hLines.ne'
  have hWithin : 0 ≤ ((frame * band.timedLines : ℕ) : K) ∧
      ((frame * band.timedLines : ℕ) : K) <
        (imager.timing band.sensor).frameTimes.size * band.timedLines := by
    refine ⟨Nat.cast_nonneg _, ?_⟩
    push_cast
    gcongr
  rw [lineTime_eq hBand hSeveral, if_pos hWithin, hPosition, SensorTiming.timeAt_natCast,
    frameStart]
  simp [hFrame]

/-- The lines of some frames come before the end of all frames. -/
theorem counted_lt_timed {band : Band K} {frames line : ℕ}
    (hFrames : band.frameCount ≤ frames) (hCounted : line < band.lineCount) :
    (line : K) < frames * band.timedLines := by
  have hTimed : band.lineCount ≤ frames * band.timedLines :=
    Nat.mul_le_mul hFrames (le_max_left _ _)
  exact_mod_cast hCounted.trans_le hTimed

/-- With several frames that start one after the other, exactly the lines in these frames have
an acquisition time, later lines have later ones, and a line at the start of a frame is acquired
when the frame starts.  The lines that are counted for the band all have different times, in
their order, as long as the band counts no more frames than there are. -/
theorem lineTime_increases_over_frames {imager : Imager K} {index : ℕ} {band : Band K}
    (hBand : imager.band index = .ok band) {times : Array K}
    (hTimes : (imager.timing band.sensor).frameTimes = times) (hSeveral : 2 ≤ times.size)
    (hIncreasing : times.toList.Pairwise (· < ·)) :
    (∀ line : K, 0 ≤ line ∧ line < times.size * band.timedLines →
      ∃ time, imager.lineTime index line = .ok time) ∧
    (∀ line : K, ¬(0 ≤ line ∧ line < times.size * band.timedLines) →
      imager.lineTime index line = .error (.missingFrameTime line)) ∧
    (∀ line later time laterTime : K, imager.lineTime index line = .ok time →
      imager.lineTime index later = .ok laterTime → line < later → time < laterTime) ∧
    (∀ (frame : ℕ) (hFrame : frame < times.size),
      imager.lineTime index (frame * band.timedLines : ℕ) = .ok times[frame]) ∧
    (band.frameCount ≤ times.size →
      ∃ count, imager.lineCount index = .ok count ∧
        (∀ line < count, ∃ time, imager.lineTime index (line : K) = .ok time) ∧
        ∀ line later : ℕ, line < later → later < count → ∃ time laterTime,
          imager.lineTime index (line : K) = .ok time ∧
          imager.lineTime index (later : K) = .ok laterTime ∧ time < laterTime) := by
  subst hTimes
  have hLineTime := lineTime_eq hBand hSeveral
  have hSome (line : K) (hWithin : 0 ≤ line ∧
      line < (imager.timing band.sensor).frameTimes.size * band.timedLines) :
      ∃ time, imager.lineTime index line = .ok time :=
    ⟨_, by rw [hLineTime, if_pos hWithin]⟩
  refine ⟨hSome, ?_, ?_, ?_, ?_⟩
  · intro line hOutside
    rw [hLineTime, if_neg hOutside]
  · intro line later time laterTime hTime hLaterTime hLess
    exact lineTime_lt hBand hSeveral hIncreasing hTime hLaterTime hLess
  · intro frame hFrame
    exact lineTime_at_frame hBand hSeveral hFrame
  · intro hFrames
    have hCounted (line : ℕ) (hLine : line < band.lineCount) :
        ∃ time, imager.lineTime index (line : K) = .ok time :=
      hSome line ⟨Nat.cast_nonneg line, counted_lt_timed hFrames hLine⟩
    refine ⟨band.lineCount, by rw [lineCount, hBand]; rfl, hCounted, ?_⟩
    intro line later hLess hLater
    obtain ⟨time, hTime⟩ := hCounted line (hLess.trans hLater)
    obtain ⟨laterTime, hLaterTime⟩ := hCounted later hLater
    exact ⟨time, laterTime, hTime, hLaterTime,
      lineTime_lt hBand hSeveral hIncreasing hTime hLaterTime (Nat.cast_lt.mpr hLess)⟩

/-- A band that acquires two lines in each of three frames. -/
def threeFrameBand : Band ℚ where
  number := 8
  index := 0
  sensor := .oli
  present := true
  frameCount := 3
  sampling := { (Sampling.unknown : Sampling ℚ) with linesPerFrame := 2 }
  chips := #[]

/-- A model of that band, whose frames are of uneven length. -/
def threeFrames : Imager ℚ where
  satellite := .landsat8
  number := 8
  earth := EarthConstants.wgs84
  oli := { SensorTiming.initial .oli true with frameTimes := #[0, 4 / 1000, 9 / 1000] }
  tirs := SensorTiming.initial .tirs false
  bands := #[threeFrameBand]
  attitude := Attitude.Sequence.empty Epoch.default 0
  trajectory := ⟨Epoch.default, 0, #[]⟩

theorem lineTime_increases_over_frames_threeFrames :
    (∀ line : ℚ, 0 ≤ line ∧ line < (3 : ℕ) * threeFrameBand.timedLines →
      ∃ time, threeFrames.lineTime 0 line = .ok time) ∧
    (∀ line : ℚ, ¬(0 ≤ line ∧ line < (3 : ℕ) * threeFrameBand.timedLines) →
      threeFrames.lineTime 0 line = .error (.missingFrameTime line)) ∧
    (∀ line later time laterTime : ℚ, threeFrames.lineTime 0 line = .ok time →
      threeFrames.lineTime 0 later = .ok laterTime → line < later → time < laterTime) ∧
    threeFrames.lineTime 0 (2 * threeFrameBand.timedLines : ℕ) = .ok (9 / 1000) ∧
    ∃ count, threeFrames.lineCount 0 = .ok count ∧
      (∀ line < count, ∃ time, threeFrames.lineTime 0 (line : ℚ) = .ok time) ∧
      ∀ line later : ℕ, line < later → later < count → ∃ time laterTime,
        threeFrames.lineTime 0 (line : ℚ) = .ok time ∧
        threeFrames.lineTime 0 (later : ℚ) = .ok laterTime ∧ time < laterTime := by
  have hBand : threeFrames.band 0 = .ok threeFrameBand := rfl
  have hTimes : (threeFrames.timing .oli).frameTimes = #[0, 4 / 1000, 9 / 1000] := rfl
  have hIncreasing : (#[0, 4 / 1000, 9 / 1000] : Array ℚ).toList.Pairwise (· < ·) := by
    decide +kernel
  obtain ⟨hSome, hNone, hLess, hStart, hCounted⟩ :=
    lineTime_increases_over_frames hBand hTimes (by decide) hIncreasing
  exact ⟨hSome, hNone, hLess, hStart 2 (by decide), hCounted (by decide)⟩

end Imager
end Pushbroom
