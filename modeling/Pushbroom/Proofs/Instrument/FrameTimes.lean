import Pushbroom.Instrument.Timing
import Pushbroom.Proofs.Scalar.Exact

namespace Pushbroom
namespace SensorTiming

/-!
# Times of fractional frames

In exact arithmetic a frame position has a time when it lies in one of the frames, the whole of
the last one included.  Within a frame the time moves on evenly, from the start of the frame to
the start of the next; the last frame takes as long as the one before it.  When the frames of a
sensor start one after the other, the time moves on over all of them, across their boundaries.
-/

variable {K : Type} [Field K]

/-- The start of the frame at an index. -/
def frameStart (times : Array K) (index : ℕ) : K :=
  times.getD index 0

theorem getElem?_eq_frameStart {times : Array K} {index : ℕ} (hIndex : index < times.size) :
    times[index]? = some (frameStart times index) := by
  simp [frameStart, hIndex]

/-- How long the frame at an index takes: until the next one starts, and for the last one as
long as the one before. -/
def framePeriod (times : Array K) (index : ℕ) : K :=
  if index + 1 < times.size then frameStart times (index + 1) - frameStart times index
  else frameStart times index - frameStart times (index - 1)

section Starts

variable [LinearOrder K]

theorem frameStart_lt {times : Array K} (hIncreasing : times.toList.Pairwise (· < ·))
    {index later : ℕ} (hLater : index < later) (hBelow : later < times.size) :
    frameStart times index < frameStart times later := by
  have hIndex : index < times.size := hLater.trans hBelow
  have hStarts := List.pairwise_iff_getElem.mp hIncreasing index later hIndex hBelow hLater
  simpa [frameStart, hIndex, hBelow] using hStarts

theorem frameStart_le {times : Array K} (hIncreasing : times.toList.Pairwise (· < ·))
    {index later : ℕ} (hLater : index ≤ later) (hBelow : later < times.size) :
    frameStart times index ≤ frameStart times later := by
  rcases hLater.eq_or_lt with rfl | hLess
  · exact le_rfl
  · exact (frameStart_lt hIncreasing hLess hBelow).le

theorem framePeriod_pos [IsStrictOrderedRing K] {times : Array K} (hSeveral : 2 ≤ times.size)
    (hIncreasing : times.toList.Pairwise (· < ·)) {index : ℕ} (hIndex : index < times.size) :
    0 < framePeriod times index := by
  unfold framePeriod
  split
  · rename_i hNext
    exact sub_pos.mpr (frameStart_lt hIncreasing (Nat.lt_succ_self index) hNext)
  · exact sub_pos.mpr (frameStart_lt hIncreasing (by omega) hIndex)

end Starts

variable [LinearOrder K] [FloorRing K]

theorem timeWithin?_eq {times : Array K} (hSeveral : 2 ≤ times.size) {index : ℕ}
    (hIndex : index < times.size) (w : K) :
    timeWithin? times index w = some (frameStart times index + w * framePeriod times index) := by
  unfold timeWithin? framePeriod
  rw [getElem?_eq_frameStart hIndex]
  by_cases hNext : index + 1 < times.size
  · rw [getElem?_eq_frameStart hNext, if_pos hNext]
    rfl
  · have hBefore : index - 1 < times.size := by omega
    have hLater : index ≠ 0 := by omega
    rw [Array.getElem?_eq_none (by omega), getElem?_eq_frameStart hBefore, if_neg hNext]
    by_cases hStart : w = 0
    · simp [hStart]
    · simp [hStart, hLater]

/-- The time at a frame position. -/
def timeAt (times : Array K) (frame : K) : K :=
  frameStart times ⌊frame⌋₊ + (frame - ⌊frame⌋₊) * framePeriod times ⌊frame⌋₊

/-- A frame position has a time when it lies in one of the frames. -/
theorem frameTime?_eq {timing : SensorTiming K} (hSeveral : 2 ≤ timing.frameTimes.size)
    (frame : K) : timing.frameTime? frame =
      if 0 ≤ frame ∧ frame < timing.frameTimes.size then
        some (timeAt timing.frameTimes frame)
      else none := by
  have hPosition : Scalar.toPosition frame = ⌊frame⌋₊ := Int.floor_toNat frame
  unfold frameTime?
  rw [Scalar.isFinite_eq, hPosition]
  by_cases hWithin : 0 ≤ frame ∧ frame < timing.frameTimes.size
  · have hIndex : ⌊frame⌋₊ < timing.frameTimes.size :=
      (Nat.floor_lt hWithin.1).mpr hWithin.2
    rw [if_pos hWithin, if_neg (by simpa using hWithin)]
    exact timeWithin?_eq hSeveral hIndex _
  · have hOutside : frame < 0 ∨ (timing.frameTimes.size : K) ≤ frame := by
      rwa [not_and_or, not_le, not_lt] at hWithin
    rw [if_neg hWithin, if_pos (Or.inr hOutside)]

/-! ## Frames that start one after the other -/

variable [IsStrictOrderedRing K]

/-- A frame other than the last one is over when the next one starts. -/
theorem timeAt_lt_next {times : Array K} (hIncreasing : times.toList.Pairwise (· < ·))
    {frame : K} (hNext : ⌊frame⌋₊ + 1 < times.size) :
    timeAt times frame < frameStart times (⌊frame⌋₊ + 1) := by
  have hPeriod := sub_pos.mpr (frameStart_lt hIncreasing (Nat.lt_succ_self ⌊frame⌋₊) hNext)
  have hFraction : frame - ⌊frame⌋₊ < 1 := by
    have hFloor := Nat.lt_floor_add_one frame
    linarith
  rw [timeAt, framePeriod, if_pos hNext, ← lt_sub_iff_add_lt']
  exact mul_lt_of_lt_one_left hPeriod hFraction

theorem frameStart_le_timeAt {times : Array K} (hSeveral : 2 ≤ times.size)
    (hIncreasing : times.toList.Pairwise (· < ·)) {frame : K} (hNonneg : 0 ≤ frame)
    (hBelow : frame < times.size) : frameStart times ⌊frame⌋₊ ≤ timeAt times frame := by
  have hFraction : 0 ≤ frame - ⌊frame⌋₊ := sub_nonneg.mpr (Nat.floor_le hNonneg)
  have hPeriod := framePeriod_pos hSeveral hIncreasing ((Nat.floor_lt hNonneg).mpr hBelow)
  exact le_add_of_nonneg_right (mul_nonneg hFraction hPeriod.le)

theorem timeAt_natCast (times : Array K) (index : ℕ) :
    timeAt times (index : K) = frameStart times index := by
  simp [timeAt]

/-- The time moves on from frame position to frame position, within a frame and from one frame
to a later one. -/
theorem timeAt_lt {times : Array K} (hSeveral : 2 ≤ times.size)
    (hIncreasing : times.toList.Pairwise (· < ·)) {frame later : K} (hNonneg : 0 ≤ frame)
    (hLess : frame < later) (hBelow : later < times.size) :
    timeAt times frame < timeAt times later := by
  have hLater : 0 ≤ later := hNonneg.trans hLess.le
  have hIndex : ⌊later⌋₊ < times.size := (Nat.floor_lt hLater).mpr hBelow
  rcases (Nat.floor_mono hLess.le).eq_or_lt with hSame | hMoved
  · have hPeriod := framePeriod_pos hSeveral hIncreasing hIndex
    rw [timeAt, timeAt, hSame]
    gcongr
  · calc timeAt times frame
        < frameStart times (⌊frame⌋₊ + 1) := timeAt_lt_next hIncreasing (by omega)
      _ ≤ frameStart times ⌊later⌋₊ := frameStart_le hIncreasing hMoved hIndex
      _ ≤ timeAt times later := frameStart_le_timeAt hSeveral hIncreasing hLater hBelow

end SensorTiming
end Pushbroom
