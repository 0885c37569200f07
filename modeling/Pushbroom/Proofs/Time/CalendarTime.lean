import Mathlib.Algebra.BigOperators.Intervals
import Pushbroom.Proofs.Time.Instants

namespace Pushbroom

/-!
# Time told by the calendar

The time between two epochs can be told without instants: year after year is counted, then the
days of the last year, then the seconds of its last day.  The instants of the epochs tell the same
time as long as no duration is cut off, neither on the way from 1900 to one of the epochs nor
between the two.  The seconds of a day count as whole nanoseconds only.
-/

namespace Calendar

def yearLength (year : ℤ) : ℤ :=
  if 4 ∣ year ∧ (¬100 ∣ year ∨ 400 ∣ year) then 366 else 365

/-- The days from the start of one year to the start of another, one year after the other. -/
def daysBetween (start stop : ℤ) : ℤ :=
  ∑ k ∈ Finset.range (stop - start).toNat, yearLength (start + k) -
    ∑ k ∈ Finset.range (start - stop).toNat, yearLength (stop + k)

theorem sum_yearLength (start : ℤ) (count : ℕ) :
    ∑ k ∈ Finset.range count, yearLength (start + k) =
      daysBeforeYear (start + count) - daysBeforeYear start := by
  induction count with
  | zero => simp
  | succ count ih =>
      have hLength : yearLength (start + count) = daysInYear (start + count) :=
        (daysInYear_eq _).symm
      rw [Finset.sum_range_succ, ih, hLength, daysInYear, Nat.cast_add_one, ← add_assoc]
      ring

theorem daysBetween_eq (start stop : ℤ) :
    daysBetween start stop = daysBeforeYear stop - daysBeforeYear start := by
  rw [daysBetween, sum_yearLength, sum_yearLength]
  rcases le_total start stop with hOrder | hOrder
  · rw [Int.toNat_of_nonneg (sub_nonneg.mpr hOrder), Int.toNat_of_nonpos (sub_nonpos.mpr hOrder)]
    simp
  · rw [Int.toNat_of_nonneg (sub_nonneg.mpr hOrder), Int.toNat_of_nonpos (sub_nonpos.mpr hOrder)]
    simp

end Calendar

namespace Duration

/-- A duration of `step` nanoseconds is added to one of `count` and nothing is cut off. -/
structure Adds (count step : ℤ) : Prop where
  lower : -longestDuration ≤ step
  upper : step ≤ longestDuration
  centuries : leastCenturies ≤ count / nanosecondsPerCentury + step / nanosecondsPerCentury
  sum : count + step ≤ longestDuration

theorem Adds.nanoseconds {duration : Duration} {step : ℤ} (hAdds : Adds duration.nanoseconds step) :
    (duration + ofNanoseconds step).nanoseconds = duration.nanoseconds + step := by
  have hStep := nanoseconds_ofNanoseconds hAdds.lower hAdds.upper
  rw [nanoseconds_add, hStep]
  · change _ ≤ duration.nanoseconds / _ + (ofNanoseconds step).nanoseconds / _
    rw [hStep]
    exact hAdds.centuries
  · rw [hStep]
    exact hAdds.sum

end Duration

namespace Epoch

variable {K : Type}

/-- The nanoseconds from the start of 1900 to the start of the year of an epoch. -/
def yearCount (epoch : Epoch K) : ℤ :=
  Calendar.daysBetween 1900 epoch.year * (86400 * 10 ^ 9)

/-- The nanoseconds of the days that go before the day of an epoch in its year. -/
def dayCount (epoch : Epoch K) : ℤ :=
  ((epoch.dayOfYear : ℤ) - 1) * (86400 * 10 ^ 9)

theorem yearCount_eq (epoch : Epoch K) :
    epoch.yearCount =
      (Calendar.daysBeforeYear epoch.year - Calendar.daysBeforeYear Instant.originYear) *
        Calendar.nanosecondsPerDay := by
  rw [yearCount, Calendar.daysBetween_eq]
  rfl

variable [Field K] [LinearOrder K] [FloorRing K]

/-- The integer next to a number in the direction of zero. -/
def cut (x : K) : ℤ :=
  if x < 0 then ⌈x⌉ else ⌊x⌋

/-- The whole nanoseconds of the seconds of day of an epoch. -/
def restCount (epoch : Epoch K) : ℤ :=
  cut (epoch.secondsOfDay * 10 ^ 9)

/-- The nanoseconds from the start of 1900 to an epoch. -/
def calendarTime (epoch : Epoch K) : ℤ :=
  epoch.yearCount + epoch.dayCount + epoch.restCount

/-- The seconds from one epoch to another, counted in whole nanoseconds. -/
def calendarDifference (later earlier : Epoch K) : K :=
  ((later.calendarTime - earlier.calendarTime : ℤ) : K) / 10 ^ 9

/-- The seconds from the start of 1900 to an epoch, however small and however many. -/
def calendarSeconds (epoch : Epoch K) : K :=
  ((Calendar.daysBetween 1900 epoch.year + ((epoch.dayOfYear : ℤ) - 1) : ℤ) : K) * 86400 +
    epoch.secondsOfDay

/-- Nothing is cut off on the way to an epoch. -/
structure Representable (epoch : Epoch K) : Prop where
  year : |epoch.yearCount| ≤ longestDuration
  day : Duration.Adds epoch.yearCount epoch.dayCount
  rest : Duration.Adds (epoch.yearCount + epoch.dayCount) epoch.restCount

theorem Representable.withinReach {epoch : Epoch K} (hEpoch : epoch.Representable) :
    epoch.WithinReach := by
  have hYear := abs_le.mp hEpoch.year
  simp only [yearCount_eq, Calendar.daysBeforeYear, Calendar.nanosecondsPerDay, longestDuration,
    WithinReach, Instant.originYear, Instant.yearReach] at *
  omega

variable [IsStrictOrderedRing K]

theorem trunc?_eq (x : K) : Scalar.trunc? x = some (cut x) := by
  unfold Scalar.trunc? cut
  split
  · change Option.map _ (some ⌊-x⌋) = _
    rw [Int.floor_neg]
    simp
  · rfl

theorem restCount_of_whole {epoch : Epoch K} {n : ℤ} (hWhole : epoch.secondsOfDay * 10 ^ 9 = n) :
    epoch.restCount = n := by
  rw [restCount, hWhole]
  exact Option.some.inj ((trunc?_eq _).symm.trans (Duration.trunc?_intCast n))

theorem calendarTime_of_whole {epoch : Epoch K} {n : ℤ} (hWhole : epoch.secondsOfDay * 10 ^ 9 = n) :
    epoch.calendarTime =
      (Calendar.daysBeforeYear epoch.year - Calendar.daysBeforeYear Instant.originYear +
        ((epoch.dayOfYear : ℤ) - 1)) * Calendar.nanosecondsPerDay + n := by
  rw [calendarTime, restCount_of_whole hWhole, yearCount_eq, add_mul]
  rfl

/-- Nothing is cut off for a day and a second that a year and a day have, in more than three million
years to both sides. -/
theorem representable_of_near {epoch : Epoch K} (hYear : epoch.year.natAbs ≤ 3270000)
    (hDay : 1 ≤ epoch.dayOfYear ∧ epoch.dayOfYear ≤ 366)
    (hSeconds : 0 ≤ epoch.secondsOfDay ∧ epoch.secondsOfDay ≤ 86401) : epoch.Representable := by
  have hScaled : 0 ≤ epoch.secondsOfDay * 10 ^ 9 := mul_nonneg hSeconds.1 (by positivity)
  have hRest : epoch.restCount = ⌊epoch.secondsOfDay * 10 ^ 9⌋ := if_neg (not_lt.mpr hScaled)
  have hLower : 0 ≤ epoch.restCount := hRest ▸ Int.floor_nonneg.mpr hScaled
  have hUpper : epoch.restCount ≤ 86401 * 10 ^ 9 := by
    have hFloor : (epoch.restCount : K) ≤ epoch.secondsOfDay * 10 ^ 9 := hRest ▸ Int.floor_le _
    have hBound : epoch.secondsOfDay * 10 ^ 9 ≤ 86401 * 10 ^ 9 := by gcongr; exact hSeconds.2
    exact_mod_cast hFloor.trans hBound
  have hCount := epoch.yearCount_eq
  simp only [Calendar.daysBeforeYear, Calendar.nanosecondsPerDay, Instant.originYear] at hCount
  have hDayCount : epoch.dayCount = ((epoch.dayOfYear : ℤ) - 1) * (86400 * 10 ^ 9) := rfl
  refine ⟨abs_le.mpr ?_, ⟨?_, ?_, ?_, ?_⟩, ⟨?_, ?_, ?_, ?_⟩⟩ <;>
    simp only [longestDuration, Duration.leastCenturies, nanosecondsPerCentury] <;> omega

theorem toInstant_eq {epoch : Epoch K} (hReach : epoch.WithinReach) :
    epoch.toInstant = .ok (Instant.startOfYear epoch.year +
      Duration.ofNanoseconds epoch.dayCount + Duration.ofNanoseconds epoch.restCount) := by
  apply toInstant_of_ofSeconds hReach
  have hUnit : (1e9 : K) = 10 ^ 9 := by norm_num
  rw [Duration.ofSeconds, Duration.ofUnits, trunc?_eq, hUnit, restCount]

theorem Representable.exists_instant {epoch : Epoch K} (hEpoch : epoch.Representable) :
    ∃ instant, epoch.toInstant = .ok instant ∧
      instant.elapsed.nanoseconds = epoch.calendarTime := by
  refine ⟨_, toInstant_eq hEpoch.withinReach, ?_⟩
  obtain ⟨hLower, hUpper⟩ := abs_le.mp hEpoch.year
  have hYear : (Instant.startOfYear epoch.year).elapsed.nanoseconds = epoch.yearCount := by
    rw [yearCount_eq] at *
    exact Duration.nanoseconds_ofNanoseconds hLower hUpper
  have hDay : ((Instant.startOfYear epoch.year).elapsed +
      Duration.ofNanoseconds epoch.dayCount).nanoseconds = epoch.yearCount + epoch.dayCount := by
    rw [← hYear]
    exact Duration.Adds.nanoseconds (hYear ▸ hEpoch.day)
  have hRest := Duration.Adds.nanoseconds (hDay ▸ hEpoch.rest)
  rw [hDay] at hRest
  exact hRest

/-- The seconds between two epochs are those of the calendar, but for what is longer than the
longest duration. -/
theorem secondsBetween_of_representable {later earlier : Epoch K} (hLater : later.Representable)
    (hEarlier : earlier.Representable) :
    secondsBetween later earlier =
      .ok ((max (-longestDuration)
        (min longestDuration (later.calendarTime - earlier.calendarTime)) : ℤ) / 10 ^ 9) := by
  obtain ⟨stop, hStop, hStopTime⟩ := hLater.exists_instant
  obtain ⟨start, hStart, hStartTime⟩ := hEarlier.exists_instant
  refine secondsBetween_eq_ok_iff.mpr ⟨stop, start, hStop, hStart, ?_⟩
  change _ = ((Duration.ofNanoseconds
    (stop.elapsed.nanoseconds - start.elapsed.nanoseconds)).nanoseconds : K) / _
  rw [Duration.nanoseconds_ofNanoseconds_eq, hStopTime, hStartTime]

theorem secondsBetween_eq_calendarDifference {later earlier : Epoch K}
    (hLater : later.Representable) (hEarlier : earlier.Representable)
    (hDifference : |later.calendarTime - earlier.calendarTime| ≤ longestDuration) :
    secondsBetween later earlier = .ok (later.calendarDifference earlier) := by
  obtain ⟨hLower, hUpper⟩ := abs_le.mp hDifference
  rw [secondsBetween_of_representable hLater hEarlier, min_eq_right hUpper, max_eq_right hLower,
    calendarDifference]

end Epoch

end Pushbroom
