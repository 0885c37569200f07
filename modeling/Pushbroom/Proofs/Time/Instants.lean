import Pushbroom.Proofs.Time.Calendar
import Pushbroom.Proofs.Time.Exact

namespace Pushbroom

/-!
# Instants and their epochs

Every instant lies within a year of the start of the year that is found for it, even where
that start is before the earliest instant and is cut off.  The epoch of an instant counts
whole days and the rest from there, so it names the instant it was made from: it is never out
of reach, and nothing is lost on the way to the calendar and back.
-/

namespace Duration

/-- A number of nanoseconds is brought within the longest durations. -/
theorem nanoseconds_ofNanoseconds_eq (n : ℤ) :
    (ofNanoseconds n).nanoseconds = max (-longestDuration) (min longestDuration n) := by
  unfold ofNanoseconds
  split
  · change longestDuration = _
    unfold longestDuration at *
    omega
  · split
    · change -longestDuration = _
      unfold longestDuration at *
      omega
    · change n = _
      omega

theorem nanoseconds_add_eq (a b : Duration) :
    (a + b).nanoseconds = if a.centuries + b.centuries < leastCenturies then -longestDuration
      else max (-longestDuration) (min longestDuration (a.nanoseconds + b.nanoseconds)) := by
  change (if _ then longestBackward else ofNanoseconds _).nanoseconds = _
  rw [apply_ite nanoseconds, nanoseconds_ofNanoseconds_eq]
  rfl

theorem lower_le_centuries (duration : Duration) : leastCenturies ≤ duration.centuries := by
  have hLower := duration.lower
  simp only [centuries, leastCenturies, nanosecondsPerCentury, longestDuration] at *
  omega

/-- A sum with a duration forward is exact up to the longest duration. -/
theorem nanoseconds_add_of_nonneg {a b : Duration} (hForward : 0 ≤ b.nanoseconds)
    (hUpper : a.nanoseconds + b.nanoseconds ≤ longestDuration) :
    (a + b).nanoseconds = a.nanoseconds + b.nanoseconds := by
  have hLeast := a.lower_le_centuries
  have hCenturies : 0 ≤ b.centuries := Int.ediv_nonneg hForward (by decide)
  exact nanoseconds_add (by omega) hUpper

/-- Two durations forward, one after the other, are exact up to the longest duration. -/
theorem nanoseconds_add_ofNanoseconds (start : Duration) {days rest : ℤ} (hDays : 0 ≤ days)
    (hDaysUpper : days ≤ longestDuration) (hRest : 0 ≤ rest) (hRestUpper : rest ≤ longestDuration)
    (hUpper : start.nanoseconds + days + rest ≤ longestDuration) :
    (start + ofNanoseconds days + ofNanoseconds rest).nanoseconds =
      start.nanoseconds + days + rest := by
  have hDaysExact : (ofNanoseconds days).nanoseconds = days :=
    nanoseconds_ofNanoseconds (by omega) hDaysUpper
  have hRestExact : (ofNanoseconds rest).nanoseconds = rest :=
    nanoseconds_ofNanoseconds (by omega) hRestUpper
  have hDay : (start + ofNanoseconds days).nanoseconds = start.nanoseconds + days := by
    rw [nanoseconds_add_of_nonneg (by omega) (by omega), hDaysExact]
  rw [nanoseconds_add_of_nonneg (by omega) (by omega), hDay, hRestExact]

section Units

variable {K : Type} [Field K] [LinearOrder K] [FloorRing K] [IsStrictOrderedRing K]

theorem trunc?_intCast (n : ℤ) : Scalar.trunc? (n : K) = some n := by
  unfold Scalar.trunc?
  split
  · change Option.map _ (some ⌊(-(n : K))⌋) = some n
    rw [← Int.cast_neg, Int.floor_intCast]
    simp
  · change some ⌊(n : K)⌋ = some n
    rw [Int.floor_intCast]

theorem ofUnits_eq_of_mul_eq {count unit : K} {n : ℤ} (hProduct : count * unit = n) :
    ofUnits count unit = .ok (ofNanoseconds n) := by
  rw [ofUnits, hProduct, trunc?_intCast]

theorem ofSeconds_nanoseconds (n : ℤ) :
    ofSeconds ((n : K) / 10 ^ 9) = .ok (ofNanoseconds n) := by
  apply ofUnits_eq_of_mul_eq
  have hUnit : (1e9 : K) = 10 ^ 9 := by norm_num
  rw [hUnit]
  exact div_mul_cancel₀ _ (by positivity)

theorem ofDays_intCast (days : ℤ) :
    ofDays (days : K) = .ok (ofNanoseconds (days * Calendar.nanosecondsPerDay)) := by
  apply ofUnits_eq_of_mul_eq
  have hUnit : (8.64e13 : K) = (Calendar.nanosecondsPerDay : K) := by
    norm_num [Calendar.nanosecondsPerDay]
  rw [hUnit]
  push_cast
  rfl

end Units

end Duration

namespace Instant

/-- The nanoseconds from the start of the year of an instant. -/
def inYear (instant : Instant) : ℤ :=
  instant.elapsed.nanoseconds - (startOfYear instant.year).elapsed.nanoseconds

theorem inYear_bounds (instant : Instant) :
    0 ≤ instant.inYear ∧ instant.inYear < 366 * Calendar.nanosecondsPerDay := by
  have hLower := instant.elapsed.lower
  have hUpper := instant.elapsed.upper
  obtain ⟨hStart, hNext⟩ := Calendar.day_in_yearOfDay
    (instant.elapsed.nanoseconds / Calendar.nanosecondsPerDay + Calendar.daysBeforeYear originYear)
  have hLength := (Calendar.daysInYear_bounds instant.year).2
  unfold Calendar.daysInYear at hLength
  change Calendar.daysBeforeYear instant.year ≤ _ at hStart
  change _ < Calendar.daysBeforeYear (instant.year + 1) at hNext
  -- the start of the year may be cut off, but only where it is before all instants
  simp only [inYear, startOfYear, Duration.nanoseconds_ofNanoseconds_eq,
    Calendar.nanosecondsPerDay] at *
  omega

theorem year_withinReach (instant : Instant) :
    (instant.year - originYear).natAbs ≤ yearReach := by
  have hLower := instant.elapsed.lower
  have hUpper := instant.elapsed.upper
  obtain ⟨hStart, hNext⟩ := Calendar.day_in_yearOfDay
    (instant.elapsed.nanoseconds / Calendar.nanosecondsPerDay + Calendar.daysBeforeYear originYear)
  change Calendar.daysBeforeYear instant.year ≤ _ at hStart
  change _ < Calendar.daysBeforeYear (instant.year + 1) at hNext
  simp only [Calendar.daysBeforeYear, Calendar.nanosecondsPerDay, longestDuration, originYear,
    yearReach] at *
  omega

/-- The days and the rest of the time since the start of its year lead to an instant. -/
theorem startOfYear_add_inYear (instant : Instant) :
    startOfYear instant.year +
        Duration.ofNanoseconds
          (instant.inYear / Calendar.nanosecondsPerDay * Calendar.nanosecondsPerDay) +
        Duration.ofNanoseconds (instant.inYear % Calendar.nanosecondsPerDay) = instant := by
  obtain ⟨hNonneg, hYear⟩ := instant.inYear_bounds
  have hUpper := instant.elapsed.upper
  have hStart : instant.inYear = instant.elapsed.nanoseconds -
      (startOfYear instant.year).elapsed.nanoseconds := rfl
  have hSplit := Int.ediv_mul_add_emod instant.inYear Calendar.nanosecondsPerDay
  have hRest := Int.emod_nonneg instant.inYear (b := Calendar.nanosecondsPerDay) (by decide)
  have hDays : 0 ≤ instant.inYear / Calendar.nanosecondsPerDay * Calendar.nanosecondsPerDay :=
    mul_nonneg (Int.ediv_nonneg hNonneg (by decide)) (by decide)
  have hLongest : 366 * Calendar.nanosecondsPerDay ≤ longestDuration := by decide
  generalize instant.inYear / Calendar.nanosecondsPerDay * Calendar.nanosecondsPerDay = days at *
  generalize instant.inYear % Calendar.nanosecondsPerDay = rest at *
  have hExact := Duration.nanoseconds_add_ofNanoseconds
    (startOfYear instant.year).elapsed hDays (by omega) hRest (by omega) (by omega)
  apply Instant.ext
  apply Duration.ext
  exact hExact.trans (by omega)

end Instant

namespace Epoch

variable {K : Type} [Field K] [LinearOrder K] [FloorRing K] [IsStrictOrderedRing K]

theorem floor_days (n : ℤ) :
    Scalar.floor ((n : K) / 10 ^ 9 / secondsPerDay) =
      ((n / Calendar.nanosecondsPerDay : ℤ) : K) := by
  have hDay : (n : K) / 10 ^ 9 / secondsPerDay = (n : K) / (86400000000000 : ℕ) := by
    have hSeconds : (secondsPerDay : K) = 86400 := by norm_num [secondsPerDay]
    rw [hSeconds]
    push_cast
    rw [div_div]
    norm_num
  change ((⌊(n : K) / 10 ^ 9 / secondsPerDay⌋ : ℤ) : K) = _
  rw [hDay, Int.floor_div_natCast, Int.floor_intCast]
  rfl

/-- The epoch of an instant, with the days and the nanoseconds of the day counted exactly. -/
theorem ofInstant_eq (instant : Instant) :
    (ofInstant instant : Epoch K) =
      ⟨instant.year, (instant.inYear / Calendar.nanosecondsPerDay).toNat + 1,
        ((instant.inYear % Calendar.nanosecondsPerDay : ℤ) : K) / 10 ^ 9⟩ := by
  obtain ⟨hNonneg, hYear⟩ := instant.inYear_bounds
  have hElapsed : ((instant - Instant.startOfYear instant.year).toSeconds : K) =
      (instant.inYear : K) / 10 ^ 9 := by
    rw [Duration.toSeconds_eq]
    congr 2
    apply Duration.nanoseconds_sub
    · change -longestDuration ≤ instant.inYear
      simp only [longestDuration, Calendar.nanosecondsPerDay] at *
      omega
    · change instant.inYear ≤ longestDuration
      simp only [longestDuration, Calendar.nanosecondsPerDay] at *
      omega
  have hRest : ((instant.inYear % Calendar.nanosecondsPerDay : ℤ) : K) / 10 ^ 9 =
      (instant.inYear : K) / 10 ^ 9 -
        ((instant.inYear / Calendar.nanosecondsPerDay : ℤ) : K) * secondsPerDay := by
    have hSeconds : (secondsPerDay : K) = 86400 := by norm_num [secondsPerDay]
    rw [Int.emod_def, hSeconds, Calendar.nanosecondsPerDay]
    push_cast
    ring
  simp only [ofInstant, hElapsed, floor_days, Scalar.toPosition_intCast, hRest]

/-- The days and the nanoseconds of an epoch within reach follow the start of its year. -/
theorem toInstant_of_ofSeconds {epoch : Epoch K} (hReach : epoch.WithinReach) {n : ℤ}
    (hSeconds : Duration.ofSeconds epoch.secondsOfDay = .ok (Duration.ofNanoseconds n)) :
    epoch.toInstant = .ok (Instant.startOfYear epoch.year +
      Duration.ofNanoseconds (((epoch.dayOfYear : ℤ) - 1) * Calendar.nanosecondsPerDay) +
        Duration.ofNanoseconds n) := by
  have hCount : (epoch.dayOfYear : K) - 1 = (((epoch.dayOfYear : ℤ) - 1 : ℤ) : K) := by
    push_cast
    rfl
  rw [toInstant, if_neg (Nat.not_lt.mpr hReach), hCount, Duration.ofDays_intCast, Failure.ok_bind,
    hSeconds, Failure.ok_bind]
  rfl

theorem toInstant_nanoseconds {year : ℤ}
    (hReach : (year - Instant.originYear).natAbs ≤ Instant.yearReach) (day : ℕ) (n : ℤ) :
    (Epoch.mk year day ((n : K) / 10 ^ 9)).toInstant =
      .ok (Instant.startOfYear year +
        Duration.ofNanoseconds (((day : ℤ) - 1) * Calendar.nanosecondsPerDay) +
          Duration.ofNanoseconds n) := by
  have hEpoch : (Epoch.mk year day ((n : K) / 10 ^ 9)).WithinReach := hReach
  exact toInstant_of_ofSeconds hEpoch (Duration.ofSeconds_nanoseconds n)

/-- The epoch of an instant names that instant. -/
theorem toInstant_ofInstant (instant : Instant) :
    (ofInstant instant : Epoch K).toInstant = .ok instant := by
  have hDays : 0 ≤ instant.inYear / Calendar.nanosecondsPerDay :=
    Int.ediv_nonneg instant.inYear_bounds.1 (by decide)
  -- the days are counted from one, so that the first day is none after the start
  have hCount : (((instant.inYear / Calendar.nanosecondsPerDay).toNat + 1 : ℕ) : ℤ) - 1 =
      instant.inYear / Calendar.nanosecondsPerDay := by
    rw [Nat.cast_add_one, add_sub_cancel_right, Int.toNat_of_nonneg hDays]
  rw [ofInstant_eq, toInstant_nanoseconds instant.year_withinReach, hCount]
  exact congrArg Except.ok instant.startOfYear_add_inYear

end Epoch

end Pushbroom
