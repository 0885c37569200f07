import Pushbroom.Proofs.Time.Shift

namespace Pushbroom

/-!
# To the calendar and back

An instant is told by a day of its year and the time of that day, and is found again from them.  An
epoch that is put on the calendar and told anew is the same one if its day is one of its year and
its seconds are whole nanoseconds of that day; any other epoch is brought into that form, and stays
as it is from then on.  Epochs are moved by sums of nanoseconds.

All this is exact but for the longest duration, as for epochs that are moved: no instant is further
away than that, and an epoch or an offset that leads there names another moment.
-/

namespace Instant

/-- The nanoseconds from the first moment of 1900 to the start of a year, however far away. -/
def yearStart (year : ℤ) : ℤ :=
  (Calendar.daysBeforeYear year - Calendar.daysBeforeYear originYear) * Calendar.nanosecondsPerDay

/-- A year that some instants are in is not out of reach. -/
theorem withinReach_of_yearStart {year : ℤ} (hLower : -longestDuration < yearStart (year + 1))
    (hUpper : yearStart year ≤ longestDuration) :
    (year - originYear).natAbs ≤ yearReach := by
  simp only [yearStart, Calendar.daysBeforeYear, Calendar.nanosecondsPerDay, longestDuration,
    originYear, yearReach] at *
  omega

/-- An instant is not before its year and before the next one. -/
theorem year_bounds (instant : Instant) :
    yearStart instant.year ≤ instant.elapsed.nanoseconds ∧
      instant.elapsed.nanoseconds < yearStart (instant.year + 1) := by
  obtain ⟨hStart, hNext⟩ := Calendar.day_in_yearOfDay
    (instant.elapsed.nanoseconds / Calendar.nanosecondsPerDay + Calendar.daysBeforeYear originYear)
  simp only [yearStart, year, Calendar.nanosecondsPerDay] at *
  omega

theorem year_eq {instant : Instant} {year : ℤ}
    (hStart : yearStart year ≤ instant.elapsed.nanoseconds)
    (hNext : instant.elapsed.nanoseconds < yearStart (year + 1)) : instant.year = year := by
  simp only [yearStart, Calendar.nanosecondsPerDay] at hStart hNext
  apply Calendar.yearOfDay_eq <;>
  · rw [Calendar.nanosecondsPerDay]
    omega

/-- Years start at the earliest instant where they would start before it. -/
theorem startOfYear_nanoseconds {year : ℤ} (hUpper : yearStart year ≤ longestDuration) :
    (startOfYear year).elapsed.nanoseconds = max (-longestDuration) (yearStart year) := by
  rw [← min_eq_right hUpper]
  exact Duration.nanoseconds_ofNanoseconds_eq _

theorem inYear_lt (instant : Instant) :
    instant.inYear < Calendar.daysInYear instant.year * Calendar.nanosecondsPerDay := by
  have hUpper := instant.elapsed.upper
  obtain ⟨hStart, hNext⟩ := instant.year_bounds
  rw [inYear, startOfYear_nanoseconds (hStart.trans hUpper)]
  have hLater := le_max_right (-longestDuration) (yearStart instant.year)
  have hLength : yearStart (instant.year + 1) = yearStart instant.year +
      Calendar.daysInYear instant.year * Calendar.nanosecondsPerDay := by
    simp only [yearStart, Calendar.daysInYear]
    ring
  omega

/-- Nothing longer than the longest duration is added without being cut off. -/
theorem Reaches.abs_le_longest {instant : Instant} {n : ℤ} (hReaches : instant.Reaches n) :
    |n| ≤ longestDuration := by
  have hLower := instant.elapsed.lower
  have hUpper := instant.elapsed.upper
  change (instant.elapsed + Duration.ofNanoseconds n).nanoseconds = _ at hReaches
  rw [Duration.nanoseconds_add_eq] at hReaches
  apply abs_le.mpr
  simp only [Duration.centuries, Duration.leastCenturies, nanosecondsPerCentury,
    Duration.nanoseconds_ofNanoseconds_eq, longestDuration] at *
  split at hReaches <;> omega

end Instant

namespace Epoch

variable {K : Type} [Field K] [LinearOrder K] [FloorRing K]

/-- The epoch that the instant of an epoch is told by. -/
def normalize (epoch : Epoch K) : Except (Error K) (Epoch K) := do
  let instant ← epoch.toInstant
  return ofInstant instant

/-- The day of an epoch is one of its year, and its seconds are whole nanoseconds of that day. -/
structure Normal (epoch : Epoch K) : Prop where
  one_le_day : 1 ≤ epoch.dayOfYear
  day_le : (epoch.dayOfYear : ℤ) ≤ Calendar.daysInYear epoch.year
  nonneg : 0 ≤ epoch.secondsOfDay
  lt_day : epoch.secondsOfDay < 86400
  whole : ∃ n : ℤ, epoch.secondsOfDay = (n : K) / 10 ^ 9

/-- The nanoseconds to an epoch from the first moment of 1900, with the days of a year that starts
before the earliest instant counted from there. -/
def counted (epoch : Epoch K) : K :=
  ((max (-longestDuration) (Instant.yearStart epoch.year) +
    ((epoch.dayOfYear : ℤ) - 1) * Calendar.nanosecondsPerDay : ℤ) : K) +
    epoch.secondsOfDay * 1e9

/-- The longest duration reaches to an epoch, which is before the next year. -/
structure Covered (epoch : Epoch K) : Prop where
  le_longest : epoch.counted ≤ (longestDuration : K)
  lt_next : epoch.counted < (Instant.yearStart (epoch.year + 1) : K)

variable [IsStrictOrderedRing K]

theorem Normal.exists_nanoseconds {epoch : Epoch K} (hNormal : epoch.Normal) :
    ∃ n : ℤ, 0 ≤ n ∧ n < Calendar.nanosecondsPerDay ∧ epoch.secondsOfDay = (n : K) / 10 ^ 9 := by
  obtain ⟨n, hWhole⟩ := hNormal.whole
  have hNonneg := hNormal.nonneg
  have hBelow := hNormal.lt_day
  rw [hWhole, le_div_iff₀ (by positivity), zero_mul] at hNonneg
  rw [hWhole, div_lt_iff₀ (by positivity)] at hBelow
  refine ⟨n, Int.cast_nonneg_iff.mp hNonneg, ?_, hWhole⟩
  have hDay : (n : K) < ((86400 * 10 ^ 9 : ℤ) : K) := by exact_mod_cast hBelow
  exact Int.cast_lt.mp hDay

omit [FloorRing K] in
theorem counted_nanoseconds (year : ℤ) (day : ℕ) (n : ℤ) :
    (Epoch.mk year day ((n : K) / 10 ^ 9)).counted =
      ((max (-longestDuration) (Instant.yearStart year) +
        ((day : ℤ) - 1) * Calendar.nanosecondsPerDay + n : ℤ) : K) := by
  have hUnit : (1e9 : K) = 10 ^ 9 := by norm_num
  rw [counted, hUnit, div_mul_cancel₀ _ (by positivity)]
  push_cast
  rfl

/-- No duration is cut off on the way to the instant of a covered epoch. -/
theorem Covered.exists_instant {year : ℤ} {day : ℕ} {n : ℤ}
    (hCovered : (Epoch.mk year day ((n : K) / 10 ^ 9)).Covered) (hFirst : 1 ≤ day)
    (hLast : (day : ℤ) ≤ Calendar.daysInYear year) (hNonneg : 0 ≤ n)
    (hBelow : n < Calendar.nanosecondsPerDay) :
    ∃ instant, (Epoch.mk year day ((n : K) / 10 ^ 9)).toInstant = .ok instant ∧
      instant.year = year ∧
      instant.inYear = n + ((day : ℤ) - 1) * Calendar.nanosecondsPerDay := by
  obtain ⟨hUpper, hNext⟩ := hCovered
  rw [counted_nanoseconds, Int.cast_le] at hUpper
  rw [counted_nanoseconds, Int.cast_lt] at hNext
  change _ < Instant.yearStart (year + 1) at hNext
  have hYear := (Calendar.daysInYear_bounds year).2
  have hLongest : 366 * Calendar.nanosecondsPerDay ≤ longestDuration := by decide
  have hPassed : 0 ≤ ((day : ℤ) - 1) * Calendar.nanosecondsPerDay ∧
      ((day : ℤ) - 1) * Calendar.nanosecondsPerDay ≤ 366 * Calendar.nanosecondsPerDay := by
    unfold Calendar.nanosecondsPerDay
    omega
  -- one number for the days, so that only sums are left
  generalize hDays : ((day : ℤ) - 1) * Calendar.nanosecondsPerDay = passed at *
  have hEarliest := le_max_left (-longestDuration) (Instant.yearStart year)
  have hYearStart := le_max_right (-longestDuration) (Instant.yearStart year)
  have hYearUpper : Instant.yearStart year ≤ longestDuration := by omega
  have hStart := Instant.startOfYear_nanoseconds hYearUpper
  have hReach := Instant.withinReach_of_yearStart (by omega) hYearUpper
  have hElapsed : (Instant.startOfYear year + Duration.ofNanoseconds passed +
      Duration.ofNanoseconds n).elapsed.nanoseconds =
        (Instant.startOfYear year).elapsed.nanoseconds + passed + n :=
    Duration.nanoseconds_add_ofNanoseconds _ hPassed.1 (by omega) hNonneg (by omega) (by omega)
  have hInstant := toInstant_nanoseconds (K := K) hReach day n
  rw [hDays] at hInstant
  have hSame : (Instant.startOfYear year + Duration.ofNanoseconds passed +
      Duration.ofNanoseconds n).year = year := Instant.year_eq (by omega) (by omega)
  refine ⟨_, hInstant, hSame, ?_⟩
  rw [Instant.inYear, hSame, hElapsed]
  ring

/-- The epoch of an instant is told by a day of its year and whole nanoseconds of that day. -/
theorem ofInstant_normal (instant : Instant) : (ofInstant instant : Epoch K).Normal := by
  have hDays : 0 ≤ instant.inYear / Calendar.nanosecondsPerDay :=
    Int.ediv_nonneg instant.inYear_bounds.1 (by decide)
  have hYear : instant.inYear / Calendar.nanosecondsPerDay < Calendar.daysInYear instant.year :=
    Int.ediv_lt_of_lt_mul (by decide) instant.inYear_lt
  have hNonneg := Int.emod_nonneg instant.inYear (b := Calendar.nanosecondsPerDay) (by decide)
  have hBelow := Int.emod_lt_of_pos instant.inYear (b := Calendar.nanosecondsPerDay) (by decide)
  rw [ofInstant_eq]
  refine ⟨Nat.le_add_left 1 _, ?_, ?_, ?_, ⟨_, rfl⟩⟩
  · push_cast
    rw [Int.toNat_of_nonneg hDays]
    omega
  · exact div_nonneg (Int.cast_nonneg hNonneg) (by positivity)
  · change _ / 10 ^ 9 < (86400 : K)
    rw [div_lt_iff₀ (by positivity)]
    have hDay : ((instant.inYear % Calendar.nanosecondsPerDay : ℤ) : K) <
        ((86400 * 10 ^ 9 : ℤ) : K) := Int.cast_lt.mpr hBelow
    exact_mod_cast hDay

theorem normalize_of_covered {epoch : Epoch K} (hNormal : epoch.Normal)
    (hCovered : epoch.Covered) : epoch.normalize = .ok epoch := by
  obtain ⟨n, hNonneg, hBelow, hSeconds⟩ := hNormal.exists_nanoseconds
  obtain ⟨hFirst, hLast, -, -, -⟩ := hNormal
  obtain ⟨year, day, seconds⟩ := epoch
  simp only at hFirst hLast hSeconds
  subst hSeconds
  obtain ⟨instant, hInstant, hYear, hInYear⟩ :=
    hCovered.exists_instant hFirst hLast hNonneg hBelow
  have hDay : instant.inYear / Calendar.nanosecondsPerDay = (day : ℤ) - 1 := by
    rw [hInYear, Int.add_mul_ediv_right _ _ (by decide), Int.ediv_eq_zero_of_lt hNonneg hBelow,
      zero_add]
  have hRest : instant.inYear % Calendar.nanosecondsPerDay = n := by
    rw [hInYear, Int.add_mul_emod_self_right, Int.emod_eq_of_lt hNonneg hBelow]
  have hCount : ((day : ℤ) - 1).toNat + 1 = day := by omega
  rw [normalize, hInstant, Failure.ok_bind, ofInstant_eq, hYear, hDay, hRest, hCount]
  rfl

theorem counted_ofInstant (instant : Instant) :
    (ofInstant instant : Epoch K).counted = (instant.elapsed.nanoseconds : K) := by
  have hDays : 0 ≤ instant.inYear / Calendar.nanosecondsPerDay :=
    Int.ediv_nonneg instant.inYear_bounds.1 (by decide)
  have hStart := instant.year_bounds.1
  rw [ofInstant_eq, counted_nanoseconds, Nat.cast_add_one, add_sub_cancel_right,
    Int.toNat_of_nonneg hDays, add_assoc, Int.ediv_mul_add_emod,
    ← Instant.startOfYear_nanoseconds (hStart.trans instant.elapsed.upper), Instant.inYear,
    add_sub_cancel]

theorem ofInstant_covered (instant : Instant) : (ofInstant instant : Epoch K).Covered := by
  have hNext := instant.year_bounds.2
  constructor
  · rw [counted_ofInstant]
    exact Int.cast_le.mpr instant.elapsed.upper
  · rw [counted_ofInstant]
    exact Int.cast_lt.mpr hNext

/-- The epochs that stay as they are. -/
theorem normalize_eq_self_iff {epoch : Epoch K} :
    epoch.normalize = .ok epoch ↔ epoch.Normal ∧ epoch.Covered := by
  constructor
  · intro hSame
    obtain ⟨instant, -, hInstant⟩ := Failure.bind_eq_ok.mp hSame
    rw [← Except.ok.inj hInstant]
    exact ⟨ofInstant_normal instant, ofInstant_covered instant⟩
  · rintro ⟨hNormal, hCovered⟩
    exact normalize_of_covered hNormal hCovered

/-- An epoch told anew stays as it is from then on. -/
theorem normalize_bind_normalize (epoch : Epoch K) :
    (epoch.normalize >>= normalize) = epoch.normalize := by
  unfold normalize
  cases epoch.toInstant with
  | error error => rfl
  | ok instant =>
    change (do let instant ← (ofInstant instant : Epoch K).toInstant; pure (ofInstant instant)) = _
    rw [toInstant_ofInstant]

omit [IsStrictOrderedRing K] in
theorem exists_normalize_iff {epoch : Epoch K} :
    (∃ normal, epoch.normalize = .ok normal) ↔ epoch.WithinReach := by
  rw [← exists_toInstant_iff]
  constructor
  · rintro ⟨normal, hNormal⟩
    obtain ⟨instant, hInstant, -⟩ := Failure.bind_eq_ok.mp hNormal
    exact ⟨instant, hInstant⟩
  · rintro ⟨instant, hInstant⟩
    exact ⟨ofInstant instant, by rw [normalize, hInstant]; rfl⟩

/-- The seconds between a moved epoch and the one that was moved. -/
theorem secondsBetween_offset {epoch : Epoch K} {instant : Instant} {n : ℤ}
    (hInstant : epoch.toInstant = .ok instant) (hReaches : instant.Reaches n) :
    ∃ moved, epoch.offset ((n : K) / 10 ^ 9) = .ok moved ∧
      secondsBetween moved epoch = .ok ((n : K) / 10 ^ 9) := by
  have hMoved := toInstant_ofInstant (K := K) (instant + Duration.ofNanoseconds n)
  have hApart : (instant + Duration.ofNanoseconds n).elapsed.nanoseconds -
      instant.elapsed.nanoseconds = n := by
    rw [hReaches, add_sub_cancel_left]
  refine ⟨_, offset_eq_ok_iff.mpr ⟨instant, hInstant, rfl⟩, ?_⟩
  rw [secondsBetween_of_comparable _ hMoved hInstant, hApart]
  intro stop hStop start hStart
  rw [hMoved] at hStop
  rw [hInstant] at hStart
  cases hStop
  cases hStart
  rw [hApart]
  exact hReaches.abs_le_longest

/-- An epoch that is moved twice is moved by the sum. -/
theorem offset_bind_offset {epoch : Epoch K} {instant : Instant} {a b : ℤ}
    (hInstant : epoch.toInstant = .ok instant) (hFirst : instant.Reaches a)
    (hSecond : (instant + Duration.ofNanoseconds a).Reaches b)
    (hBoth : instant.Reaches (a + b)) :
    ∃ moved, (epoch.offset ((a : K) / 10 ^ 9) >>= (offset · ((b : K) / 10 ^ 9))) = .ok moved ∧
      epoch.offset (((a + b : ℤ) : K) / 10 ^ 9) = .ok moved := by
  have hSame : instant + Duration.ofNanoseconds a + Duration.ofNanoseconds b =
      instant + Duration.ofNanoseconds (a + b) := by
    apply Instant.ext
    apply Duration.ext
    rw [hSecond, hFirst, hBoth, add_assoc]
  refine ⟨_, Failure.bind_eq_ok.mpr
    ⟨_, offset_eq_ok_iff.mpr ⟨instant, hInstant, rfl⟩, ?_⟩,
    offset_eq_ok_iff.mpr ⟨instant, hInstant, rfl⟩⟩
  exact offset_eq_ok_iff.mpr ⟨_, toInstant_ofInstant _, by rw [hSame]⟩

/-- The epoch of an instant is told by a day of its year, of which there are 365 or 366, and whole
nanoseconds of that day, and it names the instant again.  The epochs told so, and no others, stay as
they are on the way to an instant and back, unless the longest duration cuts them off; any other
epoch within reach stays as it is after one such way.  An offset in nanoseconds is the time between
the moved epoch and the one it was moved from, and offsets add up, as long as none of them is cut
off. -/
theorem roundTrip_exact :
    (∀ year, Calendar.daysInYear year =
      if 4 ∣ year ∧ (¬100 ∣ year ∨ 400 ∣ year) then 366 else 365) ∧
    (∀ instant, (ofInstant instant : Epoch K).Normal ∧
      (ofInstant instant : Epoch K).toInstant = .ok instant) ∧
    (∀ epoch : Epoch K, epoch.normalize = .ok epoch ↔ epoch.Normal ∧ epoch.Covered) ∧
    (∀ epoch : Epoch K, ((∃ normal, epoch.normalize = .ok normal) ↔ epoch.WithinReach) ∧
      (epoch.normalize >>= normalize) = epoch.normalize) ∧
    ∀ (epoch : Epoch K) (instant : Instant) (a b : ℤ), epoch.toInstant = .ok instant →
      instant.Reaches a →
        (∃ moved, epoch.offset ((a : K) / 10 ^ 9) = .ok moved ∧
          secondsBetween moved epoch = .ok ((a : K) / 10 ^ 9)) ∧
        ((instant + Duration.ofNanoseconds a).Reaches b → instant.Reaches (a + b) →
          ∃ moved, (epoch.offset ((a : K) / 10 ^ 9) >>= (offset · ((b : K) / 10 ^ 9))) =
              .ok moved ∧
            epoch.offset (((a + b : ℤ) : K) / 10 ^ 9) = .ok moved) := by
  refine ⟨Calendar.daysInYear_eq, fun instant => ⟨ofInstant_normal instant,
    toInstant_ofInstant instant⟩, fun _ => normalize_eq_self_iff,
    fun epoch => ⟨exists_normalize_iff, epoch.normalize_bind_normalize⟩, ?_⟩
  intro epoch instant a b hInstant hFirst
  exact ⟨secondsBetween_offset hInstant hFirst, offset_bind_offset hInstant hFirst⟩

/-- Half a second before the end of a leap year. -/
def leapYearEnd : Epoch ℚ :=
  ⟨2020, 366, 86399.5⟩

/-- The last second of a day that its year does not have. -/
def beyondYear : Epoch ℚ :=
  ⟨2019, 366, 86400⟩

theorem roundTrip_exact_leapYear :
    leapYearEnd.normalize = .ok leapYearEnd ∧
    (beyondYear.normalize = .ok ⟨2020, 2, 0⟩ ∧
      (beyondYear.normalize >>= normalize) = .ok ⟨2020, 2, 0⟩) ∧
    (leapYearEnd.offset (((10 ^ 9 : ℤ) : ℚ) / 10 ^ 9) = .ok ⟨2021, 1, 0.5⟩ ∧
      secondsBetween ⟨2021, 1, 0.5⟩ leapYearEnd = .ok (((10 ^ 9 : ℤ) : ℚ) / 10 ^ 9)) ∧
    (leapYearEnd.offset (((10 ^ 9 : ℤ) : ℚ) / 10 ^ 9) >>=
        (offset · (((-10 ^ 18 : ℤ) : ℚ) / 10 ^ 9))) =
      leapYearEnd.offset (((10 ^ 9 + -10 ^ 18 : ℤ) : ℚ) / 10 ^ 9) := by
  obtain ⟨-, -, hSame, hAgain, hMoves⟩ := roundTrip_exact (K := ℚ)
  have hInstant : leapYearEnd.toInstant =
      .ok ⟨Duration.ofNanoseconds 3818447999500000000⟩ :=
    Failure.eq_ok_of_toOption (by decide +kernel)
  have hBeyond : beyondYear.normalize = .ok ⟨2020, 2, 0⟩ :=
    Failure.eq_ok_of_toOption (by decide +kernel)
  have hMoved : leapYearEnd.offset (((10 ^ 9 : ℤ) : ℚ) / 10 ^ 9) = .ok ⟨2021, 1, 0.5⟩ :=
    Failure.eq_ok_of_toOption (by decide +kernel)
  have hNormal : leapYearEnd.Normal := by
    refine ⟨by decide, by decide, ?_, ?_, ⟨86399500000000, ?_⟩⟩ <;> norm_num [leapYearEnd]
  have hCovered : leapYearEnd.Covered := ⟨by decide +kernel, by decide +kernel⟩
  obtain ⟨⟨moved, hFirst, hBetween⟩, hSum⟩ :=
    hMoves leapYearEnd _ (10 ^ 9) (-10 ^ 18) hInstant (by decide +kernel)
  obtain ⟨_, hTwice, hOnce⟩ := hSum (by decide +kernel) (by decide +kernel)
  cases hMoved.symm.trans hFirst
  exact ⟨(hSame _).mpr ⟨hNormal, hCovered⟩, ⟨hBeyond, (hAgain _).2.trans hBeyond⟩,
    ⟨hMoved, hBetween⟩, hTwice.trans hOnce.symm⟩

/-- Beyond the longest duration an epoch becomes the latest one, which stays where it is a day
later, and in a year out of reach it does not come back at all. -/
theorem roundTrip_cut_off :
    ((Epoch.mk 3300000 1 0 : Epoch ℚ).Normal ∧
      (Epoch.mk 3300000 1 0 : Epoch ℚ).normalize = .ok ⟨3278767, 106, 0⟩) ∧
    ((Epoch.mk 3278767 106 0 : Epoch ℚ).offset (((86400 * 10 ^ 9 : ℤ) : ℚ) / 10 ^ 9) =
        .ok ⟨3278767, 106, 0⟩ ∧
      secondsBetween (⟨3278767, 106, 0⟩ : Epoch ℚ) ⟨3278767, 106, 0⟩ ≠
        .ok (((86400 * 10 ^ 9 : ℤ) : ℚ) / 10 ^ 9)) ∧
    (Epoch.mk 5885417 1 0 : Epoch ℚ).Normal ∧
      (Epoch.mk 5885417 1 0 : Epoch ℚ).normalize = .error (.yearOutOfReach 5885417) := by
  refine ⟨⟨⟨by decide, by decide, by decide, by norm_num, 0, by norm_num⟩, ?_⟩, ⟨?_, ?_⟩,
    ⟨by decide, by decide, by decide, by norm_num, 0, by norm_num⟩, rfl⟩
  · exact Failure.eq_ok_of_toOption (by decide +kernel)
  · exact Failure.eq_ok_of_toOption (by decide +kernel)
  · exact fun hSame => absurd (congrArg Except.toOption hSame) (by decide +kernel)

end Epoch

end Pushbroom
