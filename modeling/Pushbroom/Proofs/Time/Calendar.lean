import Mathlib.Tactic
import Pushbroom.Time.Calendar

namespace Pushbroom
namespace Calendar

/-!
# Days and years

The year found for a day is the one that the day lies in: its January 1st is not after the day,
and that of the next year is.  No other year has that day.  A year has 365 or 366 days.

The count of days before a year splits along the cycles that the year of a day is found by.
What is left of a day after its cycles is less than a year of 365 days, except for the last day
of a leap year, which is the last one of a cycle of 4 or of 400 years.
-/

theorem daysInYear_bounds (year : Int) : 365 ≤ daysInYear year ∧ daysInYear year ≤ 366 := by
  simp only [daysInYear, daysBeforeYear]
  omega

/-- The leap years are those with a day more. -/
theorem daysInYear_eq (year : Int) :
    daysInYear year = if 4 ∣ year ∧ (¬100 ∣ year ∨ 400 ∣ year) then 366 else 365 := by
  simp only [daysInYear, daysBeforeYear]
  split <;> omega

theorem daysBeforeYear_cycles (era : Int) {century quad single : Int}
    (hCentury : 0 ≤ century ∧ century ≤ 3) (hQuad : 0 ≤ quad ∧ quad ≤ 24)
    (hSingle : 0 ≤ single ∧ single ≤ 3) :
    daysBeforeYear (400 * era + 100 * century + 4 * quad + single + 1) =
      146097 * era + 36524 * century + 1461 * quad + 365 * single := by
  simp only [daysBeforeYear]
  omega

theorem yearOfDay_cycles (day : Int) :
    ∃ era century quad single left : Int,
      (0 ≤ century ∧ century ≤ 3) ∧ (0 ≤ quad ∧ quad ≤ 24) ∧ (0 ≤ single ∧ single ≤ 3) ∧
      yearOfDay day = 400 * era + 100 * century + 4 * quad + single + 1 ∧
      day = 146097 * era + 36524 * century + 1461 * quad + 365 * single + left ∧
      0 ≤ left ∧ (left < 365 ∨ left = 365 ∧ single = 3 ∧ (quad < 24 ∨ century = 3)) := by
  refine ⟨day / 146097, min (day % 146097 / 36524) 3,
    (day % 146097 - min (day % 146097 / 36524) 3 * 36524) / 1461, _, _, ?_, ?_, ?_, rfl,
    (add_sub_cancel _ day).symm, ?_, ?_⟩ <;>
  omega

/-- A day lies in its year. -/
theorem day_in_yearOfDay (day : Int) :
    daysBeforeYear (yearOfDay day) ≤ day ∧ day < daysBeforeYear (yearOfDay day + 1) := by
  obtain ⟨era, century, quad, single, left, hCentury, hQuad, hSingle, hYear, hDay, hNonneg,
    hLeft⟩ := yearOfDay_cycles day
  have hStart := daysBeforeYear_cycles era hCentury hQuad hSingle
  rw [hYear]
  refine ⟨by omega, ?_⟩
  -- a year of 366 days when the day is the one beyond its 365
  simp only [daysBeforeYear] at hStart ⊢
  omega

theorem daysBeforeYear_le {year later : Int} (hOrder : year ≤ later) :
    daysBeforeYear year ≤ daysBeforeYear later := by
  simp only [daysBeforeYear]
  omega

/-- A day lies in one year only. -/
theorem yearOfDay_eq {day year : Int} (hStart : daysBeforeYear year ≤ day)
    (hNext : day < daysBeforeYear (year + 1)) : yearOfDay day = year := by
  obtain ⟨hFoundStart, hFoundNext⟩ := day_in_yearOfDay day
  rcases lt_trichotomy (yearOfDay day) year with hBefore | hSame | hAfter
  · have hOrder := daysBeforeYear_le (Int.add_one_le_of_lt hBefore)
    omega
  · exact hSame
  · have hOrder := daysBeforeYear_le (Int.add_one_le_of_lt hAfter)
    omega

end Calendar
end Pushbroom
