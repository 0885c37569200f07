namespace Pushbroom
namespace Calendar

/-!
# The proleptic Gregorian calendar

Days are counted from January 1st of the year 1, which is day 0; years before it continue
as 0, -1 and so on.  A year divisible by 4 is a leap year, except that of the years
divisible by 100 only those divisible by 400 are.  Every day has 86400 seconds.

The year of a day is found by taking away whole cycles of 400, 100, 4 and 1 years.  The
last year of a cycle of 400 or of 4 years is one day longer, which is why the count of
inner cycles stops at three.
-/

/-- The number of days before January 1st of a year. -/
def daysBeforeYear (year : Int) : Int :=
  let elapsed := year - 1
  365 * elapsed + elapsed / 4 - elapsed / 100 + elapsed / 400

def daysInYear (year : Int) : Int :=
  daysBeforeYear (year + 1) - daysBeforeYear year

/-- The year a day belongs to. -/
def yearOfDay (day : Int) : Int :=
  let era := day / 146097
  let inEra := day % 146097
  let century := min (inEra / 36524) 3
  let inCentury := inEra - century * 36524
  let quad := inCentury / 1461
  let inQuad := inCentury - quad * 1461
  let single := min (inQuad / 365) 3
  400 * era + 100 * century + 4 * quad + single + 1

def nanosecondsPerDay : Int :=
  86400000000000

end Calendar
end Pushbroom
