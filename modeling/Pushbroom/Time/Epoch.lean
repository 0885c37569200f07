import Pushbroom.Time.Calendar
import Pushbroom.Time.Duration

namespace Pushbroom

/-!
# Epochs

An epoch names a moment by its year, its day of year and its seconds of day.  For
arithmetic it is put on the calendar as an `Instant`, which is exact to the nanosecond.
Two epochs that name the same moment in different ways have the same instant, which is why
epochs are compared by `secondsBetween`.
-/

/-- A moment, told by the duration that has passed since the first moment of 1900. -/
@[ext] structure Instant where
  elapsed : Duration
deriving DecidableEq

namespace Instant

/-- The moment a duration later. -/
instance : HAdd Instant Duration Instant :=
  ⟨fun instant duration => ⟨instant.elapsed + duration⟩⟩

/-- The duration from the second moment to the first. -/
instance : HSub Instant Instant Duration :=
  ⟨fun later earlier => later.elapsed - earlier.elapsed⟩

/-- Moments are ordered in time. -/
instance : LE Instant :=
  ⟨fun earlier later => earlier.elapsed.nanoseconds ≤ later.elapsed.nanoseconds⟩

instance (earlier later : Instant) : Decidable (earlier ≤ later) :=
  inferInstanceAs (Decidable (earlier.elapsed.nanoseconds ≤ later.elapsed.nanoseconds))

def originYear : Int :=
  1900

/-- How many years away from the origin a year may be.  Counted as 365 days each, this many
years still have a number of days of thirty-two bits. -/
def yearReach : Nat :=
  5883516

def startOfYear (year : Int) : Instant :=
  ⟨.ofNanoseconds ((Calendar.daysBeforeYear year - Calendar.daysBeforeYear originYear) *
    Calendar.nanosecondsPerDay)⟩

def year (instant : Instant) : Int :=
  Calendar.yearOfDay (instant.elapsed.nanoseconds / Calendar.nanosecondsPerDay +
    Calendar.daysBeforeYear originYear)

end Instant

/-- A moment, as a year, a day of that year counted from one, and seconds of that day. -/
structure Epoch (α : Type) where
  year : Int
  dayOfYear : Nat
  secondsOfDay : α
deriving BEq

namespace Epoch

variable {α : Type} [Scalar α]

def default : Epoch α :=
  ⟨2000, 1, 0⟩

def secondsPerDay : α :=
  86400.0

/-- An epoch whose day of year is in `1 … 366` and whose seconds of day lie in
`[0, 86401)`, which leaves room for a leap second. -/
def make (year : Int) (dayOfYear : Nat) (secondsOfDay : α) : Except (Error α) (Epoch α) :=
  if 1 ≤ dayOfYear ∧ dayOfYear ≤ 366 ∧
      0 ≤ secondsOfDay ∧ secondsOfDay < secondsPerDay + 1 then
    .ok ⟨year, dayOfYear, secondsOfDay⟩
  else .error (.epoch year dayOfYear secondsOfDay)

/-- The instant an epoch names: the days and the seconds follow the start of the year. -/
def toInstant (epoch : Epoch α) : Except (Error α) Instant :=
  if Instant.yearReach < (epoch.year - Instant.originYear).natAbs then
    .error (.yearOutOfReach epoch.year)
  else do
    let days ← Duration.ofDays ((epoch.dayOfYear : α) - 1)
    let seconds ← Duration.ofSeconds epoch.secondsOfDay
    return Instant.startOfYear epoch.year + days + seconds

/-- The epoch of an instant: its year, and in it the day and the seconds elapsed. -/
def ofInstant (instant : Instant) : Epoch α :=
  let elapsed : α := (instant - Instant.startOfYear instant.year).toSeconds
  let days := Scalar.floor (elapsed / secondsPerDay)
  { year := instant.year
    dayOfYear := Scalar.toPosition days + 1
    secondsOfDay := elapsed - days * secondsPerDay }

/-- The epoch `seconds` later, or earlier when they are negative. -/
def offset (epoch : Epoch α) (seconds : α) : Except (Error α) (Epoch α) := do
  let instant ← epoch.toInstant
  let shift ← Duration.ofSeconds seconds
  return ofInstant (instant + shift)

/-- The seconds from `earlier` to `later`. -/
def secondsBetween (later earlier : Epoch α) : Except (Error α) α := do
  let stop ← later.toInstant
  let start ← earlier.toInstant
  return (stop - start).toSeconds

end Epoch

end Pushbroom
