import Pushbroom.Error
import Pushbroom.Scalar.Basic

namespace Pushbroom

/-!
# Durations

A duration is a whole number of nanoseconds, forward or backward, of at most 32768 centuries
of 36525 days.  A sum or a difference that would exceed that bound stops there.  Sums are
counted in whole centuries first: one whose count falls below -32768 is the longest duration
backward, although the nanoseconds beyond the centuries might still carry it back.
-/

/-- The nanoseconds of a century of 36525 days. -/
def nanosecondsPerCentury : Int :=
  3155760000000000000

/-- The longest duration, 32768 centuries, in nanoseconds. -/
def longestDuration : Int :=
  103407943680000000000000

/-- A whole number of nanoseconds within the longest duration. -/
@[ext] structure Duration where
  nanoseconds : Int
  lower : -longestDuration ≤ nanoseconds
  upper : nanoseconds ≤ longestDuration
deriving DecidableEq

namespace Duration

def longest : Duration :=
  ⟨longestDuration, by decide, by decide⟩

def longestBackward : Duration :=
  ⟨-longestDuration, by decide, by decide⟩

/-- The duration of a number of nanoseconds, or the longest one in its direction. -/
def ofNanoseconds (nanoseconds : Int) : Duration :=
  if above : longestDuration < nanoseconds then longest
  else if below : nanoseconds < -longestDuration then longestBackward
  else ⟨nanoseconds, Int.not_lt.mp below, Int.not_lt.mp above⟩

theorem nanoseconds_ofNanoseconds {n : Int} (lower : -longestDuration ≤ n)
    (upper : n ≤ longestDuration) : (ofNanoseconds n).nanoseconds = n := by
  unfold ofNanoseconds
  rw [dif_neg (Int.not_lt.mpr upper), dif_neg (Int.not_lt.mpr lower)]

/-! ## Sums and differences -/

/-- The least count of centuries. -/
def leastCenturies : Int :=
  -32768

/-- The whole centuries at or below a duration. -/
def centuries (duration : Duration) : Int :=
  duration.nanoseconds / nanosecondsPerCentury

/-- The nanoseconds of a duration beyond its whole centuries. -/
def inCentury (duration : Duration) : Int :=
  duration.nanoseconds % nanosecondsPerCentury

/-- One duration after another. -/
instance : Add Duration :=
  ⟨fun a b =>
    if a.centuries + b.centuries < leastCenturies then longestBackward
    else ofNanoseconds (a.nanoseconds + b.nanoseconds)⟩

/-- The duration that leads from the second to the first. -/
instance : Sub Duration :=
  ⟨fun a b => ofNanoseconds (a.nanoseconds - b.nanoseconds)⟩

theorem nanoseconds_add {a b : Duration} (least : leastCenturies ≤ a.centuries + b.centuries)
    (upper : a.nanoseconds + b.nanoseconds ≤ longestDuration) :
    (a + b).nanoseconds = a.nanoseconds + b.nanoseconds := by
  have lower : -longestDuration ≤ a.nanoseconds + b.nanoseconds := by
    simp only [centuries, leastCenturies, nanosecondsPerCentury, longestDuration] at *
    omega
  have exact_sum : a + b = ofNanoseconds (a.nanoseconds + b.nanoseconds) :=
    if_neg (Int.not_lt.mpr least)
  rw [exact_sum]
  exact nanoseconds_ofNanoseconds lower upper

theorem nanoseconds_sub {a b : Duration}
    (lower : -longestDuration ≤ a.nanoseconds - b.nanoseconds)
    (upper : a.nanoseconds - b.nanoseconds ≤ longestDuration) :
    (a - b).nanoseconds = a.nanoseconds - b.nanoseconds :=
  nanoseconds_ofNanoseconds lower upper

/-! ## Seconds and days -/

variable {α : Type} [Scalar α]

/-- `count` units of `unit` nanoseconds each, cut to whole nanoseconds in the direction of
zero.  A finite count of which the product is infinite gives the longest duration as well;
a count that is not a finite number has no duration. -/
def ofUnits (count unit : α) : Except (Error α) Duration :=
  match Scalar.trunc? (count * unit), Scalar.trunc? count with
  | some nanoseconds, _ => .ok (ofNanoseconds nanoseconds)
  | none, some whole => .ok (if whole < 0 then longestBackward else longest)
  | none, none => .error (.nonFiniteTime count)

/-- A number of seconds. -/
def ofSeconds (seconds : α) : Except (Error α) Duration :=
  ofUnits seconds 1e9

/-- A number of days of 86400 seconds. -/
def ofDays (days : α) : Except (Error α) Duration :=
  ofUnits days 8.64e13

/-- The seconds of a duration.  Whole centuries, whole seconds and the rest are converted
one by one and then added. -/
def toSeconds (duration : Duration) : α :=
  let seconds : α := ((duration.inCentury / 1000000000 : Int) : α)
  let subseconds : α := ((duration.inCentury % 1000000000 : Int) : α) * 1e-9
  if duration.centuries = 0 then seconds + subseconds
  else (duration.centuries : α) * 3155760000.0 + seconds + subseconds

end Duration

end Pushbroom
