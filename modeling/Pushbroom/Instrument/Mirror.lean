import Pushbroom.Geometry.Mat3
import Pushbroom.Time.Epoch

namespace Pushbroom

/-!
# The scene select mirror

The angles of the mirror in front of the thermal sensor, at times that may repeat but do
not go back.  The angle between two samples is interpolated linearly.
-/

namespace Mirror

structure Sample (α : Type) where
  /-- Seconds from the epoch of the mirror. -/
  time : α
  /-- Angle in radians. -/
  angle : α
deriving BEq

end Mirror

structure Mirror (α : Type) where
  epoch : Epoch α
  /-- Alignment of the mirror to its sensor. -/
  alignment : Mat3 α
  samples : Array (Mirror.Sample α)
deriving BEq

namespace Mirror

variable {α : Type} [Scalar α]

/-- Of the `size` samples from `base` on, halves the part in which the first sample that is
not earlier than `time` can stand, and returns that sample's index. -/
def bisect (samples : Array (Sample α)) (time : α) (base size : Nat)
    (hRange : base + size ≤ samples.size) : Nat :=
  if hSeveral : 1 < size then
    let half := size / 2
    have hMiddle : base + half < samples.size := by omega
    if samples[base + half].time < time then
      bisect samples time (base + half) (size - half) (by omega)
    else bisect samples time base (size - half) (by omega)
  else
    match samples[base]? with
    | some sample => if sample.time < time then base + 1 else base
    | none => base
termination_by size

/-- The number of samples that are earlier than `time`. -/
def earlierCount (samples : Array (Sample α)) (time : α) : Nat :=
  bisect samples time 0 samples.size (by omega)

/-- The angle at `time` between two samples.  Of two samples at one time the first counts. -/
def angleBetween (before after : Sample α) (time : α) : α :=
  let span := after.time - before.time
  if span ≤ 0 then before.angle
  else
    let w := (time - before.time) / span
    before.angle * (1 - w) + after.angle * w

def ends (mirror : Mirror α) : Except (Error α) (Sample α × Sample α) :=
  match mirror.samples[0]?, mirror.samples.back? with
  | some first, some last => .ok (first, last)
  | _, _ => .error .emptySequence

def sampleAt (mirror : Mirror α) (index : Nat) : Except (Error α) (Sample α) :=
  match mirror.samples[index]? with
  | some sample => .ok sample
  | none => .error (.indexOutOfRange index mirror.samples.size)

/-- The angle at `time` seconds from the epoch of the mirror. -/
def angleAt (mirror : Mirror α) (time : α) : Except (Error α) α := do
  let (first, last) ← mirror.ends
  if time < first.time ∨ last.time < time then throw (.timeOutOfRange time)
  let upper := min (max (earlierCount mirror.samples time) 1) (mirror.samples.size - 1)
  if upper = 0 then return first.angle
  let before ← mirror.sampleAt (upper - 1)
  let after ← mirror.sampleAt upper
  return angleBetween before after time

end Mirror

end Pushbroom
