import Pushbroom.Attitude.Interpolation
import Pushbroom.Instrument.Reservation

namespace Pushbroom

/-!
# Jitter tables

High frequency attitude, resampled several times per frame.  The entries of each frame are
spaced evenly over the frame period, and stand one frame after the other.
-/

/-- Jitter at several times of every frame. -/
structure JitterTable (α : Type) where
  perFrame : Nat
  entries : Array (Vec3 α)
deriving BEq

namespace JitterTable

variable {α : Type} [Scalar α]

/-- Adds the jitter at the entries `entry`, `entry + 1`, … of the frame that starts at
`time`, as many as the last argument says, until one has no value. -/
def addEntries (jitter : Attitude.Sequence α) (time step : α) (entries : Array (Vec3 α))
    (entry : Nat) : Nat → Except (Error α) (Array (Vec3 α))
  | 0 => .ok entries
  | count + 1 => do
    let value ← jitter.jitter (time + (entry : α) * step)
    addEntries jitter time step (entries.push value) (entry + 1) count

/-- Resamples a jitter sequence `perFrame` times in each frame.  The table has to fit into
memory, with three doubles to an entry. -/
def build [Memory] (jitter : Attitude.Sequence α) (frameTimes : Array α) (perFrame : Nat)
    (period : α) : Except (Error α) (JitterTable α) := do
  if perFrame = 0 then throw .emptySequence
  reserve (frameTimes.size * perFrame) 24
  let step := period / (perFrame : α)
  let entries ← frameTimes.toList.foldlM
    (fun entries time => addEntries jitter time step entries 0 perFrame) #[]
  return ⟨perFrame, entries⟩

def entry? (table : JitterTable α) (frame entry : Nat) : Option (Vec3 α) :=
  if entry < table.perFrame then table.entries[frame * table.perFrame + entry]? else none

end JitterTable

end Pushbroom
