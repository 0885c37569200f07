import Pushbroom.Geometry.Vec3
import Pushbroom.Instrument.Reservation
import Pushbroom.Polynomial.Series

namespace Pushbroom

/-!
# Sensor chips

A sensor chip holds a line of detectors.  The direction a detector looks in is given by one
Legendre series along and one across the track, over the positions of the detectors scaled
to `[-1, 1]`.  The offsets of the single detectors from that curve are tabulated, in units
of the field of view of a detector.
-/

/-- How the offset of a detector enters its line of sight. -/
inductive DetectorKind where
  /-- Not at all. -/
  | nominal
  /-- As the offset of the nearest detector. -/
  | actual
  /-- As the offset interpolated at the fractional position. -/
  | exact
deriving DecidableEq

structure Sampling (α : Type) where
  /-- Image lines that are acquired in one frame. -/
  linesPerFrame : Nat
  /-- Integration time in seconds. -/
  integrationTime : α
  /-- Settling time in seconds. -/
  settlingTime : α
  /-- Field of view of a detector along the track, in radians. -/
  alongView : α
  /-- Field of view of a detector across the track, in radians. -/
  acrossView : α
deriving BEq

/-- One line per frame, and nothing else known. -/
def Sampling.unknown {α : Type} [Scalar α] : Sampling α :=
  ⟨1, 0, 0, 0, 0⟩

structure Chip (α : Type) where
  /-- Offsets of the detectors in the raw image, in pixels. -/
  rawOffsets : Array Int
  /-- Offsets along the track, in fields of view. -/
  alongOffsets : Array α
  /-- Offsets across the track, in fields of view. -/
  acrossOffsets : Array α
  /-- Coefficients of the Legendre series along the track. -/
  alongSeries : List α
  /-- Coefficients of the Legendre series across the track. -/
  acrossSeries : List α
deriving BEq

namespace Chip

variable {α : Type} [Scalar α]

/-- The number of coefficients of each Legendre series of a new chip. -/
def seriesLength : Nat :=
  4

/-- The bytes that the tables and series of a chip take up in a band. -/
def recordBytes : Nat :=
  136

/-- A chip without offsets that looks straight down. -/
def allocate [Memory] (detectors : Nat) : Except (Error α) (Chip α) := do
  let rawOffsets ← filledTable detectors 4 0
  let alongOffsets ← filledTable detectors 8 0
  let acrossOffsets ← filledTable detectors 8 0
  return {
    rawOffsets, alongOffsets, acrossOffsets
    alongSeries := List.replicate seriesLength 0
    acrossSeries := List.replicate seriesLength 0 }

def detectorCount (chip : Chip α) : Nat :=
  chip.alongOffsets.size

/-- The tabulated offsets of a detector, along and across the track. -/
def offsets? (chip : Chip α) (detector : Nat) : Option (α × α) := do
  let along ← chip.alongOffsets[detector]?
  let across ← chip.acrossOffsets[detector]?
  return (along, across)

/-- The offsets at a fractional position between detectors.  The last detector is followed
by itself. -/
def offsetsBetween? (chip : Chip α) (position : α) : Option (α × α) := do
  let lower := Scalar.toPosition position
  let upper := min (lower + 1) (chip.detectorCount - 1)
  let w := position - (lower : α)
  let (alongLow, acrossLow) ← chip.offsets? lower
  let (alongHigh, acrossHigh) ← chip.offsets? upper
  return (alongLow * (1 - w) + alongHigh * w, acrossLow * (1 - w) + acrossHigh * w)

/-- The offsets, along and across the track, at a position. -/
def offsetsAt? (chip : Chip α) (position : α) : DetectorKind → Option (α × α)
  | .nominal => some (0, 0)
  | .actual => chip.offsets? (Scalar.toPosition (Scalar.round position))
  | .exact => chip.offsetsBetween? position

/-- The slopes along and across the track at a position, that is the tangents of the angles
from the straight down direction.  The chip has several detectors, and the position lies
among them. -/
def slopes (chip : Chip α) (position : α) (kind : DetectorKind) (sampling : Sampling α) :
    Except (Error α) (α × α) :=
  let last : α := ((chip.detectorCount - 1 : Nat) : α)
  if chip.detectorCount < 2 ∨ ¬ (0 ≤ position ∧ position ≤ last) then
    .error (.detector position)
  else
    match chip.offsetsAt? position kind with
    | none => .error (.detector position)
    | some (along, across) =>
      let scaled := (2.0 * position - last) / last
      .ok (Series.legendre chip.alongSeries scaled + along * sampling.alongView,
        Series.legendre chip.acrossSeries scaled + across * sampling.acrossView)

/-- The unit line of sight of a, possibly fractional, detector in the frame of its
sensor. -/
def lineOfSight [Elementary α] (chip : Chip α) (position : α) (kind : DetectorKind)
    (sampling : Sampling α) : Except (Error α) (Vec3 α) := do
  let (along, across) ← chip.slopes position kind sampling
  return Vec3.normalize ⟨along, across, 1⟩

end Chip

end Pushbroom
