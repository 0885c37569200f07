import Pushbroom.Instrument.Chip
import Pushbroom.Satellite.Attributes

namespace Pushbroom

/-!
# Bands

A spectral band of a sensor: the chips that acquire it, how it is sampled, and how much of
it has been acquired.
-/

structure Band (α : Type) where
  /-- The number of the band, as its users know it. -/
  number : Nat
  /-- The position of the band in its model. -/
  index : Nat
  sensor : Sensor
  present : Bool
  frameCount : Nat
  sampling : Sampling α
  chips : Array (Chip α)
deriving BEq

namespace Band

variable {α : Type} [Scalar α]

/-- The bytes that a band takes up in its model, its chips apart. -/
def recordBytes : Nat :=
  88

/-- A band that was not acquired, with its chips.  Every chip is allocated after the one
before it. -/
def allocate [Memory] (attributes : BandAttributes) : Except (Error α) (Band α) := do
  reserve attributes.chipCount Chip.recordBytes
  let chips ←
    if attributes.chipCount = 0 then pure #[]
    else do
      let chip ← Chip.allocate attributes.detectorsPerChip
      pure (Array.replicate attributes.chipCount chip)
  return {
    number := attributes.number
    index := attributes.index
    sensor := attributes.sensor
    present := false
    frameCount := 0
    sampling := Sampling.unknown
    chips }

def chipCount (band : Band α) : Nat :=
  band.chips.size

def chip (band : Band α) (index : Nat) : Except (Error α) (Chip α) :=
  match band.chips[index]? with
  | some chip => .ok chip
  | none => .error (.chipIndex index)

def modifyChip (band : Band α) (index : Nat) (change : Chip α → Chip α) :
    Except (Error α) (Band α) := do
  let chip ← band.chip index
  return { band with chips := band.chips.setIfInBounds index (change chip) }

/-- The number of image lines acquired. -/
def lineCount (band : Band α) : Nat :=
  band.frameCount * band.sampling.linesPerFrame

/-- The unit line of sight of a detector in the frame of its sensor. -/
def lineOfSight [Elementary α] (band : Band α) (chipIndex : Nat) (position : α)
    (kind : DetectorKind) : Except (Error α) (Vec3 α) := do
  let chip ← band.chip chipIndex
  chip.lineOfSight position kind band.sampling

end Band

end Pushbroom
