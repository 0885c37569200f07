import Pushbroom.Imager.Basic
import Pushbroom.Moon.Position

namespace Pushbroom
namespace Moon

/-!
# Projection onto a frame that follows the Moon

Coordinates observed at an image line are expressed relative to the Moon at that line, scaled
by its distance, and put back at the position the Moon had in the middle of the acquisition.

Moon positions come from a source, a function of the place on the focal plane that may fail.
It is asked in an arbitrary monad with failures, so that a source may also keep a record of
what it was asked for.  All lines of the target band may be asked for ahead; the right
ascensions kept then are unwrapped from line to line.
-/

variable {α : Type} [Scalar α]

/-- The Moon positions of the lines `0, 1, 2, …`, with right ascensions that do not jump. -/
abbrev LineCache (α : Type) := Array (Position α)

/-- The position kept for the line nearest to `line`. -/
def LineCache.position? (cache : LineCache α) (line : α) : Option (Position α) :=
  let nearest := Scalar.round line
  if Scalar.isFinite nearest = false ∨ nearest < 0 ∨ (cache.size : α) ≤ nearest then none
  else cache[Scalar.toPosition nearest]?

structure Projection (α : Type) where
  bandIndex : Nat
  /-- The sensor chip on which the Moon is looked at. -/
  chipIndex : Nat
  /-- The detector that looks at the Moon: the one at the centre of the chip. -/
  detector : α
  kind : DetectorKind
  /-- The Moon in the middle of the acquisition. -/
  reference : Position α
  /-- The radians in an output unit. -/
  unitScale : α
  cache? : Option (LineCache α)

namespace Projection

section Lookup

variable {m : Type → Type} [Monad m] [MonadExceptOf (Error α) m]

def lookup (projection : Projection α) (source : Location α → m (Position α)) (line : α) :
    m (Position α) :=
  source ⟨projection.bandIndex, projection.chipIndex, line, projection.detector,
    projection.kind⟩

variable [Elementary α]

/-- Adds the Moon at the lines `line`, `line + 1`, … to a cache, as many as the last argument
says.  Every right ascension is unwrapped against the one before, `previous` at first. -/
def extendCache (projection : Projection α) (source : Location α → m (Position α))
    (cache : LineCache α) (previous : α) (line : Nat) : Nat → m (LineCache α)
  | 0 => pure cache
  | count + 1 => do
    let position ← projection.lookup source (line : α)
    let ra := unwrap position.ra previous
    projection.extendCache source (cache.push { position with ra }) ra (line + 1) count

/-- The Moon at the first `lines` lines.  The right ascension of the first one is unwrapped
against the reference. -/
def buildCache [Memory] (projection : Projection α) (source : Location α → m (Position α))
    (lines : Nat) : m (LineCache α) := do
  MonadExcept.ofExcept (reserve lines 8)
  projection.extendCache source #[] projection.reference.ra 0 lines

/-- The middle of the acquisition: the middle detector of the middle chip of the first
present band, at the middle of its lines. -/
def referenceLocation (imager : Imager α) (kind : DetectorKind) :
    Except (Error α) (Location α) := do
  match imager.firstPresent? with
  | none => throw .noBandPresent
  | some band =>
    let middle := band.chipCount / 2
    let chip ← band.chip middle
    return {
      bandIndex := band.index
      chipIndex := middle
      line := ((band.lineCount / 2 : Nat) : α)
      detector := ((chip.detectorCount / 2 : Nat) : α)
      kind }

/-- Creates the projection for a band, a sensor chip and a kind of detector position.  With
`cached`, the Moon at every line of the band is asked for at once. -/
def create [Memory] (imager : Imager α) (source : Location α → m (Position α))
    (bandIndex chipIndex : Nat) (kind : DetectorKind) (unitScale : α) (cached : Bool) :
    m (Projection α) := do
  let band ← MonadExcept.ofExcept (imager.band bandIndex)
  let chip ← MonadExcept.ofExcept (band.chip chipIndex)
  let location ← MonadExcept.ofExcept (referenceLocation imager kind)
  let reference ← source location
  let projection : Projection α := {
    bandIndex, chipIndex
    detector := ((chip.detectorCount / 2 : Nat) : α)
    kind, reference, unitScale
    cache? := none }
  if cached then
    let cache ← projection.buildCache source band.lineCount
    return { projection with cache? := some cache }
  else return projection

/-- The Moon at a line: the one kept for it, or else the one the source answers. -/
def positionAt (projection : Projection α) (source : Location α → m (Position α)) (line : α) :
    m (Position α) :=
  match projection.cache?.bind fun cache => cache.position? line with
  | some position => pure position
  | none => projection.lookup source line

end Lookup

/-- Coordinates in the frame of the Moon, in output units, and the scale applied. -/
structure Projected (α : Type) where
  lat : α
  long : α
  scale : α

variable [Elementary α]

/-- Projects a latitude and a longitude observed when the Moon stood at a position. -/
def project (projection : Projection α) (position : Position α) (lat long : α) :
    Projected α :=
  let reference := projection.reference
  let ra := unwrap position.ra reference.ra
  let near := unwrap long reference.ra
  let scale := position.distance / reference.distance
  { lat := (reference.dec + (lat - position.dec) * scale) / projection.unitScale
    long := (reference.ra + (near - ra) * scale) / projection.unitScale
    scale }

/-- Projects a latitude and a longitude, in radians, observed at a line. -/
def transform {m : Type → Type} [Monad m] [MonadExceptOf (Error α) m]
    (projection : Projection α) (source : Location α → m (Position α))
    (line lat long : α) : m (Projected α) := do
  let position ← projection.positionAt source line
  return projection.project position lat long

/-- The declination and right ascension that the Moon is projected onto. -/
def center (projection : Projection α) : α × α :=
  (projection.reference.dec, projection.reference.ra)

end Projection

end Moon
end Pushbroom
