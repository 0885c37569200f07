import Pushbroom.Scalar.Basic

namespace Pushbroom
namespace Filter

/-!
# Frequency bands and the grid laid over them

A filter is asked for a gain in each of several bands of frequencies, in cycles per
sample.  The error of a design is looked at on a grid of points: evenly spaced from the
lower edge of each band, and ending on its upper edge.
-/

/-- A band of frequencies with the gain asked for in it and the weight of its errors. -/
structure FrequencyBand (α : Type) where
  low : α
  high : α
  gain : α
  weight : α

/-- A frequency of the grid with the gain and the error weight of its band. -/
structure GridPoint (α : Type) where
  frequency : α
  gain : α
  weight : α

variable {α : Type} [Scalar α]

namespace FrequencyBand

/-- The number of grid points of a band: its width in steps, rounded, and at least one. -/
def pointCount (step : α) (band : FrequencyBand α) : Nat :=
  max 1 (Scalar.toPosition ((band.high - band.low) / step + 0.5))

/-- The frequencies of the grid points of a band. -/
def frequencies (step : α) (band : FrequencyBand α) : List α :=
  (List.range (band.pointCount step - 1)).map (fun (i : Nat) => band.low + (i : α) * step) ++
    [band.high]

def points (step : α) (band : FrequencyBand α) : List (GridPoint α) :=
  (band.frequencies step).map fun frequency => ⟨frequency, band.gain, band.weight⟩

end FrequencyBand

/-- The distance of neighbouring grid points, `density * r` of which span half a cycle per
sample. -/
def gridStep (density r : Nat) : α :=
  0.5 / ((density * r : Nat) : α)

def grid (density r : Nat) (bands : List (FrequencyBand α)) : Array (GridPoint α) :=
  (bands.flatMap (FrequencyBand.points (gridStep density r))).toArray

/-- The edges of a list of bands, from the first band to the last. -/
def edges (bands : List (FrequencyBand α)) : List α :=
  bands.flatMap fun band => [band.low, band.high]

/-- Some number of a list is below the one before it. -/
def descends : List α → Bool
  | first :: second :: rest => decide (second < first) || descends (second :: rest)
  | _ => false

/-- Band edges may not descend, and lie between zero and half a cycle per sample. -/
def admissible (bands : List (FrequencyBand α)) : Bool :=
  !descends (edges bands) && (edges bands).all fun edge => decide (0 ≤ edge ∧ edge ≤ 0.5)

end Filter
end Pushbroom
