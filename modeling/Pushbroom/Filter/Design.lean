import Pushbroom.Filter.Extrema
import Pushbroom.Filter.Interpolant
import Pushbroom.Filter.Settings

namespace Pushbroom
namespace Filter

/-!
# Design of odd, symmetric filters

A design starts from evenly spread points of the grid.  Each exchange takes the response
whose weighted error alternates at the current points, looks for the extrema of its error
on the whole grid and goes on with those, until the errors there are level or the allowed
number of exchanges is used up.  The taps are then found from samples of the amplitude
response at multiples of the reciprocal length.

A low pass kernel is a design of two bands whose taps are divided by their sum, so that a
constant signal passes unchanged.
-/

variable {α : Type} [Scalar α]

section Exchange

variable [Elementary α]

/-- The weighted error of a response at every point of the grid. -/
def weightedErrors (grid : Array (GridPoint α)) (nodes : List (Node α)) :
    Vector α grid.size :=
  ⟨grid.map fun point => point.weight * (point.gain - response nodes point.frequency),
    Array.size_map⟩

/-- The nodes of the response that is levelled at some points of the grid. -/
def nodesAt (grid : Array (GridPoint α)) (positions : List (Fin grid.size)) :
    List (Node α) :=
  nodes (positions.map fun i => grid[i])

/-- At most `iterations` exchanges from the given positions on the grid. -/
def exchange (grid : Array (GridPoint α)) (count : Nat) :
    Nat → List (Fin grid.size) → Except (Error α) (List (Fin grid.size))
  | 0, positions => .ok positions
  | iterations + 1, positions => do
    let errors := weightedErrors grid (nodesAt grid positions)
    let next ← selectExtrema count errors
    if levelled errors next then return next
    else exchange grid count iterations next

/-- The taps of an odd, symmetric filter of the given length from the samples of its
amplitude response at `0`, `1 / length`, `2 / length` and so on. -/
def tapsOfAmplitudes (length : Nat) (amplitudes : List α) : List α :=
  let center : α := (((length - 1) / 2 : Nat) : α)
  let n : α := (length : α)
  (List.range length).map fun (i : Nat) =>
    let x := Elementary.turn * ((i : α) - center) / n
    match amplitudes with
    | [] => 0 / n
    | constant :: others =>
      let waves := (others.zipIdx 1).map fun entry =>
        2.0 * entry.1 * Elementary.cos (x * (entry.2 : α))
      (constant + Scalar.sum waves) / n

end Exchange

/-- `r + 1` positions spread evenly over `size` grid points, from the first to the last. -/
def spread (r size : Nat) (hSize : 0 < size) : List (Fin size) :=
  (List.finRange (r + 1)).map fun i =>
    ⟨i.val * (size - 1) / r, by
      have hLe : i.val * (size - 1) / r ≤ size - 1 :=
        Nat.div_le_of_le_mul (Nat.mul_le_mul_right (size - 1) (Nat.le_of_lt_succ i.isLt))
      omega⟩

variable [Elementary α]

/-- The taps of a filter of odd length at least three with the gains asked for in a list of
bands. -/
def design (length : Nat) (bands : List (FrequencyBand α)) (density iterations : Nat) :
    Except (Error α) (List α) :=
  if length < 3 ∨ length % 2 = 0 ∨ density = 0 ∨ admissible bands = false then
    .error .filterDesign
  else
    let r := length / 2 + 1
    let points := grid density r bands
    if hSize : r + 1 ≤ points.size then do
      let start := spread r points.size (Nat.lt_of_lt_of_le (Nat.succ_pos r) hSize)
      let positions ← exchange points (r + 1) iterations start
      let final := nodesAt points positions
      let amplitudes := (List.range (length / 2 + 1)).map fun (k : Nat) =>
        response final ((k : α) / (length : α))
      return tapsOfAmplitudes length amplitudes
    else .error .filterDesign

/-- The smallest sum of taps that they are divided by. -/
def leastGain : α :=
  2.220446049250313080847263336181640625e-16

def normalize (taps : List α) : Except (Error α) (List α) :=
  let total := Scalar.sum taps
  if Scalar.abs total < leastGain then .error .filterDesign
  else .ok (taps.map fun tap => tap / total)

/-- The pass band and the stop band of a low pass filter, in cycles per sample. -/
def lowPassBands (interval cutoff : α) (settings : Settings α) : List (FrequencyBand α) :=
  [⟨0, cutoff * interval, 1, settings.passWeight⟩,
   ⟨settings.stopRatio * cutoff * interval, 0.5, 0, settings.stopWeight⟩]

/-- The kernel of a low pass filter for samples taken every `interval` seconds.  The cut-off
frequency is positive, and the stop band starts below half the sampling rate. -/
def lowPassKernel (interval cutoff : α) (settings : Settings α) :
    Except (Error α) (List α) :=
  if ¬ 0 < interval then .error (.sampleTime interval)
  else if ¬ (0 < cutoff ∧ settings.stopRatio * cutoff < 0.5 / interval) then
    .error (.cutoffFrequency cutoff)
  else do
    let length := settings.kernelLength cutoff interval
    let taps ← design length (lowPassBands interval cutoff settings)
      settings.gridDensity settings.maxIterations
    normalize taps

end Filter
end Pushbroom
