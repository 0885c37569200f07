import Pushbroom.Satellite.Identity

namespace Pushbroom

/-!
# Causes of failure

Every computation of this library that can fail answers with one of these causes.  The
last three are faults of the request itself, which no sampled data could satisfy: a table
was asked for an entry that it does not have, or a moment was put on the calendar whose
time is not a finite number or whose year is too far away.
-/

/-- Why a computation has no result. -/
inductive Error (α : Type) where
  /-- The satellite attributes do not identify the satellite. -/
  | unknownSatellite
  /-- A satellite carries one or two sensors. -/
  | sensorCount (count : Nat)
  | missingBandList (sensor : Sensor)
  /-- Nothing is known about a band number. -/
  | missingBand (number : Nat)
  /-- A table would not fit into memory. -/
  | allocation
  /-- No band, or not the expected one, stands at this index. -/
  | bandIndex (index : Nat)
  | chipIndex (index : Nat)
  | detector (position : α)
  | noBandPresent
  | singularMatrix
  | matrixDimension (rows columns : Nat)
  /-- The redundant entries of a rotation matrix disagree. -/
  | quaternionMismatch
  /-- A sampling interval must be positive. -/
  | sampleTime (interval : α)
  | timeOutOfRange (time : α)
  /-- Too few samples surround a time. -/
  | notEnoughSamples (time : α)
  /-- Two sequences cannot be combined sample by sample. -/
  | sequenceLength (left right : Nat)
  | emptySequence
  /-- No sample falls into an averaging window. -/
  | biasWindow (start stop : α)
  /-- A cut-off frequency does not suit the sampling rate. -/
  | cutoffFrequency (cutoff : α)
  | filterDesign
  | missingFrameTime (line : α)
  | moonEphemeris (line : α)
  /-- A day of year or a second of day is out of its range. -/
  | epoch (year : Int) (dayOfYear : Nat) (secondsOfDay : α)
  | almanac
  /-- A table of `size` entries has no entry `index`. -/
  | indexOutOfRange (index size : Nat)
  /-- A time that is not a finite number has no instant. -/
  | nonFiniteTime (time : α)
  /-- A year so far away has no instant. -/
  | yearOutOfReach (year : Int)

/-- Text of a failure, its numbers written by `number`. -/
def Error.message {α : Type} (number : α → String) : Error α → String
  | .unknownSatellite => "unknown satellite: missing satellite attributes"
  | .sensorCount count => s!"invalid sensor count {count}"
  | .missingBandList sensor => "missing normal band list for " ++ sensor.name
  | .missingBand band => s!"missing attributes for band {band}"
  | .allocation => "memory allocation failure"
  | .bandIndex index => s!"invalid band index {index}"
  | .chipIndex index => s!"invalid sca index {index}"
  | .detector position => "invalid detector " ++ number position
  | .noBandPresent => "no band present in the model"
  | .singularMatrix => "singular matrix: cannot invert"
  | .matrixDimension rows columns => s!"invalid matrix dimensions: {rows}x{columns}"
  | .quaternionMismatch => "matrix to quaternion conversion mismatch"
  | .sampleTime interval => "invalid nominal sample time " ++ number interval
  | .timeOutOfRange time => "time " ++ number time ++ " is outside of sampled span"
  | .notEnoughSamples time => "not enough samples to interpolate at " ++ number time
  | .sequenceLength left right =>
    s!"sequence length mismatch: {left} samples vs {right} samples"
  | .emptySequence => "empty sample sequence"
  | .biasWindow start stop =>
    "invalid bias window [" ++ number start ++ ", " ++ number stop ++ "]"
  | .cutoffFrequency cutoff => "invalid cut-off frequency " ++ number cutoff ++ " Hz"
  | .filterDesign => "filter design error: too few extremals"
  | .missingFrameTime line => "no frame time for line " ++ number line
  | .moonEphemeris line => "moon ephemeris error at line " ++ number line
  | .epoch year dayOfYear secondsOfDay =>
    s!"invalid epoch: year={year} doy={dayOfYear} sod=" ++ number secondsOfDay
  | .almanac => "issue with the almanac"
  | .indexOutOfRange index size => s!"index {index} out of range for {size} entries"
  | .nonFiniteTime time => "no instant at time " ++ number time
  | .yearOutOfReach year => s!"no instant in year {year}"

end Pushbroom
