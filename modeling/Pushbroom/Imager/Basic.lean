import Pushbroom.Attitude.Basic
import Pushbroom.Instrument.Band
import Pushbroom.Instrument.Timing
import Pushbroom.Trajectory

namespace Pushbroom

/-!
# The imager

All that is known about how the detectors of a satellite look at the Earth through time: its
sensors and bands, the motion of the spacecraft, and the constants of the Earth.
-/

structure EarthConstants (α : Type) where
  /-- Semi-major axis of the ellipsoid in metres. -/
  semiMajorAxis : α
  /-- Semi-minor axis of the ellipsoid in metres. -/
  semiMinorAxis : α
  /-- First eccentricity of the ellipsoid. -/
  eccentricity : α
  /-- Rate of rotation in radians per second. -/
  angularVelocity : α
  /-- Speed of light in metres per second. -/
  speedOfLight : α
  /-- Difference of the time scales UT1 and UTC in seconds. -/
  ut1MinusUtc : α
  /-- Wander of the pole about the `x` axis in radians. -/
  poleWanderX : α
  /-- Wander of the pole about the `y` axis in radians. -/
  poleWanderY : α
deriving BEq

/-- The WGS84 ellipsoid and rate of rotation. -/
def EarthConstants.wgs84 {α : Type} [Scalar α] : EarthConstants α where
  semiMajorAxis := 6378137.0
  semiMinorAxis := 6356752.314245
  eccentricity := 0.0818191908426
  angularVelocity := 7.2921158553e-5
  speedOfLight := 299792458.0
  ut1MinusUtc := 0
  poleWanderX := 0
  poleWanderY := 0

structure Imager (α : Type) where
  satellite : Satellite
  /-- The number of the satellite in its series. -/
  number : Nat
  earth : EarthConstants α
  oli : SensorTiming α
  tirs : SensorTiming α
  /-- The bands, each at its index. -/
  bands : Array (Band α)
  attitude : Attitude.Sequence α
  trajectory : Trajectory α
deriving BEq

namespace Imager

variable {α : Type} [Scalar α]

def bandCount (imager : Imager α) : Nat :=
  imager.bands.size

def band (imager : Imager α) (index : Nat) : Except (Error α) (Band α) :=
  match imager.bands[index]? with
  | some band => .ok band
  | none => .error (.bandIndex index)

def modifyBand (imager : Imager α) (index : Nat)
    (change : Band α → Except (Error α) (Band α)) : Except (Error α) (Imager α) := do
  let changed ← change (← imager.band index)
  return { imager with bands := imager.bands.setIfInBounds index changed }

def bandByNumber? (imager : Imager α) (number : Nat) : Option (Band α) :=
  imager.bands.find? fun band => band.number = number

def firstPresent? (imager : Imager α) : Option (Band α) :=
  imager.bands.find? fun band => band.present

def timing (imager : Imager α) : Sensor → SensorTiming α
  | .oli => imager.oli
  | .tirs => imager.tirs

def modifyTiming (imager : Imager α) (sensor : Sensor)
    (change : SensorTiming α → SensorTiming α) : Imager α :=
  match sensor with
  | .oli => { imager with oli := change imager.oli }
  | .tirs => { imager with tirs := change imager.tirs }

def timingForBand (imager : Imager α) (index : Nat) : Except (Error α) (SensorTiming α) := do
  let band ← imager.band index
  return imager.timing band.sensor

def lineCount (imager : Imager α) (index : Nat) : Except (Error α) Nat := do
  let band ← imager.band index
  return band.lineCount

/-- The acquisition time of a, possibly fractional, line of a band, in seconds from the
frame epoch of its sensor.  A band is taken to have at least one line per frame. -/
def lineTime (imager : Imager α) (index : Nat) (line : α) : Except (Error α) α := do
  let band ← imager.band index
  let linesPerFrame : α := ((max band.sampling.linesPerFrame 1 : Nat) : α)
  match (imager.timing band.sensor).frameTime? (line / linesPerFrame) with
  | some time => return time
  | none => throw (.missingFrameTime line)

/-- Takes away all bands and all sampled data. -/
def release (imager : Imager α) : Imager α :=
  { imager with
    bands := #[]
    oli := imager.oli.release
    tirs := imager.tirs.release
    attitude := { imager.attitude with samples := #[] }
    trajectory := { imager.trajectory with samples := #[] } }

end Imager

end Pushbroom
