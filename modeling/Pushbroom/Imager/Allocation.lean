import Pushbroom.Imager.Basic

namespace Pushbroom
namespace Imager

/-!
# Allocation of a model

A model is sized from the attributes of a satellite.  The bands of every sensor on board are
looked up by their numbers, in the order in which they are listed, and put in the order of
their indices, which have to be exactly `0, 1, 2, …`.  All lookups come before the first
reservation of storage.
-/

variable {α : Type} [Scalar α]

/-- The largest number of sensors of a model. -/
def maxSensors : Nat :=
  2

/-- A value that has to be known. -/
def require {β : Type} (failure : Error α) : Option β → Except (Error α) β
  | some value => .ok value
  | none => .error failure

/-- The attributes of the bands listed for a sensor. -/
def sensorLayout (provider : Provider) (sensor : Sensor) :
    Except (Error α) (List BandAttributes) := do
  let numbers ← require (.missingBandList sensor) (provider.normalBands? sensor)
  numbers.mapM fun number => require (.missingBand number) (provider.band? number)

/-- The attributes of all bands on board, as they are listed. -/
def listedLayout (provider : Provider) : Except (Error α) (List BandAttributes) := do
  let layouts ← (Sensor.aboard provider.sensorCount).mapM (sensorLayout provider)
  return layouts.flatten

/-- Bands in the order of their indices.  Bands of one index stay in the order in which they
are listed. -/
def byIndex (layout : List BandAttributes) : List BandAttributes :=
  layout.mergeSort fun a b => decide (a.index ≤ b.index)

/-- The first band whose index is not its position, counted from `position`. -/
def misplaced? (position : Nat) : List BandAttributes → Option BandAttributes
  | [] => none
  | band :: rest => if band.index = position then misplaced? (position + 1) rest else some band

/-- The attributes of all bands on board, each at its index. -/
def layout (provider : Provider) : Except (Error α) (List BandAttributes) := do
  let sorted := byIndex (← listedLayout provider)
  match misplaced? 0 sorted with
  | some band => throw (.bandIndex band.index)
  | none => return sorted

/-- The timing of a sensor, present when it is one of the first `count`. -/
def initialTiming (count : Nat) (sensor : Sensor) : SensorTiming α :=
  SensorTiming.initial sensor (decide (sensor.index < count))

/-- A model of a satellite without any sampled data. -/
def allocate [Memory] (provider : Provider) : Except (Error α) (Imager α) := do
  let satellite ← require .unknownSatellite provider.satellite?
  let number ← require .unknownSatellite provider.number?
  let count := provider.sensorCount
  if count = 0 ∨ maxSensors < count then throw (.sensorCount count)
  let layout ← layout provider
  reserve layout.length Band.recordBytes
  let bands ← layout.mapM Band.allocate
  return {
    satellite, number
    earth := EarthConstants.wgs84
    oli := initialTiming count .oli
    tirs := initialTiming count .tirs
    bands := bands.toArray
    attitude := Attitude.Sequence.empty Epoch.default 0
    trajectory := ⟨Epoch.default, 0, #[]⟩ }

end Imager
end Pushbroom
