import Pushbroom.Satellite.Identity

namespace Pushbroom

/-!
# Satellite attributes

The static description of a satellite that a model is sized from: its sensors, their bands,
and the sensor chips and detectors of each band.  A provider may fail to know any of it.  A
`Catalogue` is a provider that keeps a table of bands; the layouts of the two satellites
are given as such tables.
-/

structure BandAttributes where
  /-- The number of the band, as its users know it. -/
  number : Nat
  /-- The position of the band in a model. -/
  index : Nat
  sensor : Sensor
  chipCount : Nat
  detectorsPerChip : Nat
deriving DecidableEq

/-- A provider of satellite attributes.  Every lookup may fail. -/
structure Provider where
  satellite? : Option Satellite
  /-- The number of the satellite in its series. -/
  number? : Option Nat
  sensorCount : Nat
  /-- The numbers of the normal bands of a sensor. -/
  normalBands? : Sensor → Option (List Nat)
  /-- The attributes of the band of a number. -/
  band? : Nat → Option BandAttributes

structure Catalogue where
  satellite : Satellite
  number : Nat
  sensorCount : Nat
  bands : List BandAttributes

namespace Catalogue

/-- The numbers of the bands listed for a sensor; none when there are no such bands. -/
def normalBands? (catalogue : Catalogue) (sensor : Sensor) : Option (List Nat) :=
  match catalogue.bands.filter (fun band => band.sensor = sensor) with
  | [] => none
  | band :: rest => some ((band :: rest).map BandAttributes.number)

/-- The first band listed under a number. -/
def band? (catalogue : Catalogue) (number : Nat) : Option BandAttributes :=
  catalogue.bands.find? fun band => band.number = number

/-- The provider that answers from a catalogue. -/
def provider (catalogue : Catalogue) : Provider where
  satellite? := some catalogue.satellite
  number? := some catalogue.number
  sensorCount := catalogue.sensorCount
  normalBands? := catalogue.normalBands?
  band? := catalogue.band?

/-- A band of the land imager: fourteen chips, with twice the detectors in the
panchromatic band, which is number 8. -/
def oliBand (number : Nat) : BandAttributes :=
  ⟨number, number - 1, .oli, 14, if number = 8 then 988 else 494⟩

/-- A band of the thermal sensor: three chips. -/
def tirsBand (number : Nat) : BandAttributes :=
  ⟨number, number - 1, .tirs, 3, 640⟩

/-- The bands of both satellites: nine of the land imager, two of the thermal sensor. -/
def sharedBands : List BandAttributes :=
  [1, 2, 3, 4, 5, 6, 7, 8, 9].map oliBand ++ [10, 11].map tirsBand

def usualSensorCount : Nat :=
  2

def landsat8 : Catalogue :=
  ⟨.landsat8, 8, usualSensorCount, sharedBands⟩

def landsat9 : Catalogue :=
  ⟨.landsat9, 9, usualSensorCount, sharedBands⟩

end Catalogue

end Pushbroom
