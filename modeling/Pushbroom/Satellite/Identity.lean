namespace Pushbroom

/-!
# Satellites and their sensors

The two satellites with this imager, and the two sensors on board.  A model always has
room for both sensors, whether or not both are carried.
-/

inductive Satellite where
  | landsat8
  | landsat9
deriving DecidableEq

def Satellite.name : Satellite → String
  | .landsat8 => "L8"
  | .landsat9 => "L9"

/-- The imaging sensors: the land imager, then the thermal one. -/
inductive Sensor where
  /-- Operational Land Imager. -/
  | oli
  /-- Thermal InfraRed Sensor, behind a scene select mirror. -/
  | tirs
deriving DecidableEq

namespace Sensor

def name : Sensor → String
  | .oli => "OLI"
  | .tirs => "TIRS"

/-- Every sensor, in the order in which they are counted. -/
def all : List Sensor :=
  [.oli, .tirs]

def index : Sensor → Nat
  | .oli => 0
  | .tirs => 1

/-- The sensors carried by a satellite with `count` of them. -/
def aboard (count : Nat) : List Sensor :=
  all.take count

end Sensor

end Pushbroom
