import Pushbroom.Scalar.Basic

namespace Pushbroom
namespace Filter

/-!
# Low pass filter settings

The parameters of a low pass filter design and the length of the kernel they ask for.
-/

structure Settings (α : Type) where
  /-- Weight of the error in the pass band. -/
  passWeight : α
  /-- Weight of the error in the stop band. -/
  stopWeight : α
  /-- The stop band starts at this multiple of the cut-off frequency. -/
  stopRatio : α
  /-- Kernel length, in periods of the cut-off frequency. -/
  lengthFactor : Nat
  /-- Density of the grid of frequencies a design is checked on. -/
  gridDensity : Nat
  /-- The largest number of exchange steps. -/
  maxIterations : Nat

namespace Settings

variable {α : Type} [Scalar α]

/-- Settings with enough stop band rejection to separate attitude jitter. -/
def standard : Settings α where
  passWeight := 1
  stopWeight := 10.0
  stopRatio := 1.5
  lengthFactor := 3
  gridDensity := 16
  maxIterations := 40

/-- The number of taps for a cut-off frequency and a sampling interval: `lengthFactor`
whole periods and one, made odd. -/
def kernelLength (settings : Settings α) (cutoff interval : α) : Nat :=
  let periods := Scalar.toPosition (1 / (cutoff * interval))
  let length := settings.lengthFactor * periods + 1
  if length % 2 = 0 then length + 1 else length

end Settings

end Filter
end Pushbroom
