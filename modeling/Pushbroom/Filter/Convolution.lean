import Pushbroom.Geometry.Vec3

namespace Pushbroom
namespace Filter

/-!
# Convolution with reflected ends

A signal is continued beyond its ends by reflection: about its first sample at the start,
across its edge at the end, and again and again for kernels that are longer than it.  The
kernel has odd length and is centred on the sample it replaces, so a symmetric kernel does
not shift the signal.
-/

/-- The sample of a signal of `n` samples that stands for position `j`.  A reflection can
only change the sign of a position once before it brings it nearer to the signal. -/
def reflect (n : Nat) (hPositive : 0 < n) (j : Int) : Fin n :=
  if hNegative : j < 0 then reflect n hPositive (-j)
  else if hBeyond : (n : Int) ≤ j then reflect n hPositive (2 * (n : Int) - j - 1)
  else ⟨j.toNat, by omega⟩
termination_by 2 * j.natAbs + (if j < 0 then 1 else 0)
decreasing_by
  all_goals split <;> omega

variable {α : Type} [Scalar α]

/-- The value a kernel gives to sample `i` of a signal. -/
def smoothAt (kernel : List α) (signal : Array (Vec3 α)) (i : Fin signal.size) : Vec3 α :=
  let half := kernel.length / 2
  let hPositive : 0 < signal.size := Nat.lt_of_le_of_lt (Nat.zero_le i.val) i.isLt
  kernel.zipIdx.foldl
    (fun total tap =>
      let source := reflect signal.size hPositive
        ((i.val : Int) + (tap.2 : Int) - (half : Int))
      total + signal[source].scale tap.1)
    0

def smooth (kernel : List α) (signal : Array (Vec3 α)) : Array (Vec3 α) :=
  Array.ofFn (smoothAt kernel signal)

end Filter
end Pushbroom
