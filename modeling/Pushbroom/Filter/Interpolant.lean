import Pushbroom.Filter.Grid

namespace Pushbroom
namespace Filter

/-!
# The interpolant through the extremal frequencies

The amplitude response of an odd, symmetric filter is a polynomial in the cosine of the
angular frequency.  Given the grid points at which its weighted error shall alternate, the
response is kept in barycentric form: one node per point, with its cosine, the value the
response takes there and a weight.

Two guards keep the arithmetic finite.  A product of distances below `10⁻⁵` in magnitude is
replaced by `10⁻⁵`, and a response asked for within `10⁻⁷` of a node's cosine is the value
of that node.
-/

/-- A node of the barycentric form of a response. -/
structure Node (α : Type) where
  cosine : α
  value : α
  weight : α

variable {α : Type} [Scalar α]

/-- `1` at even positions and `-1` at odd ones. -/
def alternation (i : Nat) : α :=
  if i % 2 = 0 then 1 else -1

/-- The entries of a list with their positions, each residue of the position modulo
`stride` in turn.  Products of many distances stay in range when they are taken in this
order. -/
def strided {β : Type} (stride : Nat) (entries : List β) : List (β × Nat) :=
  (List.range stride).flatMap fun residue =>
    entries.zipIdx.filter fun entry => entry.2 % stride == residue

/-- The stride for a list of `count` cosines. -/
def strideFor (count : Nat) : Nat :=
  (count - 2) / 15 + 1

/-- Twice the distances from a cosine at position `i` to all the others, multiplied. -/
def distanceProduct (others : List (α × Nat)) (cosine : α) (i : Nat) : α :=
  others.foldl
    (fun product other =>
      if other.2 = i then product else product * (2.0 * (cosine - other.1)))
    1

/-- The product of distances, kept away from zero. -/
def guardedProduct (others : List (α × Nat)) (cosine : α) (i : Nat) : α :=
  let product := distanceProduct others cosine i
  if Scalar.abs product < 1e-5 then 1e-5 else product

/-- The barycentric weights of a list of cosines. -/
def barycentricWeights (cosines : List α) : List α :=
  let others := strided (strideFor cosines.length) cosines
  cosines.zipIdx.map fun entry => 1 / guardedProduct others entry.1 entry.2

/-- The weighted error, of alternating sign, that a polynomial of lower degree can have at
all of the points.  The points come with their barycentric weights. -/
def levelledError (points : List (GridPoint α × α)) : α :=
  let numerator := points.foldl (fun total point => total + point.2 * point.1.gain) 0
  let denominator := points.zipIdx.foldl
    (fun total point =>
      total + alternation point.2 * point.1.2 / point.1.1.weight)
    0
  numerator / denominator

/-- Goes on with the numerator and denominator of the barycentric quotient at `x`. -/
def evaluateFrom (snap x numerator denominator : α) : List (Node α) → α
  | [] => numerator / denominator
  | node :: rest =>
    let distance := x - node.cosine
    if Scalar.abs distance < snap then node.value
    else
      let quotient := node.weight / distance
      evaluateFrom snap x (numerator + quotient * node.value) (denominator + quotient) rest

/-- The value at `x` of the polynomial kept by a list of nodes. -/
def evaluate (nodes : List (Node α)) (x : α) : α :=
  evaluateFrom 1e-7 x 0 0 nodes

variable [Elementary α]

/-- The cosine of the angular frequency of `frequency` cycles per sample. -/
def cosineAt (frequency : α) : α :=
  Elementary.cos (Elementary.turn * frequency)

/-- The nodes of the response whose weighted error alternates at the given points. -/
def nodes (points : List (GridPoint α)) : List (Node α) :=
  let cosines := points.map fun point => cosineAt point.frequency
  let weights := barycentricWeights cosines
  let weighted := points.zip weights
  let level := levelledError weighted
  (cosines.zip weighted).zipIdx.map fun entry =>
    let ((cosine, point, weight), i) := entry
    ⟨cosine, point.gain - alternation i * level / point.weight, weight⟩

def response (nodes : List (Node α)) (frequency : α) : α :=
  evaluate nodes (cosineAt frequency)

end Filter
end Pushbroom
