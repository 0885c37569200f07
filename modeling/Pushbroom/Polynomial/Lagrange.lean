import Pushbroom.Geometry.Vec3

namespace Pushbroom
namespace Lagrange

/-!
# Lagrange interpolation

The interpolant through a list of nodes, each a time and the vector observed then.  The
weight of a node is the product, over the other nodes in order, of the quotients
`(t - tⱼ) / (tᵢ - tⱼ)`.
-/

variable {α : Type} [Scalar α]

/-- The weight at time `t` of a node at time `own` among nodes at the times `others`. -/
def weight (t own : α) (others : List α) : α :=
  others.foldl (fun w other => w * (t - other) / (own - other)) 1

/-- The value at time `t` of the polynomial through all the nodes. -/
def interpolate (nodes : List (α × Vec3 α)) (t : α) : Vec3 α :=
  let times := nodes.map (·.1)
  nodes.zipIdx.foldl
    (fun total node =>
      total + node.1.2.scale (weight t node.1.1 (times.eraseIdx node.2)))
    0

end Lagrange
end Pushbroom
