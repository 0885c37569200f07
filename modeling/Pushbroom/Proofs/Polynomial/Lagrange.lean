import Mathlib.Tactic
import Pushbroom.Polynomial.Lagrange
import Pushbroom.Proofs.Scalar.Exact

namespace Pushbroom
namespace Lagrange

/-!
# Interpolation and the origin of time

An interpolant reads nothing of its times but the differences between them, so it does not
matter where they are counted from.
-/

variable {K : Type} [Field K] [LinearOrder K] [FloorRing K]

theorem weight_sub (shift t own : K) (others : List K) :
    weight (t - shift) (own - shift) (others.map fun other => other - shift) =
      weight t own others := by
  simp only [weight, List.foldl_map, sub_sub_sub_cancel_right]

/-- Nodes and the time of interest counted from `shift` later. -/
theorem interpolate_sub (shift : K) (nodes : List (K × Vec3 K)) (t : K) :
    interpolate (nodes.map fun node => (node.1 - shift, node.2)) (t - shift) =
      interpolate nodes t := by
  have hTimes : (nodes.map fun node => (node.1 - shift, node.2)).map (·.1) =
      (nodes.map (·.1)).map fun time => time - shift := by
    simp only [List.map_map, Function.comp_def]
  simp only [interpolate, hTimes, List.zipIdx_map, List.foldl_map, List.eraseIdx_map, Prod.map,
    id, weight_sub]

end Lagrange
end Pushbroom
