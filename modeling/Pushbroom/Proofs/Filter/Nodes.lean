import Pushbroom.Proofs.Filter.Kernel

namespace Pushbroom
namespace Filter

/-!
# The nodes of a levelled response

A response is kept as one node per point.  The points go along with their barycentric weights when
the levelled error is found, and give the value of their node from it.
-/

variable {α : Type} [Scalar α] [Elementary α]

def cosinesOf (points : List (GridPoint α)) : List α :=
  points.map fun point => cosineAt point.frequency

/-- Points with the barycentric weights of their cosines. -/
def weighted (points : List (GridPoint α)) : List (GridPoint α × α) :=
  points.zip (barycentricWeights (cosinesOf points))

@[simp]
theorem length_weighted (points : List (GridPoint α)) :
    (weighted points).length = points.length := by
  simp [weighted, cosinesOf, barycentricWeights]

theorem map_fst_weighted (points : List (GridPoint α)) : (weighted points).map Prod.fst = points :=
  List.map_fst_zip (by simp [cosinesOf, barycentricWeights])

theorem map_zipIdx_weighted (points : List (GridPoint α)) :
    ((weighted points).zipIdx.map fun entry => entry.1.1) = points := by
  calc ((weighted points).zipIdx.map fun entry => entry.1.1)
      = ((weighted points).zipIdx.map Prod.fst).map Prod.fst := (List.map_map ..).symm
    _ = points := by rw [List.zipIdx_map_fst, map_fst_weighted]

@[simp]
theorem length_nodes (points : List (GridPoint α)) : (nodes points).length = points.length := by
  simp [nodes, barycentricWeights]

/-- The value of a node: the gain at its point, less the levelled error there. -/
theorem exists_of_mem_nodes {points : List (GridPoint α)} {node : Node α}
    (hNode : node ∈ nodes points) : ∃ point ∈ points, ∃ i, node.value =
      point.gain - alternation i * levelledError (weighted points) / point.weight := by
  obtain ⟨⟨⟨cosine, point, weight⟩, i⟩, hEntry, rfl⟩ := List.mem_map.mp hNode
  have hWeighted : (point, weight) ∈ weighted points :=
    (List.of_mem_zip (List.fst_mem_of_mem_zipIdx hEntry)).2
  exact ⟨point, (List.of_mem_zip hWeighted).1, i, rfl⟩

end Filter
end Pushbroom
