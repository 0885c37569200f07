import Mathlib.LinearAlgebra.Lagrange
import Pushbroom.Polynomial.Lagrange
import Pushbroom.Proofs.EvenTimes
import Pushbroom.Proofs.Geometry.Coordinates

namespace Pushbroom
namespace Lagrange

/-!
# What an interpolant reproduces

In exact arithmetic the weight of a node is the value of its basis polynomial, so every coordinate
of an interpolant is a polynomial of lower degree than there are nodes.  When the times of the
nodes differ it is the only one through them, in whatever order they come: the interpolant has the
vectors of the nodes at their times, and the values of any polynomial of that degree they were taken
from.  Any stretch of samples that are taken one interval apart gives such nodes.
-/

/-- All entries of a list but the one at an index. -/
theorem eraseIdx_ofFn {β : Type} {n : ℕ} (entry : Fin n → β) (i : Fin n) :
    (List.ofFn entry).eraseIdx i = ((List.finRange n).erase i).map entry := by
  have hIndex : (List.finRange n).erase i = (List.finRange n).eraseIdx i := by
    have hErase := (List.nodup_finRange n).erase_getElem i.val (by simp)
    simpa using hErase
  rw [hIndex, List.ofFn_eq_map, List.eraseIdx_map]

theorem injective_times {β γ : Type} {nodes : List (β × γ)}
    (hDistinct : (nodes.map (·.1)).Nodup) :
    Function.Injective fun i : Fin nodes.length => nodes[i].1 := by
  intro i j hSame
  have hNode : nodes[i] = nodes[j] :=
    List.inj_on_of_nodup_map hDistinct (List.getElem_mem _) (List.getElem_mem _) hSame
  exact Fin.ext ((List.Nodup.of_map _ hDistinct).getElem_inj_iff.mp hNode)

/-! ## The polynomial through the nodes -/

section Through

variable {K : Type} [Field K]

/-- The polynomial that a coordinate of an interpolant is. -/
noncomputable def polynomial (nodes : List (K × Vec3 K)) (axis : Axis) : Polynomial K :=
  ∑ i : Fin nodes.length, Polynomial.C (nodes[i].2.coordinate axis) *
    Lagrange.basis Finset.univ (fun j : Fin nodes.length => nodes[j].1) i

variable {nodes : List (K × Vec3 K)} (hDistinct : (nodes.map (·.1)).Nodup)

include hDistinct

theorem degree_polynomial_lt (axis : Axis) :
    (polynomial nodes axis).degree < nodes.length := by
  have hDegree := Lagrange.degree_interpolate_lt (fun i : Fin nodes.length =>
    nodes[i].2.coordinate axis) (injective_times hDistinct).injOn (s := Finset.univ)
  rwa [Lagrange.interpolate_apply, Finset.card_univ, Fintype.card_fin] at hDegree

theorem eval_polynomial_node {node : K × Vec3 K} (hNode : node ∈ nodes) (axis : Axis) :
    (polynomial nodes axis).eval node.1 = node.2.coordinate axis := by
  obtain ⟨i, hIndex, rfl⟩ := List.mem_iff_getElem.mp hNode
  rw [polynomial, ← Lagrange.interpolate_apply]
  exact Lagrange.eval_interpolate_at_node _ (injective_times hDistinct).injOn
    (Finset.mem_univ (⟨i, hIndex⟩ : Fin nodes.length))

/-- There is no other polynomial of lower degree than there are nodes through them. -/
theorem eq_polynomial {p : Polynomial K} {axis : Axis} (hDegree : p.degree < nodes.length)
    (hValues : ∀ node ∈ nodes, node.2.coordinate axis = p.eval node.1) :
    p = polynomial nodes axis := by
  rw [polynomial, ← Lagrange.interpolate_apply]
  refine Lagrange.eq_interpolate_of_eval_eq _ (injective_times hDistinct).injOn ?_ ?_
  · rwa [Finset.card_univ, Fintype.card_fin]
  · intro i _
    exact (hValues nodes[i] (List.getElem_mem _)).symm

end Through

/-! ## Interpolants as polynomials -/

variable {K : Type} [Field K] [LinearOrder K] [FloorRing K]

theorem weight_eq_prod (t own : K) (others : List K) :
    weight t own others = (others.map fun other => (t - other) / (own - other)).prod := by
  have hFold (start : K) :
      others.foldl (fun w other => w * (t - other) / (own - other)) start =
        start * (others.map fun other => (t - other) / (own - other)).prod := by
    induction others generalizing start with
    | nil => simp
    | cons other rest ih =>
        rw [List.foldl_cons, ih, List.map_cons, List.prod_cons, mul_div_assoc, mul_assoc]
  rw [weight, hFold, one_mul]

/-- The weight of a node is the value of its basis polynomial. -/
theorem weight_eq_eval {n : ℕ} (times : Fin n → K) (t : K) (i : Fin n) :
    weight t (times i) ((List.ofFn times).eraseIdx i) =
      (Lagrange.basis Finset.univ times i).eval t := by
  have hFactor (j : Fin n) : (Lagrange.basisDivisor (times i) (times j)).eval t =
      (t - times j) / (times i - times j) := by
    simp only [Lagrange.basisDivisor, Polynomial.eval_mul, Polynomial.eval_C,
      Polynomial.eval_sub, Polynomial.eval_X]
    rw [div_eq_inv_mul]
  rw [weight_eq_prod, eraseIdx_ofFn, List.map_map, Lagrange.basis, Polynomial.eval_prod,
    ← List.prod_toFinset _ ((List.nodup_finRange n).erase i)]
  -- the indices left in the list are those of the basis polynomial's product
  refine Finset.prod_congr ?_ fun j _ => (hFactor j).symm
  ext j
  simp [(List.nodup_finRange n).mem_erase_iff]

theorem coordinate_interpolate (nodes : List (K × Vec3 K)) (t : K) (axis : Axis) :
    (interpolate nodes t).coordinate axis = (polynomial nodes axis).eval t := by
  -- the times and the numbered nodes, as functions of an index
  let times : Fin nodes.length → K := fun j => nodes[j].1
  have hTimes : nodes.map (·.1) = List.ofFn times := by
    apply List.ext_getElem <;> simp [times]
  have hNodes : nodes.zipIdx = List.ofFn fun i : Fin nodes.length => (nodes[i], (i : ℕ)) := by
    apply List.ext_getElem <;> simp
  simp only [interpolate, hTimes]
  rw [Vec3.coordinate_foldl_add, Vec3.coordinate_zero, zero_add, hNodes, List.map_ofFn,
    List.sum_ofFn, polynomial, Polynomial.eval_finsetSum]
  refine Finset.sum_congr rfl fun i _ => ?_
  rw [Polynomial.eval_mul, Polynomial.eval_C, ← weight_eq_eval times t i]
  exact Vec3.coordinate_scale _ _ axis

section Distinct

variable {nodes : List (K × Vec3 K)} (hDistinct : (nodes.map (·.1)).Nodup)

include hDistinct

/-- An interpolant goes through its nodes. -/
theorem interpolate_node {node : K × Vec3 K} (hNode : node ∈ nodes) :
    interpolate nodes node.1 = node.2 := by
  apply Vec3.ext_coordinate
  intro axis
  rw [coordinate_interpolate, eval_polynomial_node hDistinct hNode]

/-- Nodes on a polynomial of lower degree than there are nodes give that polynomial back. -/
theorem coordinate_interpolate_of_natDegree_lt {p : Polynomial K} {axis : Axis}
    (hDegree : p.natDegree < nodes.length)
    (hValues : ∀ node ∈ nodes, node.2.coordinate axis = p.eval node.1) (t : K) :
    (interpolate nodes t).coordinate axis = p.eval t := by
  have hBelow : p.degree < nodes.length :=
    Polynomial.degree_le_natDegree.trans_lt (Nat.cast_lt.mpr hDegree)
  rw [coordinate_interpolate, eq_polynomial hDistinct hBelow hValues]

/-- The order of the nodes does not matter: the polynomial through them is the same. -/
theorem interpolate_perm {rearranged : List (K × Vec3 K)} (hPerm : rearranged.Perm nodes)
    (t : K) : interpolate rearranged t = interpolate nodes t := by
  have hRearranged : (rearranged.map (·.1)).Nodup := (hPerm.map _).nodup_iff.mpr hDistinct
  have hSame (axis : Axis) : polynomial nodes axis = polynomial rearranged axis := by
    refine eq_polynomial hRearranged ?_ fun node hNode => ?_
    · rw [hPerm.length_eq]
      exact degree_polynomial_lt hDistinct axis
    · rw [eval_polynomial_node hDistinct (hPerm.mem_iff.mp hNode)]
  apply Vec3.ext_coordinate
  intro axis
  rw [coordinate_interpolate, coordinate_interpolate, hSame]

end Distinct

/-- Nodes at different times have one interpolant, in whatever order they are listed.  It has the
vectors of the nodes at their times, and where those are taken from polynomials of lower degree than
there are nodes, it has the values of these polynomials at every time. -/
theorem interpolate_reproduces {nodes : List (K × Vec3 K)}
    (hDistinct : (nodes.map (·.1)).Nodup) :
    (∀ node ∈ nodes, interpolate nodes node.1 = node.2) ∧
    (∀ p : Axis → Polynomial K, (∀ axis, (p axis).natDegree < nodes.length) →
      (∀ node ∈ nodes, ∀ axis, node.2.coordinate axis = (p axis).eval node.1) →
        ∀ t axis, (interpolate nodes t).coordinate axis = (p axis).eval t) ∧
    ∀ rearranged : List (K × Vec3 K), rearranged.Perm nodes →
      ∀ t, interpolate rearranged t = interpolate nodes t := by
  refine ⟨fun node hNode => interpolate_node hDistinct hNode, ?_,
    fun rearranged hPerm t => interpolate_perm hDistinct hPerm t⟩
  intro p hDegree hValues t axis
  exact coordinate_interpolate_of_natDegree_lt hDistinct (hDegree axis)
    (fun node hNode => hValues node hNode axis) t

/-- Four nodes at uneven times, out of order, on a cubic, a line and a parabola. -/
def unevenNodes : List (ℚ × Vec3 ℚ) :=
  [0, 3, 1, -1 / 2].map fun t => (t, ⟨t ^ 3, 1 - t, 2 * t ^ 2⟩)

/-- The polynomials that the vectors of `unevenNodes` are taken from. -/
noncomputable def unevenCurve : Axis → Polynomial ℚ
  | .x => Polynomial.X ^ 3
  | .y => 1 - Polynomial.X
  | .z => Polynomial.C 2 * Polynomial.X ^ 2

theorem natDegree_unevenCurve (axis : Axis) :
    (unevenCurve axis).natDegree < unevenNodes.length := by
  have hCubic : (unevenCurve axis).natDegree ≤ 3 := by
    cases axis <;> rw [unevenCurve] <;> compute_degree!
  exact Nat.lt_succ_of_le hCubic

theorem unevenNodes_on_curve : ∀ node ∈ unevenNodes, ∀ axis,
    node.2.coordinate axis = (unevenCurve axis).eval node.1 := by
  intro node hNode axis
  obtain ⟨t, -, rfl⟩ := List.mem_map.mp hNode
  cases axis <;> simp [unevenCurve, Vec3.coordinate]

/-- At a node, away from the nodes, and with the nodes the other way round. -/
theorem interpolate_reproduces_uneven :
    (unevenNodes.map (·.1)).Nodup ∧ interpolate unevenNodes 3 = ⟨27, -2, 18⟩ ∧
    (∀ axis, (interpolate unevenNodes 2).coordinate axis = (unevenCurve axis).eval 2) ∧
    interpolate unevenNodes.reverse 2 = interpolate unevenNodes 2 := by
  have hDistinct : (unevenNodes.map (·.1)).Nodup := by decide +kernel
  have hNode : (3, ⟨27, -2, 18⟩) ∈ unevenNodes :=
    List.mem_map.mpr ⟨3, by decide +kernel, by norm_num⟩
  obtain ⟨hNodes, hCurve, hOrder⟩ := interpolate_reproduces hDistinct
  have hAtNode := hNodes (3, ⟨27, -2, 18⟩) hNode
  exact ⟨hDistinct, hAtNode, hCurve unevenCurve natDegree_unevenCurve unevenNodes_on_curve 2,
    hOrder unevenNodes.reverse unevenNodes.reverse_perm 2⟩

/-! ## Stretches of samples -/

section Stretch

variable [IsStrictOrderedRing K] {β : Type} {samples : Array β} {timeOf : β → K}
  {valueOf : β → Vec3 K} {first interval : K} {start stop : ℕ}

/-- The nodes of the samples from one index on and before another. -/
def stretch (samples : Array β) (timeOf : β → K) (valueOf : β → Vec3 K) (start stop : ℕ) :
    List (K × Vec3 K) :=
  (samples.extract start stop).toList.map fun sample => (timeOf sample, valueOf sample)

omit [FloorRing K] in
theorem nodup_times_stretch (hInterval : 0 < interval)
    (hEven : ∀ i (hIndex : i < samples.size), timeOf samples[i] = first + i * interval) :
    ((stretch samples timeOf valueOf start stop).map (·.1)).Nodup := by
  rw [stretch, List.map_map]
  exact nodup_times_extract hInterval hEven start stop

/-- The interpolant through a stretch has the vector of any of its samples at its time. -/
theorem interpolate_stretch_sample (hInterval : 0 < interval)
    (hEven : ∀ i (hIndex : i < samples.size), timeOf samples[i] = first + i * interval)
    {sample : β} (hSample : sample ∈ samples) (hLow : first + start * interval ≤ timeOf sample)
    (hHigh : timeOf sample < first + stop * interval) :
    interpolate (stretch samples timeOf valueOf start stop) (timeOf sample) = valueOf sample := by
  have hInside := mem_extract_of_time hInterval hEven hSample hLow hHigh
  have hNode : (timeOf sample, valueOf sample) ∈ stretch samples timeOf valueOf start stop :=
    List.mem_map_of_mem (Array.mem_toList_iff.mpr hInside)
  -- the node is the pair, which is not to be guessed from the goal
  have hThrough := interpolate_node (nodup_times_stretch hInterval hEven) hNode
  exact hThrough

/-- Vectors taken from a polynomial give it back through any stretch that is long enough. -/
theorem coordinate_interpolate_stretch (hInterval : 0 < interval)
    (hEven : ∀ i (hIndex : i < samples.size), timeOf samples[i] = first + i * interval)
    (hStop : stop ≤ samples.size) {p : Polynomial K} {axis : Axis}
    (hDegree : p.natDegree < stop - start)
    (hSampled : ∀ sample ∈ samples, (valueOf sample).coordinate axis = p.eval (timeOf sample))
    (time : K) :
    (interpolate (stretch samples timeOf valueOf start stop) time).coordinate axis =
      p.eval time := by
  have hLength : (stretch samples timeOf valueOf start stop).length = stop - start := by
    rw [stretch, List.length_map, Array.length_toList, Array.size_extract, Nat.min_eq_left hStop]
  refine coordinate_interpolate_of_natDegree_lt (nodup_times_stretch hInterval hEven)
    (hLength.symm ▸ hDegree) ?_ time
  intro node hNode
  obtain ⟨sample, hInside, rfl⟩ := List.mem_map.mp hNode
  obtain ⟨k, hIndex, rfl⟩ := Array.mem_extract_iff_getElem.mp (Array.mem_toList_iff.mp hInside)
  exact hSampled _ (Array.getElem_mem _)

end Stretch

end Lagrange
end Pushbroom
