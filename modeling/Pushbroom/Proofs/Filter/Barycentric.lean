import Mathlib.LinearAlgebra.Lagrange
import Pushbroom.Filter.Interpolant
import Pushbroom.Proofs.Scalar.Exact

namespace Pushbroom
namespace Filter

/-!
# The levelled response as a polynomial

In exact arithmetic, and as long as no guard is used, the nodes of a response are those of
Lagrange's interpolation: the distances are multiplied once each, whatever the stride, and the
quotient of the barycentric form is the interpolating polynomial.  The level is chosen such
that the coefficient of the highest degree vanishes, so the degree is two less than the
number of nodes.
-/

/-! ## Distances in the order of a stride -/

/-- Taken residue by residue, every entry is taken once. -/
theorem strided_perm {β : Type} {stride : Nat} (hStride : 0 < stride) (entries : List β) :
    (strided stride entries).Perm entries.zipIdx := by
  classical
  rw [List.perm_iff_count]
  intro entry
  have hResidue (residue : Nat) :
      List.count entry (entries.zipIdx.filter fun other => other.2 % stride == residue) =
        if entry.2 % stride = residue then List.count entry entries.zipIdx else 0 := by
    split
    · rename_i hSame
      exact List.count_filter (by simpa using hSame)
    · rename_i hOther
      rw [List.count_eq_zero, List.mem_filter]
      simp [hOther]
  have hSum : ((List.range stride).map fun residue =>
      if entry.2 % stride = residue then List.count entry entries.zipIdx else 0).sum =
        ∑ residue ∈ Finset.range stride,
          if entry.2 % stride = residue then List.count entry entries.zipIdx else 0 :=
    rfl
  rw [strided, List.count_flatMap]
  simp only [Function.comp_def, hResidue]
  rw [hSum, Finset.sum_ite_eq, if_pos (Finset.mem_range.mpr (Nat.mod_lt _ hStride))]

theorem zipIdx_ofFn {β : Type} {n : Nat} (f : Fin n → β) :
    (List.ofFn f).zipIdx = List.ofFn fun i => (f i, i.val) := by
  apply List.ext_getElem
  · simp
  · intro i hLeft hRight
    simp

variable {K : Type} [Field K]

/-- The distances from one of a family of cosines to all the others, doubled and multiplied. -/
def separation {n : Nat} (cosines : Fin n → K) (i : Fin n) : K :=
  ∏ j ∈ Finset.univ.erase i, 2 * (cosines i - cosines j)

theorem separation_eq {n : Nat} (cosines : Fin n → K) (i : Fin n) :
    separation cosines i = 2 ^ (n - 1) * ∏ j ∈ Finset.univ.erase i, (cosines i - cosines j) := by
  rw [separation, Finset.prod_mul_distrib, Finset.prod_const,
    Finset.card_erase_of_mem (Finset.mem_univ i), Finset.card_univ, Fintype.card_fin]

variable [LinearOrder K] [FloorRing K]

theorem distanceProduct_eq_prod (others : List (K × Nat)) (cosine : K) (i : Nat) :
    distanceProduct others cosine i =
      (others.map fun other => if other.2 = i then 1 else 2 * (cosine - other.1)).prod := by
  have hTwo : (2.0 : K) = 2 := by norm_num
  have hFold (start : K) :
      others.foldl (fun product other =>
          if other.2 = i then product else product * (2.0 * (cosine - other.1))) start =
        start * (others.map fun other =>
          if other.2 = i then 1 else 2 * (cosine - other.1)).prod := by
    induction others generalizing start with
    | nil => simp
    | cons other rest ih =>
        rw [List.foldl_cons, ih, List.map_cons, List.prod_cons, hTwo]
        split
        · rw [one_mul]
        · rw [mul_assoc]
  rw [distanceProduct, hFold, one_mul]

theorem distanceProduct_strided {n stride : Nat} (hStride : 0 < stride) (cosines : Fin n → K)
    (i : Fin n) :
    distanceProduct (strided stride (List.ofFn cosines)) (cosines i) i =
      separation cosines i := by
  rw [distanceProduct_eq_prod, ((strided_perm hStride _).map _).prod_eq, zipIdx_ofFn,
    List.map_ofFn, List.prod_ofFn, ← Finset.mul_prod_erase _ _ (Finset.mem_univ i)]
  simp only [Function.comp_apply, if_true, one_mul]
  refine Finset.prod_congr rfl fun j hj => ?_
  rw [if_neg (Fin.val_ne_of_ne (Finset.ne_of_mem_erase hj))]

/-! ## The level -/

section Level

variable {n : Nat} (points : Fin n → GridPoint K) (weights : Fin n → K)

/-- The level of an alternating error that leaves a polynomial of lower degree. -/
def level : K :=
  (∑ i, weights i * (points i).gain) /
    ∑ i : Fin n, alternation i.val * weights i / (points i).weight

theorem levelledError_ofFn :
    levelledError (List.ofFn fun i => (points i, weights i)) = level points weights := by
  have hFold {β : Type} (f : β → K) (entries : List β) (start : K) :
      entries.foldl (fun total entry => total + f entry) start = start + (entries.map f).sum := by
    induction entries generalizing start with
    | nil => simp
    | cons entry rest ih => rw [List.foldl_cons, ih, List.map_cons, List.sum_cons, add_assoc]
  unfold levelledError level
  rw [zipIdx_ofFn]
  simp only [hFold, List.map_ofFn, List.sum_ofFn, zero_add, Function.comp_def]

/-- The values of a response with an alternating error of the given level. -/
def levelledValue (level : K) (i : Fin n) : K :=
  (points i).gain - alternation i.val * level / (points i).weight

/-- The values with the right level have no component of the highest degree. -/
theorem sum_levelledValue
    (hLevel : ∑ i : Fin n, alternation i.val * weights i / (points i).weight ≠ 0) :
    ∑ i, weights i * levelledValue points (level points weights) i = 0 := by
  have hTerm (i : Fin n) : weights i * levelledValue points (level points weights) i =
      weights i * (points i).gain -
        level points weights * (alternation i.val * weights i / (points i).weight) := by
    rw [levelledValue]
    ring
  simp only [hTerm]
  rw [Finset.sum_sub_distrib, ← Finset.mul_sum, level, div_mul_cancel₀ _ hLevel, sub_self]

end Level

/-! ## Levelled points -/

section Points

variable [Elementary K] {n : Nat}

/-- The cosines of the angular frequencies of a family of grid points. -/
def cosines (points : Fin n → GridPoint K) (i : Fin n) : K :=
  cosineAt (points i).frequency

def nodeWeight (points : Fin n → GridPoint K) (i : Fin n) : K :=
  (separation (cosines points) i)⁻¹

def nodeValue (points : Fin n → GridPoint K) (i : Fin n) : K :=
  levelledValue points (level points (nodeWeight points)) i

/-- Points at which no guard is used: their cosines are further apart than those that count as
equal, no product of distances is clamped, and the quotient of the level has a divisor. -/
structure Unguarded (points : Fin n → GridPoint K) : Prop where
  apart : ∀ i j, i ≠ j → 1e-7 ≤ |cosines points i - cosines points j|
  unclamped : ∀ i, 1e-5 ≤ |separation (cosines points) i|
  weighted : ∀ i, (points i).weight ≠ 0
  divisor : ∑ i : Fin n, alternation i.val * nodeWeight points i / (points i).weight ≠ 0

/-- The weighted errors at the points have one magnitude and alternating signs. -/
theorem Unguarded.error_nodeValue {points : Fin n → GridPoint K} (hUnguarded : Unguarded points)
    (i : Fin n) :
    (points i).weight * ((points i).gain - nodeValue points i) =
      alternation i.val * level points (nodeWeight points) := by
  rw [nodeValue, levelledValue, sub_sub_cancel]
  exact mul_div_cancel₀ _ (hUnguarded.weighted i)

end Points

/-! ## The weights and the barycentric quotient -/

variable [IsStrictOrderedRing K]

theorem barycentricWeights_ofFn {n : Nat} {cosines : Fin n → K}
    (hUnclamped : ∀ i, 1e-5 ≤ |separation cosines i|) :
    barycentricWeights (List.ofFn cosines) = List.ofFn fun i => (separation cosines i)⁻¹ := by
  unfold barycentricWeights
  rw [zipIdx_ofFn, List.map_ofFn]
  refine congrArg List.ofFn (funext fun i => ?_)
  have hProduct : distanceProduct
      (strided (strideFor (List.ofFn cosines).length) (List.ofFn cosines)) (cosines i) i =
        separation cosines i :=
    distanceProduct_strided (Nat.succ_pos _) cosines i
  simp only [Function.comp_apply, guardedProduct, hProduct, Scalar.abs_eq]
  rw [if_neg (not_lt.mpr (hUnclamped i)), one_div]

/-- The quotient over nodes of which none is met. -/
theorem evaluateFrom_of_far {snap x : K} {nodes : List (Node K)}
    (hFar : ∀ node ∈ nodes, snap ≤ |x - node.cosine|) (numerator denominator : K) :
    evaluateFrom snap x numerator denominator nodes =
      (numerator + (nodes.map fun node => node.weight / (x - node.cosine) * node.value).sum) /
        (denominator + (nodes.map fun node => node.weight / (x - node.cosine)).sum) := by
  induction nodes generalizing numerator denominator with
  | nil => simp [evaluateFrom]
  | cons node rest ih =>
      obtain ⟨hNode, hRest⟩ := List.forall_mem_cons.mp hFar
      simp only [evaluateFrom, Scalar.abs_eq]
      rw [if_neg (not_lt.mpr hNode), ih hRest]
      simp only [List.map_cons, List.sum_cons, add_assoc]

/-- At a node whose cosine is away from the others, the quotient stops with its value. -/
theorem evaluateFrom_of_mem {snap : K} (hSnap : 0 < snap) {nodes : List (Node K)}
    (hApart : nodes.Pairwise fun node other => snap ≤ |other.cosine - node.cosine|)
    {node : Node K} (hNode : node ∈ nodes) (numerator denominator : K) :
    evaluateFrom snap node.cosine numerator denominator nodes = node.value := by
  induction nodes generalizing numerator denominator with
  | nil => exact absurd hNode List.not_mem_nil
  | cons first rest ih =>
      obtain ⟨hFirst, hRest⟩ := List.pairwise_cons.mp hApart
      simp only [evaluateFrom, Scalar.abs_eq]
      rcases List.mem_cons.mp hNode with rfl | hLater
      · rw [sub_self, abs_zero, if_pos hSnap]
      · rw [if_neg (not_lt.mpr (hFirst node hLater)), ih hRest hLater]

/-! ## The interpolating polynomial -/

section Response

variable [Elementary K] {n : Nat} {points : Fin n → GridPoint K}

theorem nodes_ofFn (hUnguarded : Unguarded points) :
    nodes (List.ofFn points) = List.ofFn fun i =>
      ⟨cosines points i, nodeValue points i, nodeWeight points i⟩ := by
  have hCosines : (List.ofFn points).map (fun point => cosineAt point.frequency) =
      List.ofFn (cosines points) := by
    rw [List.map_ofFn]
    rfl
  have hZip {β γ : Type} (f : Fin n → β) (g : Fin n → γ) :
      (List.ofFn f).zip (List.ofFn g) = List.ofFn fun i => (f i, g i) := by
    apply List.ext_getElem
    · simp
    · intro i hLeft hRight
      simp
  unfold nodes
  simp only [hCosines, barycentricWeights_ofFn hUnguarded.unclamped, hZip, zipIdx_ofFn,
    levelledError_ofFn, List.map_ofFn]
  rfl

theorem Unguarded.injOn (hUnguarded : Unguarded points) :
    Set.InjOn (cosines points) (Finset.univ : Finset (Fin n)) := by
  intro i _ j _ hSame
  by_contra hOther
  have hApart := hUnguarded.apart i j hOther
  rw [hSame, sub_self, abs_zero] at hApart
  norm_num at hApart

/-- The polynomial through the nodes of the levelled response. -/
noncomputable def interpolant (points : Fin n → GridPoint K) : Polynomial K :=
  ∑ i, Polynomial.C (nodeValue points i) * Lagrange.basis Finset.univ (cosines points) i

theorem eval_interpolant (hUnguarded : Unguarded points) (i : Fin n) :
    (interpolant points).eval (cosines points i) = nodeValue points i := by
  rw [interpolant, ← Lagrange.interpolate_apply]
  exact Lagrange.eval_interpolate_at_node _ hUnguarded.injOn (Finset.mem_univ i)

/-- The doubling of the distances multiplies all the weights by one power of two. -/
theorem prod_sub_inv_eq (points : Fin n → GridPoint K) (i : Fin n) :
    (∏ j ∈ Finset.univ.erase i, (cosines points i - cosines points j))⁻¹ =
      2 ^ (n - 1) * nodeWeight points i := by
  rw [nodeWeight, separation_eq, mul_inv, mul_inv_cancel_left₀ (pow_ne_zero _ two_ne_zero)]

/-- The level takes a degree from the polynomial. -/
theorem degree_interpolant_lt (hUnguarded : Unguarded points) (hPoints : 0 < n) :
    (interpolant points).degree < (n - 1 : ℕ) := by
  have hDegree : (interpolant points).degree < (Finset.univ : Finset (Fin n)).card := by
    rw [interpolant, ← Lagrange.interpolate_apply]
    exact Lagrange.degree_interpolate_lt _ hUnguarded.injOn
  have hHighest : (interpolant points).coeff (n - 1) = 0 := by
    have hCoeff := Lagrange.coeff_eq_sum hUnguarded.injOn hDegree
    simp only [eval_interpolant hUnguarded] at hCoeff
    rw [Finset.card_univ, Fintype.card_fin] at hCoeff
    have hTerm (i : Fin n) :
        nodeValue points i / ∏ j ∈ Finset.univ.erase i, (cosines points i - cosines points j) =
          2 ^ (n - 1) * (nodeWeight points i * nodeValue points i) := by
      rw [div_eq_mul_inv, prod_sub_inv_eq]
      ring
    simp only [hTerm] at hCoeff
    rw [hCoeff, ← Finset.mul_sum]
    simp only [nodeValue]
    rw [sum_levelledValue points _ hUnguarded.divisor, mul_zero]
  rw [Finset.card_univ, Fintype.card_fin] at hDegree
  rw [Polynomial.degree_lt_iff_coeff_zero] at hDegree ⊢
  intro k hk
  rcases eq_or_lt_of_le hk with rfl | hAbove
  · exact hHighest
  · exact hDegree k (by omega)

/-- The response at a cosine that is that of a node, or is not mistaken for it, is the value of
the polynomial. -/
theorem evaluate_nodes (hUnguarded : Unguarded points) (hPoints : 0 < n) {x : K}
    (hResolved : ∀ i, x = cosines points i ∨ 1e-7 ≤ |x - cosines points i|) :
    evaluate (nodes (List.ofFn points)) x = (interpolant points).eval x := by
  have hSnap : (0 : K) < 1e-7 := by norm_num
  unfold evaluate
  rw [nodes_ofFn hUnguarded]
  by_cases hNode : ∃ i, x = cosines points i
  · obtain ⟨i, rfl⟩ := hNode
    have hApart : (List.ofFn fun j : Fin n =>
        (⟨cosines points j, nodeValue points j, nodeWeight points j⟩ : Node K)).Pairwise
          fun node other => 1e-7 ≤ |other.cosine - node.cosine| := by
      rw [List.pairwise_ofFn]
      intro first second hOrder
      exact hUnguarded.apart second first hOrder.ne'
    rw [eval_interpolant hUnguarded]
    exact evaluateFrom_of_mem hSnap hApart (List.mem_ofFn.mpr ⟨i, rfl⟩) 0 0
  · have hFar (i : Fin n) : 1e-7 ≤ |x - cosines points i| :=
      (hResolved i).resolve_left fun hSame => hNode ⟨i, hSame⟩
    have hWeight (i : Fin n) : Lagrange.nodalWeight Finset.univ (cosines points) i =
        2 ^ (n - 1) * nodeWeight points i := by
      rw [Lagrange.nodalWeight, Finset.prod_inv_distrib, prod_sub_inv_eq]
    rw [evaluateFrom_of_far (by simpa [List.forall_mem_ofFn_iff] using hFar), interpolant,
      ← Lagrange.interpolate_apply, Lagrange.eval_interpolate_not_at_node' _ hUnguarded.injOn
        ⟨⟨0, hPoints⟩, Finset.mem_univ _⟩ fun i _ hSame => hNode ⟨i, hSame⟩]
    simp only [List.map_ofFn, List.sum_ofFn, Function.comp_apply, zero_add, hWeight, mul_assoc,
      ← Finset.mul_sum]
    rw [mul_div_mul_left _ _ (pow_ne_zero _ two_ne_zero)]
    simp only [div_eq_mul_inv, mul_assoc]

/-- The response takes the levelled values at its points. -/
theorem response_eq_nodeValue (hUnguarded : Unguarded points) (i : Fin n) :
    response (nodes (List.ofFn points)) (points i).frequency = nodeValue points i := by
  have hResolved (j : Fin n) : cosines points i = cosines points j ∨
      1e-7 ≤ |cosines points i - cosines points j| := by
    by_cases hSame : i = j
    · exact Or.inl (by rw [hSame])
    · exact Or.inr (hUnguarded.apart i j hSame)
  rw [← eval_interpolant hUnguarded, ← evaluate_nodes hUnguarded (Fin.pos i) hResolved]
  rfl

end Response

end Filter
end Pushbroom
