import Pushbroom.Proofs.Failure
import Pushbroom.Proofs.Filter.Nodes

namespace Pushbroom
namespace Filter
namespace Indexed

/-!
# Designs on tables

A grid is kept here as three tables, one of frequencies, one of gains and one of error weights, and
the cosines, barycentric weights and errors of a response as one more each.  Every entry is looked
up by its index, and a lookup fails when the table has no such entry.  The grid, the response and its
errors that are found in this way are those of a design on points: no lookup fails.
-/

variable {α : Type}

/-- The entry of a table at an index, which the table may not have. -/
def entry {β : Type} (table : List β) (i : ℕ) : Except (Error α) β :=
  match table[i]? with
  | some value => .ok value
  | none => .error (.indexOutOfRange i table.length)

theorem entry_of_getElem? {β : Type} {table : List β} {i : ℕ} {value : β}
    (hEntry : table[i]? = some value) : (entry table i : Except (Error α) β) = .ok value := by
  rw [entry, hEntry]

theorem entry_eq {β : Type} {table : List β} {i : ℕ} (hIndex : i < table.length) :
    (entry table i : Except (Error α) β) = .ok table[i] :=
  entry_of_getElem? (List.getElem?_eq_getElem hIndex)

/-! ## Grids -/

/-- The frequencies of a grid, the gains asked for and the error weights. -/
structure Tables (α : Type) where
  frequencies : List α
  gains : List α
  weights : List α

namespace Tables

def ofPoints (points : List (GridPoint α)) : Tables α :=
  ⟨points.map GridPoint.frequency, points.map GridPoint.gain, points.map GridPoint.weight⟩

/-- Tables with one more point at the end. -/
def push (tables : Tables α) (frequency gain weight : α) : Tables α :=
  ⟨tables.frequencies ++ [frequency], tables.gains ++ [gain], tables.weights ++ [weight]⟩

/-- Tables whose last frequency, if there is one, is replaced. -/
def endOn (tables : Tables α) (frequency : α) : Tables α :=
  { tables with frequencies := tables.frequencies.set (tables.frequencies.length - 1) frequency }

@[simp]
theorem length_frequencies_ofPoints (points : List (GridPoint α)) :
    (ofPoints points).frequencies.length = points.length :=
  List.length_map _

theorem push_ofPoints (points : List (GridPoint α)) (frequency gain weight : α) :
    (ofPoints points).push frequency gain weight =
      ofPoints (points ++ [⟨frequency, gain, weight⟩]) := by
  simp [ofPoints, push]

theorem endOn_ofPoints (points : List (GridPoint α)) (last frequency gain weight : α) :
    (ofPoints (points ++ [⟨last, gain, weight⟩])).endOn frequency =
      ofPoints (points ++ [⟨frequency, gain, weight⟩]) := by
  simp [ofPoints, endOn]

end Tables

theorem length_edges (bands : List (FrequencyBand α)) :
    (edges bands).length = 2 * bands.length := by
  induction bands with
  | nil => rfl
  | cons band rest ih =>
      rw [edges, List.flatMap_cons, List.length_append]
      change 2 + (edges rest).length = 2 * (rest.length + 1)
      omega

theorem getElem?_edges (bands : List (FrequencyBand α)) (i : ℕ) :
    (edges bands)[2 * i]? = bands[i]?.map FrequencyBand.low ∧
      (edges bands)[2 * i + 1]? = bands[i]?.map FrequencyBand.high := by
  induction bands generalizing i with
  | nil => exact ⟨rfl, rfl⟩
  | cons band rest ih =>
      cases i with
      | zero => exact ⟨rfl, rfl⟩
      | succ i => exact ih i

variable [Scalar α]

/-- Adds point `i` of a band, whose gain and weight are looked up. -/
def addPoint (step low : α) (gains weights : List α) (band : ℕ) (tables : Tables α) (i : ℕ) :
    Except (Error α) (Tables α) := do
  let gain ← entry gains band
  let weight ← entry weights band
  return tables.push (low + (i : α) * step) gain weight

/-- Lays the points of a band behind those there are, the last of them on its upper edge. -/
def addBand (step : α) (edges gains weights : List α) (tables : Tables α) (band : ℕ) :
    Except (Error α) (Tables α) := do
  let low ← entry edges (2 * band)
  let high ← entry edges (2 * band + 1)
  let count := max 1 (Scalar.toPosition ((high - low) / step + 0.5))
  let longer ← (List.range count).foldlM (addPoint step low gains weights band) tables
  return longer.endOn high

/-- The tables of a grid, band by band. -/
def denseGrid (density r : ℕ) (edges gains weights : List α) : Except (Error α) (Tables α) :=
  (List.range (edges.length / 2)).foldlM (addBand (gridStep density r) edges gains weights)
    ⟨[], [], []⟩

/-- The points of a band before the last of them is moved to the upper edge. -/
def laidPoints (step : α) (band : FrequencyBand α) (count : ℕ) : List (GridPoint α) :=
  (List.range count).map fun (i : ℕ) => ⟨band.low + (i : α) * step, band.gain, band.weight⟩

theorem laidPoints_succ (step : α) (band : FrequencyBand α) (count : ℕ) :
    laidPoints step band (count + 1) =
      laidPoints step band count ++ [⟨band.low + (count : α) * step, band.gain, band.weight⟩] := by
  rw [laidPoints, List.range_succ, List.map_append]
  rfl

theorem points_eq_laidPoints (step : α) (band : FrequencyBand α) :
    band.points step = laidPoints step band (band.pointCount step - 1) ++
      [⟨band.high, band.gain, band.weight⟩] := by
  rw [FrequencyBand.points, FrequencyBand.frequencies, List.map_append, List.map_map]
  rfl

/-- A band lays its points, the last of which is on its upper edge. -/
theorem addBand_eq (step : α) (bands : List (FrequencyBand α)) (points : List (GridPoint α)) {i : ℕ}
    (hIndex : i < bands.length) :
    addBand step (edges bands) (bands.map FrequencyBand.gain) (bands.map FrequencyBand.weight)
        (.ofPoints points) i =
      .ok (.ofPoints (points ++ bands[i].points step)) := by
  have hBand : bands[i]? = some bands[i] := List.getElem?_eq_getElem hIndex
  obtain ⟨hLow, hHigh⟩ := getElem?_edges bands i
  rw [hBand] at hLow hHigh
  -- from here on the band is known through its entries in the four lists
  generalize bands[i] = band at hBand hLow hHigh
  have hGain : (bands.map FrequencyBand.gain)[i]? = some band.gain := by
    rw [List.getElem?_map, hBand, Option.map_some]
  have hWeight : (bands.map FrequencyBand.weight)[i]? = some band.weight := by
    rw [List.getElem?_map, hBand, Option.map_some]
  obtain ⟨count, hCount⟩ : ∃ count, band.pointCount step = count + 1 :=
    Nat.exists_eq_add_one.mpr (le_max_left 1 _)
  have hLaid : (List.range (band.pointCount step)).foldlM
      (addPoint step band.low (bands.map FrequencyBand.gain) (bands.map FrequencyBand.weight) i)
      (.ofPoints points) =
        .ok (.ofPoints (points ++ laidPoints step band (band.pointCount step))) := by
    have hSteps := Failure.foldlM_range_eq_ok (n := band.pointCount step)
      (f := addPoint step band.low (bands.map FrequencyBand.gain)
        (bands.map FrequencyBand.weight) i)
      (fun j => Tables.ofPoints (points ++ laidPoints step band j)) fun j _ => by
        rw [addPoint, entry_of_getElem? hGain, Failure.ok_bind, entry_of_getElem? hWeight,
          Failure.ok_bind, laidPoints_succ, ← List.append_assoc, ← Tables.push_ofPoints]
        rfl
    rwa [laidPoints, List.range_zero, List.map_nil, List.append_nil] at hSteps
  rw [addBand, entry_of_getElem? hLow, Failure.ok_bind, entry_of_getElem? hHigh, Failure.ok_bind]
  change (List.range (band.pointCount step)).foldlM _ _ >>= _ = _
  rw [hLaid, Failure.ok_bind, points_eq_laidPoints, hCount, laidPoints_succ, ← List.append_assoc,
    ← List.append_assoc, Nat.add_sub_cancel]
  exact congrArg Except.ok (Tables.endOn_ofPoints _ _ _ _ _)

theorem denseGrid_eq (density r : ℕ) (bands : List (FrequencyBand α)) :
    denseGrid density r (edges bands) (bands.map FrequencyBand.gain)
        (bands.map FrequencyBand.weight) =
      .ok (.ofPoints (grid density r bands).toList) := by
  rw [denseGrid, length_edges, Nat.mul_div_cancel_left _ Nat.two_pos]
  have hLaid := Failure.foldlM_range_eq_ok (n := bands.length)
    (f := addBand (gridStep density r) (edges bands) (bands.map FrequencyBand.gain)
      (bands.map FrequencyBand.weight))
    (fun k => Tables.ofPoints
      ((bands.take k).flatMap (FrequencyBand.points (gridStep density r))))
    fun k hLess => by
      rw [addBand_eq _ _ _ hLess, List.take_succ_eq_append_getElem hLess, List.flatMap_append,
        List.flatMap_singleton]
  rw [List.take_length] at hLaid
  exact hLaid

/-! ## Responses -/

section Lookups

variable {points : List (GridPoint α)} {i : ℕ} {point : GridPoint α}
  (hPoint : points[i]? = some point)

include hPoint

omit [Scalar α] in
theorem entry_frequencies : entry (Tables.ofPoints points).frequencies i =
    (.ok point.frequency : Except (Error α) α) :=
  entry_of_getElem? (by rw [Tables.ofPoints, List.getElem?_map, hPoint, Option.map_some])

omit [Scalar α] in
theorem entry_gains : entry (Tables.ofPoints points).gains i =
    (.ok point.gain : Except (Error α) α) :=
  entry_of_getElem? (by rw [Tables.ofPoints, List.getElem?_map, hPoint, Option.map_some])

omit [Scalar α] in
theorem entry_weights : entry (Tables.ofPoints points).weights i =
    (.ok point.weight : Except (Error α) α) :=
  entry_of_getElem? (by rw [Tables.ofPoints, List.getElem?_map, hPoint, Option.map_some])

end Lookups

/-- The indices of `count` entries, each residue modulo `stride` in turn. -/
def stridedIndices (stride count : ℕ) : List ℕ :=
  (List.range stride).flatMap fun residue =>
    (List.range count).filter fun k => k % stride == residue

/-- Multiplies by twice the distance of entry `i` from another one. -/
def addDistance (cosines : List α) (i : ℕ) (product : α) (k : ℕ) : Except (Error α) α :=
  if k = i then return product
  else do
    let here ← entry cosines i
    let other ← entry cosines k
    return product * (2.0 * (here - other))

/-- The barycentric weight of entry `i` among `count` cosines. -/
def barycentricWeight (cosines : List α) (count i : ℕ) : Except (Error α) α := do
  let product ← (stridedIndices (strideFor count) count).foldlM (addDistance cosines i) 1
  return 1 / (if Scalar.abs product < 1e-5 then 1e-5 else product)

theorem map_snd_strided {β : Type} (stride : ℕ) (entries : List β) :
    (strided stride entries).map Prod.snd = stridedIndices stride entries.length := by
  rw [strided, stridedIndices, List.map_flatMap]
  refine congrArg (List.flatMap · _) (funext fun residue => ?_)
  have hFilter := List.filter_map (f := Prod.snd) (p := fun k => k % stride == residue)
    (l := entries.zipIdx)
  rw [List.zipIdx_map_snd, ← List.range_eq_range'] at hFilter
  exact hFilter.symm

theorem getElem?_of_mem_strided {β : Type} {stride : ℕ} {entries : List β} {entry : β × ℕ}
    (hMem : entry ∈ strided stride entries) : entries[entry.2]? = some entry.1 := by
  obtain ⟨residue, -, hFilter⟩ := List.mem_flatMap.mp hMem
  exact List.mk_mem_zipIdx_iff_getElem?.mp (List.mem_of_mem_filter hFilter)

theorem barycentricWeight_eq (cosines : List α) {i : ℕ} (hIndex : i < cosines.length) :
    barycentricWeight cosines cosines.length i =
      .ok (1 / guardedProduct (strided (strideFor cosines.length) cosines) cosines[i] i) := by
  have hProduct : (stridedIndices (strideFor cosines.length) cosines.length).foldlM
      (addDistance cosines i) 1 =
        .ok (distanceProduct (strided (strideFor cosines.length) cosines) cosines[i] i) := by
    rw [← map_snd_strided]
    refine Failure.foldlM_eq_ok_of_getElem (List.length_map _) (fun j hj product => ?_) 1
    have hOther := getElem?_of_mem_strided (List.getElem_mem
      (show j < (strided (strideFor cosines.length) cosines).length by simpa using hj))
    rw [List.getElem_map, addDistance]
    split
    · rfl
    · rw [entry_eq hIndex, entry_of_getElem? hOther]
      rfl
  rw [barycentricWeight, hProduct]
  rfl

theorem mapM_barycentricWeight (cosines : List α) :
    (List.range cosines.length).mapM (barycentricWeight cosines cosines.length) =
      .ok (barycentricWeights cosines) := by
  refine Failure.mapM_eq_ok_of_getElem (by simp [barycentricWeights]) fun k hIndex => ?_
  rw [List.getElem_range, barycentricWeight_eq cosines (by simpa using hIndex)]
  simp [barycentricWeights]

/-- Goes on with the numerator and the denominator of the levelled error at the extremal that is
number `extremal.2` of all and stands at index `extremal.1` of the grid. -/
def addTerms (tables : Tables α) (weights : List α) (sums : α × α) (extremal : ℕ × ℕ) :
    Except (Error α) (α × α) := do
  let weight ← entry weights extremal.2
  let gain ← entry tables.gains extremal.1
  let errorWeight ← entry tables.weights extremal.1
  return (sums.1 + weight * gain, sums.2 + alternation extremal.2 * weight / errorWeight)

/-- Goes on with both sums of the levelled error. -/
def addLevelTerms (sums : α × α) (entry : (GridPoint α × α) × ℕ) : α × α :=
  (sums.1 + entry.1.2 * entry.1.1.gain,
    sums.2 + alternation entry.2 * entry.1.2 / entry.1.1.weight)

theorem levelledError_eq_foldl (entries : List (GridPoint α × α)) :
    levelledError entries = (entries.zipIdx.foldl addLevelTerms (0, 0)).1 /
      (entries.zipIdx.foldl addLevelTerms (0, 0)).2 := by
  have hSums := List.foldl_hom₂ entries.zipIdx Prod.mk
    (fun total entry => total + entry.1.2 * entry.1.1.gain)
    (fun total entry => total + alternation entry.2 * entry.1.2 / entry.1.1.weight)
    addLevelTerms 0 0 fun _ _ _ => rfl
  have hNumerator : entries.foldl (fun total entry => total + entry.2 * entry.1.gain) 0 =
      entries.zipIdx.foldl (fun total entry => total + entry.1.2 * entry.1.1.gain) 0 := by
    conv_lhs => rw [← List.zipIdx_map_fst 0 entries]
    exact List.foldl_map
  rw [hSums, ← hNumerator]
  rfl

/-- The value of the response at an extremal. -/
def valueAt (tables : Tables α) (level : α) (extremal : ℕ × ℕ) : Except (Error α) α := do
  let gain ← entry tables.gains extremal.1
  let errorWeight ← entry tables.weights extremal.1
  return gain - alternation extremal.2 * level / errorWeight

variable [Elementary α]

def extremalCosine (tables : Tables α) (extremal : ℕ) : Except (Error α) α := do
  let frequency ← entry tables.frequencies extremal
  return cosineAt frequency

/-- The nodes of the response that is levelled at the extremals at some indices of the grid. -/
def nodesOf (tables : Tables α) (extremals : List ℕ) : Except (Error α) (List (Node α)) := do
  let cosines ← extremals.mapM (extremalCosine tables)
  let weights ← (List.range extremals.length).mapM (barycentricWeight cosines extremals.length)
  let sums ← extremals.zipIdx.foldlM (addTerms tables weights) (0, 0)
  let values ← extremals.zipIdx.mapM (valueAt tables (sums.1 / sums.2))
  return ((cosines.zip values).zip weights).map fun node => ⟨node.1.1, node.1.2, node.2⟩

/-- Indices of a grid with the points that stand there. -/
structure Chosen (points : List (GridPoint α)) (extremals : List ℕ)
    (chosen : List (GridPoint α)) : Prop where
  length_eq : extremals.length = chosen.length
  getElem?_eq : ∀ k (_ : k < extremals.length) (_ : k < chosen.length),
    points[extremals[k]]? = some chosen[k]

section Nodes

variable {points chosen : List (GridPoint α)} {extremals : List ℕ}
  (hChosen : Chosen points extremals chosen)

include hChosen

theorem mapM_extremalCosine :
    extremals.mapM (extremalCosine (.ofPoints points)) = .ok (cosinesOf chosen) := by
  refine Failure.mapM_eq_ok_of_getElem (by simp [cosinesOf, hChosen.length_eq]) fun k hIndex => ?_
  have hPoint := hChosen.getElem?_eq k hIndex (hChosen.length_eq ▸ hIndex)
  rw [extremalCosine, entry_frequencies hPoint]
  simp [cosinesOf, pure, Except.pure, bind, Except.bind]

theorem foldlM_addTerms :
    extremals.zipIdx.foldlM
        (addTerms (.ofPoints points) (barycentricWeights (cosinesOf chosen))) (0, 0) =
      .ok ((weighted chosen).zipIdx.foldl addLevelTerms (0, 0)) := by
  refine Failure.foldlM_eq_ok_of_getElem (by simp [hChosen.length_eq]) (fun k hIndex sums => ?_) _
  rw [List.length_zipIdx] at hIndex
  have hPoint := hChosen.getElem?_eq k hIndex (hChosen.length_eq ▸ hIndex)
  have hWeight : k < (barycentricWeights (cosinesOf chosen)).length := by
    simpa [cosinesOf, barycentricWeights] using hChosen.length_eq ▸ hIndex
  simp only [List.getElem_zipIdx, Nat.zero_add, addTerms]
  rw [entry_eq hWeight, Failure.ok_bind, entry_gains hPoint, Failure.ok_bind, entry_weights hPoint,
    Failure.ok_bind]
  simp only [weighted, addLevelTerms, List.getElem_zip]
  rfl

theorem mapM_valueAt (level : α) :
    extremals.zipIdx.mapM (valueAt (.ofPoints points) level) =
      .ok ((weighted chosen).zipIdx.map fun entry =>
        entry.1.1.gain - alternation entry.2 * level / entry.1.1.weight) := by
  refine Failure.mapM_eq_ok_of_getElem (by simp [hChosen.length_eq]) fun k hIndex => ?_
  rw [List.length_zipIdx] at hIndex
  have hPoint := hChosen.getElem?_eq k hIndex (hChosen.length_eq ▸ hIndex)
  simp only [List.getElem_zipIdx, Nat.zero_add, valueAt]
  rw [entry_gains hPoint, Failure.ok_bind, entry_weights hPoint, Failure.ok_bind]
  simp only [weighted, List.getElem_map, List.getElem_zipIdx, List.getElem_zip, Nat.zero_add]
  rfl

/-- The response found by lookups is the levelled one. -/
theorem nodesOf_eq_nodes : nodesOf (.ofPoints points) extremals = .ok (nodes chosen) := by
  have hLength : extremals.length = (cosinesOf chosen).length := by
    simp [cosinesOf, hChosen.length_eq]
  rw [nodesOf, mapM_extremalCosine hChosen, Failure.ok_bind, hLength, mapM_barycentricWeight,
    Failure.ok_bind, foldlM_addTerms hChosen, Failure.ok_bind, ← levelledError_eq_foldl,
    mapM_valueAt hChosen, Failure.ok_bind]
  refine congrArg Except.ok (List.ext_getElem ?_ fun k hLeft hRight => ?_)
  · simp [cosinesOf, barycentricWeights]
  · simp [nodes, weighted, cosinesOf]

end Nodes

theorem nodesOf_eq (points : Array (GridPoint α)) (positions : List (Fin points.size)) :
    nodesOf (.ofPoints points.toList) (positions.map Fin.val) = .ok (nodesAt points positions) :=
  nodesOf_eq_nodes ⟨by simp, fun k _ _ => by simp⟩

/-! ## Errors -/

/-- The weighted error of a response at the grid point at an index. -/
def errorOf (tables : Tables α) (nodes : List (Node α)) (i : ℕ) : Except (Error α) α := do
  let weight ← entry tables.weights i
  let gain ← entry tables.gains i
  let frequency ← entry tables.frequencies i
  return weight * (gain - response nodes frequency)

def errorsOf (tables : Tables α) (nodes : List (Node α)) : Except (Error α) (List α) :=
  (List.range tables.frequencies.length).mapM (errorOf tables nodes)

theorem errorsOf_eq (points : Array (GridPoint α)) (nodes : List (Node α)) :
    errorsOf (.ofPoints points.toList) nodes = .ok (weightedErrors points nodes).toList := by
  refine Failure.mapM_eq_ok_of_getElem (by simp) fun k hIndex => ?_
  have hSize : k < points.size := by simpa using hIndex
  have hPoint : points.toList[k]? = some points[k] := by simp
  rw [List.getElem_range, errorOf, entry_weights hPoint, Failure.ok_bind, entry_gains hPoint,
    Failure.ok_bind, entry_frequencies hPoint, Failure.ok_bind]
  simp [weightedErrors, pure, Except.pure]

end Indexed
end Filter
end Pushbroom
