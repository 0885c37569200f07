import Pushbroom.Proofs.Imager.Lookups

namespace Pushbroom

/-!
# Bands listed in another order

The order in which the bands of a sensor are listed shows in the failure of a lookup alone.
Once all lookups have succeeded the bands are put in the order of their indices.  Several bands
of one index may then stand in any order, but none of them gets past the check of the indices,
and the index it is refused for is the same.
-/

/-- Two providers that differ in the order of the bands of a sensor at most. -/
structure Provider.Reorders (left right : Provider) : Prop where
  satellite : left.satellite? = right.satellite?
  number : left.number? = right.number?
  sensorCount : left.sensorCount = right.sensorCount
  band : left.band? = right.band?
  lists : ∀ sensor ∈ Sensor.aboard right.sensorCount,
    Option.Rel List.Perm (left.normalBands? sensor) (right.normalBands? sensor)

namespace Imager

variable {α : Type}

theorem byIndex_perm_of_perm {left right : List BandAttributes} (hPerm : left.Perm right) :
    (byIndex left).Perm (byIndex right) :=
  (byIndex_perm left).trans (hPerm.trans (byIndex_perm right).symm)

theorem map_index_byIndex_of_perm {left right : List BandAttributes} (hPerm : left.Perm right) :
    (byIndex left).map BandAttributes.index = (byIndex right).map BandAttributes.index := by
  have hSorted := (byIndex_perm_of_perm hPerm).map BandAttributes.index
  exact hSorted.eq_of_pairwise (fun _ _ _ _ => Nat.le_antisymm) (pairwise_byIndex left)
    (pairwise_byIndex right)

/-- Bands whose indices differ have one order only. -/
theorem byIndex_eq_of_perm {left right : List BandAttributes} (hPerm : left.Perm right)
    (hIndices : (left.map BandAttributes.index).Nodup) : byIndex left = byIndex right := by
  refine (byIndex_perm_of_perm hPerm).eq_of_pairwise ?_
    (List.pairwise_map.mp (pairwise_byIndex left)) (List.pairwise_map.mp (pairwise_byIndex right))
  intro a b hLeft hRight hLower hUpper
  have hMemLeft : a ∈ left := (byIndex_perm left).mem_iff.mp hLeft
  have hMemRight : b ∈ left := hPerm.mem_iff.mpr ((byIndex_perm right).mem_iff.mp hRight)
  exact List.inj_on_of_nodup_map hIndices hMemLeft hMemRight (Nat.le_antisymm hLower hUpper)

variable {left right : Provider}

theorem numbers_perm (hReorders : left.Reorders right) {sensor : Sensor}
    (hAboard : sensor ∈ Sensor.aboard right.sensorCount) :
    (left.numbers sensor).Perm (right.numbers sensor) := by
  have hLists := hReorders.lists sensor hAboard
  unfold Provider.numbers
  generalize left.normalBands? sensor = leftList at hLists ⊢
  generalize right.normalBands? sensor = rightList at hLists ⊢
  cases hLists with
  | some hPerm => exact hPerm
  | none => exact List.Perm.refl _

theorem attributes_perm (hReorders : left.Reorders right) :
    left.attributes.Perm right.attributes := by
  unfold Provider.attributes Provider.attributesFor
  rw [hReorders.sensorCount, hReorders.band]
  apply List.Perm.flatMap_left
  intro sensor hAboard
  exact (numbers_perm hReorders hAboard).filterMap right.band?

theorem lookupFault?_of_reorders (hReorders : left.Reorders right)
    (hLookups : lookupFault? (α := α) right = none) : lookupFault? (α := α) left = none := by
  rw [lookupFault?_eq_none_iff] at hLookups ⊢
  rw [hReorders.sensorCount, hReorders.band]
  intro sensor hAboard
  obtain ⟨hList, hBands⟩ := hLookups sensor hAboard
  constructor
  · have hLists := hReorders.lists sensor hAboard
    generalize left.normalBands? sensor = leftList at hLists ⊢
    generalize right.normalBands? sensor = rightList at hLists hList
    cases hLists with
    | some _ => rfl
    | none => exact hList
  · intro number hMem
    exact hBands number ((numbers_perm hReorders hAboard).mem_iff.mp hMem)

theorem indexFault?_of_reorders (hReorders : left.Reorders right) :
    indexFault? (α := α) left = indexFault? right := by
  unfold indexFault? firstMisplaced?
  rw [← map_index_byIndex, ← map_index_byIndex,
    map_index_byIndex_of_perm (attributes_perm hReorders)]

theorem layout_of_reorders (hReorders : left.Reorders right)
    (hLookups : lookupFault? (α := α) right = none) :
    layout (α := α) left = layout right := by
  rw [layout_eq, layout_eq, hLookups, lookupFault?_of_reorders hReorders hLookups,
    indexFault?_of_reorders hReorders]
  cases hIndices : indexFault? (α := α) right with
  | some error => rfl
  | none =>
      -- no index is left twice, so no tie can show the order of the lists
      have hPerm := attributes_perm hReorders
      have hNodup : (left.attributes.map BandAttributes.index).Nodup := by
        rw [(hPerm.map BandAttributes.index).nodup_iff,
          (index_perm_range hLookups hIndices).nodup_iff]
        exact List.nodup_range
      rw [byIndex_eq_of_perm hPerm hNodup]

variable [Scalar α]

theorem allocate_of_reorders [Memory] (hReorders : left.Reorders right)
    (hLookups : lookupFault? (α := α) right = none) :
    allocate (α := α) left = allocate right := by
  unfold allocate
  rw [hReorders.satellite, hReorders.number, hReorders.sensorCount,
    layout_of_reorders hReorders hLookups]

end Imager
end Pushbroom
