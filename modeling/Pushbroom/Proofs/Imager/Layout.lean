import Mathlib.Data.List.Sort
import Mathlib.Tactic
import Pushbroom.Imager.Allocation
import Pushbroom.Proofs.Failure
import Pushbroom.Proofs.Instrument.Sizing

namespace Pushbroom
namespace Imager

/-!
# The layout of an allocated model

The bands on board are put in the order of their indices, and each has to be at the position
of its index.  That is the case exactly when the indices are `0, 1, 2, …` in some order:
nothing else is asked of the attributes before storage is reserved.
-/

variable {α : Type}

theorem require_eq_ok_iff {β : Type} {failure : Error α} {known? : Option β} {value : β} :
    require failure known? = .ok value ↔ known? = some value := by
  cases known? <;> simp [require]

/-! ## Positions -/

theorem misplaced?_eq_none_iff {position : Nat} {layout : List BandAttributes} :
    misplaced? position layout = none ↔
      layout.map BandAttributes.index = List.range' position layout.length := by
  induction layout generalizing position with
  | nil => simp [misplaced?]
  | cons band rest ih =>
      rw [misplaced?, List.map_cons, List.length_cons, List.range'_succ, List.cons.injEq]
      by_cases hPlaced : band.index = position
      · rw [if_pos hPlaced, ih, and_iff_right hPlaced]
      · simp [hPlaced]

theorem byIndex_perm (layout : List BandAttributes) : (byIndex layout).Perm layout :=
  List.mergeSort_perm layout _

theorem pairwise_byIndex (layout : List BandAttributes) :
    ((byIndex layout).map BandAttributes.index).Pairwise (· ≤ ·) := by
  rw [List.pairwise_map]
  have hSorted : (byIndex layout).Pairwise fun a b => decide (a.index ≤ b.index) = true := by
    apply List.pairwise_mergeSort
    · intro a b c hFirst hSecond
      simp only [decide_eq_true_eq] at *
      omega
    · intro a b
      simp only [Bool.or_eq_true, decide_eq_true_eq]
      omega
  exact hSorted.imp fun hLe => by simpa using hLe

/-- Sorted indices are their positions when they are those positions in some order. -/
theorem map_index_byIndex_iff {layout : List BandAttributes} :
    (byIndex layout).map BandAttributes.index = List.range layout.length ↔
      (layout.map BandAttributes.index).Perm (List.range layout.length) := by
  have hPerm := (byIndex_perm layout).map BandAttributes.index
  constructor
  · intro hPlaced
    rw [← hPlaced]
    exact hPerm.symm
  · intro hSome
    refine List.Perm.eq_of_pairwise (fun _ _ _ _ => Nat.le_antisymm) (pairwise_byIndex layout)
      ?_ (hPerm.trans hSome)
    exact List.pairwise_le_range

theorem layout_eq_ok_iff {provider : Provider} {sorted : List BandAttributes} :
    layout (α := α) provider = .ok sorted ↔
      ∃ listed, listedLayout (α := α) provider = .ok listed ∧ sorted = byIndex listed ∧
        (listed.map BandAttributes.index).Perm (List.range listed.length) := by
  unfold layout
  rw [Failure.bind_eq_ok]
  refine exists_congr fun listed => and_congr_right fun _ => ?_
  rw [← map_index_byIndex_iff, List.range_eq_range', ← (byIndex_perm listed).length_eq,
    ← misplaced?_eq_none_iff]
  dsimp only
  cases misplaced? 0 (byIndex listed) with
  | none => simp [pure, Except.pure, eq_comm]
  | some band => simp [throw, throwThe, MonadExceptOf.throw]

/-! ## Success -/

variable [Memory] [Scalar α]

/-- What a successful allocation from a provider consists of: one band for each entry of the
layout, in its order, and the sensors on board flagged. -/
structure Allocates (provider : Provider) (sorted : List BandAttributes) (imager : Imager α) :
    Prop where
  sensorCount : provider.sensorCount = 1 ∨ provider.sensorCount = 2
  layout : layout (α := α) provider = .ok sorted
  bands : List.Forall₂ (fun attributes band => Band.allocate attributes = .ok band) sorted
    imager.bands.toList
  timing : ∀ sensor, imager.timing sensor = initialTiming provider.sensorCount sensor

theorem allocate_cases {provider : Provider} {imager : Imager α}
    (hAllocate : allocate provider = .ok imager) : ∃ sorted, Allocates provider sorted imager := by
  unfold allocate at hAllocate
  obtain ⟨satellite, _, hRest⟩ := Failure.bind_eq_ok.mp hAllocate
  obtain ⟨number, _, hRest⟩ := Failure.bind_eq_ok.mp hRest
  dsimp only at hRest
  split at hRest
  · cases hRest
  · rename_i hCount
    obtain ⟨sorted, hLayout, hRest⟩ := Failure.bind_eq_ok.mp hRest
    obtain ⟨_, _, hRest⟩ := Failure.bind_eq_ok.mp hRest
    obtain ⟨bands, hBands, hImager⟩ := Failure.bind_eq_ok.mp hRest
    cases hImager
    refine ⟨sorted, ?_, hLayout, Failure.forall₂_of_mapM_eq_ok hBands, ?_⟩
    · unfold maxSensors at hCount
      omega
    · rintro ⟨⟩ <;> rfl

namespace Allocates

variable {provider : Provider} {sorted : List BandAttributes} {imager : Imager α}

theorem map_index_eq_range (hAllocates : Allocates provider sorted imager) :
    sorted.map BandAttributes.index = List.range sorted.length := by
  obtain ⟨listed, _, rfl, hIndices⟩ := layout_eq_ok_iff.mp hAllocates.layout
  rw [(byIndex_perm listed).length_eq]
  exact map_index_byIndex_iff.mpr hIndices

theorem bandCount_eq (hAllocates : Allocates provider sorted imager) :
    imager.bandCount = sorted.length := by
  rw [hAllocates.bands.length_eq]
  rfl

theorem forall₂_sizedBy (hAllocates : Allocates provider sorted imager) :
    List.Forall₂ Band.SizedBy sorted imager.bands.toList :=
  hAllocates.bands.imp fun _ _ hBand => Band.allocate_sizedBy hBand

theorem map_number_eq (hAllocates : Allocates provider sorted imager) :
    imager.bands.toList.map Band.number = sorted.map BandAttributes.number :=
  Band.map_number_eq hAllocates.forall₂_sizedBy

/-- The band at an index is sized by the entry of the layout there. -/
theorem band_eq_ok (hAllocates : Allocates provider sorted imager) {index : Nat}
    (hIndex : index < sorted.length) : ∃ band ∈ imager.bands.toList,
      imager.band index = .ok band ∧ Band.SizedBy sorted[index] band := by
  have hBand : index < imager.bands.toList.length := by
    rw [← hAllocates.bands.length_eq]
    exact hIndex
  refine ⟨imager.bands.toList[index], List.getElem_mem hBand, ?_,
    hAllocates.forall₂_sizedBy.get hIndex hBand⟩
  rw [Imager.band, ← Array.getElem?_toList, List.getElem?_eq_getElem hBand]

theorem timingForBand_eq_ok (hAllocates : Allocates provider sorted imager) {index : Nat}
    {band : Band α} (hBand : imager.band index = .ok band) :
    imager.timingForBand index =
      .ok (initialTiming provider.sensorCount band.sensor) := by
  rw [timingForBand, hBand, Failure.ok_bind, hAllocates.timing]
  rfl

end Allocates

theorem exists_allocate_iff {provider : Provider} :
    (∃ imager : Imager α, allocate provider = .ok imager) ↔
      (∃ satellite, provider.satellite? = some satellite) ∧
      (∃ number, provider.number? = some number) ∧
      (provider.sensorCount = 1 ∨ provider.sensorCount = 2) ∧
      ∃ sorted, layout (α := α) provider = .ok sorted ∧
        Memory.holds (sorted.length * Band.recordBytes) = true ∧
        ∀ attributes ∈ sorted, attributes.Fits := by
  constructor
  · rintro ⟨imager, hAllocate⟩
    obtain ⟨satellite, hSatellite, hRest⟩ := Failure.bind_eq_ok.mp hAllocate
    obtain ⟨number, hNumber, hRest⟩ := Failure.bind_eq_ok.mp hRest
    refine ⟨⟨satellite, require_eq_ok_iff.mp hSatellite⟩, ⟨number, require_eq_ok_iff.mp hNumber⟩,
      ?_⟩
    dsimp only at hRest
    split at hRest
    · cases hRest
    · rename_i hCount
      obtain ⟨sorted, hLayout, hRest⟩ := Failure.bind_eq_ok.mp hRest
      obtain ⟨⟨⟩, hTable, hRest⟩ := Failure.bind_eq_ok.mp hRest
      obtain ⟨bands, hBands, _⟩ := Failure.bind_eq_ok.mp hRest
      unfold maxSensors at hCount
      refine ⟨by omega, sorted, hLayout, reserve_eq_ok_iff.mp hTable, ?_⟩
      intro attributes hMem
      exact Band.exists_allocate_iff_fits.mp
        (Failure.exists_mapM_eq_ok_iff.mp ⟨bands, hBands⟩ attributes hMem)
  · rintro ⟨⟨satellite, hSatellite⟩, ⟨number, hNumber⟩, hCount, sorted, hLayout, hTable, hFits⟩
    obtain ⟨bands, hBands⟩ := Failure.exists_mapM_eq_ok_iff.mpr fun attributes hMem =>
      Band.exists_allocate_iff_fits (α := α).mpr (hFits attributes hMem)
    have hValid : ¬(provider.sensorCount = 0 ∨ maxSensors < provider.sensorCount) := by
      unfold maxSensors
      omega
    unfold allocate
    rw [require_eq_ok_iff.mpr hSatellite, Failure.ok_bind, require_eq_ok_iff.mpr hNumber,
      Failure.ok_bind]
    dsimp only
    rw [if_neg hValid, hLayout, Failure.ok_bind, reserve_eq_ok_iff.mpr hTable,
      Failure.ok_bind, hBands]
    exact ⟨_, rfl⟩

end Imager
end Pushbroom
