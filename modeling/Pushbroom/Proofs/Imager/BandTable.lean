import Pushbroom.Proofs.Imager.Catalogue
import Pushbroom.Scalar.Binary64

namespace Pushbroom
namespace Imager

/-!
# The band table of a catalogue with two sensors

With both sensors on board a catalogue can be allocated exactly when it is consistent, as long
as its tables fit into memory.  The band table then holds the bands of the catalogue in the
order of their indices.
-/

open Catalogue

variable {α : Type}

/-- With two sensors on board, the bands of the sensors on board are all bands. -/
theorem aboard_two_perm (catalogue : Catalogue) (hCount : catalogue.sensorCount = 2) :
    ((Sensor.aboard catalogue.sensorCount).flatMap catalogue.listed).Perm catalogue.bands := by
  have hBoth : (Sensor.aboard catalogue.sensorCount).flatMap catalogue.listed =
      catalogue.listed .oli ++ catalogue.listed .tirs := by
    rw [hCount]
    simp [Sensor.aboard, Sensor.all]
  rw [hBoth]
  exact catalogue.listed_append_perm

/-- With two sensors on board, the layout is found exactly for consistent catalogues. -/
theorem layout_catalogue_iff {catalogue : Catalogue} (hCount : catalogue.sensorCount = 2) :
    (∃ sorted, layout (α := α) catalogue.provider = .ok sorted) ↔ catalogue.Consistent := by
  have hAboard : ∀ sensor, sensor ∈ Sensor.aboard catalogue.sensorCount := by
    rw [hCount]
    rintro ⟨⟩ <;> decide
  have hListed := (aboard_two_perm catalogue hCount).map catalogue.resolve
  constructor
  · rintro ⟨sorted, hLayout⟩
    obtain ⟨attributes, hAttributes, _, hIndices⟩ := layout_eq_ok_iff.mp hLayout
    obtain ⟨hSome, rfl⟩ := listedLayout_eq_ok_iff.mp hAttributes
    have hResolved := (hListed.map BandAttributes.index).symm.trans hIndices
    -- indices without repetition come from numbers without repetition
    have hNumbers := numbers_nodup_of_resolved (hResolved.nodup_iff.mpr List.nodup_range)
    refine ⟨fun sensor => listed_ne_nil_iff.mp (hSome sensor (hAboard sensor)), hNumbers, ?_⟩
    rw [map_resolve_eq_self hNumbers, hListed.length_eq, List.length_map] at hResolved
    exact hResolved
  · intro hConsistent
    rw [map_resolve_eq_self hConsistent.numbers] at hListed
    refine ⟨_, layout_eq_ok_iff.mpr ⟨_, listedLayout_eq_ok_iff.mpr ⟨?_, rfl⟩, rfl, ?_⟩⟩
    · intro sensor _
      exact listed_ne_nil_iff.mpr (hConsistent.sensors sensor)
    · rw [hListed.length_eq]
      exact (hListed.map BandAttributes.index).trans hConsistent.indices

/-- The layout of a consistent catalogue lists its bands in the order of their indices. -/
theorem layout_catalogue_perm {catalogue : Catalogue} (hConsistent : catalogue.Consistent)
    (hCount : catalogue.sensorCount = 2) {sorted : List BandAttributes}
    (hLayout : layout (α := α) catalogue.provider = .ok sorted) :
    sorted.Perm catalogue.bands := by
  have hListed := (aboard_two_perm catalogue hCount).map catalogue.resolve
  rw [map_resolve_eq_self hConsistent.numbers] at hListed
  exact (layout_perm_resolved hLayout).trans hListed

variable [Scalar α]

/-- Every band of a consistent catalogue is found under its index and under its number. -/
theorem Allocates.lookup [Memory] {catalogue : Catalogue} {sorted : List BandAttributes}
    {imager : Imager α} (hAllocates : Allocates catalogue.provider sorted imager)
    (hConsistent : catalogue.Consistent) (hSorted : sorted.Perm catalogue.bands)
    {entry : BandAttributes} (hEntry : entry ∈ catalogue.bands) :
    ∃ band, imager.band entry.index = .ok band ∧
      imager.bandByNumber? entry.number = some band ∧ Band.SizedBy entry band := by
  obtain ⟨position, hPosition, hGet⟩ := List.getElem_of_mem (hSorted.mem_iff.mpr hEntry)
  have hIndex : entry.index = position := by
    have hIndices := hAllocates.map_index_eq_range
    rw [← hGet, ← List.getElem_map BandAttributes.index (h := by simpa using hPosition)]
    simp only [hIndices, List.getElem_range]
  obtain ⟨band, hMem, hBand, hSized⟩ := hAllocates.band_eq_ok hPosition
  rw [hGet] at hSized
  have hNumbers : (imager.bands.toList.map Band.number).Nodup := by
    rw [hAllocates.map_number_eq]
    exact (hSorted.map BandAttributes.number).nodup_iff.mpr hConsistent.numbers
  refine ⟨band, by rw [hIndex, hBand], ?_, hSized⟩
  rw [bandByNumber?, ← Array.find?_toList, ← hSized.number]
  exact find?_key_eq_self hNumbers hMem

/-- With two sensors on board and tables that fit into memory, a catalogue can be allocated
exactly when it is consistent.  The band table then lists the bands of the catalogue in the
order of their indices, and each of them is found under its index and under its number, with
the chips and detectors listed for it, on its sensor, which is on board. -/
theorem allocate_iff_consistent [Memory] {catalogue : Catalogue} (hCount : catalogue.sensorCount = 2)
    (hTable : Memory.holds (catalogue.bands.length * Band.recordBytes) = true)
    (hFits : ∀ entry ∈ catalogue.bands, entry.Fits) :
    ((∃ imager : Imager α, allocate catalogue.provider = .ok imager) ↔ catalogue.Consistent) ∧
      ∀ imager : Imager α, allocate catalogue.provider = .ok imager →
        (∃ sorted, sorted.Perm catalogue.bands ∧
          sorted.map BandAttributes.index = List.range catalogue.bands.length ∧
          List.Forall₂ Band.SizedBy sorted imager.bands.toList) ∧
        ∀ entry ∈ catalogue.bands, ∃ band, imager.band entry.index = .ok band ∧
          imager.bandByNumber? entry.number = some band ∧ Band.SizedBy entry band ∧
          ∃ timing, imager.timingForBand entry.index = .ok timing ∧
            timing.sensor = entry.sensor ∧ timing.present = true := by
  constructor
  · rw [exists_allocate_iff]
    constructor
    · rintro ⟨_, _, _, sorted, hLayout, _⟩
      exact (layout_catalogue_iff hCount).mp ⟨sorted, hLayout⟩
    · intro hConsistent
      obtain ⟨sorted, hLayout⟩ := (layout_catalogue_iff (α := α) hCount).mpr hConsistent
      have hSorted := layout_catalogue_perm hConsistent hCount hLayout
      refine ⟨⟨_, rfl⟩, ⟨_, rfl⟩, Or.inr hCount, sorted, hLayout, ?_, ?_⟩
      · rw [hSorted.length_eq]
        exact hTable
      · intro entry hEntry
        exact hFits entry (hSorted.mem_iff.mp hEntry)
  · intro imager hAllocate
    obtain ⟨sorted, hAllocates⟩ := allocate_cases hAllocate
    have hConsistent := (layout_catalogue_iff hCount).mp ⟨sorted, hAllocates.layout⟩
    have hSorted := layout_catalogue_perm hConsistent hCount hAllocates.layout
    constructor
    · refine ⟨sorted, hSorted, ?_, hAllocates.forall₂_sizedBy⟩
      rw [hAllocates.map_index_eq_range, hSorted.length_eq]
    · intro entry hEntry
      obtain ⟨band, hBand, hNumber, hSized⟩ := hAllocates.lookup hConsistent hSorted hEntry
      refine ⟨band, hBand, hNumber, hSized, _, hAllocates.timingForBand_eq_ok hBand,
        hSized.sensor, ?_⟩
      -- both sensors are among the first two
      have hProvider : catalogue.provider.sensorCount = 2 := hCount
      rw [hProvider]
      cases band.sensor <;> rfl

/-- Three bands, listed in another order than that of their indices. -/
def shuffled : Catalogue :=
  ⟨.landsat9, 9, 2, [⟨10, 2, .tirs, 3, 640⟩, ⟨8, 1, .oli, 14, 988⟩, ⟨1, 0, .oli, 14, 494⟩]⟩

theorem allocate_iff_consistent_shuffled :
    ∃ imager : Imager Float, allocate shuffled.provider = .ok imager ∧
      ∃ band, imager.band 1 = .ok band ∧ imager.bandByNumber? 8 = some band ∧
        Band.SizedBy ⟨8, 1, .oli, 14, 988⟩ band ∧
        ∃ timing, imager.timingForBand 1 = .ok timing ∧
          timing.sensor = .oli ∧ timing.present = true := by
  have hSized : Memory.holds (shuffled.bands.length * Band.recordBytes) = true ∧
      ∀ entry ∈ shuffled.bands, entry.Fits := by decide
  have hConsistent : shuffled.Consistent :=
    ⟨by rintro ⟨⟩ <;> decide, by decide, by decide⟩
  obtain ⟨hIff, hTable⟩ := allocate_iff_consistent (α := Float) rfl hSized.1 hSized.2
  obtain ⟨imager, hAllocate⟩ := hIff.mpr hConsistent
  exact ⟨imager, hAllocate, (hTable imager hAllocate).2 ⟨8, 1, .oli, 14, 988⟩ (by decide)⟩

end Imager
end Pushbroom
