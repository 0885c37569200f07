import Pushbroom.Proofs.Imager.Catalogue
import Pushbroom.Scalar.Binary64

namespace Pushbroom
namespace Imager

/-!
# Bands of absent sensors

The bands of a model are listed for the sensors on board, but looked up by number alone.  With
the land imager alone on board, a number that is listed for both sensors, and for the thermal
sensor first, brings a band of the absent sensor into the model.  This is the only way: every
other band of an allocated model belongs to a sensor that is present.
-/

open Catalogue

/-- A number is listed for the land imager, but the first band listed under it belongs to the
thermal sensor. -/
def Shadowed (catalogue : Catalogue) (number : Nat) : Prop :=
  (∃ entry ∈ catalogue.bands, entry.number = number ∧ entry.sensor = .oli) ∧
    ∃ first, catalogue.band? number = some first ∧ first.sensor = .tirs

variable {α : Type} [Scalar α]

/-- The band at an index is the one that the number of a band of a sensor on board stands
for. -/
theorem Allocates.exists_resolved [Memory] {catalogue : Catalogue} {sorted : List BandAttributes}
    {imager : Imager α} (hAllocates : Allocates catalogue.provider sorted imager) {index : Nat}
    (hIndex : index < imager.bandCount) :
    ∃ band, imager.band index = .ok band ∧ ∃ entry ∈ catalogue.bands,
      entry.sensor ∈ Sensor.aboard catalogue.sensorCount ∧
        Band.SizedBy (catalogue.resolve entry) band := by
  have hLength : index < sorted.length := hAllocates.bandCount_eq ▸ hIndex
  obtain ⟨band, _, hBand, hSized⟩ := hAllocates.band_eq_ok hLength
  have hMem := (layout_perm_resolved hAllocates.layout).mem_iff.mp (List.getElem_mem hLength)
  obtain ⟨entry, hEntry, hResolve⟩ := List.mem_map.mp hMem
  obtain ⟨sensor, hAboard, hListed⟩ := List.mem_flatMap.mp hEntry
  obtain ⟨hEntryMem, hSensor⟩ := List.mem_filter.mp hListed
  refine ⟨band, hBand, entry, hEntryMem, ?_, ?_⟩
  · rw [of_decide_eq_true hSensor]
    exact hAboard
  · rw [hResolve]
    exact hSized

/-- The sensor of a band is absent exactly when the land imager is alone on board and the
number of the band is shadowed. -/
theorem timingForBand_absent_iff [Memory] {catalogue : Catalogue} {imager : Imager α}
    (hAllocate : allocate catalogue.provider = .ok imager) {index : Nat}
    (hIndex : index < imager.bandCount) :
    ∃ band timing, imager.band index = .ok band ∧ imager.timingForBand index = .ok timing ∧
      timing.sensor = band.sensor ∧
      (timing.present = false ↔ catalogue.sensorCount = 1 ∧ Shadowed catalogue band.number) := by
  obtain ⟨sorted, hAllocates⟩ := allocate_cases hAllocate
  obtain ⟨band, hBand, entry, hEntry, hAboard, hSized⟩ := hAllocates.exists_resolved hIndex
  refine ⟨band, _, hBand, hAllocates.timingForBand_eq_ok hBand, rfl, ?_⟩
  have hNumber : band.number = entry.number := hSized.number.trans (number_resolve hEntry)
  have hFirst : catalogue.band? band.number = some (catalogue.resolve entry) := by
    rw [hNumber]
    exact band?_number_eq hEntry
  have hProvider : catalogue.provider.sensorCount = catalogue.sensorCount := rfl
  rw [hProvider]
  rcases hAllocates.sensorCount with hOne | hTwo
  · have hOne : catalogue.sensorCount = 1 := hOne
    rw [hOne] at hAboard ⊢
    have hOli : entry.sensor = .oli := by simpa [Sensor.aboard, Sensor.all] using hAboard
    -- with one sensor, the band is absent when it is a band of the other one
    have hAbsent : (initialTiming (α := α) 1 band.sensor).present = false ↔
        (catalogue.resolve entry).sensor = .tirs := by
      rw [← hSized.sensor]
      cases band.sensor <;> simp [initialTiming, SensorTiming.initial, Sensor.index]
    rw [hAbsent]
    constructor
    · intro hTirs
      exact ⟨rfl, ⟨entry, hEntry, hNumber.symm, hOli⟩, _, hFirst, hTirs⟩
    · rintro ⟨_, _, first, hFound, hTirs⟩
      cases hFirst.symm.trans hFound
      exact hTirs
  · have hTwo : catalogue.sensorCount = 2 := hTwo
    rw [hTwo]
    have hPresent : (initialTiming (α := α) 2 band.sensor).present = true := by
      cases band.sensor <;> rfl
    simp [hPresent]

/-- A band of the thermal sensor, which is not on board, and after it one of the land imager
under the same number. -/
def shadowing : Catalogue :=
  ⟨.landsat8, 8, 1, [⟨1, 0, .tirs, 1, 2⟩, ⟨1, 0, .oli, 1, 2⟩]⟩

theorem exists_allocates_shadowing : ∃ imager : Imager Float,
    allocate shadowing.provider = .ok imager ∧
      Allocates shadowing.provider [⟨1, 0, .tirs, 1, 2⟩] imager := by
  have hLayout : layout (α := Float) shadowing.provider = .ok [⟨1, 0, .tirs, 1, 2⟩] :=
    layout_eq_ok_iff.mpr ⟨[⟨1, 0, .tirs, 1, 2⟩], rfl, by simp [byIndex], by decide⟩
  obtain ⟨imager, hAllocate⟩ := exists_allocate_iff (α := Float).mpr ⟨⟨_, rfl⟩, ⟨_, rfl⟩,
    Or.inl rfl, _, hLayout, by decide, by decide⟩
  obtain ⟨sorted, hAllocates⟩ := allocate_cases hAllocate
  cases hAllocates.layout.symm.trans hLayout
  exact ⟨imager, hAllocate, hAllocates⟩

theorem timingForBand_absent_iff_shadowing :
    ∃ imager : Imager Float, allocate shadowing.provider = .ok imager ∧ 0 < imager.bandCount ∧
      ∃ band timing, imager.band 0 = .ok band ∧ imager.timingForBand 0 = .ok timing ∧
        timing.sensor = band.sensor ∧
        (timing.present = false ↔ shadowing.sensorCount = 1 ∧ Shadowed shadowing band.number) := by
  obtain ⟨imager, hAllocate, hAllocates⟩ := exists_allocates_shadowing
  have hCount : 0 < imager.bandCount := by
    rw [hAllocates.bandCount_eq]
    decide
  exact ⟨imager, hAllocate, hCount, timingForBand_absent_iff hAllocate hCount⟩

/-- The band of a model that is allocated from this catalogue belongs to an absent sensor. -/
theorem exists_band_of_absent_sensor :
    ∃ imager : Imager Float, allocate shadowing.provider = .ok imager ∧
      ∃ timing, imager.timingForBand 0 = .ok timing ∧ timing.present = false := by
  obtain ⟨imager, hAllocate, hAllocates⟩ := exists_allocates_shadowing
  obtain ⟨band, _, hBand, hSized⟩ := hAllocates.band_eq_ok Nat.zero_lt_one
  refine ⟨imager, hAllocate, _, hAllocates.timingForBand_eq_ok hBand, ?_⟩
  rw [hSized.sensor]
  rfl

end Imager
end Pushbroom
