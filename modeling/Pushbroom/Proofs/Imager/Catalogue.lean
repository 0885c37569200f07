import Pushbroom.Proofs.Imager.Layout

namespace Pushbroom

/-!
# Allocation from a catalogue

A catalogue lists bands under numbers, and a model looks the bands of each sensor up by these
numbers.  A number that is listed twice stands for its first band both times, so two bands of
the layout have the same index, and the model is refused: with both sensors on board, the
catalogues that are accepted are those in which every sensor has a band, no number is listed
twice and the indices are `0, 1, 2, …` in some order.  The bands of the model are then those of
the catalogue, each found under its index and under its number.
-/

/-- Looked up by a key that no two entries share, an entry is found. -/
theorem find?_key_eq_self {β : Type} {key : β → Nat} {entries : List β}
    (hKeys : (entries.map key).Nodup) {entry : β} (hMem : entry ∈ entries) :
    (entries.find? fun other => key other = key entry) = some entry := by
  cases hFind : entries.find? fun other => key other = key entry with
  | none =>
      have hOther := List.find?_eq_none.mp hFind entry hMem
      simp at hOther
  | some first =>
      have hKey : key first = key entry := by simpa using List.find?_some hFind
      rw [List.inj_on_of_nodup_map hKeys (List.mem_of_find?_eq_some hFind) hMem hKey]

namespace Catalogue

/-- The bands listed for a sensor. -/
def listed (catalogue : Catalogue) (sensor : Sensor) : List BandAttributes :=
  catalogue.bands.filter fun band => band.sensor = sensor

/-- The band that the number of a listed band stands for: the first one of that number. -/
def resolve (catalogue : Catalogue) (band : BandAttributes) : BandAttributes :=
  (catalogue.band? band.number).getD band

/-- Every sensor has a band, no two bands share a number, and the indices are the first
natural numbers in some order. -/
structure Consistent (catalogue : Catalogue) : Prop where
  sensors : ∀ sensor, ∃ band ∈ catalogue.bands, band.sensor = sensor
  numbers : (catalogue.bands.map BandAttributes.number).Nodup
  indices : (catalogue.bands.map BandAttributes.index).Perm (List.range catalogue.bands.length)

/-! ## Lookups -/

theorem listed_ne_nil_iff {catalogue : Catalogue} {sensor : Sensor} :
    catalogue.listed sensor ≠ [] ↔ ∃ band ∈ catalogue.bands, band.sensor = sensor := by
  simp [listed, List.filter_eq_nil_iff]

theorem normalBands?_eq_some_iff {catalogue : Catalogue} {sensor : Sensor}
    {numbers : List Nat} : catalogue.normalBands? sensor = some numbers ↔
      catalogue.listed sensor ≠ [] ∧
        numbers = (catalogue.listed sensor).map BandAttributes.number := by
  unfold normalBands? listed
  cases catalogue.bands.filter (fun band => band.sensor = sensor) with
  | nil => simp
  | cons band rest => simp [eq_comm]

/-- The number of a listed band is never unknown. -/
theorem band?_number_eq {catalogue : Catalogue} {band : BandAttributes}
    (hMem : band ∈ catalogue.bands) :
    catalogue.band? band.number = some (catalogue.resolve band) := by
  unfold resolve
  cases hFind : catalogue.band? band.number with
  | none =>
      have hOther := List.find?_eq_none.mp hFind band hMem
      simp at hOther
  | some first => rfl

theorem number_resolve {catalogue : Catalogue} {band : BandAttributes}
    (hMem : band ∈ catalogue.bands) : (catalogue.resolve band).number = band.number := by
  simpa using List.find?_some (band?_number_eq hMem)

/-- A number that is listed once stands for the band it is listed for. -/
theorem resolve_eq_self {catalogue : Catalogue}
    (hNumbers : (catalogue.bands.map BandAttributes.number).Nodup) {band : BandAttributes}
    (hMem : band ∈ catalogue.bands) : catalogue.resolve band = band := by
  rw [resolve, band?, find?_key_eq_self hNumbers hMem]
  rfl

theorem map_resolve_eq_self {catalogue : Catalogue}
    (hNumbers : (catalogue.bands.map BandAttributes.number).Nodup) :
    catalogue.bands.map catalogue.resolve = catalogue.bands := by
  conv_rhs => rw [← List.map_id catalogue.bands]
  exact List.map_congr_left fun band hMem => resolve_eq_self hNumbers hMem

/-- The index a number stands for depends on the number only, so indices that differ come from
numbers that differ. -/
theorem numbers_nodup_of_resolved {catalogue : Catalogue}
    (hIndices : ((catalogue.bands.map catalogue.resolve).map BandAttributes.index).Nodup) :
    (catalogue.bands.map BandAttributes.number).Nodup := by
  let indexOf (number : Nat) : Option Nat := (catalogue.band? number).map BandAttributes.index
  have hSame : (catalogue.bands.map BandAttributes.number).map indexOf =
      ((catalogue.bands.map catalogue.resolve).map BandAttributes.index).map some := by
    simp only [List.map_map]
    apply List.map_congr_left
    intro band hMem
    simp [indexOf, band?_number_eq hMem]
  apply List.Nodup.of_map indexOf
  rw [hSame]
  exact hIndices.map (Option.some_injective Nat)

/-- The bands of the two sensors are all bands. -/
theorem listed_append_perm (catalogue : Catalogue) :
    (catalogue.listed .oli ++ catalogue.listed .tirs).Perm catalogue.bands := by
  have hOther : catalogue.listed .tirs =
      catalogue.bands.filter fun band => !decide (band.sensor = .oli) := by
    apply List.filter_congr
    intro band _
    cases band.sensor <;> rfl
  rw [hOther]
  exact List.filter_append_perm _ _

end Catalogue

namespace Imager

open Catalogue

variable {α : Type}

theorem sensorLayout_eq_ok_iff {catalogue : Catalogue} {sensor : Sensor}
    {attributes : List BandAttributes} :
    sensorLayout (α := α) catalogue.provider sensor = .ok attributes ↔
      catalogue.listed sensor ≠ [] ∧
        attributes = (catalogue.listed sensor).map catalogue.resolve := by
  have hFound (bands : List BandAttributes) (hBands : ∀ band ∈ bands, band ∈ catalogue.bands) :
      (bands.map BandAttributes.number).mapM
        (fun number => require (.missingBand number : Error α) (catalogue.band? number)) =
      .ok (bands.map catalogue.resolve) := by
    induction bands with
    | nil => rfl
    | cons band rest ih =>
        obtain ⟨hFirst, hRest⟩ := List.forall_mem_cons.mp hBands
        rw [List.map_cons, List.mapM_cons, band?_number_eq hFirst, ih hRest]
        rfl
  have hListed : ∀ band ∈ catalogue.listed sensor, band ∈ catalogue.bands :=
    fun band hMem => (List.mem_filter.mp hMem).1
  unfold sensorLayout
  rw [Failure.bind_eq_ok]
  constructor
  · rintro ⟨numbers, hNumbers, hBands⟩
    obtain ⟨hSome, rfl⟩ := normalBands?_eq_some_iff.mp (require_eq_ok_iff.mp hNumbers)
    have hResolved := (hFound _ hListed).symm.trans hBands
    exact ⟨hSome, (Except.ok.inj hResolved).symm⟩
  · rintro ⟨hSome, rfl⟩
    exact ⟨_, require_eq_ok_iff.mpr (normalBands?_eq_some_iff.mpr ⟨hSome, rfl⟩), hFound _ hListed⟩

/-- Every sensor on board needs a band, and the numbers listed for it are resolved. -/
theorem listedLayout_eq_ok_iff {catalogue : Catalogue} {attributes : List BandAttributes} :
    listedLayout (α := α) catalogue.provider = .ok attributes ↔
      (∀ sensor ∈ Sensor.aboard catalogue.sensorCount, catalogue.listed sensor ≠ []) ∧
        attributes =
          ((Sensor.aboard catalogue.sensorCount).flatMap catalogue.listed).map
            catalogue.resolve := by
  have hSensors (layouts : List (List BandAttributes)) :
      (Sensor.aboard catalogue.sensorCount).mapM (sensorLayout (α := α) catalogue.provider) =
          .ok layouts ↔
        (∀ sensor ∈ Sensor.aboard catalogue.sensorCount, catalogue.listed sensor ≠ []) ∧
          layouts = (Sensor.aboard catalogue.sensorCount).map fun sensor =>
            (catalogue.listed sensor).map catalogue.resolve :=
    Failure.mapM_eq_ok_iff_of fun _ _ => sensorLayout_eq_ok_iff
  unfold listedLayout
  rw [Failure.bind_eq_ok]
  constructor
  · rintro ⟨layouts, hLayouts, hFlat⟩
    obtain ⟨hSome, rfl⟩ := (hSensors layouts).mp hLayouts
    cases hFlat
    exact ⟨hSome, by rw [List.map_flatMap, List.flatMap_def]⟩
  · rintro ⟨hSome, rfl⟩
    refine ⟨_, (hSensors _).mpr ⟨hSome, rfl⟩, ?_⟩
    rw [List.map_flatMap, List.flatMap_def]
    rfl

/-- The layout of a catalogue consists of the resolved bands of the sensors on board. -/
theorem layout_perm_resolved {catalogue : Catalogue} {sorted : List BandAttributes}
    (hLayout : layout (α := α) catalogue.provider = .ok sorted) :
    sorted.Perm (((Sensor.aboard catalogue.sensorCount).flatMap catalogue.listed).map
      catalogue.resolve) := by
  obtain ⟨attributes, hAttributes, rfl, _⟩ := layout_eq_ok_iff.mp hLayout
  obtain ⟨_, rfl⟩ := listedLayout_eq_ok_iff.mp hAttributes
  exact byIndex_perm _

end Imager
end Pushbroom
