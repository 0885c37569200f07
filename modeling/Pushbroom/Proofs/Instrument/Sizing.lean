import Pushbroom.Instrument.Band
import Pushbroom.Proofs.Failure

namespace Pushbroom

/-!
# Sizes of allocated bands

A band can be allocated exactly when its tables fit into memory.  It then has the chips and
the detectors that its attributes ask for.  A band without chips has no detectors to make
room for, however many its attributes give to each chip.
-/

theorem reserve_eq_ok_iff {α : Type} [Memory] {count entryBytes : Nat} :
    reserve (α := α) count entryBytes = .ok () ↔ Memory.holds (count * entryBytes) = true := by
  unfold reserve
  split
  · rename_i hRoom
    simp [hRoom]
  · rename_i hNone
    simp [hNone]

/-- A table whose bytes no signed size tells is refused by every memory. -/
theorem reserve_eq_error_of_le {α : Type} [Memory] {count entryBytes : Nat}
    (hLarge : 0x8000000000000000 ≤ count * entryBytes) :
    reserve (α := α) count entryBytes = .error .allocation :=
  if_neg fun hRoom => Nat.not_lt.mpr hLarge (Memory.lt_of_holds hRoom)

/-- No memory refuses a table without entries. -/
theorem reserve_zero {α : Type} [Memory] (entryBytes : Nat) :
    reserve (α := α) 0 entryBytes = .ok () := by
  rw [reserve_eq_ok_iff, Nat.zero_mul]
  exact Memory.holds_zero

theorem filledTable_eq_ok_iff {α β : Type} [Memory] {count entryBytes : Nat} {entry : β}
    {table : Array β} : filledTable (α := α) count entryBytes entry = .ok table ↔
      Memory.holds (count * entryBytes) = true ∧ table = Array.replicate count entry := by
  unfold filledTable
  rw [Failure.bind_eq_ok]
  constructor
  · rintro ⟨⟨⟩, hReserve, hTable⟩
    cases hTable
    exact ⟨reserve_eq_ok_iff.mp hReserve, rfl⟩
  · rintro ⟨hFits, rfl⟩
    exact ⟨(), reserve_eq_ok_iff.mpr hFits, rfl⟩

theorem eq_allocation_of_reserve {α : Type} [Memory] {count entryBytes : Nat} {error : Error α}
    (hReserve : reserve count entryBytes = .error error) : error = .allocation := by
  unfold reserve at hReserve
  split at hReserve
  · cases hReserve
  · exact (Except.error.inj hReserve).symm

theorem eq_allocation_of_filledTable {α β : Type} [Memory] {count entryBytes : Nat} {entry : β}
    {error : Error α} (hTable : filledTable count entryBytes entry = .error error) :
    error = .allocation := by
  obtain hReserve | ⟨_, _, hEntries⟩ := Failure.bind_eq_error.mp hTable
  · exact eq_allocation_of_reserve hReserve
  · cases hEntries

/-- The tables of a band fit into memory: that of its chips and, when there are any, those of
the offsets of their detectors, in pixels and in fields of view. -/
def BandAttributes.Fits [Memory] (attributes : BandAttributes) : Prop :=
  Memory.holds (attributes.chipCount * Chip.recordBytes) = true ∧
    (attributes.chipCount ≠ 0 →
      Memory.holds (attributes.detectorsPerChip * 4) = true ∧
        Memory.holds (attributes.detectorsPerChip * 8) = true)

instance [Memory] (attributes : BandAttributes) : Decidable attributes.Fits :=
  inferInstanceAs (Decidable (_ ∧ (_ → _)))

namespace Chip

variable {α : Type} [Scalar α]

/-- A chip has an entry for each of its detectors in all three tables. -/
structure HasDetectors (chip : Chip α) (detectors : Nat) : Prop where
  raw : chip.rawOffsets.size = detectors
  along : chip.alongOffsets.size = detectors
  across : chip.acrossOffsets.size = detectors

theorem allocate_hasDetectors [Memory] {detectors : Nat} {chip : Chip α}
    (hAllocate : allocate detectors = .ok chip) : chip.HasDetectors detectors := by
  unfold allocate at hAllocate
  obtain ⟨raw, hRaw, hRest⟩ := Failure.bind_eq_ok.mp hAllocate
  obtain ⟨along, hAlong, hRest⟩ := Failure.bind_eq_ok.mp hRest
  obtain ⟨across, hAcross, hRest⟩ := Failure.bind_eq_ok.mp hRest
  cases hRest
  rw [filledTable_eq_ok_iff] at hRaw hAlong hAcross
  constructor
  · simp [hRaw.2]
  · simp [hAlong.2]
  · simp [hAcross.2]

/-- A chip needs room for its offsets in pixels and, twice as much, for those in fields of view. -/
theorem exists_allocate_iff [Memory] {detectors : Nat} :
    (∃ chip, allocate (α := α) detectors = .ok chip) ↔
      Memory.holds (detectors * 4) = true ∧ Memory.holds (detectors * 8) = true := by
  constructor
  · rintro ⟨chip, hAllocate⟩
    unfold allocate at hAllocate
    obtain ⟨raw, hRaw, hRest⟩ := Failure.bind_eq_ok.mp hAllocate
    obtain ⟨along, hAlong, _⟩ := Failure.bind_eq_ok.mp hRest
    exact ⟨(filledTable_eq_ok_iff.mp hRaw).1, (filledTable_eq_ok_iff.mp hAlong).1⟩
  · rintro ⟨hRaw, hViews⟩
    unfold allocate
    rw [filledTable_eq_ok_iff.mpr ⟨hRaw, rfl⟩, Failure.ok_bind,
      filledTable_eq_ok_iff.mpr ⟨hViews, rfl⟩, Failure.ok_bind, Failure.ok_bind]
    exact ⟨_, rfl⟩

/-- A chip is refused for want of memory only. -/
theorem eq_allocation_of_allocate [Memory] {detectors : Nat} {error : Error α}
    (hAllocate : allocate detectors = .error error) : error = .allocation := by
  obtain hRaw | ⟨raw, _, hRest⟩ := Failure.bind_eq_error.mp hAllocate
  · exact eq_allocation_of_filledTable hRaw
  obtain hAlong | ⟨along, _, hRest⟩ := Failure.bind_eq_error.mp hRest
  · exact eq_allocation_of_filledTable hAlong
  obtain hAcross | ⟨across, _, hRest⟩ := Failure.bind_eq_error.mp hRest
  · exact eq_allocation_of_filledTable hAcross
  · cases hRest

end Chip

namespace Band

variable {α : Type}

/-- A band has the identity, the chips and the detectors that its attributes describe. -/
structure SizedBy (attributes : BandAttributes) (band : Band α) : Prop where
  number : band.number = attributes.number
  index : band.index = attributes.index
  sensor : band.sensor = attributes.sensor
  chipCount : band.chips.size = attributes.chipCount
  detectors : ∀ chip ∈ band.chips, chip.HasDetectors attributes.detectorsPerChip

theorem map_number_eq {layout : List BandAttributes} {bands : List (Band α)}
    (hSized : List.Forall₂ SizedBy layout bands) :
    bands.map Band.number = layout.map BandAttributes.number := by
  induction hSized with
  | nil => rfl
  | cons hBand _ ih => rw [List.map_cons, List.map_cons, hBand.number, ih]

variable [Scalar α]

theorem allocate_sizedBy [Memory] {attributes : BandAttributes} {band : Band α}
    (hAllocate : allocate attributes = .ok band) : SizedBy attributes band := by
  unfold allocate at hAllocate
  obtain ⟨_, _, hRest⟩ := Failure.bind_eq_ok.mp hAllocate
  dsimp only at hRest
  split at hRest
  · rename_i hNone
    cases hRest
    exact ⟨rfl, rfl, rfl, by simp [hNone], by simp⟩
  · obtain ⟨chip, hChip, hCopies⟩ := Failure.bind_eq_ok.mp hRest
    cases hCopies
    refine ⟨rfl, rfl, rfl, by simp, ?_⟩
    intro copy hCopy
    rw [Array.eq_of_mem_replicate hCopy]
    exact Chip.allocate_hasDetectors hChip

theorem exists_allocate_iff_fits [Memory] {attributes : BandAttributes} :
    (∃ band : Band α, allocate attributes = .ok band) ↔ attributes.Fits := by
  constructor
  · rintro ⟨band, hAllocate⟩
    unfold allocate at hAllocate
    obtain ⟨⟨⟩, hReserve, hRest⟩ := Failure.bind_eq_ok.mp hAllocate
    refine ⟨reserve_eq_ok_iff.mp hReserve, fun hSome => ?_⟩
    dsimp only at hRest
    rw [if_neg hSome] at hRest
    obtain ⟨chip, hChip, _⟩ := Failure.bind_eq_ok.mp hRest
    exact Chip.exists_allocate_iff.mp ⟨chip, hChip⟩
  · rintro ⟨hChips, hDetectors⟩
    unfold allocate
    rw [reserve_eq_ok_iff.mpr hChips, Failure.ok_bind]
    by_cases hNone : attributes.chipCount = 0
    · rw [if_pos hNone]
      exact ⟨_, rfl⟩
    · obtain ⟨chip, hChip⟩ := Chip.exists_allocate_iff (α := α).mpr (hDetectors hNone)
      rw [if_neg hNone, hChip]
      exact ⟨_, rfl⟩

theorem eq_allocation_of_allocate [Memory] {attributes : BandAttributes} {error : Error α}
    (hAllocate : allocate attributes = .error error) : error = .allocation := by
  obtain hReserve | ⟨_, _, hRest⟩ := Failure.bind_eq_error.mp hAllocate
  · exact eq_allocation_of_reserve hReserve
  dsimp only at hRest
  split at hRest
  · cases hRest
  · obtain hChip | ⟨chip, _, hCopies⟩ := Failure.bind_eq_error.mp hRest
    · exact Chip.eq_allocation_of_allocate hChip
    · cases hCopies

end Band

end Pushbroom
