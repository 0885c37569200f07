import Pushbroom.Proofs.Imager.Reordering
import Pushbroom.Scalar.Binary64

namespace Pushbroom
namespace Imager

/-!
# The first fault of an allocation

An allocation asks its provider for the identity of the satellite and the number of its sensors,
then for its bands, then looks at their indices, and last of all reserves storage.  It fails as
the first of these checks that fails, and succeeds when none does.
-/

variable {α : Type}

def identityFault? (provider : Provider) : Option (Error α) :=
  if provider.satellite? = none ∨ provider.number? = none then some .unknownSatellite else none

def countFault? (provider : Provider) : Option (Error α) :=
  if provider.sensorCount = 0 ∨ 2 < provider.sensorCount then
    some (.sensorCount provider.sensorCount)
  else none

def storageFault? [Memory] (provider : Provider) : Option (Error α) :=
  if Memory.holds (provider.attributes.length * Band.recordBytes) = true ∧
      ∀ attributes ∈ provider.attributes, attributes.Fits then none
  else some .allocation

/-- The first check that fails. -/
def firstFault? [Memory] (provider : Provider) : Option (Error α) :=
  [identityFault? provider, countFault? provider, lookupFault? provider, indexFault? provider,
    storageFault? provider].findSome? id

theorem firstFault?_eq [Memory] (provider : Provider) :
    firstFault? (α := α) provider =
      (identityFault? provider).or (((countFault? provider).or
        ((lookupFault? provider).or (indexFault? provider))).or (storageFault? provider)) := by
  unfold firstFault?
  cases identityFault? (α := α) provider <;> cases countFault? (α := α) provider <;>
    cases lookupFault? (α := α) provider <;> cases indexFault? (α := α) provider <;>
    cases storageFault? (α := α) provider <;> rfl

theorem identityFault?_eq_none_iff {provider : Provider} :
    identityFault? (α := α) provider = none ↔
      (∃ satellite, provider.satellite? = some satellite) ∧
        ∃ number, provider.number? = some number := by
  rw [identityFault?, ite_eq_right_iff, ← Option.ne_none_iff_exists', ← Option.ne_none_iff_exists',
    ← not_or]
  simp

theorem countFault?_eq_none_iff {provider : Provider} :
    countFault? (α := α) provider = none ↔
      provider.sensorCount = 1 ∨ provider.sensorCount = 2 := by
  rw [countFault?, ite_eq_right_iff]
  simp
  omega

theorem storageFault?_eq_none_iff [Memory] {provider : Provider} :
    storageFault? (α := α) provider = none ↔
      Memory.holds (provider.attributes.length * Band.recordBytes) = true ∧
        ∀ attributes ∈ provider.attributes, attributes.Fits := by
  simp [storageFault?]

theorem storageFault?_of_ne_none [Memory] {provider : Provider}
    (hSome : storageFault? (α := α) provider ≠ none) :
    storageFault? (α := α) provider = some .allocation := by
  unfold storageFault? at hSome ⊢
  split
  · rename_i hFits
    exact absurd (if_pos hFits) hSome
  · rfl

variable [Scalar α]

/-- An allocation succeeds when no check fails. -/
theorem exists_allocate_iff_firstFault? [Memory] {provider : Provider} :
    (∃ imager : Imager α, allocate provider = .ok imager) ↔
      firstFault? (α := α) provider = none := by
  have hPerm := byIndex_perm provider.attributes
  simp only [exists_allocate_iff, firstFault?_eq, Option.or_eq_none_iff,
    identityFault?_eq_none_iff, countFault?_eq_none_iff, storageFault?_eq_none_iff, layout_eq,
    Failure.outcome_eq_ok_iff, and_assoc]
  constructor
  · rintro ⟨hSatellite, hNumber, hCount, sorted, hLookups, hIndices, rfl, hTable, hFits⟩
    rw [hPerm.length_eq] at hTable
    exact ⟨hSatellite, hNumber, hCount, hLookups, hIndices, hTable,
      fun attributes hMem => hFits attributes (hPerm.mem_iff.mpr hMem)⟩
  · rintro ⟨hSatellite, hNumber, hCount, hLookups, hIndices, hTable, hFits⟩
    rw [← hPerm.length_eq] at hTable
    exact ⟨hSatellite, hNumber, hCount, _, hLookups, hIndices, rfl, hTable,
      fun attributes hMem => hFits attributes (hPerm.mem_iff.mp hMem)⟩

theorem allocate_of_identityFault? [Memory] {provider : Provider} {error : Error α}
    (hFault : identityFault? provider = some error) : allocate provider = .error error := by
  unfold identityFault? at hFault
  split at hFault
  · rename_i hUnknown
    cases hFault
    unfold allocate
    cases hSatellite : provider.satellite? with
    | none => rfl
    | some satellite =>
        have hNumber : provider.number? = none := by simpa [hSatellite] using hUnknown
        rw [hNumber]
        rfl
  · cases hFault

/-- Once a satellite is identified, what comes after the layout of its bands can fail in one
way only. -/
theorem allocate_of_known [Memory] {provider : Provider} {satellite : Satellite} {number : Nat}
    (hSatellite : provider.satellite? = some satellite)
    (hNumber : provider.number? = some number) :
    ∃ finish : List BandAttributes → Except (Error α) (Imager α),
      (allocate provider =
        if provider.sensorCount = 0 ∨ 2 < provider.sensorCount then
          .error (.sensorCount provider.sensorCount)
        else layout provider >>= finish) ∧
      ∀ sorted error, finish sorted = .error error → error = .allocation := by
  unfold allocate
  rw [hSatellite, hNumber]
  refine ⟨_, rfl, ?_⟩
  intro sorted error hFinish
  obtain hTable | ⟨_, _, hRest⟩ := Failure.bind_eq_error.mp hFinish
  · exact eq_allocation_of_reserve hTable
  obtain hBands | ⟨bands, _, hImager⟩ := Failure.bind_eq_error.mp hRest
  · obtain ⟨attributes, _, hBand⟩ := Failure.exists_of_mapM_eq_error hBands
    exact Band.eq_allocation_of_allocate hBand
  · cases hImager

/-- What an allocation fails with is the first check that fails. -/
theorem firstFault?_of_allocate [Memory] {provider : Provider} {error : Error α}
    (hAllocate : allocate provider = .error error) : firstFault? provider = some error := by
  have hSome : firstFault? (α := α) provider ≠ none := by
    rw [ne_eq, ← exists_allocate_iff_firstFault?, hAllocate]
    simp
  rw [firstFault?_eq] at hSome ⊢
  cases hIdentity : identityFault? (α := α) provider with
  | some first =>
      rw [allocate_of_identityFault? hIdentity] at hAllocate
      cases hAllocate
      rfl
  | none =>
      obtain ⟨⟨satellite, hSatellite⟩, ⟨number, hNumber⟩⟩ := identityFault?_eq_none_iff.mp hIdentity
      obtain ⟨finish, hKnown, hFinish⟩ := allocate_of_known (α := α) hSatellite hNumber
      have hChecked : allocate provider = Failure.outcome
          ((countFault? provider).or ((lookupFault? provider).or (indexFault? provider)))
          (byIndex provider.attributes) >>= finish := by
        rw [hKnown, layout_eq, countFault?]
        split <;> rfl
      rw [hChecked] at hAllocate
      rw [hIdentity, Option.none_or] at hSome
      rw [Option.none_or]
      obtain hLayout | ⟨sorted, hLayout, hLast⟩ := Failure.bind_eq_error.mp hAllocate
      · rw [Failure.outcome_eq_error_iff.mp hLayout]
        rfl
      · -- no check before the reservations fails, so one of these does
        rw [(Failure.outcome_eq_ok_iff.mp hLayout).1, Option.none_or] at hSome ⊢
        rw [hFinish sorted error hLast]
        exact storageFault?_of_ne_none hSome

/-- The band of a model at an index carries that index. -/
theorem Allocates.exists_band_of_lt [Memory] {provider : Provider} {sorted : List BandAttributes}
    {imager : Imager α} (hAllocates : Allocates provider sorted imager) {index : Nat}
    (hIndex : index < imager.bandCount) :
    ∃ band, imager.band index = .ok band ∧ band.index = index := by
  have hLength : index < sorted.length := hAllocates.bandCount_eq ▸ hIndex
  obtain ⟨band, _, hBand, hSized⟩ := hAllocates.band_eq_ok hLength
  have hMapped : index < (sorted.map BandAttributes.index).length := by
    rw [List.length_map]
    exact hLength
  refine ⟨band, hBand, ?_⟩
  rw [hSized.index, ← List.getElem_map BandAttributes.index (h := hMapped)]
  simp only [hAllocates.map_index_eq_range, List.getElem_range]

/-- An allocation fails as the first check that fails.  When none fails, it gives a model with
one band for each band listed, and at every index the band of that index.  When no lookup fails,
the order in which the bands of each sensor are listed makes no difference, neither to the model
nor to the failure. -/
theorem allocate_fails_at_first_fault [Memory] (provider : Provider) :
    (∀ error : Error α, firstFault? provider = some error → allocate provider = .error error) ∧
    (firstFault? (α := α) provider = none → ∃ imager : Imager α,
      allocate provider = .ok imager ∧ imager.bandCount = provider.listedCount ∧
        ∀ index < imager.bandCount, ∃ band,
          imager.band index = .ok band ∧ band.index = index) ∧
    ∀ reordered : Provider, reordered.Reorders provider →
      lookupFault? (α := α) provider = none →
      allocate (α := α) reordered = allocate provider := by
  refine ⟨?_, ?_, fun _ hReorders hLookups => allocate_of_reorders hReorders hLookups⟩
  · intro error hFault
    cases hAllocate : allocate (α := α) provider with
    | ok imager =>
        rw [exists_allocate_iff_firstFault?.mp ⟨imager, hAllocate⟩] at hFault
        cases hFault
    | error other =>
        rw [firstFault?_of_allocate hAllocate] at hFault
        cases hFault
        rfl
  · intro hNone
    obtain ⟨imager, hAllocate⟩ := exists_allocate_iff_firstFault?.mpr hNone
    obtain ⟨sorted, hAllocates⟩ := allocate_cases hAllocate
    have hLayout := hAllocates.layout
    rw [layout_eq] at hLayout
    obtain ⟨hFaults, rfl⟩ := Failure.outcome_eq_ok_iff.mp hLayout
    refine ⟨imager, hAllocate, ?_, fun index hIndex => hAllocates.exists_band_of_lt hIndex⟩
    rw [hAllocates.bandCount_eq, (byIndex_perm provider.attributes).length_eq,
      length_attributes (Option.or_eq_none_iff.mp hFaults).1]

/-- The bands 0, 1 and 2, whose indices go down from 2. -/
def descending (oli tirs : List Nat) : Provider where
  satellite? := some .landsat8
  number? := some 8
  sensorCount := 2
  normalBands?
    | .oli => some oli
    | .tirs => some tirs
  band? number := if number < 3 then some ⟨number, 2 - number, .oli, 1, 2⟩ else none

/-- A band that is listed twice fails the check of the indices, in whichever order the sensor
lists it; bands that are listed once pass it. -/
theorem allocate_fails_at_first_fault_descending :
    allocate (α := Float) (descending [1, 0, 1] [2]) = .error (.bandIndex 1) ∧
    allocate (α := Float) (descending [1, 1, 0] [2]) =
      allocate (descending [1, 0, 1] [2]) ∧
    ∃ imager : Imager Float, allocate (descending [1, 0] [2]) = .ok imager ∧
      imager.bandCount = 3 ∧
      ∀ index < imager.bandCount, ∃ band, imager.band index = .ok band ∧ band.index = index := by
  have hTwice := allocate_fails_at_first_fault (α := Float) (descending [1, 0, 1] [2])
  have hOnce := allocate_fails_at_first_fault (α := Float) (descending [1, 0] [2])
  have hMisplaced : firstFault? (α := Float) (descending [1, 0, 1] [2]) = some (.bandIndex 1) := by
    have hIndices : indexFault? (α := Float) (descending [1, 0, 1] [2]) = some (.bandIndex 1) := by
      cbv
    rw [firstFault?_eq, hIndices]
    rfl
  have hNone : firstFault? (α := Float) (descending [1, 0] [2]) = none := by
    have hIndices : indexFault? (α := Float) (descending [1, 0] [2]) = none := by cbv
    have hStorage : storageFault? (α := Float) (descending [1, 0] [2]) = none :=
      storageFault?_eq_none_iff.mpr ⟨by decide, by decide⟩
    rw [firstFault?_eq, hIndices, hStorage]
    rfl
  refine ⟨hTwice.1 _ hMisplaced, hTwice.2.2 _ ⟨rfl, rfl, rfl, rfl, ?_⟩ rfl, hOnce.2.1 hNone⟩
  rintro ⟨⟩ _
  · exact Option.Rel.some (by decide)
  · exact Option.Rel.some (List.Perm.refl _)

end Imager
end Pushbroom
