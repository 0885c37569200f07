import Pushbroom.Proofs.Moon.Cache

namespace Pushbroom
namespace Moon
namespace Projection

/-!
# Transforms with and without a cache

A cache is created exactly when the source answers at every line of the target band, and
what stops it is the failure at the first line that has none.

A transform through the cache is the transform of the line that is kept for it.  The right
ascension kept was unwrapped along all the lines before, the other one is not unwrapped at
all; both are unwrapped once more against the reference, which takes away whatever number of
turns they differ by.  Only at an odd number of half turns from the reference are there two
ways to do so.
-/

section Creation

variable [Memory] {α : Type} [Scalar α] [Elementary α] {imager : Imager α}
  {source : Location α → Except (Error α) (Position α)} {bandIndex chipIndex : Nat}
  {kind : DetectorKind} {unitScale : α} {plain : Projection α} {band : Band α}
  {chip : Chip α}

theorem lookup_eq
    (hPlain : create imager source bandIndex chipIndex kind unitScale false = .ok plain)
    (hBand : imager.band bandIndex = .ok band) (hChip : band.chip chipIndex = .ok chip)
    (line : α) :
    plain.lookup source line = source (targetAt bandIndex chipIndex chip kind line) := by
  obtain ⟨_, _, hSameBand, hSameChip, _, hLookup⟩ := create_plain_cases hPlain
  rw [hBand] at hSameBand
  cases hSameBand
  rw [hChip] at hSameChip
  cases hSameChip
  exact hLookup line

theorem exists_create_cached_iff
    (hPlain : create imager source bandIndex chipIndex kind unitScale false = .ok plain)
    (hBand : imager.band bandIndex = .ok band) (hChip : band.chip chipIndex = .ok chip)
    (hReserve : reserve (α := α) band.lineCount 8 = .ok ()) :
    (∃ projection,
        create imager source bandIndex chipIndex kind unitScale true = .ok projection) ↔
      ∀ line < band.lineCount, ∃ position,
        source (targetAt bandIndex chipIndex chip kind (line : α)) = .ok position := by
  have hAnswered : (∃ raw, plain.answers source 0 band.lineCount = .ok raw) ↔
      ∀ line < band.lineCount, ∃ position,
        source (targetAt bandIndex chipIndex chip kind (line : α)) = .ok position := by
    rw [answers, Failure.exists_mapM_eq_ok_iff]
    simp [lookup_eq hPlain hBand hChip]
  rw [create_cached_eq, hPlain, hBand, ← hAnswered]
  simp only [Failure.ok_bind, Failure.bind_eq_ok, buildCache_eq_ok, hReserve, true_and]
  constructor
  · rintro ⟨_, _, ⟨raw, hRaw, _⟩, _⟩
    exact ⟨raw, hRaw⟩
  · rintro ⟨raw, hRaw⟩
    exact ⟨_, _, ⟨raw, hRaw, rfl⟩, rfl⟩

/-- The lines before the first that has no answer, that line, and the rest. -/
theorem create_cached_eq_error
    (hPlain : create imager source bandIndex chipIndex kind unitScale false = .ok plain)
    (hBand : imager.band bandIndex = .ok band) (hChip : band.chip chipIndex = .ok chip)
    (hReserve : reserve (α := α) band.lineCount 8 = .ok ()) {line : Nat}
    (hLine : line < band.lineCount)
    (hEarlier : ∀ earlier < line, ∃ position,
      source (targetAt bandIndex chipIndex chip kind (earlier : α)) = .ok position)
    {error : Error α}
    (hFails : source (targetAt bandIndex chipIndex chip kind (line : α)) = .error error) :
    create imager source bandIndex chipIndex kind unitScale true = .error error := by
  -- the lines before the one that fails, that line, and those not asked for any more
  have hLines : List.range' 0 band.lineCount =
      List.range' 0 line ++ line :: List.range' (line + 1) (band.lineCount - line - 1) := by
    have hRest : band.lineCount = line + (band.lineCount - line - 1 + 1) := by omega
    conv_lhs => rw [hRest, ← List.range'_append_1, zero_add, List.range'_succ]
  have hAnswers : plain.answers source 0 band.lineCount = .error error := by
    rw [answers, hLines]
    apply Failure.mapM_eq_error_of_first
    · intro earlier hMem
      rw [lookup_eq hPlain hBand hChip]
      exact hEarlier earlier (by simpa using hMem)
    · rw [lookup_eq hPlain hBand hChip]
      exact hFails
  rw [create_cached_eq, hPlain, hBand]
  simp only [Failure.ok_bind, buildCache, Failure.ofExcept_eq, hReserve, extendCache_eq, hAnswers,
    Failure.error_bind]

end Creation

/-! ## Transforms -/

open Elementary (turn)

variable {K : Type} [Field K] [LinearOrder K] [FloorRing K] [IsStrictOrderedRing K]

/-- The line whose position stands for a line, when `lines` of them are kept: the nearest
one, or the line itself where none is kept. -/
def heldLine (lines : Nat) (line : K) : K :=
  if 0 ≤ roundAway line ∧ roundAway line < (lines : ℤ) then (roundAway line : K) else line

theorem position?_eq (cache : LineCache K) (line : K) :
    cache.position? line =
      if 0 ≤ roundAway line ∧ roundAway line < (cache.size : ℤ) then
        cache[(roundAway line).toNat]?
      else none := by
  -- the bounds are compared as numbers, and are the same for the integers
  have hBelow : ((roundAway line : ℤ) : K) < 0 ↔ roundAway line < 0 := Int.cast_lt_zero
  have hAbove : ((cache.size : Nat) : K) ≤ (roundAway line : K) ↔
      (cache.size : ℤ) ≤ roundAway line := by
    exact_mod_cast Iff.rfl
  simp only [LineCache.position?, round_eq_roundAway, Scalar.isFinite_eq,
    Scalar.toPosition_intCast, hBelow, hAbove]
  by_cases hHeld : 0 ≤ roundAway line ∧ roundAway line < (cache.size : ℤ)
  · rw [if_pos hHeld, if_neg (by simp; omega)]
  · rw [if_neg hHeld, if_pos (by simp; omega)]

variable [Elementary K]

/-- A projection does not tell a kept position from the answer it is kept for. -/
theorem project_eq_of_keptFor (hTurn : 0 < (turn : K)) (projection : Projection K)
    {answer kept : Position K} (hKept : KeptFor answer kept)
    (hOff : ∀ k : ℤ, answer.ra - projection.reference.ra ≠ (2 * k + 1) * (turn / 2))
    (lat long : K) : projection.project kept lat long = projection.project answer lat long := by
  obtain ⟨n, hRa⟩ := hKept.ra
  simp only [project, hKept.dec, hKept.distance, hRa, unwrap_add_turns hTurn hOff n]

theorem transform_cached_eq [Memory] (hTurn : 0 < (turn : K)) {imager : Imager K}
    {source : Location K → Except (Error K) (Position K)} {bandIndex chipIndex : Nat}
    {kind : DetectorKind} {unitScale : K} {plain cached : Projection K} {band : Band K}
    {chip : Chip K}
    (hPlain : create imager source bandIndex chipIndex kind unitScale false = .ok plain)
    (hCached : create imager source bandIndex chipIndex kind unitScale true = .ok cached)
    (hBand : imager.band bandIndex = .ok band) (hChip : band.chip chipIndex = .ok chip)
    (line lat long : K)
    (hOff : ∀ position, source (targetAt bandIndex chipIndex chip kind
        (heldLine band.lineCount line)) = .ok position →
      ∀ k : ℤ, position.ra - plain.reference.ra ≠ (2 * k + 1) * (turn / 2)) :
    cached.transform source line lat long =
      plain.transform source (heldLine band.lineCount line) lat long := by
  obtain ⟨_, _, _, cache, raw, hSamePlain, hSameBand, hSameChip, rfl, hLength, hAnswers,
    hUnwraps⟩ := create_cached_cases hTurn hCached
  cases hPlain.symm.trans hSamePlain
  cases hBand.symm.trans hSameBand
  cases hChip.symm.trans hSameChip
  obtain ⟨_, _, _, _, hNone, _⟩ := create_plain_cases hPlain
  have hLookup := lookup_eq hPlain hBand hChip
  have hSize : cache.size = band.lineCount := by
    rw [← hLength, hUnwraps.answers.length_eq, Array.length_toList]
  have hPosition := position?_eq cache line
  rw [hSize] at hPosition
  unfold heldLine at hOff ⊢
  by_cases hHeld : 0 ≤ roundAway line ∧ roundAway line < (band.lineCount : ℤ)
  · -- the position kept for the nearest line, and the answer there
    rw [if_pos hHeld] at hPosition hOff ⊢
    obtain ⟨k, hk⟩ := Int.eq_ofNat_of_zero_le hHeld.1
    have hRaw : k < raw.length := by omega
    have hCache : k < cache.size := by omega
    rw [hk, Int.toNat_natCast, Array.getElem?_eq_getElem hCache] at hPosition
    rw [hk, Int.cast_natCast] at hOff ⊢
    have hAnswer := hAnswers k hRaw
    have hKept : KeptFor raw[k] cache[k] := hUnwraps.answers.get hRaw hCache
    have hProject := project_eq_of_keptFor hTurn plain hKept (hOff _ hAnswer) lat long
    simp only [transform, positionAt, hNone, Option.bind_some, Option.bind_none, hPosition,
      hLookup, hAnswer]
    exact congrArg Except.ok hProject
  · -- both ask the source
    rw [if_neg hHeld] at hPosition hOff ⊢
    simp only [transform, positionAt, hNone, Option.bind_some, Option.bind_none, hPosition]
    rfl

/-- In any arithmetic, a projection that can be created without a cache can be created with
one exactly when the source answers at every line of the target band, and else fails as the
first line does that has no answer.  In exact arithmetic the two then transform alike: the
one with a cache at a line as the other at the line held for it. -/
theorem create_cached_and_transform_agree [Memory] :
    (∀ {α : Type} [Scalar α] [Elementary α] {imager : Imager α}
        {source : Location α → Except (Error α) (Position α)} {bandIndex chipIndex : Nat}
        {kind : DetectorKind} {unitScale : α} {plain : Projection α} {band : Band α}
        {chip : Chip α},
      create imager source bandIndex chipIndex kind unitScale false = .ok plain →
      imager.band bandIndex = .ok band → band.chip chipIndex = .ok chip →
      reserve (α := α) band.lineCount 8 = .ok () →
      ((∃ cached, create imager source bandIndex chipIndex kind unitScale true = .ok cached) ↔
        ∀ line < band.lineCount, ∃ position,
          source (targetAt bandIndex chipIndex chip kind (line : α)) = .ok position) ∧
      ∀ line < band.lineCount, ∀ error,
        (∀ earlier < line, ∃ position,
          source (targetAt bandIndex chipIndex chip kind (earlier : α)) = .ok position) →
        source (targetAt bandIndex chipIndex chip kind (line : α)) = .error error →
        create imager source bandIndex chipIndex kind unitScale true = .error error) ∧
    (∀ {K : Type} [Field K] [LinearOrder K] [FloorRing K] [IsStrictOrderedRing K]
        [Elementary K] {imager : Imager K}
        {source : Location K → Except (Error K) (Position K)} {bandIndex chipIndex : Nat}
        {kind : DetectorKind} {unitScale : K} {plain cached : Projection K} {band : Band K}
        {chip : Chip K}, 0 < (turn : K) →
      create imager source bandIndex chipIndex kind unitScale false = .ok plain →
      create imager source bandIndex chipIndex kind unitScale true = .ok cached →
      imager.band bandIndex = .ok band → band.chip chipIndex = .ok chip →
      ∀ line lat long : K,
        (∀ position, source (targetAt bandIndex chipIndex chip kind
            (heldLine band.lineCount line)) = .ok position →
          ∀ k : ℤ, position.ra - plain.reference.ra ≠ (2 * k + 1) * (turn / 2)) →
        cached.transform source line lat long =
          plain.transform source (heldLine band.lineCount line) lat long) := by
  constructor
  · intro α _ _ imager source bandIndex chipIndex kind unitScale plain band chip hPlain hBand
      hChip hReserve
    refine ⟨exists_create_cached_iff hPlain hBand hChip hReserve, ?_⟩
    intro line hLine error hEarlier hFails
    exact create_cached_eq_error hPlain hBand hChip hReserve hLine hEarlier hFails
  · intro K _ _ _ _ _ imager source bandIndex chipIndex kind unitScale plain cached band chip
      hTurn hPlain hCached hBand hChip line lat long hOff
    exact transform_cached_eq hTurn hPlain hCached hBand hChip line lat long hOff

/-- A Moon that is not seen from the line 3 on. -/
def settingMoon (location : Location ℚ) : Except (Error ℚ) (Position ℚ) :=
  if 3 ≤ location.line then .error (.moonEphemeris location.line) else wrappedMoon location

theorem create_cached_and_transform_agree_fourLines :
    (∃ plain cached, create fourLines wrappedMoon 0 0 .nominal 1 false = .ok plain ∧
      create fourLines wrappedMoon 0 0 .nominal 1 true = .ok cached ∧
      cached.transform wrappedMoon (7 / 5) (1 / 10) (1 / 5) =
        plain.transform wrappedMoon 1 (1 / 10) (1 / 5)) ∧
    create fourLines settingMoon 0 0 .nominal 1 true = .error (.moonEphemeris 3) := by
  obtain ⟨band, hBand⟩ : ∃ band, fourLines.band 0 = .ok band :=
    Failure.exists_eq_ok_of_isOk (by decide +kernel)
  obtain ⟨chip, hChip⟩ : ∃ chip, band.chip 0 = .ok chip := by
    cases hBand
    exact Failure.exists_eq_ok_of_isOk (by decide +kernel)
  have hLines : band.lineCount = 4 := by
    cases hBand
    decide +kernel
  constructor
  · obtain ⟨plain, hPlain⟩ : ∃ plain,
        create fourLines wrappedMoon 0 0 .nominal 1 false = .ok plain :=
      Failure.exists_eq_ok_of_isOk (by decide +kernel)
    obtain ⟨cached, hCached⟩ : ∃ cached,
        create fourLines wrappedMoon 0 0 .nominal 1 true = .ok cached :=
      Failure.exists_eq_ok_of_isOk (by decide +kernel)
    have hReference : ((create fourLines wrappedMoon 0 0 .nominal 1 false).toOption.map
        fun plain => plain.reference.ra) = some (-1 / 5) := by decide +kernel
    have hRa : plain.reference.ra = -1 / 5 := by
      rw [hPlain] at hReference
      exact Option.some.inj hReference
    have hHeld : heldLine band.lineCount (7 / 5 : ℚ) = 1 := by
      rw [hLines]
      decide +kernel
    have hTransform := create_cached_and_transform_agree.2 (by decide +kernel) hPlain hCached hBand
      hChip (7 / 5) (1 / 10) (1 / 5)
    rw [hHeld] at hTransform
    refine ⟨plain, cached, hPlain, hCached, hTransform ?_⟩
    intro position hAnswer k
    -- three fifths of a turn away from the reference: no number of half turns
    have hAnswered : (wrappedMoon (targetAt 0 0 chip .nominal 1)).toOption.map Position.ra =
        some (2 / 5) := by
      cases hBand
      cases hChip
      decide +kernel
    rw [hAnswer] at hAnswered
    have hAnswerRa : position.ra = 2 / 5 := Option.some.inj hAnswered
    have hTurn : (turn : ℚ) = 1 := rfl
    rw [hRa, hAnswerRa, hTurn]
    intro hHalfTurns
    have hCast : (10 * k + 5 : ℚ) = 6 := by linear_combination -10 * hHalfTurns
    have hInt : 10 * k + 5 = 6 := by exact_mod_cast hCast
    omega
  · obtain ⟨plain, hPlain⟩ : ∃ plain,
        create fourLines settingMoon 0 0 .nominal 1 false = .ok plain :=
      Failure.exists_eq_ok_of_isOk (by decide +kernel)
    have hReserve : reserve (α := ℚ) band.lineCount 8 = .ok () := by
      rw [hLines]
      rfl
    have hFirst := (create_cached_and_transform_agree.1 hPlain hBand hChip hReserve).2 3
      (by omega) (.moonEphemeris 3)
    apply hFirst
    · intro earlier hEarlier
      apply Failure.exists_eq_ok_of_isOk
      cases hBand
      cases hChip
      interval_cases earlier <;> decide +kernel
    · rfl

end Projection
end Moon
end Pushbroom
