import Pushbroom.Moon.Projection
import Pushbroom.Proofs.Failure
import Pushbroom.Proofs.Moon.Unwrap

namespace Pushbroom
namespace Moon

/-!
# The Moon kept line by line

A cache is built by asking for the Moon at every line and unwrapping each right ascension
against the one before.  The two can be taken apart: all answers first, then one pass over
them.  That pass changes right ascensions only, and those only by whole turns.

The right ascensions kept step by half a turn at most.  When those answered belong to a
motion of less than half a turn a line, the motion is what is kept.
-/

namespace Projection

section Answers

variable {α : Type} [Scalar α] [Elementary α]

/-- The place that the Moon is looked at from at a line: the middle detector of a chip. -/
def targetAt (bandIndex chipIndex : Nat) (chip : Chip α) (kind : DetectorKind) (line : α) :
    Location α :=
  ⟨bandIndex, chipIndex, line, ((chip.detectorCount / 2 : Nat) : α), kind⟩

/-- Positions with their right ascensions unwrapped, the first one against `previous` and
every other one against the one before. -/
def unwrapFrom (previous : α) : List (Position α) → List (Position α)
  | [] => []
  | position :: rest =>
    let ra := unwrap position.ra previous
    { position with ra } :: unwrapFrom ra rest

/-- The answers of a source at `count` lines from `line` on. -/
def answers (projection : Projection α) (source : Location α → Except (Error α) (Position α))
    (line count : Nat) : Except (Error α) (List (Position α)) :=
  (List.range' line count).mapM fun (k : Nat) => projection.lookup source (k : α)

theorem extendCache_eq (projection : Projection α)
    (source : Location α → Except (Error α) (Position α)) (cache : LineCache α)
    (previous : α) (line count : Nat) :
    projection.extendCache source cache previous line count =
      projection.answers source line count >>= fun raw =>
        .ok (cache ++ (unwrapFrom previous raw).toArray) := by
  -- over the lines left, whatever has been kept and from whichever line on
  induction count generalizing cache previous line with
  | zero => simp [extendCache, answers, unwrapFrom, pure, Except.pure, bind, Except.bind]
  | succ count ih =>
      rw [answers, List.range'_succ, List.mapM_cons]
      unfold extendCache
      cases projection.lookup source (line : α) with
      | error error => rfl
      | ok position =>
          change projection.extendCache source _ _ (line + 1) count = _
          rw [ih, answers]
          cases (List.range' (line + 1) count).mapM fun (k : Nat) =>
              projection.lookup source (k : α) with
          | error error => rfl
          | ok raw => simp [bind, Except.bind, pure, Except.pure, unwrapFrom]

/-- A cache is the unwrapped answers of all lines, when it fits into memory. -/
theorem buildCache_eq_ok [Memory] {projection : Projection α}
    {source : Location α → Except (Error α) (Position α)} {lines : Nat} {cache : LineCache α} :
    projection.buildCache source lines = .ok cache ↔
      reserve (α := α) lines 8 = .ok () ∧ ∃ raw, projection.answers source 0 lines = .ok raw ∧
        cache = (unwrapFrom projection.reference.ra raw).toArray := by
  simp only [buildCache, Failure.ofExcept_eq, extendCache_eq, Failure.bind_eq_ok]
  constructor
  · rintro ⟨_, hReserve, raw, hRaw, hCache⟩
    cases hCache
    exact ⟨hReserve, raw, hRaw, by simp⟩
  · rintro ⟨hReserve, raw, hRaw, rfl⟩
    exact ⟨(), hReserve, raw, hRaw, by simp⟩

/-! ## Creation -/

variable {imager : Imager α} {source : Location α → Except (Error α) (Position α)}
  {bandIndex chipIndex : Nat} {kind : DetectorKind} {unitScale : α}

/-- A projection with a cache is the one without, to which the cache is added. -/
theorem create_cached_eq [Memory] :
    create imager source bandIndex chipIndex kind unitScale true = (do
      let plain ← create imager source bandIndex chipIndex kind unitScale false
      let band ← imager.band bandIndex
      let cache ← plain.buildCache source band.lineCount
      return { plain with cache? := some cache }) := by
  simp only [create, Failure.ofExcept_eq]
  cases imager.band bandIndex with
  | error error => rfl
  | ok band =>
      simp only [Failure.ok_bind]
      cases band.chip chipIndex with
      | error error => rfl
      | ok chip =>
          simp only [Failure.ok_bind]
          cases referenceLocation imager kind with
          | error error => rfl
          | ok location =>
              simp only [Failure.ok_bind]
              cases source location with
              | error error => rfl
              | ok reference => rfl

/-- A projection without a cache asks the source wherever it looks. -/
theorem create_plain_cases [Memory] {plain : Projection α}
    (hPlain : create imager source bandIndex chipIndex kind unitScale false = .ok plain) :
    ∃ band chip, imager.band bandIndex = .ok band ∧ band.chip chipIndex = .ok chip ∧
      plain.cache? = none ∧ ∀ line, plain.lookup source line =
        source (targetAt bandIndex chipIndex chip kind line) := by
  simp only [create, Failure.ofExcept_eq] at hPlain
  obtain ⟨band, hBand, hRest⟩ := Failure.bind_eq_ok.mp hPlain
  obtain ⟨chip, hChip, hRest⟩ := Failure.bind_eq_ok.mp hRest
  obtain ⟨location, _, hRest⟩ := Failure.bind_eq_ok.mp hRest
  obtain ⟨reference, _, hRest⟩ := Failure.bind_eq_ok.mp hRest
  cases hRest
  exact ⟨band, chip, hBand, hChip, rfl, fun _ => rfl⟩

end Answers

/-! ## Right ascensions -/

open Elementary (turn)

variable {K : Type} [Field K] [LinearOrder K] [FloorRing K] [IsStrictOrderedRing K]
  [Elementary K]

/-- Two right ascensions that differ by whole turns. -/
def SameDirection (left right : K) : Prop :=
  ∃ n : ℤ, left = right + n * turn

/-- The position kept for an answer: only the right ascension may differ. -/
structure KeptFor (answer kept : Position K) : Prop where
  ra : SameDirection kept.ra answer.ra
  dec : kept.dec = answer.dec
  distance : kept.distance = answer.distance

/-- The positions kept for the answers at successive lines.  Their right ascensions do not
step by more than half a turn, from the reference on, and a motion in smaller steps is kept
exactly, however its answers were wrapped. -/
structure Unwraps (reference : K) (raw kept : List (Position K)) : Prop where
  answers : List.Forall₂ KeptFor raw kept
  steps : List.IsChain (fun before after => |after - before| ≤ turn / 2)
    (reference :: kept.map Position.ra)
  motion : ∀ motion : List K,
    List.IsChain (fun before after => |after - before| < turn / 2) (reference :: motion) →
    List.Forall₂ (fun answer actual => SameDirection answer.ra actual) raw motion →
    kept.map Position.ra = motion

theorem keptFor_unwrapFrom (hTurn : 0 < (turn : K)) (previous : K) (raw : List (Position K)) :
    List.Forall₂ KeptFor raw (unwrapFrom previous raw) := by
  induction raw generalizing previous with
  | nil => exact List.Forall₂.nil
  | cons position rest ih =>
      have hKept : KeptFor position { position with ra := unwrap position.ra previous } :=
        ⟨exists_unwrap_eq_add_turns hTurn position.ra previous, rfl, rfl⟩
      exact List.Forall₂.cons hKept (ih _)

theorem isChain_unwrapFrom (hTurn : 0 < (turn : K)) (previous : K)
    (raw : List (Position K)) :
    List.IsChain (fun before after => |after - before| ≤ turn / 2)
      (previous :: (unwrapFrom previous raw).map Position.ra) := by
  induction raw generalizing previous with
  | nil => exact List.IsChain.singleton previous
  | cons position rest ih =>
      have hStep := abs_unwrap_sub_le hTurn position.ra previous
      exact List.IsChain.cons_cons hStep (ih _)

theorem map_ra_unwrapFrom (hTurn : 0 < (turn : K)) {previous : K} {raw : List (Position K)}
    {motion : List K}
    (hSteps : List.IsChain (fun before after => |after - before| < turn / 2)
      (previous :: motion))
    (hMotion : List.Forall₂ (fun answer actual => SameDirection answer.ra actual) raw motion) :
    (unwrapFrom previous raw).map Position.ra = motion := by
  -- the right ascension found for one line is the reference of the next
  induction hMotion generalizing previous with
  | nil => rfl
  | cons hTurns _ ih =>
      obtain ⟨n, hTurns⟩ := hTurns
      obtain ⟨hStep, hRest⟩ := List.isChain_cons_cons.mp hSteps
      have hRa := unwrap_eq_of_near hTurn hTurns hStep
      simp only [unwrapFrom, List.map_cons, hRa]
      rw [ih hRest]

theorem unwraps_unwrapFrom (hTurn : 0 < (turn : K)) (reference : K)
    (raw : List (Position K)) : Unwraps reference raw (unwrapFrom reference raw) where
  answers := keptFor_unwrapFrom hTurn reference raw
  steps := isChain_unwrapFrom hTurn reference raw
  motion := fun _ hSteps hMotion => map_ra_unwrapFrom hTurn hSteps hMotion

section Creation

variable {imager : Imager K} {source : Location K → Except (Error K) (Position K)}
  {bandIndex chipIndex : Nat} {kind : DetectorKind} {unitScale : K}

/-- A projection with a cache differs from the one without by the cache alone, and that
unwraps the answers of the source at the lines of the target band. -/
theorem create_cached_cases [Memory] (hTurn : 0 < (turn : K)) {projection : Projection K}
    (hCreate : create imager source bandIndex chipIndex kind unitScale true = .ok projection) :
    ∃ plain band chip cache raw,
      create imager source bandIndex chipIndex kind unitScale false = .ok plain ∧
      imager.band bandIndex = .ok band ∧ band.chip chipIndex = .ok chip ∧
      projection = { plain with cache? := some cache } ∧ raw.length = band.lineCount ∧
      (∀ (line : Nat) (hLine : line < raw.length),
        source (targetAt bandIndex chipIndex chip kind (line : K)) = .ok raw[line]) ∧
      Unwraps plain.reference.ra raw cache.toList := by
  rw [create_cached_eq] at hCreate
  obtain ⟨plain, hPlain, hRest⟩ := Failure.bind_eq_ok.mp hCreate
  obtain ⟨band, hBand, hRest⟩ := Failure.bind_eq_ok.mp hRest
  obtain ⟨cache, hCache, hRest⟩ := Failure.bind_eq_ok.mp hRest
  cases hRest
  obtain ⟨_, raw, hRaw, rfl⟩ := buildCache_eq_ok.mp hCache
  obtain ⟨_, chip, hSame, hChip, _, hLookup⟩ := create_plain_cases hPlain
  rw [hBand] at hSame
  cases hSame
  have hAnswers := Failure.forall₂_of_mapM_eq_ok hRaw
  have hLength : raw.length = band.lineCount := by
    rw [← hAnswers.length_eq, List.length_range']
  refine ⟨plain, band, chip, _, raw, hPlain, hBand, hChip, rfl, hLength, ?_,
    unwraps_unwrapFrom hTurn plain.reference.ra raw⟩
  intro line hLine
  have hAnswer := hAnswers.get (by simpa [hLength] using hLine) hLine
  simpa [hLookup] using hAnswer

/-- The cache of a projection holds one position for each line of the target band.  These
are the answers of the source, unwrapped from the reference on. -/
theorem cache_unwraps_answers [Memory] (hTurn : 0 < (turn : K)) {projection : Projection K}
    (hCreate : create imager source bandIndex chipIndex kind unitScale true = .ok projection) :
    ∃ band chip cache raw, imager.band bandIndex = .ok band ∧ band.chip chipIndex = .ok chip ∧
      projection.cache? = some cache ∧ cache.size = band.lineCount ∧
      raw.length = band.lineCount ∧
      (∀ (line : Nat) (hLine : line < raw.length),
        source (targetAt bandIndex chipIndex chip kind (line : K)) = .ok raw[line]) ∧
      Unwraps projection.reference.ra raw cache.toList := by
  obtain ⟨plain, band, chip, cache, raw, _, hBand, hChip, rfl, hLength, hAnswers, hUnwraps⟩ :=
    create_cached_cases hTurn hCreate
  refine ⟨band, chip, cache, raw, hBand, hChip, rfl, ?_, hLength, hAnswers, hUnwraps⟩
  rw [← hLength, hUnwraps.answers.length_eq, Array.length_toList]

end Creation

/-! ## A short acquisition -/

/-- A model of one band, whose chip of three detectors has acquired four lines. -/
def fourLines : Imager ℚ where
  satellite := .landsat8
  number := 8
  earth := EarthConstants.wgs84
  oli := SensorTiming.initial .oli true
  tirs := SensorTiming.initial .tirs false
  bands := #[{
    number := 1, index := 0, sensor := .oli, present := true, frameCount := 4
    sampling := Sampling.unknown
    chips := #[⟨#[0, 0, 0], #[0, 0, 0], #[0, 0, 0], [], []⟩] }]
  attitude := Attitude.Sequence.empty Epoch.default 0
  trajectory := ⟨Epoch.default, 0, #[]⟩

/-- A Moon that moves by two fifths of a turn a line, answered within half a turn of zero. -/
def wrappedMoon (location : Location ℚ) : Except (Error ℚ) (Position ℚ) :=
  let ra := 2 / 5 * location.line
  .ok ⟨ra - ⌊ra + 1 / 2⌋, location.line / 100, 380 + location.line⟩

theorem cache_unwraps_answers_fourLines :
    ∃ projection, create fourLines wrappedMoon 0 0 .nominal 1 true = .ok projection ∧
      ∃ band chip cache raw, fourLines.band 0 = .ok band ∧ band.chip 0 = .ok chip ∧
        projection.cache? = some cache ∧ cache.size = band.lineCount ∧
        raw.length = band.lineCount ∧
        (∀ (line : Nat) (hLine : line < raw.length),
          wrappedMoon (targetAt 0 0 chip .nominal (line : ℚ)) = .ok raw[line]) ∧
        Unwraps projection.reference.ra raw cache.toList := by
  have hTurn : 0 < (turn : ℚ) := by decide +kernel
  have hOk : (create fourLines wrappedMoon 0 0 .nominal 1 true).isOk = true := by
    decide +kernel
  obtain ⟨projection, hCreate⟩ := Failure.exists_eq_ok_of_isOk hOk
  exact ⟨projection, hCreate, cache_unwraps_answers hTurn hCreate⟩

end Projection
end Moon
end Pushbroom
