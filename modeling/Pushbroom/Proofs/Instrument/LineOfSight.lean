import Pushbroom.Instrument.Chip
import Pushbroom.Proofs.EvenTimes
import Pushbroom.Proofs.Failure
import Pushbroom.Proofs.Geometry.Norm
import Pushbroom.Proofs.Polynomial.Legendre

namespace Pushbroom
namespace Chip

/-!
# Lines of sight

A detector of a chip has a line of sight when its position lies among several detectors and the
tables have the offsets that are asked for; nothing else can go wrong, and no table is read past its
end.  The line of sight is a vector of length one, forward, whose slopes are those of the two
Legendre series and of the offsets.  The interpolated offsets go through the tabulated ones without
a jump.
-/

section Offsets

variable {K : Type}

/-- Both tables have an offset of a detector. -/
def Tabulates (chip : Chip K) (detector : ℕ) : Prop :=
  detector < chip.alongOffsets.size ∧ detector < chip.acrossOffsets.size

theorem offsets?_of_tabulates [Zero K] {chip : Chip K} {detector : ℕ}
    (hTabulates : chip.Tabulates detector) :
    chip.offsets? detector =
      some (chip.alongOffsets.getD detector 0, chip.acrossOffsets.getD detector 0) := by
  simp [offsets?, hTabulates.1, hTabulates.2]

theorem offsets?_of_lacks {chip : Chip K} {detector : ℕ} (hLacks : ¬chip.Tabulates detector) :
    chip.offsets? detector = none := by
  rw [Tabulates, not_and_or, not_lt, not_lt] at hLacks
  rcases hLacks with hAlong | hAcross
  · simp [offsets?, hAlong]
  · simp [offsets?, hAcross]

variable [Field K] [LinearOrder K] [FloorRing K]

/-- The tables have the offsets that a position needs: none at all, those of the nearest detector,
or those of the detectors before and after it, the last detector being followed by itself. -/
def HasOffsets (chip : Chip K) (position : K) : DetectorKind → Prop
  | .nominal => True
  | .actual => chip.Tabulates (round position).toNat
  | .exact => chip.Tabulates ⌊position⌋₊ ∧
      chip.Tabulates (min (⌊position⌋₊ + 1) (chip.detectorCount - 1))

/-- The offset at a position, from a table of which the detectors up to `last` count. -/
def offsetIn (table : Array K) (last : ℕ) (position : K) : DetectorKind → K
  | .nominal => 0
  | .actual => table.getD (round position).toNat 0
  | .exact => table.getD ⌊position⌋₊ 0 * (1 - (position - ⌊position⌋₊)) +
      table.getD (min (⌊position⌋₊ + 1) last) 0 * (position - ⌊position⌋₊)

theorem toPosition_eq_floor (position : K) : Scalar.toPosition position = ⌊position⌋₊ :=
  Int.floor_toNat position

variable [IsStrictOrderedRing K] {chip : Chip K} {position : K} {kind : DetectorKind}

theorem toPosition_round (hNonneg : 0 ≤ position) :
    Scalar.toPosition (Scalar.round position) = (round position).toNat := by
  rw [round_eq_roundAway, Scalar.toPosition_intCast, roundAway, if_neg hNonneg.not_gt]

theorem offsetsAt?_of_has (hNonneg : 0 ≤ position) (hOffsets : chip.HasOffsets position kind) :
    chip.offsetsAt? position kind =
      some (offsetIn chip.alongOffsets (chip.detectorCount - 1) position kind,
        offsetIn chip.acrossOffsets (chip.detectorCount - 1) position kind) := by
  cases kind with
  | nominal => rfl
  | actual => rw [offsetsAt?, toPosition_round hNonneg, offsets?_of_tabulates hOffsets]; rfl
  | exact =>
      obtain ⟨hLower, hUpper⟩ := hOffsets
      simp only [offsetsAt?, offsetsBetween?, toPosition_eq_floor, offsets?_of_tabulates hLower,
        offsets?_of_tabulates hUpper]
      rfl

theorem offsetsAt?_of_lacks (hNonneg : 0 ≤ position) (hLacks : ¬chip.HasOffsets position kind) :
    chip.offsetsAt? position kind = none := by
  cases kind with
  | nominal => exact absurd trivial hLacks
  | actual => rw [offsetsAt?, toPosition_round hNonneg, offsets?_of_lacks hLacks]
  | exact =>
      simp only [offsetsAt?, offsetsBetween?, toPosition_eq_floor]
      by_cases hLower : chip.Tabulates ⌊position⌋₊
      · have hUpper := fun hUpper => hLacks ⟨hLower, hUpper⟩
        rw [offsets?_of_tabulates hLower, offsets?_of_lacks hUpper]
        rfl
      · rw [offsets?_of_lacks hLower]
        rfl

/-- With tables of one length there are offsets everywhere on the chip. -/
theorem hasOffsets_of_size_eq (hSize : chip.alongOffsets.size = chip.acrossOffsets.size)
    (hSeveral : 2 ≤ chip.detectorCount) (hNonneg : 0 ≤ position)
    (hInside : position ≤ ((chip.detectorCount - 1 : ℕ) : K)) : chip.HasOffsets position kind := by
  have hTabulates {detector : ℕ} (hIndex : detector ≤ chip.detectorCount - 1) :
      chip.Tabulates detector := by
    have hAlong : detector < chip.alongOffsets.size := by
      rw [detectorCount] at hIndex hSeveral
      omega
    exact ⟨hAlong, hSize ▸ hAlong⟩
  have hFloor : ⌊position⌋₊ ≤ chip.detectorCount - 1 := Nat.floor_le_of_le hInside
  have hNearest : (round position).toNat ≤ chip.detectorCount - 1 := by
    rw [round_eq, Int.floor_toNat]
    refine Nat.lt_succ_iff.mp ((Nat.floor_lt (by positivity)).mpr ?_)
    push_cast
    linarith [one_half_lt_one (α := K)]
  cases kind with
  | nominal => trivial
  | actual => exact hTabulates hNearest
  | exact => exact ⟨hTabulates hFloor, hTabulates (min_le_right _ _)⟩

/-- A detector is the one nearest to itself. -/
theorem offsetIn_actual_natCast (table : Array K) (last detector : ℕ) :
    offsetIn table last (detector : K) .actual = table.getD detector 0 := by
  rw [offsetIn, round_natCast, Int.toNat_natCast]

/-- At a detector nothing is interpolated. -/
theorem offsetIn_exact_natCast (table : Array K) (last detector : ℕ) :
    offsetIn table last (detector : K) .exact = table.getD detector 0 := by
  simp only [offsetIn, Nat.floor_natCast, sub_self, sub_zero, mul_one, mul_zero, add_zero]

omit [IsStrictOrderedRing K] in
theorem offsetIn_of_zero {table : Array K} (hZero : ∀ offset ∈ table, offset = 0) (last : ℕ)
    (position : K) (kind : DetectorKind) : offsetIn table last position kind = 0 := by
  have hEntry (detector : ℕ) : table.getD detector 0 = 0 := by
    rw [Array.getD]
    split
    · exact hZero _ (Array.getElem_mem _)
    · rfl
  cases kind <;> simp [offsetIn, hEntry]

/-- Interpolated offsets do not jump, neither between two detectors nor at one. -/
theorem continuousOn_offsetIn [TopologicalSpace K] [OrderTopology K] (table : Array K) (last : ℕ) :
    ContinuousOn (fun position => offsetIn table last position .exact)
      (Set.Icc 0 (last : K)) := by
  have hPieces : ∀ i < last, ContinuousOn (fun position => offsetIn table last position .exact)
      (Set.Icc (0 + (i : K) * 1) (0 + ((i + 1 : ℕ) : K) * 1)) := by
    intro i hIndex
    have hLine : Continuous fun position : K =>
        table.getD i 0 * (1 - (position - i)) + table.getD (i + 1) 0 * (position - i) := by
      fun_prop
    refine hLine.continuousOn.congr fun position hPosition => ?_
    simp only [zero_add, mul_one] at hPosition
    rcases hPosition.2.lt_or_eq with hBefore | rfl
    · have hFloor : ⌊position⌋₊ = i := by
        rw [Nat.floor_eq_iff ((Nat.cast_nonneg i).trans hPosition.1)]
        exact_mod_cast And.intro hPosition.1 hBefore
      simp only [offsetIn, hFloor]
      rw [min_eq_left (Nat.succ_le_of_lt hIndex)]
    · rw [offsetIn_exact_natCast]
      push_cast
      ring
  simpa using continuousOn_of_pieces one_pos hPieces

end Offsets

/-! ## Slopes -/

section Slopes

variable {K : Type} [Field K] [LinearOrder K] [FloorRing K]

/-- A position scaled to the interval that the Legendre series are taken over. -/
def scaledPosition (chip : Chip K) (position : K) : K :=
  (position + position - ((chip.detectorCount - 1 : ℕ) : K)) / ((chip.detectorCount - 1 : ℕ) : K)

/-- The slope that one of the series and one of the tables give for detectors of a field of view. -/
def slope (chip : Chip K) (series : List K) (table : Array K) (view position : K)
    (kind : DetectorKind) : K :=
  ∑ k ∈ Finset.range series.length,
      series.getD k 0 * Series.legendrePolynomial k (chip.scaledPosition position) +
    offsetIn table (chip.detectorCount - 1) position kind * view

/-- A position has a line of sight: it lies among several detectors, with the offsets it needs. -/
def Sees (chip : Chip K) (position : K) (kind : DetectorKind) : Prop :=
  2 ≤ chip.detectorCount ∧ (0 ≤ position ∧ position ≤ ((chip.detectorCount - 1 : ℕ) : K)) ∧
    chip.HasOffsets position kind

variable [IsStrictOrderedRing K] {chip : Chip K} {position : K} {kind : DetectorKind}

theorem slopes_of_sees (hSees : chip.Sees position kind) (sampling : Sampling K) :
    chip.slopes position kind sampling =
      .ok (chip.slope chip.alongSeries chip.alongOffsets sampling.alongView position kind,
        chip.slope chip.acrossSeries chip.acrossOffsets sampling.acrossView position kind) := by
  obtain ⟨hSeveral, hInside, hOffsets⟩ := hSees
  have hPasses : ¬(chip.detectorCount < 2 ∨
      ¬(0 ≤ position ∧ position ≤ ((chip.detectorCount - 1 : ℕ) : K))) :=
    not_or.mpr ⟨Nat.not_lt.mpr hSeveral, not_not.mpr hInside⟩
  have hTwice : (2.0 : K) * position = position + position := by
    norm_num
    ring
  simp only [slopes, if_neg hPasses, offsetsAt?_of_has hInside.1 hOffsets,
    Series.legendre_eq_sum, hTwice]
  rfl

theorem slopes_of_not_sees (hBlind : ¬chip.Sees position kind) (sampling : Sampling K) :
    chip.slopes position kind sampling = .error (.detector position) := by
  unfold slopes
  dsimp only
  split
  · rfl
  · rename_i hPasses
    obtain ⟨hSeveral, hInside⟩ := not_or.mp hPasses
    have hInside := not_not.mp hInside
    have hLacks : ¬chip.HasOffsets position kind := fun hOffsets =>
      hBlind ⟨Nat.not_lt.mp hSeveral, hInside, hOffsets⟩
    rw [offsetsAt?_of_lacks hInside.1 hLacks]

theorem abs_scaledPosition_le (hSees : chip.Sees position kind) :
    |chip.scaledPosition position| ≤ 1 := by
  obtain ⟨hSeveral, ⟨hLow, hHigh⟩, -⟩ := hSees
  have hLast : (0 : K) < ((chip.detectorCount - 1 : ℕ) : K) := by
    exact_mod_cast Nat.sub_pos_of_lt hSeveral
  rw [scaledPosition, abs_div, abs_of_pos hLast, div_le_one hLast, abs_le]
  constructor <;> linarith

end Slopes

/-! ## Lines of sight -/

section Pointing

variable (along across : ℝ)

theorem pointing_ne_zero : (⟨along, across, 1⟩ : Vec3 ℝ) ≠ 0 := fun hZero =>
  one_ne_zero (congrArg Vec3.z hZero)

/-- A direction of given slopes has these slopes. -/
theorem normalize_pointing :
    let sight := Vec3.normalize (⟨along, across, 1⟩ : Vec3 ℝ)
    sight.norm = 1 ∧ 0 < sight.z ∧ sight.x / sight.z = along ∧ sight.y / sight.z = across := by
  have hNorm := Vec3.norm_pos_iff.mpr (pointing_ne_zero along across)
  refine ⟨Vec3.norm_normalize (pointing_ne_zero along across), one_div_pos.mpr hNorm, ?_, ?_⟩
  · exact (div_div_div_cancel_right₀ hNorm.ne' _ _).trans (div_one along)
  · exact (div_div_div_cancel_right₀ hNorm.ne' _ _).trans (div_one across)

end Pointing

variable {chip : Chip ℝ} {position : ℝ} {kind : DetectorKind} {sampling : Sampling ℝ}

theorem lineOfSight_of_sees (hSees : chip.Sees position kind) (sampling : Sampling ℝ) :
    chip.lineOfSight position kind sampling =
      .ok (Vec3.normalize
        ⟨chip.slope chip.alongSeries chip.alongOffsets sampling.alongView position kind,
          chip.slope chip.acrossSeries chip.acrossOffsets sampling.acrossView position kind,
          1⟩) := by
  rw [lineOfSight, slopes_of_sees hSees]
  rfl

theorem lineOfSight_of_not_sees (hBlind : ¬chip.Sees position kind) (sampling : Sampling ℝ) :
    chip.lineOfSight position kind sampling = .error (.detector position) := by
  rw [lineOfSight, slopes_of_not_sees hBlind]
  rfl

theorem exists_lineOfSight_iff : (∃ sight, chip.lineOfSight position kind sampling = .ok sight) ↔
    chip.Sees position kind := by
  constructor
  · rintro ⟨sight, hOk⟩
    by_contra hBlind
    rw [lineOfSight_of_not_sees hBlind] at hOk
    cases hOk
  · intro hSees
    exact ⟨_, lineOfSight_of_sees hSees sampling⟩

/-- The line of sight depends on the kind of a detector through the offsets alone, where the tables
are of one length. -/
theorem lineOfSight_congr (hSize : chip.alongOffsets.size = chip.acrossOffsets.size)
    {other : DetectorKind}
    (hAlong : offsetIn chip.alongOffsets (chip.detectorCount - 1) position kind =
      offsetIn chip.alongOffsets (chip.detectorCount - 1) position other)
    (hAcross : offsetIn chip.acrossOffsets (chip.detectorCount - 1) position kind =
      offsetIn chip.acrossOffsets (chip.detectorCount - 1) position other)
    (sampling : Sampling ℝ) :
    chip.lineOfSight position kind sampling = chip.lineOfSight position other sampling := by
  have hSees {kind other : DetectorKind} (hSees : chip.Sees position kind) :
      chip.Sees position other :=
    ⟨hSees.1, hSees.2.1, hasOffsets_of_size_eq hSize hSees.1 hSees.2.1.1 hSees.2.1.2⟩
  by_cases hKind : chip.Sees position kind
  · rw [lineOfSight_of_sees hKind, lineOfSight_of_sees (hSees hKind), slope, slope, hAlong,
      hAcross]
    rfl
  · rw [lineOfSight_of_not_sees hKind, lineOfSight_of_not_sees fun hOther => hKind (hSees hOther)]

theorem facts_of_lineOfSight {sight : Vec3 ℝ}
    (hOk : chip.lineOfSight position kind sampling = .ok sight) :
    sight.norm = 1 ∧ 0 < sight.z ∧ |chip.scaledPosition position| ≤ 1 ∧
    sight.x / sight.z =
      chip.slope chip.alongSeries chip.alongOffsets sampling.alongView position kind ∧
    sight.y / sight.z =
      chip.slope chip.acrossSeries chip.acrossOffsets sampling.acrossView position kind := by
  have hSees := exists_lineOfSight_iff.mp ⟨sight, hOk⟩
  obtain rfl := Except.ok.inj ((lineOfSight_of_sees hSees sampling).symm.trans hOk)
  obtain ⟨hNorm, hForward, hAlong, hAcross⟩ := normalize_pointing
    (chip.slope chip.alongSeries chip.alongOffsets sampling.alongView position kind)
    (chip.slope chip.acrossSeries chip.acrossOffsets sampling.acrossView position kind)
  exact ⟨hNorm, hForward, abs_scaledPosition_le hSees, hAlong, hAcross⟩

/-- At a whole position there is a detector, or there is no line of sight of any kind. -/
theorem lineOfSight_actual_eq_exact (hSize : chip.alongOffsets.size = chip.acrossOffsets.size)
    (detector : ℤ) (sampling : Sampling ℝ) :
    chip.lineOfSight (detector : ℝ) .actual sampling =
      chip.lineOfSight (detector : ℝ) .exact sampling := by
  rcases le_or_gt 0 detector with hNonneg | hNegative
  · obtain ⟨index, rfl⟩ := Int.eq_ofNat_of_zero_le hNonneg
    rw [Int.cast_natCast]
    apply lineOfSight_congr hSize <;> rw [offsetIn_actual_natCast, offsetIn_exact_natCast]
  · have hBlind (kind : DetectorKind) : ¬chip.Sees (detector : ℝ) kind := fun hSees =>
      absurd (Int.cast_nonneg_iff.mp hSees.2.1.1) (not_le.mpr hNegative)
    rw [lineOfSight_of_not_sees (hBlind _), lineOfSight_of_not_sees (hBlind _)]

theorem continuousOn_slope (chip : Chip ℝ) (series : List ℝ) (table : Array ℝ) (view : ℝ) :
    ContinuousOn (fun position => chip.slope series table view position .exact)
      (Set.Icc 0 ((chip.detectorCount - 1 : ℕ) : ℝ)) := by
  have hSeries : Continuous fun position => ∑ k ∈ Finset.range series.length,
      series.getD k 0 * Series.legendrePolynomial k (chip.scaledPosition position) := by
    unfold scaledPosition Series.legendrePolynomial
    fun_prop
  exact hSeries.continuousOn.add ((continuousOn_offsetIn table _).mul continuousOn_const)

/-- There is a line of sight at the positions among several detectors whose offsets are tabulated,
and no other failure than that of a position without one.  It is a forward vector of length one,
whose slopes are the sums of a Legendre series, over positions scaled to magnitude one, and of an
offset in fields of view.  Interpolated offsets leave the slopes without a jump; with tables of one
length they are those of the nearest detector at every detector, and offsets that are zero leave
all kinds the same. -/
theorem lineOfSight_points (chip : Chip ℝ) (sampling : Sampling ℝ) :
    (∀ position kind, (∃ sight, chip.lineOfSight position kind sampling = .ok sight) ↔
      chip.Sees position kind) ∧
    (∀ position kind error, chip.lineOfSight position kind sampling = .error error →
      error = .detector position) ∧
    (∀ position kind sight, chip.lineOfSight position kind sampling = .ok sight →
      sight.norm = 1 ∧ 0 < sight.z ∧ |chip.scaledPosition position| ≤ 1 ∧
      sight.x / sight.z =
        chip.slope chip.alongSeries chip.alongOffsets sampling.alongView position kind ∧
      sight.y / sight.z =
        chip.slope chip.acrossSeries chip.acrossOffsets sampling.acrossView position kind) ∧
    (∃ slopes : ℝ → ℝ × ℝ,
      ContinuousOn slopes (Set.Icc 0 ((chip.detectorCount - 1 : ℕ) : ℝ)) ∧
      ∀ position sight, chip.lineOfSight position .exact sampling = .ok sight →
        (sight.x / sight.z, sight.y / sight.z) = slopes position) ∧
    (chip.alongOffsets.size = chip.acrossOffsets.size →
      (∀ detector : ℤ, chip.lineOfSight (detector : ℝ) .actual sampling =
        chip.lineOfSight (detector : ℝ) .exact sampling) ∧
      ((∀ offset ∈ chip.alongOffsets, offset = 0) → (∀ offset ∈ chip.acrossOffsets, offset = 0) →
        ∀ position kind, chip.lineOfSight position kind sampling =
          chip.lineOfSight position .nominal sampling)) := by
  refine ⟨fun _ _ => exists_lineOfSight_iff, ?_, fun _ _ _ => facts_of_lineOfSight, ?_, ?_⟩
  · intro position kind error hFails
    by_cases hSees : chip.Sees position kind
    · rw [lineOfSight_of_sees hSees] at hFails
      cases hFails
    · rw [lineOfSight_of_not_sees hSees] at hFails
      exact (Except.error.inj hFails).symm
  · refine ⟨fun position =>
        (chip.slope chip.alongSeries chip.alongOffsets sampling.alongView position .exact,
          chip.slope chip.acrossSeries chip.acrossOffsets sampling.acrossView position .exact),
      (chip.continuousOn_slope _ _ _).prodMk (chip.continuousOn_slope _ _ _), ?_⟩
    intro position sight hOk
    obtain ⟨-, -, -, hAlong, hAcross⟩ := facts_of_lineOfSight hOk
    rw [hAlong, hAcross]
  · intro hSize
    refine ⟨fun detector => lineOfSight_actual_eq_exact hSize detector sampling, ?_⟩
    intro hAlong hAcross position kind
    apply lineOfSight_congr hSize
    · rw [offsetIn_of_zero hAlong, offsetIn_of_zero hAlong]
    · rw [offsetIn_of_zero hAcross, offsetIn_of_zero hAcross]

/-- Three detectors that stand apart from the curve they follow. -/
noncomputable def staggered : Chip ℝ where
  rawOffsets := #[0, 0, 0]
  alongOffsets := #[1, -1, 0]
  acrossOffsets := #[0, -1, 1]
  alongSeries := [0, 1, 0, 0]
  acrossSeries := [1, 0, 0, 0]

/-- Two detectors on the curve they follow. -/
noncomputable def level : Chip ℝ where
  rawOffsets := #[0, 0]
  alongOffsets := #[0, 0]
  acrossOffsets := #[0, 0]
  alongSeries := [0, 1, 0, 0]
  acrossSeries := [1, 0, 0, 0]

/-- A field of view of one unit along and across the track. -/
noncomputable def wideView : Sampling ℝ :=
  { (Sampling.unknown : Sampling ℝ) with alongView := 1, acrossView := 1 }

theorem staggered_sees : staggered.Sees (1 / 2) .exact := by
  have hSeveral : 2 ≤ staggered.detectorCount := by simp [staggered, detectorCount]
  have hInside : (1 / 2 : ℝ) ≤ ((staggered.detectorCount - 1 : ℕ) : ℝ) := by
    norm_num [staggered, detectorCount]
  exact ⟨hSeveral, ⟨by positivity, hInside⟩,
    hasOffsets_of_size_eq rfl hSeveral (by positivity) hInside⟩

/-- Between two detectors, at one, and on a chip without offsets. -/
theorem lineOfSight_points_staggered_level :
    (∃ sight, staggered.lineOfSight (1 / 2) .exact wideView = .ok sight ∧ sight.norm = 1 ∧
      sight.x / sight.z = -1 / 2 ∧ sight.y / sight.z = 1 / 2) ∧
    staggered.lineOfSight ((1 : ℤ) : ℝ) .actual wideView =
      staggered.lineOfSight ((1 : ℤ) : ℝ) .exact wideView ∧
    ∀ position kind, level.lineOfSight position kind wideView =
      level.lineOfSight position .nominal wideView := by
  obtain ⟨hSucceeds, -, hFacts, -, hEqual⟩ := lineOfSight_points staggered wideView
  obtain ⟨-, -, -, -, hLevel⟩ := lineOfSight_points level wideView
  obtain ⟨sight, hOk⟩ := (hSucceeds _ _).mpr staggered_sees
  obtain ⟨hNorm, -, -, hAlong, hAcross⟩ := hFacts _ _ _ hOk
  have hFloor : ⌊(1 / 2 : ℝ)⌋₊ = 0 := Nat.floor_eq_zero.mpr one_half_lt_one
  refine ⟨⟨sight, hOk, hNorm, hAlong.trans ?_, hAcross.trans ?_⟩, (hEqual rfl).1 1,
    (hLevel rfl).2 (by simp [level]) (by simp [level])⟩
  · rw [slope, offsetIn, hFloor]
    norm_num [staggered, wideView, scaledPosition, detectorCount, Finset.sum_range_succ,
      Series.legendrePolynomial_zero, Series.legendrePolynomial_one]
  · rw [slope, offsetIn, hFloor]
    norm_num [staggered, wideView, scaledPosition, detectorCount, Finset.sum_range_succ,
      Series.legendrePolynomial_zero, Series.legendrePolynomial_one]

end Chip
end Pushbroom
