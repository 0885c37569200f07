import Pushbroom.Proofs.Scalar.Rounding

namespace Pushbroom
namespace Binary64

/-!
# Counting with doubles

The whole numbers below `2⁵³` are doubles, and so are their order and the next of each.  Beyond
that doubles skip whole numbers: a count becomes a double at or above `2⁵³`, perhaps an infinite
one, and stays there when one is added.  A comparison with a number below `2⁵³` therefore always
comes out as it does for whole numbers.
-/

open Float.Model (Format UnpackedFloat totalExponent)
open Float.Model.UnpackedFloat (Sign)

/-! ## Whole numbers as data -/

/-- What a positive whole number stands for that a mantissa can hold. -/
def whole (n : ℕ) (hPositive : 0 < n) : UnpackedFloat :=
  .finite .positive (n * 2 ^ (52 - n.log2)) (n.log2 - 52) (by positivity)

/-- Data at or above `2⁵³`. -/
inductive Large : UnpackedFloat → Prop where
  | infinity : Large (.infinity .positive)
  | finite {m : ℕ} {e : ℤ} (hFull : FullWidth m) (hLeast : 1 ≤ e) (hGreatest : e ≤ 971) :
      Large (.finite .positive m e hFull.pos)

/-- A datum stands for a whole number: for this number alone when it is below `2⁵³`, and only
for a large number otherwise. -/
inductive Counts : ℕ → UnpackedFloat → Prop where
  | zero : Counts 0 (.zero .positive)
  | whole {n : ℕ} (hPositive : 0 < n) (hSmall : n < 2 ^ 53) : Counts n (whole n hPositive)
  | large {n : ℕ} {u : UnpackedFloat} (hLarge : 2 ^ 53 ≤ n) (hDatum : Large u) : Counts n u

theorem log2_lt_of_small {n : ℕ} (hPositive : 0 < n) (hSmall : n < 2 ^ 53) : n.log2 < 53 :=
  (Nat.log2_lt hPositive.ne').mpr hSmall

theorem fullWidth_whole {n : ℕ} (hPositive : 0 < n) (hSmall : n < 2 ^ 53) :
    FullWidth (n * 2 ^ (52 - n.log2)) := by
  have hWidth := log2_lt_of_small hPositive hSmall
  have hPos : 0 < n * 2 ^ (52 - n.log2) := by positivity
  obtain ⟨hLow, hHigh⟩ := (Nat.log2_eq_iff hPos.ne').mp (log2_mul_two_pow hPositive _)
  have hSum : n.log2 + (52 - n.log2) = 52 := by omega
  rw [hSum] at hLow hHigh
  exact ⟨hLow, hHigh⟩

theorem stored_whole {n : ℕ} (hPositive : 0 < n) (hSmall : n < 2 ^ 53) :
    stored (whole n hPositive) = whole n hPositive := by
  have hWidth := log2_lt_of_small hPositive hSmall
  exact stored_finite (fullWidth_whole hPositive hSmall) (by omega) (by omega) _ _

theorem large_stored {m : ℕ} (hFull : FullWidth m) {e : ℤ} (hLeast : 1 ≤ e) :
    Large (stored (.finite .positive m e hFull.pos)) := by
  by_cases hGreatest : e ≤ 971
  · rw [stored_finite hFull (by omega) hGreatest]
    exact Large.finite hFull hLeast hGreatest
  · rw [stored_huge (by omega)]
    exact Large.infinity

theorem large_stored_round {m : ℕ} (hPositive : 0 < m) (hWide : 52 ≤ m.log2) {e : ℤ}
    (hLarge : 53 ≤ m.log2 + e) :
    Large (stored (UnpackedFloat.roundWithAccuracy .binary64 .positive m e .exact)) := by
  obtain ⟨m', e', hFull, hExponent, hRound⟩ :=
    roundWithAccuracy_wide hPositive hWide (e := e) (by omega) .positive
  rw [hRound]
  exact large_stored hFull (by omega)

/-- Rounding a whole number that is followed by enough zeros for a mantissa of full width. -/
theorem roundWithAccuracy_whole {n : ℕ} (hPositive : 0 < n) (hSmall : n < 2 ^ 53) {k : ℕ}
    (hZeros : 52 - n.log2 ≤ k) :
    UnpackedFloat.roundWithAccuracy .binary64 .positive (n * 2 ^ k) (-k) .exact =
      whole n hPositive := by
  have hWidth := log2_lt_of_small hPositive hSmall
  obtain ⟨zeros, rfl⟩ := Nat.exists_eq_add_of_le hZeros
  have hExact := roundWithAccuracy_exact (fullWidth_whole hPositive hSmall)
    (e := n.log2 - 52) (by omega) zeros .positive
  have hMantissa : n * 2 ^ (52 - n.log2) * 2 ^ zeros = n * 2 ^ (52 - n.log2 + zeros) := by ring
  have hExponent : (n.log2 : ℤ) - 52 - zeros = -((52 - n.log2 + zeros : ℕ) : ℤ) := by omega
  rw [hMantissa, hExponent] at hExact
  exact hExact

/-- Rounding a whole number that is followed by fifty-two zeros or more. -/
theorem counts_stored_round {n : ℕ} (hPositive : 0 < n) {k : ℕ} (hZeros : 52 ≤ k) :
    Counts n
      (stored (UnpackedFloat.roundWithAccuracy .binary64 .positive (n * 2 ^ k) (-k) .exact)) := by
  rcases Nat.lt_or_ge n (2 ^ 53) with hSmall | hLarge
  · rw [roundWithAccuracy_whole hPositive hSmall (by omega), stored_whole hPositive hSmall]
    exact Counts.whole hPositive hSmall
  · have hWidth : 53 ≤ n.log2 := (Nat.le_log2 hPositive.ne').mpr hLarge
    have hLog := log2_mul_two_pow hPositive k
    exact Counts.large hLarge (large_stored_round (by positivity) (by omega) (by omega))

/-! ## Conversion -/

theorem round_natCast {n : ℕ} (hPositive : 0 < n) (hSmall : n < 2 ^ 53) :
    UnpackedFloat.round .binary64 .positive n 0 = whole n hPositive := by
  have hWidth := log2_lt_of_small hPositive hSmall
  have hTarget : Format.binary64.targetExponent (totalExponent n 0) = -((52 - n.log2 : ℕ) : ℤ) := by
    rw [targetExponent_eq, totalExponent]
    omega
  have hShift : (0 - -((52 - n.log2 : ℕ) : ℤ)).toNat = 52 - n.log2 := by omega
  have hExponent : (0 : ℤ) - ((52 - n.log2 : ℕ) : ℤ) = -((52 - n.log2 : ℕ) : ℤ) := by omega
  simp only [UnpackedFloat.round, UnpackedFloat.decreaseExponent, hTarget, hShift, hExponent,
    Nat.shiftLeft_eq]
  exact roundWithAccuracy_whole hPositive hSmall le_rfl

theorem datum_toFloat {n : ℕ} (hPositive : 0 < n) (hSmall : n < 2 ^ 53) :
    datum n.toUInt64.toFloat = whole n hPositive := by
  have hNat : n.toUInt64.toNat = n := by
    rw [Nat.toUInt64, UInt64.toNat_ofNat']
    omega
  change stored (UnpackedFloat.normalize .binary64 n.toUInt64.toNat 0 .positive) = _
  rw [hNat, UnpackedFloat.normalize, Int.compare_eq_gt.mpr (by omega)]
  simp only [Int.toNat_natCast, round_natCast hPositive hSmall]
  exact stored_whole hPositive hSmall

theorem datum_one : datum 1 = .finite .positive (2 ^ 52) (-52) (by decide) :=
  rfl

/-- A number with few digits is multiplied by the power of ten of its exponent, here by one. -/
theorem counts_ofNat_small {n : ℕ} (hPositive : 0 < n) (hSmall : n < 2 ^ 53) :
    Counts n (datum (Float.ofNat n)) := by
  have hProduct : Float.ofNat n = n.toUInt64.toFloat * 1 := by
    change Float.ofScientific n false 0 = _
    rw [Float.ofScientific, dif_pos ⟨hSmall, by decide⟩]
    rfl
  have hWidth := log2_lt_of_small hPositive hSmall
  have hMantissa : n * 2 ^ (52 - n.log2) * 2 ^ 52 = n * 2 ^ (52 - n.log2 + 52) := by ring
  have hExponent : (n.log2 : ℤ) - 52 + -52 = -((52 - n.log2 + 52 : ℕ) : ℤ) := by omega
  rw [hProduct, datum_mul, datum_toFloat hPositive hSmall, datum_one]
  change Counts n (stored (UnpackedFloat.roundWithAccuracy .binary64 .positive
    (n * 2 ^ (52 - n.log2) * 2 ^ 52) ((n.log2 : ℤ) - 52 + -52) .exact))
  rw [hMantissa, hExponent]
  exact counts_stored_round hPositive (by omega)

theorem counts_ofNat_large {n : ℕ} (hLarge : 2 ^ 53 ≤ n) : Counts n (datum (Float.ofNat n)) := by
  have hPositive : 0 < n := by omega
  have hScientific : Float.ofNat n = ⟨Float.Model.ofScientific n 0⟩ := by
    change Float.ofScientific n false 0 = _
    rw [Float.ofScientific, dif_neg (by omega)]
    rfl
  have hRange : ¬(0 : ℤ) < -(2 ^ 11 + (n.log2 : ℤ)) := by omega
  have hRound : UnpackedFloat.ofScientific .binary64 n 0 =
      UnpackedFloat.roundWithAccuracy .binary64 .positive (n * 2 ^ 53) (-53) .exact := by
    rw [UnpackedFloat.ofScientific, dif_neg hPositive.ne', if_neg (by norm_num), if_neg hRange,
      if_pos le_rfl]
    simp only [Nat.shiftLeft_eq]
    change UnpackedFloat.roundWithAccuracy .binary64 .positive (n * 2 ^ 53 * 1) (-53) .exact = _
    rw [mul_one]
  rw [hScientific]
  change Counts n (stored (UnpackedFloat.ofScientific .binary64 n 0))
  rw [hRound]
  exact counts_stored_round hPositive (by omega)

theorem counts_ofNat (n : ℕ) : Counts n (datum (Float.ofNat n)) := by
  rcases Nat.eq_zero_or_pos n with rfl | hPositive
  · exact Counts.zero
  · rcases Nat.lt_or_ge n (2 ^ 53) with hSmall | hLarge
    · exact counts_ofNat_small hPositive hSmall
    · exact counts_ofNat_large hLarge

/-! ## Order -/

theorem whole_lt_whole {n n' : ℕ} (hPositive : 0 < n) (hLess : n < n') :
    (whole n hPositive).compare (whole n' (hPositive.trans hLess)) = some .lt := by
  have hLog : n.log2 ≤ n'.log2 :=
    (Nat.le_log2 (by omega)).mpr ((Nat.log2_self_le hPositive.ne').trans hLess.le)
  rcases hLog.lt_or_eq with hShorter | hSame
  · have hExponent : compare ((n.log2 : ℤ) - 52) ((n'.log2 : ℤ) - 52) = .lt := by
      rw [compare_lt_iff_lt]
      omega
    simp [whole, UnpackedFloat.compare, hExponent]
  · have hMantissa : compare (n * 2 ^ (52 - n'.log2)) (n' * 2 ^ (52 - n'.log2)) = .lt := by
      rw [compare_lt_iff_lt]
      exact Nat.mul_lt_mul_of_pos_right hLess (Nat.two_pow_pos _)
    simp [whole, UnpackedFloat.compare, hSame, hMantissa]

theorem whole_lt_large {n : ℕ} (hPositive : 0 < n) (hSmall : n < 2 ^ 53) {u : UnpackedFloat}
    (hLarge : Large u) : (whole n hPositive).compare u = some .lt := by
  have hWidth := log2_lt_of_small hPositive hSmall
  cases hLarge with
  | infinity => rfl
  | @finite m e hFull hLeast hGreatest =>
      have hExponent : compare ((n.log2 : ℤ) - 52) e = .lt := by
        rw [compare_lt_iff_lt]
        omega
      simp [whole, UnpackedFloat.compare, hExponent]

theorem Counts.compare_eq_lt {n n' : ℕ} {u u' : UnpackedFloat} (hLeft : Counts n u)
    (hRight : Counts n' u') (hLess : n < n') (hSmall : n < 2 ^ 53) :
    u.compare u' = some .lt := by
  cases hLeft with
  | zero =>
      cases hRight with
      | zero => omega
      | whole => rfl
      | large _ hDatum => cases hDatum <;> rfl
  | whole hPositive =>
      cases hRight with
      | zero => omega
      | whole => exact whole_lt_whole hPositive hLess
      | large _ hDatum => exact whole_lt_large hPositive hSmall hDatum
  | large hLarge => omega

/-! ## The next number -/

/-- The sum with one, before it is rounded. -/
theorem add_one_eq {m : ℕ} (hPositive : 0 < m) {e : ℤ} (hLeast : -52 ≤ e) :
    UnpackedFloat.add .binary64 (.finite .positive m e hPositive) (datum 1) =
      UnpackedFloat.round .binary64 .positive (m * 2 ^ (e + 52).toNat + 2 ^ 52) (-52) := by
  have hMin : min e (-52) = -52 := by omega
  have hShift : (e - -52).toNat = (e + 52).toNat := by omega
  have hSum : compare ((m * 2 ^ (e + 52).toNat : ℕ) + (2 ^ 52 : ℕ) : ℤ) 0 = .gt := by
    rw [compare_gt_iff_gt]
    positivity
  have hNat : ((m * 2 ^ (e + 52).toNat : ℕ) + (2 ^ 52 : ℕ) : ℤ).toNat =
      m * 2 ^ (e + 52).toNat + 2 ^ 52 := by
    rw [← Nat.cast_add, Int.toNat_natCast]
  rw [datum_one, UnpackedFloat.add]
  simp only [UnpackedFloat.decreaseExponent, hMin, hShift, Nat.shiftLeft_eq]
  change UnpackedFloat.normalize .binary64
    ((m * 2 ^ (e + 52).toNat : ℕ) + (2 ^ 52 : ℕ) : ℤ) (-52) .positive = _
  rw [UnpackedFloat.normalize, hSum]
  simp only [hNat]

/-- A wide mantissa is not lengthened before it is rounded. -/
theorem round_eq_of_wide {m : ℕ} (hWide : 52 ≤ m.log2) :
    UnpackedFloat.round .binary64 .positive m (-52) =
      UnpackedFloat.roundWithAccuracy .binary64 .positive m (-52) .exact := by
  have hTarget : Format.binary64.targetExponent (totalExponent m (-52)) = m.log2 - 104 := by
    rw [targetExponent_eq, totalExponent]
    omega
  have hShift : (-52 - ((m.log2 : ℤ) - 104)).toNat = 0 := by omega
  simp only [UnpackedFloat.round, UnpackedFloat.decreaseExponent, hTarget, hShift, Nat.shiftLeft_eq]
  simp

theorem counts_whole_add_one {n : ℕ} (hPositive : 0 < n) (hSmall : n < 2 ^ 53) :
    Counts (n + 1) (stored (UnpackedFloat.add .binary64 (whole n hPositive) (datum 1))) := by
  have hWidth := log2_lt_of_small hPositive hSmall
  have hShift : ((n.log2 : ℤ) - 52 + 52).toNat = n.log2 := by omega
  have hZeros : 52 - n.log2 + n.log2 = 52 := by omega
  have hSum : n * 2 ^ (52 - n.log2) * 2 ^ n.log2 + 2 ^ 52 = (n + 1) * 2 ^ 52 := by
    rw [mul_assoc, ← pow_add, hZeros]
    ring
  have hLog := log2_mul_two_pow (m := n + 1) (by omega) 52
  rw [whole, add_one_eq _ (by omega), hShift, hSum, round_eq_of_wide (by omega)]
  exact counts_stored_round (Nat.succ_pos n) le_rfl

theorem log2_le_log2_add {m : ℕ} (hPositive : 0 < m) (k : ℕ) : m.log2 ≤ (m + k).log2 :=
  (Nat.le_log2 (by omega)).mpr ((Nat.log2_self_le hPositive.ne').trans (Nat.le_add_right m k))

theorem large_add_one {u : UnpackedFloat} (hLarge : Large u) :
    Large (stored (UnpackedFloat.add .binary64 u (datum 1))) := by
  cases hLarge with
  | infinity =>
      rw [datum_one, UnpackedFloat.add, stored_infinity]
      · exact Large.infinity
      all_goals simp
  | @finite m e hFull hLeast hGreatest =>
      obtain ⟨k, hExponent⟩ := Int.eq_ofNat_of_zero_le (show 0 ≤ e - 1 by omega)
      have hShift : (e + 52).toNat = k + 53 := by omega
      have hPositive : 0 < m * 2 ^ (k + 53) := Nat.mul_pos hFull.pos (Nat.two_pow_pos _)
      have hLog := log2_le_log2_add hPositive (2 ^ 52)
      rw [log2_mul_two_pow hFull.pos, hFull.log2_eq] at hLog
      rw [add_one_eq _ (by omega), hShift, round_eq_of_wide (by omega)]
      exact large_stored_round (Nat.add_pos_left hPositive _) (by omega) (by omega)

theorem counts_add_one {n : ℕ} {x : Float} (hCounts : Counts n (datum x)) :
    Counts (n + 1) (datum (x + 1)) := by
  rw [datum_add]
  generalize datum x = u at hCounts ⊢
  cases hCounts with
  | zero => exact Counts.whole Nat.zero_lt_one (by norm_num)
  | whole hPositive hSmall => exact counts_whole_add_one hPositive hSmall
  | large hLarge hDatum => exact Counts.large (by omega) (large_add_one hDatum)

/-! ## Positions -/

theorem floor_zero_parts : Parts.floor ⟨false, 0, leastExponent⟩ = 0 := by
  have hBelow : ¬(0 : ℤ) ≤ leastExponent := by decide
  simp only [Parts.floor, if_neg hBelow]
  exact Int.zero_ediv _

/-- The point after the last bit of a whole number stands where its trailing zeros begin. -/
theorem floor_whole_parts {n : ℕ} (hShort : n.log2 ≤ 52) :
    Parts.floor ⟨false, n * 2 ^ (52 - n.log2), n.log2 - 52⟩ = n := by
  have hShift : (-((n.log2 : ℤ) - 52)).toNat = 52 - n.log2 := by omega
  rcases hShort.lt_or_eq with hBelow | hFull
  · have hNegative : ¬(0 : ℤ) ≤ (n.log2 : ℤ) - 52 := by omega
    simp only [Parts.floor, if_neg hNegative, hShift, Bool.false_eq_true, if_false]
    rw [Nat.cast_mul]
    exact Int.mul_ediv_cancel _ (by exact_mod_cast (Nat.two_pow_pos _).ne')
  · simp [Parts.floor, hFull]

theorem floor?_of_counts {n : ℕ} {x : Float} (hCounts : Counts n (datum x)) (hSmall : n < 2 ^ 53) :
    Scalar.floor? x = some (n : ℤ) := by
  change (parts? x).map Parts.floor = _
  rw [parts?_eq]
  generalize datum x = u at hCounts
  cases hCounts with
  | zero => exact congrArg some floor_zero_parts
  | whole hPositive =>
      have hWidth := log2_lt_of_small hPositive hSmall
      exact congrArg some (floor_whole_parts (by omega))
  | large hLarge => omega

theorem floor_eq_ofInt {x : Float} {k : ℤ} (hFloor : Scalar.floor? x = some k) :
    Scalar.floor x = Float.ofInt k := by
  rw [Scalar.floor, Scalar.roundWith, hFloor]
  rfl

/-- A negative whole number is below zero, however large it is. -/
theorem ofInt_negSucc_lt_zero (n : ℕ) : Float.ofInt (Int.negSucc n) < 0 := by
  have hCounts := counts_ofNat (n + 1)
  have hZero : datum 0 = .zero .positive := rfl
  have hNeg (m : ℕ) (e : ℤ) (hPositive : 0 < m) :
      (UnpackedFloat.finite .positive m e hPositive).neg = .finite .negative m e hPositive := rfl
  have hNegated : Float.ofInt (Int.negSucc n) = -Float.ofNat (n + 1) := rfl
  rw [lt_iff, hZero, hNegated, datum_neg]
  generalize datum (Float.ofNat (n + 1)) = u at hCounts ⊢
  cases hCounts with
  | whole hPositive hSmall =>
      have hWidth := log2_lt_of_small hPositive hSmall
      rw [whole, hNeg,
        stored_finite (fullWidth_whole hPositive hSmall) (by omega) (by omega)]
      rfl
  | large _ hDatum =>
      cases hDatum with
      | infinity => rfl
      | finite hFull hLeast hGreatest =>
          rw [hNeg, stored_finite hFull (by omega) hGreatest]
          rfl

/-- What has no floor is infinite or no number. -/
theorem datum_of_floor?_eq_none {x : Float} (hFloor : Scalar.floor? x = none) :
    x.isNaN = true ∨ ∃ sign, datum x = .infinity sign := by
  change (parts? x).map Parts.floor = none at hFloor
  rw [Option.map_eq_none_iff, parts?_eq] at hFloor
  rw [isNaN_iff]
  cases hDatum : datum x with
  | notANumber => exact Or.inl rfl
  | infinity sign => exact Or.inr ⟨sign, rfl⟩
  | zero sign => simp [hDatum, partsOf] at hFloor
  | finite sign m e hPositive => simp [hDatum, partsOf] at hFloor

/-- A double that is a number and passes both tests against a table of `n + 1` entries points
at an entry that has another one after it. -/
theorem toPosition_lt_of_tests {x : Float} {n : ℕ} (hNumber : ¬x.isNaN = true)
    (hLow : ¬Scalar.floor x < 0) (hHigh : ¬Float.ofNat n < Scalar.floor x + 1)
    (hSmall : n < 2 ^ 53) : Scalar.toPosition (Scalar.floor x) < n := by
  cases hFloor : Scalar.floor? x with
  | none =>
      have hSelf : Scalar.floor x = x := by rw [Scalar.floor, Scalar.roundWith, hFloor]
      obtain ⟨sign, hDatum⟩ := (datum_of_floor?_eq_none hFloor).resolve_left hNumber
      rw [hSelf, lt_iff] at hLow hHigh
      cases sign with
      | negative =>
          rw [hDatum] at hLow
          exact absurd rfl hLow
      | positive =>
          have hCounts : Counts (2 ^ 53) (datum x) :=
            hDatum ▸ Counts.large le_rfl Large.infinity
          exact absurd ((counts_ofNat n).compare_eq_lt (counts_add_one hCounts) (by omega) hSmall)
            hHigh
  | some k =>
      rw [floor_eq_ofInt hFloor] at hLow hHigh ⊢
      cases k with
      | negSucc m => exact absurd (ofInt_negSucc_lt_zero m) hLow
      | ofNat m =>
          have hCounts := counts_ofNat m
          have hInside : m < n := by
            by_contra hOutside
            refine hHigh ((lt_iff _ _).mpr ?_)
            exact (counts_ofNat n).compare_eq_lt (counts_add_one hCounts) (by omega) hSmall
          have hPosition := floor?_of_counts hCounts (by omega)
          change Scalar.toPosition (Float.ofNat m) < n
          rw [Scalar.toPosition, hPosition]
          exact hInside

end Binary64
end Pushbroom
