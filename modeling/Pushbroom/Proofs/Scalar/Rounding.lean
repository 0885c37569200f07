import Pushbroom.Proofs.Scalar.NotANumber

namespace Pushbroom
namespace Binary64

/-!
# Storing and rounding doubles

A double is a sign, eleven bits of exponent and fifty-two bits of fraction.  A finite number
whose mantissa has full width, fifty-three bits with the leading one that is not stored, is
read back as it was stored, unless its exponent is too large and it becomes infinite.

Rounding brings a longer mantissa to full width.  It leaves a mantissa alone that has only
zeros to lose, and never drops below the leading bits of any other.
-/

open Float.Model (Format UnpackedFloat totalExponent)
open Float.Model.UnpackedFloat (Accuracy ExtendedMantissa Sign packComponents packedInfinity)

/-! ## The bits of a double -/

theorem toNat_withLeadingOne (fraction : BitVec 52) :
    (1#1 ++ fraction).toNat = fractions + fraction.toNat := by
  rw [BitVec.toNat_append, ← Nat.shiftLeft_add_eq_or_of_lt (BitVec.isLt _)]
  rfl

theorem toNat_unpackExponent (b : BitVec 64) :
    (@UnpackedFloat.unpackExponent .binary64 b).toNat = b.toNat / fractions % exponents := by
  rw [UnpackedFloat.unpackExponent_def, BitVec.extractLsb'_toNat, Nat.shiftRight_eq_div_pow]
  rfl

theorem toNat_unpackMantissa (b : BitVec 64) :
    (@UnpackedFloat.unpackMantissa .binary64 b).toNat = b.toNat % fractions := by
  rw [UnpackedFloat.unpackMantissa_def, BitVec.extractLsb'_toNat, Nat.shiftRight_zero]
  rfl

theorem unpackSign_eq (b : BitVec 64) :
    @UnpackedFloat.unpackSign .binary64 b =
      if exponents * fractions ≤ b.toNat then 1#1 else 0#1 := by
  have hRange := b.isLt
  apply BitVec.eq_of_toNat_eq
  rw [UnpackedFloat.unpackSign_def, BitVec.extractLsb'_toNat, Nat.shiftRight_eq_div_pow]
  change b.toNat / 2 ^ 63 % 2 = _
  unfold exponents fractions
  split
  · change _ = 1
    omega
  · change _ = 0
    omega

theorem ofBitVec_unpackSign (b : BitVec 64) :
    (Sign.ofBitVec (@UnpackedFloat.unpackSign .binary64 b) == .negative) =
      decide (exponents * fractions ≤ b.toNat) := by
  rw [unpackSign_eq]
  split
  · rename_i hNegative
    rw [decide_eq_true hNegative]
    rfl
  · rename_i hPositive
    rw [decide_eq_false hPositive]
    rfl

/-- The parts of a datum that is a finite number. -/
def partsOf : UnpackedFloat → Option Parts
  | .finite sign m e _ => some ⟨sign == .negative, m, e⟩
  | .zero sign => some ⟨sign == .negative, 0, leastExponent⟩
  | _ => none

/-- The parts of a double are read off its bits as its datum is. -/
theorem parts?_eq (x : Float) : parts? x = partsOf (datum x) := by
  obtain ⟨b, hBits, hDatum⟩ : ∃ b : BitVec 64, x.toBits.toNat = b.toNat ∧
      datum x = UnpackedFloat.unpack .binary64 b := ⟨x.toModel.toBits.toBitVec, rfl, rfl⟩
  have hOnes : (@UnpackedFloat.unpackExponent .binary64 b).toNat = exponents - 1 ↔
      @UnpackedFloat.unpackExponent .binary64 b = -BitVec.ofNat Format.binary64.exponentBits 1 := by
    rw [← BitVec.toNat_inj]
    rfl
  have hZero : (@UnpackedFloat.unpackExponent .binary64 b).toNat = 0 ↔
      @UnpackedFloat.unpackExponent .binary64 b = BitVec.ofNat Format.binary64.exponentBits 0 := by
    rw [← BitVec.toNat_inj]
    rfl
  have hFraction : (@UnpackedFloat.unpackMantissa .binary64 b).toNat = 0 ↔
      @UnpackedFloat.unpackMantissa .binary64 b =
        BitVec.ofNat Format.binary64.mantissaBitsWithoutImplicit 0 := by
    rw [← BitVec.toNat_inj]
    rfl
  rw [hDatum, UnpackedFloat.unpack, parts?, hBits, ← toNat_unpackExponent,
    ← toNat_unpackMantissa, ← ofBitVec_unpackSign]
  simp only [hOnes, hZero]
  by_cases hSpecial : @UnpackedFloat.unpackExponent .binary64 b =
      -BitVec.ofNat Format.binary64.exponentBits 1
  · simp only [if_pos hSpecial]
    split <;> rfl
  · simp only [if_neg hSpecial]
    by_cases hSmall : @UnpackedFloat.unpackExponent .binary64 b =
        BitVec.ofNat Format.binary64.exponentBits 0
    · simp only [if_pos hSmall, hZero.mpr hSmall]
      by_cases hNone : @UnpackedFloat.unpackMantissa .binary64 b =
          BitVec.ofNat Format.binary64.mantissaBitsWithoutImplicit 0
      · simp only [dif_pos hNone, hFraction.mpr hNone, partsOf]
      · simp only [dif_neg hNone]
        rfl
    · simp only [if_neg hSmall, toNat_withLeadingOne]
      have hBias : leastExponent + ((@UnpackedFloat.unpackExponent .binary64 b).toNat : ℤ)
          - 1 = (@UnpackedFloat.unpackExponent .binary64 b).toNat - (1023 + 52) := by
        unfold leastExponent
        omega
      rw [hBias]
      rfl

/-! ## Storing and reading back -/

theorem stored_infinity (sign : Sign) : stored (.infinity sign) = .infinity sign := by
  cases sign <;> rfl

/-- A mantissa of full width. -/
structure FullWidth (m : ℕ) : Prop where
  low : 2 ^ 52 ≤ m
  high : m < 2 ^ 53

theorem FullWidth.pos {m : ℕ} (hFull : FullWidth m) : 0 < m :=
  (Nat.two_pow_pos 52).trans_le hFull.low

theorem FullWidth.log2_eq {m : ℕ} (hFull : FullWidth m) : m.log2 = 52 :=
  (Nat.log2_eq_iff hFull.pos.ne').mpr ⟨hFull.low, hFull.high⟩

theorem pack_finite {m : ℕ} (hFull : FullWidth m) {e : ℤ} (hGreatest : e ≤ 971) (sign : Sign)
    (hPositive : 0 < m) :
    UnpackedFloat.pack .binary64 (.finite sign m e hPositive) =
      packComponents .binary64 sign (BitVec.ofNat 11 (e + 1075).toNat) (BitVec.ofNat 52 m) := by
  have hBiased : (e + 1023 + 52).toNat = (e + 1075).toNat := by omega
  have hRange : ¬2048 ≤ (e + 1075).toNat + 1 := by omega
  change (if 2048 ≤ (e + 1023 + 52).toNat + 1 then _ else
    if m.log2 + 1 = 53 then packComponents .binary64 sign
      (BitVec.ofNat 11 (e + 1023 + 52).toNat) (BitVec.ofNat 52 m) else _) = _
  rw [hBiased, if_neg hRange, hFull.log2_eq, if_pos rfl]

theorem unpack_packComponents {field fraction : ℕ} (hLow : 0 < field) (hHigh : field < 2047)
    (hFraction : fraction < 2 ^ 52) (sign : Sign) :
    UnpackedFloat.unpack .binary64
        (packComponents .binary64 sign (BitVec.ofNat 11 field) (BitVec.ofNat 52 fraction)) =
      .finite sign (2 ^ 52 + fraction) (field - 1075) (by omega) := by
  have hField : (BitVec.ofNat 11 field).toNat = field := by
    rw [BitVec.toNat_ofNat, Nat.mod_eq_of_lt (by omega)]
  have hNotOnes : BitVec.ofNat 11 field ≠ -1#11 := by
    intro hOnes
    have := congrArg BitVec.toNat hOnes
    rw [hField] at this
    change field = 2047 at this
    omega
  have hNotZero : BitVec.ofNat 11 field ≠ 0#11 := by
    intro hZero
    have := congrArg BitVec.toNat hZero
    rw [hField] at this
    change field = 0 at this
    omega
  have hMantissa : (1#1 ++ BitVec.ofNat 52 fraction).toNat = 2 ^ 52 + fraction := by
    rw [toNat_withLeadingOne, BitVec.toNat_ofNat, Nat.mod_eq_of_lt hFraction]
    rfl
  have hBias : (field : ℤ) - (1023 + 52) = field - 1075 := by omega
  simp only [UnpackedFloat.unpack, UnpackedFloat.unpackExponent_packComponents,
    UnpackedFloat.unpackMantissa_packComponents, UnpackedFloat.unpackSign_packComponents,
    Sign.ofBitVec_toBitVec]
  rw [if_neg hNotOnes, if_neg hNotZero]
  congr 1
  rw [hField]
  exact hBias

theorem stored_finite {m : ℕ} (hFull : FullWidth m) {e : ℤ} (hLeast : -1074 ≤ e)
    (hGreatest : e ≤ 971) (sign : Sign) (hPositive : 0 < m) :
    stored (.finite sign m e hPositive) = .finite sign m e hPositive := by
  obtain ⟨fraction, rfl⟩ := Nat.exists_eq_add_of_le hFull.low
  have hFraction : fraction < 2 ^ 52 := by
    have := hFull.high
    omega
  have hLow : BitVec.ofNat 52 (2 ^ 52 + fraction) = BitVec.ofNat 52 fraction := by
    apply BitVec.eq_of_toNat_eq
    rw [BitVec.toNat_ofNat, BitVec.toNat_ofNat, Nat.add_mod_left]
  have hField : ((e + 1075).toNat : ℤ) - 1075 = e := by omega
  change UnpackedFloat.unpack .binary64 (UnpackedFloat.pack .binary64 _) = _
  rw [pack_finite hFull hGreatest, hLow,
    unpack_packComponents (by omega) (by omega) hFraction]
  simp only [hField]

theorem stored_huge {m : ℕ} {e : ℤ} (hHuge : 972 ≤ e) (sign : Sign) (hPositive : 0 < m) :
    stored (.finite sign m e hPositive) = .infinity sign := by
  have hOver : 2048 ≤ (e + 1023 + 52).toNat + 1 := by omega
  have hPack : UnpackedFloat.pack .binary64 (.finite sign m e hPositive) =
      UnpackedFloat.pack .binary64 (.infinity sign) := by
    change (if 2048 ≤ (e + 1023 + 52).toNat + 1 then packedInfinity .binary64 sign else _) = _
    rw [if_pos hOver]
    rfl
  change UnpackedFloat.unpack .binary64 (UnpackedFloat.pack .binary64 _) = _
  rw [hPack]
  exact stored_infinity sign

/-! ## Rounding -/

theorem log2_mul_two_pow {m : ℕ} (hPositive : 0 < m) (k : ℕ) : (m * 2 ^ k).log2 = m.log2 + k := by
  induction k with
  | zero => simp
  | succ k ih =>
      have hDouble : m * 2 ^ (k + 1) = 2 * (m * 2 ^ k) := by ring
      rw [hDouble, Nat.log2_two_mul (by positivity), ih, Nat.add_assoc]

theorem targetExponent_eq (t : ℤ) : Format.binary64.targetExponent t = max (t - 53) (-1074) :=
  rfl

theorem shiftRight_exact (m k : ℕ) :
    ExtendedMantissa.ofMantissaAndAccuracy (m * 2 ^ k) .exact >>> k = ⟨m, false, false⟩ := by
  change Nat.repeat ExtendedMantissa.shiftRightOne k ⟨m * 2 ^ k, false, false⟩ = _
  induction k generalizing m with
  | zero => simp [Nat.repeat]
  | succ k ih =>
      have hShift : m * 2 ^ (k + 1) = m * 2 * 2 ^ k := by ring
      rw [hShift, Nat.repeat, ih]
      simp [ExtendedMantissa.shiftRightOne]

theorem shiftRight_mantissa (em : ExtendedMantissa) (k : ℕ) :
    (em >>> k).mantissa = em.mantissa / 2 ^ k := by
  change (Nat.repeat ExtendedMantissa.shiftRightOne k em).mantissa = _
  induction k with
  | zero => simp [Nat.repeat]
  | succ k ih =>
      rw [Nat.repeat, ExtendedMantissa.shiftRightOne, ih, Nat.div_div_eq_div_mul, pow_succ]

theorem shiftToTargetExponent_exact {m : ℕ} (hFull : FullWidth m) {e : ℤ} (hLeast : -1074 ≤ e)
    (k : ℕ) :
    UnpackedFloat.shiftToTargetExponent .binary64 (m * 2 ^ k) (e - k) .exact =
      (⟨m, false, false⟩, e) := by
  have hTarget : Format.binary64.targetExponent (totalExponent (m * 2 ^ k) (e - k)) = e := by
    rw [targetExponent_eq, totalExponent, log2_mul_two_pow hFull.pos, hFull.log2_eq]
    omega
  simp only [UnpackedFloat.shiftToTargetExponent, UnpackedFloat.shiftToExponent, hTarget]
  have hShift : (e - (e - k)).toNat = k := by omega
  rw [hShift, shiftRight_exact]
  simp

/-- Rounding leaves a mantissa that only has zeros to lose. -/
theorem roundWithAccuracy_exact {m : ℕ} (hFull : FullWidth m) {e : ℤ} (hLeast : -1074 ≤ e)
    (k : ℕ) (sign : Sign) :
    UnpackedFloat.roundWithAccuracy .binary64 sign (m * 2 ^ k) (e - k) .exact =
      .finite sign m e hFull.pos := by
  have hAgain := shiftToTargetExponent_exact hFull hLeast 0
  rw [pow_zero, mul_one, Nat.cast_zero, sub_zero] at hAgain
  have hRounded : (⟨m, false, false⟩ : ExtendedMantissa).roundedMantissa = m := rfl
  simp only [UnpackedFloat.roundWithAccuracy, shiftToTargetExponent_exact hFull hLeast, hRounded,
    hAgain]
  exact dif_neg hFull.pos.ne'

theorem roundedMantissa_bounds (em : ExtendedMantissa) :
    em.mantissa ≤ em.roundedMantissa ∧ em.roundedMantissa ≤ em.mantissa + 1 := by
  obtain ⟨mantissa, roundBit, stickyBit⟩ := em
  cases roundBit <;> cases stickyBit <;>
    simp [ExtendedMantissa.roundedMantissa, ExtendedMantissa.accuracy,
      Accuracy.roundToNearestEven]
  omega

/-- A rounded mantissa has full width, or is the next power of two. -/
theorem shiftToTargetExponent_rounded {r : ℕ} (hLow : 2 ^ 52 ≤ r) (hHigh : r ≤ 2 ^ 53) {e : ℤ}
    (hLeast : -1074 ≤ e) :
    ∃ m e', FullWidth m ∧ e ≤ e' ∧
      UnpackedFloat.shiftToTargetExponent .binary64 r e .exact = (⟨m, false, false⟩, e') := by
  rcases hHigh.lt_or_eq with hBelow | rfl
  · have hSame := shiftToTargetExponent_exact ⟨hLow, hBelow⟩ hLeast 0
    rw [pow_zero, mul_one, Nat.cast_zero, sub_zero] at hSame
    exact ⟨r, e, ⟨hLow, hBelow⟩, le_rfl, hSame⟩
  · have hCarry := shiftToTargetExponent_exact (m := 2 ^ 52) ⟨le_rfl, by norm_num⟩
      (e := e + 1) (by omega) 1
    rw [← pow_add, Nat.cast_one, add_sub_cancel_right] at hCarry
    exact ⟨2 ^ 52, e + 1, ⟨le_rfl, by norm_num⟩, by omega, hCarry⟩

/-- The leading bits of a wide mantissa. -/
theorem fullWidth_div {m k : ℕ} (hPositive : 0 < m) (hLog : m.log2 = 52 + k) :
    FullWidth (m / 2 ^ k) where
  low := by
    rw [Nat.le_div_iff_mul_le (Nat.two_pow_pos k), ← pow_add, ← hLog]
    exact Nat.log2_self_le hPositive.ne'
  high := by
    have hExponent : 53 + k = m.log2 + 1 := by omega
    rw [Nat.div_lt_iff_lt_mul (Nat.two_pow_pos k), ← pow_add, hExponent]
    exact Nat.lt_log2_self

/-- Rounding a wide mantissa keeps its leading bits or carries into the next power of two. -/
theorem roundWithAccuracy_wide {m : ℕ} (hPositive : 0 < m) (hWide : 52 ≤ m.log2) {e : ℤ}
    (hLeast : -1022 ≤ m.log2 + e) (sign : Sign) :
    ∃ m' e', ∃ hFull : FullWidth m', (m.log2 : ℤ) + e - 52 ≤ e' ∧
      UnpackedFloat.roundWithAccuracy .binary64 sign m e .exact = .finite sign m' e' hFull.pos := by
  obtain ⟨k, hLog⟩ := Nat.exists_eq_add_of_le hWide
  have hTarget : Format.binary64.targetExponent (totalExponent m e) = e + k := by
    rw [targetExponent_eq, totalExponent]
    omega
  have hShift : (e + k - e).toNat = k := by omega
  have hFirst : UnpackedFloat.shiftToTargetExponent .binary64 m e .exact =
      (ExtendedMantissa.ofMantissaAndAccuracy m .exact >>> k, e + k) := by
    simp only [UnpackedFloat.shiftToTargetExponent, UnpackedFloat.shiftToExponent, hTarget, hShift]
  have hLeading := fullWidth_div hPositive hLog
  obtain ⟨hBelow, hAbove⟩ :=
    roundedMantissa_bounds (ExtendedMantissa.ofMantissaAndAccuracy m .exact >>> k)
  rw [shiftRight_mantissa] at hBelow hAbove
  change m / 2 ^ k ≤ _ at hBelow
  change _ ≤ m / 2 ^ k + 1 at hAbove
  obtain ⟨m', e', hFull, hExponent, hSecond⟩ := shiftToTargetExponent_rounded
    (hLeading.low.trans hBelow) (hAbove.trans hLeading.high) (e := e + k) (by omega)
  refine ⟨m', e', hFull, by omega, ?_⟩
  simp only [UnpackedFloat.roundWithAccuracy, hFirst, hSecond]
  exact dif_neg hFull.pos.ne'

end Binary64
end Pushbroom
