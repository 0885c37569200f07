import Pushbroom.Proofs.Scalar.Ordering

namespace Pushbroom
namespace Binary64

/-!
# Infinities, zeros and no numbers

What is not finite does not become finite in a sum, and two operands that are not finite have no
number for a quotient; neither have two that are zero.  A finite operand does not make a number
into none, unless a zero is divided by a zero.

Where a quotient or a sum may be undefined its kind is known only as "an infinity, if a number"
or "a zero, if a number", so both kinds are taken to include what is no number.
-/

open Float.Model (Format UnpackedFloat)
open Float.Model.UnpackedFloat (Accuracy Sign packComponents)

/-- Data of infinities and of no number. -/
inductive IsEndless : UnpackedFloat → Prop
  | notANumber : IsEndless .notANumber
  | infinity (sign : Sign) : IsEndless (.infinity sign)

/-- Data of zeros and of no number. -/
inductive IsVoid : UnpackedFloat → Prop
  | notANumber : IsVoid .notANumber
  | zero (sign : Sign) : IsVoid (.zero sign)

/-! ## Data -/

section Data

variable {u v : UnpackedFloat}

theorem IsEndless.stored_eq (hu : IsEndless u) : stored u = u := by
  cases hu with
  | notANumber => rfl
  | infinity sign => exact stored_infinity sign

theorem IsVoid.stored_eq (hu : IsVoid u) : stored u = u := by
  cases hu with
  | notANumber => rfl
  | zero sign => cases sign <;> rfl

theorem unpack_packComponents_ne_notANumber {field : ℕ} (hField : field < 2047) (sign : Sign)
    (fraction : BitVec 52) :
    UnpackedFloat.unpack .binary64
      (packComponents .binary64 sign (BitVec.ofNat 11 field) fraction) ≠ .notANumber := by
  have hNotOnes : BitVec.ofNat 11 field ≠ -1#11 := by
    intro hOnes
    have hNat := congrArg BitVec.toNat hOnes
    rw [BitVec.toNat_ofNat, Nat.mod_eq_of_lt (by omega)] at hNat
    change field = 2047 at hNat
    omega
  simp only [UnpackedFloat.unpack, UnpackedFloat.unpackExponent_packComponents,
    UnpackedFloat.unpackMantissa_packComponents, UnpackedFloat.unpackSign_packComponents]
  rw [if_neg hNotOnes]
  split
  · split <;> simp
  · simp

/-- What is a number is read back as one. -/
theorem stored_ne_notANumber (hu : u ≠ .notANumber) : stored u ≠ .notANumber := by
  cases u with
  | notANumber => exact absurd rfl hu
  | infinity sign =>
      rw [stored_infinity]
      exact hu
  | zero sign => cases sign <;> exact hu
  | finite sign m e hPositive =>
      change UnpackedFloat.unpack .binary64 (if 2048 ≤ (e + 1023 + 52).toNat + 1
        then UnpackedFloat.packedInfinity .binary64 sign
        else if m.log2 + 1 = 53 then packComponents .binary64 sign
          (BitVec.ofNat 11 (e + 1023 + 52).toNat) (BitVec.ofNat 52 m)
        else packComponents .binary64 sign (BitVec.ofNat 11 0) (BitVec.ofNat 52 m)) ≠ _
      split
      · have hInfinity := stored_infinity sign
        change UnpackedFloat.unpack .binary64 (UnpackedFloat.packedInfinity .binary64 sign) = _
          at hInfinity
        rw [hInfinity]
        simp
      · split
        · exact unpack_packComponents_ne_notANumber (by omega) sign _
        · exact unpack_packComponents_ne_notANumber (by omega) sign _

theorem roundWithAccuracy_ne_notANumber (sign : Sign) (m : ℕ) (e : ℤ) (accuracy : Accuracy) :
    UnpackedFloat.roundWithAccuracy .binary64 sign m e accuracy ≠ .notANumber := by
  unfold UnpackedFloat.roundWithAccuracy
  dsimp only
  split <;> simp

theorem normalize_ne_notANumber (m e : ℤ) (sign : Sign) :
    UnpackedFloat.normalize .binary64 m e sign ≠ .notANumber := by
  unfold UnpackedFloat.normalize
  split
  · exact roundWithAccuracy_ne_notANumber _ _ _ _
  · simp
  · exact roundWithAccuracy_ne_notANumber _ _ _ _

theorem IsEndless.add (hEndless : IsEndless u ∨ IsEndless v) :
    IsEndless (UnpackedFloat.add .binary64 u v) := by
  rcases hEndless with hu | hv
  · cases hu with
    | notANumber => cases v <;> exact .notANumber
    | infinity sign =>
        cases v with
        | notANumber => exact .notANumber
        | infinity other =>
            simp only [UnpackedFloat.add]
            split
            · exact .infinity sign
            · exact .notANumber
        | zero other => exact .infinity sign
        | finite => exact .infinity sign
  · cases hv with
    | notANumber => cases u <;> exact .notANumber
    | infinity sign =>
        cases u with
        | notANumber => exact .notANumber
        | infinity other =>
            simp only [UnpackedFloat.add]
            split
            · exact .infinity other
            · exact .notANumber
        | zero other => exact .infinity sign
        | finite => exact .infinity sign

theorem IsVoid.add (hu : IsVoid u) (hv : IsVoid v) : IsVoid (UnpackedFloat.add .binary64 u v) := by
  cases hu with
  | notANumber => cases v <;> exact .notANumber
  | zero sign =>
      cases hv with
      | notANumber => exact .notANumber
      | zero other =>
          simp only [UnpackedFloat.add]
          split <;> exact .zero _

/-- A finite number leaves a number in a sum. -/
theorem add_ne_notANumber (hu : u ≠ .notANumber) (hv : ¬IsEndless v) :
    UnpackedFloat.add .binary64 u v ≠ .notANumber := by
  cases v with
  | notANumber => exact absurd .notANumber hv
  | infinity sign => exact absurd (.infinity sign) hv
  | zero sign =>
      cases u with
      | notANumber => exact absurd rfl hu
      | zero other =>
          simp only [UnpackedFloat.add]
          split <;> simp
      | _ => exact hu
  | finite sign m e hPositive =>
      cases u with
      | notANumber => exact absurd rfl hu
      | finite => exact normalize_ne_notANumber _ _ _
      | _ => simp [UnpackedFloat.add]

theorem IsEndless.div_of_isVoid (u : UnpackedFloat) (hv : IsVoid v) :
    IsEndless (UnpackedFloat.div .binary64 u v) := by
  cases hv with
  | notANumber => cases u <;> exact .notANumber
  | zero sign =>
      cases u with
      | notANumber => exact .notANumber
      | zero => exact .notANumber
      | infinity => exact .infinity _
      | finite => exact .infinity _

theorem IsVoid.div_of_isEndless (u : UnpackedFloat) (hv : IsEndless v) :
    IsVoid (UnpackedFloat.div .binary64 u v) := by
  cases hv with
  | notANumber => cases u <;> exact .notANumber
  | infinity sign =>
      cases u with
      | notANumber => exact .notANumber
      | infinity => exact .notANumber
      | zero => exact .zero _
      | finite => exact .zero _

theorem IsEndless.div_eq (hu : IsEndless u) (hv : IsEndless v) :
    UnpackedFloat.div .binary64 u v = .notANumber := by
  cases hu <;> cases hv <;> rfl

theorem IsVoid.div_eq (hu : IsVoid u) (hv : IsVoid v) :
    UnpackedFloat.div .binary64 u v = .notANumber := by
  cases hu <;> cases hv <;> rfl

/-- A finite number has a quotient by what is a number other than zero. -/
theorem div_ne_notANumber (hu : ¬IsEndless u) (hv : ¬IsVoid v) :
    UnpackedFloat.div .binary64 u v ≠ .notANumber := by
  cases u with
  | notANumber => exact absurd .notANumber hu
  | infinity sign => exact absurd (.infinity sign) hu
  | zero sign =>
      cases v with
      | notANumber => exact absurd .notANumber hv
      | zero other => exact absurd (.zero other) hv
      | _ => simp [UnpackedFloat.div]
  | finite sign m e hPositive =>
      cases v with
      | notANumber => exact absurd .notANumber hv
      | zero other => exact absurd (.zero other) hv
      | infinity other => simp [UnpackedFloat.div]
      | finite => exact roundWithAccuracy_ne_notANumber _ _ _ _

/-- A factor that is a finite number other than zero. -/
def IsOrdinary (u : UnpackedFloat) : Prop :=
  ∃ sign m e hPositive, u = .finite sign m e hPositive

theorem IsOrdinary.endless_mul (hu : IsOrdinary u) (hv : IsEndless v) :
    IsEndless (UnpackedFloat.mul .binary64 u v) := by
  obtain ⟨sign, m, e, hPositive, rfl⟩ := hu
  cases hv with
  | notANumber => exact .notANumber
  | infinity other => exact .infinity _

theorem IsOrdinary.void_mul (hu : IsOrdinary u) (hv : IsVoid v) :
    IsVoid (UnpackedFloat.mul .binary64 u v) := by
  obtain ⟨sign, m, e, hPositive, rfl⟩ := hu
  cases hv with
  | notANumber => exact .notANumber
  | zero other => exact .zero _

/-- Nothing is farther out than an infinity. -/
theorem IsNumber.value_le (hu : IsNumber u) : value u ≤ farOut := by
  cases hu with
  | infinity sign =>
      cases sign
      · exact (neg_lt_zero.mpr farOut_pos).le.trans farOut_pos.le
      · exact le_rfl
  | zero sign => exact farOut_pos.le
  | finite sign hPositive hCanonical =>
      obtain ⟨hAbove, hBelow⟩ := hCanonical.magnitude_bounds hPositive
      cases sign
      · exact (neg_lt_zero.mpr hAbove).le.trans farOut_pos.le
      · exact hBelow.le

end Data

/-! ## Doubles -/

section Doubles

variable {x y : Float}

theorem isFinite_eq_false_iff : x.isFinite = false ↔ IsEndless (datum x) := by
  have hDatum : x.isFinite = (datum x).isFinite := rfl
  rw [hDatum]
  generalize datum x = u
  constructor
  · intro hFinite
    cases u with
    | notANumber => exact .notANumber
    | infinity sign => exact .infinity sign
    | zero sign => cases hFinite
    | finite => cases hFinite
  · intro hEndless
    cases hEndless <;> rfl

theorem isEndless_of_isNaN (hNaN : x.isNaN = true) : IsEndless (datum x) := by
  rw [(isNaN_iff x).mp hNaN]
  exact .notANumber

theorem isEndless_of_isInf (hInfinite : x.isInf = true) : IsEndless (datum x) := by
  change (datum x).isInf = true at hInfinite
  generalize datum x = u at hInfinite
  cases u with
  | infinity sign => exact .infinity sign
  | _ => cases hInfinite

/-- The magnitude of what is an infinity, if a number, is below nothing. -/
theorem not_abs_lt_of_isEndless (hEndless : IsEndless (datum x)) (y : Float) :
    ¬Scalar.abs x < y := by
  intro hLess
  by_cases hNaN : x.isNaN = true
  · have hSame : Scalar.abs x = x := if_neg (not_lt_of_isNaN (Or.inl hNaN))
    rw [hSame] at hLess
    exact not_lt_of_isNaN (Or.inl hNaN) hLess
  · have hx := Bool.not_eq_true _ ▸ hNaN
    have hy : y.isNaN = false := by
      rw [← Bool.not_eq_true]
      exact fun hOther => not_lt_of_isNaN (Or.inr hOther) hLess
    obtain ⟨hMagnitude, hNumber⟩ := number_abs hx
    have hFar : |number x| = farOut := by
      rw [isNaN_iff] at hNaN
      rw [number]
      generalize datum x = u at hEndless hNaN
      cases hEndless with
      | notANumber => exact absurd rfl hNaN
      | infinity sign =>
          cases sign
          · exact (abs_neg _).trans (abs_of_pos farOut_pos)
          · exact abs_of_pos farOut_pos
    rw [number_lt_iff hNumber hy, hMagnitude, hFar] at hLess
    exact absurd hLess (not_lt.mpr (isNumber_datum hy).value_le)

theorem isVoid_of_beq_zero (hZero : (x == 0) = true) : IsVoid (datum x) := by
  have hCompare : (datum x).compare (.zero .positive) = some .eq := beq_iff_eq.mp hZero
  generalize datum x = u at hCompare
  cases u with
  | notANumber => exact .notANumber
  | zero sign => exact .zero sign
  | infinity sign => cases sign <;> cases hCompare
  | finite sign => cases sign <;> cases hCompare

/-- The magnitude of what is a zero, if a number, is below every positive number. -/
theorem abs_lt_of_isVoid (hx : x.isNaN = false) (hVoid : IsVoid (datum x)) (hPositive : 0 < y) :
    Scalar.abs x < y := by
  have hy : y.isNaN = false := by
    rw [← Bool.not_eq_true]
    exact fun hNaN => not_lt_of_isNaN (Or.inr hNaN) hPositive
  obtain ⟨hMagnitude, hNumber⟩ := number_abs hx
  have hZero : number x = 0 := by
    rw [number]
    generalize datum x = u at hVoid
    cases hVoid <;> rfl
  rw [number_lt_iff hNumber hy, hMagnitude, hZero, abs_zero]
  exact (number_lt_iff rfl hy).mp hPositive

theorem isEndless_add (hEndless : IsEndless (datum x) ∨ IsEndless (datum y)) :
    IsEndless (datum (x + y)) := by
  rw [datum_add, (IsEndless.add hEndless).stored_eq]
  exact IsEndless.add hEndless

theorem isVoid_add (hx : IsVoid (datum x)) (hy : IsVoid (datum y)) : IsVoid (datum (x + y)) := by
  rw [datum_add, (hx.add hy).stored_eq]
  exact hx.add hy

theorem isNaN_add_eq_false (hx : ¬x.isNaN = true) (hy : ¬IsEndless (datum y)) :
    ¬(x + y).isNaN = true := by
  rw [isNaN_iff] at hx ⊢
  rw [datum_add]
  exact stored_ne_notANumber (add_ne_notANumber hx hy)

theorem isEndless_div (x : Float) (hy : IsVoid (datum y)) : IsEndless (datum (x / y)) := by
  have hQuotient := IsEndless.div_of_isVoid (datum x) hy
  rw [datum_div, hQuotient.stored_eq]
  exact hQuotient

theorem isVoid_div (x : Float) (hy : IsEndless (datum y)) : IsVoid (datum (x / y)) := by
  have hQuotient := IsVoid.div_of_isEndless (datum x) hy
  rw [datum_div, hQuotient.stored_eq]
  exact hQuotient

theorem isNaN_div_of_isEndless (hx : IsEndless (datum x)) (hy : IsEndless (datum y)) :
    (x / y).isNaN = true := by
  rw [isNaN_iff, datum_div, hx.div_eq hy, stored_notANumber]

theorem isNaN_div_of_isVoid (hx : IsVoid (datum x)) (hy : IsVoid (datum y)) :
    (x / y).isNaN = true := by
  rw [isNaN_iff, datum_div, hx.div_eq hy, stored_notANumber]

theorem isNaN_div_eq_false (hx : ¬IsEndless (datum x)) (hy : ¬IsVoid (datum y)) :
    ¬(x / y).isNaN = true := by
  rw [isNaN_iff, datum_div]
  exact stored_ne_notANumber (div_ne_notANumber hx hy)

theorem isEndless_mul (hx : IsOrdinary (datum x)) (hy : IsEndless (datum y)) :
    IsEndless (datum (x * y)) := by
  rw [datum_mul, (hx.endless_mul hy).stored_eq]
  exact hx.endless_mul hy

theorem isVoid_mul (hx : IsOrdinary (datum x)) (hy : IsVoid (datum y)) :
    IsVoid (datum (x * y)) := by
  rw [datum_mul, (hx.void_mul hy).stored_eq]
  exact hx.void_mul hy

end Doubles

/-! ## Running sums -/

section Sums

variable {terms : List Float} {start : Float}

/-- What a sum takes from either operand is found in a running sum. -/
theorem foldl_add_of_absorbing {P : Float → Prop} (hAbsorbing : ∀ x y, P x ∨ P y → P (x + y))
    (hSome : P start ∨ ∃ term ∈ terms, P term) : P (terms.foldl (· + ·) start) := by
  induction terms generalizing start with
  | nil => simpa using hSome
  | cons term rest ih =>
      refine ih ?_
      rcases hSome with hStart | ⟨other, hMember, hOther⟩
      · exact Or.inl (hAbsorbing _ _ (Or.inl hStart))
      · rcases List.mem_cons.mp hMember with rfl | hRest
        · exact Or.inl (hAbsorbing _ _ (Or.inr hOther))
        · exact Or.inr ⟨other, hRest, hOther⟩

/-- What a sum keeps of its left operand is kept by a running sum. -/
theorem foldl_add_of_kept {P Q : Float → Prop} (hKept : ∀ x y, P x → Q y → P (x + y))
    (hStart : P start) (hTerms : ∀ term ∈ terms, Q term) : P (terms.foldl (· + ·) start) := by
  induction terms generalizing start with
  | nil => exact hStart
  | cons term rest ih =>
      obtain ⟨hTerm, hRest⟩ := List.forall_mem_cons.mp hTerms
      exact ih (hKept _ _ hStart hTerm) hRest

end Sums

end Binary64
end Pushbroom
