import Pushbroom.Filter.Extrema
import Pushbroom.Proofs.Scalar.Exact
import Pushbroom.Proofs.Scalar.Ordering

namespace Pushbroom
namespace Filter

/-!
# Local extrema of an error curve

The search compares errors with each other, with zero and by magnitude, and does nothing else
with them.  Errors of any number type that compare as the numbers of an ordered field do are
therefore read as those numbers here.

Of equal neighbours the last one is an extremum, when the number after it is nearer to zero.  At
the end of the grid there is no such number, and an extremum has to exceed the one before it.
-/

variable {K : Type} [Field K] [LinearOrder K] {n : ℕ}

/-- Errors that compare with each other, with zero and by magnitude as numbers of an ordered
field do. -/
structure ReadAs {α : Type} [Scalar α] (errors : Vector α n) (values : Fin n → K) : Prop where
  lt_iff : ∀ i j : Fin n, errors.get i < errors.get j ↔ values i < values j
  le_iff : ∀ i j : Fin n, errors.get i ≤ errors.get j ↔ values i ≤ values j
  pos_iff : ∀ i : Fin n, 0 < errors.get i ↔ 0 < values i
  neg_iff : ∀ i : Fin n, errors.get i < 0 ↔ values i < 0
  abs_lt_iff : ∀ i j : Fin n,
    Scalar.abs (errors.get i) < Scalar.abs (errors.get j) ↔ |values i| < |values j|

/-- Numbers of an ordered field are read as themselves. -/
theorem readAs_get [FloorRing K] [IsStrictOrderedRing K] (errors : Vector K n) :
    ReadAs errors errors.get where
  lt_iff _ _ := Iff.rfl
  le_iff _ _ := Iff.rfl
  pos_iff _ := Iff.rfl
  neg_iff _ := Iff.rfl
  abs_lt_iff i j := by rw [Scalar.abs_eq, Scalar.abs_eq]

theorem readAs_ofFn [FloorRing K] [IsStrictOrderedRing K] (values : Fin n → K) :
    ReadAs (Vector.ofFn values) values := by
  have hValues : (Vector.ofFn values).get = values := by
    funext i
    simp
  simpa only [hValues] using readAs_get (Vector.ofFn values)

/-- Doubles are read as the numbers they stand for, when none of them is NaN. -/
theorem readAs_number {errors : Vector Float n}
    (hNumbers : ∀ i : Fin n, (errors.get i).isNaN = false) :
    ReadAs errors fun i => Binary64.number (errors.get i) where
  lt_iff i j := Binary64.number_lt_iff (hNumbers i) (hNumbers j)
  le_iff i j := Binary64.number_le_iff (hNumbers i) (hNumbers j)
  pos_iff i := Binary64.number_lt_iff (x := 0) rfl (hNumbers i)
  neg_iff i := Binary64.number_lt_iff (hNumbers i) (y := 0) rfl
  abs_lt_iff i j := by
    obtain ⟨hLeft, hLeftNumber⟩ := Binary64.number_abs (hNumbers i)
    obtain ⟨hRight, hRightNumber⟩ := Binary64.number_abs (hNumbers j)
    rw [Binary64.number_lt_iff hLeftNumber hRightNumber, hLeft, hRight]

/-- A positive number that exceeds the one after it and does not fall below the one before it,
which at the last position it exceeds as well. -/
structure IsPeak (values : Fin n → K) (i : Fin n) : Prop where
  positive : 0 < values i
  before : ∀ j : Fin n, j.val + 1 = i.val → values j ≤ values i
  after : ∀ j : Fin n, j.val = i.val + 1 → values j < values i
  last : i.val + 1 = n → ∀ j : Fin n, j.val + 1 = i.val → values j < values i

instance (values : Fin n → K) (i : Fin n) : Decidable (IsPeak values i) :=
  decidable_of_iff
    (0 < values i ∧ (∀ j : Fin n, j.val + 1 = i.val → values j ≤ values i) ∧
      (∀ j : Fin n, j.val = i.val + 1 → values j < values i) ∧
      (i.val + 1 = n → ∀ j : Fin n, j.val + 1 = i.val → values j < values i))
    ⟨fun ⟨hPositive, hBefore, hAfter, hLast⟩ => ⟨hPositive, hBefore, hAfter, hLast⟩,
      fun ⟨hPositive, hBefore, hAfter, hLast⟩ => ⟨hPositive, hBefore, hAfter, hLast⟩⟩

/-- A peak of the numbers or of their negatives. -/
def IsLocalExtremum (values : Fin n → K) (i : Fin n) : Prop :=
  IsPeak values i ∨ IsPeak (fun j => -values j) i

instance (values : Fin n → K) (i : Fin n) : Decidable (IsLocalExtremum values i) :=
  inferInstanceAs (Decidable (_ ∨ _))

/-! ## Peaks by position -/

theorem isPeak_first {values : Fin n → K} {i next : Fin n} (hFirst : i.val = 0)
    (hNext : next.val = i.val + 1) :
    IsPeak values i ↔ 0 < values i ∧ values next < values i := by
  constructor
  · intro hPeak
    exact ⟨hPeak.positive, hPeak.after next hNext⟩
  · rintro ⟨hPositive, hAfter⟩
    refine ⟨hPositive, fun j hj => by omega, fun j hj => ?_, fun _ j hj => by omega⟩
    rwa [Fin.ext (hj.trans hNext.symm)]

theorem isPeak_inner {values : Fin n → K} {i previous next : Fin n}
    (hPrevious : previous.val + 1 = i.val) (hNext : next.val = i.val + 1) :
    IsPeak values i ↔
      values previous ≤ values i ∧ values next < values i ∧ 0 < values i := by
  constructor
  · intro hPeak
    exact ⟨hPeak.before previous hPrevious, hPeak.after next hNext, hPeak.positive⟩
  · rintro ⟨hBefore, hAfter, hPositive⟩
    refine ⟨hPositive, fun j hj => ?_, fun j hj => ?_, fun hLast => by omega⟩
    · rwa [Fin.ext (Nat.succ_injective (hj.trans hPrevious.symm))]
    · rwa [Fin.ext (hj.trans hNext.symm)]

theorem isPeak_last {values : Fin n → K} {i previous : Fin n}
    (hPrevious : previous.val + 1 = i.val) (hLast : i.val + 1 = n) :
    IsPeak values i ↔ 0 < values i ∧ values previous < values i := by
  constructor
  · intro hPeak
    exact ⟨hPeak.positive, hPeak.last hLast previous hPrevious⟩
  · rintro ⟨hPositive, hBefore⟩
    have hSame (j : Fin n) (hj : j.val + 1 = i.val) : values j < values i := by
      rwa [Fin.ext (Nat.succ_injective (hj.trans hPrevious.symm))]
    exact ⟨hPositive, fun j hj => (hSame j hj).le, fun j hj => by omega, fun _ => hSame⟩

theorem IsLocalExtremum.ne_zero [IsStrictOrderedRing K] {values : Fin n → K} {i : Fin n}
    (hExtremum : IsLocalExtremum values i) : values i ≠ 0 := by
  rcases hExtremum with hPeak | hPeak
  · exact hPeak.positive.ne'
  · exact (neg_pos.mp hPeak.positive).ne

/-! ## The extrema that are collected -/

section Collected

variable {α : Type} {errors : Vector α n}

theorem leftNeighbour?_eq {i previous : Fin n} (hPrevious : previous.val + 1 = i.val) :
    leftNeighbour? errors i = some (errors.get previous) := by
  have hIndex : i.val - 1 = previous.val := by omega
  rw [leftNeighbour?, if_neg (by omega), hIndex]
  exact Vector.getElem?_eq_getElem previous.isLt

theorem rightNeighbour?_eq {i next : Fin n} (hNext : next.val = i.val + 1) :
    errors[i.val + 1]? = some (errors.get next) := by
  rw [← hNext]
  exact Vector.getElem?_eq_getElem next.isLt

variable [Scalar α]

theorem mem_extrema (i : Fin n) :
    i ∈ extrema errors ↔
      isExtremum (leftNeighbour? errors i) errors[i.val + 1]? (errors.get i) = true := by
  rw [extrema, List.mem_filter, and_iff_right (List.mem_finRange i)]
  rfl

theorem extrema_pairwise : (extrema errors).Pairwise (· < ·) :=
  (List.pairwise_lt_finRange n).filter _

variable [IsStrictOrderedRing K] {values : Fin n → K}

/-- The extrema that are collected are the local extrema, as long as there are two errors. -/
theorem ReadAs.mem_extrema_iff (hReads : ReadAs errors values) (hTwo : 2 ≤ n) (i : Fin n) :
    i ∈ extrema errors ↔ IsLocalExtremum values i := by
  rw [mem_extrema, IsLocalExtremum]
  by_cases hFirst : i.val = 0
  · obtain ⟨next, hNext⟩ : ∃ next : Fin n, next.val = i.val + 1 := ⟨⟨i.val + 1, by omega⟩, rfl⟩
    rw [leftNeighbour?, if_pos hFirst, rightNeighbour?_eq hNext, isPeak_first hFirst hNext,
      isPeak_first hFirst hNext]
    simp only [isExtremum, hReads.lt_iff, hReads.pos_iff, hReads.neg_iff, Bool.or_eq_true,
      decide_eq_true_eq, Left.neg_pos_iff, neg_lt_neg_iff]
  · obtain ⟨previous, hPrevious⟩ : ∃ previous : Fin n, previous.val + 1 = i.val :=
      ⟨⟨i.val - 1, by omega⟩, Nat.succ_pred hFirst⟩
    rw [leftNeighbour?_eq hPrevious]
    by_cases hLast : i.val + 1 = n
    · rw [Vector.getElem?_eq_none (by omega), isPeak_last hPrevious hLast,
        isPeak_last hPrevious hLast]
      simp only [isExtremum, hReads.lt_iff, hReads.pos_iff, hReads.neg_iff, Bool.or_eq_true,
        decide_eq_true_eq, Left.neg_pos_iff, neg_lt_neg_iff]
    · obtain ⟨next, hNext⟩ : ∃ next : Fin n, next.val = i.val + 1 :=
        ⟨⟨i.val + 1, by omega⟩, rfl⟩
      rw [rightNeighbour?_eq hNext, isPeak_inner hPrevious hNext, isPeak_inner hPrevious hNext]
      simp only [isExtremum, hReads.lt_iff, hReads.le_iff, hReads.pos_iff, hReads.neg_iff,
        Bool.or_eq_true, decide_eq_true_eq, Left.neg_pos_iff, neg_lt_neg_iff, neg_le_neg_iff]

/-- The local extrema in increasing order are the ones that are collected. -/
theorem ReadAs.extrema_eq (hReads : ReadAs errors values) (hTwo : 2 ≤ n) {found : List (Fin n)}
    (hSorted : found.Pairwise (· < ·)) (hFound : ∀ i, i ∈ found ↔ IsLocalExtremum values i) :
    extrema errors = found := by
  have hSame (i : Fin n) : i ∈ extrema errors ↔ i ∈ found :=
    (hReads.mem_extrema_iff hTwo i).trans (hFound i).symm
  have hPerm : (extrema errors).Perm found :=
    (List.perm_ext_iff_of_nodup (extrema_pairwise.imp ne_of_lt) (hSorted.imp ne_of_lt)).mpr hSame
  exact hPerm.eq_of_pairwise (fun i j _ _ hLess hMore => absurd hLess hMore.asymm)
    extrema_pairwise hSorted

end Collected

end Filter
end Pushbroom
