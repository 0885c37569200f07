import Pushbroom.Attitude.Interpolation
import Pushbroom.Proofs.Failure
import Pushbroom.Proofs.Scalar.Counting

namespace Pushbroom
namespace Attitude
namespace Sequence

/-!
# The span that attitudes are interpolated in

The test for the sampled span rejects an offset that lies before the first sample or has no
sample after it.  An offset that is a number and passes has a sample on either side.  One that
is no number is not rejected and points at the first sample: the attitude is then no number
either, and a sequence of one sample is read past its end.
-/

section Steps

variable {α : Type}

theorem sampleAt_of_lt {sequence : Sequence α} {index : ℕ} (hIndex : index < sequence.size) :
    sequence.sampleAt index = .ok sequence.samples[index] := by
  simp only [sampleAt, Array.getElem?_eq_getElem hIndex]

theorem sampleAt_of_size_le {sequence : Sequence α} {index : ℕ}
    (hIndex : sequence.size ≤ index) :
    sequence.sampleAt index = .error (.indexOutOfRange index sequence.size) := by
  simp only [sampleAt, Array.getElem?_eq_none hIndex]

theorem eq_singleton_of_size {sequence : Sequence α} {first : Sample α}
    (hFirst : sequence.samples[0]? = some first) (hLone : sequence.size = 1) :
    sequence.samples = #[first] := by
  obtain ⟨only, hOnly⟩ := Array.size_eq_one_iff.mp hLone
  rw [hOnly] at hFirst ⊢
  exact congrArg (fun sample => #[sample]) (Option.some.inj hFirst)

variable [Scalar α]

/-- The attitude of a channel `offset` samples after the first one. -/
def attitudeFrom (sequence : Sequence α) (channel : Channel) (offset : α) :
    Except (Error α) (Vec3 α) := do
  let lower := Scalar.floor offset
  let before ← sequence.sampleAt (Scalar.toPosition lower)
  let after ← sequence.sampleAt (Scalar.toPosition lower + 1)
  return (before.channel channel).between (after.channel channel) (offset - lower)

/-- The span test does not reject an offset. -/
def Passes (sequence : Sequence α) (offset : α) : Prop :=
  ¬(Scalar.floor offset < 0 ∨ ((sequence.size - 1 : ℕ) : α) < Scalar.floor offset + 1)

/-- What interpolation does with a sequence: two checks of the sequence and one of the time come
before the samples are looked up. -/
inductive Interpolates (sequence : Sequence α) (channel : Channel) (time : α) :
    Except (Error α) (Vec3 α) → Prop where
  | interval (hInterval : ¬0 < sequence.interval) :
      Interpolates sequence channel time (.error (.sampleTime sequence.interval))
  | empty (hEmpty : sequence.size = 0) :
      Interpolates sequence channel time (.error .emptySequence)
  | rejected : Interpolates sequence channel time (.error (.timeOutOfRange time))
  | passed {first : Sample α} (hInterval : 0 < sequence.interval)
      (hFirst : sequence.samples[0]? = some first)
      (hPasses : sequence.Passes ((time - first.time) / sequence.interval)) :
      Interpolates sequence channel time
        (sequence.attitudeFrom channel ((time - first.time) / sequence.interval))

theorem interpolate_of_passes {sequence : Sequence α} (hInterval : 0 < sequence.interval)
    {first : Sample α} (hFirst : sequence.samples[0]? = some first) (channel : Channel) {time : α}
    (hPasses : sequence.Passes ((time - first.time) / sequence.interval)) :
    sequence.interpolate channel time =
      sequence.attitudeFrom channel ((time - first.time) / sequence.interval) := by
  simp only [interpolate, positiveInterval, if_pos hInterval, firstTime, hFirst, Failure.ok_bind,
    if_neg hPasses]
  rfl

theorem interpolates_interpolate (sequence : Sequence α) (channel : Channel) (time : α) :
    Interpolates sequence channel time (sequence.interpolate channel time) := by
  by_cases hInterval : 0 < sequence.interval
  · cases hFirst : sequence.samples[0]? with
    | none =>
        have hFails : sequence.interpolate channel time = .error .emptySequence := by
          simp only [interpolate, positiveInterval, if_pos hInterval, firstTime, hFirst]
          rfl
        rw [hFails]
        exact Interpolates.empty (Nat.eq_zero_of_le_zero (Array.getElem?_eq_none_iff.mp hFirst))
    | some first =>
        by_cases hPasses : sequence.Passes ((time - first.time) / sequence.interval)
        · rw [interpolate_of_passes hInterval hFirst channel hPasses]
          exact Interpolates.passed hInterval hFirst hPasses
        · have hFails : sequence.interpolate channel time = .error (.timeOutOfRange time) := by
            simp only [interpolate, positiveInterval, if_pos hInterval, firstTime, hFirst,
              Failure.ok_bind, if_pos (not_not.mp hPasses)]
            rfl
          rw [hFails]
          exact Interpolates.rejected
  · have hFails : sequence.interpolate channel time =
        .error (.sampleTime sequence.interval) := by
      simp only [interpolate, positiveInterval, if_neg hInterval]
      rfl
    rw [hFails]
    exact Interpolates.interval hInterval

/-- An offset that points at a sample with another one after it has an attitude. -/
theorem attitudeFrom_of_lt {sequence : Sequence α} {offset : α}
    (hInside : Scalar.toPosition (Scalar.floor offset) + 1 < sequence.size) (channel : Channel) :
    ∃ attitude, sequence.attitudeFrom channel offset = .ok attitude := by
  simp only [attitudeFrom, sampleAt_of_lt (Nat.lt_of_succ_lt hInside), sampleAt_of_lt hInside,
    Failure.ok_bind]
  exact ⟨_, rfl⟩

end Steps

/-! ## Doubles -/

variable {sequence : Sequence Float} {offset : Float}

/-- The span test lets an offset through that is no number. -/
theorem passes_of_isNaN (hNaN : offset.isNaN = true) : sequence.Passes offset := by
  have hFloor : (Scalar.floor offset).isNaN = true := by
    rw [Binary64.eq_nan_of_isNaN hNaN]
    rfl
  rintro (hLow | hHigh)
  · exact Binary64.not_lt_of_isNaN (Or.inl hFloor) hLow
  · exact Binary64.not_lt_of_isNaN (Or.inr (Binary64.isNaN_add (Or.inl hFloor))) hHigh

theorem toPosition_floor_of_isNaN (hNaN : offset.isNaN = true) :
    Scalar.toPosition (Scalar.floor offset) = 0 := by
  rw [Binary64.eq_nan_of_isNaN hNaN]
  rfl

/-- Between the first two samples an offset that is no number is looked up. -/
theorem attitudeFrom_of_isNaN (hNaN : offset.isNaN = true) (hSeveral : 1 < sequence.size)
    (channel : Channel) : ∃ attitude, sequence.attitudeFrom channel offset = .ok attitude := by
  refine attitudeFrom_of_lt ?_ channel
  rw [toPosition_floor_of_isNaN hNaN]
  exact hSeveral

/-- An offset that is a number and passes has a sample on either side. -/
theorem attitudeFrom_of_passes (hNumber : ¬offset.isNaN = true) (hPasses : sequence.Passes offset)
    (hSome : 0 < sequence.size) (hSmall : sequence.size ≤ 2 ^ 53) (channel : Channel) :
    ∃ attitude, sequence.attitudeFrom channel offset = .ok attitude := by
  -- beyond `2⁵³` the sum with one may be rounded down, and an offset past the samples passes
  obtain ⟨hLow, hHigh⟩ := not_or.mp hPasses
  have hInside := Binary64.toPosition_lt_of_tests hNumber hLow hHigh (by omega)
  exact attitudeFrom_of_lt (by omega) channel

/-- A lone sample is read past its end when the offset is no number. -/
theorem attitudeFrom_lone (hNaN : offset.isNaN = true) (hLone : sequence.size = 1)
    (channel : Channel) :
    sequence.attitudeFrom channel offset = .error (.indexOutOfRange 1 1) := by
  have hBefore : sequence.sampleAt 0 = .ok _ :=
    sampleAt_of_lt (hLone.symm ▸ Nat.zero_lt_one)
  have hAfter : sequence.sampleAt (0 + 1) = .error (.indexOutOfRange (0 + 1) sequence.size) :=
    sampleAt_of_size_le hLone.le
  simp only [attitudeFrom, toPosition_floor_of_isNaN hNaN, hBefore, hAfter, hLone,
    Failure.ok_bind]
  rfl

/-- A lookup out of the samples comes from an offset that is no number and a lone sample, or
from more samples than doubles can count. -/
theorem of_interpolate_eq_indexOutOfRange {channel : Channel} {time : Float} {index size : ℕ}
    (hFails : sequence.interpolate channel time = .error (.indexOutOfRange index size)) :
    0 < sequence.interval ∧ ((∃ only, sequence.samples = #[only] ∧
      ((time - only.time) / sequence.interval).isNaN = true) ∨ 2 ^ 53 < sequence.size) := by
  have hInterpolates := interpolates_interpolate sequence channel time
  generalize sequence.interpolate channel time = result at hInterpolates hFails
  cases hInterpolates with
  | interval => cases hFails
  | empty => cases hFails
  | rejected => cases hFails
  | @passed first hInterval hFirst hPasses =>
      refine ⟨hInterval, or_iff_not_imp_right.mpr fun hLarge => ?_⟩
      obtain ⟨hSome, hGet⟩ := Array.getElem?_eq_some_iff.mp hFirst
      by_cases hNaN : ((time - first.time) / sequence.interval).isNaN = true
      · rcases Nat.lt_or_ge 1 sequence.size with hSeveral | hLone
        · obtain ⟨attitude, hOk⟩ := attitudeFrom_of_isNaN hNaN hSeveral channel
          cases hOk.symm.trans hFails
        · refine ⟨first, ?_, hNaN⟩
          exact eq_singleton_of_size hFirst (Nat.le_antisymm hLone hSome)
      · obtain ⟨attitude, hOk⟩ :=
          attitudeFrom_of_passes hNaN hPasses hSome (Nat.le_of_not_lt hLarge) channel
        cases hOk.symm.trans hFails

/-- At a time that is no number there is an attitude whenever there are two samples to look it
up between. -/
theorem exists_interpolate_of_isNaN {time : Float} (hNaN : time.isNaN = true)
    (channel : Channel) : (∃ attitude, sequence.interpolate channel time = .ok attitude) ↔
      0 < sequence.interval ∧ 1 < sequence.size := by
  have hOffset (first : Float) : ((time - first) / sequence.interval).isNaN = true :=
    Binary64.isNaN_div (Or.inl (Binary64.isNaN_sub (Or.inl hNaN)))
  constructor
  · rintro ⟨attitude, hOk⟩
    have hInterpolates := interpolates_interpolate sequence channel time
    generalize sequence.interpolate channel time = result at hInterpolates hOk
    cases hInterpolates with
    | interval => cases hOk
    | empty => cases hOk
    | rejected => cases hOk
    | @passed first hInterval hFirst hPasses =>
        refine ⟨hInterval, ?_⟩
        by_contra hFew
        have hSome : 0 < sequence.size := (Array.getElem?_eq_some_iff.mp hFirst).1
        cases (attitudeFrom_lone (hOffset _) (by omega) channel).symm.trans hOk
  · rintro ⟨hInterval, hSeveral⟩
    obtain ⟨first, hFirst⟩ : ∃ first, sequence.samples[0]? = some first :=
      ⟨_, Array.getElem?_eq_getElem (Nat.lt_of_succ_lt hSeveral)⟩
    rw [interpolate_of_passes hInterval hFirst channel (passes_of_isNaN (hOffset _))]
    exact attitudeFrom_of_isNaN (hOffset _) hSeveral channel

/-- What the span test does not reject.  A lone sample is read past its end at every time whose
offset is no number, and sequences that doubles can count are read past their end in no other
way.  At a time that is no number, every other sequence with a positive interval has an
attitude. -/
theorem interpolate_notANumber (sequence : Sequence Float) (channel : Channel) (time : Float) :
    (∀ only, sequence.samples = #[only] → 0 < sequence.interval →
      ((time - only.time) / sequence.interval).isNaN = true →
        sequence.interpolate channel time = .error (.indexOutOfRange 1 1)) ∧
      (∀ index size, sequence.interpolate channel time = .error (.indexOutOfRange index size) →
        0 < sequence.interval ∧ ((∃ only, sequence.samples = #[only] ∧
          ((time - only.time) / sequence.interval).isNaN = true) ∨ 2 ^ 53 < sequence.size)) ∧
      (time.isNaN = true → ((∃ attitude, sequence.interpolate channel time = .ok attitude) ↔
        0 < sequence.interval ∧ 1 < sequence.size)) := by
  refine ⟨fun only hOnly hInterval hNaN => ?_,
    fun index size hFails => of_interpolate_eq_indexOutOfRange hFails,
    fun hNaN => exists_interpolate_of_isNaN hNaN channel⟩
  have hFirst : sequence.samples[0]? = some only := by
    rw [hOnly]
    rfl
  have hLone : sequence.size = 1 := by
    rw [size, hOnly]
    rfl
  rw [interpolate_of_passes hInterval hFirst channel (passes_of_isNaN hNaN)]
  exact attitudeFrom_lone hNaN hLone channel

/-- A sequence of one sample. -/
def lone : Sequence Float :=
  ⟨Epoch.default, 1, #[.ofAngles 0 ⟨0, 0, 0⟩]⟩

/-- A sequence of two samples, one second apart. -/
def pair : Sequence Float :=
  ⟨Epoch.default, 1, #[.ofAngles 0 ⟨0, 0, 0⟩, .ofAngles 1 ⟨1, 1, 1⟩]⟩

theorem interpolate_notANumber_lone_pair :
    lone.interpolate .satellite Float.nan = .error (.indexOutOfRange 1 1) ∧
      ∃ attitude, pair.interpolate .precision Float.nan = .ok attitude :=
  ⟨(interpolate_notANumber lone .satellite Float.nan).1 _ rfl (by decide) rfl,
    ((interpolate_notANumber pair .precision Float.nan).2.2 rfl).mpr ⟨by decide, by decide⟩⟩

/-- Neither a lookup out of the samples nor a time that is no number is ruled out. -/
theorem exists_interpolate_notANumber :
    (∃ (sequence : Sequence Float) (channel : Channel) (time : Float) (index size : ℕ),
      sequence.interpolate channel time = .error (.indexOutOfRange index size)) ∧
      ∃ (sequence : Sequence Float) (channel : Channel) (time : Float) (attitude : Vec3 Float),
        time.isNaN = true ∧ sequence.interpolate channel time = .ok attitude :=
  ⟨⟨lone, .satellite, Float.nan, 1, 1, rfl⟩, ⟨pair, .precision, Float.nan, _, rfl, rfl⟩⟩

end Sequence
end Attitude
end Pushbroom
