import Pushbroom.Proofs.Scalar.Exact
import Pushbroom.Proofs.UndefinedTimes

namespace Pushbroom
namespace Mirror

/-!
# Angles of the mirror

In exact arithmetic, and for samples that do not go back in time, there is an angle from the first
sample to the last.  The search parts the samples that are earlier than a time from the others, so
the two samples that it ends at have the time between them, wherever times repeat.  What is
interpolated between two samples around a time depends on the two alone; where no two times are
equal there is only one value it can have, that of a scan through the samples in their order.
-/

section Samples

variable {α : Type}

/-- The times of the samples, in their order. -/
def times (mirror : Mirror α) : List α :=
  mirror.samples.toList.map Sample.time

variable [LinearOrder α] {mirror : Mirror α}

theorem time_le_of_le (hOrdered : mirror.times.Pairwise (· ≤ ·)) {i j : ℕ} (hOrder : i ≤ j)
    (hIndex : j < mirror.samples.size) : mirror.samples[i].time ≤ mirror.samples[j].time := by
  rcases hOrder.eq_or_lt with rfl | hLess
  · exact le_rfl
  · simpa [times] using List.pairwise_iff_getElem.mp hOrdered i j
      (by simpa [times] using hLess.trans hIndex) (by simpa [times] using hIndex) hLess

/-- Of samples at different times the later one has a later time. -/
theorem time_lt_of_lt (hOrdered : mirror.times.Pairwise (· ≤ ·)) (hDistinct : mirror.times.Nodup)
    {i j : ℕ} (hOrder : i < j) (hIndex : j < mirror.samples.size) :
    mirror.samples[i].time < mirror.samples[j].time := by
  refine lt_of_le_of_ne (time_le_of_le hOrdered hOrder.le hIndex) ?_
  simpa [times] using List.pairwise_iff_getElem.mp hDistinct i j
    (by simpa [times] using hOrder.trans hIndex) (by simpa [times] using hIndex) hOrder

end Samples

variable {K : Type} [Field K]

/-! ## The scan -/

/-- The point at a time of the straight line through two samples. -/
def chord (before after : Sample K) (time : K) : K :=
  before.angle +
    (after.angle - before.angle) / (after.time - before.time) * (time - before.time)

theorem chord_at_first (before after : Sample K) :
    chord before after before.time = before.angle := by
  simp [chord]

variable [LinearOrder K]

theorem chord_at_second [IsStrictOrderedRing K] {before after : Sample K}
    (hLater : before.time < after.time) :
    chord before after after.time = after.angle := by
  rw [chord, div_mul_cancel₀ _ (sub_pos.mpr hLater).ne', add_sub_cancel]

/-- Goes through the samples in their order, up to the first two that have a time between them,
and takes the point of the straight line through these. -/
def scan (time : K) : List (Sample K) → Option K
  | [] => none
  | [only] => if only.time = time then some only.angle else none
  | before :: after :: rest =>
    if before.time ≤ time ∧ time ≤ after.time then some (chord before after time)
    else scan time (after :: rest)

section Scan

variable {samples : List (Sample K)} {time : K}

/-- The scan may stop at an earlier pair than the one with a time between them that is known, but
only where the time is that of a sample that both pairs share. -/
theorem scan_of_neighbours [IsStrictOrderedRing K]
    (hIncreasing : samples.Pairwise fun before after => before.time < after.time) {i : ℕ}
    (hNext : i + 1 < samples.length) (hBefore : samples[i].time ≤ time)
    (hAfter : time ≤ samples[i + 1].time) :
    scan time samples = some (chord samples[i] samples[i + 1] time) := by
  fun_induction scan time samples generalizing i with
  | case1 => simp at hNext
  | case2 only => simp at hNext
  | case3 only hOther => simp at hNext
  | case4 before after rest hBetween =>
      cases i with
      | zero => rfl
      | succ i =>
          have hRest := (List.pairwise_cons.mp hIncreasing).2
          have hFirst : i = 0 := by
            by_contra hLater
            have hPast := List.pairwise_iff_getElem.mp hRest 0 i (Nat.succ_pos _)
              (Nat.lt_of_succ_lt (Nat.lt_of_succ_lt_succ hNext)) (Nat.pos_of_ne_zero hLater)
            exact absurd (hPast.trans_le hBefore) (not_lt.mpr hBetween.2)
          subst hFirst
          obtain rfl : time = after.time := le_antisymm hBetween.2 hBefore
          have hStep : before.time < after.time :=
            (List.pairwise_cons.mp hIncreasing).1 after List.mem_cons_self
          simp only [List.getElem_cons_succ, List.getElem_cons_zero, chord_at_second hStep,
            chord_at_first]
  | case5 before after rest hBetween ih =>
      cases i with
      | zero => exact absurd ⟨hBefore, hAfter⟩ hBetween
      | succ i =>
          exact ih (List.pairwise_cons.mp hIncreasing).2 (Nat.lt_of_succ_lt_succ hNext) hBefore
            hAfter

theorem scan_of_outside (hOutside : (∀ sample ∈ samples, time < sample.time) ∨
    ∀ sample ∈ samples, sample.time < time) : scan time samples = none := by
  fun_induction scan time samples with
  | case1 => rfl
  | case2 only hSame => simp [hSame] at hOutside
  | case3 only hOther => rfl
  | case4 before after rest hBetween =>
      rcases hOutside with hEarly | hLate
      · exact absurd (hEarly before (by simp)) (not_lt.mpr hBetween.1)
      · exact absurd (hLate after (by simp)) (not_lt.mpr hBetween.2)
  | case5 before after rest hBetween ih =>
      exact ih (hOutside.imp (fun hEarly sample hMem => hEarly sample (List.mem_cons_of_mem _ hMem))
        fun hLate sample hMem => hLate sample (List.mem_cons_of_mem _ hMem))

end Scan

variable [FloorRing K]

/-! ## The search -/

/-- The samples before an index are earlier than a time, and no others. -/
structure PartedAt (samples : Array (Sample K)) (time : K) (index : ℕ) : Prop where
  earlier : ∀ i (hIndex : i < samples.size), i < index → samples[i].time < time
  others : ∀ i (hIndex : i < samples.size), index ≤ i → time ≤ samples[i].time

/-- What is left out of the range on either side stays earlier, or not, than the time. -/
theorem bisect_parted {mirror : Mirror K} (hOrdered : mirror.times.Pairwise (· ≤ ·)) (time : K)
    (base size : ℕ) (hRange : base + size ≤ mirror.samples.size)
    (hEarlier : ∀ i (hIndex : i < mirror.samples.size), i < base → mirror.samples[i].time < time)
    (hOthers : ∀ i (hIndex : i < mirror.samples.size), base + size ≤ i →
      time ≤ mirror.samples[i].time) :
    PartedAt mirror.samples time (bisect mirror.samples time base size hRange) := by
  fun_induction bisect mirror.samples time base size hRange with
  | case1 base size hRange hSeveral half hMiddle hBefore ih =>
      refine ih (fun i hIndex hLess => ?_) fun i hIndex hPast => ?_
      · exact (time_le_of_le hOrdered hLess.le hMiddle).trans_lt hBefore
      · exact hOthers i hIndex (by omega)
  | case2 base size hRange hSeveral half hMiddle hBefore ih =>
      refine ih hEarlier fun i hIndex hPast => ?_
      exact (not_lt.mp hBefore).trans (time_le_of_le hOrdered (by omega) hIndex)
  | case3 base size hRange hSingle sample hSample hBefore =>
      obtain ⟨hBase, rfl⟩ := Array.getElem?_eq_some_iff.mp hSample
      refine ⟨fun i hIndex hLess => ?_, fun i hIndex hPast => hOthers i hIndex (by omega)⟩
      exact (time_le_of_le hOrdered (Nat.le_of_lt_succ hLess) hBase).trans_lt hBefore
  | case4 base size hRange hSingle sample hSample hBefore =>
      obtain ⟨hBase, rfl⟩ := Array.getElem?_eq_some_iff.mp hSample
      refine ⟨hEarlier, fun i hIndex hPast => ?_⟩
      exact (not_lt.mp hBefore).trans (time_le_of_le hOrdered hPast hIndex)
  | case5 base size hRange hSingle hNone =>
      have hPastEnd := Array.getElem?_eq_none_iff.mp hNone
      exact ⟨hEarlier, fun i hIndex hPast => absurd hIndex (by omega)⟩

theorem earlierCount_parted {mirror : Mirror K} (hOrdered : mirror.times.Pairwise (· ≤ ·))
    (time : K) : PartedAt mirror.samples time (earlierCount mirror.samples time) :=
  bisect_parted hOrdered time 0 mirror.samples.size _
    (fun i _ hLess => absurd hLess (Nat.not_lt_zero i))
    fun i hIndex hPast => absurd hIndex (by omega)

/-! ## Between two samples -/

section Between

variable {before after : Sample K} {time : K}

theorem angleBetween_at_first (before after : Sample K) :
    angleBetween before after before.time = before.angle := by
  simp [angleBetween]

variable [IsStrictOrderedRing K]

theorem angleBetween_eq_chord (hLater : before.time < after.time) (time : K) :
    angleBetween before after time = chord before after time := by
  have hSpan : 0 < after.time - before.time := sub_pos.mpr hLater
  simp only [angleBetween, if_neg hSpan.not_ge, chord]
  field_simp
  ring

/-- An angle between two samples around its time is between their angles. -/
theorem angleBetween_mem (hLow : before.time ≤ time) (hHigh : time ≤ after.time) :
    angleBetween before after time ∈ Set.uIcc before.angle after.angle := by
  rcases (hLow.trans hHigh).eq_or_lt with hSame | hLater
  · obtain rfl : time = before.time := le_antisymm (hHigh.trans hSame.ge) hLow
    rw [angleBetween_at_first]
    exact Set.left_mem_uIcc
  · have hSpan : 0 < after.time - before.time := sub_pos.mpr hLater
    have hNonneg : 0 ≤ (time - before.time) / (after.time - before.time) :=
      div_nonneg (sub_nonneg.mpr hLow) hSpan.le
    have hAtMost : (time - before.time) / (after.time - before.time) ≤ 1 :=
      (div_le_one hSpan).mpr (sub_le_sub_right hHigh _)
    have hWeighed := convex_uIcc before.angle after.angle Set.left_mem_uIcc Set.right_mem_uIcc
      (sub_nonneg.mpr hAtMost) hNonneg (sub_add_cancel _ _)
    simpa only [angleBetween, if_neg hSpan.not_ge, smul_eq_mul, mul_comm] using hWeighed

end Between

/-! ## The angle -/

section Angle

variable {mirror : Mirror K} (hSome : 0 < mirror.samples.size) {time : K}

include hSome

theorem angleAt_of_outside (hOutside : ¬(mirror.samples[0].time ≤ time ∧
      time ≤ (mirror.samples.back hSome).time)) :
    mirror.angleAt time = .error (.timeOutOfRange time) := by
  obtain ⟨angle, hAngle⟩ := exists_angleAt_eq hSome time
  rw [hAngle, if_pos]
  rwa [not_and_or, not_le, not_le] at hOutside

theorem exists_angleAt_iff : (∃ angle, mirror.angleAt time = .ok angle) ↔
    mirror.samples[0].time ≤ time ∧ time ≤ (mirror.samples.back hSome).time := by
  constructor
  · rintro ⟨angle, hOk⟩
    by_contra hOutside
    rw [angleAt_of_outside hSome hOutside] at hOk
    cases hOk
  · rintro ⟨hLow, hHigh⟩
    obtain ⟨angle, hAngle⟩ := exists_angleAt_eq hSome time
    exact ⟨angle, hAngle.trans (if_neg (not_or.mpr ⟨not_lt.mpr hLow, not_lt.mpr hHigh⟩))⟩

/-- The angle is interpolated between two neighbours with the time between them; a single sample
is its own neighbour. -/
theorem exists_neighbours (hOrdered : mirror.times.Pairwise (· ≤ ·))
    (hLow : mirror.samples[0].time ≤ time)
    (hHigh : time ≤ (mirror.samples.back hSome).time) :
    ∃ (i j : ℕ) (hFirst : i < mirror.samples.size) (hSecond : j < mirror.samples.size),
      (j = i + 1 ∨ mirror.samples.size = 1) ∧
      mirror.samples[i].time ≤ time ∧ time ≤ mirror.samples[j].time ∧
      mirror.angleAt time = .ok (angleBetween mirror.samples[i] mirror.samples[j] time) := by
  have hParted := earlierCount_parted hOrdered time
  rw [Array.back_eq_getElem] at hHigh
  have hInside : ¬(time < mirror.samples[0].time ∨
      mirror.samples[mirror.samples.size - 1].time < time) :=
    not_or.mpr ⟨not_lt.mpr hLow, not_lt.mpr hHigh⟩
  simp only [angleAt, ends_of_pos hSome, Failure.ok_bind, if_neg hInside]
  generalize earlierCount mirror.samples time = count at hParted ⊢
  split
  · rename_i hUpper
    have hSingle : mirror.samples.size = 1 := by omega
    have hTime : mirror.samples[0].time = time := by
      simp only [hSingle] at hHigh
      exact le_antisymm hLow hHigh
    refine ⟨0, 0, hSome, hSome, Or.inr hSingle, hLow, hTime.ge, ?_⟩
    rw [← hTime, angleBetween_at_first]
    rfl
  · rename_i hUpper
    -- the count is brought among the samples that have one before them
    generalize hPlace : min (max count 1) (mirror.samples.size - 1) = upper at hUpper ⊢
    have hBelow : upper < mirror.samples.size := by omega
    refine ⟨upper - 1, upper, by omega, hBelow, Or.inl (by omega), ?_, ?_, ?_⟩
    · rcases Nat.eq_zero_or_pos count with hNone | hCounted
      · simp only [show upper - 1 = 0 by omega]
        exact hLow
      · exact (hParted.earlier (upper - 1) (by omega) (by omega)).le
    · rcases Nat.lt_or_ge count mirror.samples.size with hInner | hAll
      · exact hParted.others upper hBelow (by omega)
      · simp only [show upper = mirror.samples.size - 1 by omega]
        exact hHigh
    · rw [sampleAt_of_lt (by omega), sampleAt_of_lt hBelow]
      rfl

variable [IsStrictOrderedRing K] (hOrdered : mirror.times.Pairwise (· ≤ ·))

include hOrdered

theorem exists_neighbours_of_angleAt {angle : K} (hOk : mirror.angleAt time = .ok angle) :
    ∃ (i j : ℕ) (hFirst : i < mirror.samples.size) (hSecond : j < mirror.samples.size),
      (j = i + 1 ∨ mirror.samples.size = 1) ∧
      mirror.samples[i].time ≤ time ∧ time ≤ mirror.samples[j].time ∧
      angle ∈ Set.uIcc mirror.samples[i].angle mirror.samples[j].angle := by
  obtain ⟨hLow, hHigh⟩ := (exists_angleAt_iff hSome).mp ⟨angle, hOk⟩
  obtain ⟨i, j, hFirst, hSecond, hNext, hBefore, hAfter, hAngle⟩ :=
    exists_neighbours hSome hOrdered hLow hHigh
  obtain rfl := Except.ok.inj (hOk.symm.trans hAngle)
  exact ⟨i, j, hFirst, hSecond, hNext, hBefore, hAfter, angleBetween_mem hBefore hAfter⟩

/-- A time at which there is one sample alone has that sample among its neighbours. -/
theorem angleAt_of_unique {k : ℕ} (hIndex : k < mirror.samples.size)
    (hUnique : ∀ i (hOther : i < mirror.samples.size),
      mirror.samples[i].time = mirror.samples[k].time → i = k) :
    mirror.angleAt mirror.samples[k].time = .ok mirror.samples[k].angle := by
  obtain ⟨i, j, hFirst, hSecond, hNext, hBefore, hAfter, hAngle⟩ :=
    exists_neighbours hSome hOrdered (time_le_of_le hOrdered (Nat.zero_le k) hIndex)
      (time_le_of_le hOrdered (Nat.le_sub_one_of_lt hIndex) (Nat.sub_one_lt hSome.ne'))
  have hNotBefore : i ≤ k := by
    refine Nat.le_of_not_lt fun hLess => hLess.ne' (hUnique i hFirst ?_)
    exact le_antisymm hBefore (time_le_of_le hOrdered hLess.le hFirst)
  have hNotAfter : k ≤ j := by
    refine Nat.le_of_not_lt fun hLess => hLess.ne (hUnique j hSecond ?_)
    exact le_antisymm (time_le_of_le hOrdered hLess.le hIndex) hAfter
  rw [hAngle]
  rcases hNotBefore.eq_or_lt with rfl | hLess
  · rw [angleBetween_at_first]
  · obtain rfl : k = j := by omega
    have hLater : mirror.samples[i].time < mirror.samples[k].time :=
      lt_of_le_of_ne hBefore fun hSame => hLess.ne (hUnique i hFirst hSame)
    rw [angleBetween_eq_chord hLater, chord_at_second hLater]

end Angle

/-- Where no two times are equal the search finds what the scan finds. -/
theorem angleAt_eq_scan [IsStrictOrderedRing K] {mirror : Mirror K}
    (hSome : 0 < mirror.samples.size) (hOrdered : mirror.times.Pairwise (· ≤ ·))
    (hDistinct : mirror.times.Nodup) (time : K) :
    mirror.angleAt time =
      match scan time mirror.samples.toList with
      | some angle => .ok angle
      | none => .error (.timeOutOfRange time) := by
  by_cases hInside : mirror.samples[0].time ≤ time ∧
      time ≤ (mirror.samples.back hSome).time
  · obtain ⟨i, j, hFirst, hSecond, hNext, hBefore, hAfter, hAngle⟩ :=
      exists_neighbours hSome hOrdered hInside.1 hInside.2
    rcases hNext with rfl | hSingle
    · have hIncreasing : mirror.samples.toList.Pairwise fun before after =>
          before.time < after.time :=
        List.pairwise_iff_getElem.mpr fun i j _ hIndex hLess =>
          time_lt_of_lt hOrdered hDistinct hLess (by simpa using hIndex)
      rw [hAngle, scan_of_neighbours hIncreasing (i := i) (by simpa using hSecond) hBefore hAfter,
        angleBetween_eq_chord (time_lt_of_lt hOrdered hDistinct (Nat.lt_succ_self i) hSecond)]
      rfl
    · obtain rfl : i = 0 := by omega
      obtain rfl : j = 0 := by omega
      have hList : mirror.samples.toList = [mirror.samples[0]] := by
        refine List.ext_getElem (by simpa using hSingle) fun k _ hIndex => ?_
        obtain rfl : k = 0 := by simpa using hIndex
        rfl
      have hTime : mirror.samples[0].time = time := le_antisymm hBefore hAfter
      rw [hAngle, hList, scan, if_pos hTime, ← hTime, angleBetween_at_first]
  · have hScan : scan time mirror.samples.toList = none := by
      apply scan_of_outside
      rw [not_and_or, not_le, not_le] at hInside
      refine hInside.imp (fun hEarly sample hMem => ?_) fun hLate sample hMem => ?_
      · obtain ⟨k, hIndex, rfl⟩ := List.mem_iff_getElem.mp hMem
        exact hEarly.trans_le (time_le_of_le hOrdered (Nat.zero_le k) hIndex)
      · obtain ⟨k, hIndex, rfl⟩ := List.mem_iff_getElem.mp hMem
        exact (time_le_of_le hOrdered (Nat.le_sub_one_of_lt hIndex)
          (Nat.sub_one_lt hSome.ne')).trans_lt hLate
    rw [hScan, angleAt_of_outside hSome hInside]

/-- For samples that do not go back in time there is an angle from the first sample to the last,
and at no other time.  It is between the angles of two neighbours that have the time between them,
it is the angle of a sample that is alone at its time, and where no two times are equal it is what
a scan through the samples finds. -/
theorem angleAt_interpolates [IsStrictOrderedRing K] {mirror : Mirror K}
    (hSome : 0 < mirror.samples.size) (hOrdered : mirror.times.Pairwise (· ≤ ·)) :
    (∀ time, (∃ angle, mirror.angleAt time = .ok angle) ↔
      mirror.samples[0].time ≤ time ∧ time ≤ (mirror.samples.back hSome).time) ∧
    (∀ time, ¬(mirror.samples[0].time ≤ time ∧
        time ≤ (mirror.samples.back hSome).time) →
      mirror.angleAt time = .error (.timeOutOfRange time)) ∧
    (∀ time angle, mirror.angleAt time = .ok angle →
      ∃ (i j : ℕ) (hFirst : i < mirror.samples.size) (hSecond : j < mirror.samples.size),
        (j = i + 1 ∨ mirror.samples.size = 1) ∧
        mirror.samples[i].time ≤ time ∧ time ≤ mirror.samples[j].time ∧
        angle ∈ Set.uIcc mirror.samples[i].angle mirror.samples[j].angle) ∧
    (∀ (k : ℕ) (hIndex : k < mirror.samples.size),
      (∀ i (hOther : i < mirror.samples.size),
        mirror.samples[i].time = mirror.samples[k].time → i = k) →
      mirror.angleAt mirror.samples[k].time = .ok mirror.samples[k].angle) ∧
    (mirror.times.Nodup → ∀ time,
      mirror.angleAt time =
        match scan time mirror.samples.toList with
        | some angle => .ok angle
        | none => .error (.timeOutOfRange time)) :=
  ⟨fun _ => exists_angleAt_iff hSome, fun _ => angleAt_of_outside hSome,
    fun _ _ => exists_neighbours_of_angleAt hSome hOrdered,
    fun _ hIndex => angleAt_of_unique hSome hOrdered hIndex,
    angleAt_eq_scan hSome hOrdered⟩

/-- A mirror that is seen twice at its first, at an inner and at its last time. -/
def pausing : Mirror ℚ where
  epoch := Epoch.default
  alignment := Mat3.identity
  samples := #[⟨0, 1⟩, ⟨0, 2⟩, ⟨1, 3⟩, ⟨2, 5⟩, ⟨2, 4⟩, ⟨4, 8⟩, ⟨4, 9⟩]

/-- A mirror that is seen at three times. -/
def sweeping : Mirror ℚ where
  epoch := Epoch.default
  alignment := Mat3.identity
  samples := #[⟨0, 1⟩, ⟨2, 5⟩, ⟨3, 2⟩]

/-- A time with one sample, a time between two samples and one after the last of a mirror that
pauses, and a time between two samples of a mirror that does not. -/
theorem angleAt_interpolates_pausing_sweeping :
    pausing.angleAt 1 = .ok 3 ∧
    (∃ angle, pausing.angleAt 3 = .ok angle ∧ angle ∈ Set.uIcc (4 : ℚ) 8) ∧
    pausing.angleAt 5 = .error (.timeOutOfRange 5) ∧
    sweeping.angleAt (5 / 2) = .ok (7 / 2) := by
  obtain ⟨hSucceeds, hFails, hBetween, hUnique, -⟩ :=
    angleAt_interpolates (by decide : 0 < pausing.samples.size) (by decide +kernel)
  obtain ⟨-, -, -, -, hScan⟩ :=
    angleAt_interpolates (by decide : 0 < sweeping.samples.size) (by decide +kernel)
  have hNeighbours : ∀ i (hFirst : i < pausing.samples.size),
      ∀ j (hSecond : j < pausing.samples.size), (j = i + 1 ∨ pausing.samples.size = 1) →
      pausing.samples[i].time ≤ 3 → 3 ≤ pausing.samples[j].time → i = 4 ∧ j = 5 := by
    decide +kernel
  have hValue : scan (5 / 2) sweeping.samples.toList = some (7 / 2) := by decide +kernel
  obtain ⟨angle, hAngle⟩ := (hSucceeds 3).mpr (by decide +kernel)
  obtain ⟨i, j, hFirst, hSecond, hNext, hBefore, hAfter, hMem⟩ := hBetween 3 angle hAngle
  obtain ⟨rfl, rfl⟩ := hNeighbours i hFirst j hSecond hNext hBefore hAfter
  refine ⟨hUnique 2 (by decide) (by decide +kernel), ⟨angle, hAngle, hMem⟩,
    hFails 5 (by decide +kernel), ?_⟩
  rw [hScan (by decide +kernel), hValue]

end Mirror
end Pushbroom
