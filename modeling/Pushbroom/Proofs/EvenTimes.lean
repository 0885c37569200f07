import Mathlib.Topology.ContinuousOn
import Mathlib.Topology.Order.OrderClosed
import Pushbroom.Proofs.Scalar.Exact

namespace Pushbroom

/-!
# Evenly spaced times

Samples are taken one interval apart.  The time since the first of them, counted in intervals and
rounded down, is the index of the last sample that is not later, so every test on that index is
one on the time itself.
-/

variable {K : Type} [Field K] [LinearOrder K] [IsStrictOrderedRing K] {first interval time : K}

theorem evenTime_le_iff (hInterval : 0 < interval) {i j : ℕ} :
    first + i * interval ≤ first + j * interval ↔ i ≤ j := by
  rw [add_le_add_iff_left, mul_le_mul_iff_left₀ hInterval, Nat.cast_le]

theorem evenTime_lt_iff (hInterval : 0 < interval) {i j : ℕ} :
    first + i * interval < first + j * interval ↔ i < j := by
  rw [← not_le, evenTime_le_iff hInterval, not_le]

/-- Samples taken one interval apart have times that differ, and so do those of any stretch. -/
theorem nodup_times_extract {β : Type} {samples : Array β} {timeOf : β → K}
    (hInterval : 0 < interval)
    (hEven : ∀ i (hIndex : i < samples.size), timeOf samples[i] = first + i * interval)
    (start stop : ℕ) : ((samples.extract start stop).toList.map timeOf).Nodup := by
  rw [List.nodup_iff_pairwise_ne, List.pairwise_iff_getElem]
  intro i j hFirst hSecond hLess hSame
  simp only [List.length_map, Array.length_toList, Array.size_extract] at hFirst hSecond
  simp only [List.getElem_map, Array.getElem_toList, Array.getElem_extract] at hSame
  rw [hEven _ (by omega), hEven _ (by omega)] at hSame
  have hOrder : start + j ≤ start + i := (evenTime_le_iff hInterval).mp hSame.ge
  omega

/-- A sample is in a stretch when its time is, from that of the first sample of the stretch on and
before that of the first one after it. -/
theorem mem_extract_of_time {β : Type} {samples : Array β} {timeOf : β → K}
    (hInterval : 0 < interval)
    (hEven : ∀ i (hIndex : i < samples.size), timeOf samples[i] = first + i * interval)
    {start stop : ℕ} {sample : β} (hSample : sample ∈ samples)
    (hLow : first + start * interval ≤ timeOf sample)
    (hHigh : timeOf sample < first + stop * interval) : sample ∈ samples.extract start stop := by
  obtain ⟨i, hIndex, rfl⟩ := Array.mem_iff_getElem.mp hSample
  rw [hEven i hIndex] at hLow hHigh
  have hStart : start ≤ i := (evenTime_le_iff hInterval).mp hLow
  have hStop : i < stop := (evenTime_lt_iff hInterval).mp hHigh
  rw [Array.mem_extract_iff_getElem]
  refine ⟨i - start, by omega, ?_⟩
  congr 1
  omega

/-- A function that is continuous from each of some times to the next one is continuous from the
first to the last of them. -/
theorem continuousOn_of_pieces {β : Type} [TopologicalSpace β] [TopologicalSpace K]
    [OrderClosedTopology K] (hInterval : 0 < interval) {f : K → β} {count : ℕ}
    (hPieces : ∀ i < count, ContinuousOn f
      (Set.Icc (first + i * interval) (first + ((i + 1 : ℕ) : K) * interval))) :
    ContinuousOn f (Set.Icc first (first + count * interval)) := by
  induction count with
  | zero => simp
  | succ count ih =>
      have hBegun : first ≤ first + count * interval :=
        le_add_of_nonneg_right (mul_nonneg (Nat.cast_nonneg count) hInterval.le)
      have hLater : first + count * interval ≤ first + ((count + 1 : ℕ) : K) * interval :=
        (evenTime_le_iff hInterval).mpr (Nat.le_succ count)
      -- both stretches are closed, so one continuous function is left on their union
      rw [← Set.Icc_union_Icc_eq_Icc hBegun hLater]
      exact (ih fun i hIndex => hPieces i (Nat.lt_succ_of_lt hIndex)).union_of_isClosed
        (hPieces count (Nat.lt_succ_self count)) isClosed_Icc isClosed_Icc

variable [FloorRing K]

theorem le_floor_offset_iff (hInterval : 0 < interval) {k : ℤ} :
    k ≤ ⌊(time - first) / interval⌋ ↔ first + k * interval ≤ time := by
  rw [Int.le_floor, le_div_iff₀ hInterval, le_sub_iff_add_le']

theorem floor_offset_lt_iff (hInterval : 0 < interval) {k : ℤ} :
    ⌊(time - first) / interval⌋ < k ↔ time < first + k * interval := by
  rw [Int.floor_lt, div_lt_iff₀ hInterval, sub_lt_iff_lt_add']

/-- From the time of a sample on, and before the next one, the index found is that sample's. -/
theorem floor_offset_eq_iff (hInterval : 0 < interval) {i : ℕ} :
    ⌊(time - first) / interval⌋ = i ↔
      first + i * interval ≤ time ∧ time < first + (i + 1 : ℕ) * interval := by
  have hLow : (i : ℤ) ≤ ⌊(time - first) / interval⌋ ↔ first + i * interval ≤ time := by
    rw [le_floor_offset_iff hInterval, Int.cast_natCast]
  have hHigh : ⌊(time - first) / interval⌋ < ((i + 1 : ℕ) : ℤ) ↔
      time < first + ((i + 1 : ℕ) : K) * interval := by
    rw [floor_offset_lt_iff hInterval, Int.cast_natCast]
  rw [← hLow, ← hHigh]
  omega

end Pushbroom
