import Pushbroom.Proofs.Failure
import Pushbroom.Proofs.Scalar.Exact
import Pushbroom.Time.Epoch

namespace Pushbroom

/-!
# Time in exact arithmetic

The seconds of a duration are its nanoseconds over a billion, although they are put together
from whole centuries, whole seconds and the rest.  Every number of seconds or days has a
duration, so the only epochs without an instant are those whose year is out of reach.
-/

variable {K : Type} [Field K] [LinearOrder K] [FloorRing K]

namespace Duration

theorem exists_ofUnits (count unit : K) : ∃ duration, ofUnits count unit = .ok duration := by
  obtain ⟨nanoseconds, hTrunc⟩ :
      ∃ nanoseconds, Scalar.trunc? (count * unit) = some nanoseconds := by
    unfold Scalar.trunc?
    split <;> exact ⟨_, rfl⟩
  unfold ofUnits
  rw [hTrunc]
  exact ⟨_, rfl⟩

theorem toSeconds_eq (duration : Duration) :
    (duration.toSeconds : K) = (duration.nanoseconds : K) / 10 ^ 9 := by
  have hCentury : (3155760000.0 : K) = 3155760000 := by norm_num
  have hNano : (1e-9 : K) = 1 / 10 ^ 9 := by norm_num
  have hSplit : duration.nanoseconds =
      duration.centuries * nanosecondsPerCentury + duration.inCentury := by
    rw [mul_comm]
    exact (Int.mul_ediv_add_emod duration.nanoseconds nanosecondsPerCentury).symm
  have hSeconds : duration.inCentury =
      duration.inCentury / 1000000000 * 1000000000 + duration.inCentury % 1000000000 := by
    omega
  have hSplitCast : (duration.nanoseconds : K) =
      (duration.centuries : K) * 3155760000 * 10 ^ 9 + (duration.inCentury : K) := by
    rw [hSplit, nanosecondsPerCentury]
    push_cast
    ring
  have hSecondsCast : (duration.inCentury : K) =
      ((duration.inCentury / 1000000000 : ℤ) : K) * 10 ^ 9 +
        ((duration.inCentury % 1000000000 : ℤ) : K) := by
    conv_lhs => rw [hSeconds]
    push_cast
    ring
  rw [hSplitCast, hSecondsCast, toSeconds, hNano, hCentury]
  split
  · rename_i hFirst
    rw [hFirst]
    push_cast
    field_simp
    ring
  · field_simp
    ring

end Duration

namespace Epoch

/-- The year of an epoch is near enough to have an instant. -/
def WithinReach (epoch : Epoch K) : Prop :=
  (epoch.year - Instant.originYear).natAbs ≤ Instant.yearReach

theorem exists_toInstant_iff {epoch : Epoch K} :
    (∃ instant, epoch.toInstant = .ok instant) ↔ epoch.WithinReach := by
  unfold toInstant WithinReach
  split
  · rename_i hFar
    simp [Nat.not_le.mpr hFar]
  · rename_i hNear
    obtain ⟨days, hDays⟩ := Duration.exists_ofUnits ((epoch.dayOfYear : K) - 1) 8.64e13
    obtain ⟨seconds, hSeconds⟩ := Duration.exists_ofUnits epoch.secondsOfDay 1e9
    rw [Duration.ofDays, hDays, Failure.ok_bind, Duration.ofSeconds, hSeconds]
    exact iff_of_true ⟨_, rfl⟩ (Nat.not_lt.mp hNear)

/-- The seconds between two epochs are the nanoseconds from one instant to the other. -/
theorem secondsBetween_eq_ok_iff {later earlier : Epoch K} {seconds : K} :
    secondsBetween later earlier = .ok seconds ↔
      ∃ stop start, later.toInstant = .ok stop ∧ earlier.toInstant = .ok start ∧
        seconds = ((stop - start).nanoseconds : K) / 10 ^ 9 := by
  unfold secondsBetween
  rw [Failure.bind_eq_ok]
  refine exists_congr fun stop => ?_
  rw [Failure.bind_eq_ok, exists_and_left]
  refine and_congr_right fun _ => exists_congr fun start => and_congr_right fun _ => ?_
  rw [← Duration.toSeconds_eq]
  exact ⟨fun hSeconds => (Except.ok.inj hSeconds).symm, fun hSeconds => by rw [hSeconds]; rfl⟩

end Epoch

end Pushbroom
