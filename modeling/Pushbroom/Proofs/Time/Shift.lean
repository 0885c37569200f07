import Pushbroom.Proofs.Time.Instants

namespace Pushbroom

/-!
# Epochs that are moved

An epoch is moved by going to its instant, adding a duration and coming back to the calendar.
The moved epoch names exactly the instant that was reached, so the seconds to and from any
other epoch change by the seconds that it was moved by.  What can spoil this is the longest
duration alone: an instant beyond it is not reached, and epochs further apart than that are
told as if they were not.
-/

deriving instance DecidableEq for Epoch

/-- The instant a number of nanoseconds after this one is within the longest duration, and
`+` finds it. -/
def Instant.Reaches (instant : Instant) (nanoseconds : ℤ) : Prop :=
  (instant + Duration.ofNanoseconds nanoseconds).elapsed.nanoseconds =
    instant.elapsed.nanoseconds + nanoseconds

instance (instant : Instant) (nanoseconds : ℤ) : Decidable (instant.Reaches nanoseconds) :=
  inferInstanceAs (Decidable (_ = _))

namespace Epoch

variable {K : Type} [Field K] [LinearOrder K] [FloorRing K]

/-- The epoch that `offset` finds a whole number of nanoseconds after another one, where no
duration stops it on the way. -/
structure MovesTo (epoch : Epoch K) (nanoseconds : ℤ) (moved : Epoch K) : Prop where
  offset : epoch.offset ((nanoseconds : K) / 10 ^ 9) = .ok moved
  reaches : ∀ instant ∈ epoch.toInstant.toOption, instant.Reaches nanoseconds

/-- The time between two epochs is not longer than the longest duration. -/
def Comparable (later earlier : Epoch K) : Prop :=
  ∀ stop ∈ later.toInstant.toOption, ∀ start ∈ earlier.toInstant.toOption,
    |stop.elapsed.nanoseconds - start.elapsed.nanoseconds| ≤ longestDuration

instance (later earlier : Epoch K) : Decidable (later.Comparable earlier) :=
  inferInstanceAs (Decidable (∀ stop ∈ _, ∀ start ∈ _, _))

theorem secondsBetween_of_comparable {later earlier : Epoch K} {stop start : Instant}
    (hComparable : later.Comparable earlier) (hStop : later.toInstant = .ok stop)
    (hStart : earlier.toInstant = .ok start) :
    secondsBetween later earlier =
      .ok (((stop.elapsed.nanoseconds - start.elapsed.nanoseconds : ℤ) : K) / 10 ^ 9) := by
  have hWithin := hComparable stop (by rw [hStop]; rfl) start (by rw [hStart]; rfl)
  obtain ⟨hLower, hUpper⟩ := abs_le.mp hWithin
  have hExact : (stop - start).nanoseconds =
      stop.elapsed.nanoseconds - start.elapsed.nanoseconds :=
    Duration.nanoseconds_sub hLower hUpper
  exact secondsBetween_eq_ok_iff.mpr ⟨stop, start, hStop, hStart, by rw [hExact]⟩

variable [IsStrictOrderedRing K]

/-- An epoch can be moved exactly when it has an instant, which is then moved with it. -/
theorem offset_eq_ok_iff {epoch moved : Epoch K} {nanoseconds : ℤ} :
    epoch.offset ((nanoseconds : K) / 10 ^ 9) = .ok moved ↔
      ∃ instant, epoch.toInstant = .ok instant ∧
        moved = ofInstant (instant + Duration.ofNanoseconds nanoseconds) := by
  rw [offset, Failure.bind_eq_ok]
  refine exists_congr fun instant => and_congr_right fun _ => ?_
  rw [Duration.ofSeconds_nanoseconds, Failure.ok_bind]
  exact ⟨fun hMoved => (Except.ok.inj hMoved).symm, fun hMoved => by rw [hMoved]; rfl⟩

/-- Both epochs have an instant, the one exactly so many nanoseconds after the other. -/
theorem MovesTo.instants {epoch moved : Epoch K} {nanoseconds : ℤ}
    (hMoves : epoch.MovesTo nanoseconds moved) :
    ∃ before after, epoch.toInstant = .ok before ∧ moved.toInstant = .ok after ∧
      after.elapsed.nanoseconds = before.elapsed.nanoseconds + nanoseconds := by
  obtain ⟨before, hBefore, hMoved⟩ := offset_eq_ok_iff.mp hMoves.offset
  refine ⟨before, before + Duration.ofNanoseconds nanoseconds, hBefore, ?_,
    hMoves.reaches before (by rw [hBefore]; rfl)⟩
  rw [hMoved, toInstant_ofInstant]

/-- The seconds to a moved epoch are more by those it was moved by. -/
theorem MovesTo.secondsBetween_later {epoch moved other : Epoch K} {nanoseconds : ℤ}
    (hMoves : epoch.MovesTo nanoseconds moved) (hBefore : epoch.Comparable other)
    (hAfter : moved.Comparable other) :
    secondsBetween moved other =
      (secondsBetween epoch other).map (· + (nanoseconds : K) / 10 ^ 9) := by
  obtain ⟨before, after, hInstant, hMovedInstant, hExact⟩ := hMoves.instants
  cases hOther : other.toInstant with
  | error error =>
      simp only [secondsBetween, hInstant, hMovedInstant, hOther, Failure.ok_bind]
      rfl
  | ok start =>
      rw [secondsBetween_of_comparable hAfter hMovedInstant hOther,
        secondsBetween_of_comparable hBefore hInstant hOther, Except.map, hExact]
      push_cast
      congr 1
      ring

/-- The seconds from a moved epoch are less by those it was moved by. -/
theorem MovesTo.secondsBetween_earlier {epoch moved other : Epoch K} {nanoseconds : ℤ}
    (hMoves : epoch.MovesTo nanoseconds moved) (hBefore : other.Comparable epoch)
    (hAfter : other.Comparable moved) :
    secondsBetween other moved =
      (secondsBetween other epoch).map (· - (nanoseconds : K) / 10 ^ 9) := by
  obtain ⟨before, after, hInstant, hMovedInstant, hExact⟩ := hMoves.instants
  cases hOther : other.toInstant with
  | error error =>
      simp only [secondsBetween, hOther]
      rfl
  | ok stop =>
      rw [secondsBetween_of_comparable hAfter hOther hMovedInstant,
        secondsBetween_of_comparable hBefore hOther hInstant, Except.map, hExact]
      push_cast
      congr 1
      ring

end Epoch

end Pushbroom
