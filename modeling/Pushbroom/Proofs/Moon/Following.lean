import Pushbroom.Proofs.Moon.Cache

namespace Pushbroom
namespace Moon
namespace Projection

/-!
# Following the Moon

The right ascension of the Moon and the longitude of a point are unwrapped apart from each
other, each against the reference.  While the Moon is within a quarter turn of the reference,
and the point within a quarter turn of the Moon, both sums stay below half a turn: the two are
brought to the same turn, and their difference is the one that was observed.  The Moon itself
is then put where the reference is, at every line.
-/

open Elementary (turn)

variable {K : Type} [Field K]

section Turns

variable [Elementary K]

theorem SameDirection.refl (angle : K) : SameDirection angle angle :=
  ⟨0, by simp⟩

theorem SameDirection.trans {first second third : K} (hFirst : SameDirection first second)
    (hSecond : SameDirection second third) : SameDirection first third := by
  obtain ⟨m, hm⟩ := hFirst
  obtain ⟨n, hn⟩ := hSecond
  refine ⟨m + n, ?_⟩
  rw [hm, hn]
  push_cast
  ring

theorem SameDirection.add_right {left right : K} (hSame : SameDirection left right) (s : K) :
    SameDirection (left + s) (right + s) := by
  obtain ⟨n, hn⟩ := hSame
  refine ⟨n, ?_⟩
  rw [hn]
  ring

end Turns

variable [LinearOrder K]

/-- An observation at an offset from the Moon: an angle that is, up to whole turns, less than
a quarter turn away from the right ascension of the Moon. -/
structure OffsetFrom [Elementary K] (ra s long : K) : Prop where
  direction : SameDirection long (ra + s)
  near : |s| < turn / 4

/-- What is observed at offsets `down` and `s` from the Moon, as seen from the distance that
the Moon has at the reference. -/
def besideCenter (projection : Projection K) (scale down s : K) : Projected K where
  lat := (projection.reference.dec + down * scale) / projection.unitScale
  long := (projection.reference.ra + s * scale) / projection.unitScale
  scale

variable [FloorRing K] [Elementary K]

theorem transform_eq_of_positionAt {projection : Projection K}
    {source : Location K → Except (Error K) (Position K)} {line : K} {position : Position K}
    (hPosition : projection.positionAt source line = .ok position) (lat long : K) :
    projection.transform source line lat long = .ok (projection.project position lat long) := by
  rw [transform, hPosition]
  rfl

variable [IsStrictOrderedRing K]

theorem project_eq_besideCenter (hTurn : 0 < (turn : K)) {projection : Projection K}
    {position : Position K} {near : K} (hNear : SameDirection position.ra near)
    (hQuarter : |near - projection.reference.ra| ≤ turn / 4) {s long : K}
    (hOffset : OffsetFrom position.ra s long) (lat : K) :
    projection.project position lat long =
      projection.besideCenter (position.distance / projection.reference.distance)
        (lat - position.dec) s := by
  have hMoon : unwrap position.ra projection.reference.ra = near := by
    obtain ⟨n, hRa⟩ := hNear
    exact unwrap_eq_of_near hTurn hRa (by linarith)
  have hLong : unwrap long projection.reference.ra = near + s := by
    obtain ⟨n, hTurns⟩ := hOffset.direction.trans (hNear.add_right s)
    apply unwrap_eq_of_near hTurn hTurns
    have hSum : near + s - projection.reference.ra = (near - projection.reference.ra) + s := by
      ring
    calc |near + s - projection.reference.ra|
        ≤ |near - projection.reference.ra| + |s| := by
          rw [hSum]
          exact abs_add_le _ _
      _ < turn / 2 := by linarith [hOffset.near]
  have hDifference : near + s - near = s := by ring
  simp only [project, besideCenter, hMoon, hLong, hDifference]

/-- While the Moon stands within a quarter turn of the reference, a point less than a quarter
turn away from it is put at its offset from the Moon, scaled by the distance, beside the
reference.  The Moon itself is put at the reference.  No number of whole turns makes a
difference, neither in the longitude of the point nor in the right ascension of the Moon. -/
theorem transform_follows_moon (hTurn : 0 < (turn : K)) {projection : Projection K}
    {source : Location K → Except (Error K) (Position K)} {line : K} {position : Position K}
    (hPosition : projection.positionAt source line = .ok position)
    (hNear : ∃ near, SameDirection position.ra near ∧
      |near - projection.reference.ra| ≤ turn / 4)
    {scale : K} (hScale : scale = position.distance / projection.reference.distance) :
    (∀ lat s long, OffsetFrom position.ra s long →
      projection.transform source line lat long =
        .ok ⟨(projection.reference.dec + (lat - position.dec) * scale) / projection.unitScale,
          (projection.reference.ra + s * scale) / projection.unitScale, scale⟩) ∧
    projection.transform source line position.dec position.ra =
      .ok ⟨projection.center.1 / projection.unitScale,
        projection.center.2 / projection.unitScale, scale⟩ ∧
    (∀ lat s long (n : ℤ), OffsetFrom position.ra s long →
      projection.transform source line lat (long + n * turn) =
        projection.transform source line lat long) ∧
    ∀ (turned : Projection K) (turnedSource : Location K → Except (Error K) (Position K))
        (turnedLine : K) (n : ℤ),
      turned.reference = projection.reference → turned.unitScale = projection.unitScale →
      turned.positionAt turnedSource turnedLine =
        .ok { position with ra := position.ra + n * turn } →
      ∀ lat s long, OffsetFrom position.ra s long →
        turned.transform turnedSource turnedLine lat long =
          projection.transform source line lat long := by
  subst hScale
  obtain ⟨near, hNear, hQuarter⟩ := hNear
  have hTransform (lat s long : K) (hOffset : OffsetFrom position.ra s long) :
      projection.transform source line lat long =
        .ok (projection.besideCenter (position.distance / projection.reference.distance)
          (lat - position.dec) s) := by
    rw [transform_eq_of_positionAt hPosition,
      project_eq_besideCenter hTurn hNear hQuarter hOffset]
  refine ⟨hTransform, ?_, ?_, ?_⟩
  · have hMoon : OffsetFrom position.ra 0 position.ra := by
      refine ⟨?_, ?_⟩
      · rw [add_zero]
        exact SameDirection.refl position.ra
      · rw [abs_zero]
        positivity
    rw [hTransform _ _ _ hMoon]
    simp only [besideCenter, center, sub_self, zero_mul, add_zero]
  · intro lat s long n hOffset
    have hTurned : OffsetFrom position.ra s (long + n * turn) :=
      ⟨SameDirection.trans ⟨n, rfl⟩ hOffset.direction, hOffset.near⟩
    rw [hTransform _ _ _ hTurned, hTransform _ _ _ hOffset]
  · intro turned turnedSource turnedLine n hReference hUnit hTurnedPosition lat s long hOffset
    have hTurnedRa : SameDirection (position.ra + n * turn) position.ra := ⟨n, rfl⟩
    have hTurnedBack : SameDirection position.ra (position.ra + n * turn) := by
      refine ⟨-n, ?_⟩
      push_cast
      ring
    have hTurnedOffset : OffsetFrom (position.ra + n * turn) s long :=
      ⟨hOffset.direction.trans (hTurnedBack.add_right s), hOffset.near⟩
    rw [hTransform _ _ _ hOffset, transform_eq_of_positionAt hTurnedPosition,
      project_eq_besideCenter hTurn (hTurnedRa.trans hNear) (by rwa [hReference])
        hTurnedOffset]
    simp only [besideCenter, hReference, hUnit]

/-- A projection that keeps one line, at which the Moon has gone past half a turn and the
reference has not. -/
def acrossHalfTurn : Projection ℚ where
  bandIndex := 0
  chipIndex := 0
  detector := 1
  kind := .nominal
  reference := ⟨9 / 20, 1 / 50, 380⟩
  unitScale := 1 / 10
  cache? := some #[⟨-9 / 20, 3 / 100, 361⟩]

theorem transform_follows_moon_acrossHalfTurn :
    acrossHalfTurn.transform wrappedMoon 0 (1 / 10) (-9 / 20 + 1 / 5 + 2) =
        .ok ⟨(1 / 50 + (1 / 10 - 3 / 100) * (19 / 20)) / (1 / 10),
          (9 / 20 + 1 / 5 * (19 / 20)) / (1 / 10), 19 / 20⟩ ∧
      acrossHalfTurn.transform wrappedMoon 0 (3 / 100) (-9 / 20) =
        .ok ⟨acrossHalfTurn.center.1 / (1 / 10), acrossHalfTurn.center.2 / (1 / 10), 19 / 20⟩ := by
  have hTurn : (turn : ℚ) = 1 := rfl
  have hNear : ∃ near : ℚ, SameDirection (-9 / 20) near ∧ |near - 9 / 20| ≤ turn / 4 := by
    refine ⟨11 / 20, ⟨-1, ?_⟩, ?_⟩
    · rw [hTurn]
      norm_num
    · rw [hTurn]
      decide +kernel
  have hOffset : OffsetFrom (-9 / 20 : ℚ) (1 / 5) (-9 / 20 + 1 / 5 + 2) := by
    refine ⟨⟨2, ?_⟩, ?_⟩
    · rw [hTurn]
      norm_num
    · rw [hTurn]
      decide +kernel
  have hKept : acrossHalfTurn.positionAt wrappedMoon 0 = .ok ⟨-9 / 20, 3 / 100, 361⟩ := by
    have hLine : Scalar.toPosition (Scalar.round (0 : ℚ)) = 0 := by decide +kernel
    simp only [positionAt, acrossHalfTurn, Option.bind_some, LineCache.position?]
    rw [if_neg (by decide +kernel), hLine]
    rfl
  have hScale : (19 / 20 : ℚ) = 361 / 380 := by norm_num
  obtain ⟨hBeside, hCenter, _⟩ := transform_follows_moon (by decide +kernel) hKept hNear hScale
  exact ⟨hBeside (1 / 10) (1 / 5) _ hOffset, hCenter⟩

end Projection
end Moon
end Pushbroom
