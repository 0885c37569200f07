import Pushbroom.Moon.Almanac
import Pushbroom.Proofs.Failure
import Pushbroom.Proofs.Geometry.Norm

namespace Pushbroom
namespace Moon

/-!
# The way to the Moon

A distance and two angles name a vector.  Over the real numbers the position that is found for a
vector names that vector, by the angles that are told once: every direction has one declination
between the poles and one right ascension within half a turn of zero, which is zero at the poles
themselves.  Nothing of the vector from a spacecraft to the Moon is lost in its position.
-/

namespace Position

/-- The vector from the observer to a Moon that is seen at a position. -/
noncomputable def vector (position : Position ℝ) : Vec3 ℝ where
  x := position.distance * (Real.cos position.dec * Real.cos position.ra)
  y := position.distance * (Real.cos position.dec * Real.sin position.ra)
  z := position.distance * Real.sin position.dec

/-- The angles of a position are the ones that are told for its direction. -/
structure Principal (position : Position ℝ) : Prop where
  distance_pos : 0 < position.distance
  dec_mem : position.dec ∈ Set.Icc (-(Real.pi / 2)) (Real.pi / 2)
  ra_mem : position.ra ∈ Set.Ioc (-Real.pi) Real.pi
  ra_pole : Real.cos position.dec = 0 → position.ra = 0

/-- The distance is the length of the vector, whatever the angles. -/
theorem norm_vector {position : Position ℝ} (hDistance : 0 ≤ position.distance) :
    position.vector.norm = position.distance := by
  apply Vec3.norm_eq hDistance
  change (_ * (_ * _)) ^ 2 + (_ * (_ * _)) ^ 2 + (_ * _) ^ 2 = _
  have hRa := Real.cos_sq_add_sin_sq position.ra
  have hDec := Real.cos_sq_add_sin_sq position.dec
  linear_combination position.distance ^ 2 * Real.cos position.dec ^ 2 * hRa +
    position.distance ^ 2 * hDec

theorem ofVector?_of_ne_zero {v : Vec3 ℝ} (hSome : v ≠ 0) :
    ofVector? v = some ⟨Elementary.atan2 v.y v.x, Elementary.asin (v.z / v.norm), v.norm⟩ :=
  if_pos (Vec3.norm_pos_iff.mpr hSome)

/-- The null vector alone has no position. -/
theorem ofVector?_eq_none_iff {v : Vec3 ℝ} : ofVector? v = none ↔ v = 0 := by
  constructor
  · intro hNone
    by_contra hSome
    rw [ofVector?_of_ne_zero hSome] at hNone
    cases hNone
  · rintro rfl
    exact if_neg (Vec3.norm_eq_zero_iff.mpr rfl).not_gt

section Found

variable {v : Vec3 ℝ} (hSome : v ≠ 0)
include hSome

theorem norm_mul_sin_dec : v.norm * Real.sin (Real.arcsin (v.z / v.norm)) = v.z := by
  have hNorm := Vec3.norm_pos_iff.mpr hSome
  have hHeight : |v.z| ≤ v.norm := by
    apply abs_le_of_sq_le_sq _ hNorm.le
    rw [v.norm_sq]
    linarith [sq_nonneg v.x, sq_nonneg v.y]
  obtain ⟨hLower, hUpper⟩ := abs_le.mp hHeight
  rw [Real.sin_arcsin ((le_div_iff₀ hNorm).mpr (by linarith)) ((div_le_one hNorm).mpr hUpper),
    mul_div_cancel₀ _ hNorm.ne']

/-- The distance of a vector from the axis through the poles. -/
theorem sq_add_sq_eq :
    v.x ^ 2 + v.y ^ 2 = (v.norm * Real.cos (Real.arcsin (v.z / v.norm))) ^ 2 := by
  have hSum := v.norm_sq
  have hDec := Real.cos_sq_add_sin_sq (Real.arcsin (v.z / v.norm))
  have hHeight := norm_mul_sin_dec hSome
  linear_combination -hSum - v.norm ^ 2 * hDec +
    (v.norm * Real.sin (Real.arcsin (v.z / v.norm)) + v.z) * hHeight

theorem found_vector :
    vector ⟨Elementary.atan2 v.y v.x, Elementary.asin (v.z / v.norm), v.norm⟩ = v := by
  have hRadius : 0 ≤ v.norm * Real.cos (Real.arcsin (v.z / v.norm)) :=
    mul_nonneg v.norm_nonneg (Real.cos_arcsin_nonneg _)
  have hAxis := sq_add_sq_eq hSome
  apply Vec3.ext
  · change v.norm * (_ * _) = v.x
    rw [← mul_assoc]
    exact Elementary.mul_cos_atan2 hRadius hAxis
  · change v.norm * (_ * _) = v.y
    rw [← mul_assoc]
    exact Elementary.mul_sin_atan2 hRadius hAxis
  · exact norm_mul_sin_dec hSome

theorem found_principal :
    Principal ⟨Elementary.atan2 v.y v.x, Elementary.asin (v.z / v.norm), v.norm⟩ where
  distance_pos := Vec3.norm_pos_iff.mpr hSome
  dec_mem := Real.arcsin_mem_Icc _
  ra_mem := Complex.arg_mem_Ioc _
  ra_pole hPole := by
    have hAxis := sq_add_sq_eq hSome
    change Real.cos (Real.arcsin (v.z / v.norm)) = 0 at hPole
    rw [hPole, mul_zero, zero_pow two_ne_zero] at hAxis
    obtain ⟨hx, hy⟩ := (add_eq_zero_iff_of_nonneg (sq_nonneg _) (sq_nonneg _)).mp hAxis
    change Elementary.atan2 v.y v.x = 0
    rw [pow_eq_zero_iff two_ne_zero] at hx hy
    rw [hx, hy, Elementary.atan2_origin]

end Found

/-- A vector is found from the angles that are told for its direction. -/
theorem Principal.ofVector?_vector {position : Position ℝ} (hPrincipal : position.Principal) :
    ofVector? position.vector = some position := by
  obtain ⟨hDistance, hDec, hRa, hPole⟩ := hPrincipal
  have hNorm := norm_vector hDistance.le
  have hSome : position.vector ≠ 0 := Vec3.norm_pos_iff.mp (hNorm ▸ hDistance)
  have hCos := Real.cos_nonneg_of_mem_Icc hDec
  rw [ofVector?_of_ne_zero hSome, hNorm]
  congr 1
  apply Position.ext
  · change Elementary.atan2 (position.distance * (_ * _)) (position.distance * (_ * _)) =
      position.ra
    rw [← mul_assoc, ← mul_assoc]
    rcases hCos.eq_or_lt with hAtPole | hAway
    · rw [← hAtPole, hPole hAtPole.symm, mul_zero, zero_mul, zero_mul]
      exact Elementary.atan2_origin
    · exact Elementary.atan2_polar (mul_pos hDistance hAway) hRa
  · change Real.arcsin (position.distance * Real.sin position.dec / position.distance) = _
    rw [mul_div_cancel_left₀ _ hDistance.ne', Real.arcsin_sin hDec.1 hDec.2]
  · rfl

theorem ofVector?_eq_some_iff {v : Vec3 ℝ} {position : Position ℝ} :
    ofVector? v = some position ↔ position.Principal ∧ v = position.vector := by
  constructor
  · intro hFound
    have hSome : v ≠ 0 := fun hNull => by
      rw [ofVector?_eq_none_iff.mpr hNull] at hFound
      cases hFound
    rw [ofVector?_of_ne_zero hSome] at hFound
    cases hFound
    exact ⟨found_principal hSome, (found_vector hSome).symm⟩
  · rintro ⟨hPrincipal, rfl⟩
    exact hPrincipal.ofVector?_vector

/-- The position of a Moon in the same direction, further away by a factor. -/
def farther (position : Position ℝ) (k : ℝ) : Position ℝ :=
  { position with distance := position.distance * k }

theorem vector_farther (position : Position ℝ) (k : ℝ) :
    (position.farther k).vector = position.vector.scale k := by
  apply Vec3.ext
  · exact mul_right_comm _ _ _
  · exact mul_right_comm _ _ _
  · exact mul_right_comm _ _ _

theorem Principal.farther {position : Position ℝ} (hPrincipal : position.Principal) {k : ℝ}
    (hFactor : 0 < k) : (position.farther k).Principal :=
  ⟨mul_pos hPrincipal.distance_pos hFactor, hPrincipal.dec_mem, hPrincipal.ra_mem,
    hPrincipal.ra_pole⟩

/-- A longer or shorter vector keeps its direction. -/
theorem ofVector?_scale (v : Vec3 ℝ) {k : ℝ} (hFactor : 0 < k) :
    ofVector? (v.scale k) = (ofVector? v).map (farther · k) := by
  cases hFound : ofVector? v with
  | none =>
    have hNull : v.scale k = 0 := by
      rw [ofVector?_eq_none_iff.mp hFound]
      apply Vec3.ext <;> exact zero_mul k
    exact ofVector?_eq_none_iff.mpr hNull
  | some position =>
    obtain ⟨hPrincipal, rfl⟩ := ofVector?_eq_some_iff.mp hFound
    rw [← vector_farther]
    exact (hPrincipal.farther hFactor).ofVector?_vector

end Position

/-- The vector from the spacecraft to the Moon at an image line. -/
def Almanac.sight {α : Type} [Scalar α] [Elementary α] (almanac : Almanac α)
    (imager : Imager α) (location : Location α) : Except (Error α) (Vec3 α) := do
  let timing ← imager.timingForBand location.bandIndex
  let time ← imager.lineTime location.bandIndex location.line
  let start ← timing.frameEpoch.toInstant
  let shift ← Duration.ofSeconds time
  let offset ← Epoch.secondsBetween timing.frameEpoch imager.trajectory.epoch
  let spacecraft ← imager.trajectory.stateAt (offset + time) .inertial
  let moon ← almanac.moon (start + shift)
  return moon - spacecraft.position

theorem Almanac.position_eq_bind_sight {α : Type} [Scalar α] [Elementary α] (almanac : Almanac α)
    (imager : Imager α) (location : Location α) :
    almanac.position imager location = (do
      let vector ← almanac.sight imager location
      match Position.ofVector? vector with
      | some position => return position
      | none => throw (.moonEphemeris location.line)) := by
  simp only [sight, bind_assoc]
  rfl

theorem Almanac.position_eq_ok_iff {almanac : Almanac ℝ} {imager : Imager ℝ}
    {location : Location ℝ} {position : Position ℝ} :
    almanac.position imager location = .ok position ↔
      position.Principal ∧ almanac.sight imager location = .ok position.vector := by
  rw [position_eq_bind_sight, Failure.bind_eq_ok]
  constructor
  · rintro ⟨v, hSight, hPosition⟩
    cases hFound : Position.ofVector? v with
    | none =>
      rw [hFound] at hPosition
      cases hPosition
    | some found =>
      rw [hFound] at hPosition
      cases hPosition
      obtain ⟨hPrincipal, rfl⟩ := Position.ofVector?_eq_some_iff.mp hFound
      exact ⟨hPrincipal, hSight⟩
  · rintro ⟨hPrincipal, hSight⟩
    exact ⟨_, hSight, by rw [hPrincipal.ofVector?_vector]; rfl⟩

/-- The null vector alone has no position.  The position of any other vector names the vector, by a
positive distance and the angles that are told for its direction; a factor of the vector is one of
the distance, and the angles stay.  Where an almanac gives a position, it thereby determines the
vector from the spacecraft to the Moon. -/
theorem position_determines_vector :
    (∀ v : Vec3 ℝ, Position.ofVector? v = none ↔ v = 0) ∧
    (∀ (v : Vec3 ℝ) (position : Position ℝ), Position.ofVector? v = some position ↔
      position.Principal ∧ v = position.vector) ∧
    (∀ (v : Vec3 ℝ) (k : ℝ), 0 < k →
      Position.ofVector? (v.scale k) = (Position.ofVector? v).map (·.farther k)) ∧
    ∀ (almanac : Almanac ℝ) (imager : Imager ℝ) (location : Location ℝ) (position : Position ℝ),
      almanac.position imager location = .ok position ↔
        position.Principal ∧ almanac.sight imager location = .ok position.vector :=
  ⟨fun _ => Position.ofVector?_eq_none_iff, fun _ _ => Position.ofVector?_eq_some_iff,
    fun v _ hFactor => Position.ofVector?_scale v hFactor,
    fun _ _ _ _ => Almanac.position_eq_ok_iff⟩

/-- Straight against the first axis, where right ascensions end. -/
noncomputable def opposite : Position ℝ :=
  ⟨Real.pi, 0, 1⟩

theorem opposite_principal : opposite.Principal := by
  have hTurn := Real.pi_pos
  refine ⟨zero_lt_one, ⟨?_, ?_⟩, ⟨?_, le_rfl⟩, fun hPole => ?_⟩
  · change -(Real.pi / 2) ≤ 0
    linarith
  · change 0 ≤ Real.pi / 2
    linarith
  · change -Real.pi < Real.pi
    linarith
  · exact absurd (Real.cos_zero.symm.trans hPole) one_ne_zero

theorem opposite_vector : opposite.vector = ⟨-1, 0, 0⟩ := by
  apply Vec3.ext
  · change 1 * (Real.cos 0 * Real.cos Real.pi) = -1
    rw [Real.cos_zero, Real.cos_pi, one_mul, one_mul]
  · change 1 * (Real.cos 0 * Real.sin Real.pi) = 0
    rw [Real.sin_pi, mul_zero, mul_zero]
  · change 1 * Real.sin 0 = 0
    rw [Real.sin_zero, mul_zero]

theorem position_determines_vector_opposite :
    Position.ofVector? ⟨-1, 0, 0⟩ = some opposite ∧
    Position.ofVector? (Vec3.scale ⟨-1, 0, 0⟩ 3) = some (opposite.farther 3) := by
  obtain ⟨-, hFound, hScaled, -⟩ := position_determines_vector
  have hHere : Position.ofVector? ⟨-1, 0, 0⟩ = some opposite :=
    (hFound _ _).mpr ⟨opposite_principal, opposite_vector.symm⟩
  exact ⟨hHere, by rw [hScaled _ _ (by norm_num), hHere]; rfl⟩

end Moon
end Pushbroom
