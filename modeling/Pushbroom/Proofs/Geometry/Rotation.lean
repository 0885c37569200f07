import Pushbroom.Geometry.Rotation
import Pushbroom.Proofs.Geometry.Matrix
import Pushbroom.Proofs.Scalar.Real

namespace Pushbroom
namespace Rotation

/-!
# Angles of rotation matrices

The matrix of roll, pitch, yaw angles is a product of rotations about the three axes.  From
every rotation matrix angles are extracted that have this matrix, unless the matrix turns the
`x` axis onto the `z` axis or its opposite: then the cosine of the pitch is zero, the four
entries that tell roll and yaw vanish, and only a sum or difference of the two is left.  Angles
with a roll and a yaw within half a turn and a pitch within a quarter are the ones extracted from
their matrix.
-/

/-- The rotation by an angle about the `x` axis. -/
noncomputable def aboutX (angle : ℝ) : Mat3 ℝ :=
  ⟨⟨1, 0, 0⟩, ⟨0, Real.cos angle, -Real.sin angle⟩, ⟨0, Real.sin angle, Real.cos angle⟩⟩

/-- The rotation by an angle about the `y` axis. -/
noncomputable def aboutY (angle : ℝ) : Mat3 ℝ :=
  ⟨⟨Real.cos angle, 0, Real.sin angle⟩, ⟨0, 1, 0⟩, ⟨-Real.sin angle, 0, Real.cos angle⟩⟩

/-- The rotation by an angle about the `z` axis. -/
noncomputable def aboutZ (angle : ℝ) : Mat3 ℝ :=
  ⟨⟨Real.cos angle, -Real.sin angle, 0⟩, ⟨Real.sin angle, Real.cos angle, 0⟩, ⟨0, 0, 1⟩⟩

theorem ofAngles_eq_mul (angles : Vec3 ℝ) :
    ofAngles angles = aboutZ angles.z * aboutY angles.y * aboutX angles.x := by
  apply Mat3.toMatrix_injective
  rw [Mat3.toMatrix_mul, Mat3.toMatrix_mul]
  ext i j
  fin_cases i <;> fin_cases j <;>
    simp [Matrix.mul_apply, Fin.sum_univ_three, Mat3.toMatrix, ofAngles, aboutX, aboutY, aboutZ] <;>
    ring

/-! ## Rotation matrices from angles -/

theorem aboutX_isRotation (angle : ℝ) : (aboutX angle).IsRotation := by
  have hUnit := Real.sin_sq_add_cos_sq angle
  apply Mat3.isRotation_of_rows
  all_goals
    simp only [aboutX, Vec3.dot, Mat3.det, Mat3.adjugate]
    linarith

theorem aboutY_isRotation (angle : ℝ) : (aboutY angle).IsRotation := by
  have hUnit := Real.sin_sq_add_cos_sq angle
  apply Mat3.isRotation_of_rows
  all_goals
    simp only [aboutY, Vec3.dot, Mat3.det, Mat3.adjugate]
    linarith

theorem aboutZ_isRotation (angle : ℝ) : (aboutZ angle).IsRotation := by
  have hUnit := Real.sin_sq_add_cos_sq angle
  apply Mat3.isRotation_of_rows
  all_goals
    simp only [aboutZ, Vec3.dot, Mat3.det, Mat3.adjugate]
    linarith

theorem ofAngles_isRotation (angles : Vec3 ℝ) : (ofAngles angles).IsRotation := by
  rw [ofAngles_eq_mul]
  exact ((aboutZ_isRotation _).mul (aboutY_isRotation _)).mul (aboutX_isRotation _)

/-! ## Angles from rotation matrices -/

/-- A number of the range of the sine is left as it is. -/
theorem clamp_eq_self {x : ℝ} (hRange : |x| ≤ 1) : Scalar.clamp (-1) 1 x = x := by
  obtain ⟨hLow, hHigh⟩ := abs_le.mp hRange
  rw [Scalar.clamp, if_neg (not_lt.mpr hLow), if_neg (not_lt.mpr hHigh)]

theorem toAngles_pitch {m : Mat3 ℝ} (hRange : |m.row₂.x| ≤ 1) :
    (toAngles m).y = Real.arcsin (-m.row₂.x) := by
  simp only [toAngles, Elementary.asin_eq]
  rw [clamp_eq_self (by rwa [abs_neg])]

/-- The pitch of a rotation matrix lies between the right angles, and strictly so unless its
sine has magnitude one. -/
theorem sin_cos_pitch {m : Mat3 ℝ} (hRange : |m.row₂.x| < 1) :
    Real.sin (toAngles m).y = -m.row₂.x ∧ 0 < Real.cos (toAngles m).y := by
  obtain ⟨hLow, hHigh⟩ := abs_lt.mp hRange
  rw [toAngles_pitch hRange.le]
  constructor
  · exact Real.sin_arcsin (by linarith) (by linarith)
  · rw [Real.cos_arcsin, neg_sq, Real.sqrt_pos, sub_pos]
    exact (sq_lt_one_iff_abs_lt_one _).mpr hRange

/-- The first column and the last row are those of the extracted angles, and there is only one
rotation matrix with these. -/
theorem ofAngles_toAngles {m : Mat3 ℝ} (hRotation : m.IsRotation)
    (hPitch : |m.row₂.x| ≠ 1) : ofAngles (toAngles m) = m := by
  have hRow : m.row₂.x * m.row₂.x + m.row₂.y * m.row₂.y + m.row₂.z * m.row₂.z = 1 :=
    congrArg (fun n : Mat3 ℝ => n.row₂.z) hRotation.orthonormal
  have hColumn : m.row₀.x * m.row₀.x + m.row₁.x * m.row₁.x + m.row₂.x * m.row₂.x = 1 :=
    congrArg (fun n : Mat3 ℝ => n.row₀.x) hRotation.transpose_mul
  have hRange : |m.row₂.x| < 1 := by
    refine lt_of_le_of_ne ?_ hPitch
    rw [← sq_le_one_iff_abs_le_one]
    linarith [mul_self_nonneg m.row₂.y, mul_self_nonneg m.row₂.z]
  obtain ⟨hSin, hCos⟩ := sin_cos_pitch hRange
  have hSquare : Real.cos (toAngles m).y ^ 2 = 1 - m.row₂.x * m.row₂.x := by
    rw [Real.cos_sq', hSin]
    ring
  -- roll and yaw are angles of points on the circle whose radius is the cosine of the pitch
  have hRoll : m.row₂.z ^ 2 + m.row₂.y ^ 2 = Real.cos (toAngles m).y ^ 2 := by
    linarith
  have hYaw : m.row₀.x ^ 2 + m.row₁.x ^ 2 = Real.cos (toAngles m).y ^ 2 := by
    linarith
  refine (ofAngles_isRotation _).eq_of_border hRotation ?_ ?_ ?_ ?_
  · exact Elementary.mul_cos_atan2 hCos.le hYaw
  · exact Elementary.mul_sin_atan2 hCos.le hYaw
  · apply Vec3.ext
    · exact neg_eq_iff_eq_neg.mpr hSin
    · exact (mul_comm _ _).trans (Elementary.mul_sin_atan2 hCos.le hRoll)
    · exact (mul_comm _ _).trans (Elementary.mul_cos_atan2 hCos.le hRoll)
  · exact ((sq_lt_one_iff_abs_lt_one _).mpr hRange).ne

/-! ## Angles of matrices from angles -/

/-- Roll and yaw within half a turn of zero, half a turn itself counted once, and a pitch that is
less than a right angle. -/
structure Principal (angles : Vec3 ℝ) : Prop where
  roll : angles.x ∈ Set.Ioc (-Real.pi) Real.pi
  pitch : angles.y ∈ Set.Ioo (-(Real.pi / 2)) (Real.pi / 2)
  yaw : angles.z ∈ Set.Ioc (-Real.pi) Real.pi

/-- The angles that are extracted from a matrix are principal ones. -/
theorem principal_toAngles {m : Mat3 ℝ} (hRange : |m.row₂.x| < 1) : Principal (toAngles m) where
  roll := Complex.arg_mem_Ioc _
  pitch := by
    obtain ⟨hLow, hHigh⟩ := abs_lt.mp hRange
    rw [toAngles_pitch hRange.le]
    exact ⟨Real.neg_pi_div_two_lt_arcsin.mpr (by linarith),
      Real.arcsin_lt_pi_div_two.mpr (by linarith)⟩
  yaw := Complex.arg_mem_Ioc _

/-- Principal angles are those of their matrix.  The cosine of the pitch is positive, so roll and
yaw are the angles of points away from the origin. -/
theorem toAngles_ofAngles {angles : Vec3 ℝ} (hPrincipal : Principal angles) :
    toAngles (ofAngles angles) = angles := by
  have hCos : 0 < Real.cos angles.y := Real.cos_pos_of_mem_Ioo hPrincipal.pitch
  have hRange : |(ofAngles angles).row₂.x| ≤ 1 := by
    rw [ofAngles, abs_neg]
    exact Real.abs_sin_le_one angles.y
  apply Vec3.ext
  · change Elementary.atan2 (Real.sin angles.x * Real.cos angles.y)
      (Real.cos angles.x * Real.cos angles.y) = angles.x
    rw [mul_comm, mul_comm (Real.cos angles.x)]
    exact Elementary.atan2_polar hCos hPrincipal.roll
  · rw [toAngles_pitch hRange, ofAngles, neg_neg]
    exact Real.arcsin_sin' (Set.Ioo_subset_Icc_self hPrincipal.pitch)
  · exact Elementary.atan2_polar hCos hPrincipal.yaw

/-- The matrix of angles is the product of the rotations about the axes, the roll applied first,
and a rotation matrix.  Rotation matrices whose corner is less than one in magnitude and principal
angles correspond to each other: the angles of such a matrix are principal and have this matrix,
and principal angles are those of their matrix. -/
theorem angles_correspond :
    (∀ angles : Vec3 ℝ, ofAngles angles = aboutZ angles.z * aboutY angles.y * aboutX angles.x ∧
      (ofAngles angles).IsRotation) ∧
    (∀ m : Mat3 ℝ, m.IsRotation → -1 < m.row₂.x → m.row₂.x < 1 →
      ofAngles (toAngles m) = m ∧ Principal (toAngles m)) ∧
    ∀ angles : Vec3 ℝ, Principal angles → toAngles (ofAngles angles) = angles := by
  refine ⟨fun angles => ⟨ofAngles_eq_mul angles, ofAngles_isRotation angles⟩, ?_, ?_⟩
  · intro m hRotation hLow hHigh
    have hRange : |m.row₂.x| < 1 := abs_lt.mpr ⟨hLow, hHigh⟩
    exact ⟨ofAngles_toAngles hRotation hRange.ne, principal_toAngles hRange⟩
  · exact fun angles hPrincipal => toAngles_ofAngles hPrincipal

/-- A matrix of a number and its double.  Of a third it is a rotation none of whose entries
vanishes. -/
def oblique (x : ℝ) : Mat3 ℝ :=
  ⟨⟨x + x, -x, x + x⟩, ⟨x + x, x + x, -x⟩, ⟨-x, x + x, x + x⟩⟩

/-- The angles of the second part are at the ends of their ranges. -/
theorem angles_correspond_oblique :
    (oblique (1 / 3)).IsRotation ∧ ofAngles (toAngles (oblique (1 / 3))) = oblique (1 / 3) ∧
      Principal ⟨Real.pi, -Real.pi / 4, Real.pi⟩ ∧
      toAngles (ofAngles ⟨Real.pi, -Real.pi / 4, Real.pi⟩) =
        ⟨Real.pi, -Real.pi / 4, Real.pi⟩ := by
  have hRotation : (oblique (1 / 3)).IsRotation := by
    apply Mat3.isRotation_of_rows <;> norm_num [oblique, Vec3.dot, Mat3.det, Mat3.adjugate]
  have hPi := Real.pi_pos
  have hPrincipal : Principal ⟨Real.pi, -Real.pi / 4, Real.pi⟩ :=
    ⟨⟨by linarith, le_rfl⟩, ⟨by linarith, by linarith⟩, ⟨by linarith, le_rfl⟩⟩
  have hMatrix := angles_correspond.2.1 (oblique (1 / 3)) hRotation
    (by norm_num [oblique]) (by norm_num [oblique])
  exact ⟨hRotation, hMatrix.1, hPrincipal, angles_correspond.2.2 _ hPrincipal⟩

end Rotation
end Pushbroom
