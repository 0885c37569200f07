import Pushbroom.Filter.Convolution
import Pushbroom.Proofs.Filter.Kernel
import Pushbroom.Proofs.Geometry.Coordinates

namespace Pushbroom
namespace Filter

/-!
# Convolution as a linear operator

A kernel acts on each coordinate of a signal by itself and linearly: sample `i` becomes the
sum of the taps times the samples that the positions around `i` are reflected to.  Taps that
sum to one keep constant signals, however often the positions are reflected.  Where none is,
taps that are symmetric about the centre keep affine signals as well, since their moment
about the centre is zero.
-/

theorem reflect_natCast {n : ℕ} (hPositive : 0 < n) (j : Fin n) :
    reflect n hPositive ((j : ℕ) : ℤ) = j := by
  have hInside := j.isLt
  unfold reflect
  rw [dif_neg (by omega), dif_neg (by omega)]
  apply Fin.ext
  simp

variable {K : Type} [Field K]

/-- The convolution of signals of `n` numbers with a kernel. -/
def operator (kernel : List K) (n : ℕ) : (Fin n → K) →ₗ[K] (Fin n → K) where
  toFun signal i := ∑ k : Fin kernel.length,
    kernel[k] * signal (reflect n i.pos ((i : ℤ) + (k : ℤ) - ((kernel.length / 2 : ℕ) : ℤ)))
  map_add' left right := by
    funext i
    simp only [Pi.add_apply, mul_add, Finset.sum_add_distrib]
  map_smul' factor signal := by
    funext i
    simp only [Pi.smul_apply, smul_eq_mul, RingHom.id_apply, Finset.mul_sum, mul_left_comm]

theorem operator_apply (kernel : List K) {n : ℕ} (signal : Fin n → K) (i : Fin n) :
    operator kernel n signal i = ∑ k : Fin kernel.length, kernel[k] *
      signal (reflect n i.pos ((i : ℤ) + (k : ℤ) - ((kernel.length / 2 : ℕ) : ℤ))) :=
  rfl

/-! ## Signals of vectors -/

section Vectors

variable [LinearOrder K] [FloorRing K]

theorem coordinate_smoothAt (kernel : List K) (signal : Array (Vec3 K)) (i : Fin signal.size)
    (axis : Axis) :
    (smoothAt kernel signal i).coordinate axis =
      operator kernel signal.size (fun j => signal[j].coordinate axis) i := by
  -- the loop over the taps and their positions is a sum over positions
  have hTaps : kernel.zipIdx = List.ofFn fun k : Fin kernel.length => (kernel[k], (k : ℕ)) := by
    apply List.ext_getElem
    · simp
    · intro k hLeft hRight
      simp
  simp only [smoothAt, Vec3.coordinate_foldl_add, hTaps, List.map_ofFn, List.sum_ofFn,
    Function.comp_def, Vec3.coordinate_scale, Vec3.coordinate_zero, zero_add, operator_apply]
  exact Finset.sum_congr rfl fun k _ => mul_comm _ _

/-- Every coordinate of a signal is smoothed by the same operator. -/
theorem coordinate_smooth (kernel : List K) (signal : Array (Vec3 K)) {n : ℕ}
    (hSize : n = signal.size) (axis : Axis) (i : ℕ) (hSmooth : i < (smooth kernel signal).size)
    (hSignal : i < n) :
    ((smooth kernel signal)[i]).coordinate axis =
      operator kernel n (fun j => signal[j.cast hSize].coordinate axis) ⟨i, hSignal⟩ := by
  subst hSize
  simp only [smooth, Array.getElem_ofFn]
  exact coordinate_smoothAt kernel signal ⟨i, hSignal⟩ axis

end Vectors

/-! ## Signals that are kept -/

/-- An operator on signals of `n` numbers keeps the constant ones, and at a distance of
`half` from the ends the affine ones. -/
structure KeepsTrends (half n : ℕ) (smoothing : (Fin n → K) →ₗ[K] (Fin n → K)) : Prop where
  constant : ∀ c : K, smoothing (fun _ => c) = fun _ => c
  affine : ∀ (a b : K) (i : Fin n), half ≤ (i : ℕ) → (i : ℕ) < n - half →
    smoothing (fun j => a + b * ((j : ℕ) : K)) i = a + b * ((i : ℕ) : K)

namespace SmoothingKernel

variable {half : ℕ} {kernel : List K}

theorem sum_taps (hKernel : SmoothingKernel half kernel) :
    ∑ k : Fin kernel.length, kernel[k] = 1 :=
  (Fin.sum_univ_getElem kernel).trans hKernel.sum

theorem operator_const (hKernel : SmoothingKernel half kernel) (n : ℕ) (c : K) :
    operator kernel n (fun _ => c) = fun _ => c := by
  funext i
  rw [operator_apply, ← Finset.sum_mul, hKernel.sum_taps, one_mul]

theorem getElem_rev (hKernel : SmoothingKernel half kernel) (k : Fin kernel.length) :
    kernel[k.rev] = kernel[k] := by
  have hReverse := List.getElem_reverse (l := kernel) (i := k) (by simp)
  simp only [hKernel.symmetric] at hReverse
  rw [Fin.getElem_fin, Fin.getElem_fin, hReverse]
  congr 1
  rw [Fin.val_rev]
  omega

variable [LinearOrder K] [IsStrictOrderedRing K]

/-- Opposite taps are equal, and their distances from the centre are opposite. -/
theorem moment_eq_zero (hKernel : SmoothingKernel half kernel) :
    ∑ k : Fin kernel.length, kernel[k] * (((k : ℕ) : K) - (half : K)) = 0 := by
  have hOpposite (k : Fin kernel.length) :
      kernel[k.rev] * (((k.rev : ℕ) : K) - (half : K)) =
        -(kernel[k] * (((k : ℕ) : K) - (half : K))) := by
    have hSpan : (k.rev : ℕ) + (k : ℕ) = 2 * half := by
      have hLength := hKernel.length
      have hInside := k.isLt
      rw [Fin.val_rev]
      omega
    have hCast : ((k.rev : ℕ) : K) + ((k : ℕ) : K) = 2 * (half : K) := by
      exact_mod_cast hSpan
    rw [hKernel.getElem_rev]
    linear_combination kernel[k] * hCast
  -- turning the kernel round changes the sign of the sum and leaves the sum as it is
  have hTurned := Equiv.sum_comp Fin.revPerm
    fun k : Fin kernel.length => kernel[k] * (((k : ℕ) : K) - (half : K))
  simp only [Fin.revPerm_apply, hOpposite, Finset.sum_neg_distrib] at hTurned
  linarith

theorem operator_affine (hKernel : SmoothingKernel half kernel) {n : ℕ} (a b : K) (i : Fin n)
    (hStart : half ≤ (i : ℕ)) (hEnd : (i : ℕ) < n - half) :
    operator kernel n (fun j => a + b * ((j : ℕ) : K)) i = a + b * ((i : ℕ) : K) := by
  have hLength := hKernel.length
  have hTap (k : Fin kernel.length) :
      kernel[k] * (a + b * (((reflect n i.pos
        ((i : ℤ) + (k : ℤ) - ((kernel.length / 2 : ℕ) : ℤ)) : Fin n) : ℕ) : K)) =
      (a + b * ((i : ℕ) : K)) * kernel[k] + b * (kernel[k] * (((k : ℕ) : K) - (half : K))) := by
    have hInside := k.isLt
    -- the kernel stays within the signal here
    have hPosition : (i : ℤ) + (k : ℤ) - ((kernel.length / 2 : ℕ) : ℤ) =
        ((i + k - half : ℕ) : ℤ) := by omega
    have hReflect := reflect_natCast i.pos ⟨i + k - half, by omega⟩
    have hCast : ((i + k - half : ℕ) : K) = ((i : ℕ) : K) + ((k : ℕ) : K) - (half : K) := by
      rw [Nat.cast_sub (by omega), Nat.cast_add]
    rw [hPosition, hReflect, hCast]
    ring
  rw [operator_apply]
  simp only [hTap]
  rw [Finset.sum_add_distrib, ← Finset.mul_sum, ← Finset.mul_sum, hKernel.sum_taps,
    hKernel.moment_eq_zero]
  ring

theorem keepsTrends (hKernel : SmoothingKernel half kernel) (n : ℕ) :
    KeepsTrends half n (operator kernel n) where
  constant := hKernel.operator_const n
  affine := hKernel.operator_affine

end SmoothingKernel

end Filter
end Pushbroom
