import Mathlib.Algebra.Group.EvenFunction
import Mathlib.Algebra.Ring.Periodic
import Pushbroom.Proofs.Filter.Smoothing

namespace Pushbroom
namespace Filter

/-!
# Signals continued by reflection

Reflections at the two ends of a signal of `n` samples follow different rules: the first sample
is its own image, the last one is repeated.  Two of them in turn move a position by `2 n - 1`, so
what a position is reflected to depends on its remainder modulo `2 n - 1` only, and the signal
continues with that period, however far a kernel reaches beyond its ends.
-/

/-- A position comes onto a signal of `n` samples after a number of reflections, each at the end
beyond which it lies. -/
inductive Bounces (n : ℕ) : ℕ → ℤ → ℤ → Prop
  | inside {j : ℤ} (hLow : 0 ≤ j) (hHigh : j < n) : Bounces n 0 j j
  | before {passes : ℕ} {j sample : ℤ} (hBefore : j < 0) (hRest : Bounces n passes (-j) sample) :
      Bounces n (passes + 1) j sample
  | beyond {passes : ℕ} {j sample : ℤ} (hBeyond : n ≤ j)
      (hRest : Bounces n passes (2 * n - j - 1) sample) : Bounces n (passes + 1) j sample

/-- The sample that a remainder modulo `2 n - 1` stands for: those past the far edge go back. -/
def folded (n : ℕ) (k : ℤ) : ℤ :=
  if k < n then k else 2 * n - 1 - k

/-! ## The number of reflections -/

/-- A bound on the reflections of a position that is not before the signal: two for each period that
it is away from the first sample, and one if what remains is past the far edge. -/
def mostBounces (n distance : ℕ) : ℕ :=
  2 * (distance / (2 * n - 1)) + if n ≤ distance % (2 * n - 1) then 1 else 0

theorem mostBounces_of_lt {n distance : ℕ} (hInside : distance < n) :
    mostBounces n distance = 0 := by
  have hPeriod : distance < 2 * n - 1 := by omega
  rw [mostBounces, Nat.div_eq_of_lt hPeriod, Nat.mod_eq_of_lt hPeriod, if_neg (by omega)]

theorem mostBounces_of_le_of_lt {n distance : ℕ} (hBeyond : n ≤ distance)
    (hPeriod : distance < 2 * n - 1) : mostBounces n distance = 1 := by
  rw [mostBounces, Nat.div_eq_of_lt hPeriod, Nat.mod_eq_of_lt hPeriod, if_pos hBeyond]

theorem mostBounces_of_le {n distance : ℕ} (hPositive : 0 < n) (hPeriod : 2 * n - 1 ≤ distance) :
    mostBounces n distance = mostBounces n (distance - (2 * n - 1)) + 2 := by
  rw [mostBounces, mostBounces, Nat.div_eq_sub_div (by omega) hPeriod, Nat.mod_eq_sub_mod hPeriod]
  ring

/-- Reflecting comes to an end, on the sample that stands for the position. -/
theorem exists_bounces {n : ℕ} (hPositive : 0 < n) (j : ℤ) :
    ∃ passes ≤ mostBounces n j.natAbs + (if j < 0 then 1 else 0),
      Bounces n passes j (reflect n hPositive j : ℕ) := by
  fun_induction reflect n hPositive j with
  | case1 j hBefore ih =>
      obtain ⟨passes, hFew, hRest⟩ := ih
      rw [Int.natAbs_neg, if_neg (by omega)] at hFew
      rw [if_pos hBefore]
      exact ⟨passes + 1, by omega, .before hBefore hRest⟩
  | case2 j hNotBefore hBeyond ih =>
      obtain ⟨passes, hFew, hRest⟩ := ih
      refine ⟨passes + 1, ?_, .beyond hBeyond hRest⟩
      rcases lt_or_ge j.natAbs (2 * n - 1) with hNear | hFar
      · -- within one period the image is a sample
        rw [mostBounces_of_lt (by omega), if_neg (by omega)] at hFew
        rw [mostBounces_of_le_of_lt (by omega) hNear]
        omega
      · -- the image is a period nearer to the first sample, on its other side
        have hImage : (2 * (n : ℤ) - j - 1).natAbs = j.natAbs - (2 * n - 1) := by omega
        rw [hImage] at hFew
        rw [mostBounces_of_le hPositive hFar]
        split at hFew <;> omega
  | case3 j hNotBefore hNotBeyond =>
      refine ⟨0, Nat.zero_le _, ?_⟩
      simp only [Int.toNat_of_nonneg (not_lt.mp hNotBefore)]
      exact .inside (not_lt.mp hNotBefore) (not_le.mp hNotBeyond)

/-! ## Remainders -/

/-- Opposite remainders stand for one sample. -/
theorem folded_neg_emod {n : ℕ} (hPositive : 0 < n) (j : ℤ) :
    folded n (-j % (2 * n - 1)) = folded n (j % (2 * n - 1)) := by
  have hNonneg := Int.emod_nonneg j (show (2 * n - 1 : ℤ) ≠ 0 by omega)
  have hLess := Int.emod_lt_of_pos j (show (0 : ℤ) < 2 * n - 1 by omega)
  rw [Int.neg_emod]
  split
  · rename_i hPeriods
    rw [Int.emod_eq_zero_of_dvd hPeriods]
  · rename_i hRest
    rw [Int.dvd_iff_emod_eq_zero] at hRest
    unfold folded
    split <;> split <;> omega

theorem folded_mirrored {n : ℕ} (hPositive : 0 < n) (j : ℤ) :
    folded n ((2 * n - j - 1) % (2 * n - 1)) = folded n (j % (2 * n - 1)) := by
  rw [show 2 * (n : ℤ) - j - 1 = -j + (2 * n - 1) by ring, Int.add_emod_right,
    folded_neg_emod hPositive]

theorem reflect_eq_folded {n : ℕ} (hPositive : 0 < n) (j : ℤ) :
    ((reflect n hPositive j : ℕ) : ℤ) = folded n (j % (2 * n - 1)) := by
  fun_induction reflect n hPositive j with
  | case1 j hBefore ih => rw [ih, folded_neg_emod hPositive]
  | case2 j hNotBefore hBeyond ih => rw [ih, folded_mirrored hPositive]
  | case3 j hNotBefore hNotBeyond =>
      rw [Int.emod_eq_of_lt (by omega) (by omega), folded, if_pos (by omega),
        Int.toNat_of_nonneg (by omega)]

theorem reflect_congr {n : ℕ} (hPositive : 0 < n) {j k : ℤ}
    (hFolded : folded n (j % (2 * n - 1)) = folded n (k % (2 * n - 1))) :
    reflect n hPositive j = reflect n hPositive k := by
  rw [← reflect_eq_folded hPositive, ← reflect_eq_folded hPositive] at hFolded
  exact Fin.ext (Int.natCast_inj.mp hFolded)

/-! ## Continued signals -/

/-- A signal is continued to all positions: about its first sample and across its far edge it is
its own mirror image. -/
structure Continues {β : Type} (signal : Array β) (continued : ℤ → β) : Prop where
  agrees : ∀ (i : ℕ) (hIndex : i < signal.size), continued i = signal[i]
  even : Function.Even continued
  mirrored : ∀ i : ℤ, continued (signal.size + i) = continued (signal.size - 1 - i)
  periodic : Function.Periodic continued (2 * signal.size - 1)

/-- The signal with every position reflected onto it. -/
def continued {β : Type} (signal : Array β) (hPositive : 0 < signal.size) (j : ℤ) : β :=
  signal[reflect signal.size hPositive j]

theorem continued_congr {β : Type} (signal : Array β) (hPositive : 0 < signal.size) {j k : ℤ}
    (hFolded : folded signal.size (j % (2 * signal.size - 1)) =
      folded signal.size (k % (2 * signal.size - 1))) :
    continued signal hPositive j = continued signal hPositive k :=
  congrArg (fun i : Fin signal.size => signal[i]) (reflect_congr hPositive hFolded)

theorem continues_continued {β : Type} (signal : Array β) (hPositive : 0 < signal.size) :
    Continues signal (continued signal hPositive) where
  agrees i hIndex :=
    congrArg (fun i : Fin signal.size => signal[i]) (reflect_natCast hPositive ⟨i, hIndex⟩)
  even j := continued_congr signal hPositive (folded_neg_emod hPositive j)
  mirrored i := by
    have hMirrored := folded_mirrored hPositive (signal.size + i)
    rw [show 2 * (signal.size : ℤ) - (signal.size + i) - 1 = signal.size - 1 - i by ring]
      at hMirrored
    exact continued_congr signal hPositive hMirrored.symm
  periodic j := continued_congr signal hPositive (by rw [Int.add_emod_right])

/-- The value a kernel gives at a position of a signal without ends. -/
def convolvedAt {α : Type} [Scalar α] (kernel : List α) (signal : ℤ → Vec3 α) (i : ℤ) : Vec3 α :=
  kernel.zipIdx.foldl
    (fun total tap =>
      total + (signal (i + (tap.2 : ℤ) - ((kernel.length / 2 : ℕ) : ℤ))).scale tap.1)
    0

/-- Reflecting a position ends, after about two reflections for each period that the position is
away, with the sample that its remainder modulo the period stands for.  Signals are smoothed as if
they went on with that period, mirrored at both ends, whatever the length of the kernel. -/
theorem reflect_continues {α : Type} [Scalar α] {n : ℕ} (hPositive : 0 < n) :
    (∀ j : ℤ,
      (∃ passes ≤ 2 * (j.natAbs / (2 * n - 1)) + 2,
        Bounces n passes j (reflect n hPositive j : ℕ)) ∧
      ((reflect n hPositive j : ℕ) : ℤ) = folded n (j % (2 * n - 1))) ∧
    ∀ (signal : Array (Vec3 α)) (hSize : signal.size = n),
      Continues signal (continued signal (hSize ▸ hPositive)) ∧
      ∀ (kernel : List α) (i : Fin signal.size),
        smoothAt kernel signal i = convolvedAt kernel (continued signal (hSize ▸ hPositive)) i := by
  refine ⟨fun j => ⟨?_, reflect_eq_folded hPositive j⟩, fun signal hSize =>
    ⟨continues_continued signal _, fun kernel i => rfl⟩⟩
  obtain ⟨passes, hFew, hBounces⟩ := exists_bounces hPositive j
  refine ⟨passes, hFew.trans ?_, hBounces⟩
  unfold mostBounces
  split <;> split <;> omega

def twoSamples : Array (Vec3 ℚ) :=
  #[⟨1, 0, 0⟩, ⟨2, 0, 0⟩]

/-- Around a signal of two samples, which goes on with period three. -/
theorem reflect_continues_twoSamples :
    0 < 2 ∧ (∃ passes ≤ 4, Bounces 2 passes (-4) 1) ∧
    ∃ hSize : twoSamples.size = 2,
      continued twoSamples (hSize ▸ Nat.two_pos) (-2) = ⟨2, 0, 0⟩ ∧
      ∀ kernel : List ℚ, smoothAt kernel twoSamples ⟨1, by decide⟩ =
        convolvedAt kernel (continued twoSamples (hSize ▸ Nat.two_pos)) 1 := by
  obtain ⟨hPositions, hSignals⟩ := reflect_continues (α := ℚ) Nat.two_pos
  obtain ⟨⟨passes, hFew, hBounces⟩, hSample⟩ := hPositions (-4)
  obtain ⟨hContinues, hSmooth⟩ := hSignals twoSamples rfl
  rw [hSample] at hBounces
  refine ⟨Nat.two_pos, ⟨passes, hFew, hBounces⟩, rfl, ?_, fun kernel => hSmooth kernel _⟩
  exact (hContinues.periodic (-2)).symm.trans (hContinues.agrees 1 (by decide))

end Filter
end Pushbroom
