import Pushbroom.Proofs.Attitude.Sampling
import Pushbroom.Proofs.Attitude.Transfer
import Pushbroom.Proofs.Geometry.Coordinates

namespace Pushbroom
namespace Attitude

/-!
# A separated sequence stays separated

A split yields a low and a high frequency sequence that sum to the one they come from.  A
transfer of a mean takes from one of them what it gives to the other, so however often means
are moved between the two, and in whichever direction, they keep summing to it.  A transfer
that fails has not changed anything yet.
-/

/-- The way a mean is moved between the two parts of a split. -/
inductive Direction where
  | highToLow
  | lowToHigh
deriving DecidableEq

/-- One transfer of a mean over a window of time. -/
structure Transfer (α : Type) where
  direction : Direction
  start : α
  stop : α

/-! ## Transfers -/

section Run

variable {α : Type} [Scalar α]

/-- Makes a transfer between a low and a high frequency sequence, given in this order.
Returns how it ended and both sequences after it. -/
def Transfer.run (transfer : Transfer α) (parts : Sequence α × Sequence α) :
    Except (Error α) Unit × Sequence α × Sequence α :=
  let move := (transferBias transfer.start transfer.stop).run
  match transfer.direction with
  | .lowToHigh => move.run parts
  | .highToLow =>
    let (result, high, low) := move.run (parts.2, parts.1)
    (result, low, high)

/-- The two sequences after a list of transfers, whether or not some of them fail. -/
def afterTransfers (parts : Sequence α × Sequence α) (transfers : List (Transfer α)) :
    Sequence α × Sequence α :=
  transfers.foldl (fun parts transfer => (transfer.run parts).2) parts

/-- A transfer in either direction fails and changes nothing, or takes what it gives. -/
theorem Transfer.run_cases (transfer : Transfer α) (low high : Sequence α) :
    (∃ error, transfer.run (low, high) = (.error error, low, high)) ∨
      ∃ shift : Channel → Vec3 α,
        transfer.run (low, high) = (.ok (), low.lower shift, high.raise shift) ∨
          transfer.run (low, high) = (.ok (), low.raise shift, high.lower shift) := by
  obtain ⟨direction, start, stop⟩ := transfer
  cases direction with
  | lowToHigh =>
      rcases transferBias_cases start stop low high with ⟨error, hRun⟩ | ⟨shift, hRun⟩
      · exact Or.inl ⟨error, hRun⟩
      · exact Or.inr ⟨shift, Or.inl hRun⟩
  | highToLow =>
      rcases transferBias_cases start stop high low with ⟨error, hRun⟩ | ⟨shift, hRun⟩
      · left
        refine ⟨error, ?_⟩
        simp only [Transfer.run, hRun]
      · right
        refine ⟨shift, Or.inr ?_⟩
        simp only [Transfer.run, hRun]

end Run

/-! ## The invariant -/

variable {K : Type} [Field K] [LinearOrder K] [FloorRing K]

/-- Two sequences sum to a third one, sample by sample and on both channels, and are sampled
as it is. -/
structure SumsTo (whole low high : Sequence K) : Prop where
  lowSampling : low.SameSampling whole
  highSampling : high.SameSampling whole
  sum : ∀ channel,
    Array.zipWith (· + ·) (low.channel channel) (high.channel channel) = whole.channel channel

/-- What is taken from one sequence is given to the other. -/
theorem sub_add_add (u v shift : Vec3 K) : (u - shift) + (v + shift) = u + v := by
  apply Vec3.ext_coordinate
  intro axis
  simp only [Vec3.coordinate_add, Vec3.coordinate_sub]
  ring

theorem add_comm_coordinates (u v : Vec3 K) : u + v = v + u := by
  apply Vec3.ext_coordinate
  intro axis
  simp only [Vec3.coordinate_add]
  ring

theorem add_sub_self (u v : Vec3 K) : u + (v - u) = v := by
  apply Vec3.ext_coordinate
  intro axis
  simp only [Vec3.coordinate_add, Vec3.coordinate_sub]
  ring

theorem SumsTo.symm {whole low high : Sequence K} (hSum : SumsTo whole low high) :
    SumsTo whole high low where
  lowSampling := hSum.highSampling
  highSampling := hSum.lowSampling
  sum := by
    intro channel
    rw [Array.zipWith_comm_of_comm add_comm_coordinates]
    exact hSum.sum channel

theorem SumsTo.lower_raise {whole low high : Sequence K} (hSum : SumsTo whole low high)
    (shift : Channel → Vec3 K) : SumsTo whole (low.lower shift) (high.raise shift) where
  lowSampling := (low.lower_sameSampling shift).trans hSum.lowSampling
  highSampling := (high.raise_sameSampling shift).trans hSum.highSampling
  sum := by
    intro channel
    rw [Sequence.channel_lower, Sequence.channel_raise, Array.zipWith_map]
    simp only [sub_add_add]
    exact hSum.sum channel

/-- The step: a transfer, failed or not, keeps the sum. -/
theorem SumsTo.transfer {whole low high : Sequence K} (hSum : SumsTo whole low high)
    (transfer : Transfer K) :
    SumsTo whole (transfer.run (low, high)).2.1 (transfer.run (low, high)).2.2 := by
  rcases transfer.run_cases low high with ⟨error, hRun⟩ | ⟨shift, hRun | hRun⟩
  · rw [hRun]
    exact hSum
  · rw [hRun]
    exact hSum.lower_raise shift
  · -- the same with the parts exchanged
    rw [hRun]
    exact (hSum.symm.lower_raise shift).symm

/-- The run: any list of transfers keeps the sum. -/
theorem SumsTo.afterTransfers {whole : Sequence K} (transfers : List (Transfer K))
    {parts : Sequence K × Sequence K} (hSum : SumsTo whole parts.1 parts.2) :
    SumsTo whole (afterTransfers parts transfers).1 (afterTransfers parts transfers).2 := by
  -- one transfer starts from the parts that the last one left
  induction transfers generalizing parts with
  | nil => exact hSum
  | cons transfer rest ih =>
      have hStep := hSum.transfer transfer
      exact ih hStep

/-- A split starts with two sequences that sum to the one it separates. -/
theorem Sequence.split_sumsTo [Elementary K] {whole low high : Sequence K} {cutoff : K}
    {settings : Filter.Settings K} (hSplit : whole.split cutoff settings = .ok (low, high)) :
    SumsTo whole low high := by
  obtain ⟨kernel, _, rfl, hSubtract⟩ := Sequence.split_cases hSplit
  have hLowSampling := whole.smoothWith_sameSampling kernel
  refine ⟨hLowSampling, Sequence.subtract_sameSampling hSubtract, ?_⟩
  intro channel
  rw [Sequence.channel_subtract hSubtract]
  apply Array.ext
  · have hSize : (whole.smoothWith kernel).samples.size = whole.samples.size := hLowSampling.size
    simp [Sequence.channel, hSize]
  · intro i hSum hWhole
    simp [add_sub_self]

/-- Transfers between the parts of a split, in any number and in either direction, keep
their sum and their sampling, and a transfer that fails leaves both parts as they are. -/
theorem split_conserved_by_transfers [Elementary K] {whole low high : Sequence K} {cutoff : K}
    {settings : Filter.Settings K} (hSplit : whole.split cutoff settings = .ok (low, high))
    (transfers : List (Transfer K)) :
    let parts := afterTransfers (low, high) transfers
    SumsTo whole parts.1 parts.2 ∧
      ∀ (transfer : Transfer K) (error : Error K),
        (transfer.run parts).1 = .error error → (transfer.run parts).2 = parts := by
  intro parts
  refine ⟨(Sequence.split_sumsTo hSplit).afterTransfers transfers, ?_⟩
  intro transfer error hFailed
  rcases transfer.run_cases parts.1 parts.2 with ⟨_, hRun⟩ | ⟨shift, hRun | hRun⟩
  · rw [hRun]
  · rw [hRun] at hFailed
    cases hFailed
  · rw [hRun] at hFailed
    cases hFailed

/-- Two means moved back and forth between the parts of a short split, and a transfer over a
window without samples in between. -/
theorem split_conserved_by_transfers_jerk :
    ∃ low high, Sequence.jerk.split (1 / 4) Sequence.fiveTaps = .ok (low, high) ∧
      let parts := afterTransfers (low, high)
        [⟨.highToLow, 0, 5⟩, ⟨.highToLow, 3, 4⟩, ⟨.lowToHigh, 1, 1⟩]
      SumsTo Sequence.jerk parts.1 parts.2 ∧
        ∀ (transfer : Transfer ℚ) (error : Error ℚ),
          (transfer.run parts).1 = .error error → (transfer.run parts).2 = parts := by
  have hOk : (Sequence.jerk.split (1 / 4) Sequence.fiveTaps).isOk = true := by decide +kernel
  obtain ⟨⟨low, high⟩, hSplit⟩ := Failure.exists_eq_ok_of_isOk hOk
  exact ⟨low, high, hSplit, split_conserved_by_transfers hSplit _⟩

end Attitude
end Pushbroom
