import Pushbroom.Attitude.Bias

namespace Pushbroom
namespace Attitude

/-!
# Outcomes of a transfer

A transfer of a mean ends in one of three ways: one of the sequences has no sample, the
window has none, or the mean over the samples of the window is taken from the source and
given to the target.  Only the last one changes the sequences.
-/

variable {α : Type} [Scalar α] {source target : Sequence α}

/-- The mean attitude of samples on a channel. -/
def meanAttitude (samples : List (Sample α)) (channel : Channel) : Vec3 α :=
  runningMean (samples.map fun sample => sample.channel channel)

/-- A transfer looks at both sequences and at the window before it changes anything. -/
theorem run_transferBias (start stop : α) (source target : Sequence α) :
    (transferBias start stop).run.run (source, target) =
      if source.size = 0 ∨ target.size = 0 then (.error .emptySequence, source, target)
      else match source.window start stop with
        | .error error => (.error error, source, target)
        | .ok samples =>
            (.ok (), source.lower (meanAttitude samples), target.raise (meanAttitude samples)) := by
  unfold transferBias
  change StateT.run (ExceptT.run (if source.size = 0 ∨ target.size = 0 then _ else _))
    (source, target) = _
  split
  · rfl
  · cases source.window start stop <;> rfl

theorem transferBias_of_empty (start stop : α) (hEmpty : source.size = 0 ∨ target.size = 0) :
    (transferBias start stop).run.run (source, target) =
      (.error .emptySequence, source, target) := by
  rw [run_transferBias, if_pos hEmpty]

theorem transferBias_of_window_error {start stop : α} {error : Error α}
    (hFilled : ¬ (source.size = 0 ∨ target.size = 0))
    (hWindow : source.window start stop = .error error) :
    (transferBias start stop).run.run (source, target) = (.error error, source, target) := by
  rw [run_transferBias, if_neg hFilled, hWindow]

theorem transferBias_of_window {start stop : α} {samples : List (Sample α)}
    (hFilled : ¬ (source.size = 0 ∨ target.size = 0))
    (hWindow : source.window start stop = .ok samples) :
    (transferBias start stop).run.run (source, target) =
      (.ok (), source.lower (meanAttitude samples), target.raise (meanAttitude samples)) := by
  rw [run_transferBias, if_neg hFilled, hWindow]

/-- A transfer either fails and changes nothing, or it takes one attitude for each channel
from every sample of the source and adds it to every sample of the target. -/
theorem transferBias_cases (start stop : α) (source target : Sequence α) :
    (∃ error, (transferBias start stop).run.run (source, target) =
        (.error error, source, target)) ∨
      ∃ shift : Channel → Vec3 α, (transferBias start stop).run.run (source, target) =
        (.ok (), source.lower shift, target.raise shift) := by
  by_cases hEmpty : source.size = 0 ∨ target.size = 0
  · exact Or.inl ⟨_, transferBias_of_empty start stop hEmpty⟩
  · cases hWindow : source.window start stop with
    | error error => exact Or.inl ⟨error, transferBias_of_window_error hEmpty hWindow⟩
    | ok samples => exact Or.inr ⟨_, transferBias_of_window hEmpty hWindow⟩

end Attitude
end Pushbroom
