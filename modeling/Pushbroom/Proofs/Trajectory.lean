import Pushbroom.Proofs.Failure
import Pushbroom.Proofs.Polynomial.Lagrange
import Pushbroom.Trajectory

namespace Pushbroom
namespace Trajectory

/-!
# Trajectories and the origin of time

The samples that surround a time are found from the time since the first sample, and the state
is interpolated from the times between them.  A trajectory whose times are all counted from
another moment therefore has the same states at the times counted from there.  Only failures
tell the two apart, since they name the time that was asked for.
-/

section Between

variable {α : Type} [Scalar α]

/-- The state in a frame through `count` samples from the one at `start` on. -/
def interpolated (trajectory : Trajectory α) (start count : ℕ) (time : α) (frame : Frame) :
    State α :=
  let nodes := (trajectory.samples.extract start (start + count)).toList
  { position := Lagrange.interpolate
      (nodes.map fun sample => (sample.time, (sample.state frame).position)) time
    velocity := Lagrange.interpolate
      (nodes.map fun sample => (sample.time, (sample.state frame).velocity)) time }

/-- The samples that surround a position are within the trajectory. -/
theorem window_nodeRange (trajectory : Trajectory α) (offset : α) :
    trajectory.window (nodeRange trajectory.size offset).1 (nodeRange trajectory.size offset).2 =
      .ok (trajectory.samples.extract (nodeRange trajectory.size offset).1
        ((nodeRange trajectory.size offset).1 + (nodeRange trajectory.size offset).2)).toList := by
  have hFits : (nodeRange trajectory.size offset).1 + (nodeRange trajectory.size offset).2 ≤
      trajectory.size := by
    simp only [nodeRange]
    omega
  rw [window, if_pos hFits]

theorem stateAt_eq (trajectory : Trajectory α) (time : α) (frame : Frame) :
    trajectory.stateAt time frame =
      if trajectory.interval ≤ 0 then .error (.sampleTime trajectory.interval)
      else trajectory.firstTime time >>= fun first =>
        if (time - first) / trajectory.interval < 0 ∨
            ((trajectory.size - 1 : ℕ) : α) < (time - first) / trajectory.interval then
          .error (.timeOutOfRange time)
        else
          let range := nodeRange trajectory.size ((time - first) / trajectory.interval)
          .ok (trajectory.interpolated range.1 range.2 time frame) := by
  unfold stateAt
  split
  · rfl
  · refine congrArg (trajectory.firstTime time >>= ·) (funext fun first => ?_)
    dsimp only
    split
    · rfl
    · rw [window_nodeRange]
      rfl

end Between

/-! ## Times counted from another moment -/

variable {K : Type} [Field K]

/-- A sample with its time counted from `shift` seconds later. -/
def Sample.countedFrom (shift : K) (sample : Sample K) : Sample K :=
  { sample with time := sample.time - shift }

/-- A trajectory with another epoch, and its times counted from `shift` seconds later. -/
def countedFrom (trajectory : Trajectory K) (epoch : Epoch K) (shift : K) : Trajectory K :=
  { trajectory with epoch, samples := trajectory.samples.map (Sample.countedFrom shift) }

theorem size_countedFrom (trajectory : Trajectory K) (epoch : Epoch K) (shift : K) :
    (trajectory.countedFrom epoch shift).size = trajectory.size := by
  simp only [size, countedFrom, Array.size_map]

theorem toOption_firstTime_countedFrom (trajectory : Trajectory K) (epoch : Epoch K)
    (shift time other : K) :
    ((trajectory.countedFrom epoch shift).firstTime other).toOption =
      (trajectory.firstTime time).toOption.map fun first => first - shift := by
  have hSamples : (trajectory.countedFrom epoch shift).samples[0]? =
      trajectory.samples[0]?.map (Sample.countedFrom shift) := by
    simp only [countedFrom, Array.getElem?_map]
  simp only [firstTime, size_countedFrom, hSamples]
  cases trajectory.samples[0]? with
  | none => rfl
  | some sample =>
      by_cases hSeveral : 1 < trajectory.size
      · simp only [Option.map_some, if_pos hSeveral]
        rfl
      · simp only [Option.map_some, if_neg hSeveral]
        rfl

variable [LinearOrder K] [FloorRing K]

theorem interpolated_countedFrom (trajectory : Trajectory K) (epoch : Epoch K) (shift : K)
    (start count : ℕ) (time : K) (frame : Frame) :
    (trajectory.countedFrom epoch shift).interpolated start count (time - shift) frame =
      trajectory.interpolated start count time frame := by
  have hNodes (value : State K → Vec3 K) :
      ((trajectory.samples.map (Sample.countedFrom shift)).extract start
          (start + count)).toList.map (fun sample => (sample.time, value (sample.state frame))) =
        ((trajectory.samples.extract start (start + count)).toList.map
          fun sample => (sample.time, value (sample.state frame))).map
            fun node => (node.1 - shift, node.2) := by
    rw [← Array.map_extract, Array.toList_map, List.map_map, List.map_map]
    refine List.map_congr_left fun sample _ => ?_
    cases frame <;> rfl
  simp only [interpolated, countedFrom, hNodes, Lagrange.interpolate_sub]

/-- At the same moment there is the same state, or none for both. -/
theorem toOption_stateAt_countedFrom (trajectory : Trajectory K) (epoch : Epoch K)
    (shift time : K) (frame : Frame) :
    ((trajectory.countedFrom epoch shift).stateAt (time - shift) frame).toOption =
      (trajectory.stateAt time frame).toOption := by
  have hInterval : (trajectory.countedFrom epoch shift).interval = trajectory.interval := rfl
  rw [stateAt_eq, stateAt_eq, hInterval]
  by_cases hPositive : trajectory.interval ≤ 0
  · rw [if_pos hPositive, if_pos hPositive]
  · rw [if_neg hPositive, if_neg hPositive, Failure.toOption_bind, Failure.toOption_bind,
      toOption_firstTime_countedFrom trajectory epoch shift time, Option.bind_map]
    refine congrArg ((trajectory.firstTime time).toOption.bind ·) (funext fun first => ?_)
    simp only [Function.comp_apply, size_countedFrom, sub_sub_sub_cancel_right,
      interpolated_countedFrom]
    split <;> rfl

end Trajectory
end Pushbroom
