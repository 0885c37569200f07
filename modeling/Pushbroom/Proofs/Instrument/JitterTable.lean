import Pushbroom.Instrument.Jitter
import Pushbroom.Proofs.Attitude.Cubic
import Pushbroom.Proofs.Failure

namespace Pushbroom
namespace JitterTable

/-!
# Entries of a jitter table

A table is filled by two loops, over the frames and over the entries of each, and read at a
position that is computed from both.  The loops ask for the jitter at one list of times, frame by
frame; the first one without a jitter is the failure of the table, and otherwise a lookup of an
entry finds what was asked for it, whatever the arithmetic.
-/

variable {α : Type} [Scalar α]

/-- The times that a table is asked for, frame by frame. -/
def entryTimes (frameTimes : List α) (step : α) (perFrame : ℕ) : List α :=
  frameTimes.flatMap fun time =>
    (List.range perFrame).map fun (entry : ℕ) => time + (entry : α) * step

theorem length_entryTimes (frameTimes : List α) (step : α) (perFrame : ℕ) :
    (entryTimes frameTimes step perFrame).length = frameTimes.length * perFrame := by
  simp [entryTimes, List.length_flatMap]

/-- The entries of a frame stand behind those of all frames before it. -/
theorem getElem?_entryTimes (frameTimes : List α) (step : α) {perFrame frame entry : ℕ}
    (hFrame : frame < frameTimes.length) (hEntry : entry < perFrame) :
    (entryTimes frameTimes step perFrame)[frame * perFrame + entry]? =
      some (frameTimes[frame] + (entry : α) * step) := by
  induction frameTimes generalizing frame with
  | nil => cases hFrame
  | cons time rest ih =>
      have hOwn : ((List.range perFrame).map fun (entry : ℕ) =>
          time + (entry : α) * step).length = perFrame := by simp
      rw [entryTimes, List.flatMap_cons]
      cases frame with
      | zero =>
          rw [Nat.zero_mul, Nat.zero_add, List.getElem?_append_left (by omega)]
          simp [hEntry]
      | succ frame =>
          -- past the entries of the first frame, counted from there
          have hPosition :
              (frame + 1) * perFrame + entry - perFrame = frame * perFrame + entry := by
            rw [Nat.succ_mul]
            omega
          rw [List.getElem?_append_right (by rw [hOwn, Nat.succ_mul]; omega), hOwn, hPosition]
          exact ih (Nat.lt_of_succ_lt_succ hFrame)

/-! ## The loops -/

/-- The inner loop adds the jitter at some entries of a frame, or fails with the first. -/
theorem addEntries_eq (jitter : Attitude.Sequence α) (time step : α) (entries : Array (Vec3 α))
    (entry count : ℕ) :
    addEntries jitter time step entries entry count =
      ((List.range' entry count).map fun (k : ℕ) => time + (k : α) * step).mapM jitter.jitter >>=
        fun values => .ok (entries ++ values.toArray) := by
  induction count generalizing entries entry with
  | zero => simp [addEntries, pure, Except.pure, Failure.ok_bind]
  | succ count ih =>
      rw [List.range'_succ, List.map_cons, List.mapM_cons, addEntries, bind_assoc]
      refine bind_congr fun value => ?_
      rw [ih, bind_assoc]
      refine bind_congr fun values => ?_
      simp

/-- Both loops ask for one list of times. -/
theorem foldlM_addEntries (jitter : Attitude.Sequence α) (step : α) (perFrame : ℕ)
    (frameTimes : List α) (entries : Array (Vec3 α)) :
    frameTimes.foldlM (fun entries time => addEntries jitter time step entries 0 perFrame) entries =
      (entryTimes frameTimes step perFrame).mapM jitter.jitter >>= fun values =>
        .ok (entries ++ values.toArray) := by
  induction frameTimes generalizing entries with
  | nil => simp [entryTimes, pure, Except.pure, Failure.ok_bind]
  | cons time rest ih =>
      rw [List.foldlM_cons, addEntries_eq, entryTimes, List.flatMap_cons, ← List.range_eq_range',
        List.mapM_append, bind_assoc, bind_assoc]
      refine bind_congr fun values => ?_
      -- the frames that are left go on from the entries of this one
      rw [Failure.ok_bind, ih, ← entryTimes, bind_assoc]
      refine bind_congr fun others => ?_
      simp

/-! ## The table -/

/-- Entries of earlier frames, and earlier entries of the same frame, stand before an entry. -/
theorem position_lt {frames perFrame : ℕ} {frame earlierFrame : Fin frames}
    {entry earlierEntry : Fin perFrame}
    (hEarlier : earlierFrame < frame ∨ earlierFrame = frame ∧ earlierEntry < entry) :
    (earlierFrame : ℕ) * perFrame + earlierEntry < (frame : ℕ) * perFrame + entry := by
  rcases hEarlier with hFrame | ⟨rfl, hEntry⟩
  · have hRows := Nat.mul_le_mul_right perFrame (Nat.succ_le_of_lt hFrame)
    rw [Nat.succ_mul] at hRows
    omega
  · exact Nat.add_lt_add_left hEntry _

section Table

variable (jitter : Attitude.Sequence α) (frameTimes : Array α) (perFrame : ℕ) (period : α)

/-- The times that a table is asked for. -/
def askedTimes : List α :=
  entryTimes frameTimes.toList (period / (perFrame : α)) perFrame

/-- The jitter that is asked for at an entry of a frame. -/
def asked (frame : Fin frameTimes.size) (entry : Fin perFrame) : Except (Error α) (Vec3 α) :=
  jitter.jitter (frameTimes[frame] + ((entry : ℕ) : α) * (period / (perFrame : α)))

end Table

variable {jitter : Attitude.Sequence α} {frameTimes : Array α} {perFrame : ℕ} {period : α}

theorem length_askedTimes :
    (askedTimes frameTimes perFrame period).length = frameTimes.size * perFrame := by
  rw [askedTimes, length_entryTimes, Array.length_toList]

theorem getElem?_askedTimes (period : α) (frame : Fin frameTimes.size) (entry : Fin perFrame) :
    (askedTimes frameTimes perFrame period)[(frame : ℕ) * perFrame + entry]? =
      some (frameTimes[frame] + ((entry : ℕ) : α) * (period / (perFrame : α))) := by
  have hFrame : (frame : ℕ) < frameTimes.toList.length := by simp
  rw [askedTimes, getElem?_entryTimes _ _ hFrame entry.isLt]
  simp

theorem asked_mem (frame : Fin frameTimes.size) (entry : Fin perFrame) :
    frameTimes[frame] + ((entry : ℕ) : α) * (period / (perFrame : α)) ∈
      askedTimes frameTimes perFrame period :=
  List.mem_of_getElem? (getElem?_askedTimes period frame entry)

/-- Every time that is asked for is that of an entry of a frame. -/
theorem exists_asked_eq (jitter : Attitude.Sequence α) {i : ℕ}
    (hIndex : i < (askedTimes frameTimes perFrame period).length) :
    ∃ (frame : Fin frameTimes.size) (entry : Fin perFrame), (frame : ℕ) * perFrame + entry = i ∧
      asked jitter frameTimes perFrame period frame entry =
        jitter.jitter (askedTimes frameTimes perFrame period)[i] := by
  have hProduct : i < perFrame * frameTimes.size := by
    rw [length_askedTimes, Nat.mul_comm] at hIndex
    exact hIndex
  have hSome : 0 < perFrame := Nat.pos_of_mul_pos_right (Nat.zero_lt_of_lt hProduct)
  -- the quotient is the frame, the remainder the entry in it
  let frame : Fin frameTimes.size := ⟨i / perFrame, Nat.div_lt_of_lt_mul hProduct⟩
  let entry : Fin perFrame := ⟨i % perFrame, Nat.mod_lt i hSome⟩
  have hPosition : (frame : ℕ) * perFrame + entry = i := Nat.div_add_mod' i perFrame
  have hTime := getElem?_askedTimes period frame entry
  rw [hPosition, List.getElem?_eq_getElem hIndex] at hTime
  refine ⟨frame, entry, hPosition, ?_⟩
  rw [asked, Option.some.inj hTime]

section Built

variable [Memory] (hSome : perFrame ≠ 0)
  (hReserved : reserve (α := α) (frameTimes.size * perFrame) 24 = .ok ())

include hSome hReserved

/-- What is built is made of the answers to one list of requests. -/
theorem build_eq :
    build jitter frameTimes perFrame period =
      (askedTimes frameTimes perFrame period).mapM jitter.jitter >>= fun answers =>
        .ok ⟨perFrame, answers.toArray⟩ := by
  unfold build
  rw [if_neg hSome, hReserved, Failure.ok_bind]
  dsimp only
  rw [foldlM_addEntries, bind_assoc, askedTimes]
  refine bind_congr fun answers => ?_
  rw [Failure.ok_bind, Array.empty_append]
  rfl

/-- A table is built when there is a jitter at every entry. -/
theorem exists_build_iff :
    (∃ table, build jitter frameTimes perFrame period = .ok table) ↔
      ∀ frame entry, ∃ angles,
        asked jitter frameTimes perFrame period frame entry = .ok angles := by
  have hAnswers : (∃ table, build jitter frameTimes perFrame period = .ok table) ↔
      ∃ answers, (askedTimes frameTimes perFrame period).mapM jitter.jitter = .ok answers := by
    simp only [build_eq hSome hReserved, Failure.bind_eq_ok]
    exact ⟨fun ⟨_, answers, hAnswers, _⟩ => ⟨answers, hAnswers⟩,
      fun ⟨answers, hAnswers⟩ => ⟨_, answers, hAnswers, rfl⟩⟩
  rw [hAnswers, Failure.exists_mapM_eq_ok_iff]
  constructor
  · intro hAll frame entry
    exact hAll _ (asked_mem frame entry)
  · intro hAll time hTime
    obtain ⟨i, hIndex, rfl⟩ := List.mem_iff_getElem.mp hTime
    obtain ⟨frame, entry, -, hAsked⟩ := exists_asked_eq jitter hIndex
    rw [← hAsked]
    exact hAll frame entry

/-- A failure to build a table is that of the first entry without a jitter. -/
theorem exists_first_of_build {error : Error α}
    (hFails : build jitter frameTimes perFrame period = .error error) :
    ∃ frame entry, asked jitter frameTimes perFrame period frame entry = .error error ∧
      ∀ earlierFrame earlierEntry,
        earlierFrame < frame ∨ earlierFrame = frame ∧ earlierEntry < entry →
          ∃ angles, asked jitter frameTimes perFrame period earlierFrame earlierEntry =
            .ok angles := by
  rw [build_eq hSome hReserved, Failure.bind_eq_error] at hFails
  rcases hFails with hAnswers | ⟨answers, -, hNever⟩
  · obtain ⟨i, hIndex, hAt, hBefore⟩ := Failure.exists_first_of_mapM_eq_error hAnswers
    obtain ⟨frame, entry, rfl, hAsked⟩ := exists_asked_eq jitter hIndex
    refine ⟨frame, entry, hAsked.trans hAt, fun earlierFrame earlierEntry hEarlier => ?_⟩
    have hPosition := position_lt hEarlier
    obtain ⟨angles, hAngles⟩ := hBefore _ hPosition
    have hTime := getElem?_askedTimes period earlierFrame earlierEntry
    rw [List.getElem?_eq_getElem (Nat.lt_trans hPosition hIndex)] at hTime
    refine ⟨angles, ?_⟩
    rwa [asked, ← Option.some.inj hTime]
  · cases hNever

/-- A lookup finds what was asked for at that entry of that frame, and nothing elsewhere. -/
theorem entry?_of_build {table : JitterTable α}
    (hTable : build jitter frameTimes perFrame period = .ok table) (frame entry : ℕ) :
    (∀ (hFrame : frame < frameTimes.size) (hEntry : entry < perFrame), ∃ angles,
      asked jitter frameTimes perFrame period ⟨frame, hFrame⟩ ⟨entry, hEntry⟩ = .ok angles ∧
        table.entry? frame entry = some angles) ∧
    (¬(frame < frameTimes.size ∧ entry < perFrame) → table.entry? frame entry = none) := by
  rw [build_eq hSome hReserved, Failure.bind_eq_ok] at hTable
  obtain ⟨answers, hAnswers, hResult⟩ := hTable
  obtain rfl : ⟨perFrame, answers.toArray⟩ = table := Except.ok.inj hResult
  have hEach := Failure.forall₂_of_mapM_eq_ok hAnswers
  have hLength : answers.length = frameTimes.size * perFrame :=
    hEach.length_eq.symm.trans length_askedTimes
  constructor
  · intro hFrame hEntry
    have hTime := getElem?_askedTimes period ⟨frame, hFrame⟩ ⟨entry, hEntry⟩
    obtain ⟨hIndex, hValue⟩ := List.getElem?_eq_some_iff.mp hTime
    have hAnswer : frame * perFrame + entry < answers.length := hEach.length_eq ▸ hIndex
    refine ⟨answers[frame * perFrame + entry], ?_, ?_⟩
    · rw [asked, ← hValue]
      exact hEach.get hIndex hAnswer
    · unfold entry?
      simp [hEntry, hAnswer]
  · intro hOutside
    by_cases hEntry : entry < perFrame
    · -- a frame past the last one is looked up past the last entry
      have hFrame : frameTimes.size ≤ frame :=
        Nat.le_of_not_lt fun hFrame => hOutside ⟨hFrame, hEntry⟩
      have hBeyond : answers.length ≤ frame * perFrame + entry := by
        rw [hLength]
        exact Nat.le_trans (Nat.mul_le_mul_right perFrame hFrame) (Nat.le_add_right _ _)
      unfold entry?
      simp [hEntry, hBeyond]
    · -- without the test an entry of a later frame would be found
      unfold entry?
      simp [hEntry]

end Built

theorem build_of_zero [Memory] (jitter : Attitude.Sequence α) (frameTimes : Array α) (period : α) :
    build jitter frameTimes 0 period = .error .emptySequence :=
  rfl

/-- A table that can be reserved is built when there are entries in a frame and a jitter at each of
them, in every frame; otherwise it is refused, with the failure of the first entry, frame by frame,
that has none.  A lookup finds the jitter of that entry of that frame, and none outside. -/
theorem build_resamples [Memory] (jitter : Attitude.Sequence α) (frameTimes : Array α) (perFrame : ℕ)
    (period : α) (hReserved : reserve (α := α) (frameTimes.size * perFrame) 24 = .ok ()) :
    (perFrame = 0 → build jitter frameTimes perFrame period = .error .emptySequence) ∧
    (perFrame ≠ 0 →
      ((∃ table, build jitter frameTimes perFrame period = .ok table) ↔
        ∀ frame entry, ∃ angles,
          asked jitter frameTimes perFrame period frame entry = .ok angles) ∧
      ((¬∀ frame entry, ∃ angles,
          asked jitter frameTimes perFrame period frame entry = .ok angles) →
        ∃ frame entry error,
          asked jitter frameTimes perFrame period frame entry = .error error ∧
          (∀ earlierFrame earlierEntry,
            earlierFrame < frame ∨ earlierFrame = frame ∧ earlierEntry < entry →
              ∃ angles, asked jitter frameTimes perFrame period earlierFrame earlierEntry =
                .ok angles) ∧
          build jitter frameTimes perFrame period = .error error)) ∧
    ∀ table, build jitter frameTimes perFrame period = .ok table → ∀ frame entry : ℕ,
      (∀ (hFrame : frame < frameTimes.size) (hEntry : entry < perFrame), ∃ angles,
        asked jitter frameTimes perFrame period ⟨frame, hFrame⟩ ⟨entry, hEntry⟩ = .ok angles ∧
          table.entry? frame entry = some angles) ∧
      (¬(frame < frameTimes.size ∧ entry < perFrame) → table.entry? frame entry = none) := by
  by_cases hNone : perFrame = 0
  · subst hNone
    refine ⟨fun _ => build_of_zero jitter frameTimes period, fun hSome => absurd rfl hSome, ?_⟩
    intro table hTable
    rw [build_of_zero] at hTable
    cases hTable
  · refine ⟨fun hZero => absurd hZero hNone, fun hSome => ⟨exists_build_iff hSome hReserved, ?_⟩,
      fun table hTable => entry?_of_build hNone hReserved hTable⟩
    intro hMissing
    rw [← exists_build_iff hSome hReserved] at hMissing
    cases hResult : build jitter frameTimes perFrame period with
    | ok table => exact absurd ⟨table, hResult⟩ hMissing
    | error error =>
        obtain ⟨frame, entry, hFails, hEarlier⟩ := exists_first_of_build hSome hReserved hResult
        exact ⟨frame, entry, error, hFails, hEarlier, rfl⟩

/-- Two entries in each of two frames.  What would be the third entry of the first frame stands
where the first entry of the second frame is, and is only found there. -/
theorem build_resamples_twoFrames :
    ∃ table angles, build Attitude.Sequence.cube #[3 / 2, 2] 2 (1 / 2) = .ok table ∧
      Attitude.Sequence.cube.jitter 2 = .ok angles ∧
      table.entry? 1 0 = some angles ∧ table.entry? 0 2 = none := by
  have hInterval : 0 < Attitude.Sequence.cube.interval := by decide +kernel
  have hEven := Attitude.Sequence.cube_evenlyFrom
  obtain ⟨-, hBuilt, hLookups⟩ :=
    build_resamples Attitude.Sequence.cube #[3 / 2, 2] 2 (1 / 2) rfl
  have hInside : ∀ frame entry : Fin 2,
      let time : ℚ := #[3 / 2, 2][frame] + ((entry : ℕ) : ℚ) * (1 / 2 / ((2 : ℕ) : ℚ))
      1 + Attitude.Sequence.cube.interval ≤ time ∧
        time < 1 + ((Attitude.Sequence.cube.size : ℚ) - 2) * Attitude.Sequence.cube.interval := by
    decide +kernel
  obtain ⟨table, hTable⟩ := (hBuilt (by decide)).1.mpr fun frame entry => by
    obtain ⟨start, hStop, hLow, hHigh⟩ := hEven.exists_surrounded hInterval (hInside frame entry)
    exact ⟨_, hEven.jitter_of_bracket hInterval hStop hLow hHigh⟩
  obtain ⟨angles, hAsked, hFound⟩ := (hLookups table hTable 1 0).1 (by decide) (by decide)
  refine ⟨table, angles, hTable, ?_, hFound, (hLookups table hTable 0 2).2 (by decide)⟩
  simpa [asked] using hAsked

end JitterTable
end Pushbroom
