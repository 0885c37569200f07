import Mathlib.Data.List.FinRange
import Mathlib.Tactic
import Pushbroom.Dense.Transposition

namespace Pushbroom
namespace Transposition

/-!
# Cycles of a transposition

Rows and columns exchanged, the map from the positions of a matrix to those of its transposed
matrix becomes its own inverse.  So no two entries have the same destination, and the walk along a
cycle comes back to where it started before it meets any other position twice.

Between two cycles every entry either waits where it stood in the beginning or has arrived at its
destination.  On a cycle one entry is carried besides, the one of the position that the walk has
reached.
-/

/-! ## Destinations -/

section Destinations

variable {rows columns : ℕ}

/-- Row by row, the entry in row `i` and column `j` of a matrix moves to row `j` and column `i` of
the transposed one. -/
theorem destination_entry {i j : ℕ} (hColumn : j < columns) :
    destination rows columns (i * columns + j) = j * rows + i := by
  have hPositive : 0 < columns := Nat.zero_lt_of_lt hColumn
  rw [destination, Nat.mul_comm i, Nat.mul_add_mod, Nat.mod_eq_of_lt hColumn,
    Nat.mul_add_div hPositive, Nat.div_eq_of_lt hColumn, Nat.add_zero]

theorem entry_lt {i j : ℕ} (hRow : i < rows) (hColumn : j < columns) :
    i * columns + j < rows * columns := by
  rw [Nat.mul_comm i]
  exact Nat.mul_add_lt_mul_of_lt_of_lt hRow hColumn

/-- Every position is that of an entry. -/
theorem exists_entry {k : ℕ} (hPosition : k < rows * columns) :
    ∃ i < rows, ∃ j < columns, i * columns + j = k := by
  have hPositive : 0 < columns := Nat.pos_of_mul_pos_left (Nat.zero_lt_of_lt hPosition)
  refine ⟨k / columns, ?_, k % columns, Nat.mod_lt k hPositive, ?_⟩
  · rwa [Nat.div_lt_iff_lt_mul hPositive]
  · rw [Nat.mul_comm, Nat.div_add_mod]

/-- Buffers that hold matrices are equal when their entries are. -/
theorem ext_entry {β : Type} {left right : Array β} (hLeft : left.size = rows * columns)
    (hRight : right.size = rows * columns)
    (hEntries : ∀ i < rows, ∀ j < columns, left[i * columns + j]? = right[i * columns + j]?) :
    left = right := by
  apply Array.ext_getElem?
  intro k
  by_cases hInside : k < rows * columns
  · obtain ⟨i, hRow, j, hColumn, rfl⟩ := exists_entry hInside
    exact hEntries i hRow j hColumn
  · rw [Array.getElem?_eq_none (by omega), Array.getElem?_eq_none (by omega)]

theorem destination_lt {k : ℕ} (hPosition : k < rows * columns) :
    destination rows columns k < rows * columns := by
  obtain ⟨i, hRow, j, hColumn, rfl⟩ := exists_entry hPosition
  rw [destination_entry hColumn, Nat.mul_comm rows]
  exact entry_lt hColumn hRow

theorem destination_destination {k : ℕ} (hPosition : k < rows * columns) :
    destination columns rows (destination rows columns k) = k := by
  obtain ⟨i, hRow, j, hColumn, rfl⟩ := exists_entry hPosition
  rw [destination_entry hColumn, destination_entry hRow]

theorem destination_injective {k l : ℕ} (hLeft : k < rows * columns) (hRight : l < rows * columns)
    (hSame : destination rows columns k = destination rows columns l) : k = l := by
  rw [← destination_destination hLeft, hSame, destination_destination hRight]

end Destinations

/-! ## Between and on the cycles -/

section States

variable {β : Type} (rows columns : ℕ) (original : Array β)

/-- Positions of a matrix, none of them twice. -/
structure Positions (pending : List ℕ) : Prop where
  nodup : pending.Nodup
  inside : ∀ k ∈ pending, k < rows * columns

/-- The entries of some positions stand where they stood in the beginning, and those of all
positions that are not pending have arrived at their destinations. -/
structure Placed (waiting pending : List ℕ) (buffer : Array β) : Prop where
  size : buffer.size = rows * columns
  unmoved : ∀ k ∈ waiting, buffer[k]? = original[k]?
  arrived : ∀ k < rows * columns, k ∉ pending →
    buffer[destination rows columns k]? = original[k]?

/-- The state between two cycles: all that is pending waits, and no cycle is half done. -/
structure Settled (pending : List ℕ) (buffer : Array β) : Prop where
  positions : Positions rows columns pending
  placed : Placed rows columns original pending pending buffer
  closed : ∀ k ∈ pending, destination rows columns k ∈ pending

/-- The state on the cycle of `start` where the entry of `position` is carried.  What else is
pending waits, and the cycle can be left only through its start. -/
structure Walking (start position : ℕ) (entry : β) (pending : List ℕ) (buffer : Array β) :
    Prop where
  positions : Positions rows columns pending
  placed : Placed rows columns original (pending.erase position) pending buffer
  reached : position ∈ pending
  carried : original[position]? = some entry
  departed : start ∉ pending.erase position
  closed : ∀ k ∈ pending, destination rows columns k = start ∨
    destination rows columns k ∈ pending.erase position

end States

section Steps

variable {β : Type} {rows columns : ℕ} {original buffer : Array β} {pending : List ℕ}

theorem Positions.erase (hPositions : Positions rows columns pending) (position : ℕ) :
    Positions rows columns (pending.erase position) where
  nodup := hPositions.nodup.erase position
  inside k hMem := hPositions.inside k (List.mem_of_mem_erase hMem)

/-- The carried entry is put down at its destination. -/
theorem Placed.set {waiting rest : List ℕ} {position : ℕ} {entry : β}
    (hPlaced : Placed rows columns original waiting pending buffer)
    (hPosition : position < rows * columns) (hCarried : original[position]? = some entry)
    (hWaiting : ∀ k ∈ rest, k ∈ waiting ∧ k ≠ destination rows columns position)
    (hTarget : destination rows columns position < buffer.size) :
    Placed rows columns original rest (pending.erase position)
      (buffer.set (destination rows columns position) entry hTarget) where
  size := by rw [Array.size_set, hPlaced.size]
  unmoved k hMem := by
    obtain ⟨hWaits, hElsewhere⟩ := hWaiting k hMem
    rw [Array.getElem?_set_ne _ hElsewhere.symm, hPlaced.unmoved k hWaits]
  arrived k hInside hGone := by
    by_cases hSame : k = position
    · rw [hSame, Array.getElem?_set_self, hCarried]
    · have hOther : destination rows columns position ≠ destination rows columns k :=
        fun hEqual => hSame (destination_injective hInside hPosition hEqual.symm)
      have hGone : k ∉ pending := fun hMem => hGone ((List.mem_erase_of_ne hSame).mpr hMem)
      rw [Array.getElem?_set_ne _ hOther, hPlaced.arrived k hInside hGone]

/-- The next step of a cycle that is not closed yet carries the entry that was displaced. -/
theorem Walking.next {start position : ℕ} {entry : β}
    (hWalking : Walking rows columns original start position entry pending buffer)
    (hTarget : destination rows columns position < buffer.size)
    (hOpen : destination rows columns position ≠ start) :
    Walking rows columns original start (destination rows columns position)
      buffer[destination rows columns position] (pending.erase position)
      (buffer.set (destination rows columns position) entry hTarget) := by
  have hNodup := hWalking.positions.nodup
  have hInside := hWalking.positions.inside
  have hReached : destination rows columns position ∈ pending.erase position :=
    (hWalking.closed position hWalking.reached).resolve_left hOpen
  refine ⟨hWalking.positions.erase position, ?_, hReached, ?_, ?_, ?_⟩
  · apply hWalking.placed.set (hInside position hWalking.reached) hWalking.carried
    intro k hMem
    rw [(hNodup.erase position).mem_erase_iff] at hMem
    exact hMem.symm
  · rw [← hWalking.placed.unmoved _ hReached, Array.getElem?_eq_getElem hTarget]
  · exact fun hMem => hWalking.departed (List.mem_of_mem_erase hMem)
  · intro k hMem
    obtain ⟨hOther, hPending⟩ := hNodup.mem_erase_iff.mp hMem
    refine (hWalking.closed k hPending).imp_right fun hNext => ?_
    rw [(hNodup.erase position).mem_erase_iff]
    refine ⟨fun hSame => hOther ?_, hNext⟩
    exact destination_injective (hInside k hPending) (hInside position hWalking.reached) hSame

/-- The step that comes back to the start closes the cycle. -/
theorem Walking.finish {start position : ℕ} {entry : β}
    (hWalking : Walking rows columns original start position entry pending buffer)
    (hTarget : destination rows columns position < buffer.size)
    (hClosed : destination rows columns position = start) :
    Settled rows columns original (pending.erase position)
      (buffer.set (destination rows columns position) entry hTarget) := by
  have hInside := hWalking.positions.inside
  refine ⟨hWalking.positions.erase position, ?_, ?_⟩
  · apply hWalking.placed.set (hInside position hWalking.reached) hWalking.carried
    intro k hMem
    refine ⟨hMem, fun hSame => hWalking.departed ?_⟩
    rwa [hSame, hClosed] at hMem
  · intro k hMem
    obtain ⟨hOther, hPending⟩ := hWalking.positions.nodup.mem_erase_iff.mp hMem
    refine (hWalking.closed k hPending).resolve_left fun hStart => hOther ?_
    exact destination_injective (hInside k hPending) (hInside position hWalking.reached)
      (hStart.trans hClosed.symm)

/-- A cycle is started at a position that is pending. -/
theorem Settled.depart {start : ℕ} {entry : β}
    (hSettled : Settled rows columns original pending buffer) (hMem : start ∈ pending)
    (hEntry : buffer[start]? = some entry) :
    Walking rows columns original start start entry pending buffer := by
  have hNodup := hSettled.positions.nodup
  refine ⟨hSettled.positions, ?_, hMem, ?_, hNodup.not_mem_erase, ?_⟩
  · exact ⟨hSettled.placed.size,
      fun k hWaits => hSettled.placed.unmoved k (List.mem_of_mem_erase hWaits),
      hSettled.placed.arrived⟩
  · rw [← hSettled.placed.unmoved start hMem, hEntry]
  · intro k hPending
    rw [hNodup.mem_erase_iff]
    exact (eq_or_ne _ start).imp_right fun hOther => ⟨hOther, hSettled.closed k hPending⟩

end Steps

/-! ## Runs -/

section Runs

variable {β : Type} {rows columns : ℕ} {original : Array β}

theorem Walking.target_lt {start position : ℕ} {entry : β} {pending : List ℕ} {buffer : Array β}
    (hWalking : Walking rows columns original start position entry pending buffer) :
    destination rows columns position < buffer.size := by
  rw [hWalking.placed.size]
  exact destination_lt (hWalking.positions.inside position hWalking.reached)

/-- A cycle is walked to its end, from wherever on it. -/
theorem Walking.closeCycle_settles {start position : ℕ} {entry : β} {pending : List ℕ}
    {buffer : Array β}
    (hWalking : Walking rows columns original start position entry pending buffer) :
    ∃ rest result, closeCycle rows columns start position entry pending buffer =
      some (rest, result) ∧ Settled rows columns original rest.val result := by
  fun_induction closeCycle rows columns start position entry pending buffer with
  | case1 position entry pending buffer _ target hTarget moved hShorter hClosed =>
      exact ⟨_, _, rfl, hWalking.finish hTarget hClosed⟩
  | case2 position entry pending buffer _ target hTarget displaced moved _ hOpen rest hRest result
      hRun ih =>
      obtain ⟨_, _, hSame, hSettled⟩ := ih (hWalking.next hTarget hOpen)
      rw [hRun] at hSame
      cases hSame
      exact ⟨_, _, rfl, hSettled⟩
  | case3 position entry pending buffer _ target hTarget displaced moved _ hOpen hRun ih =>
      obtain ⟨_, _, hSame, _⟩ := ih (hWalking.next hTarget hOpen)
      rw [hRun] at hSame
      cases hSame
  | case4 position entry pending buffer _ target hOutside =>
      exact absurd hWalking.target_lt hOutside
  | case5 position entry pending buffer hAbsent => exact absurd hWalking.reached hAbsent

/-- One cycle after the other is closed until nothing is pending. -/
theorem Settled.closeCycles_settles {pending : List ℕ} {buffer : Array β}
    (hSettled : Settled rows columns original pending buffer) :
    ∃ result, closeCycles rows columns pending buffer = some result ∧
      Settled rows columns original [] result := by
  fun_induction closeCycles rows columns pending buffer with
  | case1 buffer => exact ⟨buffer, rfl, hSettled⟩
  | case2 buffer start others hNone =>
      have hInside := hSettled.positions.inside start List.mem_cons_self
      rw [← hSettled.placed.size] at hInside
      rw [Array.getElem?_eq_getElem hInside] at hNone
      cases hNone
  | case3 buffer start others entry hEntry hRun =>
      obtain ⟨_, _, hSame, _⟩ :=
        (hSettled.depart List.mem_cons_self hEntry).closeCycle_settles
      rw [hRun] at hSame
      cases hSame
  | case4 buffer start others entry hEntry rest _ moved hRun ih =>
      obtain ⟨_, _, hSame, hRest⟩ :=
        (hSettled.depart List.mem_cons_self hEntry).closeCycle_settles
      rw [hRun] at hSame
      cases hSame
      exact ih hRest

/-- Before the first cycle everything waits. -/
theorem settled_range {buffer : Array β} (hSize : buffer.size = rows * columns) :
    Settled rows columns buffer (List.range (rows * columns)) buffer where
  positions := ⟨List.nodup_range, fun _ hMem => List.mem_range.mp hMem⟩
  placed := ⟨hSize, fun _ _ => rfl,
    fun _ hInside hGone => absurd (List.mem_range.mpr hInside) hGone⟩
  closed _ hMem := List.mem_range.mpr (destination_lt (List.mem_range.mp hMem))

/-- A buffer that holds a matrix is transposed to the end: no position is met twice, and none is
outside of it. -/
theorem inPlace_settles {buffer : Array β} (hSize : buffer.size = rows * columns) :
    ∃ result, inPlace rows columns buffer = some result ∧
      Settled rows columns buffer [] result :=
  (settled_range hSize).closeCycles_settles

end Runs

/-! ## The transposed matrix -/

section Result

variable {β : Type} {rows columns : ℕ} {original result : Array β}

theorem Settled.getElem?_entry (hSettled : Settled rows columns original [] result) {i j : ℕ}
    (hRow : i < rows) (hColumn : j < columns) :
    result[j * rows + i]? = original[i * columns + j]? := by
  rw [← destination_entry hColumn]
  exact hSettled.placed.arrived _ (entry_lt hRow hColumn) List.not_mem_nil

/-- The destinations as a permutation of the positions. -/
noncomputable def destinationPerm (rows columns : ℕ) : Equiv.Perm (Fin (rows * columns)) :=
  let target (k : Fin (rows * columns)) : Fin (rows * columns) :=
    ⟨destination rows columns k, destination_lt k.isLt⟩
  have hInjective : Function.Injective target := fun k l hSame =>
    Fin.ext (destination_injective k.isLt l.isLt (Fin.val_eq_of_eq hSame))
  Equiv.ofBijective target (Finite.injective_iff_bijective.mp hInjective)

theorem map_some_toList {n : ℕ} {buffer : Array β} (hSize : buffer.size = n) :
    buffer.toList.map some = List.ofFn fun k : Fin n => buffer[k.val]? := by
  subst hSize
  apply List.ext_getElem
  · simp
  · simp

/-- No entry is lost, and none is there twice. -/
theorem Settled.perm (hSize : original.size = rows * columns)
    (hSettled : Settled rows columns original [] result) :
    result.toList.Perm original.toList := by
  have hMoved : (fun k : Fin (rows * columns) => original[k.val]?) =
      (fun k : Fin (rows * columns) => result[k.val]?) ∘ destinationPerm rows columns :=
    funext fun k => (hSettled.placed.arrived k k.isLt List.not_mem_nil).symm
  rw [← List.map_perm_map_iff (Option.some_injective β), map_some_toList hSettled.placed.size,
    map_some_toList hSize, hMoved]
  exact ((destinationPerm rows columns).ofFn_comp_perm _).symm

/-- Transposed again, with rows and columns exchanged, the buffer is what it was. -/
theorem Settled.back {back : Array β} (hSize : original.size = rows * columns)
    (hSettled : Settled rows columns original [] result)
    (hBack : Settled columns rows result [] back) : back = original := by
  refine ext_entry (hBack.placed.size.trans (Nat.mul_comm _ _)) hSize fun i hRow j hColumn => ?_
  rw [hBack.getElem?_entry hColumn hRow, hSettled.getElem?_entry hRow hColumn]

/-- A buffer that holds a matrix is transposed in its place.  The walk ends and stays inside of the
buffer, every entry moves from its row and column to the column and row of the same numbers, and
none is lost or doubled.  Transposed once more the buffer is what it was. -/
theorem inPlace_transposes (rows columns : ℕ) (buffer : Array β)
    (hSize : buffer.size = rows * columns) :
    ∃ result, inPlace rows columns buffer = some result ∧ result.size = rows * columns ∧
      (∀ i < rows, ∀ j < columns, result[j * rows + i]? = buffer[i * columns + j]?) ∧
      result.toList.Perm buffer.toList ∧ inPlace columns rows result = some buffer := by
  obtain ⟨result, hRun, hSettled⟩ := inPlace_settles hSize
  have hResult : result.size = columns * rows := hSettled.placed.size.trans (Nat.mul_comm _ _)
  obtain ⟨back, hBackRun, hBack⟩ := inPlace_settles hResult
  refine ⟨result, hRun, hSettled.placed.size, ?_, hSettled.perm hSize, ?_⟩
  · exact fun i hRow j hColumn => hSettled.getElem?_entry hRow hColumn
  · rw [hBackRun, hSettled.back hSize hBack]

/-- A matrix of two rows and three columns. -/
def twoRows : Array String :=
  #["a", "b", "c", "d", "e", "f"]

/-- Two of the cycles are a corner each, and the third goes through all other positions. -/
theorem inPlace_transposes_twoRows :
    twoRows.size = 2 * 3 ∧ inPlace 2 3 twoRows = some #["a", "d", "b", "e", "c", "f"] ∧
      inPlace 3 2 #["a", "d", "b", "e", "c", "f"] = some twoRows := by
  obtain ⟨result, hRun, hSize, hEntries, -, hBack⟩ := inPlace_transposes 2 3 twoRows rfl
  have hResult : result = #["a", "d", "b", "e", "c", "f"] := by
    apply @ext_entry 3 2 _ _ _ hSize rfl
    intro j hColumn i hRow
    rw [hEntries i hRow j hColumn]
    interval_cases i <;> interval_cases j <;> rfl
  rw [hResult] at hRun hBack
  exact ⟨rfl, hRun, hBack⟩

end Result

end Transposition
end Pushbroom
