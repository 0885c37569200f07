namespace Pushbroom
namespace Transposition

/-!
# Transposing a matrix in its own buffer

A matrix of `rows × columns` entries stored row by row is transposed without a second
buffer, by following the cycles of the permutation that sends each position to its place
in the transposed matrix.  The positions whose entries have not moved yet are kept in
`pending`; each step of a cycle takes one away, which is why the walk ends.

The walk answers `none` when it would leave the buffer, or meet a position a second time
before its cycle has closed.
-/

/-- The position in the transposed matrix of the entry at position `k`. -/
def destination (rows columns k : Nat) : Nat :=
  k % columns * rows + k / columns

/-- Puts `entry`, taken from `position`, at its destination and goes on with the entry
that stood there, until the cycle arrives at `start` again.  Returns the positions that
are still pending and the buffer. -/
def closeCycle {β : Type} (rows columns start position : Nat) (entry : β)
    (pending : List Nat) (buffer : Array β) :
    Option ({ rest : List Nat // rest.length < pending.length } × Array β) :=
  if hPending : position ∈ pending then
    let target := destination rows columns position
    if hTarget : target < buffer.size then
      let displaced := buffer[target]
      let moved := buffer.set target entry
      have hShorter : (pending.erase position).length < pending.length := by
        have hPositive := List.length_pos_of_mem hPending
        rw [List.length_erase_of_mem hPending]
        omega
      if target = start then
        some (⟨pending.erase position, hShorter⟩, moved)
      else
        match closeCycle rows columns start target displaced
            (pending.erase position) moved with
        | some (⟨rest, hRest⟩, result) =>
          some (⟨rest, Nat.lt_trans hRest hShorter⟩, result)
        | none => none
    else none
  else none
termination_by pending.length

/-- Closes the cycles of all pending positions, the first one first. -/
def closeCycles {β : Type} (rows columns : Nat) (pending : List Nat) (buffer : Array β) :
    Option (Array β) :=
  match pending with
  | [] => some buffer
  | start :: others =>
    match buffer[start]? with
    | none => none
    | some entry =>
      match closeCycle rows columns start start entry (start :: others) buffer with
      | none => none
      | some (⟨rest, _⟩, moved) => closeCycles rows columns rest moved
termination_by pending.length
decreasing_by assumption

/-- Transposes the `rows × columns` matrix at the head of a buffer. -/
def inPlace {β : Type} (rows columns : Nat) (buffer : Array β) : Option (Array β) :=
  closeCycles rows columns (List.range (rows * columns)) buffer

end Transposition
end Pushbroom
