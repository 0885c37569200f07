import Pushbroom.Error

namespace Pushbroom

/-!
# Reservation of storage

A table is only built when there is room for it in memory: otherwise it is refused before a single
entry is computed.  How much room there is is left open.
-/

/-- The memory that tables are reserved in. -/
class Memory where
  /-- Whether there is room for a table of so many bytes. -/
  holds : Nat → Bool
  /-- There is always room for a table without bytes. -/
  holds_zero : holds 0 = true
  /-- The bytes of a table are told by a signed size. -/
  lt_of_holds : ∀ {bytes : Nat}, holds bytes = true → bytes < 0x8000000000000000

/-- A memory with room for every table of at most a tebibyte. -/
instance (priority := low) Memory.tebibyte : Memory where
  holds bytes := decide (bytes ≤ 0x10000000000)
  holds_zero := by decide
  lt_of_holds room := by
    have within := of_decide_eq_true room
    omega

/-- Reserves a table of `count` entries of `entryBytes` bytes each. -/
def reserve {α : Type} [Memory] (count entryBytes : Nat) : Except (Error α) Unit :=
  if Memory.holds (count * entryBytes) then .ok () else .error .allocation

/-- A table of `count` equal entries of `entryBytes` bytes each. -/
def filledTable {α β : Type} [Memory] (count entryBytes : Nat) (entry : β) :
    Except (Error α) (Array β) := do
  reserve count entryBytes
  return Array.replicate count entry

end Pushbroom
