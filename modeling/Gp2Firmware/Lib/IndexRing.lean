import Mathlib.Data.List.Range
import Mathlib.Data.List.Nodup
import Mathlib.Data.Nat.ModEq

/-!
# Rings addressed by a read and a write index

A ring of cells with an index to read from and one to write to, both below the
number of cells.  The cells in use are those from the read index up to the
write index; equal indexes mean that none is.
-/

namespace Gp2Firmware.Lib.IndexRing

variable {size read write count : Nat}

/-- A number of cells from an index on, as long as the ring at most. -/
def walk (size read count : Nat) : List Nat :=
  (List.range count).map fun turn => (read + turn) % size

theorem walk_succ :
    walk size read (count + 1) = walk size read count ++ [(read + count) % size] := by
  rw [walk, List.range_succ, List.map_append, List.map_singleton]
  rfl

theorem walk_succ_eq_cons (readLt : read < size) :
    walk size read (count + 1) = read :: walk size ((read + 1) % size) count := by
  rw [walk, List.range_succ_eq_map, List.map_cons, Nat.add_zero, Nat.mod_eq_of_lt readLt,
    List.map_map, walk]
  congr 1
  apply List.map_congr_left
  intro turn _
  rw [Function.comp_apply, Nat.mod_add_mod]
  congr 1
  omega

theorem mem_walk {cell : Nat} :
    cell ∈ walk size read count ↔ ∃ turn < count, (read + turn) % size = cell := by
  simp only [walk, List.mem_map, List.mem_range]

/-- The cell behind the walk is not on it. -/
theorem behind_not_mem_walk (room : count < size) :
    (read + count) % size ∉ walk size read count := by
  intro member
  obtain ⟨turn, inside, same⟩ := mem_walk.mp member
  have apart := Nat.ModEq.add_left_cancel' read same
  rw [Nat.ModEq, Nat.mod_eq_of_lt (by omega), Nat.mod_eq_of_lt room] at apart
  omega

/-- The cell before the walk is not on it. -/
theorem before_not_mem_walk (readLt : read < size) (room : count < size) :
    read ∉ walk size ((read + 1) % size) count := by
  intro member
  obtain ⟨turn, inside, same⟩ := mem_walk.mp member
  rw [Nat.mod_add_mod, Nat.add_assoc] at same
  have whole : (read + (1 + turn)) % size = (read + 0) % size := by
    rw [same, Nat.add_zero, Nat.mod_eq_of_lt readLt]
  have apart := Nat.ModEq.add_left_cancel' read whole
  rw [Nat.ModEq, Nat.zero_mod] at apart
  have dvd := Nat.dvd_of_mod_eq_zero apart
  have long := Nat.le_of_dvd (by omega) dvd
  omega

/-- The number of cells in use. -/
def used (size read write : Nat) : Nat := (write + size - read) % size

/-- The cells in use, in the order in which they are read. -/
def cells (size read write : Nat) : List Nat :=
  (List.range (used size read write)).map fun turn => (read + turn) % size

theorem cells_eq_walk : cells size read write = walk size read (used size read write) := rfl

theorem length_cells : (cells size read write).length = used size read write := by
  rw [cells, List.length_map, List.length_range]

theorem used_lt (positive : 0 < size) : used size read write < size :=
  Nat.mod_lt _ positive

theorem used_eq (readLt : read < size) (writeLt : write < size) :
    used size read write =
      if read ≤ write then write - read else write + size - read := by
  rw [used]
  split
  · rw [show write + size - read = write - read + size by omega,
      Nat.add_mod_right, Nat.mod_eq_of_lt (by omega)]
  · exact Nat.mod_eq_of_lt (by omega)

theorem used_eq_zero (readLt : read < size) (writeLt : write < size) :
    used size read write = 0 ↔ read = write := by
  rw [used_eq readLt writeLt]
  split <;> omega

theorem next_eq (writeLt : write < size) :
    (write + 1) % size = if write + 1 = size then 0 else write + 1 := by
  split
  · rename_i last
    rw [last, Nat.mod_self]
  · exact Nat.mod_eq_of_lt (by omega)

/-- Writing one cell uses one more, unless that was the last one. -/
theorem used_push (readLt : read < size) (writeLt : write < size)
    (room : used size read write + 1 < size) :
    used size read ((write + 1) % size) = used size read write + 1 := by
  have nextLt : (write + 1) % size < size := Nat.mod_lt _ (by omega)
  rw [used_eq readLt writeLt] at room
  rw [used_eq readLt nextLt, used_eq readLt writeLt, next_eq writeLt]
  split at room <;> split <;> split <;> omega

/-- The last cell makes a full ring look empty. -/
theorem used_push_full (readLt : read < size) (writeLt : write < size)
    (full : used size read write + 1 = size) : (write + 1) % size = read := by
  rw [used_eq readLt writeLt] at full
  rw [next_eq writeLt]
  split at full <;> split <;> omega

theorem used_pop (readLt : read < size) (writeLt : write < size)
    (some : read ≠ write) :
    used size read write = used size ((read + 1) % size) write + 1 := by
  have nextLt : (read + 1) % size < size := Nat.mod_lt _ (by omega)
  rw [used_eq readLt writeLt, used_eq nextLt writeLt, next_eq readLt]
  split <;> split <;> split <;> omega

/-- The cell behind those in use is the one that is written next. -/
theorem read_add_used (readLt : read < size) (writeLt : write < size) :
    (read + used size read write) % size = write := by
  rw [used_eq readLt writeLt]
  split
  · rw [show read + (write - read) = write by omega, Nat.mod_eq_of_lt writeLt]
  · rw [show read + (write + size - read) = write + size by omega,
      Nat.add_mod_right, Nat.mod_eq_of_lt writeLt]

theorem cells_push (readLt : read < size) (writeLt : write < size)
    (room : used size read write + 1 < size) :
    cells size read ((write + 1) % size) = cells size read write ++ [write] := by
  rw [cells_eq_walk, used_push readLt writeLt room, walk_succ, read_add_used readLt writeLt]
  rfl

theorem cells_pop (readLt : read < size) (writeLt : write < size)
    (some : read ≠ write) :
    cells size read write = read :: cells size ((read + 1) % size) write := by
  rw [cells_eq_walk, used_pop readLt writeLt some, walk_succ_eq_cons readLt]
  rfl

theorem cells_of_eq (readLt : read < size) : cells size read read = [] := by
  rw [cells, (used_eq_zero readLt readLt).mpr rfl]
  rfl

/-- The cell that is written next is not in use. -/
theorem write_not_mem_cells (readLt : read < size) (writeLt : write < size) :
    write ∉ cells size read write := by
  have behind := @behind_not_mem_walk size read (used size read write) (used_lt (by omega))
  rw [read_add_used readLt writeLt] at behind
  exact behind

/-- The cell that is read next is in use once. -/
theorem read_not_mem_cells_pop (readLt : read < size) (writeLt : write < size)
    (some : read ≠ write) : read ∉ cells size ((read + 1) % size) write := by
  have room := used_pop readLt writeLt some
  have small := @used_lt size read write (by omega)
  exact before_not_mem_walk readLt (by omega)

end Gp2Firmware.Lib.IndexRing
