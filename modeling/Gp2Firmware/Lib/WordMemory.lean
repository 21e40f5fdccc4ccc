import Mathlib.Tactic.Common
import Mathlib.Algebra.Group.Nat.Defs

/-!
# Words in a byte memory

A memory of 32-bit addresses holds one byte at each.  A word is kept in four
bytes one after the other, least significant byte first, at any address;
addresses wrap around.  Two places of eight bytes are `Apart` if neither
starts inside the other.
-/

namespace Gp2Firmware.Lib.WordMemory

abbrev Address := BitVec 32

abbrev Memory := Address → BitVec 8

/-- The word that starts at an address. -/
def load (memory : Memory) (address : Address) : BitVec 32 :=
  memory (address + 3) ++ memory (address + 2) ++ memory (address + 1) ++ memory address

/-- The memory with a word written at an address. -/
def store (memory : Memory) (address : Address) (word : BitVec 32) : Memory :=
  fun byte =>
    if (byte - address).toNat < 4 then
      word.extractLsb' (8 * (byte - address).toNat) 8
    else
      memory byte

/-- The memory with a number of bytes set to a value. -/
def fill (memory : Memory) (address : Address) (count : BitVec 32) (value : BitVec 8) :
    Memory :=
  fun byte => if byte - address < count then value else memory byte

/-- The memory with bytes written one behind the other. -/
def putBytes (memory : Memory) : Address → List (BitVec 8) → Memory
  | _, [] => memory
  | address, byte :: bytes =>
      putBytes (Function.update memory address byte) (address + 1) bytes

/-- Neither of two places of eight bytes starts inside the other. -/
def Apart (first second : Address) : Prop :=
  8 ≤ (first - second).toNat ∧ 8 ≤ (second - first).toNat

variable {memory other : Memory} {address first second : Address} {word : BitVec 32}

theorem Apart.symm (apart : Apart first second) : Apart second first :=
  ⟨apart.2, apart.1⟩

theorem apart_ofNat {low high : Nat} (before : low + 8 ≤ high)
    (inside : high + 8 ≤ 2 ^ 32) :
    Apart (BitVec.ofNat 32 low) (BitVec.ofNat 32 high) := by
  constructor <;> simp only [BitVec.toNat_sub, BitVec.toNat_ofNat] <;> omega

/-- Only the four bytes of a word matter. -/
theorem load_congr
    (same : ∀ byte, (byte - address).toNat < 4 → memory byte = other byte) :
    load memory address = load other address := by
  have zero := same address (by simp)
  have one := same (address + 1) (by bv_omega)
  have two := same (address + 2) (by bv_omega)
  have three := same (address + 3) (by bv_omega)
  simp only [load, zero, one, two, three]

@[simp]
theorem load_store : load (store memory address word) address = word := by
  have zero : (address - address).toNat = 0 := by bv_omega
  have one : (address + 1 - address).toNat = 1 := by bv_omega
  have two : (address + 2 - address).toNat = 2 := by bv_omega
  have three : (address + 3 - address).toNat = 3 := by bv_omega
  simp only [load, store, zero, one, two, three]
  apply BitVec.eq_of_getLsbD_eq
  intro bit bound
  simp only [BitVec.getLsbD_append]
  grind

theorem load_store_of_apart
    (above : 4 ≤ (first - second).toNat) (below : 4 ≤ (second - first).toNat) :
    load (store memory first word) second = load memory second := by
  apply load_congr
  intro byte near
  apply if_neg
  bv_omega

section Bytes

theorem putBytes_append {bytes more : List (BitVec 8)} :
    putBytes memory address (bytes ++ more) =
      putBytes (putBytes memory address bytes) (address + BitVec.ofNat 32 bytes.length) more := by
  induction bytes generalizing memory address with
  | nil => simp [putBytes]
  | cons byte bytes inductionHypothesis =>
      rw [List.cons_append, putBytes, inductionHypothesis, putBytes, List.length_cons,
        BitVec.add_assoc]
      congr 2
      rw [Nat.add_comm, BitVec.ofNat_add]
      rfl

end Bytes

end Gp2Firmware.Lib.WordMemory
