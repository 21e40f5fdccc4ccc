import Mathlib.Data.Nat.Basic
import Mathlib.Tactic.Common

/-!
# Words in a byte buffer

A buffer of bytes is a function from the byte number; a byte is its eight
bits, least significant first.  Words of 32 bits are stored least significant
byte first, and a buffer that holds a list of words is zero behind them.
-/

namespace Gp2Firmware.Lib

/-- The bytes of a list of words. -/
def bytesOfWords (words : List (BitVec 32)) (position : Nat) : Fin 8 → Bool :=
  fun bit => (words.getD (position / 4) 0).getLsbD (8 * (position % 4) + bit)

/-- The word at a word position of a buffer. -/
def wordOfBytes (bytes : Nat → Fin 8 → Bool) (position : Nat) : BitVec 32 :=
  (BitVec.ofBoolListLE ((List.range 32).map fun bit =>
    bytes (4 * position + bit / 8)
      ⟨bit % 8, Nat.mod_lt _ (by decide)⟩)).setWidth 32

private theorem getLsbD_wordOfBytes
    (bytes : Nat → Fin 8 → Bool) (position : Nat) {bit : Nat}
    (bound : bit < 32) :
    (wordOfBytes bytes position).getLsbD bit =
      bytes (4 * position + bit / 8) ⟨bit % 8, Nat.mod_lt _ (by decide)⟩ := by
  rw [wordOfBytes, BitVec.getLsbD_setWidth, BitVec.getLsbD_ofBoolListLE,
    List.getD_eq_getElem?_getD, List.getElem?_map, List.getElem?_range bound]
  simp [bound]

theorem wordOfBytes_bytesOfWords (words : List (BitVec 32)) (position : Nat) :
    wordOfBytes (bytesOfWords words) position = words.getD position 0 := by
  apply BitVec.eq_of_getLsbD_eq
  intro bit bound
  have word : (4 * position + bit / 8) / 4 = position := by omega
  have place : 8 * ((4 * position + bit / 8) % 4) + bit % 8 = bit := by omega
  rw [getLsbD_wordOfBytes _ _ bound, bytesOfWords]
  simp only [word, place]

/-- Only the four bytes of the word matter. -/
theorem wordOfBytes_congr
    {first second : Nat → Fin 8 → Bool} {position : Nat}
    (same : ∀ byte, 4 * position ≤ byte → byte < 4 * position + 4 →
      first byte = second byte) :
    wordOfBytes first position = wordOfBytes second position := by
  apply BitVec.eq_of_getLsbD_eq
  intro bit bound
  rw [getLsbD_wordOfBytes _ _ bound, getLsbD_wordOfBytes _ _ bound]
  exact congrFun (same _ (by omega) (by omega)) _

end Gp2Firmware.Lib
