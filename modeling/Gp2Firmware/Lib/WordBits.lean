import Mathlib.Data.BitVec

/-!
# Single bits of a machine word

What setting, clearing and testing one bit through the mask `1 <<< bit` does to
the bits of a word, and what masks of several bits select.
-/

namespace Gp2Firmware.Lib

variable {w : Nat}

theorem and_bit_ne_zero (word : BitVec w) (bit : Fin w) :
    word &&& (1#w <<< bit.val) ≠ 0 ↔ word.getLsbD bit = true := by
  rw [← BitVec.twoPow_eq, BitVec.and_twoPow]
  cases word.getLsbD bit with
  | false => simp
  | true =>
      simp only [if_true, iff_true]
      intro zero
      have lit := congrArg (fun word => BitVec.getLsbD word bit) zero
      simp at lit

theorem getLsbD_or_bit (word : BitVec w) (bit other : Fin w) :
    (word ||| (1#w <<< bit.val)).getLsbD other =
      (word.getLsbD other || decide (other = bit)) := by
  rw [← BitVec.twoPow_eq, BitVec.getLsbD_or, BitVec.getLsbD_twoPow]
  have small := other.isLt
  by_cases same : other = bit
  · simp [same]
  · have apart : ¬ (bit.val = other.val) := fun equal => same (Fin.ext equal.symm)
    simp [same, apart]

theorem getLsbD_and_not_bit (word : BitVec w) (bit other : Fin w) :
    (word &&& ~~~(1#w <<< bit.val)).getLsbD other =
      (word.getLsbD other && decide (other ≠ bit)) := by
  rw [← BitVec.twoPow_eq, BitVec.getLsbD_and, BitVec.getLsbD_not,
    BitVec.getLsbD_twoPow]
  have small := other.isLt
  by_cases same : other = bit
  · simp [same]
  · have apart : ¬ (bit.val = other.val) := fun equal => same (Fin.ext equal.symm)
    simp [same, apart]

/-- Storing into one field leaves what another mask selects. -/
theorem store_and_apart {mask other : BitVec w} (apart : mask &&& other = 0)
    (word value : BitVec w) :
    ((word &&& ~~~mask) ||| (value &&& mask)) &&& other = word &&& other := by
  ext i inside
  have clear := congrArg (fun bits => bits[i]) apart
  simp only [BitVec.getElem_and] at clear
  simp only [BitVec.getElem_and, BitVec.getElem_or, BitVec.getElem_not]
  cases selected : mask[i] with
  | false => simp
  | true =>
      have out : other[i] = false := by simpa [selected] using clear
      simp [out]

theorem store_and_mask (word value mask : BitVec w) :
    ((word &&& ~~~mask) ||| (value &&& mask)) &&& mask = value &&& mask := by
  ext i inside
  simp only [BitVec.getElem_and, BitVec.getElem_or, BitVec.getElem_not]
  cases mask[i] <;> simp

/-- A mask of the high bits rounds down. -/
theorem toNat_and_high_mask (word : BitVec w) (low : Nat) :
    (word &&& (BitVec.allOnes w <<< low)).toNat = word.toNat / 2 ^ low * 2 ^ low := by
  have cleared : word &&& (BitVec.allOnes w <<< low) = (word >>> low) <<< low := by
    apply BitVec.eq_of_getLsbD_eq
    intro i inside
    rw [BitVec.getLsbD_and, BitVec.getLsbD_shiftLeft, BitVec.getLsbD_shiftLeft,
      BitVec.getLsbD_ushiftRight, BitVec.getLsbD_allOnes]
    by_cases below : i < low
    · simp [below]
    · have place : low + (i - low) = i := by omega
      have top : i - low < w := by omega
      simp [below, inside, place, top]
  rw [cleared, BitVec.toNat_shiftLeft, BitVec.toNat_ushiftRight, Nat.shiftRight_eq_div_pow,
    Nat.shiftLeft_eq]
  exact Nat.mod_eq_of_lt (lt_of_le_of_lt (Nat.div_mul_le_self _ _) word.isLt)

end Gp2Firmware.Lib
