import Mathlib.Tactic.Common
import Mathlib.Tactic.IntervalCases

/-!
# Packets in the cache of the TSP

The firmware sees a transport packet through a window of sixteen bytes that it
moves with `_DMA_RECACHE`; the hardware compares the window with the pattern of
the filter.  What the window shows behind the end of the packet is open.
-/

namespace Gp2Firmware.Tsp

/-- `U32` -/
abbrev U32 := BitVec 32

/-- The bytes of a packet from its sync byte on. -/
abbrev Packet := Nat → BitVec 8

/-- `TS_PACKET_SIZE` -/
def tsPacketSize : Nat := 188

/-- `Pkt_CacheW0` to `Pkt_CacheW3` after `_DMA_RECACHE(index)`. -/
def cacheWord (packet : Packet) (index word : Nat) : U32 :=
  packet (index + 4 * word + 3) ++ packet (index + 4 * word + 2) ++
    packet (index + 4 * word + 1) ++ packet (index + 4 * word)

/-- `TSP_PKT_STAT_CMP_MATCH` after `_DMA_RECACHE(index)`.  A set mask bit is not
compared. -/
def cmpMatch (packet : Packet) (index : Nat) (pattern mask : Nat → U32) : Bool :=
  (List.range 4).all fun word =>
    (cacheWord packet index word ^^^ pattern word) &&& ~~~(mask word) == 0

/-- A bit of an array of words. -/
def bitOf (words : Nat → U32) (bit : Nat) : Bool :=
  (words (bit / 32)).getLsbD (bit % 32)

/-- A bit of the window. -/
def windowBit (packet : Packet) (index bit : Nat) : Bool :=
  (packet (index + bit / 8)).getLsbD (bit % 8)

theorem getLsbD_cacheWord (packet : Packet) (index word : Nat) {bit : Nat}
    (inside : bit < 32) :
    (cacheWord packet index word).getLsbD bit =
      windowBit packet index (32 * word + bit) := by
  rw [cacheWord, windowBit]
  simp only [BitVec.getLsbD_append]
  have place : (32 * word + bit) % 8 = bit % 8 := by omega
  rw [place]
  by_cases first : bit < 8
  · rw [if_pos first, show index + (32 * word + bit) / 8 = index + 4 * word by omega,
      Nat.mod_eq_of_lt first]
  · by_cases second : bit < 16
    · rw [if_neg first, if_pos (by omega),
        show index + (32 * word + bit) / 8 = index + 4 * word + 1 by omega,
        show bit % 8 = bit - 8 by omega]
    · by_cases third : bit < 24
      · rw [if_neg first, if_neg (by omega), if_pos (by omega),
          show index + (32 * word + bit) / 8 = index + 4 * word + 2 by omega,
          show bit % 8 = bit - 8 - 8 by omega]
      · rw [if_neg first, if_neg (by omega), if_neg (by omega),
          show index + (32 * word + bit) / 8 = index + 4 * word + 3 by omega,
          show bit % 8 = bit - 8 - 8 - 8 by omega]

theorem getLsbD_lowMask {width bit : Nat} (inside : bit < 32) :
    (BitVec.ofNat 32 (2 ^ width - 1)).getLsbD bit = decide (bit < width) := by
  rw [BitVec.getLsbD_ofNat, Nat.testBit_two_pow_sub_one, decide_eq_true inside, Bool.true_and]

/-- Some bits of a byte of a cached word. -/
theorem cacheWord_field (packet : Packet) (index word : Nat) {k shift width : Nat}
    (low : k < 4) (fits : shift + width ≤ 8) :
    (cacheWord packet index word >>> (8 * k + shift)) &&& BitVec.ofNat 32 (2 ^ width - 1) =
      ((packet (index + 4 * word + k) >>> shift).setWidth width).setWidth 32 := by
  apply BitVec.eq_of_getLsbD_eq
  intro bit inside
  rw [BitVec.getLsbD_and, BitVec.getLsbD_ushiftRight, getLsbD_lowMask inside,
    BitVec.getLsbD_setWidth, BitVec.getLsbD_setWidth, BitVec.getLsbD_ushiftRight,
    decide_eq_true inside, Bool.true_and]
  by_cases small : bit < width
  · rw [getLsbD_cacheWord _ _ _ (by omega), windowBit, decide_eq_true small, Bool.and_true,
      Bool.true_and,
      show index + (32 * word + (8 * k + shift + bit)) / 8 = index + 4 * word + k by omega,
      show (32 * word + (8 * k + shift + bit)) % 8 = shift + bit by omega]
  · rw [decide_eq_false small, Bool.and_false, Bool.false_and]

theorem cacheWord_byte (packet : Packet) (index word : Nat) {k : Nat} (low : k < 4) :
    (cacheWord packet index word >>> (8 * k)) &&& 0xFF =
      (packet (index + 4 * word + k)).setWidth 32 := by
  have field := @cacheWord_field packet index word k 0 8 low (by decide)
  rw [BitVec.ushiftRight_zero, BitVec.setWidth_eq] at field
  exact field

/-- The second byte of a word, in its place. -/
theorem and_secondByte (word : U32) :
    word &&& (0xFF00 : U32) = ((word >>> 8) &&& (0xFF : U32)) <<< 8 := by
  apply BitVec.eq_of_getLsbD_eq
  intro bit inside
  simp only [BitVec.getLsbD_shiftLeft, BitVec.getLsbD_and, BitVec.getLsbD_ushiftRight]
  interval_cases bit <;> simp

theorem shiftLeft_byte (word : U32) :
    ((word <<< 8) >>> 8) &&& (0xFF : U32) = word &&& (0xFF : U32) := by
  apply BitVec.eq_of_getLsbD_eq
  intro bit inside
  simp only [BitVec.getLsbD_shiftLeft, BitVec.getLsbD_and, BitVec.getLsbD_ushiftRight]
  interval_cases bit <;> simp

theorem word_agrees_iff (word pattern mask : U32) :
    (word ^^^ pattern) &&& ~~~mask = 0 ↔
      ∀ bit, bit < 32 → mask.getLsbD bit = true ∨
        word.getLsbD bit = pattern.getLsbD bit := by
  constructor
  · intro agrees bit inside
    have same := congrArg (fun w => BitVec.getLsbD w bit) agrees
    simp only [BitVec.getLsbD_and, BitVec.getLsbD_xor, BitVec.getLsbD_not, inside,
      decide_true, Bool.true_and, BitVec.ofNat_eq_ofNat, BitVec.getLsbD_zero] at same
    revert same
    cases word.getLsbD bit <;> cases pattern.getLsbD bit <;>
      cases mask.getLsbD bit <;> decide
  · intro agrees
    apply BitVec.eq_of_getLsbD_eq
    intro bit inside
    have same := agrees bit inside
    simp only [BitVec.getLsbD_and, BitVec.getLsbD_xor, BitVec.getLsbD_not, inside,
      decide_true, Bool.true_and, BitVec.ofNat_eq_ofNat, BitVec.getLsbD_zero]
    revert same
    cases word.getLsbD bit <;> cases pattern.getLsbD bit <;>
      cases mask.getLsbD bit <;> decide

/-- The comparison bit by bit. -/
theorem cmpMatch_iff (packet : Packet) (index : Nat) (pattern mask : Nat → U32) :
    cmpMatch packet index pattern mask = true ↔
      ∀ bit, bit < 128 → bitOf mask bit = true ∨
        windowBit packet index bit = bitOf pattern bit := by
  simp only [cmpMatch, List.all_eq_true, List.mem_range, beq_iff_eq,
    word_agrees_iff]
  constructor
  · intro agrees bit inside
    have same := agrees (bit / 32) (by omega) (bit % 32) (by omega)
    rw [getLsbD_cacheWord _ _ _ (by omega), Nat.div_add_mod] at same
    exact same
  · intro agrees word inside bit small
    have same := agrees (32 * word + bit) (by omega)
    rw [bitOf, bitOf, show (32 * word + bit) / 32 = word by omega,
      show (32 * word + bit) % 32 = bit by omega] at same
    rw [getLsbD_cacheWord _ _ _ small]
    exact same

end Gp2Firmware.Tsp
