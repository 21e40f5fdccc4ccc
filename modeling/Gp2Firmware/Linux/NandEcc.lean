import Gp2Firmware.Linux.NandBase
import Gp2Firmware.UBoot.EccCorrection
import Mathlib.Algebra.BigOperators.Intervals

/-!
# The ECC of 256 bytes in the kernel

`nand_calculate_ecc` and `nand_correct_data` of the kernel's `nand_ecc.c`, without
`CONFIG_MTD_NAND_ECC_SMC`.  The table and the loop over the bytes are those of the boot
loader; shifts stand for its loops over the bits.  Both make the same code, and correct alike.
-/

namespace Gp2Firmware.Linux.NandEcc

open scoped Gp2Firmware.UBoot.NandEcc
open Gp2Firmware.UBoot.NandEcc (U8 columnParity pairs pairs_ext countFrom Stored Corrected)

/-- `tmp1` -/
def firstByte (reg2 reg3 : U8) : U8 :=
  (reg3 &&& 0x80) >>> 0 ||| (reg2 &&& 0x80) >>> 1 ||| (reg3 &&& 0x40) >>> 1 |||
    (reg2 &&& 0x40) >>> 2 ||| (reg3 &&& 0x20) >>> 2 ||| (reg2 &&& 0x20) >>> 3 |||
    (reg3 &&& 0x10) >>> 3 ||| (reg2 &&& 0x10) >>> 4

/-- `tmp2` -/
def secondByte (reg2 reg3 : U8) : U8 :=
  (reg3 &&& 0x08) <<< 4 ||| (reg2 &&& 0x08) <<< 3 ||| (reg3 &&& 0x04) <<< 3 |||
    (reg2 &&& 0x04) <<< 2 ||| (reg3 &&& 0x02) <<< 2 ||| (reg2 &&& 0x02) <<< 1 |||
    (reg3 &&& 0x01) <<< 1 ||| (reg2 &&& 0x01) <<< 0

def nandCalculateEcc (dat : Nat → U8) : Fin 3 → U8 :=
  let regs := columnParity dat 256
  ![~~~(firstByte regs.reg2 regs.reg3), ~~~(secondByte regs.reg2 regs.reg3),
    (~~~regs.reg1) <<< 2 ||| (0x03 : U8)]

/-- A bit of a byte in the place of another one. -/
def movedBit (mask : BitVec 32) (shifted : BitVec 32) : BitVec 32 :=
  shifted &&& mask

/-- `byteoffs` -/
def byteOffs (s0 s1 : U8) : BitVec 32 :=
  let s0 := s0.setWidth 32
  let s1 := s1.setWidth 32
  movedBit 0x80 (s1 <<< 0) ||| movedBit 0x40 (s1 <<< 1) ||| movedBit 0x20 (s1 <<< 2) |||
    movedBit 0x10 (s1 <<< 3) ||| movedBit 0x08 (s0 >>> 4) ||| movedBit 0x04 (s0 >>> 3) |||
    movedBit 0x02 (s0 >>> 2) ||| movedBit 0x01 (s0 >>> 1)

/-- `bitnum` -/
def bitNum (s2 : U8) : BitVec 32 :=
  let s2 := s2.setWidth 32
  movedBit 0x04 (s2 >>> 5) ||| movedBit 0x02 (s2 >>> 4) ||| movedBit 0x01 (s2 >>> 3)

def countbits (byte : BitVec 32) : Nat :=
  countFrom 32 32 byte

/-- The result and the data. -/
def nandCorrectData (dat : Nat → U8) (readEcc calcEcc : Fin 3 → U8) : Int × (Nat → U8) :=
  let s1 := calcEcc 0 ^^^ readEcc 0
  let s0 := calcEcc 1 ^^^ readEcc 1
  let s2 := calcEcc 2 ^^^ readEcc 2
  if s0 ||| s1 ||| s2 = 0 then (0, dat)
  else if (s0 ^^^ s0 >>> 1) &&& 0x55 = 0x55 ∧ (s1 ^^^ s1 >>> 1) &&& 0x55 = 0x55 ∧
      (s2 ^^^ s2 >>> 1) &&& 0x54 = 0x54 then
    let byteoffs := (byteOffs s0 s1).toNat
    (1, Function.update dat byteoffs (dat byteoffs ^^^ (1 : U8) <<< (bitNum s2).toNat))
  else if countbits (s0.setWidth 32 ||| s1.setWidth 32 <<< 8 ||| s2.setWidth 32 <<< 16) = 1 then
    (1, dat)
  else (-ebadmsg, dat)

section Agreement

open Gp2Firmware.UBoot.NandEcc (nandTransResult pairs pairs_ext pairs_nandTransResult address
  bitNumber gatherTurn)

theorem or_zero (d : U8) : d ||| 0 = d :=
  BitVec.or_zero

theorem zero_or (d : U8) : 0 ||| d = d :=
  BitVec.zero_or

theorem bytes_eq (reg2 reg3 : U8) :
    (firstByte reg2 reg3, secondByte reg2 reg3) = nandTransResult reg2 reg3 := by
  refine Prod.ext (pairs_ext fun k => ?_) (pairs_ext fun k => ?_)
  · rw [(pairs_nandTransResult reg2 reg3 k).1]
    fin_cases k <;> simp [pairs, firstByte]
  · rw [(pairs_nandTransResult reg2 reg3 k).2]
    fin_cases k <;> simp [pairs, secondByte]

theorem nandCalculateEcc_eq (dat : Nat → U8) :
    nandCalculateEcc dat = UBoot.NandEcc.nandCalculateEcc dat := by
  have same := bytes_eq (columnParity dat 256).reg2 (columnParity dat 256).reg3
  rw [nandCalculateEcc, UBoot.NandEcc.nandCalculateEcc, ← same]

theorem gatherTurn_eq (d c bit sum : U8) :
    gatherTurn d ⟨c, bit, sum⟩ =
      ⟨c >>> 2, bit >>> 1, sum ||| (if d &&& c ≠ 0 then bit else 0)⟩ := by
  rw [gatherTurn]
  split
  · rfl
  · rw [or_zero]

theorem iterate_gatherTurn (d c bit sum : U8) (turns : Nat) :
    ((gatherTurn d)^[turns] ⟨c, bit, sum⟩).bit = ((gatherTurn 0)^[turns] ⟨c, bit, 0⟩).bit ∧
      ((gatherTurn d)^[turns] ⟨c, bit, sum⟩).sum =
        sum ||| ((gatherTurn d)^[turns] ⟨c, bit, 0⟩).sum := by
  induction turns generalizing c bit sum with
  | zero => exact ⟨rfl, (or_zero sum).symm⟩
  | succ turns inductionHypothesis =>
      have none : ¬ ((0 : U8) &&& c ≠ 0) := not_not.mpr BitVec.zero_and
      rw [Function.iterate_succ_apply, Function.iterate_succ_apply, Function.iterate_succ_apply,
        gatherTurn_eq, gatherTurn_eq, gatherTurn_eq, if_neg none, zero_or, zero_or]
      generalize (if d &&& c ≠ 0 then bit else 0) = given
      obtain ⟨sameBit, here⟩ := inductionHypothesis (c >>> 2) (bit >>> 1) (sum ||| given)
      obtain ⟨-, there⟩ := inductionHypothesis (c >>> 2) (bit >>> 1) given
      exact ⟨sameBit, by rw [here, there, BitVec.or_assoc]⟩

theorem address_apart (d1 d2 : U8) : address d1 d2 = address d1 0 ||| address 0 d2 := by
  obtain ⟨bit, -⟩ := iterate_gatherTurn d1 0x80 0x80 0 4
  have none : ((gatherTurn 0)^[4] ⟨0x80, 0x08, 0⟩).sum = 0 := by decide
  have start : ((gatherTurn 0)^[4] ⟨0x80, 0x80, 0⟩).bit = 0x08 := by decide
  have startSum : ((gatherTurn 0)^[4] ⟨0x80, 0x80, 0⟩).sum = 0 := by decide
  rw [start] at bit
  simp only [address, bit, start, startSum]
  rw [(iterate_gatherTurn d2 0x80 0x08 _ 4).2, (iterate_gatherTurn 0 0x80 0x08 _ 4).2, none,
    or_zero]

theorem movedBit_zero (mask : BitVec 32) (n : Nat) :
    movedBit mask ((0 : U8).setWidth 32 <<< n) = 0 ∧
      movedBit mask ((0 : U8).setWidth 32 >>> n) = 0 := by
  have zero : (0 : U8).setWidth 32 = 0 := rfl
  rw [zero, movedBit, movedBit, show (0 : BitVec 32) <<< n = 0 from BitVec.zero_shiftLeft n,
    show (0 : BitVec 32) >>> n = 0 from BitVec.zero_ushiftRight]
  exact ⟨BitVec.zero_and, BitVec.zero_and⟩

theorem byteOffs_apart (s0 s1 : U8) : byteOffs s0 s1 = byteOffs 0 s1 ||| byteOffs s0 0 := by
  have right : ∀ d : BitVec 32, d ||| 0 = d := fun _ => BitVec.or_zero
  have left : ∀ d : BitVec 32, 0 ||| d = d := fun _ => BitVec.zero_or
  simp only [byteOffs, (movedBit_zero _ _).1, (movedBit_zero _ _).2, right, left]
  ac_rfl

theorem byteOffs_eq (d1 d2 : U8) : byteOffs d2 d1 = (address d1 d2).setWidth 32 := by
  have high : ∀ d : U8, byteOffs 0 d = (address d 0).setWidth 32 := by decide +kernel
  have low : ∀ d : U8, byteOffs d 0 = (address 0 d).setWidth 32 := by decide +kernel
  rw [byteOffs_apart, address_apart, high, low, BitVec.setWidth_or]

theorem bitNum_eq : ∀ d3 : U8, (bitNum d3).toNat = (bitNumber d3).toNat := by
  decide +kernel

theorem lowBit_eq {w : Nat} (d : BitVec w) :
    (if d &&& 1 ≠ 0 then 1 else 0) = (d.getLsbD 0).toNat := by
  obtain _ | w := w
  · rw [Subsingleton.elim d 0]
    rfl
  have low : d &&& 1 = (BitVec.ofBool (d.getLsbD 0)).setWidth (w + 1) :=
    BitVec.and_one_eq_setWidth_ofBool_getLsbD
  rw [low]
  cases d.getLsbD 0 <;> simp

theorem countFrom_eq_sum (w left : Nat) (d : BitVec w) :
    countFrom w left d = ∑ i ∈ Finset.range left, (d.getLsbD i).toNat := by
  induction left generalizing d with
  | zero => rfl
  | succ left inductionHypothesis =>
      rw [countFrom, Finset.sum_range_succ']
      split
      · rename_i zero
        subst zero
        simp
      · rw [inductionHypothesis, Nat.add_comm, lowBit_eq]
        refine congrArg (· + (d.getLsbD 0).toNat) (Finset.sum_congr rfl fun i _ => ?_)
        rw [BitVec.getLsbD_ushiftRight, Nat.add_comm]

/-- The bits of three bytes in one word. -/
theorem getLsbD_three (d1 d2 d3 : U8) (i : Nat) :
    (d2.setWidth 32 ||| d1.setWidth 32 <<< 8 ||| d3.setWidth 32 <<< 16).getLsbD i =
      if i < 8 then d2.getLsbD i else if i < 16 then d1.getLsbD (i - 8)
      else if i < 24 then d3.getLsbD (i - 16) else false := by
  have none : ∀ d : U8, ∀ i, 8 ≤ i → d.getLsbD i = false := fun d i => BitVec.getLsbD_of_ge d i
  simp only [BitVec.getLsbD_or, BitVec.getLsbD_shiftLeft, BitVec.getLsbD_setWidth]
  split
  · simp [show i < 32 by omega, show i < 16 by omega, *]
  split
  · simp [show i < 32 by omega, show i - 8 < 32 by omega, none d2 i (by omega), *]
  split
  · simp [show i < 32 by omega, show i - 16 < 32 by omega, none d2 i (by omega),
      none d1 (i - 8) (by omega), *]
  · simp [none d2 i (by omega), none d1 (i - 8) (by omega), none d3 (i - 16) (by omega)]

theorem countbits_eq (d1 d2 d3 : U8) :
    countbits (d2.setWidth 32 ||| d1.setWidth 32 <<< 8 ||| d3.setWidth 32 <<< 16) =
      countFrom 8 8 d1 + countFrom 8 8 d2 + countFrom 8 8 d3 := by
  simp only [countbits, countFrom_eq_sum, getLsbD_three]
  rw [show 32 = 8 + (8 + (8 + 8)) from rfl, Finset.sum_range_add, Finset.sum_range_add,
    Finset.sum_range_add]
  simp only [Finset.sum_range_succ, Finset.sum_range_zero]
  simp
  omega

/-- What the kernel returns where the boot loader returns this. -/
def kernelResult (ret : Int) : Int :=
  if ret = 2 then 1 else if ret = -1 then -ebadmsg else ret

theorem nandCorrectData_eq (dat : Nat → U8) (readEcc calcEcc : Fin 3 → U8) :
    nandCorrectData dat readEcc calcEcc =
      (kernelResult (UBoot.NandEcc.nandCorrectData dat readEcc calcEcc).ret,
        (UBoot.NandEcc.nandCorrectData dat readEcc calcEcc).dat) := by
  rw [nandCorrectData, UBoot.NandEcc.nandCorrectData]
  generalize calcEcc 0 ^^^ readEcc 0 = d1
  generalize calcEcc 1 ^^^ readEcc 1 = d2
  generalize calcEcc 2 ^^^ readEcc 2 = d3
  have offset : (byteOffs d2 d1).toNat = (address d1 d2).toNat := by
    rw [byteOffs_eq, BitVec.toNat_setWidth]
    exact Nat.mod_eq_of_lt (Nat.lt_trans (address d1 d2).isLt (by decide))
  have zeroIff : d2 ||| d1 ||| d3 = 0 ↔ d1 ||| d2 ||| d3 = 0 := by rw [BitVec.or_comm d2]
  have fullIff : (d2 ^^^ d2 >>> 1) &&& 0x55 = 0x55 ∧ (d1 ^^^ d1 >>> 1) &&& 0x55 = 0x55 ∧
      (d3 ^^^ d3 >>> 1) &&& 0x54 = 0x54 ↔ (d1 ^^^ d1 >>> 1) &&& 0x55 = 0x55 ∧
      (d2 ^^^ d2 >>> 1) &&& 0x55 = 0x55 ∧ (d3 ^^^ d3 >>> 1) &&& 0x54 = 0x54 := and_left_comm
  simp only [zeroIff, fullIff, countbits_eq, offset, bitNum_eq]
  split
  · rfl
  split
  · rfl
  split <;> rfl

end Agreement

/-- The kernel and the boot loader make the same code of any data, and with any two codes
they change the data alike; a flip in the code counts as corrected in both. -/
theorem nand_ecc_agrees (dat : Nat → U8) (readEcc calcEcc : Fin 3 → U8) :
    nandCalculateEcc dat = UBoot.NandEcc.nandCalculateEcc dat ∧
      let boot := UBoot.NandEcc.nandCorrectData dat readEcc calcEcc
      nandCorrectData dat readEcc calcEcc = (kernelResult boot.ret, boot.dat) :=
  ⟨nandCalculateEcc_eq dat, nandCorrectData_eq dat readEcc calcEcc⟩

end Gp2Firmware.Linux.NandEcc
