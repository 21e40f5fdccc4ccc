import Gp2Firmware.Mstar.NandBase
import Gp2Firmware.Mstar.PageBuffer

/-!
# The mark of a bad block

`nand_default_block_markbad` clears the first two spare bytes of the first page of a
block.  `nand_block_bad` looks at byte 0 of the response buffer, where
`MDrv_NAND_ReadOOB` has left the spare bytes of the last sector: it decides by spare
byte 48.
-/

namespace Gp2Firmware.Mstar

open Gp2Firmware.Nand
open Gp2Firmware.Linux

/-- The page whose spare bytes mark a block. -/
def Mtd.markPage (b : Board) (m : Mtd) (block : Nat) : Cells :=
  m.driver.flash (block * b.g.pagesPerBlock)

/-- A block that was marked with success is bad, and a block with an erased first
spare byte is not. -/
def MarkFound (b : Board) (m : Mtd) (block : Nat) : Prop :=
  let marked := m.nandDefaultBlockMarkbad b (b.g.blockPos block)
  (marked.1 = 0 → (marked.2.nandBlockBad b (b.g.blockPos block)).1 = 1) ∧
    ((m.markPage b block).spare 0 = 0xFF →
      (m.nandBlockBad b (b.g.blockPos block)).1 = 0)

/-- Spare byte 48 says what the mark says: it is not erased, unless the chip is write
protected for the program of the mark, and it is erased where spare byte 0 is. -/
def LastSectorMarked (b : Board) (m : Mtd) (block : Nat) : Prop :=
  ((b.hw.job (m.driver.jobs + 1)).status &&& nandStatusWp = 0 ∨
      (m.markPage b block).spare 48 ≠ 0xFF) ∧
    ((m.markPage b block).spare 0 = 0xFF → (m.markPage b block).spare 48 = 0xFF)

namespace Mtd

variable {b : Board} (large : b.hw.flash2kpage = true) (sound : b.hw.Sound)
variable (m : Mtd) {block : Nat} (inside : block < b.g.blocks)

include large sound inside in
/-- `nand_block_bad` decides by spare byte 48. -/
theorem nandBlockBad_ret :
    (m.nandBlockBad b (b.g.blockPos block)).1 =
      if (m.markPage b block).spare 48 ≠ 0xFF then 1 else 0 := by
  have row :
      b.g.blockPos block >>> b.g.pageShift &&& b.g.pagemask =
        block * b.g.pagesPerBlock := by
    rw [b.g.blockPos_shiftRight, b.g.and_pagemask (b.g.firstPage_lt inside)]
  have byte :
      ((m.driver.readOob b.hw (block * b.g.pagesPerBlock) 0).readByte).1 =
        (m.markPage b block).spare 48 := by
    unfold Driver.readByte
    rw [m.driver.readOob_cifIndex large]
    exact m.driver.readOob_rspBuf large sound _ 0 (by decide)
  unfold nandBlockBad
  simp only [row, byte]

include large sound inside in
theorem nandBlockBad_eq_one :
    (m.nandBlockBad b (b.g.blockPos block)).1 = 1 ↔
      (m.markPage b block).spare 48 ≠ 0xFF := by
  rw [m.nandBlockBad_ret large sound inside]
  split_ifs with last
  · exact iff_of_true rfl last
  · exact iff_of_false (by decide) last

include large sound inside in
theorem nandBlockBad_eq_zero :
    (m.nandBlockBad b (b.g.blockPos block)).1 = 0 ↔
      (m.markPage b block).spare 48 = 0xFF := by
  rw [m.nandBlockBad_ret large sound inside]
  split_ifs with last
  · exact iff_of_false (by decide) last
  · exact iff_of_true rfl (not_not.mp last)

include large in
/-- The spare area of the first page is still within that page. -/
theorem markPage_shift (block : Nat) :
    (b.g.blockPos block + b.hw.spareSize) >>> b.g.pageShift =
      block * b.g.pagesPerBlock := by
  have size : b.g.writesize = 0x800 :=
    b.writesize_eq.trans (Driver.pageSize_large large)
  rw [b.g.shiftRight_pageShift, b.g.blockPos_eq, ← b.g.pagesPerBlock_mul_writesize,
    ← Nat.mul_assoc, Nat.mul_comm _ b.g.writesize, Nat.mul_add_div b.g.writesize_pos,
    Nat.div_eq_of_lt, Nat.add_zero]
  rw [size, Driver.spareSize_large large]
  decide

include large inside in
/-- The request of `nand_default_block_markbad` passes the checks. -/
theorem nandDefaultBlockMarkbad_eq (off : m.bbm.nandBbmCheck = false) :
    m.nandDefaultBlockMarkbad b (b.g.blockPos block) =
      m.writeOobPage b (block * b.g.pagesPerBlock) (fun _ => 0) 0 2 := by
  have spare := Driver.spareSize_large large
  have small : b.hw.spareSize < b.g.writesize := by
    rw [b.writesize_eq, Driver.pageSize_large large, spare]
    decide
  have below : b.g.blockPos block + b.hw.spareSize < b.g.size := by
    have last : block * b.g.pagesPerBlock + 1 ≤ b.g.pages := b.g.firstPage_lt inside
    have bytes := Nat.mul_le_mul_right b.g.writesize last
    rw [Nat.add_mul, Nat.one_mul, b.g.pages_mul_writesize, Nat.mul_assoc,
      b.g.pagesPerBlock_mul_writesize, ← b.g.blockPos_eq] at bytes
    omega
  have pagesLeft : 1 ≤ b.g.pages - block * b.g.pagesPerBlock :=
    Nat.sub_pos_of_lt (b.g.firstPage_lt inside)
  have page :
      nandBbmAdjust b.g m.bbm (b.g.blockPos block + b.hw.spareSize) >>> b.g.pageShift =
        block * b.g.pagesPerBlock := by
    unfold nandBbmAdjust
    rw [off, Bool.false_and, if_neg Bool.false_ne_true, markPage_shift large]
  unfold nandDefaultBlockMarkbad nandDoWriteOob
  rw [page, markPage_shift large, ← Geometry.pages, if_neg, if_neg]
  · rintro (outside | short)
    · exact absurd below (Nat.not_lt.mpr outside)
    · have enough := Nat.mul_le_mul_right b.hw.spareSize pagesLeft
      omega
  · omega

include sound large inside in
/-- A mark that is made leaves spare byte 48 as it was. -/
theorem nandDefaultBlockMarkbad_spec (off : m.bbm.nandBbmCheck = false) :
    let marked := m.nandDefaultBlockMarkbad b (b.g.blockPos block)
    (marked.1 = 0 ↔ (b.hw.job (m.driver.jobs + 1)).status &&& nandStatusWp ≠ 0) ∧
      (marked.1 = 0 →
        (marked.2.markPage b block).spare 48 = (m.markPage b block).spare 48) := by
  rw [m.nandDefaultBlockMarkbad_eq large inside off]
  unfold writeOobPage
  rw [b.g.and_pagemask (b.g.firstPage_lt inside)]
  by_cases writable : (b.hw.job (m.driver.jobs + 1)).status &&& nandStatusWp = 0
  · have stop : (nandCheckWp b { m with driver := m.driver.runJob }).1 = true :=
      beq_iff_eq.mpr writable
    have negative : ¬ -erofs = 0 := by decide
    simp only [stop, if_true]
    exact ⟨iff_of_false negative fun allowed => allowed writable,
      fun success => absurd success negative⟩
  · have goes : (nandCheckWp b { m with driver := m.driver.runJob }).1 = false :=
      beq_eq_false_iff_ne.mpr writable
    simp only [goes, Bool.false_eq_true, if_false]
    refine ⟨iff_of_true (nandWriteOobStd_ret _ _ _) writable, fun _ => ?_⟩
    exact (Driver.spareProgram_spare large sound _ _ _ (by decide)).trans
      BitVec.and_allOnes

end Mtd

/-- A marked block is found bad, and an unmarked one is not, exactly when the last
sector of its first page says so. -/
theorem markFound_iff {b : Board} (large : b.hw.flash2kpage = true)
    (sound : b.hw.Sound) {m : Mtd} (off : m.bbm.nandBbmCheck = false) {block : Nat}
    (inside : block < b.g.blocks) :
    MarkFound b m block ↔ LastSectorMarked b m block := by
  rcases m.nandDefaultBlockMarkbad_spec large sound inside off with ⟨success, kept⟩
  unfold MarkFound LastSectorMarked
  simp only [Mtd.nandBlockBad_eq_one large sound _ inside,
    Mtd.nandBlockBad_eq_zero large sound _ inside]
  refine and_congr_left fun _ => ?_
  constructor
  · intro found
    by_cases writable : (b.hw.job (m.driver.jobs + 1)).status &&& nandStatusWp = 0
    · exact Or.inl writable
    · have made := success.mpr writable
      exact Or.inr (kept made ▸ found made)
  · rintro (refused | last) made
    · exact absurd refused (success.mp made)
    · exact (kept made).symm ▸ last

theorem markFound_good :
    MarkFound goodBoard (Mtd.fresh nand128MiB) 9 ↔
      LastSectorMarked goodBoard (Mtd.fresh nand128MiB) 9 :=
  markFound_iff rfl goodHw_sound rfl (by decide)

/-- Block 9 has spare byte 48 of its first page in use. -/
def Mtd.lastSectorUsed : Mtd :=
  let m := Mtd.fresh nand128MiB
  { m with
    driver :=
      { m.driver with
        flash := Function.update m.driver.flash 576
          ⟨fun _ => 0xFF, fun k => if k = 48 then 0x5A else 0xFF⟩ } }

/-- The erased block 9 is marked with success and is not found bad then, and the
unmarked block 9 is found bad where spare byte 48 is in use. -/
theorem mark_not_found :
    ¬ MarkFound goodBoard (Mtd.fresh nand128MiB) 9 ∧
      ¬ MarkFound goodBoard Mtd.lastSectorUsed 9 := by
  constructor
  · rintro ⟨found, -⟩
    have good := found (by decide +kernel)
    revert good
    decide +kernel
  · rintro ⟨-, unmarked⟩
    have bad := unmarked (by decide +kernel)
    revert bad
    decide +kernel

end Gp2Firmware.Mstar
