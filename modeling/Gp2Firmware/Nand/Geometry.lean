import Mathlib.Tactic
import Mathlib.Data.Nat.Bitwise

/-!
# Chip geometry and the bad-block regions

`nand_bbm.h` cuts the device into an info region of fixed size at offset
zero, a data region behind it, and a reserve region at the end whose size is
computed from the chip size by `nand_bbm_init`.  The boot loader and the
kernel share these macros.

A `Geometry` is what `nand_scan` reads off the identification tables: the
shifts for the page, the erase block and the chip.  One chip is attached, so
`mtd->size` is the chip size.
-/

namespace Gp2Firmware.Nand

/-- `BBM_INFO_SIZE`; the region starts at `BBM_INFO_POS`, which is zero. -/
def bbmInfoSize : Nat := 0x20000

/-- `redirect_size` as `nand_bbm_init` computes it: one MiB and three percent
of the chip, in 32-bit arithmetic and rounded down to MiB. -/
def redirectSizeOf (chipsize : Nat) : Nat :=
  0x100000 + ((chipsize * 3 % 2 ^ 32) / 100 &&& 0xFFF00000)

/-- The geometry of one NAND chip.  The bounds are those of the chips in
`nand_flash_ids` and of their extended identification bytes; only a chip of
1 MiB, all of which would be reserve region, is left out. -/
structure Geometry where
  pageShift : Nat
  physEraseShift : Nat
  chipShift : Nat
  pageShift_ge : 8 ≤ pageShift
  pageShift_le : pageShift ≤ physEraseShift
  physEraseShift_ge : 12 ≤ physEraseShift
  physEraseShift_le : physEraseShift ≤ 19
  chipShift_ge : 21 ≤ chipShift
  chipShift_le : chipShift ≤ 31

namespace Geometry

variable (g : Geometry)

/-- `chip->chipsize`, which with one chip is also `mtd->size`. -/
def size : Nat := 2 ^ g.chipShift

/-- `mtd->erasesize` -/
def erasesize : Nat := 2 ^ g.physEraseShift

/-- `mtd->writesize` (`mtd->oobblock` in the boot loader) -/
def writesize : Nat := 2 ^ g.pageShift

/-- `pages_per_block` -/
def pagesPerBlock : Nat := 2 ^ (g.physEraseShift - g.pageShift)

/-- Number of erase blocks, the length of `nand_bbm_bitmap`. -/
def blocks : Nat := g.size / g.erasesize

/-- `chip->pagemask` -/
def pagemask : Nat := (g.size >>> g.pageShift) - 1

/-- `BLOCK_INDEX(chip, pos)` -/
def blockIndex (pos : Nat) : Nat := pos >>> g.physEraseShift

/-- `BLOCK_POS(chip, index)` -/
def blockPos (index : Nat) : Nat := index <<< g.physEraseShift

/-- `redirect_size`, alias `BBM_REDIR_SIZE` -/
def redirectSize : Nat := redirectSizeOf g.size

/-- `redirect_start`, alias `BBM_REDIR_START` -/
def redirectStart : Nat := g.size - g.redirectSize

/-- `BBM_REDIR_END` -/
def bbmRedirEnd : Nat := g.redirectStart + g.redirectSize

/-- `BLOCK_INDEX(chip, BBM_REDIR_START)`: no block at or below it is ever
handed out. -/
def redirFloor : Nat := g.blockIndex g.redirectStart

/-- `(BBM_REDIR_END/mtd->erasesize) - 1`, where `assign_index` starts. -/
def redirTop : Nat := g.bbmRedirEnd / g.erasesize - 1

theorem erasesize_pos : 0 < g.erasesize :=
  Nat.two_pow_pos _

theorem writesize_pos : 0 < g.writesize :=
  Nat.two_pow_pos _

theorem pagesPerBlock_pos : 0 < g.pagesPerBlock :=
  Nat.two_pow_pos _

theorem pagesPerBlock_mul_writesize :
    g.pagesPerBlock * g.writesize = g.erasesize := by
  rw [pagesPerBlock, writesize, erasesize, ← Nat.pow_add,
    Nat.sub_add_cancel g.pageShift_le]

theorem blockIndex_eq (pos : Nat) : g.blockIndex pos = pos / g.erasesize :=
  Nat.shiftRight_eq_div_pow pos _

theorem blockPos_eq (index : Nat) :
    g.blockPos index = index * g.erasesize :=
  Nat.shiftLeft_eq index _

@[simp]
theorem blockIndex_blockPos (index : Nat) :
    g.blockIndex (g.blockPos index) = index := by
  rw [blockIndex_eq, blockPos_eq, Nat.mul_div_cancel _ g.erasesize_pos]

theorem blockPos_injective : Function.Injective g.blockPos := by
  intro first second equal
  rw [← g.blockIndex_blockPos first, equal, g.blockIndex_blockPos]

theorem erasesize_dvd_MiB : g.erasesize ∣ 2 ^ 20 :=
  Nat.pow_dvd_pow 2 (by have := g.physEraseShift_le; omega)

private def chipMiB : Nat := 2 ^ (g.chipShift - 20)

private theorem size_eq_MiB : g.size = g.chipMiB * 2 ^ 20 := by
  rw [size, chipMiB, ← Nat.pow_add]
  congr 1
  have := g.chipShift_ge
  omega

private theorem chipMiB_ge : 2 ≤ g.chipMiB := by
  calc
    2 = 2 ^ 1 := rfl
    _ ≤ g.chipMiB :=
      Nat.pow_le_pow_right (by decide) (by have := g.chipShift_ge; omega)

private theorem chipMiB_le : g.chipMiB ≤ 2048 := by
  calc
    g.chipMiB ≤ 2 ^ 11 :=
      Nat.pow_le_pow_right (by decide) (by have := g.chipShift_le; omega)
    _ = 2048 := rfl

private theorem and_MiBMask (value : Nat) (bounded : value < 2 ^ 32) :
    value &&& 0xFFF00000 = value / 2 ^ 20 * 2 ^ 20 := by
  apply Nat.eq_of_testBit_eq
  intro bit
  rw [Nat.testBit_and, Nat.testBit_mul_two_pow, Nat.testBit_div_two_pow,
    show (0xFFF00000 : Nat) = (2 ^ 12 - 1) * 2 ^ 20 from rfl,
    Nat.testBit_mul_two_pow, Nat.testBit_two_pow_sub_one]
  by_cases low : 20 ≤ bit
  · by_cases high : bit - 20 < 12
    · simp [low, high]
    · have beyond : value.testBit bit = false :=
        Nat.testBit_lt_two_pow
          (lt_of_lt_of_le bounded (Nat.pow_le_pow_right (by decide) (by omega)))
      simp [low, beyond]
  · simp [low]

/-- The reserve region is a whole number of MiB, at least one, and leaves at
least one MiB in front of it. -/
private theorem redirectSize_shape :
    ∃ mib, g.redirectSize = mib * 2 ^ 20 ∧ 1 ≤ mib ∧ mib < g.chipMiB := by
  have lower := g.chipMiB_ge
  have upper := g.chipMiB_le
  refine ⟨g.size * 3 % 2 ^ 32 / 100 / 2 ^ 20 + 1, ?_, by omega, ?_⟩
  · rw [redirectSize, redirectSizeOf, and_MiBMask _ (by omega)]
    omega
  · have modLe : g.size * 3 % 2 ^ 32 ≤ g.size * 3 := Nat.mod_le _ _
    have sizeEq := g.size_eq_MiB
    have small : g.size * 3 % 2 ^ 32 / 100 / 2 ^ 20 ≤ g.chipMiB * 3 / 100 := by
      rw [Nat.div_div_eq_div_mul]
      omega
    omega

theorem redirectSize_lt_size : g.redirectSize < g.size := by
  obtain ⟨mib, sizeEq, _, below⟩ := g.redirectSize_shape
  rw [sizeEq, size_eq_MiB]
  exact Nat.mul_lt_mul_of_pos_right below (by decide)

@[simp]
theorem bbmRedirEnd_eq : g.bbmRedirEnd = g.size :=
  Nat.sub_add_cancel (Nat.le_of_lt g.redirectSize_lt_size)

theorem erasesize_dvd_size : g.erasesize ∣ g.size := by
  rw [size_eq_MiB]
  exact Dvd.dvd.mul_left g.erasesize_dvd_MiB _

theorem erasesize_le_size : g.erasesize ≤ g.size :=
  Nat.le_of_dvd (Nat.two_pow_pos _) g.erasesize_dvd_size

theorem erasesize_dvd_redirectSize : g.erasesize ∣ g.redirectSize := by
  obtain ⟨mib, sizeEq, _, _⟩ := g.redirectSize_shape
  rw [sizeEq]
  exact Dvd.dvd.mul_left g.erasesize_dvd_MiB _

theorem erasesize_dvd_redirectStart : g.erasesize ∣ g.redirectStart :=
  Nat.dvd_sub g.erasesize_dvd_size g.erasesize_dvd_redirectSize

theorem blocks_mul_erasesize : g.blocks * g.erasesize = g.size :=
  Nat.div_mul_cancel g.erasesize_dvd_size

theorem blockPos_redirFloor : g.blockPos g.redirFloor = g.redirectStart := by
  rw [blockPos_eq, redirFloor, blockIndex_eq,
    Nat.div_mul_cancel g.erasesize_dvd_redirectStart]

/-- Number of blocks in the reserve region. -/
def redirBlocks : Nat := g.redirectSize / g.erasesize

theorem redirFloor_add_redirBlocks : g.redirFloor + g.redirBlocks = g.blocks := by
  rw [redirFloor, blockIndex_eq, redirBlocks, blocks,
    ← Nat.add_div_of_dvd_right g.erasesize_dvd_redirectStart, redirectStart,
    Nat.sub_add_cancel (Nat.le_of_lt g.redirectSize_lt_size)]

theorem two_le_redirBlocks : 2 ≤ g.redirBlocks := by
  obtain ⟨mib, sizeEq, positive, _⟩ := g.redirectSize_shape
  have erase : g.erasesize ≤ 2 ^ 19 :=
    Nat.pow_le_pow_right (by decide) g.physEraseShift_le
  rw [redirBlocks, Nat.le_div_iff_mul_le g.erasesize_pos, sizeEq]
  omega

theorem redirTop_succ : g.redirTop + 1 = g.blocks := by
  have enough := g.two_le_redirBlocks
  have total := g.redirFloor_add_redirBlocks
  rw [redirTop, bbmRedirEnd_eq, ← blocks]
  omega

theorem redirFloor_lt_redirTop : g.redirFloor < g.redirTop := by
  have enough := g.two_le_redirBlocks
  have total := g.redirFloor_add_redirBlocks
  have top := g.redirTop_succ
  omega

/-- The info region ends before the reserve region begins. -/
theorem bbmInfoSize_lt_redirectStart : bbmInfoSize < g.redirectStart := by
  obtain ⟨mib, sizeEq, _, below⟩ := g.redirectSize_shape
  rw [redirectStart, sizeEq, size_eq_MiB, ← Nat.sub_mul, bbmInfoSize]
  omega

theorem redirFloor_pos : 0 < g.redirFloor := by
  have start := g.bbmInfoSize_lt_redirectStart
  rw [← g.blockPos_redirFloor, blockPos_eq] at start
  exact Nat.pos_of_mul_pos_right (Nat.lt_of_le_of_lt (Nat.zero_le _) start)

theorem blocks_pos : 0 < g.blocks := by
  have top := g.redirTop_succ
  omega

/-- Block numbers fit into `BBM_IDX_MASK`. -/
theorem blocks_lt : g.blocks < 2 ^ 28 := by
  have upper := g.chipMiB_le
  have erase : 2 ^ 12 ≤ g.erasesize :=
    Nat.pow_le_pow_right (by decide) g.physEraseShift_ge
  rw [blocks, Nat.div_lt_iff_lt_mul g.erasesize_pos, size_eq_MiB]
  calc
    g.chipMiB * 2 ^ 20 < 2 ^ 28 * 2 ^ 12 := by omega
    _ ≤ 2 ^ 28 * g.erasesize := Nat.mul_le_mul_left _ erase

/-- `mtd->size >> chip->page_shift`, the number of pages. -/
def pages : Nat := g.size >>> g.pageShift

private theorem pages_eq : g.pages = 2 ^ (g.chipShift - g.pageShift) := by
  have page := g.pageShift_le
  have block := g.physEraseShift_le
  have chip := g.chipShift_ge
  rw [pages, size, Nat.shiftRight_eq_div_pow, Nat.pow_div (by omega) (by decide)]

theorem blocks_mul_pagesPerBlock : g.blocks * g.pagesPerBlock = g.pages := by
  have total := g.blocks_mul_erasesize
  rw [← g.pagesPerBlock_mul_writesize, ← Nat.mul_assoc] at total
  rw [pages, Nat.shiftRight_eq_div_pow, ← total, writesize,
    Nat.mul_div_cancel _ (Nat.two_pow_pos _)]

/-- The chip has a power of two of pages, so masking a page number of the chip
changes nothing. -/
theorem and_pagemask {page : Nat} (inside : page < g.pages) :
    page &&& g.pagemask = page := by
  rw [pagemask, ← pages, pages_eq, Nat.and_two_pow_sub_one_eq_mod,
    ← pages_eq, Nat.mod_eq_of_lt inside]

theorem shiftRight_pageShift (ofs : Nat) :
    ofs >>> g.pageShift = ofs / g.writesize :=
  Nat.shiftRight_eq_div_pow ofs _

theorem and_writesize (ofs : Nat) :
    ofs &&& (g.writesize - 1) = ofs % g.writesize :=
  Nat.and_two_pow_sub_one_eq_mod ofs _

theorem and_erasesize (ofs : Nat) :
    ofs &&& (g.erasesize - 1) = ofs % g.erasesize :=
  Nat.and_two_pow_sub_one_eq_mod ofs _

theorem pages_mul_writesize : g.pages * g.writesize = g.size := by
  rw [← g.blocks_mul_pagesPerBlock, Nat.mul_assoc,
    g.pagesPerBlock_mul_writesize, g.blocks_mul_erasesize]

/-- The block of a page, by way of its byte offset. -/
theorem blockIndex_page (page : Nat) :
    g.blockIndex (page <<< g.pageShift) = page / g.pagesPerBlock := by
  rw [blockIndex_eq, Nat.shiftLeft_eq, ← writesize,
    ← g.pagesPerBlock_mul_writesize,
    Nat.mul_div_mul_right _ _ g.writesize_pos]

theorem page_div_lt_blocks {page : Nat} (inside : page < g.pages) :
    page / g.pagesPerBlock < g.blocks := by
  rw [Nat.div_lt_iff_lt_mul g.pagesPerBlock_pos, g.blocks_mul_pagesPerBlock]
  exact inside

theorem page_lt_pages
    {block column : Nat} (inside : block < g.blocks)
    (within : column < g.pagesPerBlock) :
    block * g.pagesPerBlock + column < g.pages := by
  rw [← g.blocks_mul_pagesPerBlock]
  calc
    block * g.pagesPerBlock + column
        < block * g.pagesPerBlock + g.pagesPerBlock := by omega
    _ = (block + 1) * g.pagesPerBlock := by rw [Nat.add_mul, Nat.one_mul]
    _ ≤ g.blocks * g.pagesPerBlock := Nat.mul_le_mul_right _ inside

theorem shiftLeft_block (block : Nat) :
    (block * g.pagesPerBlock) <<< g.pageShift = g.blockPos block := by
  rw [Nat.shiftLeft_eq, ← writesize, Nat.mul_assoc,
    g.pagesPerBlock_mul_writesize, g.blockPos_eq]

theorem blockPos_shiftRight (block : Nat) :
    g.blockPos block >>> g.pageShift = block * g.pagesPerBlock := by
  rw [← g.shiftLeft_block, Nat.shiftLeft_shiftRight]

theorem firstPage_lt {block : Nat} (inside : block < g.blocks) :
    block * g.pagesPerBlock < g.pages :=
  g.page_lt_pages inside g.pagesPerBlock_pos

/-- An offset put together from a block and the offset inside the block, as
the translation does it. -/
theorem blockPos_or_and (block ofs : Nat) :
    g.blockPos block ||| (ofs &&& (g.erasesize - 1)) =
      block * g.erasesize + ofs % g.erasesize := by
  rw [erasesize, Nat.and_two_pow_sub_one_eq_mod, blockPos,
    ← Nat.shiftLeft_add_eq_or_of_lt (Nat.mod_lt _ (Nat.two_pow_pos _)),
    Nat.shiftLeft_eq]

/-- The page at such an offset. -/
theorem page_of_translated (block page : Nat) :
    (block * g.erasesize + (page <<< g.pageShift) % g.erasesize) >>>
        g.pageShift =
      block * g.pagesPerBlock + page % g.pagesPerBlock := by
  rw [Nat.shiftRight_eq_div_pow, Nat.shiftLeft_eq, ← writesize,
    ← g.pagesPerBlock_mul_writesize, Nat.mul_mod_mul_right, ← Nat.mul_assoc,
    ← Nat.add_mul, Nat.mul_div_cancel _ g.writesize_pos]

theorem blockIndex_lt_blocks {pos : Nat} (inside : pos < g.size) :
    g.blockIndex pos < g.blocks := by
  rw [blockIndex_eq, Nat.div_lt_iff_lt_mul g.erasesize_pos,
    g.blocks_mul_erasesize]
  exact inside

end Geometry

/-- The 128 MiB chip with identification `0xF1`: pages of 2 KiB, erase blocks
of 128 KiB. -/
def nand128MiB : Geometry where
  pageShift := 11
  physEraseShift := 17
  chipShift := 27
  pageShift_ge := by decide
  pageShift_le := by decide
  physEraseShift_ge := by decide
  physEraseShift_le := by decide
  chipShift_ge := by decide
  chipShift_le := by decide

example : nand128MiB.redirFloor = 992 ∧ nand128MiB.redirTop = 1023 := by
  decide

end Gp2Firmware.Nand
