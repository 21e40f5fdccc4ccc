import Gp2Firmware.Mstar.Driver

/-!
# The page buffer of the driver

What reads and programs of large pages leave in the page buffer, in the response
buffer and in the flash, on a controller that transfers and programs what it is
asked to.
-/

namespace Gp2Firmware.Mstar

namespace Cells

variable (cells : Cells)

/-- The spare bytes of a sector stand behind it. -/
theorem byteAt_spare (sector : Nat) {i : Nat} (inside : i < 16) :
    cells.byteAt (0x200 + 0x210 * sector + i) = cells.spare (16 * sector + i) := by
  have behind : (0x200 + 0x210 * sector + i) % 0x210 = 0x200 + i := by omega
  have at_ : (0x200 + 0x210 * sector + i) / 0x210 = sector := by omega
  unfold byteAt
  rw [behind, at_, if_neg (by omega), Nat.add_sub_cancel_left]

@[simp]
theorem program_data (given : Cells) (k : Nat) :
    (cells.program given).data k = cells.data k &&& given.data k :=
  rfl

@[simp]
theorem program_spare (given : Cells) (k : Nat) :
    (cells.program given).spare k = cells.spare k &&& given.spare k :=
  rfl

end Cells

namespace Driver

variable {hw : Hw} (large : hw.flash2kpage = true) (sound : hw.Sound) (d : Driver)

include large in
theorem pageSize_large : hw.pageSize = 0x800 :=
  if_pos large

include large in
theorem spareSize_large : hw.spareSize = 64 :=
  if_pos large

include sound in
theorem transferred_eq (row : Nat) : d.transferred hw row = d.flash row := by
  unfold transferred
  rw [sound.arrives_eq]
  rfl

/-! ### Reading the spare bytes -/

@[simp]
theorem readRdd_stPageBuffer (row column : Nat) :
    (d.readRdd hw row column).stPageBuffer = d.stPageBuffer :=
  rfl

include large sound in
theorem readRdd_rspBuf (row sector : Nat) {i : Nat} (inside : i < 16) :
    (d.readRdd hw row (0x200 + 0x210 * sector)).rspBuf i =
      (d.flash row).spare (16 * sector + i) := by
  have taken :
      (d.readRdd hw row (0x200 + 0x210 * sector)).rspBuf i =
        (d.transferred hw row).byteAt
          ((if hw.flash2kpage then 0x200 + 0x210 * sector else 0x200) + i) :=
    if_pos inside
  rw [taken, if_pos large, transferred_eq sound, Cells.byteAt_spare _ _ inside]

include large sound in
theorem readGroup_rspBuf (row sector : Nat) {i : Nat} (inside : i < 16) :
    (d.readGroup hw row sector).rspBuf i = (d.flash row).spare (16 * sector + i) :=
  d.readRdd_rspBuf large sound row sector inside

include large sound in
theorem readGroup_stPageBuffer (row sector k : Nat) :
    (d.readGroup hw row sector).stPageBuffer k =
      if 16 * sector ≤ k ∧ k < 16 * sector + 16 then (d.flash row).spare k
      else d.stPageBuffer k := by
  by_cases here : 16 * sector ≤ k ∧ k < 16 * sector + 16
  · have taken :
        (d.readGroup hw row sector).stPageBuffer k =
          (d.readRdd hw row (0x200 + 0x210 * sector)).rspBuf (k - 16 * sector) :=
      if_pos here
    rw [taken, if_pos here, d.readRdd_rspBuf large sound row sector (by omega),
      Nat.add_sub_cancel' here.1]
  · have kept : (d.readGroup hw row sector).stPageBuffer k = d.stPageBuffer k :=
      if_neg here
    rw [kept, if_neg here]

@[simp]
theorem readGroup_flash (row sector : Nat) :
    (d.readGroup hw row sector).flash = d.flash :=
  rfl

@[simp]
theorem readGroup_byteIdxofPage (row sector : Nat) :
    (d.readGroup hw row sector).byteIdxofPage = d.byteIdxofPage :=
  rfl

@[simp]
theorem readGroup_cifIndex (row sector : Nat) :
    (d.readGroup hw row sector).cifIndex = d.cifIndex :=
  rfl

/-- The driver as `MDrv_NAND_ReadOOB` starts it. -/
def oobCursor (column : Nat) : Driver :=
  { d with byteIdxofPage := 0, cifIndex := BitVec.ofNat 8 column }

include large in
theorem readOob_eq (row column : Nat) :
    d.readOob hw row column =
      ((((d.oobCursor column).readGroup hw row 0).readGroup hw row 1).readGroup hw row
        2).readGroup hw row 3 :=
  if_pos large

include large sound in
/-- `MDrv_NAND_ReadOOB` puts the spare bytes to the start of the page buffer. -/
theorem readOob_stPageBuffer (row column k : Nat) :
    (d.readOob hw row column).stPageBuffer k =
      if k < 64 then (d.flash row).spare k else d.stPageBuffer k := by
  have flash : (d.oobCursor column).flash = d.flash := rfl
  have buffer : (d.oobCursor column).stPageBuffer = d.stPageBuffer := rfl
  rw [d.readOob_eq large]
  simp only [readGroup_stPageBuffer large sound, readGroup_flash, flash, buffer]
  split_ifs <;> first | rfl | omega

include large sound in
/-- The response buffer has the spare bytes of the last sector then. -/
theorem readOob_rspBuf (row column : Nat) {i : Nat} (inside : i < 16) :
    (d.readOob hw row column).rspBuf i = (d.flash row).spare (48 + i) := by
  rw [d.readOob_eq large]
  exact readGroup_rspBuf large sound _ row 3 inside

include large in
theorem readOob_flash (row column : Nat) :
    (d.readOob hw row column).flash = d.flash := by
  simp only [d.readOob_eq large, readGroup_flash, oobCursor]

include large in
theorem readOob_byteIdxofPage (row column : Nat) :
    (d.readOob hw row column).byteIdxofPage = 0 := by
  simp only [d.readOob_eq large, readGroup_byteIdxofPage, oobCursor]

include large in
theorem readOob_cifIndex (row column : Nat) :
    (d.readOob hw row column).cifIndex = BitVec.ofNat 8 column := by
  simp only [d.readOob_eq large, readGroup_cifIndex, oobCursor]

/-! ### Reading the data bytes -/

theorem readBuf_data (aligned : Bool) :
    d.readBuf hw aligned 0x800 =
      (d.dmaBytes hw 0x800,
        { d.runJob with
          row := if hw.flash2kpage then d.row else d.row + 1
          byteIdxofPage := 0x800
          rspBuf := d.dmaRspBuf hw 0x800
          stPageBuffer := fun k =>
            if aligned = false ∧ k < 0x800 then d.dmaBytes hw 0x800 k
            else d.stPageBuffer k
          isEccFail :=
            eccFailOf (wNcJobEnd (hw.job d.jobs) true) (d.dmaRspBuf hw 0x800) }) :=
  if_pos (by decide)

theorem readBuf_spare (aligned : Bool) :
    d.readBuf hw aligned 64 = (fun k => d.stPageBuffer (d.byteIdxofPage + k), d) :=
  if_neg (by decide)

include sound in
theorem dmaBytes_data {k : Nat} (inside : k < 0x800) :
    d.dmaBytes hw 0x800 k = (d.flash d.row).data k := by
  have taken : d.dmaBytes hw 0x800 k = (d.transferred hw d.row).data k :=
    if_pos inside
  rw [taken, transferred_eq sound]

/-! ### Programming -/

include large in
theorem pageLoaded_data (row : Nat) (data oob : Nat → U8) {k : Nat}
    (inside : k < 0x800) : (d.pageLoaded hw row data oob).stPageBuffer k = data k := by
  simp only [pageLoaded, writePage, writeBuf, pageSize_large large,
    spareSize_large large, Nat.sub_zero]
  rw [if_neg (by omega), if_neg (by omega)]
  exact if_pos ⟨Nat.zero_le k, by omega⟩

include large in
theorem pageLoaded_spare (row : Nat) (data oob : Nat → U8) {k : Nat}
    (inside : k < 64) :
    (d.pageLoaded hw row data oob).stPageBuffer (0x800 + k) = oob k := by
  have place : 0x800 + k - (0 + 0x800) = k := by omega
  simp only [pageLoaded, writePage, writeBuf, pageSize_large large,
    spareSize_large large, place]
  exact if_pos (by omega)

include large in
theorem pageLoaded_tWriteLen (row : Nat) (data oob : Nat → U8) :
    (d.pageLoaded hw row data oob).tWriteLen = 0x840 := by
  simp only [pageLoaded, writePage, writeBuf, pageSize_large large,
    spareSize_large large]

include large in
theorem spareLoaded_data (row : Nat) (oob : Nat → U8) {k : Nat} (inside : k < 0x800) :
    (d.spareLoaded hw row oob).stPageBuffer k = 0xFF := by
  simp only [spareLoaded, writePage, writeBuf, pageSize_large large,
    spareSize_large large]
  rw [if_neg (by omega)]
  exact if_pos ⟨trivial, le_refl _, by omega⟩

include large in
theorem spareLoaded_spare (row : Nat) (oob : Nat → U8) {k : Nat} (inside : k < 64) :
    (d.spareLoaded hw row oob).stPageBuffer (0x800 + k) = oob k := by
  simp only [spareLoaded, writePage, writeBuf, pageSize_large large,
    spareSize_large large]
  rw [if_pos (by omega), Nat.add_sub_cancel_left]

include large in
theorem spareLoaded_tWriteLen (row : Nat) (oob : Nat → U8) :
    (d.spareLoaded hw row oob).tWriteLen = 64 := by
  simp only [spareLoaded, writePage, writeBuf, spareSize_large large, Nat.zero_add]

/-! ### The staged bytes -/

include large sound in
theorem keepGroup_stPageBuffer (sector k : Nat) :
    (d.keepGroup hw sector).stPageBuffer k =
      if 0x800 + 16 * sector ≤ k ∧ k < 0x800 + 16 * sector + 5 then
        (d.flash d.preSource).spare (k - 0x800)
      else d.stPageBuffer k := by
  have kept :
      (d.keepGroup hw sector).stPageBuffer k =
        if hw.pageSize + 16 * sector ≤ k ∧ k < hw.pageSize + 16 * sector + 5 then
          (d.readRdd hw d.preSource (0x200 + 0x210 * sector)).rspBuf
            (k - (hw.pageSize + 16 * sector))
        else d.stPageBuffer k :=
    rfl
  rw [kept, pageSize_large large]
  split_ifs with here
  · rw [d.readRdd_rspBuf large sound _ _ (by omega)]
    exact congrArg _ (by omega)
  · rfl

/-- Five spare bytes of each sector come from the chip where the page buffer has none
of its own. -/
def stagedSpare (hw : Hw) (d : Driver) (k : Nat) : U8 :=
  if d.KeepsSpare hw ∧ k % 16 < 5 then (d.flash d.preSource).spare k
  else d.stPageBuffer (0x800 + k)

include large in
theorem staged_of_keeps (keeps : d.KeepsSpare hw) :
    d.staged hw =
      (((d.keepGroup hw 0).keepGroup hw 1).keepGroup hw 2).keepGroup hw 3 :=
  (if_pos keeps).trans (if_pos large)

theorem staged_of_not_keeps (own : ¬ d.KeepsSpare hw) : d.staged hw = d :=
  if_neg own

@[simp]
theorem keepGroup_flash (sector : Nat) : (d.keepGroup hw sector).flash = d.flash :=
  rfl

@[simp]
theorem keepGroup_preSource (sector : Nat) :
    (d.keepGroup hw sector).preSource = d.preSource :=
  rfl

include large sound in
theorem staged_data {k : Nat} (inside : k < 0x800) :
    (d.staged hw).stPageBuffer k = d.stPageBuffer k := by
  by_cases keeps : d.KeepsSpare hw
  · rw [d.staged_of_keeps large keeps]
    simp only [keepGroup_stPageBuffer large sound]
    split_ifs <;> first | rfl | omega
  · rw [d.staged_of_not_keeps keeps]

include large sound in
theorem staged_spare {k : Nat} (inside : k < 64) :
    (d.staged hw).stPageBuffer (0x800 + k) = d.stagedSpare hw k := by
  unfold stagedSpare
  by_cases keeps : d.KeepsSpare hw
  · rw [d.staged_of_keeps large keeps]
    simp only [keepGroup_stPageBuffer large sound, keepGroup_flash,
      keepGroup_preSource, Nat.add_sub_cancel_left, keeps, true_and]
    split_ifs <;> first | rfl | omega
  · rw [d.staged_of_not_keeps keeps, if_neg (fun both => keeps both.1)]

theorem staged_flash : (d.staged hw).flash = d.flash := by
  unfold staged
  split
  · split <;> rfl
  · rfl

theorem staged_preSource : (d.staged hw).preSource = d.preSource := by
  unfold staged
  split
  · split <;> rfl
  · rfl

include sound in
/-- A program changes its page only, and clears the bits that it is asked to. -/
theorem pageProgram_flash :
    (d.pageProgram hw).flash =
      Function.update d.flash d.preSource
        ((d.flash d.preSource).program ((d.staged hw).sent hw)) := by
  unfold pageProgram program
  simp only [sound.leaves_eq, staged_flash, staged_preSource]

include large sound in
theorem sent_data {k : Nat} (inside : k < 0x800) :
    ((d.staged hw).sent hw).data k = d.stPageBuffer k :=
  d.staged_data large sound inside

include large sound in
theorem sent_spare {k : Nat} (inside : k < 64) (plain : eccColumn k = false) :
    ((d.staged hw).sent hw).spare k = d.stagedSpare hw k := by
  have own :
      ((d.staged hw).sent hw).spare k = (d.staged hw).stPageBuffer (hw.pageSize + k) :=
    if_neg fun both => by
      rw [plain] at both
      cases both.2
  rw [own, pageSize_large large, d.staged_spare large sound inside]

/-! ### A program of the spare bytes -/

include large in
theorem spareLoaded_not_keeps (row : Nat) (oob : Nat → U8) :
    ¬ (d.spareLoaded hw row oob).KeepsSpare hw := by
  rintro ⟨-, whole⟩
  rw [d.spareLoaded_tWriteLen large, pageSize_large large, spareSize_large large]
    at whole
  exact absurd whole (by decide)

include large in
theorem spareLoaded_not_eccOn (row : Nat) (oob : Nat → U8) :
    ¬ (d.spareLoaded hw row oob).EccOn hw := by
  rintro ⟨length, -⟩
  rw [d.spareLoaded_tWriteLen large] at length
  exact absurd length (by decide)

include sound in
theorem spareProgram_flash (row : Nat) (oob : Nat → U8) :
    ((d.spareLoaded hw row oob).pageProgram hw).flash =
      Function.update d.flash row
        ((d.flash row).program (((d.spareLoaded hw row oob).staged hw).sent hw)) :=
  pageProgram_flash sound _

include large sound in
theorem spareProgram_spare (row : Nat) (oob : Nat → U8) {k : Nat} (inside : k < 64) :
    (((d.spareLoaded hw row oob).pageProgram hw).flash row).spare k =
      (d.flash row).spare k &&& oob k := by
  have own :
      (((d.spareLoaded hw row oob).staged hw).sent hw).spare k =
        (d.spareLoaded hw row oob).stPageBuffer (hw.pageSize + k) := by
    rw [staged_of_not_keeps _ (d.spareLoaded_not_keeps large row oob)]
    exact if_neg fun both => d.spareLoaded_not_eccOn large row oob both.1
  rw [spareProgram_flash sound, Function.update_self, Cells.program_spare, own,
    pageSize_large large, d.spareLoaded_spare large row oob inside]

include large sound in
theorem spareProgram_data (row : Nat) (oob : Nat → U8) {k : Nat} (inside : k < 0x800) :
    (((d.spareLoaded hw row oob).pageProgram hw).flash row).data k =
      (d.flash row).data k := by
  rw [spareProgram_flash sound, Function.update_self, Cells.program_data,
    sent_data large sound _ inside, d.spareLoaded_data large row oob inside]
  exact BitVec.and_allOnes

end Driver

end Gp2Firmware.Mstar
