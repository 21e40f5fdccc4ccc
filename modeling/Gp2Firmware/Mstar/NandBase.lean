import Gp2Firmware.Linux.NandBase
import Gp2Firmware.Mstar.Driver

/-!
# The kernel's NAND functions over the MStar driver

The functions of `nand_base.c` that go to the chip one page or one block at a time,
with the commands and transfers that they ask the driver for: `nand_write_page`,
`nand_write_oob_std`, `nand_erase_nand`, `nand_block_bad`, `nand_do_write_oob` and
`nand_default_block_markbad`.
-/

namespace Gp2Firmware.Mstar

open Gp2Firmware.Nand
open Gp2Firmware.Linux

/-- The chip as `nand_scan` finds it, behind the controller, and whether a DMA can go
to `chip->buffers->databuf`. -/
structure Board where
  g : Geometry
  hw : Hw
  dataBufAligned : Bool
  writesize_eq : g.writesize = hw.pageSize

/-- How the job that fetched a page ended, and whether a sector of the page had been
programmed. -/
structure Fetch where
  status : NcrwStatus
  programmed : Bool

/-- The state behind the `mtd_info`.  The last field is no variable: it is about the
page in `dataBuf`. -/
structure Mtd where
  driver : Driver
  bbm : Bbm
  pagebuf : Option Nat
  dataBuf : Nat → U8
  oobPoi : Nat → U8
  fetched : Fetch

/-- `EROFS` -/
def erofs : Int := 30

/-- `status & NAND_STATUS_FAIL` -/
def statusFails (status : BitVec 32) : Bool :=
  status &&& nandStatusFail.setWidth 32 != 0

theorem Driver.wait_passes (d : Driver) : statusFails d.wait.1 = false := by
  change statusFails 0 = false
  decide

variable (b : Board)

namespace Mtd

/-! ### Programming -/

/-- What `nand_write_page_hwecc` makes of `oob_poi`.  `_titania_nand_calculate_ecc`
gives erased bytes. -/
def eccFilled (oobPoi : Nat → U8) (raw : Bool) : Nat → U8 := fun k =>
  if raw = false ∧ eccColumn k then 0xFF else oobPoi k

/-- `nand_write_page` -/
def nandWritePage (m : Mtd) (buf : Nat → U8) (page : Nat) (raw : Bool) : Int × Mtd :=
  let waited :=
    ((m.driver.pageLoaded b.hw page buf (eccFilled m.oobPoi raw)).pageProgram
      b.hw).wait
  (if statusFails waited.1 then -eio else 0,
    { m with driver := waited.2, oobPoi := eccFilled m.oobPoi raw })

/-- `nand_write_oob_std` -/
def nandWriteOobStd (m : Mtd) (page : Nat) : Int × Mtd :=
  let waited :=
    ((m.driver.spareLoaded b.hw page m.oobPoi).pageProgram b.hw).wait
  (if statusFails waited.1 then -eio else 0, { m with driver := waited.2 })

theorem nandWritePage_ret (m : Mtd) (buf : Nat → U8) (page : Nat) (raw : Bool) :
    (m.nandWritePage b buf page raw).1 = 0 :=
  if_neg (Bool.not_eq_true _ ▸ Driver.wait_passes _)

theorem nandWriteOobStd_ret (m : Mtd) (page : Nat) :
    (m.nandWriteOobStd b page).1 = 0 :=
  if_neg (Bool.not_eq_true _ ▸ Driver.wait_passes _)

/-- `nand_check_wp` -/
def nandCheckWp (m : Mtd) : Bool × Mtd :=
  let answer := (m.driver.readStatus b.hw).readByte
  (answer.1 &&& nandStatusWp == 0, { m with driver := answer.2 })

/-! ### Erasing -/

/-- One block of the loop of `nand_erase_nand`, and the `FAIL` bit.  `bad` answers
for `chip->block_bad`. -/
def eraseTurn (bad : Nat → Bool) (m : Mtd) (page : Nat) : Bool × Mtd :=
  let adjusted := erasePage b.g { ChipBehaviour.sound with blockBad := bad } m.bbm page
  let page := adjusted.1
  let waited :=
    ((m.driver.erase1 (page &&& b.g.pagemask)).erase2 b.hw b.g.pagesPerBlock).wait
  (statusFails waited.1,
    { m with
      driver := waited.2
      bbm := adjusted.2
      pagebuf := m.pagebuf.filter
        fun cached => ¬ (page ≤ cached ∧ cached < page + b.g.pagesPerBlock) })

/-- The loop of `nand_erase_nand`, by the number of blocks left. -/
def eraseLoop (bad : Nat → Nat → Bool) :
    (left page : Nat) → EraseInfo → Mtd → EraseInfo × Mtd
  | 0, _, instr, m => ({ instr with state := EraseState.done }, m)
  | left + 1, page, instr, m =>
      let turn := m.eraseTurn b (bad left) page
      if turn.1 then
        ({ instr with
            state := EraseState.failed
            failAddr :=
              (erasePage b.g { ChipBehaviour.sound with blockBad := bad left } m.bbm
                page).1 <<< b.g.pageShift },
          turn.2)
      else eraseLoop bad left (page + b.g.pagesPerBlock) instr turn.2

/-- Whether `nand_erase_nand` takes a request. -/
def EraseTaken (instr : EraseInfo) : Prop :=
  instr.addr &&& (2 ^ b.g.physEraseShift - 1) = 0 ∧
    instr.len &&& (2 ^ b.g.physEraseShift - 1) = 0 ∧
    instr.len + instr.addr ≤ b.g.size

instance (instr : EraseInfo) : Decidable (EraseTaken b instr) :=
  inferInstanceAs (Decidable (_ ∧ _))

/-- `nand_erase_nand` behind its checks of the request. -/
def eraseBlocks (bad : Nat → Nat → Bool) (m : Mtd) (instr : EraseInfo) :
    EraseInfo × Mtd :=
  let checked := m.nandCheckWp b
  if checked.1 then
    ({ instr with failAddr := 0xffffffff, state := EraseState.failed }, checked.2)
  else
    checked.2.eraseLoop b bad (instr.len >>> b.g.physEraseShift)
      (instr.addr >>> b.g.pageShift)
      { instr with failAddr := 0xffffffff, state := EraseState.erasing }

/-- `nand_erase_nand` -/
def nandEraseNand (bad : Nat → Nat → Bool) (m : Mtd) (instr : EraseInfo) :
    Int × EraseInfo × Mtd :=
  if EraseTaken b instr then
    let erased := m.eraseBlocks b bad instr
    (if erased.1.state = EraseState.done then 0 else -eio, erased)
  else (-einval, instr, m)

/-! ### Bad blocks -/

/-- `nand_block_bad` with `badblockpos` 0. -/
def nandBlockBad (m : Mtd) (ofs : Nat) : Int × Mtd :=
  let answer :=
    (m.driver.readOob b.hw (ofs >>> b.g.pageShift &&& b.g.pagemask) 0).readByte
  (if answer.1 ≠ 0xFF then 1 else 0, { m with driver := answer.2 })

/-- The page cache and `oob_poi` as `nand_do_write_oob` leaves them for `write_oob`,
with `MTD_OOB_PLACE`. -/
def oobFilled (m : Mtd) (page : Nat) (oob : Nat → U8) (ooboffs ooblen : Nat) : Mtd :=
  { m with
    pagebuf := m.pagebuf.filter fun cached => page ≠ cached
    oobPoi := fun k =>
      if ooboffs ≤ k ∧ k < ooboffs + ooblen then oob (k - ooboffs) else 0xFF }

/-- `nand_do_write_oob` behind the lookup of its page. -/
def writeOobPage (m : Mtd) (page : Nat) (oob : Nat → U8) (ooboffs ooblen : Nat) :
    Int × Mtd :=
  let checked := nandCheckWp b { m with driver := m.driver.runJob }
  if checked.1 then (-erofs, checked.2)
  else
    let written :=
      (checked.2.oobFilled page oob ooboffs ooblen).nandWriteOobStd b
        (page &&& b.g.pagemask)
    (written.1, { written.2 with oobPoi := fun _ => 0xFF })

/-- `nand_do_write_oob` with `MTD_OOB_PLACE` -/
def nandDoWriteOob (m : Mtd) (ofs : Nat) (oob : Nat → U8) (ooboffs ooblen : Nat) :
    Int × Mtd :=
  if b.hw.spareSize < ooboffs + ooblen ∨ b.hw.spareSize ≤ ooboffs then (-einval, m)
  else if b.g.size ≤ ofs ∨
      ((b.g.size >>> b.g.pageShift) - (ofs >>> b.g.pageShift)) * b.hw.spareSize <
        ooboffs + ooblen then (-einval, m)
  else
    m.writeOobPage b (nandBbmAdjust b.g m.bbm ofs >>> b.g.pageShift) oob ooboffs ooblen

/-- `nand_default_block_markbad` with `badblockpos` 0.  There is no bad-block
table. -/
def nandDefaultBlockMarkbad (m : Mtd) (ofs : Nat) : Int × Mtd :=
  m.nandDoWriteOob b (ofs + b.hw.spareSize) (fun _ => 0) 0 2

/-! ### A start -/

/-- The driver and the kernel behind a start, with an erased chip. -/
def fresh (g : Geometry) : Mtd where
  driver :=
    { flash := fun _ => .erased
      row := 0
      eraseRow := 0
      rspBuf := fun _ => 0
      stPageBuffer := fun _ => 0
      byteIdxofPage := 0
      cifIndex := 0
      tWriteLen := 0
      preSource := 0
      isEccFail := 0
      jobs := 0
      writes := 0
      failed := false
      programmed := fun _ => false }
  bbm := nandBbmInfoInit g Bbm.boot
  pagebuf := none
  dataBuf := fun _ => 0xFF
  oobPoi := fun _ => 0xFF
  fetched := ⟨.ok, false⟩

end Mtd

/-- Large pages, and jobs that all end well. -/
def goodHw : Hw where
  flash2kpage := true
  job := fun _ => ⟨false, false, false, 0xC0, none⟩
  write := fun _ => ⟨false, 0xC0, none⟩
  ecc := fun _ _ => 0xFF

theorem goodHw_sound : goodHw.Sound :=
  ⟨fun _ => rfl, fun _ => rfl⟩

/-- A chip of 128 MiB behind such a controller. -/
def goodBoard : Board := ⟨nand128MiB, goodHw, true, by decide⟩

end Gp2Firmware.Mstar
