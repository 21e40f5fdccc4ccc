import Mathlib.Data.List.Range
import Mathlib.Logic.Function.Basic

/-!
# The MStar NAND driver

The functions of `drvNAND.c` that the kernel calls through `chip->cmdfunc`,
`chip->read_buf` and `chip->write_buf`: a page buffer with one cursor, the response
buffer of the controller, and jobs whose results are mostly dropped.  The controller
keeps spare bytes 16 i to 16 i + 15 with sector i and exchanges them at the response
buffer.
-/

namespace Gp2Firmware.Mstar

/-- `U8` -/
abbrev U8 := BitVec 8

/-- A page: its data bytes, 512 to a sector, and its spare bytes, 16 to a sector. -/
structure Cells where
  data : Nat → U8
  spare : Nat → U8

/-- An erased page. -/
def Cells.erased : Cells := ⟨fun _ => 0xFF, fun _ => 0xFF⟩

/-- A program clears bits. -/
def Cells.program (old given : Cells) : Cells :=
  ⟨fun k => old.data k &&& given.data k, fun k => old.spare k &&& given.spare k⟩

/-- The byte at a column of the chip, where each sector stands before its spare
bytes. -/
def Cells.byteAt (cells : Cells) (column : Nat) : U8 :=
  if column % 0x210 < 0x200 then
    cells.data (0x200 * (column / 0x210) + column % 0x210)
  else cells.spare (16 * (column / 0x210) + (column % 0x210 - 0x200))

/-- `NCRW_STATUS` -/
inductive NcrwStatus where
  | ok
  | eccError
  | timeout
  deriving DecidableEq

/-- What becomes of a job that reads: `R_NC_JOB_END` does not come in time; the ECC
flags of `NC_STAT`; the status register of the chip; and what arrives, where that is
not what the page has. -/
structure Job where
  timeout : Bool
  eccFlag1 : Bool
  eccFlag0 : Bool
  status : U8
  arrives : Option Cells

/-- What becomes of a program or an erase: `R_NC_JOB_END` does not come in time for
one of its jobs; the status register of the chip behind it; and what the pages have
then, where that is not what was asked for. -/
structure WriteJob where
  timeout : Bool
  status : U8
  leaves : Option (Nat → Cells)

/-- The controller and the chip: `FLASH_2KPAGE`, the jobs by their number, and the
ECC bytes for a page that is programmed. -/
structure Hw where
  flash2kpage : Bool
  job : Nat → Job
  write : Nat → WriteJob
  ecc : Cells → Nat → U8

/-- The number of data bytes of a page. -/
def Hw.pageSize (hw : Hw) : Nat := if hw.flash2kpage then 0x800 else 0x200

/-- The number of spare bytes of a page. -/
def Hw.spareSize (hw : Hw) : Nat := if hw.flash2kpage then 64 else 16

/-- The variables of the driver, the response buffer, the numbers of the next jobs,
and the chip.  The last fields are not variables: whether a program or an erase has
failed, and the pages of which a sector has been programmed. -/
structure Driver where
  flash : Nat → Cells
  row : Nat
  eraseRow : Nat
  rspBuf : Nat → U8
  stPageBuffer : Nat → U8
  byteIdxofPage : Nat
  cifIndex : U8
  tWriteLen : Nat
  preSource : Nat
  isEccFail : U8
  jobs : Nat
  writes : Nat
  failed : Bool
  programmed : Nat → Bool

/-- `NAND_STATUS_FAIL` -/
def nandStatusFail : U8 := 0x01

/-- `NAND_STATUS_WP` -/
def nandStatusWp : U8 := 0x80

/-- `NCRW_STS_TIMEOUT`, or the `FAIL` bit. -/
def WriteJob.fails (job : WriteJob) : Bool :=
  job.timeout || job.status &&& nandStatusFail != 0

/-- A spare column that holds ECC bytes. -/
def eccColumn (column : Nat) : Bool := 6 ≤ column % 16

/-- `drvNAND_wNCJOBEND` -/
def wNcJobEnd (job : Job) (mmaEnd : Bool) : NcrwStatus :=
  if job.timeout then .timeout
  else if mmaEnd && job.eccFlag1 && !job.eccFlag0 then .eccError
  else .ok

variable (hw : Hw)

namespace Driver

/-- A job whose result is not looked at. -/
def runJob (d : Driver) : Driver := { d with jobs := d.jobs + 1 }

/-! ### Reading -/

/-- `MDrv_NAND_SendCmdAdr(NAND_CMD_READ0)`, and `NAND_CMD_READSTART` for large
pages. -/
def sendRead0 (d : Driver) (page : Nat) : Driver :=
  { (if hw.flash2kpage then d.runJob.runJob else d.runJob) with row := page }

/-- What a read job transfers. -/
def transferred (d : Driver) (row : Nat) : Cells :=
  (hw.job d.jobs).arrives.getD (d.flash row)

/-- `drvNAND_ReadRdd`: sixteen bytes from a column.  `OP_CMD50_READ_RDD` has no
column and starts at the spare bytes. -/
def readRdd (d : Driver) (row column : Nat) : Driver :=
  { d.runJob with
    row := row
    rspBuf := fun i =>
      if i < 16 then
        (d.transferred hw row).byteAt
          ((if hw.flash2kpage then column else 0x200) + i)
      else d.rspBuf i }

/-- One sector of `MDrv_NAND_ReadOOB`. -/
def readGroup (d : Driver) (row sector : Nat) : Driver :=
  let d := d.readRdd hw row (0x200 + 0x210 * sector)
  { d with
    stPageBuffer := fun k =>
      if 16 * sector ≤ k ∧ k < 16 * sector + 16 then d.rspBuf (k - 16 * sector)
      else d.stPageBuffer k }

/-- `MDrv_NAND_ReadOOB` -/
def readOob (d : Driver) (row column : Nat) : Driver :=
  let d := { d with byteIdxofPage := 0, cifIndex := BitVec.ofNat 8 column }
  if hw.flash2kpage then
    (((d.readGroup hw row 0).readGroup hw row 1).readGroup hw row 2).readGroup hw row 3
  else d.readGroup hw row 0

/-- The number of sectors of a DMA, `NC_JOB_BL_CNT`. -/
def dmaSectors (len : Nat) : Nat := if len ≤ 0x210 then 1 else 4

/-- Whether `MDrv_NAND_ReadBuf` starts a DMA. -/
def DmaLength (len : Nat) : Prop :=
  len = 0x200 ∨ len = 0x210 ∨ len = 0x800 ∨ len = 0x840

instance (len : Nat) : Decidable (DmaLength len) :=
  inferInstanceAs (Decidable (_ ∨ _))

/-- The response buffer behind a DMA. -/
def dmaRspBuf (d : Driver) (len : Nat) : Nat → U8 := fun i =>
  if i < 16 * dmaSectors len then (d.transferred hw d.row).spare i else d.rspBuf i

/-- The bytes of a DMA, and behind them those of the response buffer. -/
def dmaBytes (d : Driver) (len : Nat) : Nat → U8 := fun k =>
  if k < 0x200 * dmaSectors len then (d.transferred hw d.row).data k
  else d.dmaRspBuf hw len (k - 0x200 * dmaSectors len)

/-- `gu8_IS_ECC_Fail` behind a DMA.  A page whose first ECC bytes are erased is taken
for empty. -/
def eccFailOf (status : NcrwStatus) (rspBuf : Nat → U8) : U8 :=
  if status = .eccError then
    if ∀ i ∈ List.range' 6 10, rspBuf i = 0xFF then 0 else -1
  else 0

/-- `MDrv_NAND_ReadBuf`.  A DMA goes to the caller's buffer, or through the page
buffer when that is not aligned.  A small page is followed by the next one. -/
def readBuf (d : Driver) (aligned : Bool) (len : Nat) : (Nat → U8) × Driver :=
  if DmaLength len then
    (d.dmaBytes hw len,
      { d.runJob with
        row := if hw.flash2kpage then d.row else d.row + 1
        byteIdxofPage := len
        rspBuf := d.dmaRspBuf hw len
        stPageBuffer := fun k =>
          if aligned = false ∧ k < len then d.dmaBytes hw len k else d.stPageBuffer k
        isEccFail :=
          eccFailOf (wNcJobEnd (hw.job d.jobs) true) (d.dmaRspBuf hw len) })
  else (fun k => d.stPageBuffer (d.byteIdxofPage + k), d)

/-- `MDrv_NAND_ReadByte` -/
def readByte (d : Driver) : U8 × Driver :=
  (d.rspBuf d.cifIndex.toNat, { d with cifIndex := d.cifIndex + 1 })

/-- `_titania_nand_correct_data`.  `MDrv_NAND_CheckECC` returns a `U8`. -/
def correctData (d : Driver) : Int := d.isEccFail.toNat

/-- `MDrv_NAND_Send_Read_Status_CMD` -/
def readStatus (d : Driver) : Driver :=
  { d.runJob with
    cifIndex := 0
    rspBuf := Function.update d.rspBuf 0 (hw.job d.jobs).status }

/-! ### Writing -/

/-- `MDrv_NAND_WritePage` -/
def writePage (d : Driver) (row column : Nat) : Driver :=
  { d with byteIdxofPage := column, tWriteLen := 0, preSource := row }

/-- `MDrv_NAND_WriteBuf` -/
def writeBuf (d : Driver) (buf : Nat → U8) (len : Nat) : Driver :=
  { d with
    stPageBuffer := fun k =>
      if d.byteIdxofPage ≤ k ∧ k < d.byteIdxofPage + len then
        buf (k - d.byteIdxofPage)
      else if d.tWriteLen = 0 ∧ hw.pageSize ≤ d.byteIdxofPage ∧
          k < hw.pageSize + hw.spareSize then 0xFF
      else d.stPageBuffer k
    byteIdxofPage := d.byteIdxofPage + len
    tWriteLen := d.tWriteLen + len }

/-- `NAND_CMD_SEQIN` at column 0, and the transfers of a whole page. -/
def pageLoaded (d : Driver) (row : Nat) (data oob : Nat → U8) : Driver :=
  ((d.writePage row 0).writeBuf hw data hw.pageSize).writeBuf hw oob hw.spareSize

/-- `NAND_CMD_SEQIN` behind the data, and the transfer of the spare bytes. -/
def spareLoaded (d : Driver) (row : Nat) (oob : Nat → U8) : Driver :=
  (d.writePage row hw.pageSize).writeBuf hw oob hw.spareSize

/-- Whether `MDrv_NAND_Cmd_PageProgram` puts spare bytes of the chip into the page
buffer.  It looks at five bytes, which for large pages are not the first five. -/
def KeepsSpare (d : Driver) : Prop :=
  (∀ i ∈ List.range' (if hw.flash2kpage then 1 else 0) 5,
    d.stPageBuffer (hw.pageSize + i) = 0xFF) ∧
    d.tWriteLen = hw.pageSize + hw.spareSize

instance (d : Driver) : Decidable (d.KeepsSpare hw) :=
  inferInstanceAs (Decidable (_ ∧ _))

/-- The first spare bytes of one sector are put into the page buffer. -/
def keepGroup (d : Driver) (sector : Nat) : Driver :=
  let d := d.readRdd hw d.preSource (0x200 + 0x210 * sector)
  { d with
    stPageBuffer := fun k =>
      if hw.pageSize + 16 * sector ≤ k ∧ k < hw.pageSize + 16 * sector + 5 then
        d.rspBuf (k - (hw.pageSize + 16 * sector))
      else d.stPageBuffer k }

/-- The page buffer as it is programmed.  For small pages there is a
`drvNAND_FLASHRESET`. -/
def staged (d : Driver) : Driver :=
  if d.KeepsSpare hw then
    if hw.flash2kpage then
      (((d.keepGroup hw 0).keepGroup hw 1).keepGroup hw 2).keepGroup hw 3
    else (d.keepGroup hw 0).runJob
  else d

/-- `ECC_ENABLE`, and the lengths for which the ECC is not bypassed.  The loop over
the page buffer clears it when every byte is erased. -/
def EccOn (d : Driver) : Prop :=
  (d.tWriteLen = 0x210 ∨ d.tWriteLen = 0x840) ∧
    ¬ ∀ k ∈ List.range (if hw.flash2kpage then 0x840 else 518), d.stPageBuffer k = 0xFF

instance (d : Driver) : Decidable (d.EccOn hw) := inferInstanceAs (Decidable (_ ∧ _))

/-- What the page buffer asks for. -/
def given (d : Driver) : Cells :=
  ⟨d.stPageBuffer, fun k => d.stPageBuffer (hw.pageSize + k)⟩

/-- What the controller sends to the chip. -/
def sent (d : Driver) : Cells :=
  { d.given hw with
    spare := fun k =>
      if d.EccOn hw ∧ eccColumn k then hw.ecc (d.given hw) k else (d.given hw).spare k }

/-- The program job. -/
def program (d : Driver) : Driver :=
  { d with
    rspBuf := fun i => if i < hw.spareSize then (d.given hw).spare i else d.rspBuf i
    flash := Function.update d.flash d.preSource
      (match (hw.write d.writes).leaves with
      | some cells => cells d.preSource
      | none => (d.flash d.preSource).program (d.sent hw))
    writes := d.writes + 1
    failed := d.failed || (hw.write d.writes).fails
    programmed := Function.update d.programmed d.preSource true }

/-- `MDrv_NAND_Cmd_PageProgram`.  The status of the job goes nowhere. -/
def pageProgram (d : Driver) : Driver := (d.staged hw).program hw

/-- `MDrv_NAND_Erase1` -/
def erase1 (d : Driver) (row : Nat) : Driver := { d with eraseRow := row }

/-- `MDrv_NAND_Erase2`.  Its result goes nowhere. -/
def erase2 (d : Driver) (pagesPerBlock : Nat) : Driver :=
  { d with
    flash := fun row =>
      if row / pagesPerBlock = d.eraseRow / pagesPerBlock then
        match (hw.write d.writes).leaves with
        | some cells => cells row
        | none => .erased
      else d.flash row
    writes := d.writes + 1
    failed := d.failed || (hw.write d.writes).fails
    programmed := fun row =>
      d.programmed row && row / pagesPerBlock != d.eraseRow / pagesPerBlock }

/-- `_titania_nand_wait`: the job waits, and the result is 0. -/
def wait (d : Driver) : BitVec 32 × Driver := (0, d.runJob)

end Driver

/-- The controller transfers and programs what it is asked to. -/
structure Hw.Sound (hw : Hw) : Prop where
  arrives_eq : ∀ n, (hw.job n).arrives = none
  leaves_eq : ∀ n, (hw.write n).leaves = none

end Gp2Firmware.Mstar
