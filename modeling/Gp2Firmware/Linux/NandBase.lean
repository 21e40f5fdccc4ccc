import Gp2Firmware.Lib.Loop
import Gp2Firmware.Nand.Flash
import Gp2Firmware.Nand.Translation

/-!
# The kernel's NAND functions

`nand_do_read_ops`, `nand_do_write_ops`, `nand_erase_nand` and
`nand_block_isbad` of the kernel's `nand_base.c`, for one chip with
`NAND_NO_AUTOINCR` and requests without a spare-area buffer, and
`nand_bbm_assign_block` with the block copy that the boot loader does not have.
A write is repeated until it succeeds, so its loop may go on for ever.
-/

namespace Gp2Firmware.Linux

open Gp2Firmware.Nand
open Gp2Firmware.Lib

/-- `EIO` -/
def eio : Int := 5

/-- `EINVAL` -/
def einval : Int := 22

/-- `EBADMSG` of MIPS -/
def ebadmsg : Int := 77

/-- `EUCLEAN` of MIPS -/
def euclean : Int := 135

/-- What `nand_scan_tail` sets up besides the shifts: `mtd->subpage_sft`,
`mtd->oobsize`, and the columns of the spare area that `ecc.layout->oobfree`
lists. -/
structure NandLayout where
  subpageSft : Nat
  subpageSft_le : subpageSft ≤ 2
  oobsize : Nat
  oobFree : Nat → Bool

/-- `titania_nand_oob_64`, the layout of the 2 KiB pages.  The whole page is
one ECC step, so there are no subpages. -/
def titaniaNandOob64 : NandLayout where
  subpageSft := 0
  subpageSft_le := Nat.zero_le _
  oobsize := 64
  oobFree := fun column =>
    (1 ≤ column && column < 6) || (0x10 ≤ column && column < 0x16) ||
      (0x20 ≤ column && column < 0x26) || (0x30 ≤ column && column < 0x36)

/-- The state behind one `mtd_info`: the globals of the bad-block manager, the
array, the page buffer with the number of the page in it, and `oob_poi`, which
every write fills before it uses it. -/
structure Device where
  bbm : Bbm
  flash : Flash
  pagebuf : Option Nat
  dataBuf : Page
  oobPoi : Page

/-- The device at power on, with an erased chip. -/
def Device.powerOn : Device where
  bbm := Bbm.boot
  flash := Flash.erased
  pagebuf := none
  dataBuf := ⊤
  oobPoi := ⊤

variable (g : Geometry) (layout : NandLayout) (chip : ChipBehaviour)

/-! ### Reading -/

/-- What `chip->ecc.read_page` leaves for one page: its return value, the data
in the buffer, and what it added to `ecc_stats`. -/
structure Fetched where
  ret : Int
  data : Page
  failed : Nat
  corrected : Nat

/-- The state of the loop of `nand_do_read_ops`. -/
structure ReadState where
  device : Device
  buf : Nat → Byte
  bufAt : Nat
  readlen : Nat
  realpage : Nat
  col : Nat
  ret : Int
  failed : Nat
  corrected : Nat

/-- `memcpy(buf, data + col, bytes)` -/
def copyOut (buf : Nat → Byte) (bufAt : Nat) (data : Page) (col bytes : Nat) :
    Nat → Byte :=
  fun k =>
    if bufAt ≤ k ∧ k < bufAt + bytes then data (col + (k - bufAt)) else buf k

/-- One turn of the loop: one page of the request.  A page is read from the
chip unless it is the one in the buffer. -/
def readTurn (fetch : Nat → Nat → Fetched) (r : ReadState) : ReadState :=
  let d := r.device
  let page := adjustPage g d.bbm (r.realpage &&& g.pagemask)
  let bytes := min (g.writesize - r.col) r.readlen
  let aligned := bytes = g.writesize
  if some r.realpage = d.pagebuf then
    { r with
      buf := copyOut r.buf r.bufAt d.dataBuf r.col bytes
      bufAt := r.bufAt + bytes
      readlen := r.readlen - bytes
      realpage := r.realpage + 1
      col := 0 }
  else
    let fetched := fetch r.realpage page
    let dataBuf := if aligned then d.dataBuf else fetched.data
    if fetched.ret < 0 then
      { r with
        device := { d with dataBuf := dataBuf }
        ret := fetched.ret
        failed := r.failed + fetched.failed
        corrected := r.corrected + fetched.corrected }
    else
      { device :=
          { d with
            pagebuf := if aligned then d.pagebuf else some r.realpage
            dataBuf := dataBuf }
        buf := copyOut r.buf r.bufAt fetched.data r.col bytes
        bufAt := r.bufAt + bytes
        readlen := r.readlen - bytes
        realpage := r.realpage + 1
        col := 0
        ret := fetched.ret
        failed := r.failed + fetched.failed
        corrected := r.corrected + fetched.corrected }

/-- The loop of `nand_do_read_ops`.  Every turn but the last reads at least
one byte, so one turn more than there are bytes is enough. -/
def readLoop (fetch : Nat → Nat → Fetched) : Nat → ReadState → ReadState
  | 0, r => r
  | turns + 1, r =>
      let r := readTurn g fetch r
      if r.ret < 0 ∨ r.readlen = 0 then r else readLoop fetch turns r

/-- What `nand_do_read_ops` leaves: the return value, `ops->retlen`, the
buffer and the device. -/
structure ReadResult where
  ret : Int
  retlen : Nat
  buf : Nat → Byte
  device : Device

/-- `nand_do_read_ops` with `oobbuf` null.  `fetch` says what `read_page` does
for a page of the request and the page of the chip it is read from. -/
def nandDoReadOps (fetch : Nat → Nat → Fetched) (d : Device) (start len : Nat)
    (buf : Nat → Byte) : ReadResult :=
  let r := readLoop g fetch (len + 1)
    { device := d
      buf := buf
      bufAt := 0
      readlen := len
      realpage := start >>> g.pageShift
      col := start &&& (g.writesize - 1)
      ret := 0
      failed := 0
      corrected := 0 }
  { ret :=
      if r.ret ≠ 0 then r.ret
      else if r.failed ≠ 0 then -ebadmsg
      else if r.corrected ≠ 0 then -euclean
      else 0
    retlen := len - r.readlen
    buf := r.buf
    device := r.device }

/-- `read_page` on an array without bit errors. -/
def Device.fetch (d : Device) (_ page : Nat) : Fetched where
  ret := 0
  data := d.flash.data page
  failed := 0
  corrected := 0

/-! ### The block copy and the assignment -/

/-- `nand_bbm_check_empty`; the lengths are multiples of a word. -/
def nandBbmCheckEmpty (buf : Page) (length : Nat) : Bool :=
  (List.range length).all fun column => decide (buf column = ⊤)

/-- `nand_bbm_fill_oob` -/
def nandBbmFillOob (oobPoi oob : Page) : Page :=
  fun column => if layout.oobFree column then oob column else oobPoi column

/-- `nand_bbm_write_oob`.  `SEQIN` at the first spare column leaves the data
area alone. -/
def nandBbmWriteOob (d : Device) (page : Nat) : Int × Device :=
  let programmed := d.flash.programPage chip page ⊤ d.oobPoi
  (if programmed.1 then -eio else 0, { d with flash := programmed.2 })

/-- `nand_bbm_write_page`, and `nand_write_page` without verification, which
does the same. -/
def nandWritePage (d : Device) (page : Nat) (data : Page) : Int × Device :=
  let programmed := d.flash.programPage chip page data d.oobPoi
  (if programmed.1 then -eio else 0, { d with flash := programmed.2 })

/-- `nand_bbm_erase_block`; its status goes unused. -/
def nandBbmEraseBlock (d : Device) (pos : Nat) : Device :=
  { d with
    flash := (d.flash.eraseBlock g chip
      (pos >>> g.pageShift &&& g.pagemask)).2 }

/-- The spare area of one page of `nand_bbm_copy_block`; the status goes
unused. -/
def copySpare (oob : Page) (page : Nat) (d : Device) : Device :=
  if nandBbmCheckEmpty oob layout.oobsize then d
  else
    (nandBbmWriteOob chip { d with oobPoi := nandBbmFillOob layout ⊤ oob } page).2

/-- The data area of one page of `nand_bbm_copy_block`. -/
def copyData (data : Page) (page : Nat) (d : Device) : Int × Device :=
  if nandBbmCheckEmpty data g.writesize then (0, d)
  else nandWritePage chip { d with oobPoi := ⊤ } page data

/-- The loop of `nand_bbm_copy_block` that writes the dumped pages, by the
number of pages left. -/
def copyLoop (dump : Flash) (source target : Nat) :
    (left i : Nat) → Device → Int × Device
  | 0, _, d => (0, d)
  | left + 1, i, d =>
      let copied := copyData g chip (dump.data (source + i)) (target + i)
        (copySpare layout chip (dump.spare (source + i)) (target + i) d)
      if copied.1 ≠ 0 then copied
      else copyLoop dump source target left (i + 1) copied.2

/-- `nand_bbm_copy_block` -/
def nandBbmCopyBlock (d : Device) (badpos redirpos : Nat) : Int × Device :=
  copyLoop g layout chip d.flash (badpos >>> g.pageShift)
    (redirpos >>> g.pageShift) g.pagesPerBlock 0 d

/-- `nand_bbm_assign_block`.  Neither the erase nor the copy is checked. -/
def nandBbmAssignBlock (d : Device) (badpos : Nat) (blkcopy : Bool) :
    Nat × Device :=
  match Nand.assignLoop g chip.blockBad badpos d.bbm.assignIndex
      (d.bbm.setCheck false) with
  | (none, s) => (badpos, { d with bbm := s })
  | (some pos, s) =>
      let d := { d with bbm := s }
      let d :=
        if blkcopy then
          (nandBbmCopyBlock g layout chip (nandBbmEraseBlock g chip d pos)
            (g.blockPos (g.blockIndex badpos)) pos).2
        else d
      (pos, { d with bbm := d.bbm.setCheck true })

/-! ### Writing -/

/-- The state of the loop of `nand_do_write_ops`. -/
structure WriteState where
  device : Device
  bufAt : Nat
  writelen : Nat
  realpage : Nat
  page : Nat
  column : Nat

/-- What `nand_do_write_ops` leaves. -/
structure WriteResult where
  ret : Int
  retlen : Nat
  device : Device

/-- The test for a partial page. -/
def partialPage (w : WriteState) : Prop :=
  w.column ≠ 0 ∨ w.writelen < g.writesize - 1

instance (w : WriteState) : Decidable (partialPage g w) :=
  inferInstanceAs (Decidable (_ ∨ _))

/-- The number of bytes that go into the page. -/
def writeBytes (w : WriteState) : Nat :=
  if partialPage g w then min (g.writesize - w.column) w.writelen
  else g.writesize

/-- `wbuf`: the caller's bytes, in a partial page with ones around them. -/
def writeData (buf : Nat → Byte) (w : WriteState) : Page :=
  if partialPage g w then
    copyOut ⊤ w.column (fun column => buf (w.bufAt + column)) 0 (writeBytes g w)
  else fun column => buf (w.bufAt + column)

/-- The device before the page is written.  A partial page goes through the
page buffer. -/
def writeDevice (buf : Nat → Byte) (w : WriteState) : Device :=
  if partialPage g w then
    { w.device with pagebuf := none, dataBuf := writeData g buf w }
  else w.device

/-- One turn of the loop of `nand_do_write_ops`.  When the page cannot be
written, a reserve block is assigned and the same page is tried again. -/
def writeTurn (buf : Nat → Byte) (len : Nat) (w : WriteState) :
    WriteState ⊕ WriteResult :=
  let d := writeDevice g buf w
  let written := nandWritePage chip d (adjustPage g d.bbm w.page)
    (writeData g buf w)
  if written.1 ≠ 0 then
    .inl { w with
      device := (nandBbmAssignBlock g layout chip written.2
        (nandBbmAdjust g d.bbm (w.page <<< g.pageShift)) true).2 }
  else if w.writelen - writeBytes g w = 0 then .inr ⟨0, len, written.2⟩
  else
    .inl
      { device := written.2
        bufAt := w.bufAt + writeBytes g w
        writelen := w.writelen - writeBytes g w
        realpage := w.realpage + 1
        page := (w.realpage + 1) &&& g.pagemask
        column := 0 }

/-- The page cache before the loop: dropped if the request covers the first
byte of the cached page. -/
def writeInvalidate (d : Device) (start len : Nat) : Device :=
  { d with
    pagebuf := d.pagebuf.filter fun cached =>
      ¬ (start ≤ cached <<< g.pageShift ∧
        cached <<< g.pageShift < start + len) }

/-- The state in which the loop is entered. -/
def writeStart (d : Device) (start len : Nat) : WriteState where
  device := { writeInvalidate g d start len with oobPoi := ⊤ }
  bufAt := 0
  writelen := len
  realpage := start >>> g.pageShift
  page := (start >>> g.pageShift) &&& g.pagemask
  column := start &&& (g.writesize - 1)

/-- The early exits of `nand_do_write_ops`. -/
def writeRefused (start len : Nat) : Option Int :=
  if len = 0 then some 0
  else if start &&& ((g.writesize >>> layout.subpageSft) - 1) ≠ 0 ∨
      len &&& ((g.writesize >>> layout.subpageSft) - 1) ≠ 0 then
    some (-einval)
  else if chip.writeProtected then some (-eio)
  else none

/-- `nand_do_write_ops` with `oobbuf` null, given up after a number of
turns. -/
def nandDoWriteOps (d : Device) (start len : Nat) (buf : Nat → Byte)
    (turns : Nat) : Option WriteResult :=
  match writeRefused g layout chip start len with
  | some ret => some ⟨ret, 0, d⟩
  | none =>
      Loop.run (writeTurn g layout chip buf len) turns (writeStart g d start len)

/-- `nand_do_write_ops` returns. -/
def WriteReturns (d : Device) (start len : Nat) (buf : Nat → Byte)
    (result : WriteResult) : Prop :=
  ∃ turns, nandDoWriteOps g layout chip d start len buf turns = some result

/-! ### Erasing and asking -/

/-- The page that `nand_erase_nand` goes to for a block, and the map after it
has looked. -/
def erasePage (s : Bbm) (page : Nat) : Nat × Bbm :=
  if s.nandBbmCheck then
    let adjusted := nandBbmAdjustCheck g chip.blockBad s (page <<< g.pageShift)
    (adjusted.1 >>> g.pageShift &&& g.pagemask, adjusted.2)
  else (page, s)

/-- One block of the loop of `nand_erase_nand`, and the `FAIL` bit. -/
def eraseTurn (d : Device) (page : Nat) : Bool × Device :=
  let adjusted := erasePage g chip d.bbm page
  let page := adjusted.1
  let erased := d.flash.eraseBlock g chip (page &&& g.pagemask)
  (erased.1,
    { d with
      bbm := adjusted.2
      flash := erased.2
      pagebuf := d.pagebuf.filter
        fun cached => ¬ (page ≤ cached ∧ cached < page + g.pagesPerBlock) })

/-- The loop of `nand_erase_nand`, by the number of blocks left. -/
def eraseLoop :
    (left page : Nat) → EraseInfo → Device → EraseInfo × Device
  | 0, _, instr, d => ({ instr with state := EraseState.done }, d)
  | left + 1, page, instr, d =>
      let turn := eraseTurn g chip d page
      if turn.1 then
        ({ instr with
            state := EraseState.failed
            failAddr := (erasePage g chip d.bbm page).1 <<< g.pageShift },
          turn.2)
      else eraseLoop left (page + g.pagesPerBlock) instr turn.2

/-- What `nand_erase_nand` leaves. -/
structure EraseResult where
  ret : Int
  instr : EraseInfo
  device : Device

/-- `nand_erase_nand`.  There is no bad-block table, so `allowbbt` plays no
part. -/
def nandEraseNand (d : Device) (instr : EraseInfo) : EraseResult :=
  if instr.addr &&& (2 ^ g.physEraseShift - 1) ≠ 0 then ⟨-einval, instr, d⟩
  else if instr.len &&& (2 ^ g.physEraseShift - 1) ≠ 0 then ⟨-einval, instr, d⟩
  else if g.size < instr.len + instr.addr then ⟨-einval, instr, d⟩
  else
    let instr := { instr with failAddr := 0xffffffff }
    let finished :=
      if chip.writeProtected then
        ({ instr with state := EraseState.failed }, d)
      else
        eraseLoop g chip (instr.len >>> g.physEraseShift)
          (instr.addr >>> g.pageShift)
          { instr with state := EraseState.erasing } d
    ⟨if finished.1.state = EraseState.done then 0 else -eio,
      finished.1, finished.2⟩

/-- `nand_block_isbad` -/
def nandBlockIsbad (d : Device) (ofs : Nat) : Int × Device :=
  if g.size < ofs then (-einval, d)
  else
    let adjusted := nandBbmAdjustCheck g chip.blockBad d.bbm ofs
    (if chip.blockBad adjusted.1 then 1 else 0, { d with bbm := adjusted.2 })

/-- The device after `nand_bbm_info_init`. -/
def Device.infoInit (d : Device) : Device :=
  { d with bbm := nandBbmInfoInit g d.bbm }

end Gp2Firmware.Linux
