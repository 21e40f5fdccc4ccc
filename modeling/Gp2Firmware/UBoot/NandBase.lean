import Gp2Firmware.Nand.Flash
import Gp2Firmware.Nand.Translation

/-!
# The boot loader's NAND functions

`nand_read_ecc`, `nand_write_ecc`, `nand_erase_nand` and `nand_block_isbad` of
`nand_base.c`, for one chip with automatic placement of the ECC bytes and no
spare-area buffer from the caller.  Each call gets the behaviour of the chip
while it runs.
-/

namespace Gp2Firmware.UBoot

open Gp2Firmware.Nand

/-- `EIO` -/
def eio : Int := 5

/-- `EINVAL` -/
def einval : Int := 22

/-- `EBADMSG` -/
def ebadmsg : Int := 74

/-- The commands that carry a page address. -/
inductive ChipCmd where
  | read0 (page : Nat)
  | seqin (page : Nat)
  | erase (page : Nat)
  deriving DecidableEq

/-- The state behind one `mtd_info`: the globals of the bad-block manager, the
array, the page buffer with the number of the page in it, and the commands
sent to the chip so far, the latest first. -/
structure Device where
  bbm : Bbm
  flash : Flash
  pagebuf : Option Nat
  dataBuf : Page
  sent : List ChipCmd

/-- The device at power on, with an erased chip. -/
def Device.powerOn : Device where
  bbm := Bbm.boot
  flash := Flash.erased
  pagebuf := none
  dataBuf := ⊤
  sent := []

variable (g : Geometry) (chip : ChipBehaviour)

/-- The state of a `nand_read_ecc` loop. -/
structure ReadState where
  device : Device
  buf : Nat → Byte
  read : Nat
  realpage : Nat
  col : Nat
  eccFailed : Nat

/-- One page of `nand_read_ecc`. -/
def readTurn (len : Nat) (r : ReadState) : ReadState :=
  let d := r.device
  let page := adjustPage g d.bbm (r.realpage &&& g.pagemask)
  let aligned := r.col = 0 ∧ g.writesize ≤ len - r.read
  let cached := some r.realpage = d.pagebuf
  let data :=
    if cached then d.dataBuf
    else (chip.misread page).getD (d.flash.data page)
  let count :=
    if aligned then g.writesize else min (g.writesize - r.col) (len - r.read)
  { device :=
      { d with
        pagebuf := if aligned then d.pagebuf else some r.realpage
        dataBuf := if aligned then d.dataBuf else data
        sent := if cached then d.sent else ChipCmd.read0 page :: d.sent }
    buf := fun k =>
      if r.read ≤ k ∧ k < r.read + count then data (r.col + (k - r.read))
      else r.buf k
    read := r.read + count
    realpage := r.realpage + 1
    col := 0
    eccFailed :=
      if ¬ cached ∧ (chip.misread page).isSome then r.eccFailed + 1
      else r.eccFailed }

/-- The loop of `nand_read_ecc`.  Every turn reads at least one byte, so `len`
turns are enough. -/
def readLoop (len : Nat) : Nat → ReadState → ReadState
  | 0, r => r
  | turns + 1, r =>
      if r.read < len then readLoop len turns (readTurn g chip len r) else r

/-- What `nand_read_ecc` leaves: the return value, `*retlen`, the caller's
buffer and the device. -/
structure ReadResult where
  ret : Int
  retlen : Nat
  buf : Nat → Byte
  device : Device

/-- `nand_read_ecc` with `oob_buf` and `oobsel` null, that is `nand_read`. -/
def nandReadEcc (d : Device) (ofs len : Nat) (buf : Nat → Byte) : ReadResult :=
  if g.size < ofs + len then ⟨-einval, 0, buf, d⟩
  else
    let r := readLoop g chip len len
      { device := d
        buf := buf
        read := 0
        realpage := ofs >>> g.pageShift
        col := ofs &&& (g.writesize - 1)
        eccFailed := 0 }
    ⟨if r.eccFailed = 0 then 0 else -ebadmsg, r.read, r.buf, r.device⟩

/-- `nand_write_page`, with a spare area of ones. -/
def nandWritePage (d : Device) (page : Nat) (data : Page) : Int × Device :=
  let programmed := d.flash.programPage chip page data ⊤
  (if programmed.1 then -eio else 0,
    { d with
      flash := programmed.2
      sent := ChipCmd.seqin page :: d.sent })

/-- What `nand_write_ecc` leaves. -/
structure WriteResult where
  ret : Int
  retlen : Nat
  device : Device

/-- The loop of `nand_write_ecc`, by the number of pages left. -/
def writeLoop (buf : Nat → Byte) :
    (left page written retlen : Nat) → Device → WriteResult
  | 0, _, written, _, d => ⟨0, written, d⟩
  | left + 1, page, written, retlen, d =>
      let data : Page := fun column => buf (written + column)
      let done := nandWritePage chip d (adjustPage g d.bbm page) data
      if done.1 ≠ 0 then ⟨done.1, retlen, done.2⟩
      else if (page + 1) &&& (g.pagesPerBlock - 1) = 0 then
        writeLoop buf left ((page + 1) &&& g.pagemask)
          (written + g.writesize) (written + g.writesize) done.2
      else
        writeLoop buf left (page + 1) (written + g.writesize) retlen done.2

/-- `nand_write_ecc` with `eccbuf` and `oobsel` null, that is `nand_write`. -/
def nandWriteEcc (d : Device) (ofs len : Nat) (buf : Nat → Byte) : WriteResult :=
  if g.size < ofs + len then ⟨-einval, 0, d⟩
  else if ofs &&& (g.writesize - 1) ≠ 0 ∨ len &&& (g.writesize - 1) ≠ 0 then
    ⟨-einval, 0, d⟩
  else if chip.writeProtected then ⟨-eio, 0, d⟩
  else
    let page := ofs >>> g.pageShift
    let totalpages := len >>> g.pageShift
    let pagebuf := d.pagebuf.filter
      fun cached => ¬ (page ≤ cached ∧ cached < page + totalpages)
    writeLoop g chip buf totalpages (page &&& g.pagemask) 0 0
      { d with pagebuf := pagebuf }

/-- The page that `nand_erase_nand` goes to for a block, and the map after it
has looked. -/
def erasePage (s : Bbm) (page : Nat) : Nat × Bbm :=
  if s.nandBbmCheck then
    let adjusted := nandBbmAdjustCheck g chip.blockBad s (page <<< g.pageShift)
    (adjusted.1 >>> g.pageShift &&& g.pagemask, adjusted.2)
  else (page, s)

/-- One block of the loop of `nand_erase_nand`.  The first component is the
status: no erase because the block is bad (`none`), or the `FAIL` bit. -/
def eraseTurn (d : Device) (page : Nat) : Option Bool × Device :=
  let adjusted := erasePage g chip d.bbm page
  let d := { d with bbm := adjusted.2 }
  let page := adjusted.1
  if chip.blockBad (page <<< g.pageShift) then (none, d)
  else
    let erased := d.flash.eraseBlock g chip (page &&& g.pagemask)
    (some erased.1,
      { d with
        flash := erased.2
        pagebuf := d.pagebuf.filter
          fun cached => ¬ (page ≤ cached ∧ cached < page + g.pagesPerBlock)
        sent := ChipCmd.erase (page &&& g.pagemask) :: d.sent })

/-- The loop of `nand_erase_nand`, by the number of blocks left. -/
def eraseLoop :
    (left page : Nat) → EraseInfo → Device → EraseInfo × Device
  | 0, _, instr, d => ({ instr with state := EraseState.done }, d)
  | left + 1, page, instr, d =>
      match eraseTurn g chip d page with
      | (none, d) => ({ instr with state := EraseState.failed }, d)
      | (some true, d) =>
          ({ instr with
              state := EraseState.failed
              failAddr := page <<< g.pageShift }, d)
      | (some false, d) => eraseLoop left (page + g.pagesPerBlock) instr d

/-- What `nand_erase_nand` leaves. -/
structure EraseResult where
  ret : Int
  instr : EraseInfo
  device : Device

/-- `nand_erase_nand`.  There is no bad-block table, so `allowbbt` plays no
part. -/
def nandEraseNand (d : Device) (instr : EraseInfo) : EraseResult :=
  if instr.addr &&& (2 ^ g.physEraseShift - 1) ≠ 0 then ⟨-einval, instr, d⟩
  else if instr.len &&& (2 ^ g.physEraseShift - 1) ≠ 0 then ⟨-einval, instr, d⟩
  else if g.size < instr.len + instr.addr then ⟨-einval, instr, d⟩
  else
    let instr := { instr with failAddr := 0xffffffff }
    let finished :=
      if chip.writeProtected then
        ({ instr with state := EraseState.failed }, d)
      else
        eraseLoop g chip (instr.len >>> g.physEraseShift)
          (instr.addr >>> g.pageShift)
          { instr with state := EraseState.erasing } d
    ⟨if finished.1.state = EraseState.done then 0 else -eio,
      finished.1, finished.2⟩

/-- `nand_block_isbad` -/
def nandBlockIsbad (d : Device) (ofs : Nat) : Int × Device :=
  if g.size < ofs then (-einval, d)
  else
    let adjusted := nandBbmAdjustCheck g chip.blockBad d.bbm ofs
    (if chip.blockBad adjusted.1 then 1 else 0, { d with bbm := adjusted.2 })

/-- One call into the driver, with the chip as it is during the call.
`setCheck` stands for the places that write `nand_bbm_check`: `nand_bbm_init`,
`nand_bbm_update` and the `bbm` command. -/
inductive Operation where
  | read (chip : ChipBehaviour) (ofs len : Nat)
  | write (chip : ChipBehaviour) (ofs len : Nat) (buf : Nat → Byte)
  | erase (chip : ChipBehaviour) (instr : EraseInfo)
  | blockIsbad (chip : ChipBehaviour) (ofs : Nat)
  | assignBlock (chip : ChipBehaviour) (badpos : Nat)
  | setCheck (value : Bool)

/-- The device after a call. -/
def Device.step (d : Device) : Operation → Device
  | .read chip ofs len => (nandReadEcc g chip d ofs len fun _ => ⊥).device
  | .write chip ofs len buf => (nandWriteEcc g chip d ofs len buf).device
  | .erase chip instr => (nandEraseNand g chip d instr).device
  | .blockIsbad chip ofs => (nandBlockIsbad g chip d ofs).2
  | .assignBlock chip badpos =>
      { d with bbm := (nandBbmAssignBlock g chip.blockBad d.bbm badpos).2 }
  | .setCheck value => { d with bbm := d.bbm.setCheck value }

/-- The device after a sequence of calls. -/
def Device.run (d : Device) (ops : List Operation) : Device :=
  ops.foldl (Device.step g) d

/-- The device after `nand_bbm_info_init`. -/
def Device.infoInit (d : Device) : Device :=
  { d with bbm := nandBbmInfoInit g d.bbm }

variable {g chip}

/-! ### Reading and writing leave the map alone -/

@[simp]
theorem readTurn_bbm (len : Nat) (r : ReadState) :
    (readTurn g chip len r).device.bbm = r.device.bbm := rfl

@[simp]
theorem readTurn_flash (len : Nat) (r : ReadState) :
    (readTurn g chip len r).device.flash = r.device.flash := rfl

theorem readLoop_bbm (len turns : Nat) (r : ReadState) :
    (readLoop g chip len turns r).device.bbm = r.device.bbm := by
  induction turns generalizing r with
  | zero => rfl
  | succ turns inductionHypothesis =>
      rw [readLoop]
      split
      · rw [inductionHypothesis, readTurn_bbm]
      · rfl

theorem nandReadEcc_bbm (d : Device) (ofs len : Nat) (buf : Nat → Byte) :
    (nandReadEcc g chip d ofs len buf).device.bbm = d.bbm := by
  rw [nandReadEcc]
  split
  · rfl
  · exact readLoop_bbm len len _

@[simp]
theorem nandWritePage_bbm (d : Device) (page : Nat) (data : Page) :
    (nandWritePage chip d page data).2.bbm = d.bbm := rfl

theorem writeLoop_bbm (buf : Nat → Byte)
    (left page written retlen : Nat) (d : Device) :
    (writeLoop g chip buf left page written retlen d).device.bbm = d.bbm := by
  induction left generalizing page written retlen d with
  | zero => rfl
  | succ left inductionHypothesis =>
      simp only [writeLoop]
      split
      · rfl
      · split <;> rw [inductionHypothesis, nandWritePage_bbm]

theorem nandWriteEcc_bbm (d : Device) (ofs len : Nat) (buf : Nat → Byte) :
    (nandWriteEcc g chip d ofs len buf).device.bbm = d.bbm := by
  rw [nandWriteEcc]
  split
  · rfl
  · split
    · rfl
    · split
      · rfl
      · exact writeLoop_bbm _ _ _ _ _ _

/-! ### Erasing and asking change it through `NAND_BBM_ADJUST_CHECK` -/

theorem erasePage_snd (s : Bbm) (page : Nat) :
    (erasePage g chip s page).2 =
      (nandBbmAdjustCheck g chip.blockBad s (page <<< g.pageShift)).2 := by
  rw [erasePage]
  split
  · rfl
  · rename_i unchecked
    rw [nandBbmAdjustCheck, Bool.eq_false_of_not_eq_true unchecked,
      Bool.false_and]
    rfl

theorem eraseTurn_bbm (d : Device) (page : Nat) :
    (eraseTurn g chip d page).2.bbm =
      (nandBbmAdjustCheck g chip.blockBad d.bbm (page <<< g.pageShift)).2 := by
  rw [← erasePage_snd]
  simp only [eraseTurn]
  split <;> rfl

theorem reserveInv_eraseTurn
    (chip : ChipBehaviour) {d : Device} (inv : ReserveInv g d.bbm) (page : Nat) :
    ReserveInv g (eraseTurn g chip d page).2.bbm := by
  rw [eraseTurn_bbm]
  exact reserveInv_adjustCheck inv chip.blockBad _

theorem reserveInv_eraseLoop
    {d : Device} (inv : ReserveInv g d.bbm) (left page : Nat)
    (instr : EraseInfo) :
    ReserveInv g (eraseLoop g chip left page instr d).2.bbm := by
  induction left generalizing page d with
  | zero => exact inv
  | succ left inductionHypothesis =>
      have turnInv := reserveInv_eraseTurn chip inv page
      rw [eraseLoop]
      rcases turn : eraseTurn g chip d page with ⟨status, after⟩
      rw [turn] at turnInv
      rcases status with _ | _ | _
      · exact turnInv
      · exact inductionHypothesis turnInv (page + g.pagesPerBlock)
      · exact turnInv

theorem nandBlockIsbad_bbm {ofs : Nat} (d : Device) (inside : ¬ g.size < ofs) :
    (nandBlockIsbad g chip d ofs).2.bbm =
      (nandBbmAdjustCheck g chip.blockBad d.bbm ofs).2 := by
  rw [nandBlockIsbad, if_neg inside]

theorem reserveInv_step
    {d : Device} (inv : ReserveInv g d.bbm) (op : Operation) :
    ReserveInv g (d.step g op).bbm := by
  cases op with
  | read chip ofs len => rwa [Device.step, nandReadEcc_bbm]
  | write chip ofs len buf => rwa [Device.step, nandWriteEcc_bbm]
  | setCheck value => exact reserveInv_setCheck inv value
  | assignBlock chip badpos => exact reserveInv_assignBlock inv _ _
  | blockIsbad chip ofs =>
      rw [Device.step]
      by_cases outside : g.size < ofs
      · rwa [nandBlockIsbad, if_pos outside]
      · rw [nandBlockIsbad_bbm d outside]
        exact reserveInv_adjustCheck inv _ _
  | erase chip instr =>
      rw [Device.step, nandEraseNand]
      split
      · exact inv
      · split
        · exact inv
        · split
          · exact inv
          · split
            · exact inv
            · exact reserveInv_eraseLoop inv _ _ _

theorem reserveInv_run
    {d : Device} (inv : ReserveInv g d.bbm) (ops : List Operation) :
    ReserveInv g (d.run g ops).bbm :=
  List.foldlRecOn ops _ (motive := fun d : Device => ReserveInv g d.bbm) inv
    fun _ kept op _ => reserveInv_step kept op

theorem reserveInv_infoInit (g : Geometry) (d : Device) :
    ReserveInv g (d.infoInit g).bbm :=
  reserveInv_init g d.bbm

/-! ### What an erase does -/

/-- The block that an erase of `block` goes to. -/
def eraseBlockOf (g : Geometry) (blockBad : Nat → Bool) (s : Bbm)
    (block : Nat) : Nat :=
  if s.nandBbmCheck && blockBad (g.blockPos (s.translate block)) then
    (reserveFor g blockBad s.assignIndex).getD (s.translate block)
  else s.translate block

theorem nandBbmAdjustCheck_blockPos
    (blockBad : Nat → Bool) (s : Bbm) (block : Nat) :
    (nandBbmAdjustCheck g blockBad s (g.blockPos block)).1 =
      g.blockPos (eraseBlockOf g blockBad s block) := by
  rw [nandBbmAdjustCheck, eraseBlockOf, nandBbmAdjust_blockPos]
  split
  · cases found : reserveFor g blockBad s.assignIndex with
    | none => rw [nandBbmAssignBlock_of_none found]; rfl
    | some reserve => rw [nandBbmAssignBlock_of_some found]; rfl
  · rfl

theorem eraseBlockOf_lt
    {s : Bbm} (inv : ReserveInv g s) (blockBad : Nat → Bool) {block : Nat}
    (inside : block < g.blocks) :
    eraseBlockOf g blockBad s block < g.blocks := by
  have translated := inv.targetsInside.translate_lt inside
  rw [eraseBlockOf]
  split
  · cases found : reserveFor g blockBad s.assignIndex with
    | none => exact translated
    | some reserve =>
        have within := (reserveFor_eq_some_iff.mp found).2.1
        have cursor := inv.cursor_le
        have top := g.redirTop_succ
        rw [Option.getD_some]
        omega
  · exact translated

theorem erasePage_block
    {s : Bbm} (inv : ReserveInv g s) {block : Nat}
    (inside : block < g.blocks) :
    (erasePage g chip s (block * g.pagesPerBlock)).1 =
      eraseBlockOf g chip.blockBad s block * g.pagesPerBlock := by
  have target := eraseBlockOf_lt inv chip.blockBad inside
  rw [erasePage, g.shiftLeft_block]
  split
  · simp only [nandBbmAdjustCheck_blockPos, g.blockPos_shiftRight]
    exact g.and_pagemask (g.firstPage_lt target)
  · rename_i unchecked
    have check := Bool.eq_false_of_not_eq_true unchecked
    rw [eraseBlockOf, check, Bool.false_and, if_neg (by simp),
      s.translate_of_not_check block check]

/-- The erase of one block is one turn of the loop. -/
theorem nandEraseNand_block
    {d : Device} {block : Nat} (inside : block < g.blocks) {instr : EraseInfo}
    (addr : instr.addr = g.blockPos block) (len : instr.len = g.erasesize)
    (unprotected : chip.writeProtected = false) :
    ((nandEraseNand g chip d instr).ret = 0 ↔
        (eraseTurn g chip d (block * g.pagesPerBlock)).1 = some false) ∧
      (nandEraseNand g chip d instr).device =
        (eraseTurn g chip d (block * g.pagesPerBlock)).2 := by
  have addrAligned : instr.addr &&& (2 ^ g.physEraseShift - 1) = 0 := by
    rw [addr, ← Geometry.erasesize, g.and_erasesize, g.blockPos_eq,
      Nat.mul_mod_left]
  have lenAligned : instr.len &&& (2 ^ g.physEraseShift - 1) = 0 := by
    rw [len, ← Geometry.erasesize, g.and_erasesize, Nat.mod_self]
  have fits : ¬ g.size < instr.len + instr.addr := by
    have next : (block + 1) * g.erasesize ≤ g.blocks * g.erasesize :=
      Nat.mul_le_mul_right _ inside
    rw [g.blocks_mul_erasesize, Nat.add_mul, Nat.one_mul] at next
    rw [addr, len, g.blockPos_eq]
    omega
  have one : instr.len >>> g.physEraseShift = 1 := by
    rw [len, Nat.shiftRight_eq_div_pow, ← Geometry.erasesize,
      Nat.div_self g.erasesize_pos]
  have first : instr.addr >>> g.pageShift = block * g.pagesPerBlock := by
    rw [addr, g.blockPos_shiftRight]
  simp only [nandEraseNand, addrAligned, lenAligned, fits, unprotected, one,
    first, eraseLoop, ne_eq, not_true_eq_false, if_false, Bool.false_eq_true]
  rcases eraseTurn g chip d (block * g.pagesPerBlock) with ⟨status, after⟩
  rcases status with _ | _ | _ <;> simp [eio]

theorem nandEraseNand_protected
    (d : Device) (instr : EraseInfo) (guarded : chip.writeProtected = true) :
    (nandEraseNand g chip d instr).ret ≠ 0 := by
  simp only [nandEraseNand, guarded, if_true]
  have invalid : -einval ≠ 0 := by decide
  have failed : -eio ≠ 0 := by decide
  split
  · exact invalid
  · split
    · exact invalid
    · split
      · exact invalid
      · exact failed

theorem eraseTurn_success
    {d : Device} (inv : ReserveInv g d.bbm) {block : Nat}
    (inside : block < g.blocks)
    (success : (eraseTurn g chip d (block * g.pagesPerBlock)).1 = some false) :
    let physical := eraseBlockOf g chip.blockBad d.bbm block
    chip.blockBad (g.blockPos physical) = false ∧
      (eraseTurn g chip d (block * g.pagesPerBlock)).2.sent =
        ChipCmd.erase (physical * g.pagesPerBlock) :: d.sent := by
  have onChip := g.firstPage_lt (eraseBlockOf_lt inv chip.blockBad inside)
  simp only [eraseTurn, erasePage_block inv inside, g.shiftLeft_block,
    g.and_pagemask onChip] at success ⊢
  split at success
  · exact absurd success (by simp)
  · rename_i good
    rw [if_neg good]
    exact ⟨Bool.eq_false_of_not_eq_true good, rfl⟩

/-! ### Writing one page -/

/-- A write of one page is one turn of the loop. -/
theorem nandWriteEcc_onePage
    (d : Device) (buf : Nat → Byte) (unprotected : chip.writeProtected = false)
    {page : Nat} (onChip : page < g.pages) :
    let done := nandWritePage chip
      { d with
        pagebuf := d.pagebuf.filter fun cached =>
          ¬ (page ≤ cached ∧ cached < page + 1) }
      (adjustPage g d.bbm page) buf
    (nandWriteEcc g chip d (page <<< g.pageShift) g.writesize buf).ret = done.1 ∧
      (nandWriteEcc g chip d (page <<< g.pageShift) g.writesize buf).device =
        done.2 := by
  have total := g.pages_mul_writesize
  have fits : ¬ g.size < page <<< g.pageShift + g.writesize := by
    have next := Nat.mul_le_mul_right g.writesize onChip
    rw [Nat.succ_mul, total] at next
    rw [Nat.shiftLeft_eq, ← Geometry.writesize]
    omega
  have aligned : (page <<< g.pageShift) % g.writesize = 0 := by
    rw [Nat.shiftLeft_eq, ← Geometry.writesize, Nat.mul_mod_left]
  have one : g.writesize >>> g.pageShift = 1 := by
    rw [g.shiftRight_pageShift, Nat.div_self g.writesize_pos]
  simp only [nandWriteEcc, fits, g.and_writesize, aligned, Nat.mod_self,
    Nat.shiftLeft_shiftRight, one, g.and_pagemask onChip, unprotected, writeLoop,
    Nat.zero_add, ne_eq, not_true_eq_false, or_self, if_false,
    Bool.false_eq_true]
  split
  · exact ⟨rfl, rfl⟩
  · rename_i passed
    rw [not_not] at passed
    split <;> exact ⟨passed.symm, rfl⟩

end Gp2Firmware.UBoot
