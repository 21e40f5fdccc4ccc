import Gp2Firmware.Mstar.NandBase

/-!
# Reads that could not be corrected

`nand_do_read_ops` over the MStar driver.  What a page read comes to is the value of
`_titania_nand_correct_data`, which is not negative, and what a job that fetched a
page came to is not kept with the page in `chip->buffers->databuf`.
-/

namespace Gp2Firmware.Mstar

open Gp2Firmware.Nand
open Gp2Firmware.Linux

/-- `mtd_oob_mode_t` -/
inductive OobMode where
  | place
  | auto
  | raw
  deriving DecidableEq

/-- `struct mtd_oob_ops` of a read: the address of the data buffer, and whether there
is a buffer for spare bytes. -/
structure ReadOps where
  mode : OobMode
  len : Nat
  ooblen : Nat
  ooboffs : Nat
  datbuf : Nat
  oobbuf : Bool

/-- The columns that `ecc.layout->oobfree` lists, in its order. -/
def Hw.oobFree (hw : Hw) : List Nat :=
  if hw.flash2kpage then
    List.range' 1 5 ++ List.range' 0x10 6 ++ List.range' 0x20 6 ++ List.range' 0x30 6
  else List.range' 0 5

/-- The columns of `oob_poi` that `nand_transfer_oob` copies. -/
def transferColumns (hw : Hw) (ops : ReadOps) (len : Nat) : List Nat :=
  match ops.mode with
  | .auto => (hw.oobFree.drop ops.ooboffs).take len
  | _ => List.range' ops.ooboffs len

/-- Bytes that are copied to a place of a buffer. -/
def copyColumns (buf : Nat → U8) (bufAt : Nat) (oobPoi : Nat → U8)
    (columns : List Nat) : Nat → U8 := fun k =>
  if bufAt ≤ k ∧ k < bufAt + columns.length then
    oobPoi (columns.getD (k - bufAt) 0)
  else buf k

/-- The state of the loop of `nand_do_read_ops`.  The last field is no variable: it has
the jobs that fetched the pages the loop has come to. -/
structure ReadState where
  mtd : Mtd
  buf : Nat → U8
  bufAt : Nat
  oob : Nat → U8
  oobAt : Nat
  readlen : Nat
  oobreadlen : Nat
  realpage : Nat
  col : Nat
  sndcmd : Bool
  failed : Nat
  corrected : Nat
  fetches : List Fetch

/-- What `read_page` leaves: the bytes, and the value of `ecc.correct`. -/
structure PageRead where
  data : Nat → U8
  spare : Nat → U8
  stat : Int
  driver : Driver

/-- `nand_read_page_hwecc`, or `nand_read_page_raw`, which does not ask for the
value. -/
def Driver.readPageEcc (hw : Hw) (d : Driver) (aligned raw : Bool) : PageRead :=
  let data := d.readBuf hw aligned hw.pageSize
  let spare := data.2.readBuf hw true hw.spareSize
  { data := data.1
    spare := spare.1
    stat := if raw then 0 else spare.2.correctData
    driver := spare.2 }

variable (b : Board) (ops : ReadOps)

namespace ReadState

/-- The number of bytes that a turn reads. -/
def bytes (r : ReadState) : Nat := min (b.g.writesize - r.col) r.readlen

/-- Whether the page goes straight to the caller's buffer. -/
def aligned (r : ReadState) : Bool := r.bytes b == b.g.writesize

/-- The page of the chip that a turn reads. -/
def page (r : ReadState) : Nat :=
  adjustPage b.g r.mtd.bbm (r.realpage &&& b.g.pagemask)

/-- The driver in front of `read_page`.  A chip that goes on to the next page by
itself gets no command within a block. -/
def commanded (r : ReadState) : Driver :=
  if r.sndcmd then r.mtd.driver.sendRead0 b.hw (r.page b) else r.mtd.driver

/-- The page read of a turn. -/
def pageRead (r : ReadState) : PageRead :=
  (r.commanded b).readPageEcc b.hw
    (if r.aligned b then (ops.datbuf + r.bufAt) % 8 == 0 else b.dataBufAligned)
    (ops.mode == .raw)

/-- How the job of the page read ends. -/
def fetch (r : ReadState) : Fetch where
  status := wNcJobEnd (b.hw.job (r.commanded b).jobs) true
  programmed := (r.commanded b).programmed (r.page b)

/-- The kernel's state behind a page read.  A chip with small pages is waited for. -/
def fetchedMtd (r : ReadState) : Mtd :=
  let read := r.pageRead b ops
  { r.mtd with
    driver := if b.hw.flash2kpage then read.driver else read.driver.runJob
    pagebuf := if r.aligned b then r.mtd.pagebuf else some r.realpage
    dataBuf := if r.aligned b then r.mtd.dataBuf else read.data
    oobPoi := read.spare
    fetched := if r.aligned b then r.mtd.fetched else r.fetch b }

/-- The transfer of spare bytes to the caller.  In raw mode they follow the data. -/
def transferOob (r : ReadState) : ReadState :=
  if ops.oobbuf then
    if ops.mode = .raw then
      let columns := transferColumns b.hw ops b.hw.spareSize
      { r with
        buf := copyColumns r.buf r.bufAt r.mtd.oobPoi columns
        bufAt := r.bufAt + columns.length }
    else
      let toread := min r.oobreadlen b.hw.oobFree.length
      let columns := transferColumns b.hw ops toread
      { r with
        oob := copyColumns r.oob r.oobAt r.mtd.oobPoi columns
        oobAt := r.oobAt + columns.length
        oobreadlen := r.oobreadlen - toread }
  else r

/-- A turn that goes to the chip. -/
def fromChip (r : ReadState) : ReadState :=
  let read := r.pageRead b ops
  transferOob b ops
    { r with
      mtd := r.fetchedMtd b ops
      buf := fun k =>
        if r.bufAt ≤ k ∧ k < r.bufAt + r.bytes b then
          read.data (r.col + (k - r.bufAt))
        else r.buf k
      bufAt := r.bufAt + r.bytes b
      sndcmd := false
      failed := r.failed + (if read.stat < 0 then 1 else 0)
      corrected := r.corrected + (if read.stat < 0 then 0 else read.stat.toNat)
      fetches := r.fetches ++ [r.fetch b] }

/-- A turn that is served from `chip->buffers->databuf`. -/
def fromBuffer (r : ReadState) : ReadState :=
  { r with
    buf := fun k =>
      if r.bufAt ≤ k ∧ k < r.bufAt + r.bytes b then
        r.mtd.dataBuf (r.col + (k - r.bufAt))
      else r.buf k
    bufAt := r.bufAt + r.bytes b
    fetches := r.fetches ++ [r.mtd.fetched] }

/-- The step to the next page.  `NAND_NO_AUTOINCR` is set for large pages. -/
def advance (r : ReadState) (bytes : Nat) : ReadState :=
  { r with
    readlen := r.readlen - bytes
    col := 0
    realpage := r.realpage + 1
    sndcmd := r.sndcmd || b.hw.flash2kpage ||
      ((r.realpage + 1) &&& b.g.pagemask) % b.g.pagesPerBlock == 0 }

/-- One turn of the loop. -/
def turn (r : ReadState) : ReadState :=
  if r.mtd.pagebuf = some r.realpage ∧ ops.oobbuf = false then
    (r.fromBuffer b).advance b (r.bytes b)
  else (r.fromChip b ops).advance b (r.bytes b)

/-- The loop.  Every turn but the last reads at least one byte, so one turn more than
there are bytes is enough. -/
def loop : Nat → ReadState → ReadState
  | 0, r => r
  | turns + 1, r =>
      let r := r.turn b ops
      if r.readlen = 0 then r else loop turns r

end ReadState

/-- The state in front of the loop. -/
def Mtd.readStart (m : Mtd) (start : Nat) (buf oob : Nat → U8) : ReadState where
  mtd := m
  buf := buf
  bufAt := 0
  oob := oob
  oobAt := 0
  readlen := ops.len
  oobreadlen := ops.ooblen
  realpage := start >>> b.g.pageShift
  col := start &&& (b.g.writesize - 1)
  sndcmd := true
  failed := 0
  corrected := 0
  fetches := []

/-- What `nand_do_read_ops` leaves behind its loop. -/
def Mtd.readLoop (m : Mtd) (start : Nat) (buf oob : Nat → U8) : ReadState :=
  (m.readStart b ops start buf oob).loop b ops (ops.len + 1)

/-- The value of `nand_do_read_ops`; `read_page` itself always returns 0. -/
def ReadState.ret (r : ReadState) : Int :=
  if r.failed ≠ 0 then -ebadmsg else if r.corrected ≠ 0 then -euclean else 0

/-- `nand_do_read_ops`: its value, `ops->retlen`, `ops->oobretlen`, and what it
leaves. -/
def Mtd.nandDoReadOps (m : Mtd) (start : Nat) (buf oob : Nat → U8) :
    Int × Nat × Nat × ReadState :=
  let r := m.readLoop b ops start buf oob
  (r.ret, ops.len - r.readlen,
    if ops.oobbuf then ops.ooblen - r.oobreadlen else 0, r)

/-- A page that cannot have come as it was programmed. -/
def Fetch.Lost (f : Fetch) : Prop :=
  f.status = .eccError ∧ f.programmed = true ∨ f.status = .timeout

instance (f : Fetch) : Decidable f.Lost := inferInstanceAs (Decidable (_ ∨ _))

/-- A read reports that a page of it was lost, and reports nothing where every job
ended well. -/
def LossReported (m : Mtd) (start : Nat) (buf oob : Nat → U8) : Prop :=
  let read := m.nandDoReadOps b ops start buf oob
  ((∃ f ∈ read.2.2.2.fetches, f.Lost) → read.1 < 0 ∧ read.1 ≠ -euclean) ∧
    ((∀ f ∈ read.2.2.2.fetches, f.status = .ok) → read.1 = 0)

/-- No page that the request covers was lost when it was fetched: in this call, or in
the one that put it into the buffer. -/
def NothingLost (m : Mtd) (start : Nat) (buf oob : Nat → U8) : Prop :=
  ∀ f ∈ (m.readLoop b ops start buf oob).fetches, ¬ f.Lost

/-! ### What a page read counts for -/

namespace Hw

theorem dmaLength_pageSize (hw : Hw) : Driver.DmaLength hw.pageSize := by
  unfold pageSize
  split <;> decide

theorem not_dmaLength_spareSize (hw : Hw) : ¬ Driver.DmaLength hw.spareSize := by
  unfold spareSize
  split <;> decide

end Hw

namespace Driver

variable (hw : Hw) (d : Driver)

/-- The value of `ecc.correct` is that of the job, and never negative. -/
theorem readPageEcc_stat (aligned raw : Bool) :
    (d.readPageEcc hw aligned raw).stat =
      if raw then 0
      else
        ((eccFailOf (wNcJobEnd (hw.job d.jobs) true)
          (d.dmaRspBuf hw hw.pageSize)).toNat : Int) := by
  unfold readPageEcc readBuf
  simp only [if_pos hw.dmaLength_pageSize, if_neg hw.not_dmaLength_spareSize]
  rfl

theorem readPageEcc_stat_nonneg (aligned raw : Bool) :
    0 ≤ (d.readPageEcc hw aligned raw).stat := by
  rw [readPageEcc_stat]
  split
  · exact le_refl 0
  · exact Int.natCast_nonneg _

theorem readPageEcc_stat_of_ok (aligned raw : Bool)
    (ok : wNcJobEnd (hw.job d.jobs) true = .ok) :
    (d.readPageEcc hw aligned raw).stat = 0 := by
  rw [readPageEcc_stat, ok]
  split <;> rfl

end Driver

namespace ReadState

/-- What a loop has counted: no failure at all, and no correction while every job has
ended well. -/
structure Counts (r : ReadState) : Prop where
  failed : r.failed = 0
  corrected : (∀ f ∈ r.fetches, f.status = .ok) → r.corrected = 0

variable {b} {ops} {r : ReadState}

theorem Counts.transferOob (counts : r.Counts) : (r.transferOob b ops).Counts := by
  unfold ReadState.transferOob
  split
  · split
    · exact ⟨counts.failed, counts.corrected⟩
    · exact ⟨counts.failed, counts.corrected⟩
  · exact counts

theorem Counts.fromChip (counts : r.Counts) : (r.fromChip b ops).Counts := by
  have nonneg : ¬ (r.pageRead b ops).stat < 0 :=
    not_lt.mpr ((r.commanded b).readPageEcc_stat_nonneg b.hw _ _)
  refine transferOob ⟨?_, ?_⟩
  · exact (congrArg (r.failed + ·) (if_neg nonneg)).trans counts.failed
  · intro ended
    have here : (r.fetch b).status = .ok :=
      ended _ (List.mem_append_right _ (List.mem_singleton.mpr rfl))
    have stat : (r.pageRead b ops).stat = 0 :=
      (r.commanded b).readPageEcc_stat_of_ok b.hw _ _ here
    have before : r.corrected = 0 :=
      counts.corrected fun f earlier => ended f (List.mem_append_left _ earlier)
    change r.corrected +
      (if (r.pageRead b ops).stat < 0 then 0 else (r.pageRead b ops).stat.toNat) = 0
    rw [if_neg nonneg, stat, before]
    rfl

theorem Counts.fromBuffer (counts : r.Counts) : (r.fromBuffer b).Counts :=
  ⟨counts.failed, fun ended =>
    counts.corrected fun f earlier => ended f (List.mem_append_left _ earlier)⟩

theorem Counts.advance (counts : r.Counts) (bytes : Nat) :
    (r.advance b bytes).Counts :=
  ⟨counts.failed, counts.corrected⟩

theorem Counts.turn (counts : r.Counts) : (r.turn b ops).Counts := by
  unfold ReadState.turn
  split
  · exact counts.fromBuffer.advance _
  · exact counts.fromChip.advance _

theorem Counts.loop (turns : Nat) (counts : r.Counts) :
    (r.loop b ops turns).Counts := by
  induction turns generalizing r with
  | zero => exact counts
  | succ turns inductionHypothesis =>
      rw [ReadState.loop]
      split
      · exact counts.turn
      · exact inductionHypothesis counts.turn

/-- What has been counted is at most a correction. -/
theorem Counts.ret (counts : r.Counts) :
    r.ret = if r.corrected ≠ 0 then -euclean else 0 :=
  if_neg (not_not.mpr counts.failed)

end ReadState

theorem Mtd.counts_readLoop (m : Mtd) (start : Nat) (buf oob : Nat → U8) :
    (m.readLoop b ops start buf oob).Counts :=
  ReadState.Counts.loop _ ⟨rfl, fun _ => rfl⟩

/-- A read reports what was lost exactly when nothing was. -/
theorem lossReported_iff (m : Mtd) (start : Nat) (buf oob : Nat → U8) :
    LossReported b ops m start buf oob ↔ NothingLost b ops m start buf oob := by
  have counts := m.counts_readLoop b ops start buf oob
  have value : (m.nandDoReadOps b ops start buf oob).1 =
      if (m.readLoop b ops start buf oob).corrected ≠ 0 then -euclean else 0 :=
    counts.ret
  constructor
  · rintro ⟨reported, -⟩ f covered lost
    rcases reported ⟨f, covered, lost⟩ with ⟨negative, other⟩
    rw [value] at negative other
    split at other
    · exact other rfl
    · rename_i none
      rw [if_neg none] at negative
      exact absurd negative (lt_irrefl 0)
  · intro nothing
    refine ⟨?_, ?_⟩
    · rintro ⟨f, covered, lost⟩
      exact absurd lost (nothing f covered)
    · intro ended
      rw [value]
      exact if_neg (not_not.mpr (counts.corrected ended))

/-! ### Lost pages that are not reported -/

/-- Every page job ends with the ECC flags of an error, or in a timeout. -/
def failingHw (timeout : Bool) : Hw :=
  { goodHw with job := fun _ => ⟨timeout, true, false, 0xC0, none⟩ }

/-- Behind such a controller a chip of 128 MiB whose pages are all programmed. -/
def failingBoard (timeout : Bool) : Board := ⟨nand128MiB, failingHw timeout, true, rfl⟩

/-- The kernel's state with a programmed chip, where the first ECC byte of a page is
known. -/
def Mtd.programmed (ecc : U8) : Mtd :=
  let m := Mtd.fresh nand128MiB
  { m with
    driver :=
      { m.driver with
        flash := fun _ => ⟨fun _ => 0x5A, fun k => if k = 6 then ecc else 0xFF⟩
        programmed := fun _ => true } }

/-- A read of some bytes without spare bytes. -/
def ReadOps.plain (len : Nat) : ReadOps := ⟨.place, len, 0, 0, 0, false⟩

/-- The read of a byte of a programmed page: an ECC error comes back as `EUCLEAN`, as 0
where the ECC bytes of the first sector are erased, a timeout comes back as 0, and so
does the second read of a page after the first came back as `EUCLEAN`. -/
theorem losses_hidden :
    ¬ LossReported (failingBoard false) (.plain 1) (.programmed 0) 4096
        (fun _ => 0) (fun _ => 0) ∧
      ¬ LossReported (failingBoard false) (.plain 1) (.programmed 0xFF) 4096
        (fun _ => 0) (fun _ => 0) ∧
      ¬ LossReported (failingBoard true) (.plain 1) (.programmed 0) 4096
        (fun _ => 0) (fun _ => 0) ∧
      ¬ LossReported (failingBoard false) (.plain 1)
        (Mtd.readLoop (failingBoard false) (.plain 1) (.programmed 0) 4096
          (fun _ => 0) fun _ => 0).mtd 4096 (fun _ => 0) (fun _ => 0) := by
  refine ⟨?_, ?_, ?_, ?_⟩ <;> rintro ⟨reported, -⟩
  · exact absurd (reported (by decide +kernel)) (by decide +kernel)
  · exact absurd (reported (by decide +kernel)) (by decide +kernel)
  · exact absurd (reported (by decide +kernel)) (by decide +kernel)
  · exact absurd (reported (by decide +kernel)) (by decide +kernel)

end Gp2Firmware.Mstar
