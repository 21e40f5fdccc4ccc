import Gp2Firmware.Lib.Run
import Gp2Firmware.Linux.WriteLoop

/-!
# The page cache

A read keeps the number of the page of the request in `chip->pagebuf` and its bytes
in `chip->buffers->databuf`.  A write drops the page by its number in the request, an
erase by the numbers of the block that is erased on the chip: the two differ for a
block that has been redirected.
-/

namespace Gp2Firmware.Linux

open Gp2Firmware.Nand
open Gp2Firmware.Lib

variable (g : Geometry)

/-- The page of the chip that has a page of a request. -/
def Device.place (d : Device) (realpage : Nat) : Nat :=
  adjustPage g d.bbm (realpage &&& g.pagemask)

/-- The page in the buffer is the one on the chip. -/
def Coherent (d : Device) : Prop :=
  ∀ page ∈ d.pagebuf, d.dataBuf = d.flash.data (d.place g page)

/-! ### Reads without a cache -/

/-- `chip->pagebuf` is -1. -/
def ReadState.uncached (r : ReadState) : ReadState :=
  { r with device := { r.device with pagebuf := none } }

/-- The loop of `nand_do_read_ops` if `chip->pagebuf` were always -1. -/
def uncachedLoop (fetch : Nat → Nat → Fetched) : Nat → ReadState → ReadState
  | 0, r => r
  | turns + 1, r =>
      let r := readTurn g fetch r.uncached
      if r.ret < 0 ∨ r.readlen = 0 then r else uncachedLoop fetch turns r

/-- The state in which the loop of `nand_do_read_ops` is entered. -/
def readStart (d : Device) (start len : Nat) (buf : Nat → Byte) : ReadState where
  device := d
  buf := buf
  bufAt := 0
  readlen := len
  realpage := start >>> g.pageShift
  col := start &&& (g.writesize - 1)
  ret := 0
  failed := 0
  corrected := 0

/-- A read returns the bytes that it would return without the cache. -/
def ReadsAsUncached (d : Device) (start len : Nat) (buf : Nat → Byte) : Prop :=
  (nandDoReadOps g d.fetch d start len buf).buf =
    (uncachedLoop g d.fetch (len + 1) (readStart g d start len buf)).buf

/-- A turn delivers its page from the chip and leaves a coherent cache. -/
structure ReadsPage (d : Device) (r next : ReadState) : Prop where
  buf : next.buf =
    copyOut r.buf r.bufAt (d.flash.data (d.place g r.realpage)) r.col
      (min (g.writesize - r.col) r.readlen)
  bufAt : next.bufAt = r.bufAt + min (g.writesize - r.col) r.readlen
  readlen : next.readlen = r.readlen - min (g.writesize - r.col) r.readlen
  realpage : next.realpage = r.realpage + 1
  col : next.col = 0
  ret : next.ret = 0
  flash : next.device.flash = d.flash
  bbm : next.device.bbm = d.bbm
  coherent : Coherent g next.device

/-- A loop over the chip of `d` with a coherent cache. -/
structure Reading (d : Device) (r : ReadState) : Prop where
  ret : r.ret = 0
  flash : r.device.flash = d.flash
  bbm : r.device.bbm = d.bbm
  coherent : Coherent g r.device

namespace Reading

variable {g} {d : Device} {r s : ReadState}

theorem uncached (reading : Reading g d r) : Reading g d r.uncached where
  ret := reading.ret
  flash := reading.flash
  bbm := reading.bbm
  coherent := fun _ cached => by cases cached

theorem readsPage (reading : Reading g d r) :
    ReadsPage g d r (readTurn g d.fetch r) := by
  have place : adjustPage g r.device.bbm (r.realpage &&& g.pagemask) =
      d.place g r.realpage := by
    rw [reading.bbm]
    rfl
  by_cases cached : some r.realpage = r.device.pagebuf
  · have bytes : r.device.dataBuf = d.flash.data (d.place g r.realpage) := by
      rw [reading.coherent r.realpage cached.symm, reading.flash]
      exact congrArg _ place
    have turn : readTurn g d.fetch r =
        { r with
          buf := copyOut r.buf r.bufAt r.device.dataBuf r.col
            (min (g.writesize - r.col) r.readlen)
          bufAt := r.bufAt + min (g.writesize - r.col) r.readlen
          readlen := r.readlen - min (g.writesize - r.col) r.readlen
          realpage := r.realpage + 1
          col := 0 } :=
      if_pos cached
    rw [turn, bytes]
    exact ⟨rfl, rfl, rfl, rfl, rfl, reading.ret, reading.flash, reading.bbm,
      reading.coherent⟩
  · have turn : readTurn g d.fetch r =
        { device :=
            { r.device with
              pagebuf :=
                if min (g.writesize - r.col) r.readlen = g.writesize
                then r.device.pagebuf else some r.realpage
              dataBuf :=
                if min (g.writesize - r.col) r.readlen = g.writesize
                then r.device.dataBuf else d.flash.data (d.place g r.realpage) }
          buf := copyOut r.buf r.bufAt (d.flash.data (d.place g r.realpage)) r.col
            (min (g.writesize - r.col) r.readlen)
          bufAt := r.bufAt + min (g.writesize - r.col) r.readlen
          readlen := r.readlen - min (g.writesize - r.col) r.readlen
          realpage := r.realpage + 1
          col := 0
          ret := 0
          failed := r.failed + 0
          corrected := r.corrected + 0 } := by
      rw [← place]
      exact if_neg cached
    rw [turn]
    refine ⟨rfl, rfl, rfl, rfl, rfl, rfl, reading.flash, reading.bbm, ?_⟩
    intro page kept
    by_cases aligned : min (g.writesize - r.col) r.readlen = g.writesize
    · simp only [aligned, if_true] at kept ⊢
      exact reading.coherent page kept
    · simp only [aligned, if_false, Option.mem_some_iff] at kept ⊢
      rw [← kept, reading.flash]
      exact congrArg _ place.symm

theorem of_readsPage {next : ReadState} (read : ReadsPage g d r next) :
    Reading g d next :=
  ⟨read.ret, read.flash, read.bbm, read.coherent⟩

theorem readLoop (turns : Nat) (reading : Reading g d r) :
    Reading g d (Linux.readLoop g d.fetch turns r) := by
  induction turns generalizing r with
  | zero => exact reading
  | succ turns inductionHypothesis =>
      rw [Linux.readLoop]
      have next := of_readsPage reading.readsPage
      split
      · exact next
      · exact inductionHypothesis next

end Reading

/-- Two loops have come to the same bytes and stand at the same page. -/
structure SameBytes (r s : ReadState) : Prop where
  buf : r.buf = s.buf
  bufAt : r.bufAt = s.bufAt
  readlen : r.readlen = s.readlen
  realpage : r.realpage = s.realpage
  col : r.col = s.col

section

variable {g} {d : Device} {r s : ReadState}

theorem SameBytes.readsPage {next other : ReadState} (same : SameBytes r s)
    (left : ReadsPage g d r next) (right : ReadsPage g d s other) :
    SameBytes next other where
  buf := by
    rw [left.buf, right.buf, same.buf, same.bufAt, same.readlen, same.realpage,
      same.col]
  bufAt := by rw [left.bufAt, right.bufAt, same.bufAt, same.readlen, same.col]
  readlen := by rw [left.readlen, right.readlen, same.readlen, same.col]
  realpage := by rw [left.realpage, right.realpage, same.realpage]
  col := by rw [left.col, right.col]

theorem SameBytes.uncached (same : SameBytes r s) : SameBytes r s.uncached :=
  ⟨same.buf, same.bufAt, same.readlen, same.realpage, same.col⟩

/-- A coherent cache does not show in the bytes of a loop. -/
theorem SameBytes.loops (turns : Nat) (same : SameBytes r s)
    (left : Reading g d r) (right : Reading g d s) :
    (readLoop g d.fetch turns r).buf = (uncachedLoop g d.fetch turns s).buf := by
  induction turns generalizing r s with
  | zero => exact same.buf
  | succ turns inductionHypothesis =>
      have here := left.readsPage
      have there := right.uncached.readsPage
      have next := same.uncached.readsPage here there
      rw [readLoop, uncachedLoop, here.ret, there.ret, next.readlen]
      split
      · exact next.buf
      · exact inductionHypothesis next (.of_readsPage here) (.of_readsPage there)

theorem Coherent.reading (coherent : Coherent g d) (start len : Nat)
    (buf : Nat → Byte) : Reading g d (readStart g d start len buf) :=
  ⟨rfl, rfl, rfl, coherent⟩

theorem Coherent.readsAsUncached (coherent : Coherent g d) (start len : Nat)
    (buf : Nat → Byte) : ReadsAsUncached g d start len buf :=
  SameBytes.loops (len + 1) ⟨rfl, rfl, rfl, rfl, rfl⟩
    (coherent.reading start len buf) (coherent.reading start len buf)

/-- A read leaves a coherent cache. -/
theorem Coherent.read (coherent : Coherent g d) (start len : Nat)
    (buf : Nat → Byte) :
    Coherent g (nandDoReadOps g d.fetch d start len buf).device :=
  ((coherent.reading start len buf).readLoop (len + 1)).coherent

end

/-! ### Calls -/

variable (layout : NandLayout)

/-- A call, with what the chip does during it. -/
inductive Call where
  | read (start len : Nat) (buf : Nat → Byte)
  | write (chip : ChipBehaviour) (start len : Nat) (buf : Nat → Byte)
  | erase (chip : ChipBehaviour) (instr : EraseInfo)

/-- A call leaves a device. -/
def Call.Leaves (d : Device) : Call → Device → Prop
  | .read start len buf, next =>
      next = (nandDoReadOps g d.fetch d start len buf).device
  | .write chip start len buf, next =>
      ∃ result, WriteReturns g layout chip d start len buf result ∧
        next = result.device
  | .erase chip instr, next => next = (nandEraseNand g chip d instr).device

/-- The first page of a block of an erase request. -/
def eraseFirstPage (instr : EraseInfo) (i : Nat) : Nat :=
  (instr.addr >>> g.pageShift) + i * g.pagesPerBlock

/-- The page at which the erase of a block starts on the chip. -/
def eraseStart (s : Bbm) (page : Nat) : Nat :=
  if s.nandBbmCheck then
    nandBbmAdjust g s (page <<< g.pageShift) >>> g.pageShift &&& g.pagemask
  else page

/-- No new block goes bad: the pages of a write can be programmed, and the blocks
that an erase looks up are good. -/
def Call.NothingGoesBad (d : Device) : Call → Prop
  | .read .. => True
  | .write chip start len _ =>
      ∀ page, InRequest g start len page →
        ∀ tick, chip.programFails tick (d.place g page) = false
  | .erase chip instr =>
      d.bbm.nandBbmCheck = true →
        ∀ i < instr.len >>> g.physEraseShift,
          chip.blockBad
            (nandBbmAdjust g d.bbm (eraseFirstPage g instr i <<< g.pageShift)) = false

/-- The cached page is not changed on the chip under another number: no other page of
a write is stored in its place, and a block that is erased on the chip has its number
if it has its place. -/
def Call.KeepsCache (d : Device) : Call → Prop
  | .read .. => True
  | .write _ start len _ =>
      ∀ cached ∈ d.pagebuf, ∀ page, InRequest g start len page →
        d.place g page = d.place g cached → page = cached
  | .erase _ instr =>
      ∀ cached ∈ d.pagebuf, ∀ i < instr.len >>> g.physEraseShift,
        let start := eraseStart g d.bbm (eraseFirstPage g instr i)
        (start &&& g.pagemask ≤ d.place g cached ∧
            d.place g cached < (start &&& g.pagemask) + g.pagesPerBlock) →
          start ≤ cached ∧ cached < start + g.pagesPerBlock

section

variable {g} {chip : ChipBehaviour} {d next : Device}

/-! ### Erases -/

/-- An erase finds a good block, and does not change the cached page behind the
cache. -/
structure CleanErase (g : Geometry) (chip : ChipBehaviour) (d : Device) (page : Nat) :
    Prop where
  good : d.bbm.nandBbmCheck = true →
    chip.blockBad (nandBbmAdjust g d.bbm (page <<< g.pageShift)) = false
  keeps : ∀ cached ∈ d.pagebuf,
    (eraseStart g d.bbm page &&& g.pagemask ≤ d.place g cached ∧
        d.place g cached < (eraseStart g d.bbm page &&& g.pagemask) + g.pagesPerBlock) →
      eraseStart g d.bbm page ≤ cached ∧
        cached < eraseStart g d.bbm page + g.pagesPerBlock

/-- The map is the same, and at most the same page is cached. -/
structure Later (d next : Device) : Prop where
  bbm : next.bbm = d.bbm
  pagebuf : ∀ cached ∈ next.pagebuf, cached ∈ d.pagebuf

theorem Later.place (later : Later d next) (page : Nat) :
    next.place g page = d.place g page := by
  unfold Device.place
  rw [later.bbm]

theorem CleanErase.later {page : Nat} (clean : CleanErase g chip d page)
    (later : Later d next) : CleanErase g chip next page := by
  refine ⟨?_, ?_⟩
  · rw [later.bbm]
    exact clean.good
  · intro cached kept
    rw [later.bbm, later.place]
    exact clean.keeps cached (later.pagebuf cached kept)

theorem CleanErase.erasePage {page : Nat} (clean : CleanErase g chip d page) :
    Linux.erasePage g chip d.bbm page = (eraseStart g d.bbm page, d.bbm) := by
  unfold Linux.erasePage eraseStart
  by_cases check : d.bbm.nandBbmCheck = true
  · simp only [check, if_true, nandBbmAdjustCheck_of_good clean.good]
  · simp only [check, if_false, Bool.false_eq_true]

theorem CleanErase.turn {page : Nat} (clean : CleanErase g chip d page) :
    Later d (eraseTurn g chip d page).2 := by
  unfold eraseTurn
  rw [clean.erasePage]
  refine ⟨rfl, fun cached kept => ?_⟩
  exact (Option.mem_filter_iff.mp kept).1

theorem CleanErase.coherent {page : Nat} (clean : CleanErase g chip d page)
    (coherent : Coherent g d) : Coherent g (eraseTurn g chip d page).2 := by
  intro cached kept
  have place := clean.turn.place (g := g) cached
  rw [place]
  unfold eraseTurn at kept ⊢
  rw [clean.erasePage] at kept ⊢
  rcases Option.mem_filter_iff.mp kept with ⟨before, outside⟩
  have elsewhere : ¬ (eraseStart g d.bbm page &&& g.pagemask ≤ d.place g cached ∧
      d.place g cached <
        (eraseStart g d.bbm page &&& g.pagemask) + g.pagesPerBlock) := by
    intro inside
    exact absurd (clean.keeps cached before inside) (of_decide_eq_true outside)
  exact (coherent cached before).trans (Flash.eraseBlock_other elsewhere).symm

theorem Later.refl (d : Device) : Later d d :=
  ⟨rfl, fun _ kept => kept⟩

theorem Later.trans {last : Device} (first : Later d next) (second : Later next last) :
    Later d last :=
  ⟨second.bbm.trans first.bbm,
    fun cached kept => first.pagebuf cached (second.pagebuf cached kept)⟩

theorem coherent_eraseLoop {left page : Nat} {instr : EraseInfo}
    (coherent : Coherent g d)
    (clean : ∀ i < left, CleanErase g chip d (page + i * g.pagesPerBlock)) :
    Coherent g (eraseLoop g chip left page instr d).2 := by
  induction left generalizing page d with
  | zero => exact coherent
  | succ left inductionHypothesis =>
      have here : CleanErase g chip d page := by
        have first := clean 0 (Nat.succ_pos left)
        rwa [Nat.zero_mul, Nat.add_zero] at first
      have next := here.coherent coherent
      rw [eraseLoop]
      split
      · exact next
      · refine inductionHypothesis next fun i below => ?_
        have later := (clean (i + 1) (Nat.succ_lt_succ below)).later here.turn
        rwa [Nat.add_mul, Nat.one_mul, Nat.add_comm (i * _), ← Nat.add_assoc] at later

theorem Coherent.erase {instr : EraseInfo} (coherent : Coherent g d)
    (good : (Call.erase chip instr).NothingGoesBad g d)
    (keeps : (Call.erase chip instr).KeepsCache g d) :
    Coherent g (nandEraseNand g chip d instr).device := by
  unfold nandEraseNand
  split
  · exact coherent
  · split
    · exact coherent
    · split
      · exact coherent
      · by_cases locked : chip.writeProtected = true
        · simp only [locked, if_true]
          exact coherent
        · simp only [locked, if_false, Bool.false_eq_true]
          refine coherent_eraseLoop coherent fun i below => ⟨?_, ?_⟩
          · intro check
            exact good check i below
          · intro cached kept
            exact keeps cached kept i below

/-! ### Writes -/

/-- The loop of a write that covers a request, with a coherent cache that has no page
of it. -/
structure Writing (g : Geometry) (d : Device) (start len : Nat) (w : WriteState) : Prop
    extends InWrite g start len w where
  later : Later d w.device
  coherent : Coherent g w.device
  outside : ∀ cached ∈ w.device.pagebuf,
    ¬ (start ≤ cached <<< g.pageShift ∧ cached <<< g.pageShift < start + len)

namespace Writing

variable {start len : Nat} {w : WriteState} {buf : Nat → Byte}

theorem written_later : Later w.device (written g chip buf w) := by
  refine ⟨written_bbm buf w, fun cached kept => ?_⟩
  change cached ∈ (writeDevice g buf w).pagebuf at kept
  unfold writeDevice at kept
  split at kept
  · cases kept
  · exact kept

theorem coherent_written (writing : Writing g d start len w)
    (keeps : ∀ cached ∈ w.device.pagebuf,
      w.device.place g w.realpage = w.device.place g cached → w.realpage = cached) :
    Coherent g (written g chip buf w) := by
  intro cached kept
  have later : Later w.device (written g chip buf w) := written_later
  rw [later.place]
  by_cases part : partialPage g w
  · change cached ∈ (writeDevice g buf w).pagebuf at kept
    rw [writeDevice, if_pos part] at kept
    cases kept
  · have same : writeDevice g buf w = w.device := if_neg part
    have before : cached ∈ w.device.pagebuf := written_later.pagebuf cached kept
    have whole : w.column = 0 := by
      by_contra column
      exact part (Or.inl column)
    have apart : w.device.place g cached ≠ w.device.place g w.realpage := by
      intro equal
      have this_ := keeps cached before equal.symm
      refine writing.outside cached before ?_
      rw [← this_, Nat.shiftLeft_eq]
      have position := writing.position
      have left := writing.left
      have more := writing.more
      change start ≤ w.realpage * g.writesize ∧ w.realpage * g.writesize < start + len
      omega
    have stored : adjustPage g w.device.bbm w.page = w.device.place g w.realpage := by
      rw [writing.page]
      rfl
    have kept_ : (written g chip buf w).flash.data (w.device.place g cached) =
        (writeDevice g buf w).flash.data (w.device.place g cached) :=
      Flash.programPage_other (stored ▸ apart) _ _
    rw [kept_, same]
    exact (congrArg Device.dataBuf same).trans (writing.coherent cached before)

theorem nextPage (writing : Writing g d start len w)
    (more : w.writelen - writeBytes g w ≠ 0)
    (coherent : Coherent g (written g chip buf w)) :
    Writing g d start len (Linux.nextPage g chip buf w) := by
  refine ⟨writing.toInWrite.nextPage more, writing.later.trans written_later, coherent, ?_⟩
  intro cached kept
  exact writing.outside cached (written_later.pagebuf cached kept)

/-- The loop of a write whose pages can all be programmed leaves a coherent cache. -/
theorem coherent_run {layout : NandLayout} {result : WriteResult} {turns : Nat}
    (writing : Writing g d start len w)
    (good : (Call.write chip start len buf).NothingGoesBad g d)
    (keeps : (Call.write chip start len buf).KeepsCache g d)
    (ran : Loop.run (writeTurn g layout chip buf len) turns w = some result) :
    Coherent g result.device := by
  induction turns generalizing w with
  | zero => cases ran
  | succ turns inductionHypothesis =>
      have works : turnFails g chip w = false := by
        have here := good w.realpage writing.inRequest w.device.flash.tick
        rw [← writing.later.place, Device.place, ← writing.page] at here
        exact here
      have coherent : Coherent g (written g chip buf w) := by
        refine writing.coherent_written fun cached kept equal => ?_
        rw [writing.later.place, writing.later.place] at equal
        exact keeps cached (writing.later.pagebuf cached kept) w.realpage
          writing.inRequest equal
      have turn := @writeTurn_eq g layout chip buf len w
      rw [works, if_neg Bool.false_ne_true] at turn
      by_cases last : w.writelen - writeBytes g w = 0
      · rw [if_pos last] at turn
        rw [Loop.run_of_leaves turn, Option.some_inj] at ran
        rw [← ran]
        exact coherent
      · rw [if_neg last] at turn
        rw [Loop.run_of_goes turn] at ran
        exact inductionHypothesis (writing.nextPage last coherent) ran

end Writing

theorem Coherent.write {layout : NandLayout} {start len : Nat} {buf : Nat → Byte}
    {result : WriteResult} (coherent : Coherent g d)
    (good : (Call.write chip start len buf).NothingGoesBad g d)
    (keeps : (Call.write chip start len buf).KeepsCache g d)
    (returns : WriteReturns g layout chip d start len buf result) :
    Coherent g result.device := by
  rcases returns with ⟨turns, ran⟩
  unfold nandDoWriteOps at ran
  cases refused : writeRefused g layout chip start len with
  | some ret =>
      simp only [refused, Option.some_inj] at ran
      rw [← ran]
      exact coherent
  | none =>
      simp only [refused] at ran
      have started : Writing g d start len (writeStart g d start len) := by
        refine ⟨inWrite_start d refused, ⟨rfl, ?_⟩, ?_, ?_⟩
        · intro cached kept
          exact (Option.mem_filter_iff.mp kept).1
        · intro cached kept
          exact coherent cached (Option.mem_filter_iff.mp kept).1
        · intro cached kept
          exact of_decide_eq_true (Option.mem_filter_iff.mp kept).2
      exact started.coherent_run good keeps ran

end

/-! ### Runs -/

/-- A call during which no new block goes bad, and that does not change the cached
page behind the cache. -/
def Call.Clean (d : Device) (call : Call) : Prop :=
  call.NothingGoesBad g d ∧ call.KeepsCache g d

theorem coherent_step {layout : NandLayout} (d : Device) (call : Call) (next : Device)
    (coherent : Coherent g d) (clean : call.Clean g d)
    (leaves : call.Leaves g layout d next) : Coherent g next := by
  rcases clean with ⟨good, keeps⟩
  cases call with
  | read start len buf =>
      rw [leaves]
      exact coherent.read start len buf
  | write chip start len buf =>
      rcases leaves with ⟨result, returns, rfl⟩
      exact coherent.write good keeps returns
  | erase chip instr =>
      rw [leaves]
      exact coherent.erase good keeps

/-- In every run from a cold cache whose calls do not change the cached page behind
the cache, a read returns the bytes that it would return without it. -/
theorem readsAsUncached_of_clean {layout : NandLayout} {d last : Device}
    {calls : List Call} (cold : d.pagebuf = none)
    (run : Run.Steps (fun d call => call.Leaves g layout d) (Call.Clean g) d calls last)
    (start len : Nat) (buf : Nat → Byte) : ReadsAsUncached g last start len buf := by
  have coherent : Coherent g d := by
    intro cached kept
    rw [cold] at kept
    cases kept
  exact (run.keeps (coherent_step g) coherent).readsAsUncached start len buf

/-- A programmed chip of 128 MiB on which block 5 has been redirected. -/
def Device.redirected : Device :=
  { Device.powerOn with
    bbm :=
      (Nand.nandBbmAssignBlock nand128MiB (fun _ => false)
        (nandBbmInfoInit nand128MiB Bbm.boot) (nand128MiB.blockPos 5)).2
    flash := { Flash.erased with data := fun _ => ⊥ } }

/-- The read of the first byte of block 5. -/
def readBlock5 : Call := .read (nand128MiB.blockPos 5) 1 ⊤

/-- The erase of a block of a chip on which nothing fails. -/
def eraseSound (block : Nat) (inside : block < nand128MiB.blocks) : Call :=
  .erase .sound (.ofBlock nand128MiB block inside)

/-- A byte of block 5 has been read, so that its page is in the buffer. -/
def Device.block5Read : Device :=
  (nandDoReadOps nand128MiB Device.redirected.fetch .redirected
    (nand128MiB.blockPos 5) 1 ⊤).device

/-- Another block has been erased then. -/
def Device.block6Erased : Device :=
  (nandEraseNand nand128MiB .sound .block5Read
    (.ofBlock nand128MiB 6 (by decide))).device

theorem clean_eraseSound :
    (eraseSound 6 (by decide)).Clean nand128MiB .block5Read := by
  refine ⟨fun _ _ _ => rfl, ?_⟩
  intro cached kept i below
  have page : Device.block5Read.pagebuf = some 320 := by decide +kernel
  rw [page, Option.mem_some_iff] at kept
  have one : EraseInfo.len (.ofBlock nand128MiB 6 (by decide)) >>>
      nand128MiB.physEraseShift = 1 := by decide +kernel
  have first : i = 0 := Nat.lt_one_iff.mp (one ▸ below)
  rw [← kept, first]
  decide +kernel

theorem readsAsUncached_otherBlock :
    ReadsAsUncached nand128MiB .block6Erased (nand128MiB.blockPos 5) 1 ⊤ :=
  @readsAsUncached_of_clean nand128MiB titaniaNandOob64 .redirected .block6Erased
    [readBlock5, eraseSound 6 (by decide)] rfl
    (.cons ⟨trivial, trivial⟩ rfl (.cons clean_eraseSound rfl (.nil _))) _ _ _

/-- Block 5 is read, erased and read again: no block goes bad, and the second read
returns the bytes of before the erase. -/
theorem stale_after_erase :
    ∃ last,
      Run.Steps (fun d call => call.Leaves nand128MiB titaniaNandOob64 d)
          (Call.NothingGoesBad nand128MiB) .redirected
          [readBlock5, eraseSound 5 (by decide)] last ∧
        ¬ ReadsAsUncached nand128MiB last (nand128MiB.blockPos 5) 1 ⊤ := by
  refine ⟨_, .cons trivial rfl (.cons (fun _ _ _ => rfl) rfl (.nil _)), ?_⟩
  intro same
  exact absurd (congrFun (congrFun same 0) 0) (by decide +kernel)

end Gp2Firmware.Linux
