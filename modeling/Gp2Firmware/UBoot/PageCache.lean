import Gp2Firmware.Lib.Run
import Gp2Firmware.UBoot.NandBase

/-!
# The page cache of the boot loader

`nand_read_ecc` keeps the page of an unaligned read in `this->data_buf`, under the number
that it has in the request.  `nand_erase_nand` compares that number with the block that it
erases on the chip.
-/

namespace Gp2Firmware.UBoot

open Gp2Firmware.Nand

variable (g : Geometry)

/-- The page of the chip that has a page of a request. -/
def Device.place (d : Device) (realpage : Nat) : Nat :=
  adjustPage g d.bbm (realpage &&& g.pagemask)

/-- The page in the buffer is the one on the chip. -/
def Coherent (d : Device) : Prop :=
  ∀ page ∈ d.pagebuf, d.dataBuf = d.flash.data (d.place g page)

/-- A page of which a request has bytes. -/
def Requested (ofs len realpage : Nat) : Prop :=
  realpage * g.writesize < ofs + len ∧ ofs < (realpage + 1) * g.writesize

/-! ### Reads without a cache -/

/-- `this->pagebuf` is -1. -/
def ReadState.uncached (r : ReadState) : ReadState :=
  { r with device := { r.device with pagebuf := none } }

/-- The loop of `nand_read_ecc` if `this->pagebuf` were always -1. -/
def uncachedLoop (chip : ChipBehaviour) (len : Nat) : Nat → ReadState → ReadState
  | 0, r => r
  | turns + 1, r =>
      if r.read < len then uncachedLoop chip len turns (readTurn g chip len r.uncached)
      else r

/-- The state in which the loop of `nand_read_ecc` is entered. -/
def readStart (d : Device) (ofs : Nat) (buf : Nat → Byte) : ReadState where
  device := d
  buf := buf
  read := 0
  realpage := ofs >>> g.pageShift
  col := ofs &&& (g.writesize - 1)
  eccFailed := 0

/-- `nand_read_ecc` if `this->pagebuf` were always -1. -/
def nandReadUncached (chip : ChipBehaviour) (d : Device) (ofs len : Nat)
    (buf : Nat → Byte) : Nat → Byte :=
  if g.size < ofs + len then buf
  else (uncachedLoop g chip len len (readStart g d ofs buf)).buf

/-- A read returns the bytes that it would return without the cache. -/
def ReadsAsUncached (chip : ChipBehaviour) (d : Device) (ofs len : Nat)
    (buf : Nat → Byte) : Prop :=
  (nandReadEcc g chip d ofs len buf).buf = nandReadUncached g chip d ofs len buf

/-- The pages of a request come from the chip as they are stored. -/
def ReadsStored (chip : ChipBehaviour) (d : Device) (ofs len : Nat) : Prop :=
  ∀ page, Requested g ofs len page → chip.misread (d.place g page) = none

/-- The bytes that a turn copies. -/
def turnCount (len : Nat) (r : ReadState) : Nat :=
  if r.col = 0 ∧ g.writesize ≤ len - r.read then g.writesize
  else min (g.writesize - r.col) (len - r.read)

/-- A turn delivers its page from the chip and leaves a coherent cache. -/
structure ReadsPage (d : Device) (len : Nat) (r next : ReadState) : Prop where
  buf : next.buf = fun k =>
    if r.read ≤ k ∧ k < r.read + turnCount g len r then
      d.flash.data (d.place g r.realpage) (r.col + (k - r.read))
    else r.buf k
  read : next.read = r.read + turnCount g len r
  realpage : next.realpage = r.realpage + 1
  col : next.col = 0
  flash : next.device.flash = d.flash
  bbm : next.device.bbm = d.bbm
  coherent : Coherent g next.device

/-- A loop over the chip of `d` with a coherent cache. -/
structure Reading (d : Device) (ofs len : Nat) (r : ReadState) : Prop where
  flash : r.device.flash = d.flash
  bbm : r.device.bbm = d.bbm
  coherent : Coherent g r.device
  position : r.read < len →
    r.realpage * g.writesize + r.col = ofs + r.read ∧ r.col < g.writesize

namespace Reading

variable {g} {chip : ChipBehaviour} {d : Device} {ofs len : Nat} {r s : ReadState}

theorem uncached (reading : Reading g d ofs len r) : Reading g d ofs len r.uncached where
  flash := reading.flash
  bbm := reading.bbm
  coherent := fun _ cached => by cases cached
  position := reading.position

theorem requested (reading : Reading g d ofs len r) (more : r.read < len) :
    Requested g ofs len r.realpage := by
  obtain ⟨position, column⟩ := reading.position more
  refine ⟨by omega, ?_⟩
  rw [Nat.add_mul, Nat.one_mul]
  omega

theorem readsPage (reading : Reading g d ofs len r) (stored : ReadsStored g chip d ofs len)
    (more : r.read < len) : ReadsPage g d len r (readTurn g chip len r) := by
  have place : adjustPage g r.device.bbm (r.realpage &&& g.pagemask) =
      d.place g r.realpage := by
    rw [reading.bbm]
    rfl
  have page := stored r.realpage (reading.requested more)
  have data : (if some r.realpage = r.device.pagebuf then r.device.dataBuf
      else (chip.misread (d.place g r.realpage)).getD
        (r.device.flash.data (d.place g r.realpage))) =
      d.flash.data (d.place g r.realpage) := by
    split
    · rename_i cached
      rw [reading.coherent r.realpage cached.symm, reading.flash]
      exact congrArg _ place
    · rw [page, Option.getD_none, reading.flash]
  refine ⟨?_, rfl, rfl, rfl, reading.flash, reading.bbm, ?_⟩
  · simp only [readTurn, place, data]
    rfl
  · intro other kept
    simp only [readTurn, place, data] at kept ⊢
    split at kept
    · rename_i aligned
      rw [if_pos aligned]
      exact reading.coherent other kept
    · rename_i part
      rw [if_neg part, reading.flash, ← Option.mem_some_iff.mp kept]
      exact congrArg _ place.symm

theorem next {next : ReadState} (reading : Reading g d ofs len r) (more : r.read < len)
    (read : ReadsPage g d len r next) : Reading g d ofs len next := by
  refine ⟨read.flash, read.bbm, read.coherent, fun further => ?_⟩
  obtain ⟨position, column⟩ := reading.position more
  have counted := read.read
  rw [read.realpage, read.col, counted]
  rw [counted] at further
  rw [turnCount] at further ⊢
  have next : (r.realpage + 1) * g.writesize = r.realpage * g.writesize + g.writesize := by
    rw [Nat.add_mul, Nat.one_mul]
  rw [next]
  split at further
  · rename_i aligned
    rw [if_pos aligned]
    omega
  · rename_i part
    rw [if_neg part]
    omega

theorem loop (turns : Nat) (reading : Reading g d ofs len r)
    (stored : ReadsStored g chip d ofs len) :
    Reading g d ofs len (readLoop g chip len turns r) := by
  induction turns generalizing r with
  | zero => exact reading
  | succ turns inductionHypothesis =>
      rw [readLoop]
      split
      · rename_i more
        exact inductionHypothesis (reading.next more (reading.readsPage stored more))
      · exact reading

end Reading

/-- Two loops have come to the same bytes and stand at the same page. -/
structure SameBytes (r s : ReadState) : Prop where
  buf : r.buf = s.buf
  read : r.read = s.read
  realpage : r.realpage = s.realpage
  col : r.col = s.col

section

variable {g} {chip : ChipBehaviour} {d : Device} {ofs len : Nat} {r s : ReadState}

theorem SameBytes.readsPage {next other : ReadState} (same : SameBytes r s)
    (left : ReadsPage g d len r next) (right : ReadsPage g d len s other) :
    SameBytes next other := by
  have count : turnCount g len r = turnCount g len s := by
    rw [turnCount, turnCount, same.col, same.read]
  constructor
  · rw [left.buf, right.buf, count, same.buf, same.read, same.realpage, same.col]
  · rw [left.read, right.read, count, same.read]
  · rw [left.realpage, right.realpage, same.realpage]
  · rw [left.col, right.col]

theorem SameBytes.uncached (same : SameBytes r s) : SameBytes r s.uncached :=
  ⟨same.buf, same.read, same.realpage, same.col⟩

/-- A coherent cache does not show in the bytes of a loop. -/
theorem SameBytes.loops (turns : Nat) (same : SameBytes r s)
    (left : Reading g d ofs len r) (right : Reading g d ofs len s)
    (stored : ReadsStored g chip d ofs len) :
    (readLoop g chip len turns r).buf = (uncachedLoop g chip len turns s).buf := by
  induction turns generalizing r s with
  | zero => exact same.buf
  | succ turns inductionHypothesis =>
      rw [readLoop, uncachedLoop, ← same.read]
      split
      · rename_i more
        have further : s.read < len := same.read ▸ more
        have here := left.readsPage stored more
        have there := right.uncached.readsPage stored further
        have next := same.uncached.readsPage here there
        exact inductionHypothesis next (left.next more here)
          (right.uncached.next further there)
      · exact same.buf

theorem Coherent.reading (coherent : Coherent g d) (ofs len : Nat) (buf : Nat → Byte) :
    Reading g d ofs len (readStart g d ofs buf) := by
  refine ⟨rfl, rfl, coherent, fun _ => ?_⟩
  change ofs >>> g.pageShift * g.writesize + (ofs &&& (g.writesize - 1)) = ofs + 0 ∧
    ofs &&& (g.writesize - 1) < g.writesize
  rw [g.shiftRight_pageShift, g.and_writesize, Nat.div_add_mod']
  exact ⟨rfl, Nat.mod_lt _ g.writesize_pos⟩

theorem Coherent.readsAsUncached (coherent : Coherent g d)
    (stored : ReadsStored g chip d ofs len) (buf : Nat → Byte) :
    ReadsAsUncached g chip d ofs len buf := by
  rw [ReadsAsUncached, nandReadEcc, nandReadUncached]
  split
  · rfl
  · exact SameBytes.loops len ⟨rfl, rfl, rfl, rfl⟩ (coherent.reading ofs len buf)
      (coherent.reading ofs len buf) stored

/-- A read leaves a coherent cache. -/
theorem Coherent.read (coherent : Coherent g d) (stored : ReadsStored g chip d ofs len)
    (buf : Nat → Byte) : Coherent g (nandReadEcc g chip d ofs len buf).device := by
  rw [nandReadEcc]
  split
  · exact coherent
  · exact ((coherent.reading ofs len buf).loop len stored).coherent

end

/-! ### Calls -/

/-- The first page of a block of an erase request. -/
def eraseFirstPage (instr : EraseInfo) (i : Nat) : Nat :=
  (instr.addr >>> g.pageShift) + i * g.pagesPerBlock

/-- The page at which the erase of a block starts on the chip. -/
def eraseStart (s : Bbm) (page : Nat) : Nat :=
  if s.nandBbmCheck then
    nandBbmAdjust g s (page <<< g.pageShift) >>> g.pageShift &&& g.pagemask
  else page

/-- No new block goes bad: pages are read as they are stored and can be programmed,
and the blocks that an erase looks up are good. -/
def Operation.NothingGoesBad (d : Device) : Operation → Prop
  | .read chip ofs len => ReadsStored g chip d ofs len
  | .write chip ofs len _ =>
      ∀ page, Requested g ofs len page →
        ∀ tick, chip.programFails tick (d.place g page) = false
  | .erase chip instr =>
      d.bbm.nandBbmCheck = true →
        ∀ i < instr.len >>> g.physEraseShift,
          chip.blockBad
            (nandBbmAdjust g d.bbm (eraseFirstPage g instr i <<< g.pageShift)) = false
  | _ => True

/-- The cached page is not changed on the chip under another number: no other page of
a write is stored in its place, and a block that is erased on the chip has its number
if it has its place.  What changes the map leaves it in its place. -/
def Operation.KeepsCache (d : Device) : Operation → Prop
  | .read .. => True
  | .write _ ofs len _ =>
      ∀ cached ∈ d.pagebuf, ∀ i < len >>> g.pageShift,
        d.place g (ofs >>> g.pageShift + i) = d.place g cached →
          ofs >>> g.pageShift + i = cached
  | .erase _ instr =>
      ∀ cached ∈ d.pagebuf, ∀ i < instr.len >>> g.physEraseShift,
        let start := eraseStart g d.bbm (eraseFirstPage g instr i)
        (start &&& g.pagemask ≤ d.place g cached ∧
            d.place g cached < (start &&& g.pagemask) + g.pagesPerBlock) →
          start ≤ cached ∧ cached < start + g.pagesPerBlock
  | op => ∀ cached ∈ d.pagebuf, (d.step g op).place g cached = d.place g cached

/-- A call during which no new block goes bad, and that does not change the cached
page behind the cache. -/
def Operation.Clean (d : Device) (op : Operation) : Prop :=
  op.NothingGoesBad g d ∧ op.KeepsCache g d

/-- The map is the same, and at most the same page is cached. -/
structure Later (d next : Device) : Prop where
  bbm : next.bbm = d.bbm
  pagebuf : ∀ cached ∈ next.pagebuf, cached ∈ d.pagebuf

/-- An erase finds a good block, and does not change the cached page behind the
cache. -/
structure CleanErase (chip : ChipBehaviour) (d : Device) (page : Nat) : Prop where
  good : d.bbm.nandBbmCheck = true →
    chip.blockBad (nandBbmAdjust g d.bbm (page <<< g.pageShift)) = false
  keeps : ∀ cached ∈ d.pagebuf,
    (eraseStart g d.bbm page &&& g.pagemask ≤ d.place g cached ∧
        d.place g cached < (eraseStart g d.bbm page &&& g.pagemask) + g.pagesPerBlock) →
      eraseStart g d.bbm page ≤ cached ∧
        cached < eraseStart g d.bbm page + g.pagesPerBlock

section

variable {g} {chip : ChipBehaviour} {d next : Device}

theorem Later.refl (d : Device) : Later d d :=
  ⟨rfl, fun _ kept => kept⟩

theorem Later.place (later : Later d next) (page : Nat) :
    next.place g page = d.place g page := by
  unfold Device.place
  rw [later.bbm]

/-! ### Erases -/

theorem CleanErase.later {page : Nat} (clean : CleanErase g chip d page)
    (later : Later d next) : CleanErase g chip next page := by
  refine ⟨?_, ?_⟩
  · rw [later.bbm]
    exact clean.good
  · intro cached kept
    rw [later.bbm, later.place]
    exact clean.keeps cached (later.pagebuf cached kept)

theorem CleanErase.erasePage {page : Nat} (clean : CleanErase g chip d page) :
    UBoot.erasePage g chip d.bbm page = (eraseStart g d.bbm page, d.bbm) := by
  unfold UBoot.erasePage eraseStart
  by_cases check : d.bbm.nandBbmCheck = true
  · simp only [check, if_true, nandBbmAdjustCheck_of_good clean.good]
  · simp only [check, if_false, Bool.false_eq_true]

theorem CleanErase.turn {page : Nat} (clean : CleanErase g chip d page) :
    Later d (eraseTurn g chip d page).2 := by
  simp only [eraseTurn, clean.erasePage]
  split
  · exact .refl d
  · exact ⟨rfl, fun cached kept => (Option.mem_filter_iff.mp kept).1⟩

theorem CleanErase.coherent {page : Nat} (clean : CleanErase g chip d page)
    (coherent : Coherent g d) : Coherent g (eraseTurn g chip d page).2 := by
  intro cached kept
  have place := clean.turn.place (g := g) cached
  rw [place]
  simp only [eraseTurn, clean.erasePage] at kept ⊢
  split at kept
  · rename_i bad
    rw [if_pos bad]
    exact coherent cached kept
  · rename_i good
    rw [if_neg good]
    rcases Option.mem_filter_iff.mp kept with ⟨before, outside⟩
    have elsewhere : ¬ (eraseStart g d.bbm page &&& g.pagemask ≤ d.place g cached ∧
        d.place g cached <
          (eraseStart g d.bbm page &&& g.pagemask) + g.pagesPerBlock) := by
      intro inside
      exact absurd (clean.keeps cached before inside) (of_decide_eq_true outside)
    exact (coherent cached before).trans (Flash.eraseBlock_other elsewhere).symm

theorem coherent_eraseLoop {left page : Nat} {instr : EraseInfo}
    (coherent : Coherent g d)
    (clean : ∀ i < left, CleanErase g chip d (page + i * g.pagesPerBlock)) :
    Coherent g (eraseLoop g chip left page instr d).2 := by
  induction left generalizing page d with
  | zero => exact coherent
  | succ left inductionHypothesis =>
      have here : CleanErase g chip d page := by
        have first := clean 0 (Nat.succ_pos left)
        rwa [Nat.zero_mul, Nat.add_zero] at first
      have next := here.coherent coherent
      have later := here.turn
      rw [eraseLoop]
      rcases turn : eraseTurn g chip d page with ⟨status, after⟩
      rw [turn] at next later
      rcases status with _ | _ | _
      · exact next
      · refine inductionHypothesis next fun i below => ?_
        have clean := (clean (i + 1) (Nat.succ_lt_succ below)).later later
        rwa [Nat.add_mul, Nat.one_mul, Nat.add_comm (i * _), ← Nat.add_assoc] at clean
      · exact next

theorem Coherent.erase {instr : EraseInfo} (coherent : Coherent g d)
    (clean : (Operation.erase chip instr).Clean g d) :
    Coherent g (nandEraseNand g chip d instr).device := by
  rcases clean with ⟨good, keeps⟩
  unfold nandEraseNand
  split
  · exact coherent
  · split
    · exact coherent
    · split
      · exact coherent
      · by_cases locked : chip.writeProtected = true
        · simp only [locked, if_true]
          exact coherent
        · simp only [locked, if_false, Bool.false_eq_true]
          exact coherent_eraseLoop coherent fun i below =>
            ⟨fun check => good check i below, fun cached kept => keeps cached kept i below⟩

/-! ### Writes -/

theorem coherent_writePage {page : Nat} {data : Page} (coherent : Coherent g d)
    (apart : ∀ cached ∈ d.pagebuf, adjustPage g d.bbm page ≠ d.place g cached) :
    Coherent g (nandWritePage chip d (adjustPage g d.bbm page) data).2 := by
  intro cached kept
  have other : (d.flash.programPage chip (adjustPage g d.bbm page) data ⊤).2.data
      (d.place g cached) = d.flash.data (d.place g cached) :=
    Flash.programPage_other (apart cached kept).symm data ⊤
  exact (coherent cached kept).trans other.symm

/-- The loop of a write none of whose pages has the place of the cached one. -/
theorem coherent_writeLoop {buf : Nat → Byte} {left page written retlen : Nat}
    (coherent : Coherent g d) (inside : ∀ i < left, page + i < g.pages)
    (apart : ∀ cached ∈ d.pagebuf, ∀ i < left,
      d.place g (page + i) ≠ d.place g cached) :
    Coherent g (writeLoop g chip buf left page written retlen d).device := by
  induction left generalizing page written retlen d with
  | zero => exact coherent
  | succ left inductionHypothesis =>
      have first : page < g.pages := inside 0 (Nat.succ_pos left)
      have next : Coherent g (nandWritePage chip d (adjustPage g d.bbm page)
          (fun column => buf (written + column))).2 := by
        refine coherent_writePage coherent fun cached kept => ?_
        have here := apart cached kept 0 (Nat.succ_pos left)
        rwa [Nat.add_zero, Device.place, g.and_pagemask first] at here
      have later (i : Nat) (below : i < left) : page + 1 + i < g.pages := by
        have := inside (i + 1) (Nat.succ_lt_succ below)
        omega
      have others : ∀ cached ∈ d.pagebuf, ∀ i < left,
          d.place g (page + 1 + i) ≠ d.place g cached := by
        intro cached kept i below
        rw [Nat.add_assoc, Nat.add_comm 1]
        exact apart cached kept (i + 1) (Nat.succ_lt_succ below)
      simp only [writeLoop]
      split
      · exact next
      · split
        · rcases Nat.eq_zero_or_pos left with rfl | more
          · exact next
          · have masked := g.and_pagemask (later 0 more)
            rw [Nat.add_zero] at masked
            rw [masked]
            exact inductionHypothesis next later others
        · exact inductionHypothesis next later others

/-- A cache may drop its page. -/
theorem Coherent.forget (coherent : Coherent g d) (keep : Nat → Bool) :
    Coherent g { d with pagebuf := d.pagebuf.filter keep } :=
  fun cached kept => coherent cached (Option.mem_filter_iff.mp kept).1

theorem Coherent.write {ofs len : Nat} {buf : Nat → Byte} (coherent : Coherent g d)
    (keeps : (Operation.write chip ofs len buf).KeepsCache g d) :
    Coherent g (nandWriteEcc g chip d ofs len buf).device := by
  rw [nandWriteEcc]
  split
  · exact coherent
  · rename_i inside
    split
    · exact coherent
    · split
      · exact coherent
      · have pages : ofs >>> g.pageShift + len >>> g.pageShift ≤ g.pages := by
          have total := g.pages_mul_writesize
          rw [g.shiftRight_pageShift, g.shiftRight_pageShift]
          refine Nat.div_add_div_le_add_div.trans ?_
          exact Nat.div_le_of_le_mul (by rw [Nat.mul_comm, total]; omega)
        dsimp only
        rcases Nat.eq_zero_or_pos (len >>> g.pageShift) with none | some
        · rw [none]
          exact coherent.forget _
        · have first : ofs >>> g.pageShift &&& g.pagemask = ofs >>> g.pageShift :=
            g.and_pagemask (by omega)
          rw [first]
          refine coherent_writeLoop (coherent.forget _) (fun i below => by omega) ?_
          intro cached kept i below same
          rcases Option.mem_filter_iff.mp kept with ⟨before, outside⟩
          have equal := keeps cached before i below same
          exact of_decide_eq_true outside ⟨by omega, by omega⟩

/-! ### Runs -/

/-- What leaves the chip and the buffer as they are and the cached page in its place. -/
theorem Coherent.remap {s : Bbm} (coherent : Coherent g d)
    (keeps : ∀ cached ∈ d.pagebuf, { d with bbm := s }.place g cached = d.place g cached) :
    Coherent g { d with bbm := s } := by
  intro cached kept
  rw [keeps cached kept]
  exact coherent cached kept

theorem Coherent.step (d : Device) (op : Operation) (coherent : Coherent g d)
    (clean : op.Clean g d) : Coherent g (d.step g op) := by
  have keeps := clean.2
  cases op with
  | read chip ofs len => exact coherent.read clean.1 _
  | write chip ofs len buf => exact coherent.write keeps
  | erase chip instr => exact coherent.erase clean
  | assignBlock chip badpos => exact coherent.remap keeps
  | setCheck value => exact coherent.remap keeps
  | blockIsbad chip ofs =>
      change ∀ cached ∈ d.pagebuf,
        (nandBlockIsbad g chip d ofs).2.place g cached = d.place g cached at keeps
      change Coherent g (nandBlockIsbad g chip d ofs).2
      unfold nandBlockIsbad at keeps ⊢
      split
      · exact coherent
      · rename_i inside
        rw [if_neg inside] at keeps
        exact coherent.remap keeps

end

/-- In every run from a cold cache whose calls do not change the cached page behind
the cache, a read returns the bytes that it would return without it. -/
theorem reads_of_clean {d : Device} {ops : List Operation} (cold : d.pagebuf = none)
    (clean : Run.Meets (Device.step g) (Operation.Clean g) d ops)
    {chip : ChipBehaviour} {ofs len : Nat}
    (stored : ReadsStored g chip (d.run g ops) ofs len) (buf : Nat → Byte) :
    ReadsAsUncached g chip (d.run g ops) ofs len buf := by
  have coherent : Coherent g d := by
    intro cached kept
    rw [cold] at kept
    cases kept
  exact (clean.keeps Coherent.step coherent).readsAsUncached stored buf

/-- A programmed chip of 128 MiB on which block 5 has been redirected. -/
def Device.redirected : Device :=
  { Device.powerOn with
    bbm :=
      (Nand.nandBbmAssignBlock nand128MiB (fun _ => false)
        (nandBbmInfoInit nand128MiB Bbm.boot) (nand128MiB.blockPos 5)).2
    flash := { Flash.erased with data := fun _ => ⊥ } }

/-- The read of the first byte of block 5. -/
def readBlock5 : Operation := .read .sound (nand128MiB.blockPos 5) 1

/-- The erase of a block of a chip on which nothing fails. -/
def eraseSound (block : Nat) (inside : block < nand128MiB.blocks) : Operation :=
  .erase .sound (.ofBlock nand128MiB block inside)

theorem clean_eraseSound :
    (eraseSound 6 (by decide)).Clean nand128MiB
      (Device.redirected.step nand128MiB readBlock5) := by
  refine ⟨fun _ _ _ => rfl, ?_⟩
  intro cached kept i below
  have page : (Device.redirected.step nand128MiB readBlock5).pagebuf = some 320 := by
    decide +kernel
  rw [page, Option.mem_some_iff] at kept
  have one : EraseInfo.len (.ofBlock nand128MiB 6 (by decide)) >>>
      nand128MiB.physEraseShift = 1 := by decide +kernel
  have first : i = 0 := Nat.lt_one_iff.mp (one ▸ below)
  rw [← kept, first]
  decide +kernel

theorem reads_of_otherErase :
    ReadsAsUncached nand128MiB .sound
      (Device.redirected.run nand128MiB [readBlock5, eraseSound 6 (by decide)])
      (nand128MiB.blockPos 5) 1 ⊤ := by
  have clean : Run.Meets (Device.step nand128MiB) (Operation.Clean nand128MiB)
      .redirected [readBlock5, eraseSound 6 (by decide)] :=
    ⟨⟨fun _ _ => rfl, trivial⟩, clean_eraseSound, trivial⟩
  exact reads_of_clean nand128MiB rfl clean (fun _ _ => rfl) ⊤

/-- Block 5 is read, erased and read again: no block goes bad, and the second read
returns the bytes of before the erase. -/
theorem old_bytes_after_erase :
    let ops := [readBlock5, eraseSound 5 (by decide)]
    Run.Meets (Device.step nand128MiB) (Operation.NothingGoesBad nand128MiB)
        .redirected ops ∧
      ¬ ReadsAsUncached nand128MiB .sound (Device.redirected.run nand128MiB ops)
        (nand128MiB.blockPos 5) 1 ⊤ := by
  refine ⟨⟨fun _ _ => rfl, fun _ _ _ => rfl, trivial⟩, ?_⟩
  intro same
  exact absurd (congrFun (congrFun same 0) 0) (by decide +kernel)

end Gp2Firmware.UBoot
