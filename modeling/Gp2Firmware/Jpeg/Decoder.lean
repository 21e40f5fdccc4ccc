import Mathlib.Data.List.Perm.Basic
import Gp2Firmware.Lib.Effects
import Gp2Firmware.Jpeg.BlockTraversal
import Gp2Firmware.Jpeg.HuffmanTable
import Gp2Firmware.Jpeg.MemoryPool
import Gp2Firmware.Jpeg.Thumbnail

/-!
# The JPEG decoder and its blocks

All buffers of the decoder come from its memory pool and are noted in the table
`_pBlocks`.  An error is handled by `MDrv_JPEG_terminate`, which frees all of
them and returns; nothing jumps back to the caller of the decoder.
-/

namespace Gp2Firmware.Jpeg.Decoder

open Gp2Firmware.Lib (Effects)
open Gp2Firmware.Lib.WordMemory Gp2Firmware.Jpeg.BitReader
  Gp2Firmware.Jpeg.HuffmanTable Gp2Firmware.Jpeg.Mcu

inductive JpegError where
  | badDhtCounts
  | badDhtIndex
  | badDhtMarker
  | badDqtMarker
  | badDqtTable
  | badDqtLength
  | badPrecision
  | badHeight
  | badWidth
  | tooManyComponents
  | badSofLength
  | badVariableMarker
  | badDriLength
  | badSosLength
  | badSosCompId
  | noArithmeticSupport
  | unexpectedMarker
  | notJpeg
  | unsupportedMarker
  | tooManyBlocks
  | undefinedQuantTable
  | undefinedHuffTable
  | unsupportedColorspace
  | unsupportedSampFactors
  | decodeError
  | badRestartMarker
  | assertionError
  | badSosSpectral
  | badSosSuccessive
  | notEnoughMem
  | badApp1Marker
  | svldDecodeError
  | readBufferTooSmall
  deriving DecidableEq, Repr

inductive DecodeType where
  | main
  | thumbnail
  | mjpeg
  deriving DecidableEq, Repr

/-- What is noted about a run: the calls of `MDrv_JPEG_terminate`, the markers that are met,
the lengths of the segments that are skipped, what `alloc` returns, and the components
whose coefficient buffers are open. -/
inductive Note where
  | terminate (status : JpegError)
  | marker (c : U8)
  | skip (left : Nat)
  | alloc (q : Address)
  | opened (c : Nat)
  deriving DecidableEq

structure QuantTable where
  valid : Bool
  value : Nat → U16

/-- The table of the blocks, and what is no variable of the source: the blocks that the pool
has given out and not got back, the frees of other blocks, and the notes. -/
structure Books where
  blocks : List Address
  live : List Address
  strayFrees : List Address
  log : List Note

/-- The variables of the decoder, and how often it has read the status of the hardware. -/
structure State where
  reader : Reader
  internalBufferSize : U32
  decodeType : DecodeType
  thumbnail : Thumbnail.State
  originalImageSize : Nat × Nat
  progressiveFlag : Bool
  huffInfo : Nat → HuffInfo
  huffTbls : Nat → HuffTables
  quantTables : Nat → QuantTable
  precision : Nat
  frame : Frame
  compQuant : Nat → Nat
  compIdent : Nat → Nat
  lumaCi : Nat
  chromaCi : Nat
  compsInScan : Nat
  compList : Nat → Nat
  compDcTab : Nat → Nat
  compAcTab : Nat → Nat
  spectralStart : Nat
  spectralEnd : Nat
  successiveHigh : Nat
  successiveLow : Nat
  layout : Layout
  order : McuOrder
  totalLinesLeft : Nat
  blockYMcu : Nat → Nat
  dcCoeffs : Nat → Address
  acCoeffs : Nat → Address
  lastDcVal : Nat → U32
  eobRun : U32
  restartInterval : Nat
  restartsLeft : Nat
  nextRestartNum : Nat
  dcPred : Nat → BitVec 16
  rleOffset : U32
  firstRle : Bool
  preloadLHFlag : Nat
  fileReadEnd : Bool
  statusReads : Nat
  books : Books

def JPEG_MAXBLOCKS : Nat := 50

def noBlocks : List Address :=
  List.replicate JPEG_MAXBLOCKS 0

def noHuffInfo : HuffInfo :=
  ⟨false, fun _ => 0, fun _ => 0, fun _ => 0, fun _ => 0⟩

def noHuffTables : HuffTables :=
  ⟨fun _ => 0, fun _ => 0, fun _ => 0⟩

/-- The variables before the first call. -/
def State.start (reader : Reader) : State where
  reader := reader
  internalBufferSize := 0
  decodeType := .main
  thumbnail := .init
  originalImageSize := (0, 0)
  progressiveFlag := false
  huffInfo _ := noHuffInfo
  huffTbls _ := noHuffTables
  quantTables _ := ⟨false, fun _ => 0⟩
  precision := 0
  frame := ⟨0, 0, 0, fun _ => 0, fun _ => 0⟩
  compQuant _ := 0
  compIdent _ := 0
  lumaCi := 1
  chromaCi := 2
  compsInScan := 0
  compList _ := 0
  compDcTab _ := 0
  compAcTab _ := 0
  spectralStart := 0
  spectralEnd := 0
  successiveHigh := 0
  successiveLow := 0
  layout := ⟨.grayscale, 0, 0, 0, 0, 0, 0, 0⟩
  order := ⟨fun _ => 0, fun _ => 0, 0, 0, []⟩
  totalLinesLeft := 0
  blockYMcu _ := 0
  dcCoeffs _ := 0
  acCoeffs _ := 0
  lastDcVal _ := 0
  eobRun := 0
  restartInterval := 0
  restartsLeft := 0
  nextRestartNum := 0
  dcPred _ := 0
  rleOffset := 0
  firstRle := false
  preloadLHFlag := 0
  fileReadEnd := false
  statusReads := 0
  books := ⟨noBlocks, [], [], []⟩

/-- What the decoder works with: the list head of the pool, the one who brings the next part
of the stream, what memory holds behind `extend_test` and `extend_offset`, what the hardware
says when its status is read, the greatest sizes of pictures, and how often a loop without
an end of its own is gone through at most. -/
structure Machine where
  avail : Address
  wait : Wait
  beyond : Nat → Int × Int
  jpdStatus : Nat → U16
  progressiveSize : Int × Int
  baselineSize : Int × Int
  turns : Nat

section Code

def Books.free (books : Books) (q : Address) : Books :=
  { books with
    live := books.live.erase q
    strayFrees := if q ∈ books.live then books.strayFrees else books.strayFrees ++ [q] }

def note (n : Note) : Program State Unit :=
  modify fun s => { s with books := { s.books with log := s.books.log ++ [n] } }

def setMemory (change : Memory → Memory) : Program State Unit :=
  modify fun s => { s with reader := { s.reader with memory := change s.reader.memory } }

/-- A part of the decoder that reads the stream. -/
def reading {α : Type} (read : Reader → α × Reader) : Program State α := fun s =>
  some ((read s.reader).1, { s with reader := (read s.reader).2 })

variable (machine : Machine)

/-- `MDrv_JPEG_free` -/
def freeBlock (q : Address) : Program State Unit := fun s =>
  (MemoryPool.free machine.avail q s.reader.memory).map fun memory =>
    ((), { s with
      reader := { s.reader with memory := memory }
      books := s.books.free q })

/-- `MDrv_JPEG_malloc` -/
def mallocBlock (size : U32) : Program State Address := fun s =>
  (MemoryPool.malloc machine.avail size s.reader.memory).map fun (q, memory) =>
    (q, { s with
      reader := { s.reader with memory := memory }
      books := if q = 0 then s.books else { s.books with live := q :: s.books.live } })

def freeBlocks : List Address → Program State Unit
  | [] => pure ()
  | q :: rest =>
      if q = 0 then
        freeBlocks rest
      else do
        freeBlock machine q
        freeBlocks rest

def freeAllBlocks : Program State Unit := do
  freeBlocks machine (← get).books.blocks
  modify fun s => { s with books := { s.books with blocks := noBlocks } }

def terminate (status : JpegError) : Program State Unit := do
  note (.terminate status)
  freeAllBlocks machine

/-- The error is handled and the caller told about it. -/
def fail (status : JpegError) : Program State Bool := do
  terminate machine status
  pure false

/-- `NULL` behind an error. -/
def noBlock (status : JpegError) : Program State Address := do
  terminate machine status
  note (.alloc 0)
  pure 0

/-- A block that is cleared and put into a slot of the table. -/
def enterBlock (i : Nat) (q : Address) (size : U32) : Program State Address := do
  setMemory fun memory => fill memory q size 0
  modify fun s => { s with books := { s.books with blocks := s.books.blocks.set i q } }
  note (.alloc q)
  pure q

/-- A block of `n` bytes for a free slot of the table. -/
def allocFor (n : U32) : Option Nat → Program State Address
  | none => noBlock machine .tooManyBlocks
  | some i => do
      let q ← mallocBlock machine (n + 8)
      if q = 0 then
        noBlock machine .notEnoughMem
      else
        enterBlock i q (n + 8)

def alloc (n : U32) : Program State Address := do
  allocFor machine n ((← get).books.blocks.findIdx? (· = 0))

end Code

section CoeffBuf

def loadShort (memory : Memory) (address : Address) : U16 :=
  memory (address + 1) ++ memory address

def storeShort (memory : Memory) (address : Address) (value : U16) : Memory :=
  Function.update (Function.update memory address (value.setWidth 8)) (address + 1)
    ((value >>> 8).setWidth 8)

/-- The fields of a `COEFF_BUF`, with the lengths of a block in the bytes 8 and 9. -/
def pu8Data (memory : Memory) (cb : Address) : Address :=
  load memory cb

def blockNumX (memory : Memory) (cb : Address) : U16 :=
  loadShort memory (cb + 4)

def blockNumY (memory : Memory) (cb : Address) : U16 :=
  loadShort memory (cb + 6)

def blockSize (memory : Memory) (cb : Address) : U16 :=
  loadShort memory (cb + 10)

def SIZEOF_COEFF_BUF : U32 := 12

variable (machine : Machine)

/-- The buffer is returned without its data as well. -/
def coeffBufOpen (blockNumX blockNumY : U16) (blockLenX blockLenY : U8) :
    Program State Address := do
  let cb ← alloc machine SIZEOF_COEFF_BUF
  if cb = 0 then
    terminate machine .notEnoughMem
    pure 0
  else
    let size : U16 := blockLenX.setWidth 16 * blockLenY.setWidth 16 * 2
    setMemory fun memory =>
      let memory := storeShort memory (cb + 4) blockNumX
      let memory := storeShort memory (cb + 6) blockNumY
      let memory := Function.update memory (cb + 8) blockLenX
      let memory := Function.update memory (cb + 9) blockLenY
      storeShort memory (cb + 10) size
    let data ← alloc machine
      (size.setWidth 32 * blockNumX.setWidth 32 * blockNumY.setWidth 32)
    setMemory fun memory => store memory cb data
    if data = 0 then
      terminate machine .notEnoughMem
      pure cb
    else
      pure cb

/-- The address of a block, `NULL` behind an error; nothing if there is no buffer. -/
def coeffBufGetp (cb : Address) (blockX blockY : Nat) : Program State Address := do
  let memory := (← get).reader.memory
  if cb = 0 then
    fun _ => none
  else if (blockNumX memory cb).toNat ≤ blockX then
    terminate machine .assertionError
    pure 0
  else if (blockNumY memory cb).toNat ≤ blockY then
    terminate machine .assertionError
    pure 0
  else
    let size := (blockSize memory cb).setWidth 32
    pure (pu8Data memory cb + BitVec.ofNat 32 blockX * size +
      BitVec.ofNat 32 blockY * (size * (blockNumX memory cb).setWidth 32))

end CoeffBuf

section Bookkeeping

/-- The blocks in the table are those that the pool has given out, and none was freed that
was not. -/
structure Books.Kept (books : Books) : Prop where
  same : (books.blocks.filter (· ≠ 0)).Perm books.live
  noStray : books.strayFrees = []

/-- A block is live that is not in the table. -/
def Books.Leaks (books : Books) : Prop :=
  ∃ q, (books.blocks.filter (· ≠ 0)).count q < books.live.count q

theorem Books.Kept.not_leaks {books : Books} (kept : books.Kept) : ¬ books.Leaks := by
  intro leaks
  obtain ⟨q, less⟩ := leaks
  rw [kept.same.count_eq] at less
  exact absurd less (lt_irrefl _)

/-- No error is handled. -/
def Quiet (notes : List Note) : Prop :=
  ∀ status, Note.terminate status ∉ notes

theorem quiet_append {first second : List Note} :
    Quiet (first ++ second) ↔ Quiet first ∧ Quiet second := by
  simp [Quiet, forall_and]

theorem not_quiet_of_mem {status : JpegError} {notes : List Note}
    (member : .terminate status ∈ notes) : ¬ Quiet notes :=
  fun quiet => quiet status member

/-- What the parts of the decoder do to the blocks: they keep the books, they do not find a
block again that was lost, and unless an error is handled, all blocks stay that were given
out. -/
structure Does (s : State) (notes : List Note) (t : State) : Prop where
  log : t.books.log = s.books.log ++ notes
  kept : s.books.Kept → t.books.Kept
  leaks : s.books.Leaks → t.books.Leaks
  live : Quiet notes → ∀ q ∈ s.books.live, q ∈ t.books.live
  given : Quiet notes → ∀ q, .alloc q ∈ notes → q ∈ t.books.live
  dcOpen : Quiet notes → ∀ c, s.dcCoeffs c ∈ s.books.live ∨ .opened c ∈ notes →
    t.dcCoeffs c ∈ t.books.live
  acOpen : Quiet notes → ∀ c, s.acCoeffs c ∈ s.books.live ∨ .opened c ∈ notes →
    t.acCoeffs c ∈ t.books.live

def effects : Effects State Note where
  does := Does
  refl s :=
    { log := by simp
      kept := id
      leaks := id
      live := fun _ _ member => member
      given := by simp
      dcOpen := by simp
      acOpen := by simp }
  trans {s t u first second} := by
    intro before behind
    constructor
    · rw [behind.log, before.log, List.append_assoc]
    · exact fun kept => behind.kept (before.kept kept)
    · exact fun leaks => behind.leaks (before.leaks leaks)
    · intro quiet q member
      obtain ⟨quietFirst, quietSecond⟩ := quiet_append.mp quiet
      exact behind.live quietSecond q (before.live quietFirst q member)
    · intro quiet q member
      obtain ⟨quietFirst, quietSecond⟩ := quiet_append.mp quiet
      rcases List.mem_append.mp member with early | late
      · exact behind.live quietSecond q (before.given quietFirst q early)
      · exact behind.given quietSecond q late
    · intro quiet c opened
      obtain ⟨quietFirst, quietSecond⟩ := quiet_append.mp quiet
      rw [List.mem_append, ← or_assoc] at opened
      exact behind.dcOpen quietSecond c (opened.imp_left (before.dcOpen quietFirst c))
    · intro quiet c opened
      obtain ⟨quietFirst, quietSecond⟩ := quiet_append.mp quiet
      rw [List.mem_append, ← or_assoc] at opened
      exact behind.acOpen quietSecond c (opened.imp_left (before.acOpen quietFirst c))

end Bookkeeping

section Blocks

variable {machine : Machine}

/-- A change that leaves the blocks alone. -/
structure SameBooks (s t : State) : Prop where
  books : t.books = s.books
  dcCoeffs : t.dcCoeffs = s.dcCoeffs
  acCoeffs : t.acCoeffs = s.acCoeffs

theorem SameBooks.does {s t : State} (same : SameBooks s t) : Does s [] t where
  log := by rw [same.books, List.append_nil]
  kept kept := by rwa [same.books]
  leaks leaks := by rwa [same.books]
  live _ q member := by rwa [same.books]
  given := by simp
  dcOpen _ c opened := by simpa [same.books, same.dcCoeffs] using opened
  acOpen _ c opened := by simpa [same.books, same.acCoeffs] using opened

theorem silent_of_same {α : Type} {m : Program State α}
    (same : ∀ s a t, m s = some (a, t) → SameBooks s t) : effects.Silent m := by
  intro s a t ran
  exact ⟨[], (same s a t ran).does, rfl⟩

theorem silent_change {change : State → State} (same : ∀ s, SameBooks s (change s)) :
    effects.Silent (modify change : Program State PUnit) :=
  Effects.silent_modify fun s => (same s).does

theorem takes_change {β : Type} {change : State → State} {rest : PUnit → Program State β}
    {behind : β → List Note → Prop} (same : ∀ s, SameBooks s (change s))
    (later : effects.Takes (rest ()) behind) :
    effects.Takes (modify change >>= rest) behind :=
  (silent_change same).bind fun _ => later

theorem silent_reading {α : Type} {read : Reader → α × Reader} :
    effects.Silent (reading read) := by
  apply silent_of_same
  intro s a t ran
  obtain ⟨-, rfl⟩ := Prod.mk.inj (Option.some.inj ran)
  constructor <;> rfl

theorem silent_setMemory {change : Memory → Memory} : effects.Silent (setMemory change) := by
  apply silent_change
  intro s
  constructor <;> rfl

/-- A note that is neither of a block nor of an open buffer. -/
theorem takes_note {n : Note} (noBlock : ∀ q, n ≠ .alloc q) (noBuffer : ∀ c, n ≠ .opened c) :
    effects.Takes (note n) fun _ notes => notes = [n] := by
  intro s a t ran
  obtain ⟨-, rfl⟩ := Prod.mk.inj (Option.some.inj ran)
  refine ⟨[n], ?_, rfl⟩
  constructor
  · rfl
  · exact fun kept => ⟨kept.same, kept.noStray⟩
  · exact fun leaks => leaks
  · exact fun _ _ member => member
  · intro _ q member
    exact absurd (List.mem_singleton.mp member).symm (noBlock q)
  · intro _ c opened
    rcases opened with here | member
    · exact here
    · exact absurd (List.mem_singleton.mp member).symm (noBuffer c)
  · intro _ c opened
    rcases opened with here | member
    · exact here
    · exact absurd (List.mem_singleton.mp member).symm (noBuffer c)

theorem freeBlock_spec {q : Address} {s t : State} {u : Unit}
    (ran : freeBlock machine q s = some (u, t)) : t.books = s.books.free q := by
  obtain ⟨memory, -, freed⟩ := Option.map_eq_some_iff.mp ran
  obtain ⟨-, rfl⟩ := Prod.mk.inj freed
  rfl

/-- The frees of some blocks, and of all that are live if those are in the list. -/
theorem freeBlocks_spec {blocks : List Address} {s t : State} {u : Unit}
    (ran : freeBlocks machine blocks s = some (u, t)) :
    t.books.log = s.books.log ∧
      ((blocks.filter (· ≠ 0)).Perm s.books.live → s.books.strayFrees = [] →
        t.books.live = [] ∧ t.books.strayFrees = []) := by
  induction blocks generalizing s with
  | nil =>
      obtain ⟨-, rfl⟩ := Prod.mk.inj (Option.some.inj ran)
      refine ⟨rfl, ?_⟩
      intro same noStray
      exact ⟨List.nil_perm.mp same, noStray⟩
  | cons q rest inductionHypothesis =>
      rw [freeBlocks] at ran
      by_cases zero : q = 0
      · rw [if_pos zero] at ran
        rw [List.filter_cons_of_neg (by simp [zero])]
        exact inductionHypothesis ran
      · rw [if_neg zero] at ran
        obtain ⟨⟨u', s'⟩, freed, later⟩ := Option.bind_eq_some_iff.mp ran
        have books := freeBlock_spec freed
        obtain ⟨log, empty⟩ := inductionHypothesis later
        rw [books] at log empty
        refine ⟨log, ?_⟩
        intro same noStray
        rw [List.filter_cons_of_pos (by simpa using zero)] at same
        have member : q ∈ s.books.live := same.mem_iff.mp List.mem_cons_self
        apply empty
        · have erased := same.erase q
          rwa [List.erase_cons_head] at erased
        · simp [Books.free, member, noStray]

/-- A block that is live more often than it is freed stays live. -/
theorem freeBlocks_leaks {blocks : List Address} {s t : State} {u : Unit} {q : Address}
    (ran : freeBlocks machine blocks s = some (u, t))
    (less : (blocks.filter (· ≠ 0)).count q < s.books.live.count q) :
    0 < t.books.live.count q := by
  induction blocks generalizing s with
  | nil =>
      obtain ⟨-, rfl⟩ := Prod.mk.inj (Option.some.inj ran)
      exact less
  | cons p rest inductionHypothesis =>
      rw [freeBlocks] at ran
      by_cases zero : p = 0
      · rw [if_pos zero] at ran
        rw [List.filter_cons_of_neg (by simp [zero])] at less
        exact inductionHypothesis ran less
      · rw [if_neg zero] at ran
        obtain ⟨⟨u', s'⟩, freed, later⟩ := Option.bind_eq_some_iff.mp ran
        have books := freeBlock_spec freed
        apply inductionHypothesis later
        rw [List.filter_cons_of_pos (by simpa using zero), List.count_cons] at less
        rw [books, Books.free, List.count_erase]
        by_cases same : p = q
        · rw [same, beq_self_eq_true, if_pos rfl] at less ⊢
          omega
        · rw [if_neg (by simpa using same)] at less
          rw [if_neg (by simpa using same)]
          exact less

theorem filter_noBlocks : noBlocks.filter (· ≠ 0) = [] := by
  decide

theorem kept_of_empty {books : Books} (blocks : books.blocks = noBlocks)
    (live : books.live = []) (noStray : books.strayFrees = []) : books.Kept := by
  refine ⟨?_, noStray⟩
  rw [blocks, filter_noBlocks, live]

/-- A live block is lost where the table is cleared. -/
theorem leaks_of_live {books : Books} {q : Address} (blocks : books.blocks = noBlocks)
    (live : 0 < books.live.count q) : books.Leaks := by
  refine ⟨q, ?_⟩
  rwa [blocks, filter_noBlocks, List.count_nil]

/-- The table is empty behind the call, and so is the pool if the books were kept. -/
theorem freeAllBlocks_spec {s t : State} {u : Unit}
    (ran : freeAllBlocks machine s = some (u, t)) :
    t.books.log = s.books.log ∧ (s.books.Kept → t.books.Kept) ∧
      (s.books.Leaks → t.books.Leaks) := by
  obtain ⟨⟨u', s'⟩, freed, cleared⟩ := Option.bind_eq_some_iff.mp ran
  obtain ⟨-, rfl⟩ := Prod.mk.inj (Option.some.inj cleared)
  obtain ⟨log, empty⟩ := freeBlocks_spec freed
  refine ⟨log, ?_, ?_⟩
  · intro kept
    obtain ⟨live, noStray⟩ := empty kept.same kept.noStray
    exact kept_of_empty rfl live noStray
  · rintro ⟨q, less⟩
    have live := freeBlocks_leaks freed less
    exact leaks_of_live rfl live

theorem takes_terminate {status : JpegError} :
    effects.Takes (terminate machine status) fun _ notes => notes = [.terminate status] := by
  intro s a t ran
  have freed : freeAllBlocks machine
      { s with books := { s.books with log := s.books.log ++ [.terminate status] } } =
        some (a, t) := ran
  obtain ⟨log, kept, leaks⟩ := freeAllBlocks_spec freed
  have loud : ¬ Quiet [.terminate status] := not_quiet_of_mem List.mem_cons_self
  refine ⟨[.terminate status], ?_, rfl⟩
  constructor
  · exact log
  · exact fun before => kept ⟨before.same, before.noStray⟩
  · exact leaks
  all_goals exact fun quiet => absurd quiet loud

/-- Whatever is noted behind an error. -/
theorem Does.noted {s t : State} {notes : List Note} (does : Does s notes t)
    (loud : ¬ Quiet notes) (n : Note) :
    Does s (notes ++ [n])
      { t with books := { t.books with log := t.books.log ++ [n] } } := by
  have louder : ¬ Quiet (notes ++ [n]) := fun quiet => loud (quiet_append.mp quiet).1
  constructor
  · change t.books.log ++ [n] = _
    rw [does.log, List.append_assoc]
  · exact fun kept => ⟨(does.kept kept).same, (does.kept kept).noStray⟩
  · exact does.leaks
  all_goals exact fun quiet => absurd quiet louder

/-- All blocks are freed behind an error. -/
theorem Does.freed {s t u : State} {notes : List Note} {v : Unit} (does : Does s notes t)
    (loud : ¬ Quiet notes) (freed : freeAllBlocks machine t = some (v, u)) :
    Does s notes u := by
  obtain ⟨log, kept, leaks⟩ := freeAllBlocks_spec freed
  constructor
  · rw [log, does.log]
  · exact fun before => kept (does.kept before)
  · exact fun before => leaks (does.leaks before)
  all_goals exact fun quiet => absurd quiet loud

/-- The entry of a free slot. -/
theorem filter_set_perm {blocks : List Address} {i : Nat} {q : Address} (nonzero : q ≠ 0)
    (found : blocks.findIdx? (· = 0) = some i) :
    ((blocks.set i q).filter (· ≠ 0)).Perm (q :: blocks.filter (· ≠ 0)) := by
  induction blocks generalizing i with
  | nil => simp at found
  | cons block rest inductionHypothesis =>
      rw [List.findIdx?_cons] at found
      by_cases zero : block = 0
      · simp only [zero, decide_true, if_true, Option.some.injEq] at found
        subst found
        rw [List.set_cons_zero, List.filter_cons_of_pos (by simpa using nonzero),
          List.filter_cons_of_neg (by simp [zero])]
      · simp only [zero, decide_false, Bool.false_eq_true, if_false,
          Option.map_eq_some_iff] at found
        obtain ⟨j, later, rfl⟩ := found
        rw [List.set_cons_succ, List.filter_cons_of_pos (by simpa using zero),
          List.filter_cons_of_pos (by simpa using zero)]
        exact ((inductionHypothesis later).cons block).trans (List.Perm.swap q block _)

/-- An error without a block, or a block and no error. -/
def Allocates (q : Address) (notes : List Note) : Prop :=
  q = 0 ∧ (∃ status, notes = [.terminate status, .alloc 0]) ∨ q ≠ 0 ∧ notes = [.alloc q]

theorem takes_noBlock {status : JpegError} :
    effects.Takes (noBlock machine status) Allocates := by
  intro s q t ran
  obtain ⟨⟨u, s'⟩, failed, noted⟩ := Option.bind_eq_some_iff.mp ran
  obtain ⟨rfl, rfl⟩ := Prod.mk.inj (Option.some.inj noted)
  obtain ⟨notes, does, rfl⟩ := takes_terminate s u s' failed
  refine ⟨_, does.noted (not_quiet_of_mem List.mem_cons_self) (.alloc 0), ?_⟩
  exact .inl ⟨rfl, status, rfl⟩

/-- A new block is put into the table. -/
theorem does_alloc {s t : State} {i : Nat} {q : Address} (nonzero : q ≠ 0)
    (found : s.books.blocks.findIdx? (· = 0) = some i)
    (books : t.books = ⟨s.books.blocks.set i q, q :: s.books.live, s.books.strayFrees,
      s.books.log ++ [.alloc q]⟩)
    (dc : t.dcCoeffs = s.dcCoeffs) (ac : t.acCoeffs = s.acCoeffs) :
    Does s [.alloc q] t := by
  constructor
  · rw [books]
  · intro kept
    rw [books]
    exact ⟨(filter_set_perm nonzero found).trans (kept.same.cons q), kept.noStray⟩
  · rintro ⟨p, less⟩
    refine ⟨p, ?_⟩
    rw [books]
    dsimp only
    rw [(filter_set_perm nonzero found).count_eq, List.count_cons, List.count_cons]
    omega
  · intro _ other member
    rw [books]
    exact List.mem_cons_of_mem q member
  · intro _ other member
    rw [books]
    simp only [List.mem_singleton, Note.alloc.injEq] at member
    subst member
    exact List.mem_cons_self
  · intro _ c opened
    rw [books, dc]
    simp only [List.mem_singleton, reduceCtorEq, or_false] at opened
    exact List.mem_cons_of_mem q opened
  · intro _ c opened
    rw [books, ac]
    simp only [List.mem_singleton, reduceCtorEq, or_false] at opened
    exact List.mem_cons_of_mem q opened

theorem mallocBlock_spec {size : U32} {s t : State} {q : Address}
    (ran : mallocBlock machine size s = some (q, t)) :
    t.books = (if q = 0 then s.books else { s.books with live := q :: s.books.live }) ∧
      t.dcCoeffs = s.dcCoeffs ∧ t.acCoeffs = s.acCoeffs := by
  obtain ⟨⟨q', memory⟩, -, took⟩ := Option.map_eq_some_iff.mp ran
  obtain ⟨rfl, rfl⟩ := Prod.mk.inj took
  exact ⟨rfl, rfl, rfl⟩

theorem enterBlock_spec {i : Nat} {size : U32} {s t : State} {q q' : Address}
    (ran : enterBlock i q size s = some (q', t)) :
    q' = q ∧ t.books = ⟨s.books.blocks.set i q, s.books.live, s.books.strayFrees,
        s.books.log ++ [.alloc q]⟩ ∧
      t.dcCoeffs = s.dcCoeffs ∧ t.acCoeffs = s.acCoeffs := by
  obtain ⟨rfl, rfl⟩ := Prod.mk.inj (Option.some.inj ran)
  exact ⟨rfl, rfl, rfl, rfl⟩

theorem takes_alloc {n : U32} : effects.Takes (alloc machine n) Allocates := by
  intro s a t ran
  have ranFor : allocFor machine n (s.books.blocks.findIdx? (· = 0)) s = some (a, t) := ran
  cases found : s.books.blocks.findIdx? (· = 0) with
  | none =>
      rw [found, allocFor] at ranFor
      exact takes_noBlock s a t ranFor
  | some i =>
      rw [found, allocFor] at ranFor
      obtain ⟨⟨q, s'⟩, given, later⟩ := Option.bind_eq_some_iff.mp ranFor
      obtain ⟨books, dc, ac⟩ := mallocBlock_spec given
      dsimp only at later
      by_cases zero : q = 0
      · rw [if_pos zero] at later books
        obtain ⟨notes, does, failed⟩ := takes_noBlock s' a t later
        have same : SameBooks s s' := ⟨books, dc, ac⟩
        exact ⟨notes, effects.trans same.does does, failed⟩
      · rw [if_neg zero] at later books
        obtain ⟨rfl, entered, dc', ac'⟩ := enterBlock_spec later
        rw [books] at entered
        exact ⟨_, does_alloc zero found entered (dc'.trans dc) (ac'.trans ac),
          .inr ⟨zero, rfl⟩⟩

/-- An error without a buffer; a buffer whose data there may be an error about. -/
def Opens (cb : Address) (notes : List Note) : Prop :=
  cb = 0 ∧ ¬ Quiet notes ∨ cb ≠ 0 ∧ ∃ data behind, notes = .alloc cb :: behind ∧
    (data = 0 ∧ (∃ status, behind = [.terminate status, .alloc 0, .terminate .notEnoughMem]) ∨
      data ≠ 0 ∧ behind = [.alloc data])

theorem takes_coeffBufOpen {blockNumX blockNumY : U16} {blockLenX blockLenY : U8} :
    effects.Takes (coeffBufOpen machine blockNumX blockNumY blockLenX blockLenY) Opens := by
  unfold coeffBufOpen
  apply takes_alloc.bind
  rintro cb first (⟨zero, status, rfl⟩ | ⟨nonzero, rfl⟩)
  · rw [if_pos zero]
    apply takes_terminate.bind
    rintro _ _ rfl
    apply Effects.takes_pure
    exact .inl ⟨rfl, not_quiet_of_mem List.mem_cons_self⟩
  · rw [if_neg nonzero]
    apply silent_setMemory.bind
    intro _
    apply takes_alloc.bind
    rintro data second allocates
    apply silent_setMemory.bind
    intro _
    rcases allocates with ⟨zero, status, rfl⟩ | ⟨some, rfl⟩
    · rw [if_pos zero]
      apply takes_terminate.bind
      rintro _ _ rfl
      apply Effects.takes_pure
      exact .inr ⟨nonzero, data, _, rfl, .inl ⟨zero, status, rfl⟩⟩
    · rw [if_neg some]
      apply Effects.takes_pure
      exact .inr ⟨nonzero, data, _, rfl, .inr ⟨some, rfl⟩⟩

/-- A note of an error at most, and none with a block. -/
def Finds (p : Address) (notes : List Note) : Prop :=
  p ≠ 0 → notes = []

theorem takes_coeffBufGetp {cb : Address} {blockX blockY : Nat} :
    effects.Takes (coeffBufGetp machine cb blockX blockY) Finds := by
  unfold coeffBufGetp
  apply Effects.silent_get.bind
  intro s
  dsimp only
  have failed : effects.Takes (do
      terminate machine .assertionError
      pure 0) Finds := by
    apply takes_terminate.bind
    rintro _ _ rfl
    apply Effects.takes_pure
    exact fun nonzero => absurd rfl nonzero
  split
  · exact Effects.takes_fails fun _ => rfl
  split
  · exact failed
  split
  · exact failed
  · apply Effects.takes_pure
    exact fun _ => rfl

end Blocks

end Gp2Firmware.Jpeg.Decoder
