import Gp2Firmware.Lib.Run
import Gp2Firmware.Jpeg.RunLength
import Gp2Firmware.Jpeg.ScanErrors

/-!
# The calls of the JPEG driver

The blocks of the decoder are noted in `_pBlocks`, and the pool that they come
from is made by `MDrv_JPEG_SetInitParameter`.  The table is cleared by
`MDrv_JPEG_init` whatever is in it, and the pool is made again whatever was
taken from it.
-/

namespace Gp2Firmware.Jpeg.Decoder

open Gp2Firmware.Lib (Effects)
open Gp2Firmware.Lib.WordMemory Gp2Firmware.Jpeg.BitReader
  Gp2Firmware.Jpeg.HuffmanTable Gp2Firmware.Jpeg.Mcu

section Init

variable (machine : Machine)

def MIN_READBUFFER_SIZE : U32 := 128

def JPEG_DEFAULT_EXIF_SIZE : U32 := 64 * 1024 + 128

def E_JPEG_BUFFER_NONE : Nat := 0
def E_JPEG_BUFFER_HIGH : Nat := 1
def E_JPEG_BUFFER_LOW : Nat := 2

/-- The pool behind the room for an Exif segment; what was given out of an older one is
given out no more. -/
def initMempool (pool : Address) (size : U32) (s : State) : State :=
  let (made, memory) := MemoryPool.initMempool machine.avail pool size s.reader.memory
  { s with
    reader := { s.reader with memory := memory }
    books := if made then { s.books with live := [] } else s.books }

def setInitParameter (rBufAddr : Address) (rBufSize : U32) (iBufAddr : Address)
    (iBufSize : U32) (fileEnd : Bool) : Program State Bool :=
  if rBufSize < MIN_READBUFFER_SIZE then
    fail machine .readBufferTooSmall
  else do
    modify fun s => { s with
      reader := { s.reader with
        mrcBufferAddr := rBufAddr
        mrcBufferSize := rBufSize &&& ~~~7
        internalBufferAddr := iBufAddr
        inBuf := rBufAddr }
      internalBufferSize := iBufSize
      fileReadEnd := fileEnd }
    modify (initMempool machine (iBufAddr + JPEG_DEFAULT_EXIF_SIZE)
      (iBufSize - JPEG_DEFAULT_EXIF_SIZE))
    pure true

/-- The first entries of an array are 0. -/
def clearFirst {α : Type} (count : Nat) (zero : α) (array : Nat → α) : Nat → α :=
  fun i => if i < count then zero else array i

/-- The 17 bytes that are cleared are half of the array of the codes. -/
def clearInfo (info : HuffInfo) : HuffInfo :=
  { noHuffInfo with
    code := fun i => if i = 8 then info.code 8 &&& 0xFF00 else clearFirst 8 0 info.code i }

/-- The 64 bytes that are cleared are half of the array. -/
def clearQuant (table : QuantTable) : QuantTable :=
  ⟨false, clearFirst 32 0 table.value⟩

def initReader (r : Reader) : Reader :=
  let r := { r with
    inBufOfs := r.inBuf
    inBufLeft := 0
    eofFlag := false
    temFlag := 0
    totalBytesRead := 0 }
  let r :=
    if r.thumbnailAccessMode then
      fillReadBuffer machine.wait r
    else
      { r with inBufLeft := r.mrcBufferSize, totalBytesRead := r.mrcBufferSize }
  { r with bitsLeft := 16 }

/-- `MDrv_JPEG_init` -/
def init (s : State) : State :=
  { s with
    reader := initReader machine s.reader
    originalImageSize := (0, 0)
    progressiveFlag := false
    huffInfo := fun i => if i < JPEG_MAXHUFFTABLES then clearInfo (s.huffInfo i) else s.huffInfo i
    huffTbls := clearFirst JPEG_MAXHUFFTABLES noHuffTables s.huffTbls
    quantTables := fun i =>
      if i < JPEG_MAXQUANTTABLES then clearQuant (s.quantTables i) else s.quantTables i
    frame := ⟨0, 0, 0, clearFirst JPEG_MAXCOMPONENTS 0 s.frame.hSamp,
      clearFirst JPEG_MAXCOMPONENTS 0 s.frame.vSamp⟩
    compQuant := clearFirst JPEG_MAXCOMPONENTS 0 s.compQuant
    compIdent := clearFirst JPEG_MAXCOMPONENTS 0 s.compIdent
    lumaCi := 1
    chromaCi := 2
    compsInScan := 0
    compList := clearFirst JPEG_MAXCOMPSINSCAN 0 s.compList
    compDcTab := clearFirst JPEG_MAXCOMPONENTS 0 s.compDcTab
    compAcTab := clearFirst JPEG_MAXCOMPONENTS 0 s.compAcTab
    spectralStart := 0
    spectralEnd := 0
    successiveHigh := 0
    successiveLow := 0
    layout := ⟨.grayscale, 0, 0, 0, 0, 0, 0, 0⟩
    order := ⟨clearFirst JPEG_MAXCOMPONENTS 0 s.order.compHBlocks,
      clearFirst JPEG_MAXCOMPONENTS 0 s.order.compVBlocks, 0, 0, []⟩
    totalLinesLeft := 0
    blockYMcu := clearFirst JPEG_MAXCOMPONENTS 0 s.blockYMcu
    dcCoeffs := clearFirst JPEG_MAXCOMPONENTS 0 s.dcCoeffs
    acCoeffs := clearFirst JPEG_MAXCOMPONENTS 0 s.acCoeffs
    lastDcVal := clearFirst JPEG_MAXCOMPONENTS 0 s.lastDcVal
    eobRun := 0
    restartInterval := 0
    restartsLeft := 0
    nextRestartNum := 0
    dcPred := clearFirst 3 0 s.dcPred
    rleOffset := 0
    firstRle := false
    preloadLHFlag := E_JPEG_BUFFER_NONE
    books := { s.books with blocks := noBlocks } }

def initThumbnail (s : State) : State :=
  { s with
    thumbnail := .init
    reader := { s.reader with thumbnailBufferOffset := 0, thumbnailAccessMode := false } }

def finalize : Program State Unit :=
  freeAllBlocks machine

/-- A progressive image that is not handled. -/
def tooBig (s : State) : Bool :=
  s.progressiveFlag && (machine.progressiveSize.1 < s.frame.imageXSize ||
    machine.progressiveSize.2 < s.frame.imageYSize ||
    s.internalBufferSize.toNat < s.frame.imageXSize * s.frame.imageYSize * 3 * 2)

/-- The thumbnail in the place of the image. -/
def initForThumbnail : Program State Bool := do
  let s ← get
  modify fun s => { s with reader := { s.reader with thumbnailAccessMode := true } }
  finalize machine
  modify (init machine)
  modify fun t => { t with originalImageSize := s.originalImageSize }
  if ← locateSofMarker machine then
    if (← get).progressiveFlag then
      fail machine .badApp1Marker
    else
      pure true
  else
    pure false

def checkImage : Program State Bool := do
  modify fun s => { s with originalImageSize := (s.frame.imageXSize, s.frame.imageYSize) }
  let s ← get
  if tooBig machine s then
    pure false
  else if s.decodeType = .thumbnail ∧ s.thumbnail.thumbnailFound = true then
    initForThumbnail machine
  else
    pure true

/-- `MDrv_JPEG_decode_init` behind `MDrv_JPEG_init`. -/
def readImage : Program State Bool := do
  if ← locateSofMarker machine then
    checkImage machine
  else
    pure false

def constructor (decodeType : DecodeType) : Program State Bool := do
  modify fun s => init machine (initThumbnail { s with decodeType := decodeType })
  if ← readImage machine then
    let s ← get
    pure !(s.decodeType == .thumbnail && !s.thumbnail.thumbnailFound)
  else
    pure false

end Init

section Decode

variable (machine : Machine)

def JPD_EVENT_DEC_DONE : U16 := 0x01
def JPD_EVENT_ERROR_MASK : U16 := 0x0E
def JPD_EVENT_MRBL_DONE : U16 := 0x10
def JPD_EVENT_MRBH_DONE : U16 := 0x20

def readJpdStatus : Program State U16 := fun s =>
  some (machine.jpdStatus s.statusReads, { s with statusReads := s.statusReads + 1 })

/-- A size in pixels as a multiple of that of an MCU. -/
def wholeMcus (size samp : Nat) : Nat :=
  if size % (samp * 8) = 0 then size else (size + (samp * 8 - size % (samp * 8))) % 2 ^ 16

def scaleFactor (width height : Nat) : Nat :=
  if machine.baselineSize.1 * 4 < width ∨ machine.baselineSize.2 * 4 < height then 8
  else if machine.baselineSize.1 * 2 < width ∨ machine.baselineSize.2 * 2 < height then 4
  else if machine.baselineSize.1 < width ∨ machine.baselineSize.2 < height then 2
  else 1

/-- The size of the picture that the hardware gives, cut to whole blocks if it is scaled. -/
def scaledFrame (f : Frame) : Frame :=
  let width := wholeMcus f.imageXSize (f.hSamp 0)
  let height := wholeMcus f.imageYSize (f.vSamp 0)
  let factor := scaleFactor machine width height
  { f with
    imageXSize := if factor = 1 then width else width / (8 * factor) * (8 * factor) / factor
    imageYSize := height / factor }

/-- The rest of the stream is waited for. -/
def waitForRest (s : State) : State :=
  if s.reader.mrcBufferAddr + s.reader.mrcBufferSize / 2 < s.reader.inBufOfs ∧
      s.fileReadEnd = false then
    let put := fun memory offset value =>
      Function.update memory (s.reader.mrcBufferAddr + offset) value
    { s with
      reader := machine.wait { s.reader with
        memory := put (put (put (put s.reader.memory 0 0x55) 1 0xAA) 2 0xAA) 3 0x54 }
      preloadLHFlag := E_JPEG_BUFFER_LOW }
  else
    s

/-- `MDrv_JPEG_StartDecode`, without the registers of the hardware. -/
def startDecode (s : State) : State :=
  waitForRest machine { s with frame := scaledFrame machine s.frame }

/-- The symbol as it is stored, with the field `amp` in the lowest bits. -/
def svldWord (myVld : RunLength.Svld) : U32 :=
  (0 : BitVec 11) ++ myVld.eop ++ myVld.blkType ++ myVld.symType ++ myVld.run ++ myVld.sign ++
    myVld.amp

/-- The hardware is waited for; `FALSE` behind an error. -/
def waitRle : Nat → Program State Bool
  | 0 => pure true
  | count + 1 => do
      let status ← readJpdStatus machine
      if status &&& JPD_EVENT_DEC_DONE ≠ 0 then
        pure true
      else if status &&& JPD_EVENT_ERROR_MASK ≠ 0 then
        fail machine .svldDecodeError
      else if status &&& JPD_EVENT_MRBH_DONE ≠ 0 ∧ status &&& JPD_EVENT_MRBL_DONE ≠ 0 then
        pure true
      else
        waitRle count

/-- The symbols in the buffer are given to the hardware, which is waited for unless they are
the last ones. -/
def flushRle (last : Bool) : Program State Unit := do
  modify fun s => if s.firstRle then s else { startDecode machine s with firstRle := true }
  if last then
    pure ()
  else
    if ← waitRle machine 2000 then
      modify fun s => { s with rleOffset := 0 }
    else
      pure ()

def writeRle (myVld : RunLength.Svld) : Program State Unit := do
  modify fun s => { s with
    reader := { s.reader with
      memory := store s.reader.memory (s.reader.mrcBufferAddr + s.rleOffset) (svldWord myVld) }
    rleOffset := s.rleOffset + 4 }
  let s ← get
  if s.rleOffset = s.reader.mrcBufferSize ∨ myVld.eop = 1 then
    flushRle machine (myVld.eop == 1)
  else
    pure ()

def writeRles : List RunLength.Svld → Program State Unit
  | [] => pure ()
  | myVld :: rest => do
      writeRle machine myVld
      writeRles rest

def doRle (p : Nat → U16) (eop : Bool) (compId : Nat) : Program State Unit := do
  let (symbols, dcPred) :=
    RunLength.doRle (← get).dcPred p eop (BitVec.ofNat 8 compId) true
  writeRles machine symbols
  modify fun s => { s with dcPred := dcPred }

/-- The coefficients of a block, the first of one buffer and the others of another. -/
def blockCoefs (memory : Memory) (pDC pAC : Address) (k : Nat) : U16 :=
  loadShort memory (coefPlace (if k = 0 then pDC else pAC) k)

/-- A block of the picture; `FALSE` where there is `NULL` in its place. -/
def loadBlock (eop : Bool) (c x y : Nat) : Program State Bool := do
  let pAC ← coeffBufGetp machine ((← get).acCoeffs c) x y
  if pAC = 0 then
    pure false
  else do
    let pDC ← coeffBufGetp machine ((← get).dcCoeffs c) x y
    if pDC = 0 then
      pure false
    else do
      let s ← get
      doRle machine (blockCoefs s.reader.memory pDC pAC) eop c
      pure true

/-- The blocks of an MCU, the last of which may be the end of the picture. -/
def loadMcu (f : Frame) (compsInScan : Nat) (blockYMcu : Nat → Nat) (lastMcu : Bool) :
    List Nat → Cursor → Program State Cursor
  | [], cursor => pure cursor
  | c :: mcuOrg, cursor => do
      let (x, y) := cursor.block blockYMcu c
      if ← loadBlock machine (lastMcu && mcuOrg.isEmpty) c x y then
        loadMcu f compsInScan blockYMcu lastMcu mcuOrg (cursor.advance f compsInScan 16 16 c)
      else
        loadMcu f compsInScan blockYMcu lastMcu mcuOrg cursor

def loadMcus (f : Frame) (compsInScan : Nat) (mcuOrg : List Nat) (blockYMcu : Nat → Nat)
    (lastRow : Bool) : Nat → (Nat → Nat) → Program State Unit
  | 0, _ => pure ()
  | mcus + 1, blockXMcu => do
      let cursor ← loadMcu machine f compsInScan blockYMcu (lastRow && mcus == 0) mcuOrg
        ⟨blockXMcu, 0, 0⟩
      loadMcus f compsInScan mcuOrg blockYMcu lastRow mcus cursor.blockXMcu

def loadNextRow : Program State Unit := do
  let s ← get
  loadMcus machine s.frame s.compsInScan s.order.mcuOrg s.blockYMcu
    (s.totalLinesLeft == s.layout.maxMcuYSize) s.order.mcusPerRow (fun _ => 0)
  modify fun s => { s with blockYMcu := advanceRow s.frame s.scanComps s.blockYMcu }

def loadRows : Nat → Program State Unit
  | 0 => fun _ => none
  | turns + 1 => do
      if (← get).totalLinesLeft = 0 then
        pure ()
      else do
        loadNextRow machine
        modify fun s => { s with
          totalLinesLeft := (s.totalLinesLeft + 65536 - s.layout.maxMcuYSize) % 65536 }
        loadRows turns

def JPEG_FAILED : Int := -1
def JPEG_DONE : Int := 1
def JPEG_OKAY : Int := 0

def progressiveDecode : Program State Int := do
  let s ← get
  if s.progressiveFlag = false then
    pure JPEG_FAILED
  else if s.totalLinesLeft = 0 then
    pure JPEG_DONE
  else do
    loadRows machine machine.turns
    pure JPEG_OKAY

inductive JpdStatus where
  | decoding
  | decodeDone
  | decodeError
  | mrbfhDone
  | mrbflDone
  deriving DecidableEq, Repr

def waitDone : Program State JpdStatus := do
  let status ← readJpdStatus machine
  if status &&& JPD_EVENT_DEC_DONE ≠ 0 then
    finalize machine
    pure .decodeDone
  else if status &&& JPD_EVENT_ERROR_MASK ≠ 0 then
    finalize machine
    pure .decodeError
  else
    let s ← get
    if JPD_EVENT_MRBL_DONE &&& status ≠ 0 ∧ s.preloadLHFlag ≠ E_JPEG_BUFFER_LOW then
      modify fun s => { s with preloadLHFlag := E_JPEG_BUFFER_LOW }
      pure .mrbflDone
    else if JPD_EVENT_MRBH_DONE &&& status ≠ 0 ∧ s.preloadLHFlag ≠ E_JPEG_BUFFER_HIGH then
      modify fun s => { s with preloadLHFlag := E_JPEG_BUFFER_HIGH }
      pure .mrbfhDone
    else
      pure .decoding

end Decode

section Calls

/-- A call of the driver, without what it returns. -/
inductive Call where
  | setInitParameter (rBufAddr : Address) (rBufSize : U32) (iBufAddr : Address)
      (iBufSize : U32) (fileEnd : Bool)
  | constructor (decodeType : DecodeType)
  | decodeHeader
  | progressiveDecode
  | waitDone
  | finalize

/-- A call, and what there is of the machine while it runs. -/
structure Event where
  machine : Machine
  call : Call

/-- The state behind a call; nothing if it does not return. -/
def Event.run (event : Event) (s : State) : Option State :=
  match event.call with
  | .setInitParameter rBufAddr rBufSize iBufAddr iBufSize fileEnd =>
      (setInitParameter event.machine rBufAddr rBufSize iBufAddr iBufSize fileEnd s).map (·.2)
  | .constructor decodeType => (Decoder.constructor event.machine decodeType s).map (·.2)
  | .decodeHeader => (Decoder.decodeHeader event.machine s).map (·.2)
  | .progressiveDecode => (Decoder.progressiveDecode event.machine s).map (·.2)
  | .waitDone => (Decoder.waitDone event.machine s).map (·.2)
  | .finalize => (Decoder.finalize event.machine s).map (·.2)

end Calls

/-! ### The blocks -/

section Bookkeeping

variable {machine : Machine}

/-- What a part of the driver does to the blocks, whatever it notes. -/
def bookkeeping : Effects State Note where
  does s _ t := (s.books.Kept → t.books.Kept) ∧ (s.books.Leaks → t.books.Leaks)
  refl _ := ⟨id, id⟩
  trans before behind := ⟨behind.1 ∘ before.1, behind.2 ∘ before.2⟩

theorem keeps_of_takes {α : Type} {m : Program State α} {allowed : α → List Note → Prop}
    (takes : effects.Takes m allowed) : bookkeeping.Keeps m := by
  intro s a t ran
  obtain ⟨notes, does, -⟩ := takes s a t ran
  exact ⟨notes, ⟨does.kept, does.leaks⟩, trivial⟩

theorem keeps_get : bookkeeping.Keeps (get : Program State State) :=
  Effects.silent_get.keeps

theorem keeps_change {change : State → State} (same : ∀ s, (change s).books = s.books) :
    bookkeeping.Keeps (modify change : Program State PUnit) := by
  apply Effects.Takes.keeps
  apply Effects.silent_modify
  intro s
  constructor <;> simp [same]

theorem keeps_after {β : Type} {change : State → State} {rest : PUnit → Program State β}
    (same : ∀ s, (change s).books = s.books) (later : bookkeeping.Keeps (rest ())) :
    bookkeeping.Keeps (modify change >>= rest) :=
  (keeps_change same).bind fun _ => later

theorem keeps_fails {α : Type} : bookkeeping.Keeps (fun _ => none : Program State α) :=
  Effects.takes_fails fun _ => rfl

theorem keeps_fail {status : JpegError} : bookkeeping.Keeps (fail machine status) :=
  keeps_of_takes checked_fail

theorem keeps_finalize : bookkeeping.Keeps (finalize machine) := by
  intro s u t freed
  obtain ⟨-, kept, leaks⟩ := freeAllBlocks_spec freed
  exact ⟨[], ⟨kept, leaks⟩, trivial⟩

end Bookkeeping

section Header

variable {machine : Machine}

theorem keeps_soiSearch {bytesleft : Nat} {lastchar : U8} :
    bookkeeping.Keeps (soiSearch machine bytesleft lastchar) := by
  induction bytesleft generalizing lastchar with
  | zero => exact Effects.keeps_pure
  | succ bytesleft inductionHypothesis =>
      apply (keeps_of_takes silent_getChar).bind
      intro thischar
      split
      · exact Effects.keeps_pure
      · exact inductionHypothesis

theorem keeps_locateSoiMarker : bookkeeping.Keeps (locateSoiMarker machine) := by
  apply (keeps_of_takes silent_getChar).bind
  intro lastchar
  apply (keeps_of_takes silent_getChar).bind
  intro thischar
  split
  · exact Effects.keeps_pure
  apply keeps_soiSearch.bind
  intro found
  split
  · apply keeps_get.bind
    intro s
    split
    · exact keeps_fail
    · exact Effects.keeps_pure
  · exact keeps_fail

theorem keeps_readSofMarker : bookkeeping.Keeps (readSofMarker machine) :=
  keeps_of_takes checked_readSofMarker

theorem keeps_locateSofMarker : bookkeeping.Keeps (locateSofMarker machine) := by
  apply keeps_locateSoiMarker.bind
  intro found
  split
  · apply (keeps_of_takes takes_processMarkers).bind
    intro marker
    cases marker with
    | none => exact Effects.keeps_pure
    | some c =>
        dsimp only
        split
        · exact keeps_after (fun _ => rfl) keeps_readSofMarker
        split
        · exact keeps_readSofMarker
        split
        · exact keeps_fail
        · exact keeps_fail
  · exact Effects.keeps_pure

theorem init_books {s : State} :
    (init machine s).books = { s.books with blocks := noBlocks } := rfl

theorem freeAllBlocks_blocks {s t : State} {u : Unit}
    (freed : freeAllBlocks machine s = some (u, t)) : t.books.blocks = noBlocks := by
  obtain ⟨⟨_, s'⟩, -, cleared⟩ := Option.bind_eq_some_iff.mp freed
  obtain ⟨-, rfl⟩ := Prod.mk.inj (Option.some.inj cleared)
  rfl

/-- The table is cleared where nothing is in it. -/
theorem keeps_initAgain {β : Type} {rest : Program State β} (later : bookkeeping.Keeps rest) :
    bookkeeping.Keeps (do
      finalize machine
      modify (init machine)
      rest) := by
  intro s b t ran
  obtain ⟨⟨_, s'⟩, freed, behind⟩ := Option.bind_eq_some_iff.mp ran
  have ranRest : rest (init machine s') = some (b, t) := behind
  obtain ⟨-, kept, leaks⟩ := freeAllBlocks_spec freed
  have same : (init machine s').books = s'.books := by
    rw [init_books, ← freeAllBlocks_blocks freed]
  obtain ⟨notes, ⟨keptBehind, leaksBehind⟩, -⟩ := later _ b t ranRest
  rw [same] at keptBehind leaksBehind
  exact ⟨notes, ⟨keptBehind ∘ kept, leaksBehind ∘ leaks⟩, trivial⟩

theorem keeps_initForThumbnail : bookkeeping.Keeps (initForThumbnail machine) := by
  apply keeps_get.bind
  intro s
  refine keeps_after (fun _ => rfl) ?_
  apply keeps_initAgain
  refine keeps_after (fun _ => rfl) ?_
  apply keeps_locateSofMarker.bind
  intro found
  split
  · apply keeps_get.bind
    intro t
    split
    · exact keeps_fail
    · exact Effects.keeps_pure
  · exact Effects.keeps_pure

theorem keeps_readImage : bookkeeping.Keeps (readImage machine) := by
  apply keeps_locateSofMarker.bind
  intro found
  split
  · refine keeps_after (fun _ => rfl) ?_
    apply keeps_get.bind
    intro s
    split
    · exact Effects.keeps_pure
    split
    · exact keeps_initForThumbnail
    · exact Effects.keeps_pure
  · exact Effects.keeps_pure

theorem keeps_initFrame : bookkeeping.Keeps (initFrame machine) := by
  apply keeps_get.bind
  intro s
  exact keeps_of_takes takes_enterFrame

theorem keeps_decodeHeader : bookkeeping.Keeps (decodeHeader machine) := by
  apply keeps_initFrame.bind
  intro admitted
  split
  · apply keeps_get.bind
    intro t
    split
    · apply keeps_get.bind
      intro t
      split
      · exact keeps_fail
      · exact keeps_of_takes takes_decodeComponents
    · apply (keeps_of_takes takes_initScan).bind
      intro found
      split
      · exact Effects.keeps_pure
      · exact keeps_fail
  · exact Effects.keeps_pure

end Header

section Picture

variable {machine : Machine}

theorem keeps_readJpdStatus : bookkeeping.Keeps (readJpdStatus machine) := by
  intro s status t ran
  obtain ⟨-, rfl⟩ := Prod.mk.inj (Option.some.inj ran)
  exact ⟨[], ⟨id, id⟩, trivial⟩

theorem keeps_waitRle {count : Nat} : bookkeeping.Keeps (waitRle machine count) := by
  induction count with
  | zero => exact Effects.keeps_pure
  | succ count inductionHypothesis =>
      apply keeps_readJpdStatus.bind
      intro status
      split
      · exact Effects.keeps_pure
      split
      · exact keeps_fail
      split
      · exact Effects.keeps_pure
      · exact inductionHypothesis

theorem startDecode_books {s : State} : (startDecode machine s).books = s.books := by
  unfold startDecode waitForRest
  split <;> rfl

theorem keeps_flushRle {last : Bool} : bookkeeping.Keeps (flushRle machine last) := by
  apply keeps_after
  · intro s
    split
    · rfl
    · exact startDecode_books
  · split
    · exact Effects.keeps_pure
    apply keeps_waitRle.bind
    intro ready
    split
    · exact keeps_change fun _ => rfl
    · exact Effects.keeps_pure

theorem keeps_writeRles {symbols : List RunLength.Svld} :
    bookkeeping.Keeps (writeRles machine symbols) := by
  induction symbols with
  | nil => exact Effects.keeps_pure
  | cons myVld rest inductionHypothesis =>
      have first : bookkeeping.Keeps (writeRle machine myVld) := by
        refine keeps_after (fun _ => rfl) ?_
        apply keeps_get.bind
        intro s
        split
        · exact keeps_flushRle
        · exact Effects.keeps_pure
      exact first.bind fun _ => inductionHypothesis

theorem keeps_doRle {p : Nat → U16} {eop : Bool} {compId : Nat} :
    bookkeeping.Keeps (doRle machine p eop compId) := by
  apply keeps_get.bind
  intro s
  exact keeps_writeRles.bind fun _ => keeps_change fun _ => rfl

theorem keeps_loadBlock {eop : Bool} {c x y : Nat} :
    bookkeeping.Keeps (loadBlock machine eop c x y) := by
  apply keeps_get.bind
  intro s
  apply (keeps_of_takes takes_coeffBufGetp).bind
  intro pAC
  split
  · exact Effects.keeps_pure
  apply keeps_get.bind
  intro s
  apply (keeps_of_takes takes_coeffBufGetp).bind
  intro pDC
  split
  · exact Effects.keeps_pure
  apply keeps_get.bind
  intro s
  exact keeps_doRle.bind fun _ => Effects.keeps_pure

theorem keeps_loadMcu {f : Frame} {compsInScan : Nat} {blockYMcu : Nat → Nat} {lastMcu : Bool}
    {mcuOrg : List Nat} {cursor : Cursor} :
    bookkeeping.Keeps (loadMcu machine f compsInScan blockYMcu lastMcu mcuOrg cursor) := by
  induction mcuOrg generalizing cursor with
  | nil => exact Effects.keeps_pure
  | cons c mcuOrg inductionHypothesis =>
      apply keeps_loadBlock.bind
      intro found
      split
      · exact inductionHypothesis
      · exact inductionHypothesis

theorem keeps_loadMcus {f : Frame} {compsInScan : Nat} {mcuOrg : List Nat}
    {blockYMcu blockXMcu : Nat → Nat} {lastRow : Bool} {mcus : Nat} :
    bookkeeping.Keeps
      (loadMcus machine f compsInScan mcuOrg blockYMcu lastRow mcus blockXMcu) := by
  induction mcus generalizing blockXMcu with
  | zero => exact Effects.keeps_pure
  | succ mcus inductionHypothesis => exact keeps_loadMcu.bind fun _ => inductionHypothesis

theorem keeps_loadRows {turns : Nat} : bookkeeping.Keeps (loadRows machine turns) := by
  induction turns with
  | zero => exact keeps_fails
  | succ turns inductionHypothesis =>
      have row : bookkeeping.Keeps (loadNextRow machine) := by
        apply keeps_get.bind
        intro s
        exact keeps_loadMcus.bind fun _ => keeps_change fun _ => rfl
      apply keeps_get.bind
      intro s
      split
      · exact Effects.keeps_pure
      apply row.bind
      intro _
      exact keeps_after (fun _ => rfl) inductionHypothesis

theorem keeps_progressiveDecode : bookkeeping.Keeps (progressiveDecode machine) := by
  apply keeps_get.bind
  intro s
  split
  · exact Effects.keeps_pure
  split
  · exact Effects.keeps_pure
  exact keeps_loadRows.bind fun _ => Effects.keeps_pure

theorem keeps_waitDone : bookkeeping.Keeps (waitDone machine) := by
  apply keeps_readJpdStatus.bind
  intro status
  split
  · exact keeps_finalize.bind fun _ => Effects.keeps_pure
  split
  · exact keeps_finalize.bind fun _ => Effects.keeps_pure
  apply keeps_get.bind
  intro s
  split
  · exact keeps_after (fun _ => rfl) Effects.keeps_pure
  split
  · exact keeps_after (fun _ => rfl) Effects.keeps_pure
  · exact Effects.keeps_pure

end Picture

section Runs

variable {machine : Machine} {s t : State}

/-- No block is noted in the table. -/
def Books.Empty (books : Books) : Prop :=
  ∀ q ∈ books.blocks, q = 0

instance (books : Books) : Decidable books.Empty :=
  decidable_of_iff (books.blocks.all (· = 0) = true) (by simp [Books.Empty])

theorem empty_iff {books : Books} : books.Empty ↔ books.blocks.filter (· ≠ 0) = [] := by
  simp [Books.Empty, List.filter_eq_nil_iff]

theorem Books.Kept.empty_iff_live {books : Books} (kept : books.Kept) :
    books.Empty ↔ books.live = [] := by
  rw [empty_iff]
  constructor
  · intro none
    have same := kept.same
    rwa [none, List.nil_perm] at same
  · intro none
    have same := kept.same
    rwa [none, List.perm_nil] at same

theorem kept_constructor_iff {decodeType : DecodeType} {ok : Bool} (kept : s.books.Kept)
    (ran : constructor machine decodeType s = some (ok, t)) :
    t.books.Kept ↔ s.books.Empty := by
  have rest : bookkeeping.Keeps (do
      if ← readImage machine then
        let s ← get
        pure !(s.decodeType == .thumbnail && !s.thumbnail.thumbnailFound)
      else
        pure false) := by
    apply keeps_readImage.bind
    intro found
    split
    · exact keeps_get.bind fun _ => Effects.keeps_pure
    · exact Effects.keeps_pure
  obtain ⟨notes, ⟨keeps, leaks⟩, -⟩ :=
    rest (init machine (initThumbnail { s with decodeType := decodeType })) ok t ran
  rw [kept.empty_iff_live]
  constructor
  · intro keptBehind
    by_contra some
    obtain ⟨q, member⟩ := List.exists_mem_of_ne_nil _ some
    have lost : 0 < s.books.live.count q := List.count_pos_iff.mpr member
    exact keptBehind.not_leaks (leaks (leaks_of_live rfl lost))
  · intro none
    exact keeps (kept_of_empty rfl none kept.noStray)

theorem initMempool_books {pool : Address} {size : U32} :
    (initMempool machine pool size s).books =
      if size < MemoryPool.MIN_POOL_SIZE then s.books else { s.books with live := [] } := by
  unfold initMempool MemoryPool.initMempool
  by_cases noPool : size < MemoryPool.MIN_POOL_SIZE
  · simp only [if_pos noPool, Bool.false_eq_true, if_false]
  · by_cases zero : pool = 0
    · simp only [if_neg noPool, if_pos zero, if_true]
    · simp only [if_neg noPool, if_neg zero, if_true]

theorem kept_setInitParameter_iff {rBufAddr iBufAddr : Address} {rBufSize iBufSize : U32}
    {fileEnd ok : Bool} (kept : s.books.Kept)
    (ran : setInitParameter machine rBufAddr rBufSize iBufAddr iBufSize fileEnd s =
      some (ok, t)) :
    t.books.Kept ↔ rBufSize < MIN_READBUFFER_SIZE ∨
      iBufSize - JPEG_DEFAULT_EXIF_SIZE < MemoryPool.MIN_POOL_SIZE ∨ s.books.Empty := by
  rw [setInitParameter] at ran
  by_cases small : rBufSize < MIN_READBUFFER_SIZE
  · rw [if_pos small] at ran
    obtain ⟨notes, ⟨keeps, -⟩, -⟩ := keeps_fail s ok t ran
    exact iff_of_true (keeps kept) (.inl small)
  · rw [if_neg small] at ran
    obtain ⟨-, rfl⟩ := Prod.mk.inj (Option.some.inj ran)
    rw [initMempool_books]
    by_cases noPool : iBufSize - JPEG_DEFAULT_EXIF_SIZE < MemoryPool.MIN_POOL_SIZE
    · rw [if_pos noPool]
      exact iff_of_true kept (.inr (.inl noPool))
    · rw [if_neg noPool, or_iff_right small, or_iff_right noPool, empty_iff]
      constructor
      · intro keptBehind
        exact List.perm_nil.mp keptBehind.same
      · intro none
        exact ⟨List.perm_nil.mpr none, kept.noStray⟩

/-- No block is noted where the table is cleared or a pool is made. -/
def Safe (s : State) (event : Event) : Prop :=
  match event.call with
  | .constructor _ => s.books.Empty
  | .setInitParameter _ rBufSize _ iBufSize _ =>
      rBufSize < MIN_READBUFFER_SIZE ∨
        iBufSize - JPEG_DEFAULT_EXIF_SIZE < MemoryPool.MIN_POOL_SIZE ∨ s.books.Empty
  | _ => True

theorem kept_of_keeps {α : Type} {m : Program State α} (keeps : bookkeeping.Keeps m)
    (kept : s.books.Kept) (ran : (m s).map (·.2) = some t) : t.books.Kept := by
  obtain ⟨⟨a, t'⟩, returned, rfl⟩ := Option.map_eq_some_iff.mp ran
  obtain ⟨notes, does, -⟩ := keeps s a t' returned
  exact does.1 kept

/-- A call keeps the books if and only if it is safe. -/
theorem kept_run_iff {event : Event} (kept : s.books.Kept) (ran : event.run s = some t) :
    t.books.Kept ↔ Safe s event := by
  obtain ⟨machine, call⟩ := event
  cases call with
  | setInitParameter rBufAddr rBufSize iBufAddr iBufSize fileEnd =>
      obtain ⟨⟨ok, t'⟩, returned, rfl⟩ := Option.map_eq_some_iff.mp ran
      exact kept_setInitParameter_iff kept returned
  | constructor decodeType =>
      obtain ⟨⟨ok, t'⟩, returned, rfl⟩ := Option.map_eq_some_iff.mp ran
      exact kept_constructor_iff kept returned
  | decodeHeader => exact iff_of_true (kept_of_keeps keeps_decodeHeader kept ran) trivial
  | progressiveDecode =>
      exact iff_of_true (kept_of_keeps keeps_progressiveDecode kept ran) trivial
  | waitDone => exact iff_of_true (kept_of_keeps keeps_waitDone kept ran) trivial
  | finalize => exact iff_of_true (kept_of_keeps keeps_finalize kept ran) trivial

/-- The state behind a call that returns. -/
def after (s : State) (event : Event) : State :=
  (event.run s).getD s

/-- A call that returns. -/
def Returns (s : State) (event : Event) : Prop :=
  (event.run s).isSome

/-- The table and the pool go together behind a call. -/
def KeptBehind (s : State) (event : Event) : Prop :=
  (after s event).books.Kept

theorem keptBehind_iff {event : Event} (kept : s.books.Kept) (returns : Returns s event) :
    KeptBehind s event ↔ Safe s event := by
  obtain ⟨t, ran⟩ := Option.isSome_iff_exists.mp returns
  rw [KeptBehind, after, ran]
  exact kept_run_iff kept ran

theorem meets_keptBehind_iff {events : List Event} (kept : s.books.Kept)
    (returns : Run.Meets after Returns s events) :
    Run.Meets after KeptBehind s events ↔ Run.Meets after Safe s events := by
  induction events generalizing s with
  | nil => exact Iff.rfl
  | cons event rest inductionHypothesis =>
      obtain ⟨here, later⟩ := returns
      rw [Run.Meets, Run.Meets, keptBehind_iff kept here]
      apply and_congr_right
      intro safe
      exact inductionHypothesis ((keptBehind_iff kept here).mpr safe) later

theorem kept_start {reader : Reader} : (State.start reader).books.Kept :=
  kept_of_empty rfl rfl rfl

/-- The entries of the table are the blocks that the pool has given out, behind every call,
if and only if no block is noted whenever the table is cleared or a pool is made. -/
theorem books_kept_iff (reader : Reader) (events : List Event)
    (returns : Run.Meets after Returns (State.start reader) events) :
    Run.Meets after KeptBehind (State.start reader) events ↔
      Run.Meets after Safe (State.start reader) events :=
  meets_keptBehind_iff kept_start returns

end Runs

section Samples

instance (s : State) (event : Event) : Decidable (Returns s event) :=
  inferInstanceAs (Decidable ((event.run s).isSome = true))

instance (s : State) (event : Event) : Decidable (Safe s event) :=
  match event with
  | ⟨_, .constructor _⟩ => inferInstanceAs (Decidable s.books.Empty)
  | ⟨_, .setInitParameter _ rBufSize _ iBufSize _⟩ =>
      inferInstanceAs (Decidable (rBufSize < MIN_READBUFFER_SIZE ∨
        iBufSize - JPEG_DEFAULT_EXIF_SIZE < MemoryPool.MIN_POOL_SIZE ∨ s.books.Empty))
  | ⟨_, .decodeHeader⟩ => .isTrue trivial
  | ⟨_, .progressiveDecode⟩ => .isTrue trivial
  | ⟨_, .waitDone⟩ => .isTrue trivial
  | ⟨_, .finalize⟩ => .isTrue trivial

/-- A progressive image of one component without a scan. -/
def emptyImage : Reader :=
  sampleReader [0xFF, 0xD8, 0xFF, 0xC2, 0, 11, 8, 0, 64, 0, 64, 1, 1, 0x11, 0, 0xFF, 0xD9]

/-- The header of the image is decoded with a pool of 64 KiB. -/
def sampleDecode : List Event :=
  [.setInitParameter 0x1000 0x800 0x8000 0x20080 true, .constructor .main, .decodeHeader].map
    (⟨sampleMachine, ·⟩)

/-- The next image is begun when the hardware is done with this one. -/
theorem books_kept_iff_twoImages :
    Run.Meets after KeptBehind (State.start emptyImage)
      (sampleDecode ++ [⟨sampleMachine, .waitDone⟩, ⟨sampleMachine, .constructor .main⟩]) := by
  apply (books_kept_iff emptyImage _ _).mpr
  · decide +kernel
  · decide +kernel

/-- The next image is begun before. -/
theorem books_not_always_kept :
    ¬ ∀ (reader : Reader) (events : List Event),
      Run.Meets after Returns (State.start reader) events →
        Run.Meets after KeptBehind (State.start reader) events := by
  intro always
  have returns : Run.Meets after Returns (State.start emptyImage)
      (sampleDecode ++ [⟨sampleMachine, .constructor .main⟩]) := by
    decide +kernel
  have notSafe : ¬ Run.Meets after Safe (State.start emptyImage)
      (sampleDecode ++ [⟨sampleMachine, .constructor .main⟩]) := by
    decide +kernel
  exact notSafe ((meets_keptBehind_iff kept_start returns).mp (always _ _ returns))

end Samples

end Gp2Firmware.Jpeg.Decoder
