import Gp2Firmware.Jpeg.Decoder

/-!
# The markers of a JPEG stream

`MDrv_JPEG_process_markers` reads the segments in front of a frame or a scan up
to the marker that its callers look for.  A segment that it skips may be in
error as well, which it does not tell.
-/

namespace Gp2Firmware.Jpeg.Decoder

open Gp2Firmware.Lib (Effects)
open Gp2Firmware.Lib.WordMemory Gp2Firmware.Jpeg.BitReader
  Gp2Firmware.Jpeg.HuffmanTable Gp2Firmware.Jpeg.Mcu

def JPEG_MAXQUANTTABLES : Nat := 4
def JPEG_MAXCOMPONENTS : Nat := 4
def JPEG_MAXCOMPSINSCAN : Nat := 4
def JPEG_MIN_HEIGHT : Nat := 64
def JPEG_MIN_WIDTH : Nat := 64

def M_TEM : U8 := 0x01
def M_SOF0 : U8 := 0xC0
def M_SOF1 : U8 := 0xC1
def M_SOF2 : U8 := 0xC2
def M_DHT : U8 := 0xC4
def M_JPG : U8 := 0xC8
def M_SOF9 : U8 := 0xC9
def M_DAC : U8 := 0xCC
def M_RST0 : U8 := 0xD0
def M_SOI : U8 := 0xD8
def M_EOI : U8 := 0xD9
def M_SOS : U8 := 0xDA
def M_DQT : U8 := 0xDB
def M_DRI : U8 := 0xDD
def M_APP1 : U8 := 0xE1

/-- The markers that `process_markers` returns with: `SOF0` to `SOF15` where these stand
for frames, `SOI`, `EOI` and `SOS`. -/
def returnedMarkers : List U8 :=
  [M_SOF0, M_SOF1, M_SOF2, 0xC3, 0xC5, 0xC6, 0xC7, M_SOF9, 0xCA, 0xCB, 0xCD, 0xCE, 0xCF,
    M_SOI, M_EOI, M_SOS]

instance (c : U8) : Decidable (c ∈ returnedMarkers) :=
  List.instDecidableMemOfLawfulBEq c returnedMarkers

/-- The markers without parameters, which nothing is expected of here. -/
def unexpectedMarkers : List U8 :=
  [M_JPG, M_RST0, 0xD1, 0xD2, 0xD3, 0xD4, 0xD5, 0xD6, 0xD7, M_TEM]

instance (c : U8) : Decidable (c ∈ unexpectedMarkers) :=
  List.instDecidableMemOfLawfulBEq c unexpectedMarkers

section Code

variable (machine : Machine)

def getChar : Program State U8 :=
  reading (BitReader.getChar machine.wait)

def getShort : Program State Nat := do
  let high ← getChar machine
  let low ← getChar machine
  pure ((high.toNat * 256 + low.toNat) % 65536)

/-- A part of the code again and again, for the numbers from one on. -/
def forEach (part : Nat → Program State Unit) : Nat → Nat → Program State Unit
  | _, 0 => pure ()
  | i, count + 1 => do
      part i
      forEach part (i + 1) count

/-- The same for a part that may fail. -/
def forEachOk (part : Nat → Program State Bool) : Nat → Nat → Program State Bool
  | _, 0 => pure true
  | i, count + 1 => do
      if ← part i then
        forEachOk part (i + 1) count
      else
        pure false

def dhtError : DhtError → JpegError
  | .badDhtMarker => .badDhtMarker
  | .badDhtCounts => .badDhtCounts
  | .badDhtIndex => .badDhtIndex

def readDhtTables : Program State (Except DhtError Unit) := fun s =>
  let (result, infos, r) := HuffmanTable.readDhtMarker machine.wait s.huffInfo s.reader
  some (result, { s with huffInfo := infos, reader := r })

def readDhtMarker : Program State Bool := do
  match ← readDhtTables machine with
  | .ok _ => pure true
  | .error error => fail machine (dhtError error)

/-- The second byte of a value, if values have two. -/
def readLowByte (prec : Nat) : Program State U8 :=
  if prec ≠ 0 then getChar machine else pure 0

def readQuantValue (prec n i : Nat) : Program State Unit := do
  let high ← getChar machine
  let low ← readLowByte machine prec
  let temp : U16 :=
    if prec ≠ 0 then (high.setWidth 16 <<< 8) + low.setWidth 16 else high.setWidth 16
  modify fun s => { s with
    quantTables := Function.update s.quantTables n
      { s.quantTables n with value := Function.update (s.quantTables n).value i temp } }

def quantLength (prec : Nat) : Nat :=
  if prec ≠ 0 then 64 + 1 + 64 else 64 + 1

/-- The tables of a marker one after the other; `left` falls by 65 at least with each. -/
def readQuantTables : Nat → Nat → Program State Bool
  | 0, _ => pure true
  | turns + 1, left =>
      if left = 0 then
        pure true
      else do
        let c ← getChar machine
        let prec := c.toNat / 16
        let n := c.toNat % 16
        if JPEG_MAXQUANTTABLES ≤ n then
          fail machine .badDqtTable
        else do
          modify fun s => { s with
            quantTables := Function.update s.quantTables n
              { s.quantTables n with valid := true } }
          forEach (readQuantValue machine prec n) 0 64
          let i := quantLength prec
          if left < i then
            fail machine .badDqtLength
          else
            readQuantTables turns (left - i)

def readDqtMarker : Program State Bool := do
  let left ← getShort machine
  if left < 2 then
    fail machine .badDqtMarker
  else
    readQuantTables machine (left - 2) (left - 2)

/-- The entry of a component in the frame header. -/
def readSofComponent (i : Nat) : Program State Unit := do
  let ident ← getChar machine
  modify fun s => { s with
    compIdent := Function.update s.compIdent i ident.toNat
    lumaCi := if ident = 0 then 0 else s.lumaCi
    chromaCi := if ident = 0 then 1 else s.chromaCi }
  let tmp ← getChar machine
  let quant ← getChar machine
  modify fun s => { s with
    frame := { s.frame with
      hSamp := Function.update s.frame.hSamp i (tmp.toNat / 16)
      vSamp := Function.update s.frame.vSamp i (tmp.toNat % 16) }
    compQuant := Function.update s.compQuant i quant.toNat }

/-- The number of components and their entries. -/
def readSofComponents (left : Nat) : Program State Bool := do
  let comps ← getChar machine
  modify fun s => { s with frame := { s.frame with compsInFrame := comps.toNat } }
  if JPEG_MAXCOMPONENTS < comps.toNat then
    fail machine .tooManyComponents
  else if left ≠ comps.toNat * 3 + 8 then
    fail machine .badSofLength
  else do
    forEach (readSofComponent machine) 0 comps.toNat
    pure true

def readSofWidth (left : Nat) : Program State Bool := do
  let width ← getShort machine
  modify fun s => { s with frame := { s.frame with imageXSize := width } }
  if width < JPEG_MIN_WIDTH ∨ JPEG_MAX_WIDTH < width then
    fail machine .badWidth
  else
    readSofComponents machine left

def readSofMarker : Program State Bool := do
  let left ← getShort machine
  let precision ← getChar machine
  modify fun s => { s with precision := precision.toNat }
  if precision.toNat ≠ 8 then
    fail machine .badPrecision
  else do
    let height ← getShort machine
    modify fun s => { s with frame := { s.frame with imageYSize := height } }
    if height < JPEG_MIN_HEIGHT ∨ JPEG_MAX_HEIGHT < height then
      fail machine .badHeight
    else
      readSofWidth machine left

/-- `MDrv_JPEG_skip_bytes`; a turn that goes on skips one byte at least. -/
def skipBytes : Nat → Nat → Reader → Reader
  | 0, _, r => r
  | turns + 1, count, r =>
      if count = 0 then
        r
      else
        let r := if r.inBufLeft = 0 then fillReadBuffer machine.wait r else r
        if r.inBufLeft = 0 then
          r
        else if count < r.inBufLeft.toNat then
          { r with
            inBufLeft := r.inBufLeft - BitVec.ofNat 32 count
            inBufOfs := r.inBufOfs + BitVec.ofNat 32 count }
        else
          skipBytes turns (count - r.inBufLeft.toNat) { r with inBufLeft := 0 }

def skip (count : Nat) : Program State Unit :=
  reading fun r => ((), skipBytes machine count count r)

def skipVariableMarker : Program State Bool := do
  let left ← getShort machine
  note (.skip left)
  if left < 2 then
    fail machine .badVariableMarker
  else do
    skip machine (left - 2)
    pure true

def readDriMarker : Program State Bool := do
  let length ← getShort machine
  if length ≠ 4 then
    fail machine .badDriLength
  else do
    let interval ← getShort machine
    modify fun s => { s with restartInterval := interval }
    pure true

/-- The entry of a component in the scan header. -/
def readSosComponent (i : Nat) : Program State Bool := do
  let cc ← getChar machine
  let c ← getChar machine
  let s ← get
  match (List.range s.frame.compsInFrame).find? fun ci => s.compIdent ci = cc.toNat with
  | none => fail machine .badSosCompId
  | some ci => do
      modify fun s => { s with
        compList := Function.update s.compList i ci
        compDcTab := Function.update s.compDcTab ci (c.toNat / 16)
        compAcTab := Function.update s.compAcTab ci (c.toNat % 16 + JPEG_MAXHUFFTABLES / 2) }
      pure true

/-- The parameters behind the components of a scan. -/
def readSosParameters (left : U32) : Program State Bool := do
  let spectralStart ← getChar machine
  let spectralEnd ← getChar machine
  let tmp ← getChar machine
  modify fun s => { s with
    spectralStart := if s.progressiveFlag then spectralStart.toNat else 0
    spectralEnd := if s.progressiveFlag then spectralEnd.toNat else 63
    successiveHigh := tmp.toNat / 16
    successiveLow := tmp.toNat % 16 }
  skip machine (left - 3).toNat
  pure true

def readSosMarker : Program State Bool := do
  let length ← getShort machine
  let n ← getChar machine
  modify fun s => { s with compsInScan := n.toNat }
  let left : U32 := BitVec.ofNat 32 length - 3
  if left ≠ BitVec.ofNat 32 (n.toNat * 2 + 3) ∨ n.toNat < 1 ∨ JPEG_MAXCOMPSINSCAN < n.toNat then
    fail machine .badSosLength
  else do
    if ← forEachOk (readSosComponent machine) 0 n.toNat then
      readSosParameters machine (left - BitVec.ofNat 32 (n.toNat * 2))
    else
      pure false

/-- A byte of an APP1 segment, stored in the internal buffer. -/
def readExifByte (i : Nat) : Program State Unit := do
  let c ← getChar machine
  modify fun s => { s with reader := { s.reader with
    memory := Function.update s.reader.memory
      (s.reader.internalBufferAddr + BitVec.ofNat 32 i) c } }

/-- `MDrv_JPEG_DecodeExifInfo` and what is done about a thumbnail. -/
def decodeExif (length : Nat) (s : State) : State :=
  let (found, thumbnail) := Thumbnail.decodeExifInfo s.reader.memory
    s.reader.internalBufferAddr s.reader.internalBufferAddr (BitVec.ofNat 32 length) s.thumbnail
  let s := { s with thumbnail := thumbnail }
  if found then
    { s with reader := { s.reader with
      thumbnailBufferOffset := thumbnail.thumbnailOffset
      thumbnailBufferSize := thumbnail.thumbnailSize.setWidth 32 } }
  else
    s

def readApp1Marker : Program State Bool := do
  let length ← getShort machine
  if length < 2 then
    fail machine .badApp1Marker
  else do
    forEach (readExifByte machine) 0 (length - 2)
    modify (decodeExif (length - 2))
    pure true

/-- A turn through the bytes in front of a marker; the flag says that a `0xFF` was the last
one. -/
def markerTurn (s : Bool × Reader) : Bool × Reader ⊕ U8 × Reader :=
  let (c, r) := BitReader.getChar machine.wait s.2
  if s.1 then
    if c = 0xFF then .inl (true, r)
    else if c = 0 then .inl (false, r)
    else .inr (c, r)
  else
    .inl (decide (c = 0xFF), r)

def nextMarker : Program State U8 := fun s =>
  (Lib.Loop.run (markerTurn machine) machine.turns (false, s.reader)).map fun (c, r) =>
    (c, { s with reader := r })

/-- What a marker comes to: the next one is read, or it is returned, or `FALSE` is. -/
inductive MarkerStep where
  | next
  | found
  | failed
  deriving DecidableEq

def nextIf (read : Program State Bool) : Program State MarkerStep := do
  if ← read then
    pure .next
  else
    pure .failed

/-- A segment is skipped, whatever comes of it. -/
def nextAfterSkip : Program State MarkerStep := do
  let _ ← skipVariableMarker machine
  pure .next

def processApp1 : Program State MarkerStep := do
  let s ← get
  if s.decodeType = .thumbnail ∧ s.thumbnail.thumbnailFound = false then
    nextIf (readApp1Marker machine)
  else
    nextAfterSkip machine

def processMarker (c : U8) : Program State MarkerStep :=
  if c = M_APP1 then
    processApp1 machine
  else if c ∈ returnedMarkers then
    pure .found
  else if c = M_DHT then
    nextIf (readDhtMarker machine)
  else if c = M_DAC then
    nextIf (fail machine .noArithmeticSupport)
  else if c = M_DQT then
    nextIf (readDqtMarker machine)
  else if c = M_DRI then
    nextIf (readDriMarker machine)
  else if c ∈ unexpectedMarkers then
    nextIf (fail machine .unexpectedMarker)
  else
    nextAfterSkip machine

/-- The marker that is returned, or nothing for `FALSE`. -/
def processMarkers : Nat → Program State (Option U8)
  | 0 => fun _ => none
  | turns + 1 => do
      let c ← nextMarker machine
      note (.marker c)
      match ← processMarker machine c with
      | .next => processMarkers turns
      | .found => pure (some c)
      | .failed => pure none

/-- A number of bytes is searched for the marker behind a last one. -/
def soiSearch : Nat → U8 → Program State Bool
  | 0, _ => pure false
  | bytesleft + 1, lastchar => do
      let thischar ← getChar machine
      if lastchar = 0xFF ∧ thischar = M_SOI then
        pure true
      else
        soiSearch bytesleft thischar

def locateSoiMarker : Program State Bool := do
  let lastchar ← getChar machine
  let thischar ← getChar machine
  if lastchar = 0xFF ∧ thischar = M_SOI then
    pure true
  else do
    if ← soiSearch machine 639 thischar then
      let s ← get
      if (s.reader.bitBuf >>> 8) &&& 0xFF ≠ 0xFF then
        fail machine .notJpeg
      else
        pure true
    else
      fail machine .notJpeg

def locateSofMarker : Program State Bool := do
  if ← locateSoiMarker machine then
    match ← processMarkers machine machine.turns with
    | none => pure false
    | some c =>
        if c = M_SOF2 then do
          modify fun s => { s with progressiveFlag := true }
          readSofMarker machine
        else if c = M_SOF0 ∨ c = M_SOF1 then
          readSofMarker machine
        else if c = M_SOF9 then
          fail machine .noArithmeticSupport
        else
          fail machine .unsupportedMarker
  else
    pure false

def locateSosMarker : Program State Bool := do
  match ← processMarkers machine machine.turns with
  | none => pure false
  | some c =>
      if c = M_EOI then
        pure false
      else if c ≠ M_SOS then
        fail machine .unexpectedMarker
      else
        readSosMarker machine

end Code

/-! ### What is noted on the way -/

section Specs

variable {machine : Machine}

/-- An error and `FALSE`, or neither. -/
def Checked (ok : Bool) (notes : List Note) : Prop :=
  ok = true ∧ notes = [] ∨ ok = false ∧ ∃ status, notes = [.terminate status]

theorem checked_pure : effects.Takes (pure true : Program State Bool) Checked :=
  Effects.takes_pure (.inl ⟨rfl, rfl⟩)

theorem checked_fail {status : JpegError} : effects.Takes (fail machine status) Checked := by
  apply takes_terminate.bind
  intro _ notes failed
  subst failed
  exact Effects.takes_pure (.inr ⟨rfl, status, rfl⟩)

theorem checked_and {first second : Program State Bool} (check : effects.Takes first Checked)
    (later : effects.Takes second Checked) :
    effects.Takes (do if ← first then second else pure false) Checked := by
  apply check.bind
  rintro ok notes (⟨rfl, rfl⟩ | ⟨rfl, status, rfl⟩)
  · exact later
  · exact Effects.takes_pure (.inr ⟨rfl, status, rfl⟩)

theorem silent_getChar : effects.Silent (getChar machine) :=
  silent_reading

theorem silent_getShort : effects.Silent (getShort machine) := by
  apply silent_getChar.bind
  intro _
  apply silent_getChar.bind
  intro _
  exact Effects.silent_pure

theorem silent_skip {count : Nat} : effects.Silent (skip machine count) :=
  silent_reading

theorem silent_forEach {part : Nat → Program State Unit} (silent : ∀ i, effects.Silent (part i))
    {i count : Nat} : effects.Silent (forEach part i count) := by
  induction count generalizing i with
  | zero => exact Effects.silent_pure
  | succ count inductionHypothesis =>
      apply (silent i).bind
      intro _
      exact inductionHypothesis

theorem checked_forEachOk {part : Nat → Program State Bool}
    (checked : ∀ i, effects.Takes (part i) Checked) {i count : Nat} :
    effects.Takes (forEachOk part i count) Checked := by
  induction count generalizing i with
  | zero => exact checked_pure
  | succ count inductionHypothesis => exact checked_and (checked i) inductionHypothesis

theorem checked_readDhtMarker : effects.Takes (readDhtMarker machine) Checked := by
  have silent : effects.Silent (readDhtTables machine) := by
    apply silent_of_same
    intro s a t ran
    obtain ⟨-, rfl⟩ := Prod.mk.inj (Option.some.inj ran)
    constructor <;> rfl
  apply silent.bind
  intro result
  cases result with
  | ok _ => exact checked_pure
  | error _ => exact checked_fail

theorem silent_readQuantValue {prec n i : Nat} :
    effects.Silent (readQuantValue machine prec n i) := by
  unfold readQuantValue
  apply silent_getChar.bind
  intro _
  have silent : effects.Silent (readLowByte machine prec) := by
    unfold readLowByte
    split
    · exact silent_getChar
    · exact Effects.silent_pure
  apply silent.bind
  intro _
  exact silent_change fun s => ⟨rfl, rfl, rfl⟩

theorem checked_readQuantTables {turns left : Nat} :
    effects.Takes (readQuantTables machine turns left) Checked := by
  induction turns generalizing left with
  | zero => exact checked_pure
  | succ turns inductionHypothesis =>
      rw [readQuantTables]
      split
      · exact checked_pure
      apply silent_getChar.bind
      intro c
      dsimp only
      split
      · exact checked_fail
      refine takes_change (fun _ => ⟨rfl, rfl, rfl⟩) ?_
      apply (silent_forEach fun _ => silent_readQuantValue).bind
      intro _
      split
      · exact checked_fail
      · exact inductionHypothesis

theorem checked_readDqtMarker : effects.Takes (readDqtMarker machine) Checked := by
  apply silent_getShort.bind
  intro left
  split
  · exact checked_fail
  · exact checked_readQuantTables

theorem silent_readSofComponent {i : Nat} : effects.Silent (readSofComponent machine i) := by
  apply silent_getChar.bind
  intro _
  refine takes_change (fun _ => ⟨rfl, rfl, rfl⟩) ?_
  apply silent_getChar.bind
  intro _
  apply silent_getChar.bind
  intro _
  exact silent_change fun s => ⟨rfl, rfl, rfl⟩

theorem checked_readSofMarker : effects.Takes (readSofMarker machine) Checked := by
  unfold readSofMarker readSofWidth readSofComponents
  apply silent_getShort.bind
  intro _
  apply silent_getChar.bind
  intro _
  refine takes_change (fun _ => ⟨rfl, rfl, rfl⟩) ?_
  split
  · exact checked_fail
  apply silent_getShort.bind
  intro _
  refine takes_change (fun _ => ⟨rfl, rfl, rfl⟩) ?_
  split
  · exact checked_fail
  apply silent_getShort.bind
  intro _
  refine takes_change (fun _ => ⟨rfl, rfl, rfl⟩) ?_
  split
  · exact checked_fail
  apply silent_getChar.bind
  intro _
  refine takes_change (fun _ => ⟨rfl, rfl, rfl⟩) ?_
  split
  · exact checked_fail
  split
  · exact checked_fail
  apply (silent_forEach fun _ => silent_readSofComponent).bind
  intro _
  exact checked_pure

theorem checked_readDriMarker : effects.Takes (readDriMarker machine) Checked := by
  apply silent_getShort.bind
  intro _
  split
  · exact checked_fail
  apply silent_getShort.bind
  intro _
  refine takes_change (fun _ => ⟨rfl, rfl, rfl⟩) ?_
  exact checked_pure

theorem checked_readSosComponent {i : Nat} :
    effects.Takes (readSosComponent machine i) Checked := by
  unfold readSosComponent
  apply silent_getChar.bind
  intro _
  apply silent_getChar.bind
  intro _
  apply Effects.silent_get.bind
  intro _
  split
  · exact checked_fail
  refine takes_change (fun _ => ⟨rfl, rfl, rfl⟩) ?_
  exact checked_pure

theorem checked_readSosParameters {left : U32} :
    effects.Takes (readSosParameters machine left) Checked := by
  apply silent_getChar.bind
  intro _
  apply silent_getChar.bind
  intro _
  apply silent_getChar.bind
  intro _
  refine takes_change (fun _ => ⟨rfl, rfl, rfl⟩) ?_
  apply silent_skip.bind
  intro _
  exact checked_pure

theorem checked_readSosMarker : effects.Takes (readSosMarker machine) Checked := by
  apply silent_getShort.bind
  intro _
  apply silent_getChar.bind
  intro _
  refine takes_change (fun _ => ⟨rfl, rfl, rfl⟩) ?_
  dsimp only
  split
  · exact checked_fail
  · exact checked_and (checked_forEachOk fun _ => checked_readSosComponent)
      checked_readSosParameters

theorem checked_readApp1Marker : effects.Takes (readApp1Marker machine) Checked := by
  have silent : ∀ i, effects.Silent (readExifByte machine i) := by
    intro i
    apply silent_getChar.bind
    intro _
    exact silent_change fun s => ⟨rfl, rfl, rfl⟩
  apply silent_getShort.bind
  intro _
  split
  · exact checked_fail
  apply (silent_forEach silent).bind
  intro _
  refine takes_change ?_ checked_pure
  intro s
  unfold decodeExif
  dsimp only
  split <;> constructor <;> rfl

end Specs

section Balance

variable {machine : Machine} {first second notes : List Note}

/-- Nothing in the notes that is an error though `TRUE` may be returned behind it: every
segment that is skipped is long enough, and `alloc` has found room for every block. -/
def Fair (notes : List Note) : Prop :=
  (∀ left, .skip left ∈ notes → 2 ≤ left) ∧ ∀ q, .alloc q ∈ notes → q ≠ 0

/-- An error is handled if and only if one of those is the reason. -/
def Balanced (notes : List Note) : Prop :=
  Quiet notes ↔ Fair notes

theorem fair_append : Fair (first ++ second) ↔ Fair first ∧ Fair second := by
  simp only [Fair, List.mem_append, or_imp, forall_and]
  exact and_and_and_comm

theorem balanced_nil : Balanced [] := by
  simp [Balanced, Quiet, Fair]

theorem Balanced.append (balanced : Balanced first) (later : Balanced second) :
    Balanced (first ++ second) := by
  rw [Balanced, quiet_append, fair_append]
  exact and_congr balanced later

/-- The last marker that is met. -/
def lastMarker (notes : List Note) : Option U8 :=
  (notes.filterMap fun
    | .marker c => some c
    | _ => none).getLast?

theorem lastMarker_append :
    lastMarker (first ++ second) = (lastMarker second).or (lastMarker first) := by
  rw [lastMarker, List.filterMap_append, List.getLast?_append]
  rfl

theorem lastMarker_append_of_none (none : lastMarker second = none) :
    lastMarker (first ++ second) = lastMarker first := by
  rw [lastMarker_append, none, Option.none_or]

theorem lastMarker_append_of_some {c : U8} (found : lastMarker second = some c) :
    lastMarker (first ++ second) = some c := by
  rw [lastMarker_append, found, Option.some_or]

/-- What is noted of a segment by what it comes to. -/
def SegmentNotes (step : MarkerStep) (notes : List Note) : Prop :=
  lastMarker notes = none ∧
    match step with
    | .next => Balanced notes
    | .found => False
    | .failed => ¬ Quiet notes

theorem takes_nextIf {read : Program State Bool} (checked : effects.Takes read Checked) :
    effects.Takes (nextIf read) SegmentNotes := by
  apply checked.bind
  rintro ok notes (⟨rfl, rfl⟩ | ⟨rfl, status, rfl⟩)
  · exact Effects.takes_pure ⟨rfl, balanced_nil⟩
  · exact Effects.takes_pure ⟨rfl, not_quiet_of_mem List.mem_cons_self⟩

theorem takes_nextAfterSkip : effects.Takes (nextAfterSkip machine) SegmentNotes := by
  have skips : effects.Takes (skipVariableMarker machine) fun _ notes =>
      lastMarker notes = none ∧ Balanced notes := by
    apply silent_getShort.bind
    intro left
    apply (takes_note (by simp) (by simp)).bind
    intro _ noted skipped
    subst skipped
    split
    · rename_i short
      apply takes_terminate.bind
      intro _ notes failed
      subst failed
      apply Effects.takes_pure
      refine ⟨rfl, ?_⟩
      simp [Balanced, Quiet, Fair]
      omega
    · rename_i long
      apply silent_skip.bind
      intro _
      apply Effects.takes_pure
      refine ⟨rfl, ?_⟩
      simp [Balanced, Quiet, Fair]
      omega
  apply skips.bind
  intro _ notes here
  apply Effects.takes_pure
  simpa [SegmentNotes] using here

/-- A marker is returned without a note, and its segment is read otherwise. -/
theorem takes_processMarker {c : U8} :
    effects.Takes (processMarker machine c) fun step notes =>
      step = .found ∧ notes = [] ∧ c ∈ returnedMarkers ∨
        SegmentNotes step notes ∧ c ∉ returnedMarkers := by
  by_cases returned : c ∈ returnedMarkers
  · have other : c ≠ M_APP1 := by
      intro same
      subst same
      exact absurd returned (by decide)
    rw [processMarker, if_neg other, if_pos returned]
    exact Effects.takes_pure (.inl ⟨rfl, rfl, returned⟩)
  · have segment : effects.Takes (processMarker machine c) SegmentNotes := by
      rw [processMarker, if_neg returned]
      split
      · apply Effects.silent_get.bind
        intro s
        split
        · exact takes_nextIf checked_readApp1Marker
        · exact takes_nextAfterSkip
      split
      · exact takes_nextIf checked_readDhtMarker
      split
      · exact takes_nextIf checked_fail
      split
      · exact takes_nextIf checked_readDqtMarker
      split
      · exact takes_nextIf checked_readDriMarker
      split
      · exact takes_nextIf checked_fail
      · exact takes_nextAfterSkip
    exact segment.imp fun _ _ here => .inr ⟨here, returned⟩

/-- What is noted up to a marker that is returned, or up to an error. -/
def MarkerNotes (found : Option U8) (notes : List Note) : Prop :=
  match found with
  | some c => Balanced notes ∧ lastMarker notes = some c
  | none => ¬ Quiet notes ∧ ∃ c, lastMarker notes = some c ∧ c ≠ M_EOI

theorem silent_nextMarker : effects.Silent (nextMarker machine) := by
  apply silent_of_same
  intro s a t ran
  obtain ⟨⟨c, r⟩, -, took⟩ := Option.map_eq_some_iff.mp ran
  obtain ⟨-, rfl⟩ := Prod.mk.inj took
  exact ⟨rfl, rfl, rfl⟩

theorem MarkerNotes.behind {found : Option U8} (balanced : Balanced first)
    (here : MarkerNotes found second) : MarkerNotes found (first ++ second) := by
  cases found with
  | some c =>
      obtain ⟨later, last⟩ := here
      exact ⟨balanced.append later, lastMarker_append_of_some last⟩
  | none =>
      obtain ⟨loud, c, last, other⟩ := here
      exact ⟨fun quiet => loud (quiet_append.mp quiet).2, c, lastMarker_append_of_some last,
        other⟩

theorem takes_processMarkers {turns : Nat} :
    effects.Takes (processMarkers machine turns) MarkerNotes := by
  induction turns with
  | zero => exact Effects.takes_fails fun _ => rfl
  | succ turns inductionHypothesis =>
      apply silent_nextMarker.bind
      intro c
      apply (takes_note (by simp) (by simp)).bind
      intro _ noted met
      subst met
      have balanced : Balanced [.marker c] := by simp [Balanced, Quiet, Fair]
      apply takes_processMarker.bind
      rintro step notes (⟨rfl, rfl, returned⟩ | ⟨⟨last, segment⟩, other⟩)
      · exact Effects.takes_pure ⟨balanced, rfl⟩
      · cases step with
        | next =>
            apply inductionHypothesis.imp
            intro found later here
            rw [← List.append_assoc]
            exact here.behind (balanced.append segment)
        | found => exact segment.elim
        | failed =>
            apply Effects.takes_pure
            rw [List.append_nil]
            refine ⟨fun quiet => segment (quiet_append.mp quiet).2, c, ?_, ?_⟩
            · rw [lastMarker_append_of_none last]
              rfl
            · intro same
              subst same
              exact other (by decide)

/-- What is noted up to the end of a scan header, or of all headers if there is none. -/
def HeaderNotes (ok : Bool) (notes : List Note) : Prop :=
  (∃ c, lastMarker notes = some c ∧ (ok = true → c ≠ M_EOI)) ∧
    if ok then Balanced notes else Quiet notes ↔ Fair notes ∧ lastMarker notes = some M_EOI

theorem headerNotes_of_checked {ok : Bool} {c : U8} (balanced : Balanced first)
    (last : lastMarker first = some c) (other : c ≠ M_EOI) (checked : Checked ok second) :
    HeaderNotes ok (first ++ second) := by
  rcases checked with ⟨rfl, rfl⟩ | ⟨rfl, status, rfl⟩
  · rw [List.append_nil]
    exact ⟨⟨c, last, fun _ => other⟩, balanced⟩
  · have marker : lastMarker (first ++ [.terminate status]) = some c := by
      rw [lastMarker_append_of_none rfl, last]
    refine ⟨⟨c, marker, fun _ => other⟩, ?_⟩
    have loud : ¬ Quiet (first ++ [.terminate status]) := @not_quiet_of_mem status _ (by simp)
    simp [loud, marker, other]

theorem takes_locateSosMarker : effects.Takes (locateSosMarker machine) HeaderNotes := by
  apply takes_processMarkers.bind
  intro found notes here
  cases found with
  | none =>
      obtain ⟨loud, c, last, other⟩ := here
      apply Effects.takes_pure
      rw [List.append_nil]
      exact ⟨⟨c, last, fun _ => other⟩, by simp [loud, last, other]⟩
  | some c =>
      obtain ⟨balanced, last⟩ := here
      dsimp only
      split
      · rename_i isEnd
        subst isEnd
        apply Effects.takes_pure
        rw [List.append_nil]
        exact ⟨⟨M_EOI, last, by simp⟩, by simpa [last, Balanced] using balanced⟩
      · rename_i other
        split
        · exact checked_fail.imp fun ok later =>
            headerNotes_of_checked balanced last other
        · exact checked_readSosMarker.imp fun ok later =>
            headerNotes_of_checked balanced last other

end Balance

end Gp2Firmware.Jpeg.Decoder
