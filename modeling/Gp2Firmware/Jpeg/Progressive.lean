import Gp2Firmware.Jpeg.Markers

/-!
# The scans of a progressive image

`MDrv_JPEG_init_progressive` opens the coefficient buffers and decodes the scans
into them.  A scan header that cannot be read ends the image, as its end does.
-/

namespace Gp2Firmware.Jpeg.Decoder

open Gp2Firmware.Lib (Effects)
open Gp2Firmware.Lib.WordMemory Gp2Firmware.Jpeg.BitReader
  Gp2Firmware.Jpeg.HuffmanTable Gp2Firmware.Jpeg.Mcu

section Scan

variable (machine : Machine)

/-- The components of the scan. -/
def State.scanComps (s : State) : List Nat :=
  (List.range s.compsInScan).map s.compList

def calcMcuBlockOrder : Program State Unit :=
  modify fun s => { s with order := Mcu.calcMcuBlockOrder s.frame s.scanComps }

/-- The tables of the software decoder; nothing if the source leaves the bounds of
`s16Tree`. -/
def makeSoftwareTable (index : Nat) (huffsize : Nat → Nat) (huffcode : Nat → U16)
    (lastp : Nat) : Program State Bool := do
  let s ← get
  if s.progressiveFlag = false then
    pure true
  else
    match makeTables (s.huffInfo index).huffVal huffsize huffcode lastp with
    | none => fun _ => none
    | some (hs, _) => do
        modify fun s => { s with huffTbls := Function.update s.huffTbls index hs }
        pure true

def makeHuffTable (index : Nat) : Program State Bool := do
  let info := (← get).huffInfo index
  match makeSizes info.huffNum with
  | none => fail machine .undefinedHuffTable
  | some (huffsize, lastp) =>
      let huffsize := Function.update huffsize lastp 0
      match makeCodes huffsize with
      | none => fail machine .undefinedHuffTable
      | some huffcode => do
          modify fun s => { s with
            huffInfo := Function.update s.huffInfo index
              { info with code := fun i => huffcode (info.symbol i).toNat <<< (15 - (i - 1)) } }
          makeSoftwareTable index huffsize huffcode lastp

def checkHuffComponent (i : Nat) : Program State Bool := do
  let s ← get
  if s.spectralStart = 0 ∧ (s.huffInfo (s.compDcTab (s.compList i))).valid = false then
    fail machine .undefinedHuffTable
  else if 0 < s.spectralEnd ∧ (s.huffInfo (s.compAcTab (s.compList i))).valid = false then
    fail machine .undefinedHuffTable
  else
    pure true

def makeValidTable (i : Nat) : Program State Bool := do
  let s ← get
  if (s.huffInfo i).valid then
    makeHuffTable machine i
  else
    pure true

def checkHuffTables : Program State Bool := do
  let s ← get
  if ← forEachOk (checkHuffComponent machine) 0 s.compsInScan then
    forEachOk (makeValidTable machine) 0 JPEG_MAXHUFFTABLES
  else
    pure false

def checkQuantComponent (i : Nat) : Program State Bool := do
  let s ← get
  if (s.quantTables (s.compQuant (s.compList i))).valid = false then
    fail machine .undefinedQuantTable
  else
    pure true

def checkQuantTables : Program State Bool := do
  let s ← get
  forEachOk (checkQuantComponent machine) 0 s.compsInScan

def checkTables : Program State Bool := do
  if ← checkHuffTables machine then
    checkQuantTables machine
  else
    pure false

def noPrediction (s : State) : State :=
  { s with
    lastDcVal := fun c => if c < s.frame.compsInFrame then 0 else s.lastDcVal c
    eobRun := 0 }

/-- What is reset for a scan, and the bits in front of its first block. -/
def startScan (s : State) : State :=
  let s := noPrediction s
  let s :=
    if s.restartInterval ≠ 0 then
      { s with restartsLeft := s.restartInterval, nextRestartNum := 0 }
    else
      s
  if s.progressiveFlag then { s with reader := prime machine.wait s.reader } else s

def initScan : Program State Bool := do
  if ← locateSosMarker machine then
    calcMcuBlockOrder
    if ← checkTables machine then
      modify (startScan machine)
      pure true
    else
      pure false
  else
    pure false

/-- How many of some bytes are left with the first `0xFF`, none if there is no such. -/
def seekFF : Nat → Program State Nat
  | 0 => pure 0
  | i + 1 => do
      let c ← getChar machine
      if c = 0xFF then
        pure (i + 1)
      else
        seekFF i

/-- The first of some bytes that is no `0xFF`. -/
def passFF : Nat → Program State (Option U8)
  | 0 => pure none
  | i + 1 => do
      let c ← getChar machine
      if c ≠ 0xFF then
        pure (some c)
      else
        passFF i

/-- What is reset behind a restart marker, and the bits behind it. -/
def restart (s : State) : State :=
  let s := noPrediction s
  { s with
    restartsLeft := s.restartInterval
    nextRestartNum := (s.nextRestartNum + 1) % 8
    reader := prime machine.wait s.reader }

def processRestart : Program State Bool := do
  let i ← seekFF machine 1536
  match ← passFF machine i with
  | none => fail machine .badRestartMarker
  | some c => do
      let s ← get
      if c.toNat ≠ s.nextRestartNum + M_RST0.toNat then
        fail machine .badRestartMarker
      else do
        modify (restart machine)
        pure true

/-- The restart interval in front of an MCU. -/
def restartIfDue : Program State Bool := do
  let s ← get
  if s.restartInterval ≠ 0 ∧ s.restartsLeft = 0 then
    processRestart machine
  else
    pure true

def countMcu : Program State Unit :=
  modify fun s => { s with restartsLeft := (s.restartsLeft + 65535) % 65536 }

end Scan

section Blocks

variable (machine : Machine)

def getBits (numbits : Nat) : Program State U32 :=
  reading (getBits2 machine.wait numbits)

/-- A symbol by one of the tables; nothing if the way through its tree does not end. -/
def huffSymbol (index : Nat) : Program State Int := fun s =>
  (huffDecode machine.wait (s.huffTbls index) s.reader).map fun (symbol, r) =>
    (symbol, { s with reader := r })

def extendTest (s : Nat) : Int :=
  if s = 0 then 0 else if s < 16 then 2 ^ (s - 1) else (machine.beyond s).1

def extendOffset (s : Nat) : Int :=
  if s = 0 then 0 else if s < 16 then 1 - 2 ^ s else (machine.beyond s).2

def HUFF_EXTEND (x : U32) (s : Nat) : U32 :=
  if x.toInt < extendTest machine s then x + BitVec.ofInt 32 (extendOffset machine s) else x

/-- A number of `s` bits, which is 0 without bits. -/
def getExtended (s : Nat) : Program State U32 := do
  if s ≠ 0 then
    let r ← getBits machine (s % 256)
    pure (HUFF_EXTEND machine r s)
  else
    pure 0

def coefPlace (p : Address) (k : Nat) : Address :=
  p + BitVec.ofNat 32 (2 * k)

def loadCoef (p : Address) (k : Nat) : Program State U16 := do
  let s ← get
  pure (loadShort s.reader.memory (coefPlace p k))

def storeCoef (p : Address) (k : Nat) (value : U32) : Program State Unit :=
  setMemory fun memory => storeShort memory (coefPlace p k) (value.setWidth 16)

def decodeBlockDcFirst (componentId blockX blockY : Nat) : Program State Bool := do
  let p ← coeffBufGetp machine ((← get).dcCoeffs componentId) blockX blockY
  if p = 0 then
    pure false
  else do
    let symbol ← huffSymbol machine ((← get).compDcTab componentId)
    let difference ← getExtended machine symbol.toNat
    let st ← get
    let s := difference + st.lastDcVal componentId
    modify fun st => { st with lastDcVal := Function.update st.lastDcVal componentId s }
    storeCoef p 0 (s <<< st.successiveLow)
    pure true

def decodeBlockDcRefine (componentId blockX blockY : Nat) : Program State Bool := do
  let bit ← getBits machine 1
  if bit ≠ 0 then
    let p ← coeffBufGetp machine ((← get).dcCoeffs componentId) blockX blockY
    if p = 0 then
      pure false
    else do
      let value ← loadCoef p 0
      storeCoef p 0 (value.signExtend 32 ||| 1 <<< (← get).successiveLow)
      pure true
  else
    pure true

def getRunBits (r : Nat) : Program State U32 :=
  if r ≠ 0 then getBits machine r else pure 0

/-- `_u32EOB_run` behind the symbol of a run of `2 ^ r` blocks and more. -/
def startEobRun (r : Nat) : Program State Unit := do
  let more ← getRunBits machine r
  modify fun s => { s with eobRun := 1 <<< r + more }

def takeEobRun : Program State Unit :=
  modify fun s => { s with eobRun := s.eobRun - 1 }

/-- The coefficients from `k` on; every turn that goes on comes to a later one. -/
def acFirst (componentId : Nat) (p : Address) : Nat → Nat → Program State Bool
  | 0, _ => pure true
  | turns + 1, k => do
      if (← get).spectralEnd < k then
        pure true
      else
        let symbol ← huffSymbol machine ((← get).compAcTab componentId)
        let r := (symbol / 16).toNat
        let s := (symbol % 16).toNat
        if s ≠ 0 then
          if 63 < k + r then
            fail machine .decodeError
          else do
            let value ← getExtended machine s
            storeCoef p (k + r) (value <<< (← get).successiveLow)
            acFirst componentId p turns (k + r + 1)
        else if r = 15 then
          if 63 < k + 15 then
            fail machine .decodeError
          else
            acFirst componentId p turns (k + 15 + 1)
        else do
          startEobRun machine r
          takeEobRun
          pure true

def decodeBlockAcFirst (componentId blockX blockY : Nat) : Program State Bool := do
  if (← get).eobRun ≠ 0 then
    takeEobRun
    pure true
  else do
    let p ← coeffBufGetp machine ((← get).acCoeffs componentId) blockX blockY
    if p = 0 then
      pure false
    else
      acFirst machine componentId p 65 (← get).spectralStart

/-- A further bit of a coefficient that is not 0. -/
def refineCoef (p : Address) (k : Nat) (value : U16) : Program State Unit := do
  let bit ← getBits machine 1
  let p1 : U32 := 1 <<< (← get).successiveLow
  if bit ≠ 0 ∧ value.signExtend 32 &&& p1 = 0 then
    storeCoef p k (if value.msb then value.signExtend 32 - p1 else value.signExtend 32 + p1)
  else
    pure ()

/-- The place of the coefficient behind `r` zeroes, with a bit for each that is none. -/
def refineRun (p : Address) : Nat → Nat → Nat → Program State Nat
  | 0, _, k => pure k
  | turns + 1, r, k => do
      let value ← loadCoef p k
      if value ≠ 0 then
        refineCoef machine p k value
        if k + 1 ≤ (← get).spectralEnd then
          refineRun p turns r (k + 1)
        else
          pure (k + 1)
      else if r = 0 then
        pure k
      else if k + 1 ≤ (← get).spectralEnd then
        refineRun p turns (r - 1) (k + 1)
      else
        pure (k + 1)

/-- The sign of a coefficient that becomes one, and nothing otherwise. -/
def newCoef (s : Nat) : Program State (Option U32) := do
  if s ≠ 0 then
    let bit ← getBits machine 1
    let p1 : U32 := 1 <<< (← get).successiveLow
    pure (some (if bit ≠ 0 then p1 else -p1))
  else
    pure none

def storeNewCoef (p : Address) (k : Nat) (value : Option U32) : Program State Unit :=
  match value with
  | some value => if k < 64 then storeCoef p k value else pure ()
  | none => pure ()

/-- The coefficients from `k` on up to a run of blocks without further ones; nothing behind
an error. -/
def acRefine (componentId : Nat) (p : Address) : Nat → Nat → Program State (Option Nat)
  | 0, k => pure (some k)
  | turns + 1, k => do
      if (← get).spectralEnd < k then
        pure (some k)
      else
        let symbol ← huffSymbol machine ((← get).compAcTab componentId)
        let r := (symbol / 16).toNat
        let s := (symbol % 16).toNat
        if s ≠ 0 ∧ s ≠ 1 then
          terminate machine .decodeError
          pure none
        else if s = 0 ∧ r ≠ 15 then
          startEobRun machine r
          pure (some k)
        else do
          let value ← newCoef machine s
          let k ← refineRun machine p 65 r k
          storeNewCoef p k value
          acRefine componentId p turns (k + 1)

/-- The coefficients from `k` on that are not 0. -/
def refineRest (p : Address) : Nat → Nat → Program State Unit
  | 0, _ => pure ()
  | turns + 1, k => do
      if (← get).spectralEnd < k then
        pure ()
      else do
        let value ← loadCoef p k
        if value ≠ 0 then
          refineCoef machine p k value
          refineRest p turns (k + 1)
        else
          refineRest p turns (k + 1)

/-- The part of the function for blocks in a run. -/
def refineInRun (p : Address) (k : Nat) : Program State Bool := do
  if (← get).eobRun ≠ 0 then
    refineRest machine p 65 k
    takeEobRun
    pure true
  else
    pure true

def decodeBlockAcRefine (componentId blockX blockY : Nat) : Program State Bool := do
  let p ← coeffBufGetp machine ((← get).acCoeffs componentId) blockX blockY
  if p = 0 then
    pure false
  else
    let k := (← get).spectralStart
    if (← get).eobRun = 0 then
      match ← acRefine machine componentId p 65 k with
      | none => pure false
      | some k => refineInRun machine p k
    else
      refineInRun machine p k

end Blocks

section Image

variable (machine : Machine)

def decodeScan (decodeBlock : Nat → Nat → Nat → Program State Bool) : Program State Bool := do
  let s ← get
  Mcu.decodeScan s.frame s.order s.scanComps (restartIfDue machine) countMcu decodeBlock

def openDc (i : Nat) (blockNumX blockNumY : U16) : Program State Address := do
  let dc ← coeffBufOpen machine blockNumX blockNumY 1 1
  modify fun s => { s with dcCoeffs := Function.update s.dcCoeffs i dc }
  pure dc

def openAc (i : Nat) (blockNumX blockNumY : U16) : Program State Address := do
  let ac ← coeffBufOpen machine blockNumX blockNumY 8 8
  modify fun s => { s with acCoeffs := Function.update s.acCoeffs i ac }
  pure ac

/-- The two buffers of a component, or an end by `MDrv_JPEG_Finalize`. -/
def openComponent (i : Nat) : Program State Bool := do
  let s ← get
  let blockNumX := BitVec.ofNat 16 (roundEven s.layout.maxMcusPerRow * s.frame.hSamp i)
  let blockNumY := BitVec.ofNat 16 (roundEven s.layout.maxMcusPerCol * s.frame.vSamp i)
  let dc ← openDc machine i blockNumX blockNumY
  let ac ← openAc machine i blockNumX blockNumY
  if dc = 0 ∨ ac = 0 then
    freeAllBlocks machine
    pure false
  else do
    note (.opened i)
    pure true

/-- The parameters of a scan, as far as they have to go together. -/
def checkSpectral (s : State) : Option JpegError :=
  if s.spectralEnd < s.spectralStart ∨ 63 < s.spectralEnd then
    some .badSosSpectral
  else if s.spectralStart = 0 ∧ s.spectralEnd ≠ 0 then
    some .badSosSpectral
  else if s.spectralStart ≠ 0 ∧ s.compsInScan ≠ 1 then
    some .badSosSpectral
  else if s.successiveHigh ≠ 0 ∧ s.successiveLow + 1 ≠ s.successiveHigh then
    some .badSosSuccessive
  else
    none

def decodeBlockFunc (s : State) : Nat → Nat → Nat → Program State Bool :=
  if s.spectralStart = 0 then
    if s.successiveHigh ≠ 0 then decodeBlockDcRefine machine else decodeBlockDcFirst machine
  else
    if s.successiveHigh ≠ 0 then decodeBlockAcRefine machine else decodeBlockAcFirst machine

/-- A scan behind its header. -/
def decodeNextScan : Program State Bool := do
  let s ← get
  match checkSpectral s with
  | some status => fail machine status
  | none => decodeScan machine (decodeBlockFunc machine s)

/-- The loop over the scans; it is left by a header that cannot be read, or returns `FALSE`
from the middle. -/
def decodeScans : Nat → Program State Bool
  | 0 => fun _ => none
  | turns + 1 => do
      if ← initScan machine then
        if ← decodeNextScan machine then
          decodeScans turns
        else
          pure false
      else
        pure true

/-- All components as those of the last scan. -/
def allComps (s : State) : State :=
  let s := { s with
    compsInScan := s.frame.compsInFrame
    compList := fun i => if i < s.frame.compsInFrame then i else s.compList i }
  { s with order := Mcu.calcMcuBlockOrder s.frame s.scanComps }

/-- The coefficients of an image with some components. -/
def decodeComponents (comps : Nat) : Program State Bool := do
  if ← forEachOk (openComponent machine) 0 comps then
    if ← decodeScans machine machine.turns then
      modify allComps
      pure true
    else
      pure false
  else
    pure false

def initProgressive : Program State Bool := do
  let s ← get
  if s.frame.compsInFrame = 4 then
    fail machine .unsupportedColorspace
  else
    decodeComponents machine s.frame.compsInFrame

def frameError : FrameError → JpegError
  | .unsupportedSampFactors => .unsupportedSampFactors
  | .unsupportedColorspace => .unsupportedColorspace
  | .assertionError => .assertionError

/-- What `init_frame` finds out is kept. -/
def enterFrame : Except FrameError Layout → Program State Bool
  | .error error => fail machine (frameError error)
  | .ok layout => do
      modify fun s => { s with layout := layout, totalLinesLeft := layout.totalLinesLeft }
      pure true

def initFrame : Program State Bool := do
  enterFrame machine (Mcu.initFrame (← get).frame)

def initSequential : Program State Bool := do
  if ← initScan machine then
    pure true
  else
    fail machine .unexpectedMarker

/-- `MDrv_JPEG_DecodeHeader` behind the frame. -/
def initScans : Program State Bool := do
  let s ← get
  if s.progressiveFlag then
    initProgressive machine
  else
    initSequential machine

def decodeHeader : Program State Bool := do
  if ← initFrame machine then
    initScans machine
  else
    pure false

end Image

/-! ### What is noted on the way -/

section Specs

variable {machine : Machine}

theorem silent_calcMcuBlockOrder : effects.Silent calcMcuBlockOrder :=
  silent_change fun _ => ⟨rfl, rfl, rfl⟩

theorem checked_makeSoftwareTable {index lastp : Nat} {huffsize : Nat → Nat}
    {huffcode : Nat → U16} :
    effects.Takes (makeSoftwareTable index huffsize huffcode lastp) Checked := by
  unfold makeSoftwareTable
  apply Effects.silent_get.bind
  intro s
  split
  · exact checked_pure
  split
  · exact Effects.takes_fails fun _ => rfl
  · exact takes_change (fun _ => ⟨rfl, rfl, rfl⟩) checked_pure

theorem checked_makeHuffTable {index : Nat} :
    effects.Takes (makeHuffTable machine index) Checked := by
  unfold makeHuffTable
  apply Effects.silent_get.bind
  intro s
  dsimp only
  split
  · exact checked_fail
  split
  · exact checked_fail
  · exact takes_change (fun _ => ⟨rfl, rfl, rfl⟩) checked_makeSoftwareTable

theorem checked_checkTables : effects.Takes (checkTables machine) Checked := by
  have huffComponent : ∀ i, effects.Takes (checkHuffComponent machine i) Checked := by
    intro i
    apply Effects.silent_get.bind
    intro s
    split
    · exact checked_fail
    split
    · exact checked_fail
    · exact checked_pure
  have validTable : ∀ i, effects.Takes (makeValidTable machine i) Checked := by
    intro i
    apply Effects.silent_get.bind
    intro s
    split
    · exact checked_makeHuffTable
    · exact checked_pure
  have quantComponent : ∀ i, effects.Takes (checkQuantComponent machine i) Checked := by
    intro i
    apply Effects.silent_get.bind
    intro s
    split
    · exact checked_fail
    · exact checked_pure
  apply checked_and
  · apply Effects.silent_get.bind
    intro s
    exact checked_and (checked_forEachOk huffComponent) (checked_forEachOk validTable)
  · apply Effects.silent_get.bind
    intro s
    exact checked_forEachOk quantComponent

theorem takes_initScan : effects.Takes (initScan machine) HeaderNotes := by
  apply takes_locateSosMarker.bind
  intro ok notes header
  cases ok with
  | false =>
      apply Effects.takes_pure
      rwa [List.append_nil]
  | true =>
      obtain ⟨⟨c, last, other⟩, balanced⟩ := header
      apply silent_calcMcuBlockOrder.bind
      intro _
      have started : effects.Takes (do
          modify (startScan machine)
          pure true) Checked := by
        refine takes_change ?_ checked_pure
        intro s
        unfold startScan noPrediction
        dsimp only
        split <;> split <;> constructor <;> rfl
      apply (checked_and checked_checkTables started).imp
      intro ok later
      exact headerNotes_of_checked balanced last (other (Eq.refl true))

/-- `TRUE` is returned without a note. -/
def Strict (ok : Bool) (notes : List Note) : Prop :=
  ok = true → notes = []

theorem strict_pure {ok : Bool} : effects.Takes (pure ok : Program State Bool) Strict :=
  Effects.takes_pure fun _ => rfl

theorem strict_of_checked {m : Program State Bool} (checked : effects.Takes m Checked) :
    effects.Takes m Strict := by
  apply checked.imp
  rintro ok notes (⟨-, none⟩ | ⟨failed, -⟩)
  · exact fun _ => none
  · exact fun done => absurd (done.symm.trans failed) (by simp)

theorem strict_fail {status : JpegError} : effects.Takes (fail machine status) Strict :=
  strict_of_checked checked_fail

theorem silent_seekFF {count : Nat} : effects.Silent (seekFF machine count) := by
  induction count with
  | zero => exact Effects.silent_pure
  | succ count inductionHypothesis =>
      apply silent_getChar.bind
      intro c
      split
      · exact Effects.silent_pure
      · exact inductionHypothesis

theorem silent_passFF {count : Nat} : effects.Silent (passFF machine count) := by
  induction count with
  | zero => exact Effects.silent_pure
  | succ count inductionHypothesis =>
      apply silent_getChar.bind
      intro c
      split
      · exact Effects.silent_pure
      · exact inductionHypothesis

theorem strict_restartIfDue : effects.Takes (restartIfDue machine) Strict := by
  apply Effects.silent_get.bind
  intro s
  split
  · apply silent_seekFF.bind
    intro i
    apply silent_passFF.bind
    intro found
    cases found with
    | none => exact strict_fail
    | some c =>
        apply Effects.silent_get.bind
        intro s
        split
        · exact strict_fail
        · refine takes_change ?_ strict_pure
          intro s
          unfold restart noPrediction
          exact ⟨rfl, rfl, rfl⟩
  · exact strict_pure

theorem silent_getBits {numbits : Nat} : effects.Silent (getBits machine numbits) :=
  silent_reading

theorem silent_huffSymbol {index : Nat} : effects.Silent (huffSymbol machine index) := by
  apply silent_of_same
  intro s a t ran
  obtain ⟨⟨symbol, r⟩, -, took⟩ := Option.map_eq_some_iff.mp ran
  obtain ⟨-, rfl⟩ := Prod.mk.inj took
  exact ⟨rfl, rfl, rfl⟩

theorem silent_getExtended {s : Nat} : effects.Silent (getExtended machine s) := by
  unfold getExtended
  split
  · apply silent_getBits.bind
    intro _
    exact Effects.silent_pure
  · exact Effects.silent_pure

theorem silent_loadCoef {p : Address} {k : Nat} : effects.Silent (loadCoef p k) := by
  apply Effects.silent_get.bind
  intro _
  exact Effects.silent_pure

theorem silent_startEobRun {r : Nat} : effects.Silent (startEobRun machine r) := by
  have silent : effects.Silent (getRunBits machine r) := by
    unfold getRunBits
    split
    · exact silent_getBits
    · exact Effects.silent_pure
  apply silent.bind
  intro _
  exact silent_change fun _ => ⟨rfl, rfl, rfl⟩

theorem silent_takeEobRun : effects.Silent takeEobRun :=
  silent_change fun _ => ⟨rfl, rfl, rfl⟩

/-- A function of a block goes on with a block that it has found. -/
theorem strict_getp {cb : Address} {blockX blockY : Nat} {rest : Address → Program State Bool}
    (later : ∀ p, effects.Takes (rest p) Strict) :
    effects.Takes (do
      let p ← coeffBufGetp machine cb blockX blockY
      if p = 0 then
        pure false
      else
        rest p) Strict := by
  apply takes_coeffBufGetp.bind
  intro p notes finds
  split
  · apply Effects.takes_pure
    exact fun done => absurd done Bool.false_ne_true
  · rename_i nonzero
    rw [finds nonzero]
    exact later p

theorem strict_decodeBlockDcFirst {componentId blockX blockY : Nat} :
    effects.Takes (decodeBlockDcFirst machine componentId blockX blockY) Strict := by
  apply Effects.silent_get.bind
  intro _
  apply strict_getp
  intro p
  apply Effects.silent_get.bind
  intro _
  apply silent_huffSymbol.bind
  intro _
  apply silent_getExtended.bind
  intro _
  apply Effects.silent_get.bind
  intro _
  refine takes_change (fun _ => ⟨rfl, rfl, rfl⟩) ?_
  apply silent_setMemory.bind
  intro _
  exact strict_pure

theorem strict_decodeBlockDcRefine {componentId blockX blockY : Nat} :
    effects.Takes (decodeBlockDcRefine machine componentId blockX blockY) Strict := by
  apply silent_getBits.bind
  intro _
  split
  · apply Effects.silent_get.bind
    intro _
    apply strict_getp
    intro p
    apply silent_loadCoef.bind
    intro _
    apply Effects.silent_get.bind
    intro _
    apply silent_setMemory.bind
    intro _
    exact strict_pure
  · exact strict_pure

theorem strict_acFirst {componentId turns k : Nat} {p : Address} :
    effects.Takes (acFirst machine componentId p turns k) Strict := by
  induction turns generalizing k with
  | zero => exact strict_pure
  | succ turns inductionHypothesis =>
      apply Effects.silent_get.bind
      intro _
      split
      · exact strict_pure
      apply Effects.silent_get.bind
      intro _
      apply silent_huffSymbol.bind
      intro symbol
      dsimp only
      split
      · split
        · exact strict_fail
        apply silent_getExtended.bind
        intro _
        apply Effects.silent_get.bind
        intro _
        apply silent_setMemory.bind
        intro _
        exact inductionHypothesis
      split
      · split
        · exact strict_fail
        · exact inductionHypothesis
      · apply silent_startEobRun.bind
        intro _
        apply silent_takeEobRun.bind
        intro _
        exact strict_pure

theorem strict_decodeBlockAcFirst {componentId blockX blockY : Nat} :
    effects.Takes (decodeBlockAcFirst machine componentId blockX blockY) Strict := by
  apply Effects.silent_get.bind
  intro _
  split
  · apply silent_takeEobRun.bind
    intro _
    exact strict_pure
  · apply Effects.silent_get.bind
    intro _
    apply strict_getp
    intro p
    apply Effects.silent_get.bind
    intro _
    exact strict_acFirst

theorem silent_refineCoef {p : Address} {k : Nat} {value : U16} :
    effects.Silent (refineCoef machine p k value) := by
  unfold refineCoef
  apply silent_getBits.bind
  intro _
  apply Effects.silent_get.bind
  intro _
  dsimp only
  split
  · exact silent_setMemory
  · exact Effects.silent_pure

theorem silent_refineRun {p : Address} {turns r k : Nat} :
    effects.Silent (refineRun machine p turns r k) := by
  induction turns generalizing r k with
  | zero => exact Effects.silent_pure
  | succ turns inductionHypothesis =>
      unfold refineRun
      apply silent_loadCoef.bind
      intro _
      split
      · apply silent_refineCoef.bind
        intro _
        apply Effects.silent_get.bind
        intro _
        split
        · exact inductionHypothesis
        · exact Effects.silent_pure
      split
      · exact Effects.silent_pure
      · apply Effects.silent_get.bind
        intro _
        split
        · exact inductionHypothesis
        · exact Effects.silent_pure

theorem silent_newCoef {s : Nat} : effects.Silent (newCoef machine s) := by
  unfold newCoef
  split
  · apply silent_getBits.bind
    intro _
    apply Effects.silent_get.bind
    intro _
    exact Effects.silent_pure
  · exact Effects.silent_pure

theorem silent_storeNewCoef {p : Address} {k : Nat} {value : Option U32} :
    effects.Silent (storeNewCoef p k value) := by
  unfold storeNewCoef
  split
  · split
    · exact silent_setMemory
    · exact Effects.silent_pure
  · exact Effects.silent_pure

theorem takes_acRefine {componentId turns k : Nat} {p : Address} :
    effects.Takes (acRefine machine componentId p turns k) fun k notes =>
      k.isSome → notes = [] := by
  induction turns generalizing k with
  | zero => exact Effects.takes_pure fun _ => rfl
  | succ turns inductionHypothesis =>
      unfold acRefine
      apply Effects.silent_get.bind
      intro _
      split
      · exact Effects.takes_pure fun _ => rfl
      apply Effects.silent_get.bind
      intro _
      apply silent_huffSymbol.bind
      intro symbol
      dsimp only
      split
      · apply takes_terminate.bind
        intro _ _ _
        apply Effects.takes_pure
        simp
      split
      · apply silent_startEobRun.bind
        intro _
        exact Effects.takes_pure fun _ => rfl
      · apply silent_newCoef.bind
        intro _
        apply silent_refineRun.bind
        intro _
        apply silent_storeNewCoef.bind
        intro _
        exact inductionHypothesis

theorem silent_refineRest {p : Address} {turns k : Nat} :
    effects.Silent (refineRest machine p turns k) := by
  induction turns generalizing k with
  | zero => exact Effects.silent_pure
  | succ turns inductionHypothesis =>
      unfold refineRest
      apply Effects.silent_get.bind
      intro _
      split
      · exact Effects.silent_pure
      apply silent_loadCoef.bind
      intro _
      split
      · apply silent_refineCoef.bind
        intro _
        exact inductionHypothesis
      · exact inductionHypothesis

theorem strict_refineInRun {p : Address} {k : Nat} :
    effects.Takes (refineInRun machine p k) Strict := by
  apply Effects.silent_get.bind
  intro _
  split
  · apply silent_refineRest.bind
    intro _
    apply silent_takeEobRun.bind
    intro _
    exact strict_pure
  · exact strict_pure

theorem strict_decodeBlockAcRefine {componentId blockX blockY : Nat} :
    effects.Takes (decodeBlockAcRefine machine componentId blockX blockY) Strict := by
  apply Effects.silent_get.bind
  intro _
  apply strict_getp
  intro p
  apply Effects.silent_get.bind
  intro _
  apply Effects.silent_get.bind
  intro _
  split
  · apply takes_acRefine.bind
    intro k notes none
    cases k with
    | none =>
        apply Effects.takes_pure
        exact fun done => absurd done Bool.false_ne_true
    | some k =>
        rw [none (Eq.refl true)]
        exact strict_refineInRun
  · exact strict_refineInRun

end Specs

section Scans

variable {machine : Machine} {f : Frame} {compsInScan : Nat} {restart : Program State Bool}
  {count : Program State Unit} {decodeBlock : Nat → Nat → Nat → Program State Bool}

theorem takes_scanMcu (blocks : ∀ c x y, effects.Takes (decodeBlock c x y) Strict)
    {blockYMcu : Nat → Nat} {mcuOrg : List Nat} {cursor : Cursor} :
    effects.Takes (scanMcu f compsInScan decodeBlock blockYMcu mcuOrg cursor)
      fun cursor notes => cursor.isSome → notes = [] := by
  induction mcuOrg generalizing cursor with
  | nil => exact Effects.takes_pure fun _ => rfl
  | cons c mcuOrg inductionHypothesis =>
      apply (blocks c _ _).bind
      intro ok notes strict
      split
      · rename_i done
        rw [strict done]
        exact inductionHypothesis
      · apply Effects.takes_pure
        simp

variable (restarts : effects.Takes restart Strict) (counts : effects.Silent count)
  (blocks : ∀ c x y, effects.Takes (decodeBlock c x y) Strict)

include restarts counts blocks

theorem strict_scanRow {mcuOrg : List Nat} {blockYMcu blockXMcu : Nat → Nat} {mcus : Nat} :
    effects.Takes (scanRow f compsInScan restart count decodeBlock mcuOrg blockYMcu mcus
      blockXMcu) Strict := by
  induction mcus generalizing blockXMcu with
  | zero => exact strict_pure
  | succ mcus inductionHypothesis =>
      apply restarts.bind
      intro ok notes strict
      split
      · rename_i done
        rw [strict done]
        apply (takes_scanMcu blocks).bind
        intro cursor notes none
        cases cursor with
        | none =>
            apply Effects.takes_pure
            exact fun done => absurd done Bool.false_ne_true
        | some cursor =>
            rw [none (Eq.refl true)]
            apply counts.bind
            intro _
            exact inductionHypothesis
      · apply Effects.takes_pure
        exact fun done => absurd done Bool.false_ne_true

theorem strict_scanRows {order : McuOrder} {compList : List Nat} {rows : Nat}
    {blockYMcu : Nat → Nat} :
    effects.Takes (scanRows f compsInScan restart count decodeBlock order compList rows
      blockYMcu) Strict := by
  induction rows generalizing blockYMcu with
  | zero => exact strict_pure
  | succ rows inductionHypothesis =>
      apply (strict_scanRow restarts counts blocks).bind
      intro ok notes strict
      split
      · rename_i done
        rw [strict done]
        exact inductionHypothesis
      · apply Effects.takes_pure
        exact fun done => absurd done Bool.false_ne_true

end Scans

end Gp2Firmware.Jpeg.Decoder
