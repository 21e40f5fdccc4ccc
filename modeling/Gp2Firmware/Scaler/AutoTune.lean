import Gp2Firmware.Scaler.PcMode

/-!
# Auto-tuning the ADC

`MDrv_Auto_Geometry` of `mdrv_auto.c` with the searches for the horizontal total, the
phase and the position.  Whatever the driver reads is a stream of readings.
-/

namespace Gp2Firmware.Scaler

abbrev U32 := BitVec 32

/-- What the driver reads: the sync registers, the registers of the detected position, the
sum of differences at a phase, and the mode table. -/
structure Signal where
  sync : Nat → Readings
  position : Nat → U8 → U16
  phaseVal : Nat → U8 → U32
  entry : U8 → ModeEntry
  behind : U8 → U16 × U16

namespace Signal

/-- `MDrv_SC_PCMode_GetStdModeResH` -/
def stdModeResH (sig : Signal) (u8ModeIndex : U8) : U16 :=
  (displaySize sig.behind (sig.entry u8ModeIndex).u8ResIdx).1

/-- `MDrv_SC_PCMode_GetStdModeHTotal` -/
def stdModeHTotal (sig : Signal) (u8ModeIndex : U8) : U16 :=
  (sig.entry u8ModeIndex).u16HTotal

end Signal

/-- The source, the registers of the ADC and of the capture window, and how many readings
were taken. -/
structure AutoTune where
  src : SourceInfo
  s16PcHPos : U16
  s16PcVPos : U16
  adcClk : U16
  adcPhase : U8
  sampleHStart : U16
  sampleVStart : U16
  syncReads : Nat
  positionReads : Nat
  phaseReads : Nat

namespace AutoTune

def minSrcWidthDelta : U16 := 4
def maxSrcWidthDelta : U16 := 2
def phaseMax : U8 := 0x7F
def autoPhaseStep : U8 := 4

/-- `MDrv_Calculate_ABS` -/
def calculateAbs (num1 num2 : U16) : U16 := if num1 ≥ num2 then num1 - num2 else num2 - num1

/-- What `MDrv_Auto_CheckSyncLoss` makes of its readings. -/
def syncLost (src : SourceInfo) (r : Readings) : Bool :=
  getInputSyncStatus r &&& syncLoss ≠ 0 ∨
    calculateAbs r.u16HPeriod src.u16InputHPeriod > 10 ∨
      calculateAbs r.u16VTotal src.u16InputVTotal > 10

/-- `MDrv_Auto_CheckSyncLoss` -/
def checkSyncLoss (sig : Signal) (s : AutoTune) : Bool × AutoTune :=
  (syncLost s.src (sig.sync s.syncReads), { s with syncReads := s.syncReads + 1 })

/-- `MHal_ADC_SetADCClk`, with the total that the register stands for. -/
def setAdcClk (u16Value : U16) (s : AutoTune) : AutoTune :=
  if u16Value > 3 ∧ u16Value < 3500 then { s with adcClk := u16Value } else s

/-- `MHal_ADC_SetADCPhase` -/
def setAdcPhase (u8Value : U8) (s : AutoTune) : AutoTune :=
  { s with adcPhase := u8Value }

/-- `MHal_Auto_GetPhaseVal` -/
def getPhaseVal (sig : Signal) (s : AutoTune) : U32 × AutoTune :=
  (sig.phaseVal s.phaseReads s.adcPhase, { s with phaseReads := s.phaseReads + 1 })

/-- `MHal_Auto_GetAutoPosition` -/
def getAutoPosition (sig : Signal) (u8RegIndex : U8) (s : AutoTune) : U16 × AutoTune :=
  (sig.position s.positionReads u8RegIndex &&& 0x0FFF,
    { s with positionReads := s.positionReads + 1 })

def setHorizontalTotal (total : U16) (s : AutoTune) : AutoTune :=
  { s with src.modesetting.u16HorizontalTotal := total }

def setPhase (u8Phase : U8) (s : AutoTune) : AutoTune :=
  { s with src.modesetting.u8Phase := u8Phase }

/-! ### Positions -/

/-- The loop of `MDrv_Auto_GetPosition`, with `u8Dummy` turns left. -/
def positionLoop (sig : Signal) (u8RegIndex : U8) :
    (u8Dummy : Nat) → (u8Count : Nat) → (u16ComparePos u16AutoPos : U16) → AutoTune →
      U16 × AutoTune
  | 0, _, _, u16AutoPos, s => (u16AutoPos, s)
  | u8Dummy + 1, u8Count, u16ComparePos, _, s =>
      let (u16AutoPos, s) := getAutoPosition sig u8RegIndex s
      let u8Count := if u16AutoPos = u16ComparePos then u8Count + 1 else 0
      if u8Count = 3 then (u16AutoPos, s)
      else
        let (lost, s) := checkSyncLoss sig s
        if lost then (-1, s)
        else positionLoop sig u8RegIndex u8Dummy u8Count u16AutoPos u16AutoPos s

/-- `MDrv_Auto_GetPosition` -/
def getPosition (sig : Signal) (u8RegIndex : U8) (s : AutoTune) : U16 × AutoTune :=
  positionLoop sig u8RegIndex 20 0 0 0 s

/-- The two positions of `MDrv_Auto_GetActualWidth`. -/
def actualEdges (sig : Signal) (s : AutoTune) : (U16 × U16) × AutoTune :=
  let (u16HStart, s) := getPosition sig 0x13 (setAdcPhase 0x00 s)
  let (u16HEnd, s) := getPosition sig 0x15 s
  ((u16HStart, u16HEnd), s)

def widthOf (edges : U16 × U16) : U16 := edges.2 - edges.1 + 1

/-- `MDrv_Auto_GetActualWidth` -/
def getActualWidth (sig : Signal) (s : AutoTune) : U16 × AutoTune :=
  let (edges, s) := actualEdges sig s
  (widthOf edges, s)

/-! ### The horizontal total -/

def stdWidth (sig : Signal) (s : AutoTune) : U16 :=
  sig.stdModeResH s.src.modesetting.u8ModeIndex

def stdHTotal (sig : Signal) (s : AutoTune) : U16 :=
  sig.stdModeHTotal s.src.modesetting.u8ModeIndex

/-- The new total for a width that is measured. -/
def rescale (u16HorizontalTotal wStdModeWidth semWidth : U16) : U16 :=
  BitVec.ofNat 16 (u16HorizontalTotal.toNat * wStdModeWidth.toNat / semWidth.toNat) &&& 0xFFFE

/-- A width that is good enough. -/
def widthFits (wStdModeWidth semWidth : U16) : Bool :=
  wStdModeWidth.toNat ≤ semWidth.toNat + minSrcWidthDelta.toNat ∧
    semWidth.toNat ≤ wStdModeWidth.toNat + maxSrcWidthDelta.toNat

/-- `wTempSrcHTotal` for the positions that are measured; there is none where the code
divides by zero. -/
def newTotal (sig : Signal) (wTempSrcHTotal : U16) (edges : U16 × U16) (s : AutoTune) :
    Option U16 :=
  if widthOf edges ≠ stdWidth sig s then
    if widthOf edges = 0 then none
    else some (rescale s.src.modesetting.u16HorizontalTotal (stdWidth sig s) (widthOf edges))
  else some wTempSrcHTotal

/-- How a turn of the first loop of `MDrv_Auto_TuneHTotal` ends. -/
inductive PassEnd where
  | trap
  | lost (s : AutoTune)
  | fits (semWidth : U16) (s : AutoTune)
  | retry (wTempSrcHTotal : U16) (s : AutoTune)

def pass (sig : Signal) (wTempSrcHTotal : U16) (s : AutoTune) : PassEnd :=
  let (edges, s) := actualEdges sig s
  match newTotal sig wTempSrcHTotal edges s with
  | none => .trap
  | some total =>
      let (lost, s) := checkSyncLoss sig (setAdcClk total (setHorizontalTotal total s))
      if lost then .lost s
      else
        let (semWidth, s) := getActualWidth sig s
        if widthFits (stdWidth sig s) semWidth then .fits semWidth s else .retry total s

/-- The first loop, with `tryCount` turns left. -/
def passes (sig : Signal) : (tryCount : Nat) → (wTempSrcHTotal : U16) → AutoTune → PassEnd
  | 0, wTempSrcHTotal, s => .retry wTempSrcHTotal s
  | tryCount + 1, wTempSrcHTotal, s =>
      match pass sig wTempSrcHTotal s with
      | .retry wTempSrcHTotal s => passes sig tryCount wTempSrcHTotal s
      | done => done

/-- `maxDiffSum` and `bestClock` -/
structure BestClock where
  maxDiffSum : U32
  bestClock : U16

/-- The phases of the inner loop, from `PHASE_MIN` to `PHASE_MAX`. -/
def trialPhases : List U8 := (List.range 16).map fun j => BitVec.ofNat 8 (8 * j)

/-- The inner loop; the answer is false where the sync is lost. -/
def tryPhases (sig : Signal) (i : U16) : List U8 → BestClock → AutoTune →
    Bool × BestClock × AutoTune
  | [], best, s => (true, best, s)
  | j :: rest, best, s =>
      let (lost, s) := checkSyncLoss sig s
      if lost then (false, best, s)
      else
        let (curDiffSum, s) := getPhaseVal sig (setAdcPhase j s)
        tryPhases sig i rest (if curDiffSum > best.maxDiffSum then ⟨curDiffSum, i⟩ else best) s

/-- The loop over the clocks, from the `i`-th one on. -/
def tryClocks (sig : Signal) : (left : Nat) → (i wTempSrcHTotal : U16) → BestClock →
    AutoTune → Bool × BestClock × AutoTune
  | 0, _, _, best, s => (true, best, s)
  | left + 1, i, wTempSrcHTotal, best, s =>
      match tryPhases sig i trialPhases best (setAdcClk wTempSrcHTotal s) with
      | (false, best, s) => (false, best, s)
      | (true, best, s) => tryClocks sig left (i + 1) (wTempSrcHTotal + 1) best s

/-- The second half of `MDrv_Auto_TuneHTotal`. -/
def fineTune (sig : Signal) (s : AutoTune) : Bool × AutoTune :=
  let total := s.src.modesetting.u16HorizontalTotal
  match tryClocks sig 7 0 (total - minSrcWidthDelta) ⟨0, 0⟩ s with
  | (false, _, s) => (false, s)
  | (true, best, s) =>
      let total := total - minSrcWidthDelta + best.bestClock
      (true, setAdcClk total (setHorizontalTotal total s))

/-- `MDrv_Auto_TuneHTotal`; there is no result where the code divides by zero. -/
def tuneHTotal (sig : Signal) (s : AutoTune) : Option (Bool × AutoTune) :=
  let (lost, s) := checkSyncLoss sig s
  if lost then some (false, s)
  else
    match passes sig 3 s.src.modesetting.u16HorizontalTotal s with
    | .trap => none
    | .lost s => some (false, s)
    | .retry _ s =>
        some (false, setAdcClk (stdHTotal sig s) (setHorizontalTotal (stdHTotal sig s) s))
    | .fits semWidth s =>
        if s.src.modesetting.u16HorizontalTotal ≠ stdHTotal sig s ∨ semWidth ≠ stdWidth sig s then
          some (fineTune sig s)
        else some (true, s)

/-! ### The phase -/

/-- A loop of `MDrv_Auto_TunePhase` over the phases, with the best phase so far; the answer is
false where the sync is lost. -/
def phaseLoop (sig : Signal) : List U8 → (u8BestPhase : U8) → (u32MaxPhaseVal : U32) →
    AutoTune → Bool × U8 × AutoTune
  | [], u8BestPhase, _, s => (true, u8BestPhase, s)
  | u8Index :: rest, u8BestPhase, u32MaxPhaseVal, s =>
      let (u32AutoPhaseVal, s) := getPhaseVal sig (setAdcPhase u8Index s)
      let (u8BestPhase, u32MaxPhaseVal) :=
        if u32AutoPhaseVal > u32MaxPhaseVal then (u8Index, u32AutoPhaseVal)
        else (u8BestPhase, u32MaxPhaseVal)
      let (lost, s) := checkSyncLoss sig s
      if lost then (false, u8BestPhase, s)
      else phaseLoop sig rest u8BestPhase u32MaxPhaseVal s

/-- The phases of the first loop. -/
def coarsePhases : List U8 := (List.range 32).map fun i => BitVec.ofNat 8 (4 * i)

/-- The phases of the second loop, up to one that is left out. -/
def finePhases (stop : U8) : (fuel : Nat) → U8 → List U8
  | 0, _ => []
  | fuel + 1, u8Index =>
      if u8Index = stop then []
      else u8Index :: finePhases stop fuel ((u8Index + 1) &&& phaseMax)

/-- `MDrv_Auto_TunePhase` -/
def tunePhase (sig : Signal) (s : AutoTune) : Bool × AutoTune :=
  match phaseLoop sig coarsePhases 0x00 0 s with
  | (false, _, s) => (false, s)
  | (true, u8BestPhase, s) =>
      let first := (u8BestPhase - autoPhaseStep + 1) &&& phaseMax
      let stop := (u8BestPhase + autoPhaseStep) &&& phaseMax
      match phaseLoop sig (finePhases stop 128 first) first 0 s with
      | (false, _, s) => (false, s)
      | (true, u8BestPhase, s) => (true, setAdcPhase u8BestPhase (setPhase u8BestPhase s))

/-! ### The position -/

/-- `MDrv_Auto_TunePosition` -/
def tunePosition (sig : Signal) (s : AutoTune) : Bool × AutoTune :=
  let hStart := s.src.modesetting.u16HorizontalStart
  let (u16PosBff, s) := getPosition sig 0x13 s
  let badH := u16PosBff.toNat > hStart.toNat + hStart.toNat * 8 / 10 ∨
    u16PosBff.toNat < hStart.toNat - hStart.toNat * 8 / 10
  let u16PosBff := if badH then hStart else u16PosBff
  let s := { s with
    s16PcHPos := 0
    src.modesetting.u16HorizontalStart := u16PosBff
    sampleHStart := u16PosBff }
  let vStart := s.src.modesetting.u16VerticalStart
  let (u16PosBff, s) := getPosition sig 0x12 s
  let badV := (u16PosBff.toNat : Int) > vStart.toNat * 2 - 1 ∨ u16PosBff.toNat < 1
  let u16PosBff := if badV then vStart else u16PosBff
  let s := { s with
    s16PcVPos := 0
    src.modesetting.u16VerticalStart := u16PosBff
    sampleVStart := u16PosBff }
  (¬ badH ∧ ¬ badV, s)

/-! ### All steps -/

/-- Bits of `SC_AUTO_TUNE_TYPE_e`. -/
def tunesPosition : U8 := 0x02
def tunesFreq : U8 := 0x04
def tunesPhase : U8 := 0x08
def tunesGain : U8 := 0x20

/-- `MDrv_Auto_Geometry`, with the answer of `MDrv_ADC_CalGain`.  The calibration of the gains
touches neither the clock nor the phase. -/
def geometry (sig : Signal) (calGain : Bool) (autoTuneType : U8) (s : AutoTune) :
    Option (Bool × AutoTune) := do
  let (freq, s) ← if autoTuneType &&& tunesFreq ≠ 0 then tuneHTotal sig s else some (true, s)
  let (phase, s) := if autoTuneType &&& tunesPhase ≠ 0 then tunePhase sig s else (true, s)
  let (position, s) :=
    if autoTuneType &&& tunesPosition ≠ 0 then tunePosition sig s else (true, s)
  some (freq && phase && position && (autoTuneType &&& tunesGain = 0 || calGain), s)

/-! ### A mode -/

/-- 1024x768 at 60 Hz, with the clock and the phase of the mode. -/
def xga : AutoTune where
  src :=
    { srcType := .vga
      u8InputSyncStatus := 0
      u16InputHPeriod := 250
      u16InputVTotal := 806
      u16InputHFreq := 480
      u16InputVFreq := 600
      u8ModeIdx := 15
      bIsSupportMode := true
      modesetting := ⟨15, 0xfc, 0x15, 1344, 806, 0x39, 0, 0⟩
      timing := ⟨0, 0, 0, 0, 0, 0, 0, 0, 0, 0⟩ }
  s16PcHPos := 0
  s16PcVPos := 0
  adcClk := 1344
  adcPhase := 0x39
  sampleHStart := 0xfc
  sampleVStart := 0x15
  syncReads := 0
  positionReads := 0
  phaseReads := 0

/-- The sync readings of the mode, and those without a signal. -/
def xgaSync : Readings := ⟨250, 806, 250, 806, 0⟩

def noSync : Readings := ⟨0, 0, 0, 0, 0⟩

end AutoTune

end Gp2Firmware.Scaler
