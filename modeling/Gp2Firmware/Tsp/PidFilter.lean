import Mathlib.Logic.Function.Basic
import Gp2Firmware.Lib.Run
import Gp2Firmware.Tsp.Packet

/-!
# The PID filters of the TSP driver

`_MDrv_TSP_PidFlt_Alloc`, `_MDrv_TSP_PidFlt_Free` and
`MDrv_TSP_PidFlt_Enable` of `mdrv_tsp.c`, as built with `TSP_DEBUG` 0, over the
records of the one engine and the registers of its filters.
-/

namespace Gp2Firmware.Tsp

open Function

/-- `TSP_PIDFLT_NUM` -/
def pidFltNum : Nat := 32

/-- `TSP_PIDFLT_NUM_ALL`: the filters for recording come after the others. -/
def pidFltNumAll : Nat := pidFltNum + 8

/-- `RESERVED_PIDFLT_NUM` -/
def reservedPidFltNum : Nat := 6

/-- `_u8IdxStream` of the engine. -/
def idxStream (k : Nat) : Nat := pidFltNum - 1 - k

/-! ### `DrvTSP_FltType`, `DrvTSP_FltState` and the fields of `REG_PidFlt` -/

def fltTypeVideo : U32 := 0
def fltTypeAudio : U32 := 1
def fltTypeAudio2 : U32 := 2
def fltTypePvr : U32 := 3
def fltTypeSection : U32 := 4
def fltTypePcr : U32 := 5
def fltTypePes : U32 := 6
def fltTypePacket : U32 := 7
def fltTypeTeletext : U32 := 8
def fltSourceTypeMask : U32 := 0xC0000000
def fltSourceTypeLive : U32 := 0x80000000
def fltSourceTypeFile : U32 := 0x40000000
def fltTypeLastEnum : U32 := 0x40000001

def fltStateFree : U32 := 0
def fltStateAlloc : U32 := 1
def fltStateEnable : U32 := 2

def pidFltPidMask : U32 := 0x00001FFF
def pidFltSecFltMask : U32 := 0x001F0000
def pidFltOutMask : U32 := 0x01E02000
def pidFltOutNone : U32 := 0
def pidFltOutSecFltAf : U32 := 0x00002000
def pidFltOutSecFlt : U32 := 0x00200000
def pidFltOutVfifo : U32 := 0x00400000
def pidFltOutAfifo : U32 := 0x00800000
def pidFltOutAfifo2 : U32 := 0x01000000
def pidFltInMask : U32 := 0x02000000
def pidFltInLive : U32 := 0
def pidFltInFile : U32 := 0x02000000

/-- `MHal_TSP_PidFlt_SetPid` -/
def setPid (reg pid : U32) : U32 :=
  (reg &&& ~~~pidFltPidMask) ||| (pid &&& pidFltPidMask)

/-- `MHal_TSP_PidFlt_SelSecFlt` -/
def selSecFlt (reg secFltId : U32) : U32 :=
  (reg &&& ~~~pidFltSecFltMask) ||| ((secFltId <<< 16) &&& pidFltSecFltMask)

/-- `MHal_TSP_PidFlt_GetSecFlt` -/
def getSecFlt (reg : U32) : U32 := (reg &&& pidFltSecFltMask) >>> 16

/-- `MHal_TSP_PidFlt_SelFltOutput` -/
def selFltOutput (reg fltOutput : U32) : U32 :=
  (reg &&& ~~~pidFltOutMask) ||| (fltOutput &&& pidFltOutMask)

/-- `MHal_TSP_PidFlt_GetFltOutput` -/
def getFltOutput (reg : U32) : U32 := reg &&& pidFltOutMask

/-- `MHal_TSP_PidFlt_SelFltSource` -/
def selFltSource (reg fltSource : U32) : U32 :=
  (reg &&& ~~~pidFltInMask) ||| (fltSource &&& pidFltInMask)

/-- `_MDrv_TSP_PidFlt_Init`: no output, `DRVTSP_PID_NULL` and
`TSP_PIDFLT_SECFLT_NULL`. -/
def pidFltInit (reg : U32) : U32 :=
  selSecFlt (setPid (selFltOutput reg pidFltOutNone) 0x1FFF) 0x1F

/-! ### The driver -/

/-- What the driver records of the filters in `_TspState` and `_TspEnable`, the
registers of the PID filters, those of the section filters that
`MDrv_TSP_PidFlt_Enable` resets, and the commands sent to the firmware. -/
structure DrvTsp where
  fltState : Nat → U32
  fltType : Nat → U32
  fltSource : Nat → U32
  tspEnable : U32
  pidFlt : Nat → U32
  secCtrl : Nat → U32
  secRmnReqCnt : Nat → U32
  fwCmds : List (BitVec 8 × U32 × U32 × U32)

/-- The filters after `MDrv_TSP_Init`: all free. -/
def DrvTsp.init (s : DrvTsp) : DrvTsp :=
  { s with
    fltState := fun _ => fltStateFree
    fltType := fun _ => fltTypeSection
    tspEnable := 0
    pidFlt := fun i => pidFltInit (s.pidFlt i) }

/-- One of the first four branches: the index that `_u8IdxStream` has for a
stream, unless it is allocated. -/
def reservedIndex (s : DrvTsp) (k : Nat) : Option Nat :=
  if s.fltState (idxStream k) &&& fltStateAlloc ≠ 0 then none
  else some (idxStream k)

/-- The downward search for a PES filter from an index on: where it ends, or
none where it returns `FALSE`. -/
def pesSearch (s : DrvTsp) : Nat → Option Nat
  | 0 =>
      if pidFltNum - 1 - reservedPidFltNum < 0 then
        if s.fltState 0 = fltStateFree then some 0 else none
      else some 0
  | i + 1 =>
      if pidFltNum - 1 - reservedPidFltNum < i + 1 then
        if s.fltState (i + 1) = fltStateFree then some (i + 1)
        else pesSearch s i
      else some (i + 1)

/-- The upward search of the other types from `pid_idx` on. -/
def firstFree (s : DrvTsp) (pidIdx : Nat) : Option Nat :=
  (List.range' pidIdx (pidFltNumAll - pidIdx)).find?
    fun i => s.fltState i = fltStateFree

/-- The index that `_MDrv_TSP_PidFlt_Alloc` chooses for a type without its
source, or none where it returns `FALSE`. -/
def pidFltIndex (s : DrvTsp) (fltType : U32) : Option Nat :=
  if fltType = fltTypeVideo then reservedIndex s 0
  else if fltType = fltTypeAudio then reservedIndex s 1
  else if fltType = fltTypeAudio2 then reservedIndex s 2
  else if fltType = fltTypePcr then reservedIndex s 3
  else if fltType = fltTypePes then pesSearch s (pidFltNum - 5)
  else firstFree s (if fltType = fltTypePvr then pidFltNum else 0)

/-- The type in `eFilterType`. -/
def typeOf (filterType : U32) : U32 := filterType &&& ~~~fltSourceTypeMask

/-- The source in `eFilterType`. -/
def sourceOf (filterType : U32) : U32 := filterType &&& fltSourceTypeMask

/-- The records of a filter that is handed out. -/
def DrvTsp.allocated (s : DrvTsp) (filterType : U32) (i : Nat) : DrvTsp :=
  { s with
    fltState := update s.fltState i fltStateAlloc
    fltType := update s.fltType i (typeOf filterType)
    fltSource :=
      if sourceOf filterType = fltSourceTypeLive then
        update s.fltSource i fltSourceTypeLive
      else if sourceOf filterType = fltSourceTypeFile then
        update s.fltSource i fltSourceTypeFile
      else s.fltSource
    pidFlt := update s.pidFlt i (pidFltInit (s.pidFlt i)) }

/-- `_MDrv_TSP_PidFlt_Alloc`: the filter, where it returns `TRUE`. -/
def pidFltAlloc (s : DrvTsp) (engId filterType : U32) : Option Nat × DrvTsp :=
  if 1 ≤ engId ∨ fltTypeLastEnum ≤ typeOf filterType then (none, s)
  else
    match pidFltIndex s (typeOf filterType) with
    | none => (none, s)
    | some i => (some i, s.allocated filterType i)

/-- `0x1 << u32PidFltId` as the target shifts. -/
def enableBit (pidFltId : Nat) : U32 := 1 <<< (pidFltId % 32)

/-- `_MDrv_TSP_PidFlt_Disable` -/
def pidFltDisable (s : DrvTsp) (pidFltId : Nat) : DrvTsp :=
  { s with
    pidFlt := update s.pidFlt pidFltId
      (selFltSource (selFltOutput (s.pidFlt pidFltId) pidFltOutNone) pidFltInLive)
    fltState := update s.fltState pidFltId
      (s.fltState pidFltId &&& ~~~fltStateEnable)
    tspEnable := s.tspEnable &&& ~~~enableBit pidFltId }

/-- The records of a filter that is given back. -/
def DrvTsp.released (s : DrvTsp) (pidFltId : Nat) : DrvTsp :=
  { s with
    pidFlt := update s.pidFlt pidFltId
      (selSecFlt (pidFltInit (s.pidFlt pidFltId)) 0x1F)
    fltState := update s.fltState pidFltId fltStateFree }

/-- `_MDrv_TSP_PidFlt_Free` -/
def pidFltFree (s : DrvTsp) (engId : U32) (pidFltId : Nat) : Bool × DrvTsp :=
  if 1 ≤ engId ∨ pidFltNumAll ≤ pidFltId ∨ s.fltState pidFltId = fltStateFree then
    (false, s)
  else (true, (pidFltDisable s pidFltId).released pidFltId)

/-- `_MDrv_TSP_SecFlt_Type_ID` -/
def secFltTypeId (drvType : U32) : U32 :=
  if drvType = fltTypeSection then 1
  else if drvType = fltTypePes then 2
  else if drvType = fltTypePacket then 3
  else if drvType = fltTypeTeletext then 5
  else if drvType = fltTypePcr then 4
  else 0

/-- `MHal_TSP_PidFlt_SelFltOutput` on a filter of the driver. -/
def DrvTsp.selOutput (s : DrvTsp) (pidFltId : Nat) (fltOutput : U32) : DrvTsp :=
  { s with
    pidFlt := update s.pidFlt pidFltId
      (selFltOutput (s.pidFlt pidFltId) fltOutput) }

/-- `TSP_CMD_RESET_FLT` for a section filter. -/
def DrvTsp.resetFlt (s : DrvTsp) (secFltId typeId : U32) : DrvTsp :=
  { s with fwCmds := s.fwCmds ++ [(0xC0, 0, secFltId, typeId)] }

/-- `MHal_TSP_SecFlt_SetRmnCount` with 0 and `MHal_TSP_SecFlt_ResetState`. -/
def DrvTsp.resetSec (s : DrvTsp) (secFltId : U32) : DrvTsp :=
  { s with
    secRmnReqCnt := update s.secRmnReqCnt secFltId.toNat
      (s.secRmnReqCnt secFltId.toNat &&& ~~~0x0000FFFF)
    secCtrl := update s.secCtrl secFltId.toNat
      (s.secCtrl secFltId.toNat &&& ~~~0x0F000000) }

/-- `MHal_TSP_SecFlt_SetParam` with `TSP_SECFLT_PARAM_PCRRST`. -/
def DrvTsp.pcrReset (s : DrvTsp) (secFltId : U32) : DrvTsp :=
  { s with
    secCtrl := update s.secCtrl secFltId.toNat
      ((s.secCtrl secFltId.toNat &&& ~~~0xF0000000) ||| 0x10000000) }

/-- `MDrv_TSP_PidFlt_Enable`, the output that belongs to the type. -/
def DrvTsp.routed (s : DrvTsp) (pidFltId : Nat) : DrvTsp :=
  let fltType := s.fltType pidFltId
  let secFltId := getSecFlt (s.pidFlt pidFltId)
  if fltType = fltTypePvr then s
  else if fltType = fltTypeVideo then s.selOutput pidFltId pidFltOutVfifo
  else if fltType = fltTypeAudio then s.selOutput pidFltId pidFltOutAfifo
  else if fltType = fltTypeAudio2 then s.selOutput pidFltId pidFltOutAfifo2
  else if fltType = fltTypeSection ∨ fltType = fltTypePes ∨
      fltType = fltTypePacket ∨ fltType = fltTypeTeletext then
    ((s.resetSec secFltId).resetFlt secFltId (secFltTypeId fltType)).selOutput
      pidFltId pidFltOutSecFlt
  else if fltType = fltTypePcr then
    ((s.pcrReset secFltId).resetFlt secFltId (secFltTypeId fltTypePcr)).selOutput
      pidFltId (pidFltOutSecFlt ||| pidFltOutSecFltAf)
  else s

/-- `MDrv_TSP_PidFlt_Enable`, the source of the filter. -/
def DrvTsp.sourced (s : DrvTsp) (pidFltId : Nat) : DrvTsp :=
  { s with
    pidFlt :=
      if s.fltSource pidFltId = fltSourceTypeLive then
        update s.pidFlt pidFltId (selFltSource (s.pidFlt pidFltId) pidFltInLive)
      else if s.fltSource pidFltId = fltSourceTypeFile then
        update s.pidFlt pidFltId (selFltSource (s.pidFlt pidFltId) pidFltInFile)
      else s.pidFlt }

/-- `MDrv_TSP_PidFlt_Enable`, the two records of an enabled filter. -/
def DrvTsp.enabled (s : DrvTsp) (pidFltId : Nat) : DrvTsp :=
  { s with
    fltState := update s.fltState pidFltId
      (s.fltState pidFltId ||| fltStateEnable)
    tspEnable := s.tspEnable ||| enableBit pidFltId }

/-- `MDrv_TSP_PidFlt_Enable` -/
def pidFltEnable (s : DrvTsp) (pidFltId : Nat) (enable : Bool) : DrvTsp :=
  if enable = false then
    if s.tspEnable &&& enableBit pidFltId = 0 then s
    else pidFltDisable s pidFltId
  else if s.tspEnable &&& enableBit pidFltId ≠ 0 then s
  else ((s.routed pidFltId).sourced pidFltId).enabled pidFltId

/-! ### What a chosen index is -/

variable {s : DrvTsp} {fltType filterType : U32} {i : Nat}

/-- The types for which `_u8IdxStream` reserves a filter, with its position. -/
def streamPosition (fltType : U32) : Option Nat :=
  if fltType = fltTypeVideo then some 0
  else if fltType = fltTypeAudio then some 1
  else if fltType = fltTypeAudio2 then some 2
  else if fltType = fltTypePcr then some 3
  else none

theorem streamPosition_lt {k : Nat} (stream : streamPosition fltType = some k) :
    k < 4 := by
  unfold streamPosition at stream
  split_ifs at stream <;> cases stream <;> decide

/-- Of two streams at one position, the types are the same. -/
theorem streamPosition_injective {other : U32} {k : Nat}
    (stream : streamPosition fltType = some k)
    (same : streamPosition other = some k) : fltType = other := by
  unfold streamPosition at stream same
  split_ifs at stream <;> cases stream <;> split_ifs at same <;> simp_all

theorem pidFltIndex_stream {k : Nat} (stream : streamPosition fltType = some k) :
    pidFltIndex s fltType = reservedIndex s k := by
  unfold streamPosition at stream
  unfold pidFltIndex
  split_ifs at stream ⊢ <;> cases stream <;> rfl

theorem pidFltIndex_pes : pidFltIndex s fltTypePes = pesSearch s 27 := rfl

theorem pidFltIndex_other (other : streamPosition fltType = none)
    (notPes : fltType ≠ fltTypePes) :
    pidFltIndex s fltType =
      firstFree s (if fltType = fltTypePvr then pidFltNum else 0) := by
  unfold streamPosition at other
  unfold pidFltIndex
  split_ifs at other ⊢ <;> rfl

theorem pesSearch_above (above : 25 < i + 1) :
    pesSearch s (i + 1) =
      if s.fltState (i + 1) = fltStateFree then some (i + 1) else pesSearch s i :=
  if_pos above

theorem pesSearch_end : pesSearch s 25 = some 25 :=
  if_neg (Nat.lt_irrefl 25)

/-- The search never fails: where neither filter is free it ends one below. -/
theorem pesSearch_eq :
    pesSearch s 27 = some
      (if s.fltState 27 = fltStateFree then 27
      else if s.fltState 26 = fltStateFree then 26 else 25) := by
  rw [pesSearch_above (by decide), pesSearch_above (by decide), pesSearch_end]
  split_ifs <;> rfl

theorem firstFree_some {pidIdx : Nat} (found : firstFree s pidIdx = some i) :
    pidIdx ≤ i ∧ i < pidFltNumAll ∧ s.fltState i = fltStateFree ∧
      ∀ j, pidIdx ≤ j → j < i → s.fltState j ≠ fltStateFree := by
  rw [firstFree, List.find?_range'_eq_some] at found
  obtain ⟨free, inside, first⟩ := found
  have bounds := List.mem_range'_1.mp inside
  refine ⟨bounds.1, by omega, by simpa using free, ?_⟩
  intro j low before
  simpa using first j low before

theorem firstFree_none {pidIdx : Nat} (none : firstFree s pidIdx = none) :
    ∀ j, pidIdx ≤ j → j < pidFltNumAll → s.fltState j ≠ fltStateFree := by
  intro j low high
  rw [firstFree, List.find?_range'_eq_none] at none
  simpa using none j low (by omega)

end Gp2Firmware.Tsp
