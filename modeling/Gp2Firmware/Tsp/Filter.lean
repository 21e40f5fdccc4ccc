import Mathlib.Tactic.IntervalCases
import Gp2Firmware.Tsp.DeferredInterrupts
import Gp2Firmware.Tsp.PatternMatch

/-!
# A filter of the TSP firmware and its records

The registers and variables of one filter, the DMA into its buffer, and
`RevertFlt`, `FinishFlt`, which end a record.  The DMA appends bytes of the
packet; what it has appended since the last record is kept as a list of chunks,
and the word in front of a record is kept by itself.
-/

namespace Gp2Firmware.Tsp

/-- `U8` -/
abbrev U8 := BitVec 8

/-- One DMA, with its number: bytes of a packet, at the start of a section or PES
packet or in its continuation. -/
structure Chunk where
  number : Nat
  start : Bool
  packet : Packet
  offset : Nat
  size : Nat

/-- Some bytes of a packet. -/
def bytesAt (packet : Packet) (offset size : Nat) : List U8 :=
  (List.range size).map fun i => packet (offset + i)

theorem length_bytesAt (packet : Packet) (offset size : Nat) :
    (bytesAt packet offset size).length = size := by
  rw [bytesAt, List.length_map, List.length_range]

theorem getElem?_bytesAt {packet : Packet} {offset size i : Nat} (inside : i < size) :
    (bytesAt packet offset size)[i]? = some (packet (offset + i)) := by
  rw [bytesAt, List.getElem?_map, List.getElem?_range inside]
  rfl

/-- The bytes of a chunk. -/
def Chunk.bytes (c : Chunk) : List U8 := bytesAt c.packet c.offset c.size

/-- The word in front of a record, and what the DMA put behind it. -/
structure Record where
  size : U32
  chunks : List Chunk

/-- The bytes of a record. -/
def Record.bytes (r : Record) : List U8 := r.chunks.flatMap Chunk.bytes

/-- What the hardware reports at the end of a DMA: `TSP_PKT_STAT_DMA_OVFLOW`,
and `TSP_PKT_STAT_OVRUN` or `TSP_PKT_STAT_OVRUN2`. -/
structure DmaStatus where
  ovflow : Bool
  ovrun : Bool

/-- The hardware around the firmware: the outcome of every DMA by its number,
and the register `CRC32` after some bytes. -/
structure Hw where
  dma : Nat → DmaStatus
  crc : List U8 → U32

/-- `TSP_PKT_DMACTRL_CRC32` and `TSP_PKT_DMACTRL_CRCRST` -/
inductive DmaCrc where
  | off
  | on
  | restart
  deriving DecidableEq

/-- `REG_SecFlt` and the variables that the firmware keeps for the filter, with
its `shm_sec_info` counter and its bit of `shm_sec_overflow`.  The last six
fields record what the hardware and the host see. -/
structure Filter where
  ctrl : U32
  ptn : Pattern
  bufStart : Nat
  bufEnd : Nat
  bufRead : Nat
  bufWrite : Nat
  bufCur : Nat
  rmnReqCnt : U32
  bufPtr : Nat
  lenWord : U32
  dataSize : U32
  pktContiCnt : U32
  secByte : U32
  secLenData : U32
  notVerEnable : Bool
  notVersion : U8
  secOverflow : Bool
  wCount : BitVec 16
  record : List Chunk
  crcBytes : List U8
  dmaCount : Nat
  events : List SwintStatus
  calls : List Record
  delivered : List Record

/-- `TSP_SECFLT_RMNCNT_MASK` -/
def rmnCntMask : U32 := 0x0000FFFF

/-- `TSP_SECFLT_MODE_ONESHOT << TSP_SECFLT_MODE_SHFT` -/
def modeOneshot : U32 := 0x00000010

/-- `TSP_SECFLT_MODE_CRCCHK << TSP_SECFLT_MODE_SHFT` -/
def modeCrcChk : U32 := 0x00000020

/-- `TSP_SECFLT_STATE_OVERFLOW << TSP_SECFLT_STATE_SHFT` -/
def stateOverflow : U32 := 0x01000000

/-- `TSP_SECFLT_STATE_DISABLE << TSP_SECFLT_STATE_SHFT` -/
def stateDisable : U32 := 0x02000000

/-- `VPES_SIZE_MAX` -/
def vpesSizeMax : U32 := 0x0FFFFFFF

namespace Filter

/-- The remaining length in `RmnReqCnt`. -/
def rmn (f : Filter) : U32 := f.rmnReqCnt &&& rmnCntMask

/-- The remaining length is set; the request count stays. -/
def setRmn (f : Filter) (length : U32) : Filter :=
  { f with rmnReqCnt := (f.rmnReqCnt &&& ~~~rmnCntMask) ||| length }

/-- The record that is being put together. -/
def current (f : Filter) : Record := ⟨f.lenWord, f.record⟩

/-- `RevertFlt` -/
def revertFlt (f : Filter) : Filter :=
  { f with
    rmnReqCnt := f.rmnReqCnt &&& ~~~rmnCntMask
    bufCur := f.bufPtr + 4
    bufWrite := f.bufPtr + 4
    lenWord := 0
    dataSize := 0
    record := [] }

/-- `_UpdateWritePtr` -/
def updateWritePtr (f : Filter) : Filter := { f with bufWrite := f.bufCur }

/-- The new write pointer of `FinishFlt`. -/
def finishWrite (f : Filter) : Nat :=
  let next := f.bufPtr + 4 + f.lenWord.toNat
  if f.bufEnd ≤ next then next - (f.bufEnd - f.bufStart) else next

/-- The new header address of `FinishFlt`. -/
def finishPtr (f : Filter) : Nat :=
  let ptr := (f.finishWrite + 3) / 4 * 4
  if f.bufEnd ≤ ptr then f.bufStart else ptr

/-- The record is handed to the host. -/
def deliver (f : Filter) : Filter :=
  { f with
    bufWrite := f.finishWrite
    bufPtr := f.finishPtr
    bufCur := if f.bufEnd ≤ f.finishPtr + 4 then f.bufStart else f.finishPtr + 4
    lenWord := 0
    dataSize := 0
    wCount := f.wCount + 1
    events := f.events ++ [.secRdy]
    record := []
    delivered := f.delivered ++ [f.current] }

/-- `FinishFlt` -/
def finishFlt (f : Filter) : Filter :=
  let called := { f with calls := f.calls ++ [f.current] }
  if 0 < f.lenWord then
    if f.finishWrite < f.bufRead ∧ f.bufRead < f.finishWrite + 8 then
      revertFlt { called with bufWrite := f.finishWrite }
    else deliver called
  else revertFlt called

/-- `BufCur` after a DMA. -/
def advance (f : Filter) (size : Nat) : Nat :=
  if f.bufEnd ≤ f.bufCur + size then f.bufCur + size - (f.bufEnd - f.bufStart)
  else f.bufCur + size

/-- The DMA copies a chunk to `BufCur`.  `Pkt_DmaSize` has 16 bits. -/
def dmaCopy (f : Filter) (packet : Packet) (offset : Nat) (size : U32)
    (crc : DmaCrc) (start : Bool) : Filter :=
  let chunk : Chunk := ⟨f.dmaCount, start, packet, offset, size.toNat % 2 ^ 16⟩
  { f with
    bufCur := f.advance chunk.size
    record := f.record ++ [chunk]
    crcBytes :=
      match crc with
      | .off => f.crcBytes
      | .on => f.crcBytes ++ chunk.bytes
      | .restart => chunk.bytes
    dmaCount := f.dmaCount + 1 }

/-- What `_Dma_PostCheck` does about an overflow. -/
def overflowed (f : Filter) : Filter :=
  { f with
    ctrl := f.ctrl ||| stateOverflow
    rmnReqCnt := f.rmnReqCnt &&& ~~~rmnCntMask
    secOverflow := true
    events := f.events ++ [.bufOvflow] }

/-- `_Dma_PreCheck` and `_Dma_PostCheck` -/
def dmaPostCheck (hw : Hw) (f : Filter) (packet : Packet) (offset : Nat)
    (size : U32) (crc : DmaCrc) (start : Bool) : Bool × Filter :=
  let copied := f.dmaCopy packet offset size crc start
  if (hw.dma f.dmaCount).ovflow then (false, copied.overflowed)
  else if (hw.dma f.dmaCount).ovrun then (false, copied)
  else (true, copied)

/-- `MEM32(_u32BufPtr) += _u32DmaSize` and `RmnReqCnt -= _u32DmaSize` -/
def account (f : Filter) (size : U32) : Filter :=
  { f with lenWord := f.lenWord + size, rmnReqCnt := f.rmnReqCnt - size }

/-- `_Proc_PreCheck` -/
def procPreCheck (f : Filter) : Bool :=
  f.ctrl &&& stateDisable == 0 && f.ctrl &&& stateOverflow == 0

/-! ### The remaining length -/

/-- The request count in `RmnReqCnt`. -/
def reqCnt (f : Filter) : Nat := f.rmnReqCnt.toNat / 2 ^ 16

theorem toNat_rmn (f : Filter) : f.rmn.toNat = f.rmnReqCnt.toNat % 2 ^ 16 := by
  rw [rmn, BitVec.toNat_and]
  exact Nat.and_two_pow_sub_one_eq_mod f.rmnReqCnt.toNat 16

theorem rmn_lt (f : Filter) : f.rmn.toNat < 2 ^ 16 := by
  rw [toNat_rmn]
  exact Nat.mod_lt _ (by decide)

theorem toNat_clearRmn (word : U32) :
    (word &&& ~~~rmnCntMask).toNat = 2 ^ 16 * (word.toNat / 2 ^ 16) := by
  have shifted : word &&& ~~~rmnCntMask = (word >>> 16) <<< 16 := by
    apply BitVec.eq_of_getLsbD_eq
    intro bit inside
    rw [rmnCntMask]
    simp only [BitVec.getLsbD_and, BitVec.getLsbD_not, BitVec.getLsbD_shiftLeft,
      BitVec.getLsbD_ushiftRight]
    interval_cases bit <;> simp
  have small := word.isLt
  rw [shifted, BitVec.toNat_shiftLeft, BitVec.toNat_ushiftRight,
    Nat.shiftRight_eq_div_pow, Nat.shiftLeft_eq]
  omega

theorem clearRmn_and_mask (word : U32) :
    (word &&& ~~~rmnCntMask) &&& rmnCntMask = 0 := by
  rw [BitVec.and_assoc, BitVec.not_and_self]
  exact BitVec.and_zero

theorem toNat_setRmn {f : Filter} {length : U32} (small : length.toNat < 2 ^ 16) :
    (f.setRmn length).rmnReqCnt.toNat = 2 ^ 16 * f.reqCnt + length.toNat := by
  change ((f.rmnReqCnt &&& ~~~rmnCntMask) ||| length).toNat = _
  rw [BitVec.toNat_or, toNat_clearRmn, reqCnt, Nat.two_pow_add_eq_or_of_lt small]

theorem rmn_setRmn {f : Filter} {length : U32} (small : length.toNat < 2 ^ 16) :
    (f.setRmn length).rmn = length := by
  apply BitVec.eq_of_toNat_eq
  rw [toNat_rmn, toNat_setRmn small]
  omega

theorem toNat_rmn_account {f : Filter} {size : U32}
    (fits : size.toNat ≤ f.rmn.toNat) :
    (f.account size).rmn.toNat = f.rmn.toNat - size.toNat := by
  rw [toNat_rmn] at fits ⊢
  rw [toNat_rmn]
  change (f.rmnReqCnt - size).toNat % _ = _
  rw [BitVec.toNat_sub_of_le (by rw [BitVec.le_def]; omega)]
  omega

/-! ### Ends of records -/

/-- Nothing is being put together. -/
structure Idle (f : Filter) : Prop where
  rmn_eq : f.rmn = 0
  lenWord_eq : f.lenWord = 0
  record_eq : f.record = []

theorem idle_revertFlt (f : Filter) : f.revertFlt.Idle :=
  ⟨clearRmn_and_mask _, rfl, rfl⟩

theorem finishFlt_calls (f : Filter) :
    f.finishFlt.calls = f.calls ++ [f.current] := by
  rw [finishFlt]
  split
  · split
    · rfl
    · rfl
  · rfl

theorem finishFlt_delivered (f : Filter) :
    f.finishFlt.delivered = f.delivered ∨
      f.finishFlt.delivered = f.delivered ++ [f.current] := by
  rw [finishFlt]
  split
  · split
    · exact .inl rfl
    · exact .inr rfl
  · exact .inl rfl

theorem idle_finishFlt {f : Filter} (complete : f.rmn = 0) : f.finishFlt.Idle := by
  rw [finishFlt]
  split
  · split
    · exact idle_revertFlt _
    · exact ⟨complete, rfl, rfl⟩
  · exact idle_revertFlt _

/-- The state behind a DMA that went well. -/
def taken (f : Filter) (packet : Packet) (offset : Nat) (size : U32)
    (crc : DmaCrc) (start : Bool) : Filter :=
  (f.dmaCopy packet offset size crc start).account size

section Taken

variable {f : Filter} {packet : Packet} {offset : Nat} {size : U32}
  {crc : DmaCrc} {start : Bool}

theorem taken_record (small : size.toNat < 2 ^ 16) :
    (f.taken packet offset size crc start).record =
      f.record ++ [⟨f.dmaCount, start, packet, offset, size.toNat⟩] := by
  change f.record ++
    [⟨f.dmaCount, start, packet, offset, size.toNat % 2 ^ 16⟩] = _
  rw [Nat.mod_eq_of_lt small]

theorem bytes_current_taken (small : size.toNat < 2 ^ 16) :
    (f.taken packet offset size crc start).current.bytes =
      f.current.bytes ++ bytesAt packet offset size.toNat := by
  rw [current, Record.bytes, taken_record small, List.flatMap_append,
    List.flatMap_singleton]
  rfl

theorem crcBytes_taken_on (small : size.toNat < 2 ^ 16) :
    (f.taken packet offset size .on start).crcBytes =
      f.crcBytes ++ bytesAt packet offset size.toNat := by
  change f.crcBytes ++ bytesAt packet offset (size.toNat % 2 ^ 16) = _
  rw [Nat.mod_eq_of_lt small]

theorem crcBytes_taken_restart (small : size.toNat < 2 ^ 16) :
    (f.taken packet offset size .restart start).crcBytes =
      bytesAt packet offset size.toNat := by
  change bytesAt packet offset (size.toNat % 2 ^ 16) = _
  rw [Nat.mod_eq_of_lt small]

theorem toNat_rmn_taken (fits : size.toNat ≤ f.rmn.toNat) :
    (f.taken packet offset size crc start).rmn.toNat =
      f.rmn.toNat - size.toNat := by
  rw [taken, toNat_rmn_account]
  · rfl
  · exact fits

theorem toNat_lenWord_taken (small : f.lenWord.toNat + size.toNat < 2 ^ 32) :
    (f.taken packet offset size crc start).lenWord.toNat =
      f.lenWord.toNat + size.toNat := by
  change (f.lenWord + size).toNat = _
  rw [BitVec.toNat_add, Nat.mod_eq_of_lt small]

end Taken

end Filter

/-! ### The head of a packet -/

/-- `_u32TS_PktPUSIFlag` -/
def pktPusi (packet : Packet) : Bool := (packet 1).getLsbD 6

/-- `_u32TS_PktAFFlag & 0x1`: there is a payload. -/
def pktPayload (packet : Packet) : Bool := (packet 3).getLsbD 4

/-- `_u32TS_PktAFFlag & 0x2`: there is an adaptation field. -/
def pktAdaptation (packet : Packet) : Bool := (packet 3).getLsbD 5

/-- `_u32TS_PktCCFlag` -/
def pktCc (packet : Packet) : U32 := (cacheWord packet 0 0 >>> 24) &&& 0x0F

/-- The offset behind the header and the adaptation field, whose length is read
from `Pkt_CacheW1` with the window at an index. -/
def payloadOffset (packet : Packet) (index : Nat) : Nat :=
  if pktAdaptation packet then
    4 + (1 + (cacheWord packet index 1 &&& 0xFF).toNat)
  else 4

/-- `TS_PACKET_SIZE - offset` -/
def restOfPacket (offset : Nat) : U32 :=
  BitVec.ofNat 32 tsPacketSize - BitVec.ofNat 32 offset

theorem toNat_restOfPacket {offset : Nat} (inside : offset ≤ tsPacketSize) :
    (restOfPacket offset).toNat = tsPacketSize - offset := by
  rw [restOfPacket, BitVec.toNat_sub, BitVec.toNat_ofNat, BitVec.toNat_ofNat]
  rw [tsPacketSize] at inside ⊢
  omega

/-- What `FwTSP_Proc` checks before it processes a packet: sync byte, error
indicator, the PID where one is mapped, and that nothing is scrambled. -/
def pktAccepted (pid : Option (BitVec 13)) (packet : Packet) : Bool :=
  (packet 0 == 0x47) && !(packet 1).getLsbD 7 &&
    (pid.all fun pid => ((packet 1).setWidth 5 ++ packet 2 : BitVec 13) == pid) &&
    ((packet 3) >>> 6 == 0)

end Gp2Firmware.Tsp
