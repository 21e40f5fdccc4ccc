import Mathlib.Tactic.IntervalCases
import Gp2Firmware.Tsp.Filter

/-!
# Sections

`_GetSecFollowPackets` and `_GetSecFirstPacket`: the first continues a section
from an earlier packet, the second looks for the sections that begin in this
one.
-/

namespace Gp2Firmware.Tsp

/-- `SEC_SIZE_MAX` -/
def secSizeMax : U32 := 4096

variable (hw : Hw) (packet : Packet)

/-- `Pkt_CacheW0 & 0xFF` with the window at an index. -/
def cacheByte (index : Nat) : U32 := cacheWord packet index 0 &&& 0xFF

/-- In one-shot mode the filter is disabled behind a section. -/
def oneshotDisable (f : Filter) : Filter :=
  if f.ctrl &&& modeOneshot ≠ 0 then { f with ctrl := f.ctrl ||| stateDisable }
  else f

/-- The end of a section: it is finished or, with a wrong CRC, dropped. -/
def secTail (f : Filter) : Filter :=
  let f := oneshotDisable f
  if hw.crc f.crcBytes = 0 then f.updateWritePtr.finishFlt
  else if f.ctrl &&& modeCrcChk ≠ 0 then f.revertFlt
  else f.updateWritePtr.finishFlt

/-- The DMA of a part of a section, and its end if that is the last part. -/
def secDma (f : Filter) (offset : Nat) (length : U32) (crc : DmaCrc)
    (start : Bool) : Bool × Filter :=
  let tail := offset + length.toNat ≤ tsPacketSize
  let size := if tail then length else restOfPacket offset
  let done := f.dmaPostCheck hw packet offset size crc start
  if done.1 then
    (true, if tail then secTail hw (done.2.account size) else done.2.account size)
  else (false, done.2.revertFlt)

/-! ### Continuing a section -/

/-- The length of a section whose header was split: the rest of the header is
read at the offset. -/
def splitLength (f : Filter) (offset : Nat) : U32 :=
  if f.secByte = 2 then
    3 - 2 + (f.secLenData ||| cacheByte packet offset)
  else if f.secByte = 1 then
    3 - 1 + (((cacheWord packet offset 0 &&& 0x0000000F) <<< 8) |||
      ((cacheWord packet offset 0 &&& 0x0000FF00) >>> 8))
  else f.rmn

/-- `_u32DataSize` after that. -/
def splitDataSize (f : Filter) (offset : Nat) : U32 :=
  if f.secByte = 2 then splitLength packet f offset + 2
  else if f.secByte = 1 then splitLength packet f offset + 1
  else f.dataSize

/-- The remaining length is settled, and no header is split any more. -/
def followLength (f : Filter) (offset : Nat) : Filter :=
  { f.setRmn (splitLength packet f offset) with
    dataSize := splitDataSize packet f offset
    secByte := 0
    secLenData := 0 }

/-- The excluded version is found behind a split pattern.  For one byte in the
first packet the version is looked for in the last byte of `Pkt_CacheW1`. -/
def tailVersionDrop (f : Filter) (byte offset : Nat) : Bool :=
  if byte = 1 then
    ((cacheWord packet offset 1 >>> 25) &&& 0x1F) == f.notVersion.setWidth 32
  else
    ((cacheWord packet offset 0 >>> ((5 - byte) * 8 + 1)) &&& 0x1F) ==
      f.notVersion.setWidth 32

/-- The rest of a split pattern; the flag says whether the section stays. -/
def followPattern (f : Filter) (offset : Nat) : Bool × Pattern :=
  if f.ptn.ptnByte ≠ 0 then
    let byte := f.ptn.ptnByte
    let tail := patternMatchTail packet offset f.ptn
    if tail.1 = false then (false, tail.2)
    else if f.notVerEnable ∧ byte < 6 then
      (!tailVersionDrop packet f byte offset, tail.2)
    else (true, tail.2)
  else (true, f.ptn)

/-- Where a section goes on in the packet. -/
def continuedAt : Nat :=
  if pktPusi packet then payloadOffset packet 0 + 1 else payloadOffset packet 0

/-- The state when length and pattern are settled. -/
def followState (f : Filter) : Filter :=
  { followLength packet f (continuedAt packet) with
    ptn := (followPattern packet f (continuedAt packet)).2 }

/-- Where the window is then. -/
def followWindow (f : Filter) : Nat :=
  if f.secByte = 2 ∨ f.secByte = 1 ∨ f.ptn.ptnByte ≠ 0 then continuedAt packet
  else if pktPusi packet then payloadOffset packet 0
  else 0

/-- The pointer field leaves less room than the section needs. -/
def CutShort (f : Filter) : Prop :=
  pktPusi packet = true ∧ f.rmn < secSizeMax ∧
    cacheByte packet (payloadOffset packet 0) < f.rmn

instance (f : Filter) : Decidable (CutShort packet f) :=
  inferInstanceAs (Decidable (_ ∧ _))

/-- The parts of `_GetSecFollowPackets` behind the continuity check.  The result
is whether sections that begin in the packet are looked for, and where the window
is then. -/
def followSection (f : Filter) : Bool × Nat × Filter :=
  if CutShort packet f then (true, payloadOffset packet 0, f.revertFlt)
  else if (followPattern packet f (continuedAt packet)).1 then
    let done := secDma hw packet (followState packet f) (continuedAt packet)
      (followState packet f).rmn .on false
    (done.1, followWindow packet f, done.2)
  else (true, followWindow packet f, (followState packet f).revertFlt)

/-- `_u32PktContiCnt++` -/
def Filter.counted (f : Filter) : Filter :=
  { f with pktContiCnt := f.pktContiCnt + 1 }

/-- `_GetSecFollowPackets` -/
def getSecFollowPackets (f : Filter) : Bool × Nat × Filter :=
  if pktPayload packet ∧ f.rmn ≠ 0 then
    if pktCc packet ≠ f.counted.pktContiCnt &&& 0xF then
      (true, 0, ({ f.counted with pktContiCnt := pktCc packet }).revertFlt)
    else followSection hw packet f.counted
  else (true, 0, f)

/-! ### Looking for sections -/

/-- `u32SecLength` of a section that begins at an offset. -/
def firstLength (offset : Nat) : U32 :=
  if offset = tsPacketSize - 2 ∨ offset = tsPacketSize - 1 then 0xFFFF
  else
    3 + ((cacheWord packet offset 0 &&& 0x00000F00) |||
      ((cacheWord packet offset 0 &&& 0x00FF0000) >>> 16))

/-- A header that is split is remembered. -/
def firstHeader (f : Filter) (offset : Nat) : Filter :=
  { f with
    secByte :=
      if offset = tsPacketSize - 2 then 2
      else if offset = tsPacketSize - 1 then 1
      else f.secByte
    secLenData :=
      if offset = tsPacketSize - 2 then cacheWord packet offset 0 &&& 0x00000F00
      else if offset = tsPacketSize - 1 then 0
      else f.secLenData
    dataSize := firstLength packet offset }

/-- The section at an offset has the excluded version. -/
def headVersionDrop (f : Filter) (offset : Nat) : Bool :=
  f.notVerEnable && decide (offset < tsPacketSize - 5) &&
    ((cacheWord packet offset 1 >>> 9) &&& 0x1F) == f.notVersion.setWidth 32

/-- What becomes of a section: the loop goes on behind it, or the function
returns. -/
inductive SecTurn where
  | next (f : Filter)
  | leave (processed : Bool) (f : Filter)

/-- The state when the pattern of a section has been compared. -/
def headState (f : Filter) (offset : Nat) : Filter :=
  { firstHeader packet f offset with
    ptn := (patternMatchHead packet offset f.ptn).2 }

/-- The state when a section is taken. -/
def firstState (f : Filter) (offset : Nat) : Filter :=
  ({ headState packet f offset with pktContiCnt := pktCc packet }).setRmn
    (firstLength packet offset)

/-- One turn of the loop of `_GetSecFirstPacket`. -/
def secTurn (f : Filter) (offset : Nat) : SecTurn :=
  let state := headState packet f offset
  if (patternMatchHead packet offset f.ptn).1 then
    if headVersionDrop packet f offset then
      .leave true
        ({ state with ptn := { state.ptn with ptnByte := 0 } }).revertFlt
    else
      let done := secDma hw packet (firstState packet f offset) offset
        (firstLength packet offset) .restart true
      if done.1 then .next done.2 else .leave false done.2
  else .next { state with secByte := 0, secLenData := 0 }

/-- The loop of `_GetSecFirstPacket`.  Every turn moves on by three bytes at
least, so one turn for each byte is enough. -/
def secLoop : Nat → Filter → Nat → Bool × Filter
  | 0, f, _ => (true, f)
  | turns + 1, f, offset =>
      if offset < tsPacketSize ∧ cacheByte packet offset ≠ 0xFF then
        match secTurn hw packet f offset with
        | .next f => secLoop turns f (offset + (firstLength packet offset).toNat)
        | .leave processed f => (processed, f)
      else (true, f)

/-- The offset of the first section that begins in the packet.  The adaptation
field is measured with the window where it is. -/
def firstOffset (window : Nat) : Nat :=
  payloadOffset packet window + 1 +
    (cacheByte packet (payloadOffset packet window)).toNat

/-- `_GetSecFirstPacket`, with the window at an index. -/
def getSecFirstPacket (window : Nat) (f : Filter) : Bool × Filter :=
  if pktPusi packet ∧ pktPayload packet then
    secLoop hw packet tsPacketSize f (firstOffset packet window)
  else (true, f)

/-- What `FwTSP_Proc` does with a packet for a section filter. -/
def procSection (pid : Option (BitVec 13)) (f : Filter) : Filter :=
  if pktAccepted pid packet ∧ f.procPreCheck then
    let followed := getSecFollowPackets hw packet f
    if followed.1 then (getSecFirstPacket hw packet followed.2.1 followed.2.2).2
    else followed.2.2
  else f

/-! ### What the DMA leaves -/

section Dma

variable {packet : Packet} {f : Filter} {offset : Nat} {length : U32}
  {crc : DmaCrc} {start : Bool}

theorem oneshotDisable_eq (f : Filter) :
    ∃ ctrl, oneshotDisable f = { f with ctrl := ctrl } := by
  rw [oneshotDisable]
  split
  · exact ⟨_, rfl⟩
  · exact ⟨f.ctrl, rfl⟩

/-- At its end a section is handed to `FinishFlt`, or dropped. -/
theorem secTail_cases (hw : Hw) (f : Filter) :
    ∃ g : Filter, g.current = f.current ∧ g.delivered = f.delivered ∧
      g.rmnReqCnt = f.rmnReqCnt ∧
        (secTail hw f = g.finishFlt ∨ secTail hw f = g.revertFlt) := by
  obtain ⟨ctrl, same⟩ := oneshotDisable_eq f
  rw [secTail, same]
  split
  · exact ⟨Filter.updateWritePtr { f with ctrl := ctrl }, rfl, rfl, rfl, .inl rfl⟩
  · split
    · exact ⟨{ f with ctrl := ctrl }, rfl, rfl, rfl, .inr rfl⟩
    · exact ⟨Filter.updateWritePtr { f with ctrl := ctrl }, rfl, rfl, rfl, .inl rfl⟩

theorem idle_secTail {hw : Hw} (complete : f.rmn = 0) : (secTail hw f).Idle := by
  obtain ⟨g, -, -, length, finished | dropped⟩ := secTail_cases hw f
  · rw [finished]
    apply Filter.idle_finishFlt
    rw [Filter.rmn, length]
    exact complete
  · rw [dropped]
    exact g.idle_revertFlt

theorem secTail_delivered (hw : Hw) (f : Filter) :
    (secTail hw f).delivered = f.delivered ∨
      (secTail hw f).delivered = f.delivered ++ [f.current] := by
  obtain ⟨g, record, before, -, finished | dropped⟩ := secTail_cases hw f
  · rw [finished, ← record, ← before]
    exact g.finishFlt_delivered
  · rw [dropped]
    exact .inl before

/-- A DMA of a part of a section fails, takes the rest of the section, or takes
the rest of the packet. -/
theorem secDma_cases (hw : Hw) (packet : Packet) (f : Filter) (offset : Nat)
    (length : U32) (crc : DmaCrc) (start : Bool) :
    ((secDma hw packet f offset length crc start).1 = false ∧
        (secDma hw packet f offset length crc start).2.Idle ∧
        (secDma hw packet f offset length crc start).2.delivered =
          f.delivered) ∨
      (offset + length.toNat ≤ tsPacketSize ∧
        secDma hw packet f offset length crc start =
          (true, secTail hw (f.taken packet offset length crc start))) ∨
      (tsPacketSize < offset + length.toNat ∧
        secDma hw packet f offset length crc start =
          (true, f.taken packet offset (restOfPacket offset) crc start)) := by
  by_cases tail : offset + length.toNat ≤ tsPacketSize
  · rw [secDma, if_pos tail, Filter.dmaPostCheck]
    by_cases ovflow : (hw.dma f.dmaCount).ovflow = true
    · rw [if_pos ovflow]
      exact .inl ⟨rfl, Filter.idle_revertFlt _, rfl⟩
    · rw [if_neg ovflow]
      by_cases ovrun : (hw.dma f.dmaCount).ovrun = true
      · rw [if_pos ovrun]
        exact .inl ⟨rfl, Filter.idle_revertFlt _, rfl⟩
      · rw [if_neg ovrun]
        exact .inr (.inl ⟨tail, by rw [if_pos rfl, if_pos tail]; rfl⟩)
  · rw [secDma, if_neg tail, Filter.dmaPostCheck]
    by_cases ovflow : (hw.dma f.dmaCount).ovflow = true
    · rw [if_pos ovflow]
      exact .inl ⟨rfl, Filter.idle_revertFlt _, rfl⟩
    · rw [if_neg ovflow]
      by_cases ovrun : (hw.dma f.dmaCount).ovrun = true
      · rw [if_pos ovrun]
        exact .inl ⟨rfl, Filter.idle_revertFlt _, rfl⟩
      · rw [if_neg ovrun]
        exact .inr (.inr ⟨by omega, by rw [if_pos rfl, if_neg tail]; rfl⟩)

end Dma

/-! ### Lengths -/

section Lengths

variable {packet : Packet}

theorem cacheByte_eq (packet : Packet) (index : Nat) :
    cacheByte packet index = (packet index).setWidth 32 :=
  @cacheWord_byte packet index 0 0 (by decide)

theorem toNat_cacheByte (packet : Packet) (index : Nat) :
    (cacheByte packet index).toNat = (packet index).toNat := by
  rw [cacheByte_eq, BitVec.toNat_setWidth]
  have small := (packet index).isLt
  omega

/-- The twelve bits of a section length. -/
def lengthOf (high low : U8) : Nat := high.toNat % 16 * 256 + low.toNat

theorem lengthOf_lt (high low : U8) : lengthOf high low < 4096 := by
  have small := low.isLt
  rw [lengthOf]
  omega

/-- The section length as the firmware puts it together. -/
theorem toNat_lengthWord (high low : U8) :
    ((high.setWidth 32 &&& 0xF) <<< 8 ||| low.setWidth 32 : U32).toNat =
      lengthOf high low := by
  have whole : ((high.setWidth 32 &&& 0xF) <<< 8 ||| low.setWidth 32 : U32) =
      (high.setWidth 4 ++ low : BitVec 12).setWidth 32 := by
    apply BitVec.eq_of_getLsbD_eq
    intro bit inside
    simp only [BitVec.getLsbD_or, BitVec.getLsbD_shiftLeft, BitVec.getLsbD_and,
      BitVec.getLsbD_append, BitVec.getLsbD_setWidth]
    interval_cases bit <;> simp
  have small := low.isLt
  rw [whole, BitVec.toNat_setWidth, BitVec.toNat_append, BitVec.toNat_setWidth,
    lengthOf, Nat.shiftLeft_eq, Nat.mul_comm, ← Nat.two_pow_add_eq_or_of_lt small]
  omega

theorem toNat_add_lengthWord {few : U32} (small : few.toNat ≤ 4) (high low : U8) :
    (few + ((high.setWidth 32 &&& 0xF) <<< 8 ||| low.setWidth 32)).toNat =
      few.toNat + lengthOf high low := by
  have bound := lengthOf_lt high low
  rw [BitVec.toNat_add, toNat_lengthWord]
  omega

/-- `_u32SecLenData` holds the upper four bits of the length. -/
theorem secLenData_eq (packet : Packet) (index : Nat) :
    cacheWord packet index 0 &&& 0x00000F00 =
      ((packet (index + 1)).setWidth 32 &&& 0xF) <<< 8 := by
  have nibble : cacheWord packet index 0 &&& (0x00000F00 : U32) =
      (((cacheWord packet index 0 >>> 8) &&& (0xFF : U32)) &&& (0xF : U32)) <<< 8 := by
    have inside : (0x00000F00 : U32) = 0xFF00 &&& ((0xF : U32) <<< 8) := rfl
    rw [BitVec.shiftLeft_and_distrib, ← and_secondByte, inside, BitVec.and_assoc]
    rfl
  have second := @cacheWord_byte packet index 0 1 (by decide)
  exact nibble.trans (congrArg (fun b : U32 => (b &&& 0xF) <<< 8) second)

private theorem headWord (packet : Packet) (index : Nat) :
    (cacheWord packet index 0 &&& 0x00000F00) |||
        ((cacheWord packet index 0 &&& 0x00FF0000) >>> 16) =
      ((packet (index + 1)).setWidth 32 &&& 0xF) <<< 8 |||
        (packet (index + 2)).setWidth 32 := by
  have low : (cacheWord packet index 0 &&& 0x00FF0000) >>> 16 =
      (packet (index + 2)).setWidth 32 := by
    rw [BitVec.ushiftRight_and_distrib]
    exact @cacheWord_byte packet index 0 2 (by decide)
  rw [secLenData_eq, low]

private theorem tailWord (packet : Packet) (index : Nat) :
    ((cacheWord packet index 0 &&& 0x0000000F) <<< 8) |||
        ((cacheWord packet index 0 &&& 0x0000FF00) >>> 8) =
      ((packet index).setWidth 32 &&& 0xF) <<< 8 |||
        (packet (index + 1)).setWidth 32 := by
  have high : cacheWord packet index 0 &&& 0x0000000F =
      (packet index).setWidth 32 &&& 0xF := by
    rw [← cacheByte_eq, cacheByte, BitVec.and_assoc]
    rfl
  have low : (cacheWord packet index 0 &&& 0x0000FF00) >>> 8 =
      (packet (index + 1)).setWidth 32 := by
    rw [BitVec.ushiftRight_and_distrib]
    exact @cacheWord_byte packet index 0 1 (by decide)
  rw [high, low]

theorem toNat_firstLength {offset : Nat} (whole : offset + 2 < tsPacketSize) :
    (firstLength packet offset).toNat =
      3 + lengthOf (packet (offset + 1)) (packet (offset + 2)) := by
  rw [tsPacketSize] at whole
  rw [firstLength, if_neg (by rw [tsPacketSize]; omega), headWord]
  exact toNat_add_lengthWord (by decide) _ _

theorem firstLength_of_split {offset : Nat} (split : ¬ offset + 2 < tsPacketSize)
    (inside : offset < tsPacketSize) : firstLength packet offset = 0xFFFF := by
  rw [tsPacketSize] at split inside
  rw [firstLength, if_pos (by rw [tsPacketSize]; omega)]

theorem firstLength_lt (packet : Packet) (offset : Nat) :
    (firstLength packet offset).toNat < 2 ^ 16 := by
  rw [firstLength]
  split
  · decide
  · have small := lengthOf_lt (packet (offset + 1)) (packet (offset + 2))
    rw [headWord, toNat_add_lengthWord (by decide)]
    change 3 + _ < _
    omega

theorem three_le_firstLength (packet : Packet) (offset : Nat) :
    3 ≤ (firstLength packet offset).toNat := by
  rw [firstLength]
  split
  · decide
  · rw [headWord, toNat_add_lengthWord (by decide)]
    exact Nat.le_add_right 3 _

theorem toNat_splitLength_two {f : Filter} {offset : Nat} {high : U8}
    (two : f.secByte = 2)
    (data : f.secLenData = (high.setWidth 32 &&& 0xF) <<< 8) :
    (splitLength packet f offset).toNat = 1 + lengthOf high (packet offset) := by
  rw [splitLength, if_pos two, data, cacheByte_eq]
  exact toNat_add_lengthWord (by decide) _ _

theorem toNat_splitLength_one {f : Filter} {offset : Nat} (one : f.secByte = 1) :
    (splitLength packet f offset).toNat =
      2 + lengthOf (packet offset) (packet (offset + 1)) := by
  rw [splitLength, if_neg (by rw [one]; decide), if_pos one, tailWord]
  exact toNat_add_lengthWord (by decide) _ _

end Lengths

end Gp2Firmware.Tsp
