import Gp2Firmware.Tsp.Filter

/-!
# PES packets

`_GetPESFirstPacket` and `_GetPESFollowPackets` with `PES_OPT_NONE`.  The length
of a PES packet stands in its fifth and sixth byte; when these lie in the next
packet, the number of header bytes in the first one is kept.
-/

namespace Gp2Firmware.Tsp

variable (hw : Hw) (packet : Packet)

/-- `PES_packet_length` with the window at the start of the header. -/
def pesPacketLength (offset : Nat) : U32 :=
  ((cacheWord packet offset 1 &&& 0x00FF) <<< 8) |||
    ((cacheWord packet offset 1 &&& 0xFF00) >>> 8)

/-- The size of a PES packet; a length of 0 is taken for unbounded. -/
def pesSize (length : U32) : U32 := if length = 0 then vpesSizeMax else length + 6

/-- `u32PesLength` in `_GetPESFirstPacket`. -/
def firstPesLength (offset : Nat) : U32 :=
  if 182 < offset then 0xFFFF else pesSize (pesPacketLength packet offset)

/-- The DMA of a part of a PES packet, and its end if that is the last part. -/
def pesDma (f : Filter) (offset : Nat) (length : U32) (start counted : Bool) :
    Filter :=
  let tail := offset + length.toNat ≤ tsPacketSize
  let size := if tail then length else restOfPacket offset
  let done := f.dmaPostCheck hw packet offset size .off start
  if done.1 then
    let f := { done.2 with lenWord := done.2.lenWord + size }
    let f := if tail then f.updateWritePtr else f
    let f := if counted then { f with rmnReqCnt := f.rmnReqCnt - size } else f
    if tail then f.finishFlt else f
  else done.2.revertFlt

/-- What is known of a PES packet when its pattern has been compared. -/
def pesHeader (f : Filter) (offset : Nat) : Filter :=
  { f with
    ptn := (patternMatchHead packet offset f.ptn).2
    secByte := if 182 < offset then restOfPacket offset else 0
    secLenData :=
      if offset = 183 then cacheWord packet offset 1 &&& 0xFF else f.secLenData
    dataSize := firstPesLength packet offset }

/-- The state in which a PES packet is taken.  An unfinished one is dropped. -/
def pesStart (f : Filter) (offset : Nat) : Filter :=
  let f := pesHeader packet f offset
  (if 0 < f.rmn then f.revertFlt else f).setRmn
    (firstPesLength packet offset &&& rmnCntMask)

/-- `_GetPESFirstPacket` -/
def getPesFirstPacket (f : Filter) : Filter :=
  if pktPayload packet then
    let offset := payloadOffset packet 0
    if (patternMatchHead packet offset f.ptn).1 then
      pesDma hw packet (pesStart packet f offset) offset
        (firstPesLength packet offset) true true
    else (pesHeader packet f offset).revertFlt
  else f

/-- `u32PesLength` behind a broken header, of which so many bytes came before. -/
def brokenPesLength (f : Filter) (offset : Nat) : Option U32 :=
  let w0 := cacheWord packet offset 0
  let w1 := cacheWord packet offset 1
  match f.secByte.toNat with
  | 1 => some (((w0 >>> 16) &&& 0xFF00) ||| (w1 &&& 0x00FF))
  | 2 => some (((w0 >>> 8) &&& 0xFF00) ||| ((w0 >>> 24) &&& 0x00FF))
  | 3 => some ((w0 &&& 0xFF00) ||| ((w0 >>> 16) &&& 0x00FF))
  | 4 => some (((w0 <<< 8) &&& 0xFF00) ||| ((w0 >>> 8) &&& 0x00FF))
  | 5 => some ((f.secLenData <<< 8) ||| (w0 &&& 0xFF))
  | _ => none

/-- The state when the length behind a broken header is known. -/
def pesLengthKnown (f : Filter) (length : U32) : Filter :=
  { f.setRmn ((length + 6 - f.secByte) &&& rmnCntMask) with
    dataSize := pesSize length
    secByte := 0 }

/-- The part of a PES packet in a packet, of which so much is missing. -/
def pesContinue (f : Filter) (offset : Nat) (length : U32) : Filter :=
  let tail := patternMatchTail packet offset f.ptn
  let f := { f with ptn := tail.2 }
  if tail.1 then
    pesDma hw packet f offset length false (decide (f.dataSize ≠ vpesSizeMax))
  else f.revertFlt

/-- `_GetPESFollowPackets` -/
def getPesFollowPackets (f : Filter) : Filter :=
  if pktPayload packet ∧ f.rmn ≠ 0 then
    let offset := payloadOffset packet 0
    if 0 < f.secByte then
      match brokenPesLength packet f offset with
      | some length =>
          pesContinue hw packet (pesLengthKnown f length) offset
            (length + 6 - f.secByte)
      | none => f.revertFlt
    else pesContinue hw packet f offset f.rmn
  else f

/-- What `FwTSP_Proc` does with a packet for a PES filter. -/
def procPes (pid : Option (BitVec 13)) (f : Filter) : Filter :=
  if pktAccepted pid packet ∧ f.procPreCheck then
    if pktPusi packet then getPesFirstPacket hw packet f
    else getPesFollowPackets hw packet f
  else f

/-! ### The mask registers -/

section Registers

variable {hw packet} {f : Filter} {offset : Nat} {length : U32} {start counted : Bool}

theorem finishFlt_ptn (f : Filter) : f.finishFlt.ptn = f.ptn := by
  rw [Filter.finishFlt]
  split
  · split
    · rfl
    · rfl
  · rfl

theorem pesDma_ptn : (pesDma hw packet f offset length start counted).ptn = f.ptn := by
  have checked : ∀ size : U32,
      (f.dmaPostCheck hw packet offset size .off start).2.ptn = f.ptn := by
    intro size
    rw [Filter.dmaPostCheck]
    split
    · rfl
    · split
      · rfl
      · rfl
  by_cases tail : offset + length.toNat ≤ tsPacketSize
  · simp only [pesDma, tail, if_true]
    split
    · rw [finishFlt_ptn]
      cases counted
      · exact checked _
      · exact checked _
    · exact checked _
  · simp only [pesDma, tail, if_false]
    split
    · cases counted
      · exact checked _
      · exact checked _
    · exact checked _

theorem pesStart_mask (packet : Packet) (f : Filter) (offset : Nat) :
    (pesStart packet f offset).ptn.mask = f.ptn.mask := by
  have head := (patternMatchHead_registers f.ptn packet offset).2
  rw [pesStart]
  split
  · exact head
  · exact head

theorem pesContinue_mask :
    (pesContinue hw packet f offset length).ptn.mask = f.ptn.mask := by
  have tail := (patternMatchTail_registers f.ptn packet offset).2
  simp only [pesContinue]
  split
  · rw [pesDma_ptn]
    exact tail
  · exact tail

/-- The mask registers have their values again behind every packet. -/
theorem procPes_mask (hw : Hw) (packet : Packet) (pid : Option (BitVec 13))
    (f : Filter) : (procPes hw packet pid f).ptn.mask = f.ptn.mask := by
  rw [procPes]
  split
  · split
    · rw [getPesFirstPacket]
      split
      · simp only
        split
        · rw [pesDma_ptn]
          exact pesStart_mask _ _ _
        · exact (patternMatchHead_registers f.ptn packet _).2
      · rfl
    · rw [getPesFollowPackets]
      split
      · simp only
        split
        · split
          · exact pesContinue_mask
          · rfl
        · exact pesContinue_mask
      · rfl
  · rfl

end Registers

/-! ### Lengths -/

section Lengths

variable {packet : Packet} {f : Filter} {offset : Nat}

/-- A number of two bytes. -/
def bigEndian (high low : U8) : Nat := high.toNat * 256 + low.toNat

theorem bigEndian_lt (high low : U8) : bigEndian high low < 2 ^ 16 := by
  have highSmall := high.isLt
  have lowSmall := low.isLt
  rw [bigEndian]
  omega

theorem toNat_bytePair (high low : U8) :
    ((high.setWidth 32 <<< 8) ||| low.setWidth 32 : U32).toNat =
      bigEndian high low := by
  have whole : ((high.setWidth 32 <<< 8) ||| low.setWidth 32 : U32) =
      (high ++ low : BitVec 16).setWidth 32 := by
    apply BitVec.eq_of_getLsbD_eq
    intro bit inside
    simp only [BitVec.getLsbD_or, BitVec.getLsbD_shiftLeft, BitVec.getLsbD_append,
      BitVec.getLsbD_setWidth]
    interval_cases bit <;> simp
  have highSmall := high.isLt
  have lowSmall := low.isLt
  rw [whole, BitVec.toNat_setWidth, BitVec.toNat_append, bigEndian,
    Nat.shiftLeft_eq, Nat.mul_comm, ← Nat.two_pow_add_eq_or_of_lt lowSmall]
  omega

theorem toNat_pesPacketLength (packet : Packet) (offset : Nat) :
    (pesPacketLength packet offset).toNat =
      bigEndian (packet (offset + 4)) (packet (offset + 5)) := by
  have high := @cacheWord_byte packet offset 1 0 (by decide)
  have low := @cacheWord_byte packet offset 1 1 (by decide)
  rw [pesPacketLength, BitVec.ushiftRight_and_distrib]
  exact (congrArg₂ (fun a b : U32 => (a <<< 8 ||| b).toNat) high low).trans (toNat_bytePair _ _)

theorem cacheWord_and_byte (packet : Packet) (offset : Nat) :
    cacheWord packet offset 1 &&& 0xFF = (packet (offset + 4)).setWidth 32 :=
  @cacheWord_byte packet offset 1 0 (by decide)

/-- Behind one to four header bytes the length is read where it stands. -/
theorem brokenPesLength_of_four (some' : 1 ≤ f.secByte.toNat)
    (few : f.secByte.toNat ≤ 4) :
    ∃ length, brokenPesLength packet f offset = some length ∧
      length.toNat = bigEndian (packet (offset + (4 - f.secByte.toNat)))
        (packet (offset + (5 - f.secByte.toNat))) := by
  have pair : ∀ {first second : U32} {high low : U8}, (first >>> 8) &&& (0xFF : U32) = high.setWidth 32 →
      second = low.setWidth 32 → ((first &&& (0xFF00 : U32)) ||| second).toNat = bigEndian high low := by
    intro first second high low upper lower
    rw [and_secondByte, upper, lower, toNat_bytePair]
  have byte := fun k (low : k < 4) => @cacheWord_byte packet offset 0 k low
  simp only [brokenPesLength]
  generalize f.secByte.toNat = count at some' few
  interval_cases count
  · exact ⟨_, rfl, pair (byte 3 (by decide)) (@cacheWord_byte packet offset 1 0 (by decide))⟩
  · exact ⟨_, rfl, pair (byte 2 (by decide)) (byte 3 (by decide))⟩
  · exact ⟨_, rfl, pair (byte 1 (by decide)) (byte 2 (by decide))⟩
  · exact ⟨_, rfl, pair ((shiftLeft_byte _).trans (byte 0 (by decide))) (byte 1 (by decide))⟩

/-- Behind five header bytes the upper byte of the length was kept. -/
theorem brokenPesLength_of_five {high : U8} (five : f.secByte.toNat = 5)
    (kept : f.secLenData = high.setWidth 32) :
    ∃ length, brokenPesLength packet f offset = some length ∧
      length.toNat = bigEndian high (packet offset) := by
  simp only [brokenPesLength, five, kept]
  have low := @cacheWord_byte packet offset 0 0 (by decide)
  refine ⟨_, rfl, ?_⟩
  rw [← toNat_bytePair]
  exact congrArg (fun byte : U32 => (high.setWidth 32 <<< 8 ||| byte).toNat) low

end Lengths

end Gp2Firmware.Tsp
