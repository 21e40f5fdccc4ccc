import Gp2Firmware.Tsp.FilterLog
import Gp2Firmware.Tsp.SectionRecords
import Gp2Firmware.Tsp.SplitBytes

/-!
# Sections are assembled completely

A section that its packets carry from the first to the last byte, matching and
of a wanted version, is handed to `FinishFlt` exactly once and as it is.
-/

namespace Gp2Firmware.Tsp

/-! ### A section on its way -/

/-- The packets carry the rest of a section, from a continuity counter on.
Packets without payload do not count. -/
inductive CarriesRest (pid : Option (BitVec 13)) : U32 → List U8 → List Packet → Prop
  | skip {cc : U32} {bytes : List U8} {packet : Packet} {packets : List Packet}
      (payload : pktPayload packet = false)
      (rest : CarriesRest pid cc bytes packets) :
      CarriesRest pid cc bytes (packet :: packets)
  | part {cc : U32} {bytes : List U8} {packet : Packet} {packets : List Packet}
      (accepted : pktAccepted pid packet = true)
      (payload : pktPayload packet = true) (pusi : pktPusi packet = false)
      (counter : pktCc packet = (cc + 1) &&& 0xF)
      (inside : continuedAt packet ≤ tsPacketSize) (more : bytes ≠ [])
      (rest : CarriesRest pid (pktCc packet) bytes packets) :
      CarriesRest pid cc
        (bytesAt packet (continuedAt packet)
          (tsPacketSize - continuedAt packet) ++ bytes) (packet :: packets)
  | last {cc : U32} {packet : Packet} {size : Nat}
      (accepted : pktAccepted pid packet = true)
      (payload : pktPayload packet = true)
      (pusi : pktPusi packet = true → size ≤ pointerField packet)
      (counter : pktCc packet = (cc + 1) &&& 0xF) (some : size ≠ 0)
      (fits : continuedAt packet + size ≤ tsPacketSize) :
      CarriesRest pid cc (bytesAt packet (continuedAt packet) size) [packet]

/-- A section begins at an offset of a packet and ends in it, or in the last of
the packets behind it. -/
structure CarriesSection (pid : Option (BitVec 13)) (first : Packet) (offset : Nat)
    (packets : List Packet) (sec : List U8) : Prop where
  accepted : pktAccepted pid first = true
  pusi : pktPusi first = true
  payload : pktPayload first = true
  starts : SectionStart first offset
  inside : offset < tsPacketSize
  used : first offset ≠ 0xFF
  length_eq : sec.length = sectionLength sec
  carried : offset + sec.length ≤ tsPacketSize ∧ packets = [] ∧
      sec = bytesAt first offset sec.length ∨
    ∃ bytes, bytes ≠ [] ∧ CarriesRest pid (pktCc first) bytes packets ∧
      sec = bytesAt first offset (tsPacketSize - offset) ++ bytes

/-- `version_number` of a byte. -/
def versionOf (byte : U8) : BitVec 5 := (byte >>> 1).setWidth 5

/-- A section has the excluded version. -/
def ExcludedVersion (f : Filter) (sec : List U8) : Prop :=
  f.notVerEnable = true ∧ 5 < sec.length ∧
    (versionOf (sec.getD 5 0)).setWidth 8 = f.notVersion

/-- Among all calls of `FinishFlt` exactly one is for the section that begins at
an offset of a packet, and the record has exactly its bytes. -/
def FinishedOnce (f : Filter) (from' : Nat) (first : Packet) (offset : Nat)
    (sec : List U8) : Prop :=
  ∃ r c, c ∈ r.chunks ∧ c.start = true ∧ c.packet = first ∧ c.offset = offset ∧
    from' ≤ c.number ∧ r.bytes = sec ∧ r.size.toNat = sec.length ∧
      ∃ before after, f.calls = before ++ r :: after ∧
        ∀ other ∈ before ++ after, ∀ d ∈ other.chunks, d.number ≠ c.number

/-! ### The conditions -/

/-- Where the version is looked for behind a split pattern. -/
def versionAt (byte : Nat) : Nat := if byte = 1 then 7 else 5 - byte

/-- The packet in which the section begins finds nothing that gets in its way:
the filter is enabled; nothing was counted for a section that does not go on; an
earlier section that goes on does so without adaptation field, and is given up or
ends in the packet; no earlier section that is taken has the excluded version; no
earlier section disables a one-shot filter before the end of this one; and where
the section is too short for a version, the byte read for it does no harm. -/
structure FirstSafe (f : Filter) (first : Packet) (offset : Nat)
    (packets : List Packet) (sec : List U8) : Prop where
  enabled : f.procPreCheck = true
  clean : f.rmn = 0 → f.Idle
  follow : InSequence f first → pktAdaptation first = false ∧
    (¬ CutShort first f → (followPattern first f (continuedAt first)).1 = true →
      continuedAt first +
          (splitLength first f (continuedAt first)).toNat ≤ tsPacketSize ∧
        (packets = [] ∨ f.ctrl &&& modeOneshot = 0))
  turns : ∀ earlier, SectionStart first earlier → earlier < offset →
    (patternMatchHead first earlier f.ptn).1 = true →
      headVersionDrop first f earlier = false ∧
        (packets = [] ∨ f.ctrl &&& modeOneshot = 0)
  version : sec.length ≤ 5 → headVersionDrop first f offset = false

/-- A packet that goes on with the section meets a filter that understands it: it
completes a split header; a header marked as split is the one in the record; what
is compared of the rest of a split pattern lies in the packet and is not mixed by
the shift; and where the version is not looked for in the right byte, the byte
read does no harm. -/
structure PieceSafe (sec : List U8) (f : Filter) (packet : Packet) : Prop where
  header : 3 ≤ f.lenWord.toNat + (tsPacketSize - continuedAt packet)
  marked : f.secByte = 1 ∨ f.secByte = 2 → f.lenWord = f.secByte
  visible : f.ptn.ptnByte ≠ 0 → ∀ bit, 8 * f.ptn.ptnByte ≤ bit → bit < 128 →
    bitOf f.ptn.mask bit = true ∨
      continuedAt packet + (bit / 8 - f.ptn.ptnByte) < tsPacketSize
  unmixed : f.ptn.ptnByte ≠ 0 → f.ptn.ptnByte % 4 = 0 →
    Unmixed f.ptn f.ptn.ptnByte
  version : f.notVerEnable = true → f.ptn.ptnByte ≠ 0 → f.ptn.ptnByte < 6 →
    (f.ptn.ptnByte = 1 ∨ sec.length ≤ 5 ∨
      tsPacketSize ≤ continuedAt packet + (5 - f.ptn.ptnByte)) →
    (versionOf (packet (continuedAt packet + versionAt f.ptn.ptnByte))).setWidth 8 ≠
      f.notVersion

/-! ### Versions -/

section Version

variable {packet : Packet} {f : Filter} {offset byte : Nat}

theorem version_eq_iff (byte : U8) (version : U8) :
    ((versionOf byte).setWidth 32 : U32) = version.setWidth 32 ↔
      (versionOf byte).setWidth 8 = version := by
  rw [← BitVec.toNat_inj, ← BitVec.toNat_inj, BitVec.toNat_setWidth,
    BitVec.toNat_setWidth, BitVec.toNat_setWidth]
  have small := (versionOf byte).isLt
  have wide := version.isLt
  omega

theorem headVersionDrop_iff :
    headVersionDrop packet f offset = true ↔ f.notVerEnable = true ∧
      offset < tsPacketSize - 5 ∧
        (versionOf (packet (offset + 5))).setWidth 8 = f.notVersion := by
  have word : (cacheWord packet offset 1 >>> 9) &&& 0x1F =
      (versionOf (packet (offset + 5))).setWidth 32 :=
    @cacheWord_field packet offset 1 1 1 5 (by decide) (by decide)
  rw [headVersionDrop, word, Bool.and_eq_true, Bool.and_eq_true, decide_eq_true_iff,
    beq_iff_eq, version_eq_iff, and_assoc]

theorem tailVersionDrop_iff (low : 1 ≤ byte) (high : byte < 6) :
    tailVersionDrop packet f byte offset = true ↔
      (versionOf (packet (offset + versionAt byte))).setWidth 8 = f.notVersion := by
  rw [tailVersionDrop, versionAt]
  by_cases one : byte = 1
  · have word : (cacheWord packet offset 1 >>> 25) &&& 0x1F =
        (versionOf (packet (offset + 7))).setWidth 32 :=
      @cacheWord_field packet offset 1 3 1 5 (by decide) (by decide)
    rw [if_pos one, if_pos one, word, beq_iff_eq, version_eq_iff]
  · have word : (cacheWord packet offset 0 >>> ((5 - byte) * 8 + 1)) &&& 0x1F =
        (versionOf (packet (offset + (5 - byte)))).setWidth 32 := by
      rw [Nat.mul_comm]
      exact @cacheWord_field packet offset 0 (5 - byte) 1 5 (by omega) (by decide)
    rw [if_neg one, if_neg one, word, beq_iff_eq, version_eq_iff]

end Version

/-! ### DMAs that succeed -/

section Calm

variable {hw : Hw} {packet : Packet} {f : Filter} {offset : Nat} {length : U32}
  {crc : DmaCrc} {start : Bool}

theorem secDma_calm (calm : hw.dma f.dmaCount = ⟨false, false⟩) :
    secDma hw packet f offset length crc start =
      (true, if offset + length.toNat ≤ tsPacketSize then
        secTail hw (f.taken packet offset length crc start)
      else f.taken packet offset (restOfPacket offset) crc start) := by
  by_cases tail : offset + length.toNat ≤ tsPacketSize
  · simp only [secDma, tail, if_true, Filter.dmaPostCheck, calm]
    rfl
  · simp only [secDma, tail, if_false, Filter.dmaPostCheck, calm]
    rfl

/-- With a correct CRC, or without the check, a section is finished. -/
theorem secTail_calls (ends : hw.crc f.crcBytes = 0 ∨ f.ctrl &&& modeCrcChk = 0) :
    (secTail hw f).calls = f.calls ++ [f.current] := by
  obtain ⟨ctrl, same⟩ := oneshotDisable_eq f
  have mode := (later_oneshotDisable f).crcChk_eq
  have finished : (oneshotDisable f).updateWritePtr.finishFlt.calls =
      f.calls ++ [f.current] := by
    rw [same, Filter.finishFlt_calls]
    rfl
  have bytes : (oneshotDisable f).crcBytes = f.crcBytes := by rw [same]
  simp only [secTail]
  rw [bytes]
  by_cases zero : hw.crc f.crcBytes = 0
  · rw [if_pos zero]
    exact finished
  · rw [if_neg zero, if_neg]
    · exact finished
    · rw [mode]
      exact not_not.mpr (ends.resolve_left zero)

/-- A filter that is not in one-shot mode stays enabled. -/
theorem secTail_ctrl (hw : Hw) (repeated : f.ctrl &&& modeOneshot = 0) :
    (secTail hw f).ctrl = f.ctrl := by
  have enabled : oneshotDisable f = f := by
    rw [oneshotDisable, if_neg (not_not.mpr repeated)]
  have finished : f.updateWritePtr.finishFlt.ctrl = f.ctrl := by
    rw [Filter.finishFlt]
    split
    · split
      · rfl
      · rfl
    · rfl
  simp only [secTail]
  rw [enabled]
  split
  · exact finished
  · split
    · rfl
    · exact finished

end Calm

/-! ### The state while a section is gathered -/

/-- What was called or copied so far has a number below the next DMA. -/
def Numbered (f : Filter) : Prop :=
  ∀ c, (c ∈ f.record ∨ ∃ r ∈ f.calls, c ∈ r.chunks) → c.number < f.dmaCount

theorem Numbered.later {f g : Filter} (numbered : Numbered f) (later : Later f g) :
    Numbered g := by
  obtain ⟨calls, grown, origin⟩ := later.log
  have bound := later.dmaCount_le
  have old : ∀ c, (c ∈ f.record ∨ ∃ r ∈ f.calls, c ∈ r.chunks) →
      c.number < g.dmaCount :=
    fun c there => Nat.lt_of_lt_of_le (numbered c there) bound
  have new : ∀ c, (c ∈ g.record ∨ ∃ r ∈ calls, c ∈ r.chunks) →
      c.number < g.dmaCount := by
    intro c there
    rcases origin c there with before | number
    · exact old c (.inl before)
    · exact number.2
  intro c there
  rcases there with here | ⟨r, inCalls, inside⟩
  · exact new c (.inl here)
  · rw [grown, List.mem_append] at inCalls
    rcases inCalls with before | after
    · exact old c (.inr ⟨r, before, inside⟩)
    · exact new c (.inr ⟨r, after, inside⟩)

/-- The filter holds the first bytes of a section that begins at an offset of a
packet; the DMA of its start is later than the DMAs of all calls so far. -/
structure Gathering (from' : Nat) (first : Packet) (offset : Nat) (got : List U8)
    (cc : U32) (g : Filter) : Prop where
  chunk : ∃ c ∈ g.record, c.start = true ∧ c.packet = first ∧ c.offset = offset ∧
    from' ≤ c.number ∧ c.number < g.dmaCount ∧
      ∀ r ∈ g.calls, ∀ d ∈ r.chunks, d.number < c.number
  bytes_eq : g.current.bytes = got
  count : g.lenWord.toNat = g.current.bytes.length
  crcBytes_eq : g.crcBytes = got
  header : Header g
  more : g.rmn ≠ 0
  counter : g.pktContiCnt &&& 0xF = cc
  enabled : g.procPreCheck = true
  split : g.ptn.ptnByte = 0 ∨ g.ptn.ptnByte = got.length ∧ got.length ≤ 15
  spare : Spare g.ptn

/-- When the section is finished, its call stays the only one. -/
theorem finishedOnce_of_call {g h : Filter} {from' : Nat} {first : Packet}
    {offset : Nat} {sec : List U8}
    (chunk : ∃ c ∈ g.record, c.start = true ∧ c.packet = first ∧
      c.offset = offset ∧ from' ≤ c.number ∧ c.number < g.dmaCount ∧
        ∀ r ∈ g.calls, ∀ d ∈ r.chunks, d.number < c.number)
    (bytes : g.current.bytes = sec) (count : g.lenWord.toNat = sec.length)
    (hw : Hw) (complete : g.rmn = 0)
    (ends : hw.crc g.crcBytes = 0 ∨ g.ctrl &&& modeCrcChk = 0)
    (later : Later (secTail hw g) h) : FinishedOnce h from' first offset sec := by
  obtain ⟨c, inside, start, packet, place, low, high, before⟩ := chunk
  obtain ⟨calls, grown, origin⟩ := later.log
  have bound := (later_secTail hw g).dmaCount_le
  have idle := @idle_secTail g hw complete
  refine ⟨g.current, c, inside, start, packet, place, low, bytes, count,
    g.calls, calls, ?_, ?_⟩
  · rw [grown, secTail_calls ends, List.append_assoc]
    rfl
  · intro r member d there same
    rcases List.mem_append.mp member with old | new
    · have less := before r old d there
      omega
    · rcases origin d (.inr ⟨r, new, there⟩) with none | number
      · rw [idle.record_eq] at none
        cases none
      · omega

/-! ### A packet that goes on with the section -/

section Piece

variable {hw : Hw} {from' : Nat} {first packet : Packet} {offset size : Nat}
  {got rest sec : List U8} {cc : U32} {f : Filter}

/-- The bytes of a packet that belong to a section of which some are known. -/
structure Piece (packet : Packet) (got : List U8) (size : Nat)
    (rest sec : List U8) : Prop where
  whole : sec = got ++ bytesAt packet (continuedAt packet) size ++ rest
  length_eq : sec.length = sectionLength sec
  payload : pktPayload packet = true
  fits : continuedAt packet + size ≤ tsPacketSize
  toEnd : rest = [] ∨ continuedAt packet + size = tsPacketSize
  some : size ≠ 0 ∨ rest ≠ []
  pointer : pktPusi packet = true → rest = [] ∧ size ≤ pointerField packet

theorem Piece.length (piece : Piece packet got size rest sec) :
    sec.length = got.length + (size + rest.length) := by
  rw [piece.whole, List.length_append, List.length_append, length_bytesAt,
    Nat.add_assoc]

theorem Piece.fits_start (piece : Piece packet got size rest sec) :
    continuedAt packet ≤ tsPacketSize :=
  Nat.le_trans (Nat.le_add_right _ size) piece.fits

theorem Piece.shows (piece : Piece packet got size rest sec) :
    ShowsBytes packet sec (continuedAt packet) got.length :=
  showsBytes_of_whole piece.whole piece.toEnd

theorem Piece.rest_eq (piece : Piece packet got size rest sec)
    (bytes : f.current.bytes = got)
    (header : 3 ≤ got.length + (tsPacketSize - continuedAt packet)) :
    sectionRest f packet = size + rest.length := by
  have length := piece.length
  have three := three_le_sectionLength sec
  have stated := piece.length_eq
  have enough : 3 ≤ got.length + size := by
    rcases piece.toEnd with none | full
    · rw [none, List.length_nil] at length
      omega
    · omega
  have whole := piece.whole
  rw [sectionRest, bytes, ← sectionLength_append enough]
  have known : sectionLength sec =
      sectionLength (got ++ bytesAt packet (continuedAt packet) size) := by
    rw [piece.whole]
    apply sectionLength_of_header
    rw [List.length_append, length_bytesAt]
    exact enough
  omega

/-- The section is not given up. -/
theorem Gathering.not_cutShort (gathering : Gathering from' first offset got cc f)
    (piece : Piece packet got size rest sec) : ¬ CutShort packet f := by
  intro cut
  have pointer := piece.pointer cut.1
  have length := piece.length
  have stated := piece.length_eq
  have small := cut.2.1
  have before := cut.2.2
  have limit : secSizeMax.toNat = 4096 := rfl
  rw [BitVec.lt_def, toNat_cacheByte] at before
  rw [BitVec.lt_def, limit] at small
  have count := gathering.count
  cases gathering.header with
  | known bytes total =>
      have same : sectionLength sec = sectionLength got := by
        rw [piece.whole, List.append_assoc]
        apply sectionLength_of_header
        rw [← gathering.bytes_eq]
        omega
      rw [pointer.1, List.length_nil] at length
      rw [gathering.bytes_eq] at count total
      have room := pointer.2
      rw [pointerField] at room
      omega
  | two pending => omega
  | one pending => omega

/-- The rest of the pattern is accepted, and the version too. -/
theorem Gathering.followPattern_fst
    (gathering : Gathering from' first offset got cc f)
    (piece : Piece packet got size rest sec) (safe : PieceSafe sec f packet)
    (matches' : MatchesBytes f.ptn sec) (version : ¬ ExcludedVersion f sec) :
    (followPattern packet f (continuedAt packet)).1 = true := by
  simp only [followPattern]
  by_cases some : f.ptn.ptnByte ≠ 0
  · have split := gathering.split.resolve_left some
    have shows' := piece.shows
    rw [← split.1] at shows'
    have tail := tail_of_matches matches' gathering.spare some
      (by rw [split.1]; exact split.2) shows' (safe.visible some)
      (safe.unmixed some)
    rw [if_pos some, if_neg (by rw [tail]; exact Bool.noConfusion)]
    split
    · rename_i checked
      have keeps : ¬ tailVersionDrop packet f f.ptn.ptnByte (continuedAt packet) =
          true := by
        rw [tailVersionDrop_iff (by omega) checked.2]
        intro excluded
        by_cases astray : f.ptn.ptnByte = 1 ∨ sec.length ≤ 5 ∨
          tsPacketSize ≤ continuedAt packet + (5 - f.ptn.ptnByte)
        · exact safe.version checked.1 some checked.2 astray excluded
        · rw [not_or, not_or] at astray
          rw [versionAt, if_neg astray.1, shows' _ (by omega) (by omega),
            Nat.add_sub_of_le (by omega)] at excluded
          exact version ⟨checked.1, by omega, excluded⟩
      rw [Bool.not_eq_true] at keeps
      rw [keeps]
      rfl
    · rfl
  · rw [if_neg some]

/-- Such a packet starts a DMA of what is missing. -/
theorem Gathering.follow_eq (hw : Hw)
    (gathering : Gathering from' first offset got cc f)
    (piece : Piece packet got size rest sec) (safe : PieceSafe sec f packet)
    (matches' : MatchesBytes f.ptn sec) (version : ¬ ExcludedVersion f sec)
    (counter : pktCc packet = (cc + 1) &&& 0xF) :
    ∃ length : U32, length.toNat = size + rest.length ∧
      (followState packet f.counted).rmn = length ∧
      getSecFollowPackets hw packet f =
        ((secDma hw packet (followState packet f.counted) (continuedAt packet)
          length .on false).1, followWindow packet f.counted,
        (secDma hw packet (followState packet f.counted) (continuedAt packet)
          length .on false).2) := by
  have header := safe.header
  rw [gathering.count, gathering.bytes_eq] at header
  have length := @toNat_splitLength packet _ gathering.count
    gathering.header safe.marked
  rw [piece.rest_eq gathering.bytes_eq header] at length
  have bound := sectionLength_le sec
  have total := piece.length
  have stated := piece.length_eq
  have small : (splitLength packet f (continuedAt packet)).toNat < 2 ^ 16 := by
    rw [length]
    omega
  have remaining : (followState packet f.counted).rmn =
      splitLength packet f (continuedAt packet) := Filter.rmn_setRmn small
  refine ⟨splitLength packet f (continuedAt packet), length, remaining, ?_⟩
  have sequence : ¬ pktCc packet ≠ f.counted.pktContiCnt &&& 0xF := by
    rw [not_not, counter, ← gathering.counter, counter_add_one]
    rfl
  have kept : (followPattern packet f.counted (continuedAt packet)).1 = true :=
    gathering.followPattern_fst piece safe matches' version
  have whole : ¬ CutShort packet f.counted := gathering.not_cutShort piece
  rw [getSecFollowPackets, if_pos ⟨piece.payload, gathering.more⟩,
    if_neg sequence, followSection, if_neg whole, remaining, if_pos kept]

/-- A split pattern is done with after its rest. -/
theorem followState_ptnByte (packet : Packet) (f : Filter) :
    (followState packet f).ptn.ptnByte = 0 := by
  change (followPattern packet f (continuedAt packet)).2.ptnByte = 0
  by_cases some : f.ptn.ptnByte ≠ 0
  · have tail : (followPattern packet f (continuedAt packet)).2 =
        (patternMatchTail packet (continuedAt packet) f.ptn).2 := by
      simp only [followPattern]
      rw [if_pos some]
      split
      · rfl
      · split
        · rfl
        · rfl
    rw [tail, patternMatchTail, if_neg some]
  · rw [followPattern, if_neg some]
    exact not_not.mp some

/-- What the continuation settles is apart from the record and what belongs to it. -/
theorem followState_kept (packet : Packet) (f : Filter) :
    (followState packet f.counted).ctrl = f.ctrl ∧
      (followState packet f.counted).current = f.current ∧
      (followState packet f.counted).crcBytes = f.crcBytes ∧
      (followState packet f.counted).dmaCount = f.dmaCount ∧
      (followState packet f.counted).calls = f.calls := by
  rw [followState, followLength]
  exact ⟨rfl, rfl, rfl, rfl, rfl⟩

theorem procPreCheck_of_ctrl {f g : Filter} (same : g.ctrl = f.ctrl)
    (enabled : f.procPreCheck = true) : g.procPreCheck = true := by
  rw [Filter.procPreCheck, same]
  exact enabled

/-- A chunk more at the end does not change where the section began. -/
theorem chunk_taken {from' : Nat} {first packet : Packet} {offset start : Nat}
    {g : Filter} {size : U32}
    (chunk : ∃ c ∈ g.record, c.start = true ∧ c.packet = first ∧
      c.offset = offset ∧ from' ≤ c.number ∧ c.number < g.dmaCount ∧
        ∀ r ∈ g.calls, ∀ d ∈ r.chunks, d.number < c.number) :
    ∃ c ∈ (g.taken packet start size .on false).record, c.start = true ∧
      c.packet = first ∧ c.offset = offset ∧ from' ≤ c.number ∧
        c.number < (g.taken packet start size .on false).dmaCount ∧
          ∀ r ∈ (g.taken packet start size .on false).calls, ∀ d ∈ r.chunks,
            d.number < c.number := by
  obtain ⟨c, inside, start', same, place, low, high, before⟩ := chunk
  exact ⟨c, List.mem_append_left _ inside, start', same, place, low,
    Nat.lt_succ_of_lt high, before⟩

/-- A packet that the section fills goes on gathering. -/
theorem Gathering.part (gathering : Gathering from' first offset got cc f)
    (piece : Piece packet got size rest sec) (safe : PieceSafe sec f packet)
    (matches' : MatchesBytes f.ptn sec) (version : ¬ ExcludedVersion f sec)
    (counter : pktCc packet = (cc + 1) &&& 0xF) (more : rest ≠ [])
    (calm : hw.dma f.dmaCount = ⟨false, false⟩)
    (pid : Option (BitVec 13)) (accepted : pktAccepted pid packet = true) :
    Gathering from' first offset (got ++ bytesAt packet (continuedAt packet) size)
      (pktCc packet) (procSection hw packet pid f) := by
  obtain ⟨length, rest', remaining, followed⟩ :=
    gathering.follow_eq hw piece safe matches' version counter
  obtain ⟨ctrl, current, crcBytes, dmaCount, calls⟩ := followState_kept packet f
  have full := piece.toEnd.resolve_left more
  have positive := List.length_pos_iff.mpr more
  rw [← dmaCount] at calm
  have dma := @secDma_calm hw packet (followState packet f.counted)
    (continuedAt packet) length .on false calm
  rw [if_neg (by omega)] at dma
  rw [dma] at followed
  have size' : (restOfPacket (continuedAt packet)).toNat = size := by
    rw [toNat_restOfPacket piece.fits_start]
    omega
  have noStart : pktPusi packet = false := by
    cases pusi : pktPusi packet with
    | false => rfl
    | true => exact absurd (piece.pointer pusi).1 more
  have done : procSection hw packet pid f = (followState packet f.counted).taken
      packet (continuedAt packet) (restOfPacket (continuedAt packet)) .on false := by
    simp only [procSection]
    rw [if_pos ⟨accepted, gathering.enabled⟩, followed, if_pos rfl,
      getSecFirstPacket, if_neg]
    rw [noStart]
    exact fun starts => Bool.noConfusion starts.1
  have inside := piece.fits
  rw [tsPacketSize] at inside
  have small : (restOfPacket (continuedAt packet)).toNat < 2 ^ 16 := by omega
  have bytes := @Filter.bytes_current_taken (followState packet f.counted) packet
    (continuedAt packet) (restOfPacket (continuedAt packet)) .on false small
  have lenWord : (followState packet f.counted).lenWord = f.lenWord :=
    congrArg Record.size current
  have record : (followState packet f.counted).record = f.record :=
    congrArg Record.chunks current
  rw [current, gathering.bytes_eq, size'] at bytes
  have count : (followState packet f.counted).lenWord.toNat = got.length := by
    rw [lenWord, ← gathering.bytes_eq]
    exact gathering.count
  have length' := piece.length
  have bound := sectionLength_le sec
  have stated := piece.length_eq
  have sum := @Filter.toNat_lenWord_taken (followState packet f.counted) packet
    (continuedAt packet) (restOfPacket (continuedAt packet)) .on false (by omega)
  have left := @Filter.toNat_rmn_taken (followState packet f.counted) packet
    (continuedAt packet) (restOfPacket (continuedAt packet)) .on false
    (by rw [remaining]; omega)
  rw [remaining, size'] at left
  rw [count, size'] at sum
  have header := safe.header
  rw [gathering.count, gathering.bytes_eq] at header
  rw [done]
  have chunk := gathering.chunk
  rw [← record, ← dmaCount, ← calls] at chunk
  refine ⟨chunk_taken chunk, bytes, ?_, ?_, .known ?_ ?_, ?_, ?_, ?_, .inl ?_, ?_⟩
  · rw [bytes, sum, List.length_append, length_bytesAt]
  · rw [Filter.crcBytes_taken_on small, size', crcBytes, gathering.crcBytes_eq]
  · omega
  · rw [bytes, sum, left, ← @sectionLength_of_header _ rest]
    · rw [← piece.whole]
      omega
    · rw [List.length_append, length_bytesAt]
      omega
  · intro none
    rw [none] at left
    change 0 = _ at left
    omega
  · change (f.pktContiCnt + 1) &&& 0xF = _
    rw [counter, ← gathering.counter, counter_add_one]
  · exact procPreCheck_of_ctrl ctrl gathering.enabled
  · exact followState_ptnByte packet f.counted
  · exact (later_followState packet f.counted).spare gathering.spare

/-- The packet with the last bytes of the section finishes it. -/
theorem Gathering.last (gathering : Gathering from' first offset got cc f)
    (piece : Piece packet got size [] sec) (safe : PieceSafe sec f packet)
    (matches' : MatchesBytes f.ptn sec) (version : ¬ ExcludedVersion f sec)
    (counter : pktCc packet = (cc + 1) &&& 0xF)
    (calm : hw.dma f.dmaCount = ⟨false, false⟩)
    (ends : hw.crc sec = 0 ∨ f.ctrl &&& modeCrcChk = 0)
    (pid : Option (BitVec 13)) (accepted : pktAccepted pid packet = true) :
    FinishedOnce (procSection hw packet pid f) from' first offset sec := by
  obtain ⟨length, rest, remaining, followed⟩ :=
    gathering.follow_eq hw piece safe matches' version counter
  obtain ⟨ctrl, current, crcBytes, dmaCount, calls⟩ := followState_kept packet f
  rw [← dmaCount] at calm
  rw [List.length_nil, Nat.add_zero] at rest
  have fits := piece.fits
  rw [← rest] at fits
  have dma := @secDma_calm hw packet (followState packet f.counted)
    (continuedAt packet) length .on false calm
  rw [if_pos fits] at dma
  rw [dma] at followed
  have small : length.toNat < 2 ^ 16 := by
    rw [tsPacketSize] at fits
    omega
  have bytes := @Filter.bytes_current_taken (followState packet f.counted) packet
    (continuedAt packet) length .on false small
  have lenWord : (followState packet f.counted).lenWord = f.lenWord :=
    congrArg Record.size current
  have record : (followState packet f.counted).record = f.record :=
    congrArg Record.chunks current
  have whole := piece.whole
  rw [List.append_nil] at whole
  rw [current, gathering.bytes_eq, rest, ← whole] at bytes
  have later : Later (secTail hw ((followState packet f.counted).taken packet
      (continuedAt packet) length .on false)) (procSection hw packet pid f) := by
    simp only [procSection]
    rw [if_pos ⟨accepted, gathering.enabled⟩, followed, if_pos rfl]
    exact later_getSecFirstPacket hw packet _ _
  have chunk := gathering.chunk
  rw [← record, ← dmaCount, ← calls] at chunk
  have begun := @chunk_taken from' first packet offset (continuedAt packet)
    (followState packet f.counted) length chunk
  have length' := piece.length
  have count := gathering.count
  rw [gathering.bytes_eq] at count
  have bound := sectionLength_le sec
  have stated := piece.length_eq
  apply finishedOnce_of_call begun bytes _ hw _ _ later
  · rw [Filter.toNat_lenWord_taken]
    · rw [lenWord, count, rest, length', List.length_nil, Nat.add_zero]
    · rw [lenWord]
      omega
  · apply BitVec.eq_of_toNat_eq
    rw [Filter.toNat_rmn_taken (by rw [remaining]), remaining, Nat.sub_self]
    rfl
  · rw [Filter.crcBytes_taken_on small, rest, crcBytes, gathering.crcBytes_eq, ← whole]
    refine ends.imp_right fun unchecked => ?_
    rw [← ctrl] at unchecked
    exact unchecked

end Piece

/-! ### The packets behind the first one -/

section Rest

variable {hw : Hw} {from' : Nat} {first packet : Packet} {offset : Nat}
  {got bytes sec : List U8} {cc : U32} {f g : Filter} {pid : Option (BitVec 13)}

theorem MatchesBytes.later (matches' : MatchesBytes f.ptn sec)
    (later : Later f g) : MatchesBytes g.ptn sec := by
  intro bit inside
  rw [bitOf, bitOf, later.mask_eq, later.pattern_eq]
  exact matches' bit inside

theorem ExcludedVersion.earlier (later : Later f g)
    (excluded : ExcludedVersion g sec) : ExcludedVersion f sec := by
  rw [ExcludedVersion, later.notVerEnable_eq, later.notVersion_eq] at excluded
  exact excluded

/-- A packet without payload changes nothing. -/
theorem procSection_of_no_payload (hw : Hw) (pid : Option (BitVec 13)) (f : Filter)
    (none : pktPayload packet = false) : procSection hw packet pid f = f := by
  have followed : getSecFollowPackets hw packet f = (true, 0, f) := by
    rw [getSecFollowPackets, if_neg]
    rw [none]
    exact fun continues => Bool.noConfusion continues.1
  simp only [procSection]
  split
  · rw [followed, if_pos rfl, getSecFirstPacket, if_neg]
    rw [none]
    exact fun starts => Bool.noConfusion starts.2
  · rfl

theorem Gathering.run {packets : List Packet}
    (carries : CarriesRest pid cc bytes packets)
    (gathering : Gathering from' first offset got cc f)
    (whole : sec = got ++ bytes) (length : sec.length = sectionLength sec)
    (matches' : MatchesBytes f.ptn sec) (version : ¬ ExcludedVersion f sec)
    (calm : ∀ n, f.dmaCount ≤ n → hw.dma n = ⟨false, false⟩)
    (ends : hw.crc sec = 0 ∨ f.ctrl &&& modeCrcChk = 0)
    (safe : Run.Meets (fun f packet => procSection hw packet pid f)
      (fun f packet => pktPayload packet = true → PieceSafe sec f packet)
      f packets) :
    FinishedOnce (packets.foldl (fun f packet => procSection hw packet pid f) f)
      from' first offset sec := by
  induction carries generalizing got f with
  | skip none rest inductionHypothesis =>
      have same := procSection_of_no_payload hw pid f none
      have later := safe.2
      change Run.Meets _ _ (procSection hw _ pid f) _ at later
      rw [same] at later
      rw [List.foldl_cons, same]
      exact inductionHypothesis gathering whole matches' version calm ends later
  | @part cc bytes packet packets accepted payload pusi counter inside more rest
      inductionHypothesis =>
      have piece : Piece packet got (tsPacketSize - continuedAt packet) bytes sec :=
        { whole := by rw [whole, List.append_assoc]
          length_eq := length
          payload := payload
          fits := Nat.le_of_eq (Nat.add_sub_of_le inside)
          toEnd := .inr (Nat.add_sub_of_le inside)
          some := .inr more
          pointer := fun starts => by
            rw [pusi] at starts
            cases starts }
      have next := gathering.part piece (safe.1 payload) matches' version counter
        more (calm _ (Nat.le_refl _)) pid accepted
      have later := later_procSection hw packet pid f
      rw [List.foldl_cons]
      apply inductionHypothesis next piece.whole (matches'.later later)
        (fun excluded => version (excluded.earlier later))
        (fun n least => calm n (Nat.le_trans later.dmaCount_le least)) _ safe.2
      rw [later.crcChk_eq]
      exact ends
  | @last cc packet size accepted payload pusi counter some fits =>
      have piece : Piece packet got size [] sec :=
        { whole := by rw [whole, List.append_nil]
          length_eq := length
          payload := payload
          fits := fits
          toEnd := .inl rfl
          some := .inl some
          pointer := fun starts => ⟨rfl, pusi starts⟩ }
      exact gathering.last piece (safe.1 payload) matches' version counter
        (calm _ (Nat.le_refl _)) ends pid accepted

end Rest

/-! ### The packet in which the section begins -/

section First

variable {hw : Hw} {first packet : Packet} {offset : Nat} {sec : List U8}
  {f g : Filter} {pid : Option (BitVec 13)} {packets : List Packet}

theorem patternMatchHead_fst_congr {s t : Pattern} (pattern : t.pattern = s.pattern)
    (mask : t.mask = s.mask) (packet : Packet) (offset : Nat) :
    (patternMatchHead packet offset t).1 = (patternMatchHead packet offset s).1 := by
  rw [patternMatchHead, patternMatchHead]
  split
  · rw [pattern, mask]
  · simp only [pattern, mask]

theorem headVersionDrop_later (later : Later f g) (packet : Packet) (offset : Nat) :
    headVersionDrop packet g offset = headVersionDrop packet f offset := by
  rw [headVersionDrop, headVersionDrop, later.notVerEnable_eq, later.notVersion_eq]

/-- The filter is idle, and enabled as long as the section needs it. -/
structure Ready (f : Filter) (packets : List Packet) (g : Filter) : Prop where
  later : Later f g
  idle : g.Idle
  enabled : packets = [] ∨ g.ctrl = f.ctrl

theorem Ready.revertFlt (later : Later f g) (enabled : g.ctrl = f.ctrl) :
    Ready f packets g.revertFlt :=
  ⟨later.trans (later_revertFlt g), g.idle_revertFlt, .inr enabled⟩

/-- The end of another section leaves the filter ready. -/
theorem Ready.secTail (hw : Hw) (later : Later f g) (complete : g.rmn = 0)
    (ctrl : packets = [] ∨ g.ctrl = f.ctrl)
    (repeated : packets = [] ∨ f.ctrl &&& modeOneshot = 0) :
    Ready f packets (secTail hw g) := by
  refine ⟨later.trans (later_secTail hw g), idle_secTail complete, ?_⟩
  rcases repeated with single | repeated
  · exact .inl single
  · apply ctrl.imp_right
    intro same
    rw [secTail_ctrl hw (by rw [same]; exact repeated), same]

/-- `_GetSecFollowPackets` leaves the filter ready and goes on. -/
theorem FirstSafe.followed (safe : FirstSafe f first offset packets sec)
    (carries : CarriesSection pid first offset packets sec)
    (calm : hw.dma f.dmaCount = ⟨false, false⟩) :
    (getSecFollowPackets hw first f).1 = true ∧
      Ready f packets (getSecFollowPackets hw first f).2.2 := by
  by_cases pending : f.rmn = 0
  · rw [getSecFollowPackets, if_neg fun continues => continues.2 pending]
    exact ⟨rfl, .refl f, safe.clean pending, .inr rfl⟩
  · have later := later_getSecFollowPackets hw first f
    rw [getSecFollowPackets, if_pos ⟨carries.payload, pending⟩] at later ⊢
    by_cases lost : pktCc first ≠ f.counted.pktContiCnt &&& 0xF
    · rw [if_pos lost] at later ⊢
      exact ⟨rfl, later, Filter.idle_revertFlt _, .inr rfl⟩
    · rw [if_neg lost] at later ⊢
      have sequence : InSequence f first :=
        ⟨carries.payload, pending, not_not.mp lost⟩
      rw [followSection] at later ⊢
      by_cases cut : CutShort first f.counted
      · rw [if_pos cut] at later ⊢
        exact ⟨rfl, later, Filter.idle_revertFlt _, .inr rfl⟩
      · rw [if_neg cut] at later ⊢
        by_cases kept : (followPattern first f.counted (continuedAt first)).1 = true
        · have ends := (safe.follow sequence).2 cut kept
          have small : (splitLength first f (continuedAt first)).toNat < 2 ^ 16 := by
            have fits := ends.1
            rw [tsPacketSize] at fits
            omega
          have remaining : (followState first f.counted).rmn =
              splitLength first f (continuedAt first) := Filter.rmn_setRmn small
          obtain ⟨ctrl, -, -, dmaCount, -⟩ := followState_kept first f
          rw [← dmaCount] at calm
          have dma := @secDma_calm hw first (followState first f.counted)
            (continuedAt first) (splitLength first f (continuedAt first)) .on false
            calm
          rw [if_pos ends.1] at dma
          rw [if_pos kept, remaining, dma]
          refine ⟨rfl, Ready.secTail hw ?_ ?_ (.inr ctrl) ends.2⟩
          · exact ((later_counted f).trans (later_followState first _)).trans
              (later_taken _ _ _ _ _ _)
          · apply BitVec.eq_of_toNat_eq
            rw [Filter.toNat_rmn_taken (by rw [remaining]), remaining, Nat.sub_self]
            rfl
        · rw [if_neg kept] at later ⊢
          exact ⟨rfl, later, Filter.idle_revertFlt _, .inr rfl⟩

/-- A section in front of the one looked for does no harm. -/
theorem FirstSafe.turn {earlier : Nat} (safe : FirstSafe f first offset packets sec)
    (ready : Ready f packets g) (starts : SectionStart first earlier)
    (before : earlier < offset) (inside : offset < tsPacketSize)
    (ends : earlier + (firstLength first earlier).toNat ≤ offset)
    (calm : ∀ n, f.dmaCount ≤ n → hw.dma n = ⟨false, false⟩) :
    ∃ next, secTurn hw first g earlier = .next next ∧ Ready f packets next := by
  have congr := patternMatchHead_fst_congr ready.later.pattern_eq
    ready.later.mask_eq first earlier
  simp only [secTurn]
  by_cases matched : (patternMatchHead first earlier g.ptn).1 = true
  · have harmless := safe.turns earlier starts before (by rw [← congr]; exact matched)
    have keeps := headVersionDrop_later ready.later first earlier
    rw [harmless.1] at keeps
    have dma := @secDma_calm hw first (firstState first g earlier) earlier
      (firstLength first earlier) .restart true (calm _ ready.later.dmaCount_le)
    rw [if_pos (by omega)] at dma
    rw [if_pos matched, keeps, if_neg Bool.false_ne_true, dma, if_pos rfl]
    refine ⟨_, rfl, Ready.secTail hw ?_ ?_ ready.enabled harmless.2⟩
    · exact (ready.later.trans (later_firstState first g earlier)).trans
        (later_taken _ _ _ _ _ _)
    · have remaining : (firstState first g earlier).rmn =
          firstLength first earlier := Filter.rmn_setRmn (firstLength_lt _ _)
      apply BitVec.eq_of_toNat_eq
      rw [Filter.toNat_rmn_taken (by rw [remaining]), remaining, Nat.sub_self]
      rfl
  · rw [if_neg matched]
    refine ⟨_, rfl, ?_, ⟨ready.idle.rmn_eq, ready.idle.lenWord_eq,
      ready.idle.record_eq⟩, ready.enabled⟩
    exact (ready.later.trans (later_headState first g earlier)).trans
      (.of_eq rfl rfl id rfl rfl rfl rfl rfl (.inl rfl))

theorem cacheByte_ne (used : packet offset ≠ 0xFF) :
    cacheByte packet offset ≠ 0xFF := by
  intro stuffing
  apply used
  have same := congrArg BitVec.toNat stuffing
  rw [toNat_cacheByte] at same
  exact BitVec.eq_of_toNat_eq same

/-- The loop comes to the section. -/
theorem FirstSafe.reaches (safe : FirstSafe f first offset packets sec)
    (starts : SectionStart first offset) (inside : offset < tsPacketSize)
    (calm : ∀ n, f.dmaCount ≤ n → hw.dma n = ⟨false, false⟩)
    (ready : Ready f packets g) :
    ∃ turns next, tsPacketSize ≤ turns + offset ∧ Ready f packets next ∧
      secLoop hw first tsPacketSize g
          (payloadOffset first 0 + 1 + pointerField first) =
        secLoop hw first turns next offset := by
  have upTo : ∀ here, SectionStart first here → here ≤ offset →
      ∃ turns next, tsPacketSize ≤ turns + here ∧ Ready f packets next ∧
        secLoop hw first tsPacketSize g
            (payloadOffset first 0 + 1 + pointerField first) =
          secLoop hw first turns next here := by
    intro here start
    induction start with
    | pointed pusi payload =>
        intro _
        exact ⟨tsPacketSize, g, Nat.le_add_right _ _, ready, rfl⟩
    | @behind earlier before header used inductionHypothesis =>
        intro within
        obtain ⟨turns, next, enough, nextReady, same⟩ :=
          inductionHypothesis (by omega)
        have length := @toNat_firstLength first earlier header
        obtain ⟨after, turn, afterReady⟩ := safe.turn nextReady before (by omega)
          inside (by omega) calm
        obtain ⟨left, rfl⟩ : ∃ left, turns = left + 1 := ⟨turns - 1, by omega⟩
        refine ⟨left, after, by omega, afterReady, ?_⟩
        have goes : earlier < tsPacketSize ∧ cacheByte first earlier ≠ 0xFF :=
          ⟨by omega, cacheByte_ne used⟩
        rw [same, secLoop, if_pos goes, turn, ← length]
  exact upTo offset starts (Nat.le_refl _)

/-- Behind the packet the loop ends. -/
theorem secLoop_beyond (hw : Hw) (packet : Packet) (turns : Nat) (f : Filter)
    {offset : Nat} (beyond : tsPacketSize ≤ offset) :
    secLoop hw packet turns f offset = (true, f) := by
  cases turns with
  | zero => rfl
  | succ turns =>
      rw [secLoop, if_neg]
      exact fun goes => Nat.not_lt_of_le beyond goes.1

theorem CarriesSection.shows
    (carries : CarriesSection pid first offset packets sec) :
    ShowsBytes first sec offset 0 := by
  intro i present inside
  rw [Nat.zero_add] at present ⊢
  rcases carries.carried with ⟨-, -, whole⟩ | ⟨bytes, -, -, whole⟩
  · rw [whole, List.getD_eq_getElem?_getD, getElem?_bytesAt present]
    rfl
  · have small : i < tsPacketSize - offset := by omega
    rw [whole, List.getD_eq_getElem?_getD,
      List.getElem?_append_left (by rw [length_bytesAt]; exact small),
      getElem?_bytesAt small]
    rfl

/-- The length that the firmware reads where the packet has it. -/
theorem firstLength_eq_of_shows (shows' : ShowsBytes first sec offset 0)
    (length : sec.length = sectionLength sec) (header : offset + 2 < tsPacketSize) :
    (firstLength first offset).toNat = sec.length := by
  have three := three_le_sectionLength sec
  have high := shows' 1 (by omega) (by omega)
  have low := shows' 2 (by omega) (by omega)
  rw [toNat_firstLength header, length, sectionLength, high, low]

/-- The section is not taken for one of the excluded version. -/
theorem FirstSafe.version_kept (safe : FirstSafe f first offset packets sec)
    (carries : CarriesSection pid first offset packets sec)
    (version : ¬ ExcludedVersion f sec) :
    headVersionDrop first f offset = false := by
  by_cases short : sec.length ≤ 5
  · exact safe.version short
  · rw [← Bool.not_eq_true, headVersionDrop_iff]
    intro drop
    apply version
    have shows' := carries.shows 5 (by omega) (by omega)
    rw [Nat.zero_add] at shows'
    rw [ExcludedVersion, ← shows']
    exact ⟨drop.1, by omega, drop.2.2⟩

/-- The packet in which the section begins takes its first bytes. -/
theorem FirstSafe.takes (safe : FirstSafe f first offset packets sec)
    (carries : CarriesSection pid first offset packets sec)
    (calm : ∀ n, f.dmaCount ≤ n → hw.dma n = ⟨false, false⟩)
    (matches' : MatchesBytes f.ptn sec) (version : ¬ ExcludedVersion f sec) :
    ∃ turns g, Ready f packets g ∧
      procSection hw first pid f =
        if offset + (firstLength first offset).toNat ≤ tsPacketSize then
          (secLoop hw first turns (secTail hw ((firstState first g offset).taken
            first offset (firstLength first offset) .restart true))
            (offset + (firstLength first offset).toNat)).2
        else
          (firstState first g offset).taken first offset (restOfPacket offset)
            .restart true := by
  have inside := carries.inside
  obtain ⟨goesOn, ready⟩ := safe.followed carries (calm _ (Nat.le_refl _))
  have window := followWindow_safe hw fun sequence => (safe.follow sequence).1
  obtain ⟨turns, g, enough, gReady, same⟩ :=
    safe.reaches carries.starts inside calm ready
  obtain ⟨left, rfl⟩ : ∃ left, turns = left + 1 := ⟨turns - 1, by omega⟩
  refine ⟨left, g, gReady, ?_⟩
  have goes : offset < tsPacketSize ∧ cacheByte first offset ≠ 0xFF :=
    ⟨inside, cacheByte_ne carries.used⟩
  have head := head_of_matches (matches'.later gReady.later) carries.shows inside
  have kept := headVersionDrop_later gReady.later first offset
  rw [safe.version_kept carries version] at kept
  have dma := @secDma_calm hw first (firstState first g offset) offset
    (firstLength first offset) .restart true (calm _ gReady.later.dmaCount_le)
  simp only [procSection]
  rw [if_pos ⟨carries.accepted, safe.enabled⟩, if_pos goesOn, getSecFirstPacket,
    if_pos ⟨carries.pusi, carries.payload⟩, firstOffset_eq window, same, secLoop,
    if_pos goes]
  simp only [secTurn]
  rw [if_pos head, kept, if_neg Bool.false_ne_true, dma, if_pos rfl]
  by_cases tail : offset + (firstLength first offset).toNat ≤ tsPacketSize
  · rw [if_pos tail, if_pos tail]
  · rw [if_neg tail, if_neg tail]
    simp only
    rw [secLoop_beyond hw first left _ (by omega)]

/-- A section that lies in one packet is finished there. -/
theorem FirstSafe.single (safe : FirstSafe f first offset [] sec)
    (carries : CarriesSection pid first offset [] sec)
    (fits : offset + sec.length ≤ tsPacketSize)
    (whole : sec = bytesAt first offset sec.length) (numbered : Numbered f)
    (calm : ∀ n, f.dmaCount ≤ n → hw.dma n = ⟨false, false⟩)
    (matches' : MatchesBytes f.ptn sec) (version : ¬ ExcludedVersion f sec)
    (ends : hw.crc sec = 0 ∨ f.ctrl &&& modeCrcChk = 0) :
    FinishedOnce (procSection hw first pid f) f.dmaCount first offset sec := by
  obtain ⟨turns, g, ready, done⟩ := safe.takes carries calm matches' version
  have three := three_le_sectionLength sec
  have stated := carries.length_eq
  have length := firstLength_eq_of_shows carries.shows carries.length_eq (by omega)
  rw [if_pos (by omega)] at done
  have small := firstLength_lt first offset
  have numbers := numbered.later ready.later
  have remaining : (firstState first g offset).rmn = firstLength first offset :=
    Filter.rmn_setRmn small
  have none : (firstState first g offset).record = [] := ready.idle.record_eq
  have empty : (firstState first g offset).current.bytes = [] := by
    rw [Filter.current, Record.bytes, none]
    rfl
  have zero : (firstState first g offset).lenWord.toNat = 0 := by
    change g.lenWord.toNat = 0
    rw [ready.idle.lenWord_eq]
    rfl
  have later := later_secLoop hw first turns
    (secTail hw ((firstState first g offset).taken first offset
      (firstLength first offset) .restart true))
    (offset + (firstLength first offset).toNat)
  rw [← done] at later
  apply finishedOnce_of_call _ _ _ hw _ _ later
  · refine ⟨⟨g.dmaCount, true, first, offset, (firstLength first offset).toNat⟩,
      ?_, rfl, rfl, rfl, ready.later.dmaCount_le, Nat.lt_succ_self _, ?_⟩
    · rw [Filter.taken_record small, none]
      exact List.mem_singleton_self _
    · intro r member d inside
      exact numbers d (.inr ⟨r, member, inside⟩)
  · rw [Filter.bytes_current_taken small, empty, List.nil_append, length, ← whole]
  · rw [Filter.toNat_lenWord_taken (by omega), zero, Nat.zero_add, length]
  · apply BitVec.eq_of_toNat_eq
    rw [Filter.toNat_rmn_taken (by rw [remaining]), remaining, Nat.sub_self]
    rfl
  · rw [Filter.crcBytes_taken_restart small, length, ← whole]
    change _ ∨ g.ctrl &&& modeCrcChk = 0
    rw [ready.later.crcChk_eq]
    exact ends

/-- A section that goes beyond its first packet is gathered there. -/
theorem FirstSafe.gathers {bytes : List U8}
    (safe : FirstSafe f first offset packets sec)
    (carries : CarriesSection pid first offset packets sec)
    (whole : sec = bytesAt first offset (tsPacketSize - offset) ++ bytes)
    (more : bytes ≠ []) (some : packets ≠ []) (numbered : Numbered f)
    (spare : Spare f.ptn)
    (calm : ∀ n, f.dmaCount ≤ n → hw.dma n = ⟨false, false⟩)
    (matches' : MatchesBytes f.ptn sec) (version : ¬ ExcludedVersion f sec) :
    Gathering f.dmaCount first offset
      (bytesAt first offset (tsPacketSize - offset)) (pktCc first)
      (procSection hw first pid f) := by
  obtain ⟨turns, g, ready, done⟩ := safe.takes carries calm matches' version
  have inside := carries.inside
  have positive := List.length_pos_iff.mpr more
  have total := congrArg List.length whole
  rw [List.length_append, length_bytesAt] at total
  have beyond : tsPacketSize < offset + (firstLength first offset).toNat := by
    by_cases header : offset + 2 < tsPacketSize
    · rw [firstLength_eq_of_shows carries.shows carries.length_eq header]
      omega
    · rw [firstLength_of_split header inside]
      rw [tsPacketSize] at header ⊢
      exact Nat.lt_add_left offset (by decide)
  rw [if_neg (by omega)] at done
  have long := firstLength_lt first offset
  have numbers := numbered.later ready.later
  have size := toNat_restOfPacket (Nat.le_of_lt inside)
  have small : (restOfPacket offset).toNat < 2 ^ 16 := by
    rw [size, tsPacketSize]
    omega
  have remaining : (firstState first g offset).rmn = firstLength first offset :=
    Filter.rmn_setRmn long
  have none : (firstState first g offset).record = [] := ready.idle.record_eq
  have empty : (firstState first g offset).current.bytes = [] := by
    rw [Filter.current, Record.bytes, none]
    rfl
  have zero : (firstState first g offset).lenWord.toNat = 0 := by
    change g.lenWord.toNat = 0
    rw [ready.idle.lenWord_eq]
    rfl
  have bytes' := @Filter.bytes_current_taken (firstState first g offset) first
    offset (restOfPacket offset) .restart true small
  have sum := @Filter.toNat_lenWord_taken (firstState first g offset) first offset
    (restOfPacket offset) .restart true (by omega)
  have left := @Filter.toNat_rmn_taken (firstState first g offset) first offset
    (restOfPacket offset) .restart true (by rw [remaining]; omega)
  rw [empty, List.nil_append, size] at bytes'
  rw [zero, Nat.zero_add, size] at sum
  rw [remaining, size] at left
  have head := head_of_matches (matches'.later ready.later) carries.shows inside
  have kept := head_ptnByte head inside
  rw [done]
  refine ⟨?_, bytes', ?_, ?_, ?_, ?_, counter_mask first, ?_, ?_, ?_⟩
  · refine ⟨⟨g.dmaCount, true, first, offset, (restOfPacket offset).toNat⟩,
      ?_, rfl, rfl, rfl, ready.later.dmaCount_le, Nat.lt_succ_self _, ?_⟩
    · rw [Filter.taken_record small, none]
      exact List.mem_singleton_self _
    · intro r member d inside
      exact numbers d (.inr ⟨r, member, inside⟩)
  · rw [bytes', length_bytesAt]
    exact sum
  · rw [Filter.crcBytes_taken_restart small, size]
  · exact @header_first first g offset _ inside beyond bytes' sum left rfl rfl
  · intro ended
    rw [ended] at left
    change 0 = _ at left
    omega
  · exact procPreCheck_of_ctrl (ready.enabled.resolve_left some) safe.enabled
  · change (patternMatchHead first offset g.ptn).2.ptnByte = 0 ∨
      (patternMatchHead first offset g.ptn).2.ptnByte = _ ∧ _
    rw [kept, length_bytesAt]
    split
    · exact .inl rfl
    · exact .inr ⟨rfl, by omega⟩
  · exact (ready.later.trans (later_firstState first g offset)).spare spare

end First

/-- Every matching section of a wanted version is finished once and as it is,
whatever came before, in every run of packets that meets the conditions. -/
theorem section_assembled (hw : Hw) (pid : Option (BitVec 13)) (start : Filter)
    (idle : start.Idle) (noCalls : start.calls = []) (spare : Spare start.ptn)
    (earlier : List Packet) (f : Filter)
    (reached : f = earlier.foldl (fun f packet => procSection hw packet pid f) start)
    (first : Packet) (offset : Nat) (packets : List Packet) (sec : List U8)
    (carries : CarriesSection pid first offset packets sec)
    (matches' : MatchesBytes f.ptn sec) (version : ¬ ExcludedVersion f sec)
    (ends : hw.crc sec = 0 ∨ f.ctrl &&& modeCrcChk = 0)
    (calm : ∀ n, f.dmaCount ≤ n → hw.dma n = ⟨false, false⟩)
    (safeFirst : FirstSafe f first offset packets sec)
    (safeRest : Run.Meets (fun f packet => procSection hw packet pid f)
      (fun f packet => pktPayload packet = true → PieceSafe sec f packet)
      (procSection hw first pid f) packets) :
    FinishedOnce ((first :: packets).foldl
        (fun f packet => procSection hw packet pid f) f)
      f.dmaCount first offset sec := by
  have later : Later start f := by
    rw [reached]
    exact later_packets hw pid start earlier
  have numbered : Numbered f := by
    apply Numbered.later _ later
    intro c there
    rcases there with here | ⟨r, none, -⟩
    · rw [idle.record_eq] at here
      cases here
    · rw [noCalls] at none
      cases none
  rw [List.foldl_cons]
  rcases carries.carried with ⟨fits, single, whole⟩ | ⟨bytes, more, rest, whole⟩
  · subst single
    exact safeFirst.single carries fits whole numbered calm matches' version ends
  · have some : packets ≠ [] := by
      intro none
      rw [none] at rest
      cases rest
    have gathering := safeFirst.gathers carries whole more some numbered
      (later.spare spare) calm matches' version
    have step := later_procSection hw first pid f
    apply Gathering.run rest gathering whole carries.length_eq
      (matches'.later step) (fun excluded => version (excluded.earlier step))
      (fun n least => calm n (Nat.le_trans step.dmaCount_le least)) _ safeRest
    rw [step.crcChk_eq]
    exact ends

/-! ### Two runs -/

/-- No section begins before the place that the pointer field points to. -/
theorem SectionStart.pointed_le {packet : Packet} {offset : Nat}
    (starts : SectionStart packet offset) :
    payloadOffset packet 0 + 1 + pointerField packet ≤ offset := by
  induction starts with
  | pointed => exact Nat.le_refl _
  | behind _ _ _ inductionHypothesis => omega

/-- A filter that compares the `table_id`, here 0x42. -/
def tableFilter : Filter :=
  { openFilter with
    ptn := ⟨fun _ => 0x42, fun i => if i = 0 then 0xFFFFFF00 else 0xFFFFFFFF, 0,
      fun _ => 0xFFFFFFFF, fun _ => 0⟩ }

/-- A section of twelve bytes and version 4. -/
def wantedSection : List U8 :=
  [0x42, 0xB0, 0x09, 0x00, 0x01, 0xC9, 0x00, 0x00, 0xE8, 0x44, 0x1B, 0xF9]

/-- Its first byte is the last one of a packet. -/
def splitFirst : Packet :=
  stuffedPacket [0x47, 0x40, 0x00, 0x10, 0xB6] 187 (wantedSection.take 1)

/-- The rest of it. -/
def splitSecond : Packet :=
  stuffedPacket [0x47, 0x00, 0x00, 0x11] 4 (wantedSection.drop 1)

theorem carries_split :
    CarriesSection none splitFirst 187 [splitSecond] wantedSection where
  accepted := by decide
  pusi := by decide
  payload := by decide
  starts := .pointed (by decide) (by decide)
  inside := by decide
  used := by decide
  length_eq := by decide
  carried := by
    refine .inr ⟨bytesAt splitSecond 4 11, by decide, ?_, by decide⟩
    exact .last (by decide) (by decide) (by decide) (by decide) (by decide)
      (by decide)

theorem firstSafe_split :
    FirstSafe tableFilter splitFirst 187 [splitSecond] wantedSection where
  enabled := by decide
  clean := fun _ => ⟨by decide, rfl, rfl⟩
  follow := fun sequence => absurd sequence.2.1 (by decide)
  turns := fun earlier starts before => by
    have least := starts.pointed_le
    have pointed : payloadOffset splitFirst 0 + 1 + pointerField splitFirst = 187 := by
      decide
    omega
  version := fun short => absurd short (by decide)

theorem pieceSafe_split :
    PieceSafe wantedSection (procSection calmHw splitFirst none tableFilter)
      splitSecond := by
  have byte : (procSection calmHw splitFirst none tableFilter).ptn.ptnByte = 1 := by
    decide +kernel
  have later := later_procSection calmHw splitFirst none tableFilter
  constructor
  · decide +kernel
  · exact fun _ => by decide +kernel
  · intro _ bit low inside
    rw [byte] at low
    apply Or.inl
    rw [bitOf, later.mask_eq]
    change BitVec.getLsbD (if bit / 32 = 0 then 0xFFFFFF00 else 0xFFFFFFFF) _ = true
    interval_cases bit <;> rfl
  · intro _ aligned
    rw [byte] at aligned
    exact absurd aligned (by decide)
  · intro checked
    rw [later.notVerEnable_eq] at checked
    exact absurd checked (by decide)

theorem section_assembled_split :
    FinishedOnce ([splitFirst, splitSecond].foldl
        (fun f packet => procSection calmHw packet none f) tableFilter)
      0 splitFirst 187 wantedSection :=
  section_assembled calmHw none tableFilter ⟨by decide, rfl, rfl⟩ rfl
    (fun _ _ _ => rfl) [] tableFilter rfl splitFirst 187 [splitSecond] wantedSection
    carries_split (by unfold MatchesBytes; decide +kernel)
    (fun excluded => absurd excluded.1 (by decide)) (.inl (by decide +kernel))
    (fun _ _ => rfl) firstSafe_split ⟨fun _ => pieceSafe_split, trivial⟩

/-- The filter takes all versions of all sections but one. -/
def versionFilter : Filter :=
  { openFilter with notVerEnable := true, notVersion := 3 }

/-- A section of the excluded version, and behind it a wanted one. -/
def bothVersions : Packet :=
  stuffedPacket [0x47, 0x40, 0x00, 0x10, 0x00] 5
    ([0x42, 0xB0, 0x09, 0x00, 0x01, 0xC7, 0x00, 0x00, 0xE2, 0x52, 0x94, 0xD3] ++
      wantedSection)

theorem carries_bothVersions :
    CarriesSection none bothVersions 17 [] wantedSection where
  accepted := by decide
  pusi := by decide
  payload := by decide
  starts := .behind (.pointed (by decide) (by decide)) (by decide) (by decide)
  inside := by decide
  used := by decide
  length_eq := by decide
  carried := .inl ⟨by decide, rfl, by decide⟩

/-- The excluded version takes the wanted section with it. -/
theorem later_section_lost :
    versionFilter.Idle ∧ versionFilter.calls = [] ∧ Spare versionFilter.ptn ∧
      CarriesSection none bothVersions 17 [] wantedSection ∧
      MatchesBytes versionFilter.ptn wantedSection ∧
      ¬ ExcludedVersion versionFilter wantedSection ∧
      calmHw.crc wantedSection = 0 ∧
      (∀ n, calmHw.dma n = ⟨false, false⟩) ∧
      ¬ FinishedOnce (procSection calmHw bothVersions none versionFilter) 0
        bothVersions 17 wantedSection := by
  refine ⟨⟨by decide, rfl, rfl⟩, rfl, fun _ _ _ => rfl, carries_bothVersions,
    by unfold MatchesBytes; decide +kernel, ?_, by decide +kernel, fun _ => rfl, ?_⟩
  · intro excluded
    exact absurd excluded.2.2 (by decide)
  · have none : (procSection calmHw bothVersions none versionFilter).calls.length =
        0 := by
      decide +kernel
    intro finished
    obtain ⟨r, -, -, -, -, -, -, -, -, before, after, calls, -⟩ := finished
    rw [calls, List.length_append, List.length_cons] at none
    omega

end Gp2Firmware.Tsp
