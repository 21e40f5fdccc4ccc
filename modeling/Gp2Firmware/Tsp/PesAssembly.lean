import Gp2Firmware.Lib.Run
import Gp2Firmware.Tsp.Pes
import Gp2Firmware.Tsp.SectionRecords
import Gp2Firmware.Tsp.SplitBytes

/-!
# PES packets are assembled completely

A matching PES packet of bounded length is delivered once and as it is.  The
request count in the upper half of `RmnReqCnt` survives this if and only if
nothing is borrowed from it, that is, if the length fits into the lower half.
-/

namespace Gp2Firmware.Tsp

/-! ### A PES packet on its way -/

/-- The packets carry the rest of a PES packet of which some bytes are known.
They do not start anything else, and the first one completes the header. -/
inductive CarriesPesRest (pid : Option (BitVec 13)) :
    Nat → List U8 → List Packet → Prop
  | skip {got : Nat} {bytes : List U8} {packet : Packet} {packets : List Packet}
      (payload : pktPayload packet = false)
      (rest : CarriesPesRest pid got bytes packets) :
      CarriesPesRest pid got bytes (packet :: packets)
  | part {got : Nat} {bytes : List U8} {packet : Packet} {packets : List Packet}
      (accepted : pktAccepted pid packet = true)
      (payload : pktPayload packet = true) (pusi : pktPusi packet = false)
      (inside : payloadOffset packet 0 ≤ tsPacketSize)
      (header : 6 ≤ got + (tsPacketSize - payloadOffset packet 0))
      (more : bytes ≠ [])
      (rest : CarriesPesRest pid (got + (tsPacketSize - payloadOffset packet 0))
        bytes packets) :
      CarriesPesRest pid got
        (bytesAt packet (payloadOffset packet 0)
          (tsPacketSize - payloadOffset packet 0) ++ bytes) (packet :: packets)
  | last {got : Nat} {packet : Packet} {size : Nat}
      (accepted : pktAccepted pid packet = true)
      (payload : pktPayload packet = true) (pusi : pktPusi packet = false)
      (some : size ≠ 0) (fits : payloadOffset packet 0 + size ≤ tsPacketSize) :
      CarriesPesRest pid got (bytesAt packet (payloadOffset packet 0) size) [packet]

/-- A PES packet of bounded length begins in a packet and ends in it, or in the
last of the packets behind it. -/
structure CarriesPes (pid : Option (BitVec 13)) (first : Packet)
    (packets : List Packet) (pes : List U8) : Prop where
  accepted : pktAccepted pid first = true
  pusi : pktPusi first = true
  payload : pktPayload first = true
  inside : payloadOffset first 0 < tsPacketSize
  bounded : 6 < pes.length
  length_eq : pes.length = 6 + bigEndian (pes.getD 4 0) (pes.getD 5 0)
  carried : payloadOffset first 0 + pes.length ≤ tsPacketSize ∧ packets = [] ∧
      pes = bytesAt first (payloadOffset first 0) pes.length ∨
    ∃ bytes, bytes ≠ [] ∧
      CarriesPesRest pid (tsPacketSize - payloadOffset first 0) bytes packets ∧
      pes = bytesAt first (payloadOffset first 0)
        (tsPacketSize - payloadOffset first 0) ++ bytes

/-- One record is delivered, which is the PES packet, and the request count is
the same. -/
structure PesDelivered (f g : Filter) (pes : List U8) : Prop where
  record : ∃ r, g.delivered = f.delivered ++ [r] ∧ r.size.toNat = pes.length ∧
    r.bytes = pes
  reqCnt_eq : g.reqCnt = f.reqCnt

/-! ### The conditions -/

/-- The write pointer behind a record of a size. -/
def Filter.writeBehind (f : Filter) (size : Nat) : Nat :=
  let next := f.bufPtr + 4 + size
  if f.bufEnd ≤ next then next - (f.bufEnd - f.bufStart) else next

/-- Behind a record of a size there is room for the next header. -/
def Filter.HasRoom (f : Filter) (size : Nat) : Prop :=
  ¬ (f.writeBehind size < f.bufRead ∧ f.bufRead < f.writeBehind size + 8)

instance (f : Filter) (size : Nat) : Decidable (f.HasRoom size) :=
  inferInstanceAs (Decidable (¬ _))

/-- What is compared of the rest of a split pattern lies in the packet and is not
mixed by the shift. -/
structure RestVisible (s : Pattern) (packet : Packet) : Prop where
  visible : s.ptnByte ≠ 0 → ∀ bit, 8 * s.ptnByte ≤ bit → bit < 128 →
    bitOf s.mask bit = true ∨
      payloadOffset packet 0 + (bit / 8 - s.ptnByte) < tsPacketSize
  unmixed : s.ptnByte ≠ 0 → s.ptnByte % 4 = 0 → Unmixed s s.ptnByte

/-- The header bytes in the first packet, when it ends within the header. -/
def brokenBytes (first : Packet) : Nat :=
  if 182 < payloadOffset first 0 then tsPacketSize - payloadOffset first 0 else 0

/-- The length that is put into the lower half of `RmnReqCnt` fits: the whole
size, or the size without the header bytes of the first packet when the header is
broken. -/
def LengthFits (first : Packet) (pes : List U8) : Prop :=
  pes.length - brokenBytes first < 2 ^ 16

/-! ### The two halves of `RmnReqCnt` -/

section Halves

variable {f : Filter} {size : U32}

/-- The request count after a length was cut to sixteen bits and parts of it
subtracted: one less if it did not fit. -/
def reqAfter (req length : Nat) : Nat :=
  if length < 2 ^ 16 then req else (req + (2 ^ 16 - 1)) % 2 ^ 16

theorem reqAfter_eq_iff {req length : Nat} :
    reqAfter req length = req ↔ length < 2 ^ 16 := by
  rw [reqAfter]
  split
  · rename_i fits
    exact iff_of_true rfl fits
  · rename_i long
    exact iff_of_false (by omega) long

theorem reqCnt_revertFlt (f : Filter) : f.revertFlt.reqCnt = f.reqCnt := by
  change (f.rmnReqCnt &&& ~~~rmnCntMask).toNat / 2 ^ 16 = _
  rw [Filter.toNat_clearRmn, Nat.mul_div_cancel_left _ (by decide)]
  rfl

theorem toNat_masked (word : U32) : (word &&& rmnCntMask).toNat =
    word.toNat % 2 ^ 16 := by
  rw [BitVec.toNat_and]
  exact Nat.and_two_pow_sub_one_eq_mod word.toNat 16

/-- The first part of a length that was cut to sixteen bits is subtracted. -/
theorem account_masked {req length : Nat}
    (word : f.rmnReqCnt.toNat = 2 ^ 16 * req + length % 2 ^ 16)
    (fits : size.toNat ≤ length) (left : length - size.toNat < 2 ^ 16)
    (long : length < 2 ^ 16 ∨ length - 2 ^ 16 < size.toNat)
    (bound : length < 2 ^ 17) :
    (f.account size).rmn.toNat = length - size.toNat ∧
      (f.account size).reqCnt = reqAfter req length := by
  have small := f.rmnReqCnt.isLt
  have sub : (f.account size).rmnReqCnt.toNat =
      (2 ^ 32 - size.toNat + f.rmnReqCnt.toNat) % 2 ^ 32 := by
    change (f.rmnReqCnt - size).toNat = _
    exact BitVec.toNat_sub _ _
  rw [Filter.toNat_rmn, Filter.reqCnt, reqAfter, sub, word]
  split
  · omega
  · omega

end Halves

/-! ### The state while a PES packet is gathered -/

/-- The filter holds the first bytes of a PES packet, and the rest is as before. -/
structure PesState (f : Filter) (got : List U8) (g : Filter) : Prop where
  delivered_eq : g.delivered = f.delivered
  bytes_eq : g.current.bytes = got
  count : g.lenWord.toNat = got.length
  enabled : g.procPreCheck = true
  pattern_eq : g.ptn.pattern = f.ptn.pattern
  mask_eq : g.ptn.mask = f.ptn.mask
  spare : Spare g.ptn
  room_iff : ∀ size, g.HasRoom size ↔ f.HasRoom size
  dmaCount_le : f.dmaCount ≤ g.dmaCount

/-- What of the header is known: the remaining length and the request count, or
how many bytes there are. -/
inductive PesHeader (got : List U8) (left req : Nat) (g : Filter) : Prop
  | known (six : 6 ≤ got.length) (byte : g.secByte = 0)
      (bounded : g.dataSize ≠ vpesSizeMax) (remaining : g.rmn.toNat = left)
      (word : g.reqCnt = req)
  | broken (some : 1 ≤ got.length) (few : got.length ≤ 5)
      (byte : g.secByte.toNat = got.length) (pending : g.rmn ≠ 0)
      (kept : got.length = 5 → g.secLenData = (got.getD 4 0).setWidth 32)
      (word : reqAfter g.reqCnt left = req)

/-- The end of a PES packet: it is delivered where there is room behind it. -/
structure PesEnd (f : Filter) (pes : List U8) (req : Nat) (g : Filter) : Prop where
  record : f.HasRoom pes.length →
    ∃ r, g.delivered = f.delivered ++ [r] ∧ r.size.toNat = pes.length ∧ r.bytes = pes
  dropped : ¬ f.HasRoom pes.length → g.delivered = f.delivered
  reqCnt_eq : g.reqCnt = req

section State

variable {hw : Hw} {f g : Filter} {got pes : List U8} {packet : Packet}
  {offset req : Nat} {size length : U32} {start : Bool}

/-- A DMA adds the bytes that it takes. -/
theorem PesState.taken (state : PesState f got g) (small : size.toNat < 2 ^ 16)
    (short : got.length < 2 ^ 31) :
    PesState f (got ++ bytesAt packet offset size.toNat)
      (g.taken packet offset size .off start) where
  delivered_eq := state.delivered_eq
  bytes_eq := by rw [Filter.bytes_current_taken small, state.bytes_eq]
  count := by
    have count := state.count
    rw [Filter.toNat_lenWord_taken (by omega), count, List.length_append,
      length_bytesAt]
  enabled := state.enabled
  pattern_eq := state.pattern_eq
  mask_eq := state.mask_eq
  spare := state.spare
  room_iff := state.room_iff
  dmaCount_le := Nat.le_succ_of_le state.dmaCount_le

/-- Where there is room behind it, a record is delivered. -/
theorem PesState.finished (state : PesState f pes g) (some : 0 < pes.length)
    (word : g.reqCnt = req) : PesEnd f pes req g.updateWritePtr.finishFlt := by
  have count := state.count
  have counted : 0 < g.updateWritePtr.lenWord := by
    rw [BitVec.lt_def]
    change 0 < g.lenWord.toNat
    rw [count]
    exact some
  have room : ¬ (g.updateWritePtr.finishWrite < g.updateWritePtr.bufRead ∧
      g.updateWritePtr.bufRead < g.updateWritePtr.finishWrite + 8) ↔
        f.HasRoom pes.length := by
    rw [← count]
    exact state.room_iff _
  rw [Filter.finishFlt, if_pos counted]
  constructor
  · intro space
    rw [if_neg (room.mpr space)]
    refine ⟨g.current, ?_, count, state.bytes_eq⟩
    change g.delivered ++ [g.current] = _
    rw [state.delivered_eq]
  · intro full
    rw [if_pos (Decidable.not_not.mp (fun open' => full (room.mp open')))]
    exact state.delivered_eq
  · rw [← word]
    split
    · exact reqCnt_revertFlt _
    · rfl

theorem pesDma_calm (calm : hw.dma g.dmaCount = ⟨false, false⟩) :
    pesDma hw packet g offset length start true =
      if offset + length.toNat ≤ tsPacketSize then
        (g.taken packet offset length .off start).updateWritePtr.finishFlt
      else g.taken packet offset (restOfPacket offset) .off start := by
  by_cases tail : offset + length.toNat ≤ tsPacketSize
  · simp only [pesDma, tail, if_true, Filter.dmaPostCheck, calm]
    rfl
  · simp only [pesDma, tail, if_false, Filter.dmaPostCheck, calm]
    rfl

end State

/-! ### A packet that goes on with the PES packet -/

section Piece

variable {hw : Hw} {f g : Filter} {got rest pes : List U8} {packet : Packet}
  {size req : Nat}

/-- The bytes of a packet that belong to a PES packet of which some are known. -/
structure PesPiece (packet : Packet) (got : List U8) (size : Nat)
    (rest pes : List U8) : Prop where
  whole : pes = got ++ bytesAt packet (payloadOffset packet 0) size ++ rest
  bounded : 6 < pes.length
  length_eq : pes.length = 6 + bigEndian (pes.getD 4 0) (pes.getD 5 0)
  payload : pktPayload packet = true
  fits : payloadOffset packet 0 + size ≤ tsPacketSize
  toEnd : rest = [] ∨ payloadOffset packet 0 + size = tsPacketSize
  header : 6 ≤ got.length + size
  remains : 0 < size + rest.length

theorem PesPiece.length (piece : PesPiece packet got size rest pes) :
    pes.length = got.length + (size + rest.length) := by
  rw [piece.whole, List.length_append, List.length_append, length_bytesAt,
    Nat.add_assoc]

theorem PesPiece.shows (piece : PesPiece packet got size rest pes) :
    ShowsBytes packet pes (payloadOffset packet 0) got.length :=
  showsBytes_of_whole piece.whole piece.toEnd

theorem PesPiece.getD_got (piece : PesPiece packet got size rest pes) {i : Nat}
    (old : i < got.length) : pes.getD i 0 = got.getD i 0 := by
  rw [List.getD_eq_getElem?_getD, List.getD_eq_getElem?_getD, piece.whole,
    List.append_assoc, List.getElem?_append_left old]

/-- The length is found where the header goes on. -/
theorem PesPiece.brokenPesLength_eq (piece : PesPiece packet got size rest pes)
    (some' : 1 ≤ got.length) (few : got.length ≤ 5)
    (byte : g.secByte.toNat = got.length)
    (kept : got.length = 5 → g.secLenData = (got.getD 4 0).setWidth 32) :
    ∃ length, brokenPesLength packet g (payloadOffset packet 0) = some length ∧
      length.toNat + 6 = pes.length := by
  have total := piece.length
  have header := piece.header
  have fits := piece.fits
  have stated := piece.length_eq
  have shows' := piece.shows
  by_cases five : got.length = 5
  · obtain ⟨length, found, value⟩ :=
      @brokenPesLength_of_five packet g (payloadOffset packet 0) _
        (byte.trans five) (kept five)
    have low := shows' 0 (by omega) (by omega)
    rw [Nat.add_zero, Nat.add_zero, five] at low
    rw [low, ← piece.getD_got (by omega)] at value
    exact ⟨length, found, by omega⟩
  · obtain ⟨length, found, value⟩ :=
      @brokenPesLength_of_four packet g (payloadOffset packet 0) (by omega)
        (by omega)
    have high := shows' (4 - got.length) (by omega) (by omega)
    have low := shows' (5 - got.length) (by omega) (by omega)
    rw [Nat.add_sub_of_le (by omega)] at high low
    rw [byte, high, low] at value
    exact ⟨length, found, by omega⟩

theorem pesSize_ne {length : U32} (some : 0 < length.toNat)
    (small : length.toNat < 2 ^ 16) : pesSize length ≠ vpesSizeMax := by
  have positive : length ≠ 0 := by
    intro zero
    rw [zero] at some
    exact absurd some (by decide)
  rw [pesSize, if_neg positive]
  intro same
  have values := congrArg BitVec.toNat same
  rw [BitVec.toNat_add] at values
  change (length.toNat + 6) % 2 ^ 32 = 0x0FFFFFFF at values
  omega

/-- The DMA that a packet starts which goes on with the PES packet. -/
structure PesDma (f g : Filter) (got : List U8) (left req : Nat) (s : Filter)
    (length : U32) : Prop where
  state : PesState f got s
  secByte_eq : s.secByte = 0
  bounded : s.dataSize ≠ vpesSizeMax
  length_eq : length.toNat = left
  word : ∃ before, s.rmnReqCnt.toNat = 2 ^ 16 * before + left % 2 ^ 16 ∧
    reqAfter before left = req
  long : left < 2 ^ 16 ∨ left + got.length < 2 ^ 16 + 6
  dmaCount_eq : s.dmaCount = g.dmaCount

theorem patternMatchTail_ptnByte (packet : Packet) (offset : Nat) (s : Pattern) :
    (patternMatchTail packet offset s).2.ptnByte = 0 := by
  rw [patternMatchTail]
  split
  · assumption
  · rfl

theorem PesState.setPtn (state : PesState f got g) (packet : Packet) (offset : Nat) :
    PesState f got { g with ptn := (patternMatchTail packet offset g.ptn).2 } where
  delivered_eq := state.delivered_eq
  bytes_eq := state.bytes_eq
  count := state.count
  enabled := state.enabled
  pattern_eq := (patternMatchTail_registers _ _ _).1.trans state.pattern_eq
  mask_eq := (patternMatchTail_registers _ _ _).2.trans state.mask_eq
  spare := spare_patternMatchTail state.spare
  room_iff := state.room_iff
  dmaCount_le := state.dmaCount_le

theorem PesState.follow_eq (hw : Hw) (state : PesState f got g)
    (header : PesHeader got (size + rest.length) req g)
    (piece : PesPiece packet got size rest pes)
    (split : g.ptn.ptnByte = 0 ∨ g.ptn.ptnByte = got.length ∧ got.length ≤ 15)
    (visible : RestVisible g.ptn packet) (matches' : MatchesBytes f.ptn pes) :
    ∃ s length, PesDma f g got (size + rest.length) req s length ∧
      s.ptn.ptnByte = 0 ∧ getPesFollowPackets hw packet g =
        pesDma hw packet s (payloadOffset packet 0) length false true := by
  have total := piece.length
  have bounded := piece.bounded
  have stated := piece.length_eq
  have limit := bigEndian_lt (pes.getD 4 0) (pes.getD 5 0)
  have remains := piece.remains
  have tail : (patternMatchTail packet (payloadOffset packet 0) g.ptn).1 = true := by
    by_cases whole : g.ptn.ptnByte = 0
    · rw [patternMatchTail, if_pos whole]
    · have byte := split.resolve_left whole
      have same : MatchesBytes g.ptn pes := by
        intro bit inside
        rw [bitOf, bitOf, state.mask_eq, state.pattern_eq]
        exact matches' bit inside
      apply tail_of_matches same state.spare whole (by omega) _
        (visible.visible whole) (visible.unmixed whole)
      rw [byte.1]
      exact piece.shows
  cases header with
  | known six byte bounded remaining word =>
      have less := g.rmn_lt
      refine ⟨_, g.rmn, ⟨state.setPtn packet (payloadOffset packet 0), byte,
        bounded, remaining, ⟨g.reqCnt, ?_, ?_⟩, .inl (by omega), rfl⟩,
        patternMatchTail_ptnByte _ _ _, ?_⟩
      · change g.rmnReqCnt.toNat = _
        rw [← remaining, Filter.toNat_rmn, Filter.reqCnt]
        omega
      · rw [reqAfter_eq_iff.mpr (by omega), word]
      · have pending : g.rmn ≠ 0 := by
          intro zero
          rw [zero] at remaining
          change 0 = _ at remaining
          omega
        rw [getPesFollowPackets, if_pos ⟨piece.payload, pending⟩]
        simp only
        rw [if_neg (by rw [byte]; decide)]
        simp only [pesContinue]
        rw [if_pos tail, decide_eq_true bounded]
  | broken one few byte pending kept word =>
      obtain ⟨length, found, value⟩ :=
        piece.brokenPesLength_eq one few byte kept
      have missing : (length + 6 - g.secByte).toNat = size + rest.length := by
        have sum : (length + 6).toNat = length.toNat + 6 := by
          rw [BitVec.toNat_add]
          change (length.toNat + 6) % 2 ^ 32 = _
          omega
        rw [BitVec.toNat_sub_of_le (by rw [BitVec.le_def]; omega), sum, byte]
        omega
      have known : PesState f got (pesLengthKnown g length) :=
        { state with }
      have bounded' := @pesSize_ne length  (by omega) (by omega)
      refine ⟨_, length + 6 - g.secByte,
        ⟨known.setPtn packet (payloadOffset packet 0), rfl, bounded', missing,
        ⟨g.reqCnt, ?_, word⟩, .inr (by omega), rfl⟩,
        patternMatchTail_ptnByte _ _ _, ?_⟩
      · change (g.setRmn ((length + 6 - g.secByte) &&& rmnCntMask)).rmnReqCnt.toNat = _
        rw [Filter.toNat_setRmn (by rw [toNat_masked]; omega), toNat_masked, missing]
      · rw [getPesFollowPackets, if_pos ⟨piece.payload, pending⟩]
        simp only
        rw [if_pos (by rw [BitVec.lt_def, byte]; exact one), found]
        have tail' : (patternMatchTail packet (payloadOffset packet 0)
            (pesLengthKnown g length).ptn).1 = true := tail
        have bounded'' : (pesLengthKnown g length).dataSize ≠ vpesSizeMax := bounded'
        simp only [pesContinue]
        rw [if_pos tail', decide_eq_true bounded'']

/-- The filter gathers a PES packet of which so much is missing. -/
structure PesGathering (f : Filter) (got : List U8) (left req : Nat) (g : Filter) :
    Prop where
  state : PesState f got g
  header : PesHeader got left req g
  split : g.ptn.ptnByte = 0 ∨ g.ptn.ptnByte = got.length ∧ got.length ≤ 15

/-- A DMA up to the end of the packet goes on gathering. -/
theorem PesDma.part {s : Filter} {length : U32}
    (dma : PesDma f g got (size + rest.length) req s length)
    (piece : PesPiece packet got size rest pes) (more : rest ≠ [])
    (split : s.ptn.ptnByte = 0 ∨
      s.ptn.ptnByte = got.length + size ∧ got.length + size ≤ 15)
    (calm : hw.dma g.dmaCount = ⟨false, false⟩) (start : Bool) :
    PesGathering f (got ++ bytesAt packet (payloadOffset packet 0) size) rest.length
      req (pesDma hw packet s (payloadOffset packet 0) length start true) := by
  have full := piece.toEnd.resolve_left more
  have some := List.length_pos_iff.mpr more
  have total := piece.length
  have stated := piece.length_eq
  have header := piece.header
  have limit := bigEndian_lt (pes.getD 4 0) (pes.getD 5 0)
  have size' : (restOfPacket (payloadOffset packet 0)).toNat = size := by
    rw [toNat_restOfPacket (by omega)]
    omega
  have small : (restOfPacket (payloadOffset packet 0)).toNat < 2 ^ 16 := by
    rw [tsPacketSize] at full
    omega
  have value := dma.length_eq
  rw [← dma.dmaCount_eq] at calm
  rw [pesDma_calm calm, if_neg (by omega)]
  have state := @PesState.taken f s got packet (payloadOffset packet 0)
    (restOfPacket (payloadOffset packet 0)) start dma.state small (by omega)
  rw [size'] at state
  obtain ⟨before, word, after⟩ := dma.word
  have long := dma.long
  have counted := @account_masked
    (s.dmaCopy packet (payloadOffset packet 0)
      (restOfPacket (payloadOffset packet 0)) .off start)
    (restOfPacket (payloadOffset packet 0)) before (size + rest.length) word
    (by omega) (by omega) (by omega) (by omega)
  rw [after, size', Nat.add_sub_cancel_left] at counted
  have grown : (got ++ bytesAt packet (payloadOffset packet 0) size).length =
      got.length + size := by
    rw [List.length_append, length_bytesAt]
  refine ⟨state, .known ?_ dma.secByte_eq dma.bounded counted.1 counted.2, ?_⟩
  · rw [grown]
    exact header
  · rw [grown]
    exact split

/-- The DMA of the last bytes delivers the PES packet. -/
theorem PesDma.last {s : Filter} {length : U32}
    (dma : PesDma f g got size req s length)
    (piece : PesPiece packet got size [] pes)
    (calm : hw.dma g.dmaCount = ⟨false, false⟩) (start : Bool) :
    PesEnd f pes req
      (pesDma hw packet s (payloadOffset packet 0) length start true) := by
  have fits := piece.fits
  have total := piece.length
  have stated := piece.length_eq
  have bounded := piece.bounded
  have limit := bigEndian_lt (pes.getD 4 0) (pes.getD 5 0)
  have value := dma.length_eq
  have whole := piece.whole
  have small : length.toNat < 2 ^ 16 := by
    rw [tsPacketSize] at fits
    omega
  rw [List.append_nil, ← value] at whole
  rw [← dma.dmaCount_eq] at calm
  rw [pesDma_calm calm, if_pos (by rw [value]; exact fits)]
  have state := @PesState.taken f s got packet (payloadOffset packet 0) length start
    dma.state small (by omega)
  rw [← whole] at state
  obtain ⟨before, word, after⟩ := dma.word
  have counted := @account_masked
    (s.dmaCopy packet (payloadOffset packet 0) length .off start) length before size
    word (by omega) (by omega) (by omega) (by omega)
  rw [after] at counted
  exact state.finished (by omega) counted.2

/-- A packet that goes on with a PES packet starts the DMA. -/
theorem procPes_of_follow (hw : Hw) {pid : Option (BitVec 13)}
    (state : PesState f got g) (accepted : pktAccepted pid packet = true)
    (pusi : pktPusi packet = false) :
    procPes hw packet pid g = getPesFollowPackets hw packet g := by
  rw [procPes, if_pos ⟨accepted, state.enabled⟩, if_neg]
  rw [pusi]
  exact Bool.noConfusion

/-- A packet without payload changes nothing. -/
theorem procPes_of_no_payload (hw : Hw) (pid : Option (BitVec 13)) (f : Filter)
    (none : pktPayload packet = false) : procPes hw packet pid f = f := by
  have first : getPesFirstPacket hw packet f = f := by
    rw [getPesFirstPacket, if_neg]
    rw [none]
    exact Bool.noConfusion
  have follow : getPesFollowPackets hw packet f = f := by
    rw [getPesFollowPackets, if_neg]
    rw [none]
    exact fun continues => Bool.noConfusion continues.1
  rw [procPes, first, follow]
  split
  · exact ite_self f
  · rfl

end Piece

/-! ### The packets behind the first one -/

section Rest

variable {hw : Hw} {f g : Filter} {got bytes pes : List U8} {req known : Nat}
  {pid : Option (BitVec 13)} {packets : List Packet}

theorem PesGathering.run (carries : CarriesPesRest pid known bytes packets)
    (gathering : PesGathering f got bytes.length req g) (same : known = got.length)
    (whole : pes = got ++ bytes) (bounded : 6 < pes.length)
    (length : pes.length = 6 + bigEndian (pes.getD 4 0) (pes.getD 5 0))
    (matches' : MatchesBytes f.ptn pes)
    (calm : ∀ n, f.dmaCount ≤ n → hw.dma n = ⟨false, false⟩)
    (visible : Run.Meets (fun g packet => procPes hw packet pid g)
      (fun g packet => pktPayload packet = true → RestVisible g.ptn packet)
      g packets) :
    PesEnd f pes req (packets.foldl (fun g packet => procPes hw packet pid g) g) := by
  induction carries generalizing got g with
  | skip none rest inductionHypothesis =>
      have still := procPes_of_no_payload hw pid g none
      have later := visible.2
      change Run.Meets _ _ (procPes hw _ pid g) _ at later
      rw [still] at later
      rw [List.foldl_cons, still]
      exact inductionHypothesis gathering same whole later
  | @part known bytes packet packets accepted payload pusi inside header more rest
      inductionHypothesis =>
      have some := List.length_pos_iff.mpr more
      have piece : PesPiece packet got (tsPacketSize - payloadOffset packet 0) bytes
          pes :=
        { whole := by rw [whole, List.append_assoc]
          bounded := bounded
          length_eq := length
          payload := payload
          fits := Nat.le_of_eq (Nat.add_sub_of_le inside)
          toEnd := .inr (Nat.add_sub_of_le inside)
          header := by rw [← same]; exact header
          remains := by omega }
      have pending := gathering.header
      rw [List.length_append, length_bytesAt] at pending
      obtain ⟨s, length, dma, split, followed⟩ := gathering.state.follow_eq hw pending
        piece gathering.split (visible.1 payload) matches'
      have next := dma.part piece more (.inl split)
        (calm _ gathering.state.dmaCount_le) false
      rw [← followed, ← procPes_of_follow hw gathering.state accepted pusi] at next
      rw [List.foldl_cons]
      apply inductionHypothesis next
      · rw [List.length_append, length_bytesAt, same]
      · rw [whole, List.append_assoc]
      · exact visible.2
  | @last known packet size accepted payload pusi some fits =>
      have piece : PesPiece packet got size [] pes :=
        { whole := by rw [whole, List.append_nil]
          bounded := bounded
          length_eq := length
          payload := payload
          fits := fits
          toEnd := .inl rfl
          header := by
            rw [whole, List.length_append, length_bytesAt] at bounded
            omega
          remains := by
            rw [List.length_nil]
            omega }
      have pending : PesHeader got (size + ([] : List U8).length) req g := by
        rw [List.length_nil, Nat.add_zero, ← length_bytesAt _ _ size]
        exact gathering.header
      obtain ⟨s, length, dma, split, followed⟩ := gathering.state.follow_eq hw pending
        piece gathering.split (visible.1 payload) matches'
      have next := dma.last piece (calm _ gathering.state.dmaCount_le) false
      rw [← followed, ← procPes_of_follow hw gathering.state accepted pusi] at next
      exact next

end Rest

/-! ### The packet in which the PES packet begins -/

section First

variable {hw : Hw} {f : Filter} {bytes pes : List U8} {first : Packet}
  {pid : Option (BitVec 13)} {packets : List Packet}

/-- Nothing of an earlier PES packet is left when a new one is taken. -/
theorem pesStart_state (enabled : f.procPreCheck = true)
    (clean : f.rmn = 0 → f.Idle) (spare : Spare f.ptn) (offset : Nat) :
    PesState f [] (pesStart first f offset) := by
  have registers := patternMatchHead_registers f.ptn first offset
  have kept := @spare_patternMatchHead f.ptn first offset spare
  by_cases pending : 0 < f.rmn
  · have started : pesStart first f offset =
        (pesHeader first f offset).revertFlt.setRmn
          (firstPesLength first offset &&& rmnCntMask) := by
      rw [pesStart]
      exact congrArg (Filter.setRmn · _) (if_pos pending)
    rw [started]
    exact ⟨rfl, rfl, rfl, enabled, registers.1, registers.2, kept,
      fun _ => Iff.rfl, Nat.le_refl _⟩
  · have zero : f.rmn = 0 := by
      apply BitVec.eq_of_toNat_eq
      rw [BitVec.lt_def] at pending
      exact Nat.eq_zero_of_not_pos pending
    have idle := clean zero
    have started : pesStart first f offset = (pesHeader first f offset).setRmn
        (firstPesLength first offset &&& rmnCntMask) := by
      rw [pesStart]
      exact congrArg (Filter.setRmn · _) (if_neg pending)
    have none : f.current.bytes = [] := by
      rw [Filter.current, Record.bytes, idle.record_eq]
      rfl
    have count : f.lenWord.toNat = 0 := by
      rw [idle.lenWord_eq]
      rfl
    rw [started]
    exact ⟨rfl, none, count, enabled, registers.1, registers.2, kept,
      fun _ => Iff.rfl, Nat.le_refl _⟩

/-- The registers and variables when the first DMA is started. -/
structure PesStarted (first : Packet) (f : Filter) (offset : Nat) (g : Filter) :
    Prop where
  word : g.rmnReqCnt.toNat =
    2 ^ 16 * f.reqCnt + (firstPesLength first offset).toNat % 2 ^ 16
  secByte_eq : g.secByte = (pesHeader first f offset).secByte
  secLenData_eq : g.secLenData = (pesHeader first f offset).secLenData
  bounded : firstPesLength first offset ≠ vpesSizeMax → g.dataSize ≠ vpesSizeMax
  ptn_eq : g.ptn = (patternMatchHead first offset f.ptn).2
  dmaCount_eq : g.dmaCount = f.dmaCount

theorem pesStart_started (first : Packet) (f : Filter) (offset : Nat) :
    PesStarted first f offset (pesStart first f offset) := by
  have small : (firstPesLength first offset &&& rmnCntMask).toNat < 2 ^ 16 := by
    rw [toNat_masked]
    exact Nat.mod_lt _ (by decide)
  have set : ∀ g : Filter, g.reqCnt = f.reqCnt →
      (g.setRmn (firstPesLength first offset &&& rmnCntMask)).rmnReqCnt.toNat =
        2 ^ 16 * f.reqCnt + (firstPesLength first offset).toNat % 2 ^ 16 := by
    intro g same
    rw [Filter.toNat_setRmn small, toNat_masked, same]
  by_cases pending : 0 < f.rmn
  · have started : pesStart first f offset =
        (pesHeader first f offset).revertFlt.setRmn
          (firstPesLength first offset &&& rmnCntMask) := by
      rw [pesStart]
      exact congrArg (Filter.setRmn · _) (if_pos pending)
    rw [started]
    exact ⟨set _ (reqCnt_revertFlt (pesHeader first f offset)), rfl, rfl,
      fun _ => (by decide : (0 : U32) ≠ vpesSizeMax), rfl, rfl⟩
  · have started : pesStart first f offset = (pesHeader first f offset).setRmn
        (firstPesLength first offset &&& rmnCntMask) := by
      rw [pesStart]
      exact congrArg (Filter.setRmn · _) (if_neg pending)
    rw [started]
    exact ⟨set _ rfl, rfl, rfl, fun apart => apart, rfl, rfl⟩

/-- What the packet shows of a PES packet that begins in it. -/
theorem CarriesPes.shows (carries : CarriesPes pid first packets pes) :
    ShowsBytes first pes (payloadOffset first 0) 0 := by
  intro i present visible
  rw [Nat.zero_add] at present ⊢
  rcases carries.carried with ⟨-, -, whole⟩ | ⟨bytes, -, -, whole⟩
  · rw [List.getD_eq_getElem?_getD, whole, getElem?_bytesAt present]
    rfl
  · have inside : i < tsPacketSize - payloadOffset first 0 := by omega
    rw [List.getD_eq_getElem?_getD, whole,
      List.getElem?_append_left (by rw [length_bytesAt]; exact inside),
      getElem?_bytesAt inside]
    rfl

/-- The first packet starts a DMA when the head matches. -/
theorem CarriesPes.first_eq (hw : Hw) (carries : CarriesPes pid first packets pes)
    (enabled : f.procPreCheck = true) (matches' : MatchesBytes f.ptn pes) :
    procPes hw first pid f =
        pesDma hw first (pesStart first f (payloadOffset first 0))
          (payloadOffset first 0) (firstPesLength first (payloadOffset first 0))
          true true ∧
      ((pesStart first f (payloadOffset first 0)).ptn.ptnByte = 0 ∨
        (pesStart first f (payloadOffset first 0)).ptn.ptnByte =
            tsPacketSize - payloadOffset first 0 ∧
          tsPacketSize - payloadOffset first 0 ≤ 15) := by
  have matched := head_of_matches matches' carries.shows carries.inside
  have byte := head_ptnByte matched carries.inside
  constructor
  · rw [procPes, if_pos ⟨carries.accepted, enabled⟩, if_pos carries.pusi,
      getPesFirstPacket, if_pos carries.payload]
    simp only
    rw [if_pos matched]
  · rw [(pesStart_started first f (payloadOffset first 0)).ptn_eq, byte]
    split
    · exact .inl rfl
    · rw [tsPacketSize] at *
      exact .inr ⟨rfl, by omega⟩

/-- The whole header lies in the first packet. -/
theorem CarriesPes.whole_dma (carries : CarriesPes pid first packets pes)
    (enabled : f.procPreCheck = true) (clean : f.rmn = 0 → f.Idle)
    (spare : Spare f.ptn) (header : payloadOffset first 0 ≤ 182) :
    PesDma f f [] pes.length (reqAfter f.reqCnt pes.length)
      (pesStart first f (payloadOffset first 0))
      (firstPesLength first (payloadOffset first 0)) := by
  have started := pesStart_started first f (payloadOffset first 0)
  have shows' := carries.shows
  have bounded := carries.bounded
  have stated := carries.length_eq
  have limit := bigEndian_lt (pes.getD 4 0) (pes.getD 5 0)
  have high := shows' 4 (by omega) (by rw [tsPacketSize]; omega)
  have low := shows' 5 (by omega) (by rw [tsPacketSize]; omega)
  rw [Nat.zero_add] at high low
  have field := toNat_pesPacketLength first (payloadOffset first 0)
  rw [high, low] at field
  have length : firstPesLength first (payloadOffset first 0) =
      pesSize (pesPacketLength first (payloadOffset first 0)) := by
    rw [firstPesLength, if_neg (by omega)]
  have value : (firstPesLength first (payloadOffset first 0)).toNat = pes.length := by
    have positive : pesPacketLength first (payloadOffset first 0) ≠ 0 := by
      intro zero
      rw [zero] at field
      change 0 = _ at field
      omega
    rw [length, pesSize, if_neg positive, BitVec.toNat_add, field]
    change (_ + 6) % 2 ^ 32 = _
    omega
  refine ⟨pesStart_state enabled clean spare _, ?_, started.bounded ?_, value,
    ⟨f.reqCnt, ?_, rfl⟩, .inr ?_, started.dmaCount_eq⟩
  · rw [started.secByte_eq]
    exact if_neg (by omega)
  · rw [length]
    exact pesSize_ne (by omega) (by omega)
  · rw [started.word, value]
  · rw [List.length_nil]
    omega

/-- The packet ends within the header. -/
theorem CarriesPes.gathers_broken (carries : CarriesPes pid first packets pes)
    (enabled : f.procPreCheck = true) (clean : f.rmn = 0 → f.Idle)
    (spare : Spare f.ptn) (matches' : MatchesBytes f.ptn pes)
    (calm : hw.dma f.dmaCount = ⟨false, false⟩)
    (header : 182 < payloadOffset first 0) :
    PesGathering f (bytesAt first (payloadOffset first 0)
        (tsPacketSize - payloadOffset first 0)) bytes.length
      (reqAfter f.reqCnt bytes.length) (procPes hw first pid f) := by
  have inside := carries.inside
  have value : (restOfPacket (payloadOffset first 0)).toNat =
      tsPacketSize - payloadOffset first 0 := toNat_restOfPacket (by omega)
  have started := pesStart_started first f (payloadOffset first 0)
  have start := @pesStart_state f first enabled clean spare (payloadOffset first 0)
  obtain ⟨first_eq, split⟩ := carries.first_eq hw enabled matches'
  have unknown : firstPesLength first (payloadOffset first 0) = 0xFFFF := by
    rw [firstPesLength, if_pos header]
  have long : (firstPesLength first (payloadOffset first 0)).toNat = 65535 := by
    rw [unknown]
    rfl
  have word := started.word
  rw [long] at word
  rw [← started.dmaCount_eq] at calm
  rw [tsPacketSize] at inside
  rw [first_eq, pesDma_calm calm, if_neg (by rw [tsPacketSize]; omega)]
  have state := @PesState.taken f (pesStart first f (payloadOffset first 0)) [] first
    (payloadOffset first 0) (restOfPacket (payloadOffset first 0)) true start
    (by rw [value, tsPacketSize]; omega) (by rw [List.length_nil]; decide)
  rw [value, List.nil_append] at state
  have remaining := @account_masked
    ((pesStart first f (payloadOffset first 0)).dmaCopy first (payloadOffset first 0)
      (restOfPacket (payloadOffset first 0)) .off true)
    (restOfPacket (payloadOffset first 0)) f.reqCnt 65535 word
    (by rw [value, tsPacketSize]; omega) (by omega) (by omega) (by omega)
  have left : ((pesStart first f (payloadOffset first 0)).taken first
      (payloadOffset first 0) (restOfPacket (payloadOffset first 0)) .off
      true).rmn.toNat = 65535 - (tsPacketSize - payloadOffset first 0) := by
    rw [← value]
    exact remaining.1
  have request : ((pesStart first f (payloadOffset first 0)).taken first
      (payloadOffset first 0) (restOfPacket (payloadOffset first 0)) .off
      true).reqCnt = f.reqCnt := remaining.2
  refine ⟨state, .broken ?_ ?_ ?_ ?_ ?_ ?_, ?_⟩
  · rw [length_bytesAt, tsPacketSize]
    omega
  · rw [length_bytesAt, tsPacketSize]
    omega
  · rw [length_bytesAt, ← value]
    exact congrArg BitVec.toNat (started.secByte_eq.trans (if_pos header))
  · intro zero
    rw [zero, tsPacketSize] at left
    change 0 = _ at left
    omega
  · intro five
    rw [length_bytesAt] at five
    have place : payloadOffset first 0 = 183 := by
      rw [tsPacketSize] at five
      omega
    rw [List.getD_eq_getElem?_getD, getElem?_bytesAt (by omega), Option.getD_some,
      ← cacheWord_and_byte]
    exact started.secLenData_eq.trans (if_pos place)
  · rw [request]
  · rw [length_bytesAt]
    exact split

/-- A matching PES packet ends as its length says, whether it is delivered or not. -/
theorem CarriesPes.ends (carries : CarriesPes pid first packets pes)
    (enabled : f.procPreCheck = true) (clean : f.rmn = 0 → f.Idle)
    (spare : Spare f.ptn) (matches' : MatchesBytes f.ptn pes)
    (calm : ∀ n, f.dmaCount ≤ n → hw.dma n = ⟨false, false⟩)
    (visible : Run.Meets (fun g packet => procPes hw packet pid g)
      (fun g packet => pktPayload packet = true → RestVisible g.ptn packet)
      (procPes hw first pid f) packets) :
    PesEnd f pes (reqAfter f.reqCnt (pes.length - brokenBytes first))
      ((first :: packets).foldl (fun g packet => procPes hw packet pid g) f) := by
  rw [List.foldl_cons]
  have now := calm f.dmaCount (Nat.le_refl _)
  have bounded := carries.bounded
  have inside := carries.inside
  obtain ⟨first_eq, split⟩ := carries.first_eq hw enabled matches'
  rcases carries.carried with ⟨fits, single, whole⟩ | ⟨bytes, more, rest, whole⟩
  · have header : payloadOffset first 0 ≤ 182 := by
      rw [tsPacketSize] at fits
      omega
    have piece : PesPiece first [] pes.length [] pes :=
      { whole := by rw [List.append_nil, List.nil_append]; exact whole
        bounded := bounded
        length_eq := carries.length_eq
        payload := carries.payload
        fits := fits
        toEnd := .inl rfl
        header := by omega
        remains := by omega }
    rw [single, List.foldl_nil, first_eq, brokenBytes, if_neg (by omega)]
    exact (carries.whole_dma enabled clean spare header).last piece now true
  · have length : pes.length = tsPacketSize - payloadOffset first 0 +
        bytes.length := by
      rw [whole, List.length_append, length_bytesAt]
    have some := List.length_pos_iff.mpr more
    by_cases header : payloadOffset first 0 ≤ 182
    · have piece : PesPiece first [] (tsPacketSize - payloadOffset first 0) bytes
          pes :=
        { whole := whole
          bounded := bounded
          length_eq := carries.length_eq
          payload := carries.payload
          fits := by omega
          toEnd := .inr (by omega)
          header := by rw [tsPacketSize]; omega
          remains := by omega }
      have dma := carries.whole_dma enabled clean spare header
      rw [length] at dma
      have gathering := dma.part piece more
        (by rw [List.length_nil, Nat.zero_add]; exact split) now true
      rw [← first_eq] at gathering
      rw [brokenBytes, if_neg (by omega), Nat.sub_zero, length]
      exact gathering.run rest (by rw [List.nil_append, length_bytesAt]) whole
        bounded carries.length_eq matches' calm visible
    · have gathering := @CarriesPes.gathers_broken hw f bytes pes first pid packets carries enabled clean spare
        matches' now (by omega)
      have left : pes.length - (tsPacketSize - payloadOffset first 0) =
          bytes.length := by
        omega
      rw [brokenBytes, if_pos (by omega), left]
      exact gathering.run rest (by rw [length_bytesAt]) whole
        bounded carries.length_eq matches' calm visible

/-- A disabled filter takes no part in a run. -/
theorem foldl_of_disabled (disabled : f.procPreCheck = false) (packets : List Packet) :
    packets.foldl (fun g packet => procPes hw packet pid g) f = f := by
  induction packets with
  | nil => rfl
  | cons packet packets inductionHypothesis =>
      rw [List.foldl_cons, procPes, if_neg]
      · exact inductionHypothesis
      · rw [disabled]
        exact fun both => Bool.noConfusion both.2

end First

/-! ### When PES packets are assembled -/

/-- A matching PES packet of bounded length is delivered once and as it is, with
the same request count, exactly when the filter is enabled, there is room behind
the record and the length fits; when nothing was counted for a PES packet that
does not go on, and the packets show the rest of a split pattern. -/
theorem pesDelivered_iff (hw : Hw) (pid : Option (BitVec 13)) (f : Filter)
    (first : Packet) (packets : List Packet) (pes : List U8)
    (carries : CarriesPes pid first packets pes) (matches' : MatchesBytes f.ptn pes)
    (spare : Spare f.ptn)
    (calm : ∀ n, f.dmaCount ≤ n → hw.dma n = ⟨false, false⟩)
    (clean : f.rmn = 0 → f.Idle)
    (visible : Run.Meets (fun g packet => procPes hw packet pid g)
      (fun g packet => pktPayload packet = true → RestVisible g.ptn packet)
      (procPes hw first pid f) packets) :
    PesDelivered f ((first :: packets).foldl
        (fun g packet => procPes hw packet pid g) f) pes ↔
      f.procPreCheck = true ∧ f.HasRoom pes.length ∧ LengthFits first pes := by
  have nothing : ∀ {g : Filter}, g.delivered = f.delivered →
      ¬ PesDelivered f g pes := by
    intro g same delivered
    obtain ⟨r, more, -, -⟩ := delivered.record
    have lengths := congrArg List.length (same.symm.trans more)
    rw [List.length_append, List.length_singleton] at lengths
    omega
  by_cases enabled : f.procPreCheck = true
  · have ended := carries.ends enabled clean spare matches' calm visible
    by_cases room : f.HasRoom pes.length
    · constructor
      · intro delivered
        exact ⟨enabled, room, reqAfter_eq_iff.mp
          (ended.reqCnt_eq.symm.trans delivered.reqCnt_eq)⟩
      · intro ⟨_, _, fits⟩
        exact ⟨ended.record room, ended.reqCnt_eq.trans (reqAfter_eq_iff.mpr fits)⟩
    · exact iff_of_false (nothing (ended.dropped room)) (fun all => room all.2.1)
  · rw [foldl_of_disabled (Bool.not_eq_true _ ▸ enabled)]
    exact iff_of_false (nothing rfl) (fun all => enabled all.1)

/-! ### Two runs -/

/-- A filter that compares the `stream_id`, here 0xBD. -/
def streamFilter : Filter :=
  { openFilter with
    ptn := ⟨fun _ => 0xBD000000, fun i => if i = 0 then 0x00FFFFFF else 0xFFFFFFFF, 0,
      fun _ => 0xFFFFFFFF, fun _ => 0⟩
    rmnReqCnt := 0x00010000 }

/-- A PES packet of nine bytes. -/
def shortPes : List U8 := [0x00, 0x00, 0x01, 0xBD, 0x00, 0x03, 0x80, 0x00, 0x00]

/-- Three of its bytes are the last ones of a packet. -/
def shortFirst : Packet :=
  stuffedPacket [0x47, 0x40, 0x00, 0x30, 0xB4] 185 (shortPes.take 3)

/-- The rest of it. -/
def shortSecond : Packet :=
  stuffedPacket [0x47, 0x00, 0x00, 0x31, 0xB1] 182 (shortPes.drop 3)

theorem carries_shortPes : CarriesPes none shortFirst [shortSecond] shortPes where
  accepted := by decide
  pusi := by decide
  payload := by decide
  inside := by decide
  bounded := by decide
  length_eq := by decide
  carried := by
    refine .inr ⟨bytesAt shortSecond 182 6, by decide, ?_, by decide⟩
    exact .last (by decide) (by decide) (by decide) (by decide) (by decide)

theorem restVisible_short :
    RestVisible (procPes calmHw shortFirst none streamFilter).ptn shortSecond := by
  have byte : (procPes calmHw shortFirst none streamFilter).ptn.ptnByte = 3 := by
    decide +kernel
  constructor
  · intro _ bit low inside
    rw [byte] at low ⊢
    by_cases first : bit < 32
    · right
      change 182 + (bit / 8 - 3) < 188
      omega
    · left
      rw [bitOf, procPes_mask]
      change BitVec.getLsbD (if bit / 32 = 0 then 0x00FFFFFF else 0xFFFFFFFF) _ = true
      rw [if_neg (by omega)]
      have small : bit % 32 < 32 := Nat.mod_lt _ (by decide)
      generalize bit % 32 = place at small
      interval_cases place <;> rfl
  · intro _ aligned
    rw [byte] at aligned
    exact absurd aligned (by decide)

theorem pesDelivered_short :
    PesDelivered streamFilter ([shortFirst, shortSecond].foldl
      (fun g packet => procPes calmHw packet none g) streamFilter) shortPes :=
  (pesDelivered_iff calmHw none streamFilter shortFirst [shortSecond] shortPes
    carries_shortPes (by unfold MatchesBytes; decide +kernel) (fun _ _ _ => rfl)
    (fun _ _ => rfl) (fun _ => ⟨by decide, rfl, rfl⟩)
    ⟨fun _ => restVisible_short, trivial⟩).mpr
      ⟨by decide, by decide, by unfold LengthFits; decide⟩

/-- A PES packet whose length is 65530: a header and stuffing. -/
def longFirst : Packet :=
  stuffedPacket [0x47, 0x40, 0x00, 0x10] 4 [0x00, 0x00, 0x01, 0xBD, 0xFF, 0xFA]

/-- The packets behind the first one. -/
def longBody : Packet := stuffedPacket [0x47, 0x00, 0x00, 0x10] 4 []

/-- The bytes of the PES packet. -/
def longPes : List U8 := bytesAt longFirst 4 184 ++ List.replicate (355 * 184 + 32) 0xFF

theorem bytesAt_longBody (size : Nat) :
    bytesAt longBody 4 size = List.replicate size 0xFF := by
  apply List.ext_getElem?
  intro i
  by_cases inside : i < size
  · rw [getElem?_bytesAt inside, List.getElem?_replicate_of_lt inside, longBody,
      stuffedPacket, if_neg (by omega)]
    rfl
  · rw [List.getElem?_eq_none (by rw [length_bytesAt]; omega),
      List.getElem?_eq_none (by rw [List.length_replicate]; omega)]

theorem carriesRest_long (count : Nat) {known : Nat} (header : 6 ≤ known) :
    CarriesPesRest none known (List.replicate (count * 184 + 32) 0xFF)
      (List.replicate (count + 1) longBody) := by
  have offset : payloadOffset longBody 0 = 4 := by decide
  induction count generalizing known with
  | zero =>
      rw [Nat.zero_mul, Nat.zero_add, Nat.zero_add, List.replicate_one,
        ← bytesAt_longBody, ← offset]
      exact .last (by decide) (by decide) (by decide) (by decide) (by decide)
  | succ count inductionHypothesis =>
      have size : tsPacketSize - payloadOffset longBody 0 = 184 := by decide
      have whole : List.replicate ((count + 1) * 184 + 32) (0xFF : U8) =
          bytesAt longBody (payloadOffset longBody 0)
            (tsPacketSize - payloadOffset longBody 0) ++
          List.replicate (count * 184 + 32) 0xFF := by
        rw [size, offset, bytesAt_longBody, List.replicate_append_replicate]
        congr 1
        omega
      rw [whole, List.replicate_succ]
      exact .part (by decide) (by decide) (by decide) (by decide) (by omega)
        (List.cons_ne_nil _ _) (inductionHypothesis (by omega))

theorem length_longPes : longPes.length = 2 ^ 16 := by
  rw [longPes, List.length_append, length_bytesAt, List.length_replicate]
  decide

theorem getD_longPes {i : Nat} (inside : i < 184) :
    longPes.getD i 0 = longFirst (4 + i) := by
  rw [List.getD_eq_getElem?_getD, longPes,
    List.getElem?_append_left (by rw [length_bytesAt]; exact inside),
    getElem?_bytesAt inside]
  rfl

theorem carries_longPes :
    CarriesPes none longFirst (List.replicate 356 longBody) longPes where
  accepted := by decide
  pusi := by decide
  payload := by decide
  inside := by decide
  bounded := by rw [length_longPes]; decide
  length_eq := by
    rw [length_longPes, getD_longPes (by decide), getD_longPes (by decide)]
    decide
  carried := .inr ⟨List.replicate (355 * 184 + 32) 0xFF, List.cons_ne_nil _ _,
    carriesRest_long 355 (by decide), rfl⟩

/-- A filter that takes every PES packet, with room for long ones and a request
count of 1. -/
def longFilter : Filter :=
  { openFilter with bufEnd := 0x41000, rmnReqCnt := 0x00010000 }

/-- The request count is borrowed from. -/
theorem long_pes_borrows :
    CarriesPes none longFirst (List.replicate 356 longBody) longPes ∧
      MatchesBytes longFilter.ptn longPes ∧ Spare longFilter.ptn ∧
      (∀ n, calmHw.dma n = ⟨false, false⟩) ∧ longFilter.Idle ∧
      longFilter.procPreCheck = true ∧ longFilter.HasRoom longPes.length ∧
      ((longFirst :: List.replicate 356 longBody).foldl
        (fun g packet => procPes calmHw packet none g) longFilter).reqCnt ≠
          longFilter.reqCnt := by
  have masked : ∀ bit, bit < 128 → bitOf longFilter.ptn.mask bit = true := by
    intro bit _
    change BitVec.getLsbD 0xFFFFFFFF (bit % 32) = true
    have small : bit % 32 < 32 := Nat.mod_lt _ (by decide)
    generalize bit % 32 = place at small
    interval_cases place <;> rfl
  have spare : Spare longFilter.ptn := fun _ _ _ => rfl
  have matches' : MatchesBytes longFilter.ptn longPes :=
    fun bit inside => .inl (masked bit inside)
  have idle : longFilter.Idle := ⟨by decide, rfl, rfl⟩
  have visible : ∀ (packets : List Packet) (g : Filter),
      g.ptn.mask = longFilter.ptn.mask →
        Run.Meets (fun g packet => procPes calmHw packet none g)
          (fun g packet => pktPayload packet = true → RestVisible g.ptn packet)
          g packets := by
    intro packets
    induction packets with
    | nil => exact fun _ _ => trivial
    | cons packet packets inductionHypothesis =>
        intro g same
        refine ⟨fun _ => ⟨fun _ bit _ inside => .inl ?_, fun _ _ bit _ inside =>
          .inl ?_⟩, inductionHypothesis _ ((procPes_mask _ _ _ _).trans same)⟩
        · rw [bitOf, same]
          exact masked bit inside
        · rw [bitOf, same]
          exact masked bit (by omega)
  have ended := @CarriesPes.ends calmHw longFilter longPes longFirst none _ carries_longPes rfl (fun _ => idle) spare
    matches' (fun _ _ => rfl) (visible _ _ (procPes_mask _ _ _ _))
  refine ⟨carries_longPes, matches', spare, fun _ => rfl, idle, rfl, ?_, ?_⟩
  · rw [length_longPes]
    decide
  · rw [ended.reqCnt_eq, length_longPes]
    decide

end Gp2Firmware.Tsp
