import Gp2Firmware.Lib.Run
import Gp2Firmware.Tsp.Section

/-!
# Every record is one section

What a record should hold, and the runs of packets after which every delivered
record does.  The state between two packets is either idle or holds the
beginning of one section (`Assembling`).
-/

namespace Gp2Firmware.Tsp

/-! ### One section -/

/-- `pointer_field` -/
def pointerField (packet : Packet) : Nat :=
  (packet (payloadOffset packet 0)).toNat

/-- The offsets at which a section begins: where the pointer field points to,
and behind a section whose header lies in the packet. -/
inductive SectionStart (packet : Packet) : Nat → Prop
  | pointed (unitStart : pktPusi packet = true)
      (payload : pktPayload packet = true) :
      SectionStart packet (payloadOffset packet 0 + 1 + pointerField packet)
  | behind {offset : Nat} (before : SectionStart packet offset)
      (header : offset + 2 < tsPacketSize) (used : packet offset ≠ 0xFF) :
      SectionStart packet
        (offset + (3 + lengthOf (packet (offset + 1)) (packet (offset + 2))))

/-- The chunk begins a section. -/
structure Begins (c : Chunk) : Prop where
  start : c.start = true
  starts : SectionStart c.packet c.offset
  inside : c.offset < tsPacketSize
  fits : c.offset + c.size ≤ tsPacketSize
  used : c.packet c.offset ≠ 0xFF

/-- The chunk continues a section whose last chunk so far is another one. -/
structure Continues (last c : Chunk) : Prop where
  start : c.start = false
  payload : pktPayload c.packet = true
  counter : pktCc c.packet = (pktCc last.packet + 1) &&& 0xF
  toEnd : last.offset + last.size = tsPacketSize
  fromHead : c.offset = continuedAt c.packet
  fits : c.offset + c.size ≤ tsPacketSize
  beforeNext : pktPusi c.packet = true → c.size ≤ pointerField c.packet

/-- A section start followed only by its continuation, and its last chunk. -/
inductive SectionChunks : List Chunk → Chunk → Prop
  | first {c : Chunk} (begins : Begins c) : SectionChunks [c] c
  | more {chunks : List Chunk} {last c : Chunk}
      (before : SectionChunks chunks last) (continues : Continues last c) :
      SectionChunks (chunks ++ [c]) c

/-- The length that a section states in its first three bytes. -/
def sectionLength (bytes : List U8) : Nat :=
  3 + lengthOf (bytes.getD 1 0) (bytes.getD 2 0)

/-- The record is one section. -/
structure OneSection (r : Record) : Prop where
  chunks : ∃ last, SectionChunks r.chunks last
  size_eq : r.size.toNat = r.bytes.length
  length_eq : r.size.toNat = sectionLength r.bytes

/-! ### The condition on a packet -/

/-- What is missing of a section whose header lies in the record or goes on in
the packet. -/
def sectionRest (f : Filter) (packet : Packet) : Nat :=
  sectionLength (f.current.bytes ++ bytesAt packet (continuedAt packet) 3) -
    f.current.bytes.length

/-- The packet continues the section that is being put together. -/
def InSequence (f : Filter) (packet : Packet) : Prop :=
  pktPayload packet = true ∧ f.rmn ≠ 0 ∧
    pktCc packet = (f.pktContiCnt + 1) &&& 0xF

/-- The rest of a section comes in good order: the payload begins inside the
packet and completes a split header, a header marked as split is the one in the
record, and the section takes no bytes behind the pointer. -/
structure RestSafe (f : Filter) (packet : Packet) : Prop where
  inside : continuedAt packet ≤ tsPacketSize
  header : 3 ≤ f.lenWord.toNat + (tsPacketSize - continuedAt packet)
  marked : f.secByte = 1 ∨ f.secByte = 2 → f.lenWord = f.secByte
  beforeNext : pktPusi packet = true →
    min (sectionRest f packet) (tsPacketSize - continuedAt packet) ≤
      pointerField packet

/-- A packet in sequence does no harm: no adaptation field stands before a
pointer field, and the section is given up or goes on in good order. -/
def SectionSafe (pid : Option (BitVec 13)) (f : Filter) (packet : Packet) : Prop :=
  pktAccepted pid packet = true → f.procPreCheck = true → InSequence f packet →
    ¬ (pktPusi packet = true ∧ pktAdaptation packet = true) ∧
      (¬ CutShort packet f → RestSafe f packet)

instance (f : Filter) (packet : Packet) : Decidable (InSequence f packet) :=
  inferInstanceAs (Decidable (_ ∧ _))

instance (f : Filter) (packet : Packet) : Decidable (RestSafe f packet) :=
  decidable_of_iff (_ ∧ _ ∧ _ ∧ _)
    ⟨fun ⟨inside, header, marked, next⟩ => ⟨inside, header, marked, next⟩,
      fun safe => ⟨safe.inside, safe.header, safe.marked, safe.beforeNext⟩⟩

instance (pid : Option (BitVec 13)) (f : Filter) (packet : Packet) :
    Decidable (SectionSafe pid f packet) :=
  inferInstanceAs (Decidable (_ → _))

/-! ### Bytes of a header -/

/-- The first three bytes decide about the length. -/
theorem sectionLength_append {packet : Packet} {bytes : List U8}
    {offset size : Nat} (enough : 3 ≤ bytes.length + size) :
    sectionLength (bytes ++ bytesAt packet offset size) =
      sectionLength (bytes ++ bytesAt packet offset 3) := by
  have same : ∀ i, i < 3 → (bytes ++ bytesAt packet offset size)[i]? =
      (bytes ++ bytesAt packet offset 3)[i]? := by
    intro i inside
    by_cases old : i < bytes.length
    · rw [List.getElem?_append_left old, List.getElem?_append_left old]
    · rw [List.getElem?_append_right (by omega),
        List.getElem?_append_right (by omega), getElem?_bytesAt (by omega),
        getElem?_bytesAt (by omega)]
  simp only [sectionLength, List.getD_eq_getElem?_getD, same 1 (by decide),
    same 2 (by decide)]

theorem sectionLength_of_header {bytes more : List U8} (header : 3 ≤ bytes.length) :
    sectionLength (bytes ++ more) = sectionLength bytes := by
  simp only [sectionLength, List.getD_eq_getElem?_getD]
  rw [List.getElem?_append_left (by omega), List.getElem?_append_left (by omega)]

theorem three_le_sectionLength (bytes : List U8) : 3 ≤ sectionLength bytes :=
  Nat.le_add_right 3 _

theorem sectionLength_le (bytes : List U8) : sectionLength bytes ≤ 4098 := by
  have small := lengthOf_lt (bytes.getD 1 0) (bytes.getD 2 0)
  rw [sectionLength]
  omega

/-! ### The state between packets -/

/-- The length of the section is known, or its header is still incomplete. -/
inductive Header (f : Filter) : Prop
  | known (bytes : 3 ≤ f.lenWord.toNat)
      (total : f.lenWord.toNat + f.rmn.toNat = sectionLength f.current.bytes)
  | two (pending : 4096 ≤ f.rmn.toNat) (count : f.lenWord = 2)
      (marked : f.secByte = 2)
      (data : f.secLenData =
        ((f.current.bytes.getD 1 0).setWidth 32 &&& 0xF) <<< 8)
  | one (pending : 4096 ≤ f.rmn.toNat) (count : f.lenWord = 1)
      (marked : f.secByte = 1)

/-- The filter holds the beginning of one section. -/
structure Assembling (f : Filter) : Prop where
  more : f.rmn ≠ 0
  chunks : ∃ last, SectionChunks f.record last ∧
    last.offset + last.size = tsPacketSize ∧
      f.pktContiCnt &&& 0xF = pktCc last.packet
  count : f.lenWord.toNat = f.current.bytes.length
  header : Header f

/-- What is delivered on the way from one state to another is one section
each. -/
def Delivers (f g : Filter) : Prop :=
  ∀ r ∈ g.delivered, r ∈ f.delivered ∨ OneSection r

theorem Delivers.of_eq {f g : Filter} (same : g.delivered = f.delivered) :
    Delivers f g := by
  intro r member
  rw [same] at member
  exact .inl member

theorem Delivers.trans {f g h : Filter} (first : Delivers f g)
    (second : Delivers g h) : Delivers f h := by
  intro r member
  rcases second r member with earlier | section'
  · exact first r earlier
  · exact .inr section'

/-- The end of a section delivers it or drops it. -/
theorem delivers_secTail {hw : Hw} {f : Filter} (one : OneSection f.current) :
    Delivers f (secTail hw f) := by
  intro r member
  rcases secTail_delivered hw f with same | grown
  · rw [same] at member
    exact .inl member
  · rw [grown, List.mem_append, List.mem_singleton] at member
    rcases member with earlier | new
    · exact .inl earlier
    · rw [new]
      exact .inr one

/-! ### A packet that continues a section -/

section Follow

variable {hw : Hw} {packet : Packet} {f : Filter}

/-- The length that the firmware settles on is what is missing. -/
theorem toNat_splitLength (count : f.lenWord.toNat = f.current.bytes.length)
    (header : Header f)
    (marked : f.secByte = 1 ∨ f.secByte = 2 → f.lenWord = f.secByte) :
    (splitLength packet f (continuedAt packet)).toNat = sectionRest f packet := by
  rw [sectionRest, ← count]
  cases header with
  | known bytes total =>
      have unsplit : ¬ (f.secByte = 1 ∨ f.secByte = 2) := by
        intro split
        rw [marked split] at bytes
        rcases split with one | two
        · rw [one] at bytes
          exact absurd bytes (by decide)
        · rw [two] at bytes
          exact absurd bytes (by decide)
      rw [not_or] at unsplit
      rw [splitLength, if_neg unsplit.2, if_neg unsplit.1,
        sectionLength_of_header (by omega), ← total]
      omega
  | two pending pair second data =>
      rw [pair] at count ⊢
      obtain ⟨first, high, split⟩ := List.length_eq_two.mp count.symm
      rw [split] at data ⊢
      change _ = (high.setWidth 32 &&& 0xF) <<< 8 at data
      rw [toNat_splitLength_two second data]
      change _ = 3 + lengthOf high (packet (continuedAt packet)) - 2
      omega
  | one pending single marked =>
      rw [single] at count ⊢
      obtain ⟨first, split⟩ := List.length_eq_one_iff.mp count.symm
      rw [split, toNat_splitLength_one marked]
      change _ = 3 + lengthOf (packet (continuedAt packet))
        (packet (continuedAt packet + 1)) - 1
      omega

/-- A DMA from the head of a packet continues the section. -/
theorem chunks_taken {last : Chunk} {size : U32}
    (small : size.toNat < 2 ^ 16) (before : SectionChunks f.record last)
    (toEnd : last.offset + last.size = tsPacketSize)
    (payload : pktPayload packet = true)
    (counter : pktCc packet = (pktCc last.packet + 1) &&& 0xF)
    (fits : continuedAt packet + size.toNat ≤ tsPacketSize)
    (beforeNext : pktPusi packet = true → size.toNat ≤ pointerField packet) :
    SectionChunks (f.taken packet (continuedAt packet) size .on false).record
      ⟨f.dmaCount, false, packet, continuedAt packet, size.toNat⟩ := by
  rw [Filter.taken_record small]
  exact .more before ⟨rfl, payload, counter, toEnd, rfl, fits, beforeNext⟩

/-- The DMA that continues a section of settled length either ends it or leaves
it incomplete at the end of the packet. -/
theorem secDma_follow {length : U32} {last : Chunk}
    (before : SectionChunks f.record last)
    (toEnd : last.offset + last.size = tsPacketSize)
    (payload : pktPayload packet = true)
    (counter : pktCc packet = (pktCc last.packet + 1) &&& 0xF)
    (current : f.pktContiCnt &&& 0xF = pktCc packet)
    (count : f.lenWord.toNat = f.current.bytes.length)
    (remaining : f.rmn = length)
    (total : f.lenWord.toNat + length.toNat =
      sectionLength (f.current.bytes ++ bytesAt packet (continuedAt packet) 3))
    (inside : continuedAt packet ≤ tsPacketSize)
    (enough : 3 ≤ f.lenWord.toNat + (tsPacketSize - continuedAt packet))
    (beforeNext : pktPusi packet = true →
      min length.toNat (tsPacketSize - continuedAt packet) ≤
        pointerField packet) :
    Delivers f (secDma hw packet f (continuedAt packet) length .on false).2 ∧
      ((secDma hw packet f (continuedAt packet) length .on false).2.Idle ∨
        Assembling (secDma hw packet f (continuedAt packet) length .on false).2 ∧
          (pktPusi packet = true → tsPacketSize - continuedAt packet ≤
            pointerField packet)) := by
  have bound := sectionLength_le
    (f.current.bytes ++ bytesAt packet (continuedAt packet) 3)
  have three := three_le_sectionLength
    (f.current.bytes ++ bytesAt packet (continuedAt packet) 3)
  rcases secDma_cases hw packet f (continuedAt packet) length .on false with
    ⟨-, idle, same⟩ | ⟨tail, done⟩ | ⟨partly, done⟩
  · exact ⟨Delivers.of_eq same, .inl idle⟩
  · rw [done]
    have small : length.toNat < 2 ^ 16 := by omega
    have bytes := @Filter.bytes_current_taken f packet (continuedAt packet) length
      .on false small
    have sum := @Filter.toNat_lenWord_taken f packet (continuedAt packet) length
      .on false (by omega)
    refine ⟨(Delivers.of_eq rfl).trans (delivers_secTail ⟨?_, ?_, ?_⟩),
      .inl (idle_secTail ?_)⟩
    · refine ⟨_, chunks_taken small before toEnd payload counter tail ?_⟩
      intro pusi
      have room := beforeNext pusi
      rw [Nat.min_eq_left (by omega)] at room
      exact room
    · rw [bytes, List.length_append, length_bytesAt, ← count]
      exact sum
    · rw [bytes, sectionLength_append (by omega), ← total]
      exact sum
    · apply BitVec.eq_of_toNat_eq
      rw [Filter.toNat_rmn_taken (by rw [remaining]), remaining, Nat.sub_self]
      rfl
  · rw [done]
    have rest := toNat_restOfPacket inside
    have small : (restOfPacket (continuedAt packet)).toNat < 2 ^ 16 := by
      rw [rest, tsPacketSize]
      omega
    have bytes := @Filter.bytes_current_taken f packet (continuedAt packet)
      (restOfPacket (continuedAt packet)) .on false small
    have sum := @Filter.toNat_lenWord_taken f packet (continuedAt packet)
      (restOfPacket (continuedAt packet)) .on false (by omega)
    have left := @Filter.toNat_rmn_taken f packet (continuedAt packet)
      (restOfPacket (continuedAt packet)) .on false
      (by rw [remaining, rest]; omega)
    have room : pktPusi packet = true →
        tsPacketSize - continuedAt packet ≤ pointerField packet := by
      intro pusi
      have room := beforeNext pusi
      rw [Nat.min_eq_right (by omega)] at room
      exact room
    refine ⟨Delivers.of_eq rfl, .inr ⟨⟨?_, ?_, ?_, .known ?_ ?_⟩, room⟩⟩
    · intro none
      rw [none, remaining, rest] at left
      change 0 = _ at left
      omega
    · refine ⟨_, chunks_taken small before toEnd payload counter (by omega) ?_,
        ?_, current⟩
      · rw [rest]
        exact room
      · change continuedAt packet + (restOfPacket (continuedAt packet)).toNat = _
        omega
    · rw [bytes, List.length_append, length_bytesAt, ← count]
      exact sum
    · rw [sum, rest]
      exact enough
    · rw [bytes, sectionLength_append (by omega), ← total, sum, left, remaining]
      omega

/-- What the filter holds when `_GetSecFollowPackets` is done. -/
def Followed (f : Filter) (packet : Packet) (g : Filter) : Prop :=
  Delivers f g ∧
    (g.Idle ∨ Assembling g ∧ (pktPusi packet = true →
      tsPacketSize - continuedAt packet ≤ pointerField packet))

theorem followed_revertFlt {g : Filter} (same : g.delivered = f.delivered) :
    Followed f packet g.revertFlt :=
  ⟨Delivers.of_eq same, .inl g.idle_revertFlt⟩

theorem counter_add_one (count : U32) :
    ((count &&& 0xF) + 1) &&& 0xF = (count + 1) &&& 0xF := by
  have low : ∀ word : U32, (word &&& 0xF).toNat = word.toNat % 16 := by
    intro word
    rw [BitVec.toNat_and]
    exact Nat.and_two_pow_sub_one_eq_mod word.toNat 4
  apply BitVec.eq_of_toNat_eq
  rw [low, low, BitVec.toNat_add, BitVec.toNat_add, low]
  omega

/-- No more bytes are there than the section has. -/
theorem Assembling.length_le (assembling : Assembling f) (more : List U8) :
    f.current.bytes.length ≤ sectionLength (f.current.bytes ++ more) := by
  have three := three_le_sectionLength (f.current.bytes ++ more)
  have count := assembling.count
  cases assembling.header with
  | known bytes total =>
      rw [sectionLength_of_header (by omega), ← total]
      omega
  | two pending pair marked data =>
      rw [← count, pair]
      exact Nat.le_trans (by decide) three
  | one pending single marked =>
      rw [← count, single]
      exact Nat.le_trans (by decide) three

/-- A packet in sequence continues the section or ends it. -/
theorem followed_section (assembling : Assembling f)
    (payload : pktPayload packet = true)
    (counter : pktCc packet = (f.pktContiCnt + 1) &&& 0xF)
    (safe : ¬ CutShort packet f → RestSafe f packet) :
    Followed f packet (followSection hw packet f.counted).2.2 := by
  rw [followSection]
  by_cases cut : CutShort packet f.counted
  · rw [if_pos cut]
    exact followed_revertFlt rfl
  have safe := safe cut
  rw [if_neg cut]
  split
  · have count := assembling.count
    have length := @toNat_splitLength packet f count assembling.header safe.marked
    have three := three_le_sectionLength
      (f.current.bytes ++ bytesAt packet (continuedAt packet) 3)
    have bound := sectionLength_le
      (f.current.bytes ++ bytesAt packet (continuedAt packet) 3)
    have small : (splitLength packet f (continuedAt packet)).toNat < 2 ^ 16 := by
      rw [length, sectionRest]
      omega
    obtain ⟨last, before, toEnd, counted⟩ := assembling.chunks
    have remaining : (followState packet f.counted).rmn =
        splitLength packet f (continuedAt packet) := Filter.rmn_setRmn small
    have fits := assembling.length_le (bytesAt packet (continuedAt packet) 3)
    rw [remaining]
    apply @secDma_follow hw packet (followState packet f.counted) _ last before
      toEnd payload _ counter.symm count remaining _ safe.inside safe.header
    · intro pusi
      rw [length]
      exact safe.beforeNext pusi
    · rw [counter, ← counted, counter_add_one]
    · change f.lenWord.toNat + _ = sectionLength (f.current.bytes ++ _)
      rw [length, sectionRest, count]
      omega
  · exact followed_revertFlt rfl

theorem followed_getSecFollowPackets (here : f.Idle ∨ Assembling f)
    (safe : InSequence f packet → ¬ CutShort packet f → RestSafe f packet) :
    Followed f packet (getSecFollowPackets hw packet f).2.2 ∨
      ((getSecFollowPackets hw packet f) = (true, 0, f) ∧
        pktPayload packet = false) := by
  rw [getSecFollowPackets]
  by_cases continues : pktPayload packet = true ∧ f.rmn ≠ 0
  · rw [if_pos continues]
    left
    by_cases lost : pktCc packet ≠ f.counted.pktContiCnt &&& 0xF
    · rw [if_pos lost]
      exact followed_revertFlt rfl
    · rw [if_neg lost]
      have counter := Decidable.not_not.mp lost
      have assembling := here.resolve_left
        fun idle => continues.2 idle.rmn_eq
      exact followed_section assembling continues.1 counter
        (safe ⟨continues.1, continues.2, counter⟩)
  · rw [if_neg continues]
    cases payload : pktPayload packet with
    | false => exact .inr ⟨rfl, rfl⟩
    | true =>
        left
        rcases here with idle | assembling
        · exact ⟨Delivers.of_eq rfl, .inl idle⟩
        · exact absurd ⟨payload, assembling.more⟩ continues

end Follow

/-! ### Sections that begin in a packet -/

section First

variable {hw : Hw} {packet : Packet} {f : Filter} {offset : Nat}

/-- The section that begins at an offset goes beyond the packet, or is as long as
it states. -/
theorem firstLength_cases (packet : Packet) {offset : Nat}
    (inside : offset < tsPacketSize) :
    (firstLength packet offset = 0xFFFF ∧
        (offset = tsPacketSize - 2 ∨ offset = tsPacketSize - 1)) ∨
      (offset + 2 < tsPacketSize ∧ (firstLength packet offset).toNat =
        sectionLength (bytesAt packet offset 3)) := by
  by_cases whole : offset + 2 < tsPacketSize
  · exact .inr ⟨whole, toNat_firstLength whole⟩
  · refine .inl ⟨firstLength_of_split whole inside, ?_⟩
    rw [tsPacketSize] at *
    omega

/-- The continuity counter has four bits. -/
theorem counter_mask (packet : Packet) : pktCc packet &&& 0xF = pktCc packet := by
  rw [pktCc, BitVec.and_assoc]
  rfl

/-- The length and the header of a section of which the rest of the packet is
taken. -/
theorem header_first {g : Filter} (inside : offset < tsPacketSize)
    (beyond : tsPacketSize < offset + (firstLength packet offset).toNat)
    (bytes : g.current.bytes = bytesAt packet offset (tsPacketSize - offset))
    (count : g.lenWord.toNat = tsPacketSize - offset)
    (left : g.rmn.toNat =
      (firstLength packet offset).toNat - (tsPacketSize - offset))
    (marked : g.secByte = (headState packet f offset).secByte)
    (data : g.secLenData = (headState packet f offset).secLenData) :
    Header g := by
  rcases firstLength_cases packet inside with ⟨long, two | one⟩ | ⟨whole, length⟩
  · subst two
    rw [long] at left
    refine .two ?_ (BitVec.eq_of_toNat_eq count) marked ?_
    · rw [left]
      decide
    · rw [bytes, data]
      exact secLenData_eq packet (tsPacketSize - 2)
  · subst one
    rw [long] at left
    refine .one ?_ (BitVec.eq_of_toNat_eq count) marked
    rw [left]
    decide
  · apply Header.known
    · omega
    · have same := @sectionLength_append packet [] offset (tsPacketSize - offset)
        (by rw [List.length_nil]; omega)
      rw [List.nil_append, List.nil_append] at same
      rw [bytes, same, count, left, ← length]
      omega

/-- A section that is taken at its start is complete in the packet, or the packet
ends and the section is incomplete. -/
theorem secDma_first (idle : f.Idle) (starts : SectionStart packet offset)
    (inside : offset < tsPacketSize) (used : packet offset ≠ 0xFF) :
    Delivers f (secDma hw packet (firstState packet f offset) offset
        (firstLength packet offset) .restart true).2 ∧
      ((secDma hw packet (firstState packet f offset) offset
          (firstLength packet offset) .restart true).2.Idle ∨
        Assembling (secDma hw packet (firstState packet f offset) offset
          (firstLength packet offset) .restart true).2 ∧
        tsPacketSize < offset + (firstLength packet offset).toNat) := by
  have small := firstLength_lt packet offset
  have remaining : (firstState packet f offset).rmn = firstLength packet offset :=
    Filter.rmn_setRmn small
  have none : (firstState packet f offset).record = [] := idle.record_eq
  have empty : (firstState packet f offset).current.bytes = [] := by
    rw [Filter.current, Record.bytes, none]
    rfl
  have zero : (firstState packet f offset).lenWord.toNat = 0 := by
    change f.lenWord.toNat = 0
    rw [idle.lenWord_eq]
    rfl
  rcases secDma_cases hw packet (firstState packet f offset) offset
    (firstLength packet offset) .restart true with
    ⟨-, idle, same⟩ | ⟨tail, done⟩ | ⟨partly, done⟩
  · exact ⟨Delivers.of_eq same, .inl idle⟩
  · rw [done]
    have bytes := @Filter.bytes_current_taken (firstState packet f offset) packet
      offset (firstLength packet offset) .restart true small
    have sum := @Filter.toNat_lenWord_taken (firstState packet f offset) packet
      offset (firstLength packet offset) .restart true (by omega)
    rw [empty, List.nil_append] at bytes
    rw [zero, Nat.zero_add] at sum
    have three := three_le_firstLength packet offset
    have whole : (firstLength packet offset).toNat =
        sectionLength (bytesAt packet offset 3) := toNat_firstLength (by omega)
    refine ⟨(Delivers.of_eq rfl).trans (delivers_secTail ⟨?_, ?_, ?_⟩),
      .inl (idle_secTail ?_)⟩
    · change ∃ last, SectionChunks ((firstState packet f offset).taken packet
        offset (firstLength packet offset) .restart true).record last
      rw [Filter.taken_record small, none, List.nil_append]
      exact ⟨_, .first ⟨rfl, starts, inside, tail, used⟩⟩
    · rw [bytes, length_bytesAt]
      exact sum
    · have same := @sectionLength_append packet [] offset
        (firstLength packet offset).toNat (by rw [List.length_nil]; omega)
      rw [List.nil_append, List.nil_append] at same
      rw [bytes, same, ← whole]
      exact sum
    · apply BitVec.eq_of_toNat_eq
      rw [Filter.toNat_rmn_taken (by rw [remaining]), remaining, Nat.sub_self]
      rfl
  · rw [done]
    have rest := toNat_restOfPacket (Nat.le_of_lt inside)
    have restSmall : (restOfPacket offset).toNat < 2 ^ 16 := by
      rw [rest, tsPacketSize]
      omega
    have bytes := @Filter.bytes_current_taken (firstState packet f offset) packet
      offset (restOfPacket offset) .restart true restSmall
    have sum := @Filter.toNat_lenWord_taken (firstState packet f offset) packet
      offset (restOfPacket offset) .restart true (by omega)
    have left := @Filter.toNat_rmn_taken (firstState packet f offset) packet
      offset (restOfPacket offset) .restart true
      (by rw [remaining, rest]; omega)
    rw [empty, List.nil_append, rest] at bytes
    rw [zero, Nat.zero_add, rest] at sum
    rw [remaining, rest] at left
    refine ⟨Delivers.of_eq rfl, .inr ⟨⟨?_, ?_, ?_, ?_⟩, partly⟩⟩
    · intro ended
      rw [ended] at left
      change 0 = _ at left
      omega
    · rw [Filter.taken_record restSmall, none, List.nil_append]
      refine ⟨_, .first ⟨rfl, starts, inside, ?_, used⟩, ?_, counter_mask packet⟩
      · rw [rest]
        exact Nat.le_of_eq (Nat.add_sub_of_le (Nat.le_of_lt inside))
      · rw [rest]
        exact Nat.add_sub_of_le (Nat.le_of_lt inside)
    · rw [bytes, length_bytesAt]
      exact sum
    · exact @header_first packet f offset _ inside partly bytes sum left rfl rfl

/-- What the filter holds before a turn of the loop. -/
def Looping (packet : Packet) (offset : Nat) (f : Filter) : Prop :=
  f.Idle ∧ (offset < tsPacketSize → SectionStart packet offset) ∨
    Assembling f ∧ tsPacketSize ≤ offset

theorem looping_next {g : Filter} (starts : SectionStart packet offset)
    (used : packet offset ≠ 0xFF) (inside : offset < tsPacketSize) (idle : g.Idle) :
    Looping packet (offset + (firstLength packet offset).toNat) g := by
  refine .inl ⟨idle, ?_⟩
  intro next
  have three := three_le_firstLength packet offset
  rw [toNat_firstLength (by omega)]
  exact .behind starts (by omega) used

theorem secTurn_keeps (idle : f.Idle) (starts : SectionStart packet offset)
    (inside : offset < tsPacketSize) (used : packet offset ≠ 0xFF) :
    (∃ g, secTurn hw packet f offset = .next g ∧ Delivers f g ∧
        Looping packet (offset + (firstLength packet offset).toNat) g) ∨
      ∃ processed g, secTurn hw packet f offset = .leave processed g ∧
        Delivers f g ∧ (g.Idle ∨ Assembling g) := by
  have dma := @secDma_first hw packet f offset idle starts inside used
  simp only [secTurn]
  split
  · split
    · exact .inr ⟨_, _, rfl, Delivers.of_eq rfl, .inl (Filter.idle_revertFlt _)⟩
    · split
      · refine .inl ⟨_, rfl, dma.1, ?_⟩
        rcases dma.2 with idle | ⟨assembling, beyond⟩
        · exact looping_next starts used inside idle
        · exact .inr ⟨assembling, Nat.le_of_lt beyond⟩
      · refine .inr ⟨_, _, rfl, dma.1, ?_⟩
        rcases dma.2 with idle | ⟨assembling, -⟩
        · exact .inl idle
        · exact .inr assembling
  · refine .inl ⟨_, rfl, Delivers.of_eq rfl, ?_⟩
    exact looping_next starts used inside
      ⟨idle.rmn_eq, idle.lenWord_eq, idle.record_eq⟩

theorem secLoop_keeps (turns : Nat) (here : Looping packet offset f) :
    Delivers f (secLoop hw packet turns f offset).2 ∧
      ((secLoop hw packet turns f offset).2.Idle ∨
        Assembling (secLoop hw packet turns f offset).2) := by
  have still : f.Idle ∨ Assembling f := by
    rcases here with ⟨idle, -⟩ | ⟨assembling, -⟩
    · exact .inl idle
    · exact .inr assembling
  induction turns generalizing f offset with
  | zero => exact ⟨Delivers.of_eq rfl, still⟩
  | succ turns inductionHypothesis =>
      rw [secLoop]
      split
      · rename_i more
        have used : packet offset ≠ 0xFF := by
          intro stuffing
          apply more.2
          rw [cacheByte_eq, stuffing]
          rfl
        rcases here with ⟨idle, starts⟩ | ⟨-, beyond⟩
        · rcases @secTurn_keeps hw packet f offset idle (starts more.1) more.1
            used with ⟨g, turn, before, next⟩ | ⟨processed, g, turn, before, end'⟩
          · rw [turn]
            have rest := inductionHypothesis next (by
              rcases next with ⟨idle, -⟩ | ⟨assembling, -⟩
              · exact .inl idle
              · exact .inr assembling)
            exact ⟨before.trans rest.1, rest.2⟩
          · rw [turn]
            exact ⟨before, end'⟩
        · exact absurd more.1 (Nat.not_lt_of_le beyond)
      · exact ⟨Delivers.of_eq rfl, still⟩

end First

/-! ### Runs -/

section Runs

variable {hw : Hw} {packet : Packet} {f : Filter} {pid : Option (BitVec 13)}

/-- Without an adaptation field, or with the window at the start of the packet,
the sections are looked for where the pointer field points to. -/
theorem firstOffset_eq {window : Nat}
    (there : window = 0 ∨ pktAdaptation packet = false) :
    firstOffset packet window =
      payloadOffset packet 0 + 1 + pointerField packet := by
  have same : payloadOffset packet window = payloadOffset packet 0 := by
    rcases there with zero | none
    · rw [zero]
    · rw [payloadOffset, payloadOffset, none]
      rfl
  rw [firstOffset, toNat_cacheByte, same]
  rfl

theorem followWindow_safe (hw : Hw)
    (safe : InSequence f packet → pktAdaptation packet = false) :
    (getSecFollowPackets hw packet f).2.1 = 0 ∨ pktAdaptation packet = false := by
  by_cases sequence : InSequence f packet
  · exact .inr (safe sequence)
  · left
    rw [getSecFollowPackets]
    split
    · rename_i continues
      rw [if_pos]
      intro counter
      exact sequence ⟨continues.1, continues.2, counter⟩
    · rfl

theorem looping_followed {g : Filter}
    (starts : pktPusi packet = true ∧ pktPayload packet = true)
    (next : g.Idle ∨ Assembling g ∧ (pktPusi packet = true →
      tsPacketSize - continuedAt packet ≤ pointerField packet)) :
    Looping packet (payloadOffset packet 0 + 1 + pointerField packet) g := by
  rcases next with idle | ⟨assembling, beyond⟩
  · exact .inl ⟨idle, fun _ => .pointed starts.1 starts.2⟩
  · refine .inr ⟨assembling, ?_⟩
    have beyond := beyond starts.1
    rw [continuedAt, if_pos starts.1] at beyond
    omega

/-- A packet that does no harm keeps the records whole. -/
theorem procSection_keeps (here : f.Idle ∨ Assembling f)
    (safe : SectionSafe pid f packet) :
    Delivers f (procSection hw packet pid f) ∧
      ((procSection hw packet pid f).Idle ∨
        Assembling (procSection hw packet pid f)) := by
  simp only [procSection]
  split
  · rename_i enabled
    have safe := safe enabled.1 enabled.2
    rcases @followed_getSecFollowPackets hw _ _ here
        (fun sequence => (safe sequence).2) with ⟨before, next⟩ | ⟨same, none⟩
    · split
      · rw [getSecFirstPacket]
        split
        · rename_i starts
          have direct : InSequence f packet → pktAdaptation packet = false := by
            intro sequence
            cases field : pktAdaptation packet with
            | false => rfl
            | true => exact absurd ⟨starts.1, field⟩ (safe sequence).1
          rw [firstOffset_eq (followWindow_safe hw direct)]
          have loop := @secLoop_keeps hw packet _ _ tsPacketSize
            (looping_followed starts next)
          exact ⟨before.trans loop.1, loop.2⟩
        · exact ⟨before, next.imp_right And.left⟩
      · exact ⟨before, next.imp_right And.left⟩
    · rw [same]
      rw [if_pos rfl, getSecFirstPacket, if_neg (by rw [none]; simp)]
      exact ⟨Delivers.of_eq rfl, here⟩
  · exact ⟨Delivers.of_eq rfl, here⟩

/-- After every run of packets that do no harm, every record is one section. -/
theorem records_oneSection (hw : Hw) (pid : Option (BitVec 13)) (f : Filter)
    (idle : f.Idle) (packets : List Packet)
    (safe : Run.Meets (fun f packet => procSection hw packet pid f)
      (SectionSafe pid) f packets) :
    ∀ r ∈ (packets.foldl (fun f packet => procSection hw packet pid f) f).delivered,
      r ∈ f.delivered ∨ OneSection r := by
  have kept : ∀ g packet, Delivers f g ∧ (g.Idle ∨ Assembling g) →
      SectionSafe pid g packet → Delivers f (procSection hw packet pid g) ∧
        ((procSection hw packet pid g).Idle ∨
          Assembling (procSection hw packet pid g)) := by
    intro g packet here meets
    have step := @procSection_keeps hw packet g pid here.2 meets
    exact ⟨here.1.trans step.1, step.2⟩
  exact (safe.keeps kept ⟨Delivers.of_eq rfl, .inl idle⟩).1

end Runs

/-! ### Two runs -/

/-- The CRC-32 of MPEG-2 streams: generator `0x04C11DB7`, all bits set at first. -/
def mpegCrc (bytes : List U8) : U32 :=
  bytes.foldl (fun crc byte =>
    (List.range 8).foldl (fun crc bit =>
      if crc.getLsbD 31 = byte.getLsbD (7 - bit) then crc <<< 1
      else (crc <<< 1) ^^^ 0x04C11DB7) crc) 0xFFFFFFFF

/-- Every DMA succeeds. -/
def calmHw : Hw where
  dma _ := ⟨false, false⟩
  crc := mpegCrc

/-- A filter that takes every section with a correct CRC. -/
def openFilter : Filter where
  ctrl := modeCrcChk
  ptn := ⟨fun _ => 0, fun _ => 0xFFFFFFFF, 0, fun _ => 0xFFFFFFFF, fun _ => 0⟩
  bufStart := 0x1000
  bufEnd := 0x5000
  bufRead := 0x1000
  bufWrite := 0x1000
  bufCur := 0x1004
  rmnReqCnt := 0
  bufPtr := 0x1000
  lenWord := 0
  dataSize := 0
  pktContiCnt := 0
  secByte := 0
  secLenData := 0
  notVerEnable := false
  notVersion := 0
  secOverflow := false
  wCount := 0
  record := []
  crcBytes := []
  dmaCount := 0
  events := []
  calls := []
  delivered := []

theorem idle_openFilter : openFilter.Idle := ⟨by decide, rfl, rfl⟩

/-- A packet with some bytes at its head, some at an offset, and stuffing. -/
def stuffedPacket (head : List U8) (offset : Nat) (later : List U8) : Packet :=
  fun i => if i < offset then head.getD i 0xFF else later.getD (i - offset) 0xFF

/-- A section whose header is split after its third byte. -/
def splitRun : List Packet :=
  [stuffedPacket [0x47, 0x40, 0x00, 0x10, 0xB4] 185 [0x42, 0xB0, 0x04],
    stuffedPacket [0x47, 0x00, 0x00, 0x11] 4 [0x63, 0x84, 0x06, 0xBF]]

theorem records_oneSection_split :
    (splitRun.foldl (fun f packet => procSection calmHw packet none f)
      openFilter).delivered.length = 1 ∧
    ∀ r ∈ (splitRun.foldl (fun f packet => procSection calmHw packet none f)
      openFilter).delivered, r ∈ openFilter.delivered ∨ OneSection r :=
  ⟨by decide +kernel,
    records_oneSection calmHw none openFilter idle_openFilter _ (by decide +kernel)⟩

/-- One byte of a section, then a packet whose pointer field announces the next
section although the rest of the first one would be longer. -/
def cutRun : List Packet :=
  [stuffedPacket [0x47, 0x40, 0x00, 0x10, 0xB6] 187 [0x41],
    stuffedPacket [0x47, 0x40, 0x00, 0x11, 0x02, 0x0F, 0xFF] 7
      [0x42, 0xB0, 0x04, 0x63, 0x84, 0x06, 0xBF]]

/-- The bytes of the lost section stay in front of the next one. -/
theorem stale_prefix_delivered :
    openFilter.Idle ∧ openFilter.ctrl &&& modeCrcChk ≠ 0 ∧
      ¬ ∀ r ∈ (cutRun.foldl (fun f packet => procSection calmHw packet none f)
          openFilter).delivered, OneSection r := by
  have lengths : (cutRun.foldl (fun f packet => procSection calmHw packet none f)
      openFilter).delivered.map (fun r => (r.size.toNat, sectionLength r.bytes)) =
        [(191, 4098)] := by
    decide +kernel
  refine ⟨idle_openFilter, by decide, ?_⟩
  intro whole
  rw [List.map_eq_singleton_iff] at lengths
  obtain ⟨r, only, lengths⟩ := lengths
  have one := whole r (by rw [only]; exact List.mem_singleton_self r)
  have same := one.length_eq
  rw [Prod.mk.injEq] at lengths
  rw [lengths.1, lengths.2] at same
  exact absurd same (by decide)

end Gp2Firmware.Tsp
