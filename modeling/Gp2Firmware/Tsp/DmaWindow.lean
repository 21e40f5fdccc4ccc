import Gp2Firmware.Lib.Run
import Gp2Firmware.Tsp.FilterLog
import Gp2Firmware.Tsp.Pes
import Gp2Firmware.Tsp.SectionRecords

/-!
# The window of a DMA

Every DMA that the firmware starts for a section or PES packet copies some bytes of
the packet in the cache, and what it copies is subtracted from what remains.  The
offsets come from the stream: the adaptation field and the pointer field.
-/

namespace Gp2Firmware.Tsp

/-- A DMA as it is started: `Pkt_DmaAddr`, `Pkt_DmaSize`, and the remaining count if
the size is subtracted from it. -/
structure DmaStart where
  addr : Nat
  size : Nat
  count : Option Nat
  deriving DecidableEq

/-- The DMA copies some bytes of the packet, and no more than remain. -/
structure DmaStart.InWindow (d : DmaStart) : Prop where
  positive : 1 ≤ d.size
  inside : d.addr + d.size ≤ tsPacketSize
  remains : ∀ count ∈ d.count, d.size ≤ count

variable (hw : Hw) (packet : Packet)

/-- The DMA of a part of a section or PES packet. -/
def partDma (f : Filter) (offset : Nat) (length : U32) (counted : Bool) : DmaStart where
  addr := offset
  size := (if offset + length.toNat ≤ tsPacketSize then length
    else restOfPacket offset).toNat % 2 ^ 16
  count := if counted then some f.rmn.toNat else none

/-! ### The DMAs that a packet starts -/

/-- The DMA that `_GetSecFollowPackets` starts. -/
def followDmas (f : Filter) : List DmaStart :=
  if pktPayload packet ∧ f.rmn ≠ 0 then
    if pktCc packet ≠ f.counted.pktContiCnt &&& 0xF then []
    else if CutShort packet f.counted then []
    else if (followPattern packet f.counted (continuedAt packet)).1 then
      [partDma (followState packet f.counted) (continuedAt packet)
        (followState packet f.counted).rmn true]
    else []
  else []

/-- The DMA that one turn of the loop of `_GetSecFirstPacket` starts. -/
def turnDmas (f : Filter) (offset : Nat) : List DmaStart :=
  if (patternMatchHead packet offset f.ptn).1 then
    if headVersionDrop packet f offset then []
    else [partDma (firstState packet f offset) offset (firstLength packet offset) true]
  else []

/-- The DMAs of the loop of `_GetSecFirstPacket`. -/
def loopDmas : Nat → Filter → Nat → List DmaStart
  | 0, _, _ => []
  | turns + 1, f, offset =>
      if offset < tsPacketSize ∧ cacheByte packet offset ≠ 0xFF then
        turnDmas packet f offset ++
          match secTurn hw packet f offset with
          | .next f => loopDmas turns f (offset + (firstLength packet offset).toNat)
          | .leave _ _ => []
      else []

/-- The DMAs that `_GetSecFirstPacket` starts. -/
def firstDmas (window : Nat) (f : Filter) : List DmaStart :=
  if pktPusi packet ∧ pktPayload packet then
    loopDmas hw packet tsPacketSize f (firstOffset packet window)
  else []

/-- The DMAs that a packet starts for a section filter. -/
def sectionDmas (pid : Option (BitVec 13)) (f : Filter) : List DmaStart :=
  if pktAccepted pid packet ∧ f.procPreCheck then
    let followed := getSecFollowPackets hw packet f
    followDmas packet f ++
      if followed.1 then firstDmas hw packet followed.2.1 followed.2.2 else []
  else []

/-- The DMA that `_GetPESFirstPacket` starts. -/
def pesFirstDmas (f : Filter) : List DmaStart :=
  if pktPayload packet then
    let offset := payloadOffset packet 0
    if (patternMatchHead packet offset f.ptn).1 then
      [partDma (pesStart packet f offset) offset (firstPesLength packet offset) true]
    else []
  else []

/-- The DMA of a part of a PES packet of which so much is missing. -/
def pesContinueDmas (f : Filter) (offset : Nat) (length : U32) : List DmaStart :=
  if (patternMatchTail packet offset f.ptn).1 then
    [partDma f offset length (decide (f.dataSize ≠ vpesSizeMax))]
  else []

/-- The DMA that `_GetPESFollowPackets` starts. -/
def pesFollowDmas (f : Filter) : List DmaStart :=
  if pktPayload packet ∧ f.rmn ≠ 0 then
    let offset := payloadOffset packet 0
    if 0 < f.secByte then
      match brokenPesLength packet f offset with
      | some length =>
          pesContinueDmas packet (pesLengthKnown f length) offset (length + 6 - f.secByte)
      | none => []
    else pesContinueDmas packet f offset f.rmn
  else []

/-- The DMA that a packet starts for a PES filter. -/
def pesDmas (pid : Option (BitVec 13)) (f : Filter) : List DmaStart :=
  if pktAccepted pid packet ∧ f.procPreCheck then
    if pktPusi packet then pesFirstDmas packet f else pesFollowDmas packet f
  else []

/-! ### They are all DMAs there are -/

section Count

variable {hw packet} {f : Filter} {offset : Nat}

theorem followDmas_length (hw : Hw) (packet : Packet) (f : Filter) :
    (getSecFollowPackets hw packet f).2.2.dmaCount =
      f.dmaCount + (followDmas packet f).length := by
  rw [getSecFollowPackets, followDmas]
  by_cases continues : pktPayload packet = true ∧ f.rmn ≠ 0
  · rw [if_pos continues, if_pos continues]
    by_cases lost : pktCc packet ≠ f.counted.pktContiCnt &&& 0xF
    · rw [if_pos lost, if_pos lost]
      rfl
    · rw [if_neg lost, if_neg lost, followSection]
      by_cases cut : CutShort packet f.counted
      · rw [if_pos cut, if_pos cut]
        rfl
      · rw [if_neg cut, if_neg cut]
        by_cases kept :
            (followPattern packet f.counted (continuedAt packet)).1 = true
        · rw [if_pos kept, if_pos kept]
          exact secDma_dmaCount hw packet _ _ _ _ _
        · rw [if_neg kept, if_neg kept]
          rfl
  · rw [if_neg continues, if_neg continues]
    rfl

theorem turnDmas_length (hw : Hw) (packet : Packet) (f : Filter) (offset : Nat) :
    (secTurn hw packet f offset).filter.dmaCount =
      f.dmaCount + (turnDmas packet f offset).length := by
  simp only [secTurn, turnDmas]
  by_cases matched : (patternMatchHead packet offset f.ptn).1 = true
  · rw [if_pos matched, if_pos matched]
    by_cases drop : headVersionDrop packet f offset = true
    · rw [if_pos drop, if_pos drop]
      rfl
    · have started := secDma_dmaCount hw packet (firstState packet f offset) offset
        (firstLength packet offset) .restart true
      rw [if_neg drop, if_neg drop]
      split
      · exact started
      · exact started
  · rw [if_neg matched, if_neg matched]
    rfl

theorem loopDmas_length (hw : Hw) (packet : Packet) (turns : Nat) (f : Filter)
    (offset : Nat) :
    (secLoop hw packet turns f offset).2.dmaCount =
      f.dmaCount + (loopDmas hw packet turns f offset).length := by
  induction turns generalizing f offset with
  | zero => rfl
  | succ turns inductionHypothesis =>
      have turn := turnDmas_length hw packet f offset
      rw [secLoop, loopDmas]
      by_cases goes : offset < tsPacketSize ∧ cacheByte packet offset ≠ 0xFF
      · rw [if_pos goes, if_pos goes, List.length_append, ← Nat.add_assoc, ← turn]
        cases secTurn hw packet f offset with
        | next g => exact inductionHypothesis g _
        | leave processed g => rfl
      · rw [if_neg goes, if_neg goes]
        rfl

/-- A packet starts as many DMAs for a section filter as are listed. -/
theorem sectionDmas_length (hw : Hw) (packet : Packet) (pid : Option (BitVec 13))
    (f : Filter) :
    (procSection hw packet pid f).dmaCount =
      f.dmaCount + (sectionDmas hw packet pid f).length := by
  have followed := followDmas_length hw packet f
  simp only [procSection, sectionDmas]
  split
  · rw [List.length_append, ← Nat.add_assoc, ← followed]
    split
    · rw [getSecFirstPacket, firstDmas]
      split
      · exact loopDmas_length hw packet _ _ _
      · rfl
    · rfl
  · rfl

theorem pesDma_dmaCount (hw : Hw) (packet : Packet) (f : Filter) (offset : Nat)
    (length : U32) (start counted : Bool) :
    (pesDma hw packet f offset length start counted).dmaCount = f.dmaCount + 1 := by
  have started := fun size => dmaPostCheck_dmaCount hw f packet offset size .off start
  by_cases tail : offset + length.toNat ≤ tsPacketSize
  · simp only [pesDma, tail, if_true]
    split
    · rw [finishFlt_dmaCount]
      cases counted
      · exact started length
      · exact started length
    · exact started length
  · simp only [pesDma, tail, if_false]
    split
    · cases counted
      · exact started (restOfPacket offset)
      · exact started (restOfPacket offset)
    · exact started (restOfPacket offset)

theorem pesContinueDmas_length (hw : Hw) (packet : Packet) (f : Filter) (offset : Nat)
    (length : U32) :
    (pesContinue hw packet f offset length).dmaCount =
      f.dmaCount + (pesContinueDmas packet f offset length).length := by
  simp only [pesContinue, pesContinueDmas]
  split
  · exact pesDma_dmaCount hw packet _ _ _ _ _
  · rfl

/-- A packet starts as many DMAs for a PES filter as are listed. -/
theorem pesDmas_length (hw : Hw) (packet : Packet) (pid : Option (BitVec 13))
    (f : Filter) :
    (procPes hw packet pid f).dmaCount = f.dmaCount + (pesDmas packet pid f).length := by
  rw [procPes, pesDmas]
  split
  · split
    · rw [getPesFirstPacket, pesFirstDmas]
      by_cases payload : pktPayload packet = true
      · rw [if_pos payload, if_pos payload]
        dsimp only
        split
        · have dropped : (pesStart packet f (payloadOffset packet 0)).dmaCount =
              f.dmaCount := by
            simp only [pesStart]
            split
            · rfl
            · rfl
          rw [pesDma_dmaCount, dropped]
          rfl
        · rfl
      · rw [if_neg payload, if_neg payload]
        rfl
    · rw [getPesFollowPackets, pesFollowDmas]
      by_cases continues : pktPayload packet = true ∧ f.rmn ≠ 0
      · rw [if_pos continues, if_pos continues]
        dsimp only
        split
        · cases brokenPesLength packet f (payloadOffset packet 0) with
          | none => rfl
          | some length => exact pesContinueDmas_length hw packet _ _ _
        · exact pesContinueDmas_length hw packet f _ _
      · rw [if_neg continues, if_neg continues]
        rfl
  · rfl

end Count

/-! ### Windows -/

section Window

variable {hw packet} {f g : Filter} {offset : Nat} {length : U32} {counted : Bool}

/-- The part of a section or PES packet is in the window if it begins in the packet, and
no more of it is taken than is counted. -/
theorem partDma_inWindow_iff (positive : 1 ≤ length.toNat) :
    (partDma f offset length counted).InWindow ↔ offset < tsPacketSize ∧
      (counted = true →
        min length.toNat (tsPacketSize - offset) ≤ f.rmn.toNat) := by
  have parts : (partDma f offset length counted).InWindow ↔
      1 ≤ (partDma f offset length counted).size ∧
        offset + (partDma f offset length counted).size ≤ tsPacketSize ∧
          (counted = true → (partDma f offset length counted).size ≤ f.rmn.toNat) := by
    constructor
    · rintro ⟨here, inside, remains⟩
      refine ⟨here, inside, fun subtracted => remains _ ?_⟩
      rw [partDma, if_pos subtracted]
      rfl
    · rintro ⟨here, inside, remains⟩
      refine ⟨here, inside, fun count subtracted => ?_⟩
      cases counted with
      | false => cases subtracted
      | true => exact Option.some.inj subtracted ▸ remains rfl
  rw [parts, partDma]
  dsimp only
  by_cases tail : offset + length.toNat ≤ tsPacketSize
  · have small : length.toNat % 2 ^ 16 = length.toNat := by
      apply Nat.mod_eq_of_lt
      rw [tsPacketSize] at tail
      omega
    rw [if_pos tail, small, Nat.min_eq_left (by omega)]
    constructor
    · rintro ⟨-, -, remains⟩
      exact ⟨by omega, remains⟩
    · rintro ⟨-, remains⟩
      exact ⟨positive, tail, remains⟩
  · rw [if_neg tail]
    by_cases inside : offset < tsPacketSize
    · have rest := toNat_restOfPacket (Nat.le_of_lt inside)
      have small : (tsPacketSize - offset) % 2 ^ 16 = tsPacketSize - offset := by
        apply Nat.mod_eq_of_lt
        rw [tsPacketSize]
        omega
      rw [rest, small, Nat.min_eq_right (by omega)]
      constructor
      · rintro ⟨-, -, remains⟩
        exact ⟨inside, remains⟩
      · rintro ⟨-, remains⟩
        exact ⟨by omega, by omega, remains⟩
    · apply iff_of_false
      · rintro ⟨here, within, -⟩
        omega
      · exact fun started => inside started.1

/-- What is kept of a split header fits: the upper bits of a section length, or the
upper byte of the length of a PES packet. -/
structure HeaderKept (f : Filter) : Prop where
  small : f.secLenData.toNat < 2 ^ 12
  byte : f.secByte = 5 → f.secLenData.toNat < 2 ^ 8

theorem HeaderKept.congr (kept : HeaderKept f) (secByte : g.secByte = f.secByte)
    (secLenData : g.secLenData = f.secLenData) : HeaderKept g := by
  constructor
  · rw [secLenData]
    exact kept.small
  · rw [secByte, secLenData]
    exact kept.byte

theorem toNat_splitLength_bounds (kept : HeaderKept f) (more : f.rmn ≠ 0) :
    1 ≤ (splitLength packet f offset).toNat ∧
      (splitLength packet f offset).toNat < 2 ^ 16 := by
  by_cases two : f.secByte = 2
  · have small := kept.small
    have byte := (packet offset).isLt
    have joined : (f.secLenData ||| cacheByte packet offset).toNat < 2 ^ 12 := by
      rw [BitVec.toNat_or, toNat_cacheByte]
      exact Nat.or_lt_two_pow small (by omega)
    rw [splitLength, if_pos two, BitVec.toNat_add]
    change 1 ≤ (1 + _) % _ ∧ (1 + _) % _ < _
    omega
  · by_cases one : f.secByte = 1
    · have small := lengthOf_lt (packet offset) (packet (offset + 1))
      rw [toNat_splitLength_one one]
      omega
    · rw [splitLength, if_neg two, if_neg one]
      refine ⟨?_, Filter.rmn_lt f⟩
      rw [Nat.one_le_iff_ne_zero]
      exact fun zero => more (BitVec.eq_of_toNat_eq zero)

/-- The section begins inside of the packet, and so the DMA of its first part does no
harm. -/
theorem turnDmas_inWindow (inside : offset < tsPacketSize) :
    ∀ d ∈ turnDmas packet f offset, d.InWindow := by
  intro d member
  have three := three_le_firstLength packet offset
  have remaining : (firstState packet f offset).rmn = firstLength packet offset :=
    Filter.rmn_setRmn (firstLength_lt packet offset)
  rw [turnDmas] at member
  split at member
  · split at member
    · cases member
    · rw [List.mem_singleton] at member
      rw [member, partDma_inWindow_iff (by omega), remaining]
      exact ⟨inside, fun _ => Nat.min_le_left _ _⟩
  · cases member

theorem loopDmas_inWindow (hw : Hw) (packet : Packet) (turns : Nat) (f : Filter)
    (offset : Nat) : ∀ d ∈ loopDmas hw packet turns f offset, d.InWindow := by
  induction turns generalizing f offset with
  | zero =>
      intro d none
      cases none
  | succ turns inductionHypothesis =>
      intro d member
      rw [loopDmas] at member
      split at member
      · rename_i goes
        rcases List.mem_append.mp member with here | later
        · exact turnDmas_inWindow goes.1 d here
        · cases turn : secTurn hw packet f offset with
          | next g =>
              rw [turn] at later
              exact inductionHypothesis g _ d later
          | leave processed g =>
              rw [turn] at later
              cases later
      · cases member

/-- `_GetSecFirstPacket` starts no DMA outside of the window. -/
theorem firstDmas_inWindow (hw : Hw) (packet : Packet) (window : Nat) (f : Filter) :
    ∀ d ∈ firstDmas hw packet window f, d.InWindow := by
  intro d member
  rw [firstDmas] at member
  split at member
  · exact loopDmas_inWindow hw packet _ _ _ d member
  · cases member

/-- A section that goes on does so inside of the packet. -/
def SectionInside (packet : Packet) (f : Filter) : Prop :=
  InSequence f packet → ¬ CutShort packet f →
    (followPattern packet f (continuedAt packet)).1 = true →
      continuedAt packet < tsPacketSize

theorem followDmas_inWindow_iff (kept : HeaderKept f) :
    (∀ d ∈ followDmas packet f, d.InWindow) ↔ SectionInside packet f := by
  rw [followDmas, SectionInside]
  by_cases continues : pktPayload packet = true ∧ f.rmn ≠ 0
  · rw [if_pos continues]
    by_cases lost : pktCc packet ≠ f.counted.pktContiCnt &&& 0xF
    · rw [if_pos lost]
      exact iff_of_true (fun d none => by cases none) fun sequence => absurd sequence.2.2 lost
    · have sequence : InSequence f packet :=
        ⟨continues.1, continues.2, not_not.mp lost⟩
      rw [if_neg lost, forall_prop_of_true sequence]
      by_cases cut : CutShort packet f
      · rw [if_pos (show CutShort packet f.counted from cut)]
        exact iff_of_true (fun d none => by cases none) fun whole => absurd cut whole
      · rw [if_neg (show ¬ CutShort packet f.counted from cut), forall_prop_of_true cut]
        by_cases taken : (followPattern packet f (continuedAt packet)).1 = true
        · have bounds := @toNat_splitLength_bounds packet f (continuedAt packet) kept
            continues.2
          have remaining : (followState packet f.counted).rmn =
              splitLength packet f (continuedAt packet) := Filter.rmn_setRmn bounds.2
          rw [if_pos (show (followPattern packet f.counted (continuedAt packet)).1 = true
            from taken), forall_prop_of_true taken, List.forall_mem_singleton, remaining,
            partDma_inWindow_iff bounds.1, remaining]
          exact and_iff_left fun _ => Nat.min_le_left _ _
        · rw [if_neg (show ¬ (followPattern packet f.counted (continuedAt packet)).1 = true
            from taken)]
          exact iff_of_true (fun d none => by cases none) fun kept => absurd kept taken
  · rw [if_neg continues]
    exact iff_of_true (fun d none => by cases none)
      fun sequence => absurd ⟨sequence.1, sequence.2.1⟩ continues

/-- Where the DMAs of a packet for a section filter are in the window. -/
theorem sectionDmas_inWindow_iff (hw : Hw) (packet : Packet) (pid : Option (BitVec 13))
    (kept : HeaderKept f) :
    (∀ d ∈ sectionDmas hw packet pid f, d.InWindow) ↔
      (pktAccepted pid packet = true ∧ f.procPreCheck = true →
        SectionInside packet f) := by
  rw [← followDmas_inWindow_iff kept]
  simp only [sectionDmas]
  split
  · rename_i processed
    rw [List.forall_mem_append, forall_prop_of_true processed]
    apply and_iff_left
    split
    · exact firstDmas_inWindow hw packet _ _
    · intro d none
      cases none
  · rename_i ignored
    exact iff_of_true (fun d none => by cases none) fun processed => absurd processed ignored

/-- A PES packet begins inside of the packet, and its size with the header has at most
sixteen bits. -/
def PesBeginsInside (packet : Packet) (f : Filter) : Prop :=
  pktPayload packet = true →
    (patternMatchHead packet (payloadOffset packet 0) f.ptn).1 = true →
      payloadOffset packet 0 < tsPacketSize ∧
        (payloadOffset packet 0 ≤ 182 →
          (pesPacketLength packet (payloadOffset packet 0)).toNat + 6 < 2 ^ 16)

theorem toNat_and_rmnCntMask (word : U32) :
    (word &&& rmnCntMask).toNat = word.toNat % 2 ^ 16 := by
  rw [BitVec.toNat_and]
  exact Nat.and_two_pow_sub_one_eq_mod word.toNat 16

theorem toNat_pesSize (small : length.toNat < 2 ^ 16) :
    (pesSize length).toNat = if length = 0 then 2 ^ 28 - 1 else length.toNat + 6 := by
  rw [pesSize]
  split
  · rfl
  · rw [BitVec.toNat_add]
    change (_ + 6) % _ = _
    omega

theorem pesStart_rmn (packet : Packet) (f : Filter) (offset : Nat) :
    (pesStart packet f offset).rmn.toNat =
      (firstPesLength packet offset).toNat % 2 ^ 16 := by
  have small : (firstPesLength packet offset &&& rmnCntMask).toNat < 2 ^ 16 := by
    rw [toNat_and_rmnCntMask]
    exact Nat.mod_lt _ (by decide)
  rw [← toNat_and_rmnCntMask]
  exact congrArg BitVec.toNat (Filter.rmn_setRmn small)

theorem firstPesLength_remains_iff (packet : Packet) (offset : Nat) :
    1 ≤ (firstPesLength packet offset).toNat ∧
      (min (firstPesLength packet offset).toNat (tsPacketSize - offset) ≤
          (firstPesLength packet offset).toNat % 2 ^ 16 ↔
        (offset ≤ 182 → (pesPacketLength packet offset).toNat + 6 < 2 ^ 16)) := by
  have bound := bigEndian_lt (packet (offset + 4)) (packet (offset + 5))
  rw [← toNat_pesPacketLength] at bound
  have size := toNat_pesSize bound
  rw [firstPesLength]
  by_cases late : 182 < offset
  · rw [if_pos late]
    change 1 ≤ 65535 ∧ (min 65535 _ ≤ 65535 % _ ↔ _)
    exact ⟨by decide, iff_of_true (Nat.min_le_left _ _) fun early => by omega⟩
  · rw [if_neg late, size, tsPacketSize]
    by_cases unbounded : pesPacketLength packet offset = 0
    · rw [if_pos unbounded, unbounded]
      exact ⟨by decide, iff_of_true (by omega) fun _ => by decide⟩
    · rw [if_neg unbounded]
      omega

theorem pesFirstDmas_inWindow_iff :
    (∀ d ∈ pesFirstDmas packet f, d.InWindow) ↔ PesBeginsInside packet f := by
  rw [pesFirstDmas, PesBeginsInside]
  by_cases payload : pktPayload packet = true
  · rw [if_pos payload, forall_prop_of_true payload]
    dsimp only
    by_cases matched : (patternMatchHead packet (payloadOffset packet 0) f.ptn).1 = true
    · rw [if_pos matched, forall_prop_of_true matched, List.forall_mem_singleton]
      have remains := firstPesLength_remains_iff packet (payloadOffset packet 0)
      rw [partDma_inWindow_iff remains.1, pesStart_rmn, forall_prop_of_true rfl, remains.2]
    · rw [if_neg matched]
      exact iff_of_true (fun d none => by cases none) fun taken => absurd taken matched
  · rw [if_neg payload]
    exact iff_of_true (fun d none => by cases none) fun there => absurd there payload

/-- A PES packet goes on inside of the packet; and where its length is read only now, what
is missing has at most sixteen bits, or the packet has room for no more than the other
bits. -/
def PesGoesOnInside (packet : Packet) (f : Filter) : Prop :=
  pktPayload packet = true → f.rmn ≠ 0 →
    (patternMatchTail packet (payloadOffset packet 0) f.ptn).1 = true →
      if f.secByte = 0 then payloadOffset packet 0 < tsPacketSize
      else ∀ length ∈ brokenPesLength packet f (payloadOffset packet 0),
        payloadOffset packet 0 < tsPacketSize ∧
          (length.toNat + 6 < 2 ^ 16 + f.secByte.toNat ∨
            tsPacketSize + 2 ^ 16 ≤
              payloadOffset packet 0 + (length.toNat + 6 - f.secByte.toNat))

/-- A length behind a broken header, and the number of header bytes. -/
theorem brokenPesLength_bounds (kept : HeaderKept f)
    (known : brokenPesLength packet f offset = some length) :
    length.toNat < 2 ^ 16 ∧ 1 ≤ f.secByte.toNat ∧ f.secByte.toNat ≤ 5 := by
  by_cases few : 1 ≤ f.secByte.toNat ∧ f.secByte.toNat ≤ 4
  · obtain ⟨read, same, value⟩ := @brokenPesLength_of_four packet f offset few.1 few.2
    rw [known] at same
    rw [Option.some.inj same, value]
    exact ⟨bigEndian_lt _ _, few.1, by omega⟩
  · by_cases five : f.secByte.toNat = 5
    · have small := kept.byte (BitVec.eq_of_toNat_eq five)
      have high : f.secLenData = (f.secLenData.setWidth 8).setWidth 32 := by
        apply BitVec.eq_of_toNat_eq
        rw [BitVec.toNat_setWidth, BitVec.toNat_setWidth]
        omega
      obtain ⟨read, same, value⟩ := @brokenPesLength_of_five packet f offset _ five high
      rw [known] at same
      rw [Option.some.inj same, value]
      exact ⟨bigEndian_lt _ _, by omega, by omega⟩
    · simp only [brokenPesLength] at known
      split at known
      all_goals first | omega | cases known

/-- The part of a PES packet whose length is read only now. -/
theorem brokenDma_inWindow_iff (kept : HeaderKept f)
    (known : brokenPesLength packet f offset = some length) :
    (partDma (pesLengthKnown f length) offset (length + 6 - f.secByte)
        (decide ((pesLengthKnown f length).dataSize ≠ vpesSizeMax))).InWindow ↔
      offset < tsPacketSize ∧ (length.toNat + 6 < 2 ^ 16 + f.secByte.toNat ∨
        tsPacketSize + 2 ^ 16 ≤ offset + (length.toNat + 6 - f.secByte.toNat)) := by
  obtain ⟨small, some', few⟩ := brokenPesLength_bounds kept known
  have missing : (length + 6 - f.secByte).toNat = length.toNat + 6 - f.secByte.toNat := by
    have sum : (length + 6).toNat = length.toNat + 6 := by
      rw [BitVec.toNat_add]
      change (_ + 6) % _ = _
      omega
    rw [BitVec.toNat_sub_of_le (by rw [BitVec.le_def, sum]; omega), sum]
  have masked : ((length + 6 - f.secByte) &&& rmnCntMask).toNat < 2 ^ 16 := by
    rw [toNat_and_rmnCntMask]
    exact Nat.mod_lt _ (by decide)
  have remaining : (pesLengthKnown f length).rmn.toNat =
      (length.toNat + 6 - f.secByte.toNat) % 2 ^ 16 := by
    rw [← missing, ← toNat_and_rmnCntMask]
    exact congrArg BitVec.toNat (Filter.rmn_setRmn masked)
  have counted : (pesLengthKnown f length).dataSize ≠ vpesSizeMax ↔ length ≠ 0 := by
    have size := toNat_pesSize small
    change pesSize length ≠ _ ↔ _
    by_cases unbounded : length = 0
    · rw [unbounded]
      decide
    · rw [if_neg unbounded] at size
      apply iff_of_true _ unbounded
      intro same
      rw [same] at size
      change 2 ^ 28 - 1 = _ at size
      omega
  rw [partDma_inWindow_iff (by omega), missing, remaining, decide_eq_true_iff, counted]
  apply and_congr_right
  intro inside
  by_cases unbounded : length = 0
  · rw [unbounded]
    exact iff_of_true (fun some => absurd rfl some)
      (.inl (Nat.lt_of_lt_of_le (by decide) (Nat.le_add_right (2 ^ 16) _)))
  · rw [forall_prop_of_true unbounded]
    rw [tsPacketSize] at inside ⊢
    omega

theorem pesFollowDmas_inWindow_iff (kept : HeaderKept f) :
    (∀ d ∈ pesFollowDmas packet f, d.InWindow) ↔ PesGoesOnInside packet f := by
  have none : ∀ d ∈ ([] : List DmaStart), d.InWindow := fun d none => by cases none
  rw [pesFollowDmas, PesGoesOnInside]
  by_cases continues : pktPayload packet = true ∧ f.rmn ≠ 0
  · rw [if_pos continues, forall_prop_of_true continues.1, forall_prop_of_true continues.2]
    dsimp only
    by_cases whole : f.secByte = 0
    · rw [if_neg (by rw [whole]; decide), if_pos whole, pesContinueDmas]
      have positive : 1 ≤ f.rmn.toNat := by
        rw [Nat.one_le_iff_ne_zero]
        exact fun zero => continues.2 (BitVec.eq_of_toNat_eq zero)
      by_cases matched : (patternMatchTail packet (payloadOffset packet 0) f.ptn).1 = true
      · rw [if_pos matched, forall_prop_of_true matched, List.forall_mem_singleton,
          partDma_inWindow_iff positive]
        exact and_iff_left fun _ => Nat.min_le_left _ _
      · rw [if_neg matched]
        exact iff_of_true none fun there => absurd there matched
    · have broken : 0 < f.secByte := by bv_omega
      rw [if_pos broken, if_neg whole]
      cases known : brokenPesLength packet f (payloadOffset packet 0) with
      | none =>
          exact iff_of_true none fun _ length never => by cases never
      | some length =>
          dsimp only
          rw [pesContinueDmas]
          change (∀ d ∈ (if (patternMatchTail packet (payloadOffset packet 0) f.ptn).1 = true
            then _ else _ : List DmaStart), d.InWindow) ↔ _
          by_cases matched :
              (patternMatchTail packet (payloadOffset packet 0) f.ptn).1 = true
          · rw [if_pos matched, forall_prop_of_true matched, List.forall_mem_singleton]
            have window := brokenDma_inWindow_iff kept known
            constructor
            · intro inside read same
              rw [← Option.some.inj same]
              exact window.mp inside
            · exact fun inside => window.mpr (inside length rfl)
          · rw [if_neg matched]
            exact iff_of_true none fun there => absurd there matched
  · rw [if_neg continues]
    exact iff_of_true none fun payload more => absurd ⟨payload, more⟩ continues

end Window

/-! ### Split headers in every state -/

section Kept

variable {hw packet} {f : Filter} {offset : Nat}

theorem HeaderKept.revertFlt (kept : HeaderKept f) : HeaderKept f.revertFlt :=
  kept.congr rfl rfl

theorem HeaderKept.finishFlt (kept : HeaderKept f) : HeaderKept f.finishFlt := by
  rw [Filter.finishFlt]
  split
  · split
    · exact kept.congr rfl rfl
    · exact kept.congr rfl rfl
  · exact kept.congr rfl rfl

theorem HeaderKept.secTail (hw : Hw) (kept : HeaderKept f) : HeaderKept (secTail hw f) := by
  obtain ⟨ctrl, same⟩ := oneshotDisable_eq f
  have disabled : HeaderKept (oneshotDisable f) := by
    rw [same]
    exact kept.congr rfl rfl
  have finished : HeaderKept (oneshotDisable f).updateWritePtr.finishFlt :=
    HeaderKept.finishFlt (disabled.congr rfl rfl)
  simp only [Tsp.secTail]
  split
  · exact finished
  · split
    · exact disabled.revertFlt
    · exact finished

theorem HeaderKept.dmaPostCheck (kept : HeaderKept f) (size : U32) (crc : DmaCrc)
    (start : Bool) : HeaderKept (f.dmaPostCheck hw packet offset size crc start).2 := by
  simp only [Filter.dmaPostCheck]
  split
  · exact kept.congr rfl rfl
  · split
    · exact kept.congr rfl rfl
    · exact kept.congr rfl rfl

theorem HeaderKept.secDma (kept : HeaderKept f) (length : U32) (crc : DmaCrc)
    (start : Bool) : HeaderKept (secDma hw packet f offset length crc start).2 := by
  by_cases tail : offset + length.toNat ≤ tsPacketSize
  · have checked := @HeaderKept.dmaPostCheck hw packet f offset kept length crc start
    simp only [Tsp.secDma, tail, if_true]
    split
    · have counted : HeaderKept
          ((f.dmaPostCheck hw packet offset length crc start).2.account length) :=
        checked.congr rfl rfl
      exact counted.secTail hw
    · exact checked.revertFlt
  · have checked := @HeaderKept.dmaPostCheck hw packet f offset kept
      (restOfPacket offset) crc start
    simp only [Tsp.secDma, tail, if_false]
    split
    · exact checked.congr rfl rfl
    · exact checked.revertFlt

/-- Behind a packet that goes on with a section, no header is split. -/
theorem HeaderKept.of_zero (secByte : f.secByte = 0) (secLenData : f.secLenData = 0) :
    HeaderKept f := by
  constructor
  · rw [secLenData]
    decide
  · rw [secByte]
    intro never
    exact absurd never (by decide)

theorem HeaderKept.getSecFollowPackets (hw : Hw) (packet : Packet)
    (kept : HeaderKept f) : HeaderKept (getSecFollowPackets hw packet f).2.2 := by
  have state : HeaderKept (followState packet f.counted) := .of_zero rfl rfl
  rw [Tsp.getSecFollowPackets]
  split
  · split
    · exact kept.congr rfl rfl
    · rw [followSection]
      split
      · exact kept.congr rfl rfl
      · split
        · exact state.secDma _ _ _
        · exact state.revertFlt
  · exact kept

theorem HeaderKept.firstHeader (packet : Packet) (offset : Nat) (kept : HeaderKept f) :
    HeaderKept (firstHeader packet f offset) := by
  by_cases two : offset = tsPacketSize - 2
  · constructor
    · simp only [Tsp.firstHeader, two, if_true]
      rw [BitVec.toNat_and]
      exact Nat.lt_of_le_of_lt Nat.and_le_right (by decide)
    · simp only [Tsp.firstHeader, two, if_true]
      intro never
      exact absurd never (by decide)
  · by_cases one : offset = tsPacketSize - 1
    · have secByte : (Tsp.firstHeader packet f offset).secByte = 1 :=
        (if_neg two).trans (if_pos one)
      have secLenData : (Tsp.firstHeader packet f offset).secLenData = 0 :=
        (if_neg two).trans (if_pos one)
      constructor
      · rw [secLenData]
        decide
      · rw [secByte]
        exact fun never => absurd never (by decide)
    · constructor
      · simp only [Tsp.firstHeader, two, one, if_false]
        exact kept.small
      · simp only [Tsp.firstHeader, two, one, if_false]
        exact kept.byte

theorem HeaderKept.secTurn (hw : Hw) (packet : Packet) (offset : Nat)
    (kept : HeaderKept f) : HeaderKept (secTurn hw packet f offset).filter := by
  have header := kept.firstHeader packet offset
  have first : HeaderKept (firstState packet f offset) := header.congr rfl rfl
  simp only [Tsp.secTurn]
  split
  · split
    · exact header.congr rfl rfl
    · split
      · exact first.secDma _ _ _
      · exact first.secDma _ _ _
  · exact .of_zero rfl rfl

theorem HeaderKept.secLoop (hw : Hw) (packet : Packet) (turns : Nat) (offset : Nat)
    (kept : HeaderKept f) : HeaderKept (secLoop hw packet turns f offset).2 := by
  induction turns generalizing f offset with
  | zero => exact kept
  | succ turns inductionHypothesis =>
      have turn := kept.secTurn hw packet offset
      rw [Tsp.secLoop]
      split
      · cases taken : Tsp.secTurn hw packet f offset with
        | next g =>
            rw [taken] at turn
            exact inductionHypothesis _ turn
        | leave processed g =>
            rw [taken] at turn
            exact turn
      · exact kept

theorem HeaderKept.procSection (hw : Hw) (packet : Packet) (pid : Option (BitVec 13))
    (kept : HeaderKept f) : HeaderKept (procSection hw packet pid f) := by
  have followed := kept.getSecFollowPackets hw packet
  simp only [Tsp.procSection]
  split
  · split
    · rw [getSecFirstPacket]
      split
      · exact followed.secLoop hw packet _ _
      · exact followed
    · exact followed
  · exact kept

theorem payloadOffset_le (packet : Packet) (index : Nat) :
    payloadOffset packet index ≤ 260 := by
  rw [payloadOffset]
  split
  · have byte := (packet (index + 4)).isLt
    rw [cacheWord_and_byte, BitVec.toNat_setWidth]
    omega
  · decide

theorem HeaderKept.pesHeader (packet : Packet) (small : offset ≤ 260)
    (kept : HeaderKept f) : HeaderKept (pesHeader packet f offset) := by
  have byte : (cacheWord packet offset 1 &&& 0xFF).toNat < 2 ^ 8 := by
    rw [cacheWord_and_byte, BitVec.toNat_setWidth]
    have bound := (packet (offset + 4)).isLt
    omega
  by_cases place : offset = 183
  · constructor
    · simp only [Tsp.pesHeader, place, if_true]
      rw [place] at byte
      omega
    · intro _
      simp only [Tsp.pesHeader, place, if_true]
      rw [place] at byte
      exact byte
  · constructor
    · simp only [Tsp.pesHeader, place, if_false]
      exact kept.small
    · simp only [Tsp.pesHeader, place, if_false]
      intro five
      split at five
      · have number := congrArg BitVec.toNat five
        rw [restOfPacket, tsPacketSize] at number
        change (BitVec.ofNat 32 188 - BitVec.ofNat 32 offset).toNat = 5 at number
        rw [BitVec.toNat_sub, BitVec.toNat_ofNat, BitVec.toNat_ofNat] at number
        omega
      · exact absurd five (by decide)

theorem HeaderKept.pesDma (kept : HeaderKept f) (length : U32) (start counted : Bool) :
    HeaderKept (pesDma hw packet f offset length start counted) := by
  have checked := fun size => @HeaderKept.dmaPostCheck hw packet f offset kept size .off start
  by_cases tail : offset + length.toNat ≤ tsPacketSize
  · simp only [Tsp.pesDma, tail, if_true]
    split
    · apply HeaderKept.finishFlt
      cases counted
      · exact (checked length).congr rfl rfl
      · exact (checked length).congr rfl rfl
    · exact (checked length).revertFlt
  · simp only [Tsp.pesDma, tail, if_false]
    split
    · cases counted
      · exact (checked (restOfPacket offset)).congr rfl rfl
      · exact (checked (restOfPacket offset)).congr rfl rfl
    · exact (checked (restOfPacket offset)).revertFlt

theorem HeaderKept.pesContinue (kept : HeaderKept f) (length : U32) :
    HeaderKept (pesContinue hw packet f offset length) := by
  simp only [Tsp.pesContinue]
  split
  · have compared : HeaderKept
        { f with ptn := (patternMatchTail packet offset f.ptn).2 } := kept.congr rfl rfl
    exact compared.pesDma _ _ _
  · exact kept.congr rfl rfl

theorem HeaderKept.procPes (hw : Hw) (packet : Packet) (pid : Option (BitVec 13))
    (kept : HeaderKept f) : HeaderKept (procPes hw packet pid f) := by
  have header := kept.pesHeader packet (payloadOffset_le packet 0)
  rw [Tsp.procPes]
  split
  · split
    · rw [getPesFirstPacket]
      split
      · dsimp only
        split
        · apply HeaderKept.pesDma
          simp only [pesStart]
          split
          · exact header.congr rfl rfl
          · exact header.congr rfl rfl
        · exact header.revertFlt
      · exact kept
    · rw [getPesFollowPackets]
      split
      · dsimp only
        split
        · split
          · apply HeaderKept.pesContinue
            constructor
            · exact kept.small
            · exact fun never => absurd (show (0 : U32) = 5 from never) (by decide)
          · exact kept.revertFlt
        · exact kept.pesContinue _
      · exact kept
  · exact kept

end Kept

/-! ### Runs -/

/-- A packet for a filter, of one of the two kinds at the time. -/
structure Arrival where
  pes : Bool
  pid : Option (BitVec 13)
  packet : Packet

/-- What `FwTSP_Proc` does with a packet. -/
def procArrival (f : Filter) (arrival : Arrival) : Filter :=
  if arrival.pes then procPes hw arrival.packet arrival.pid f
  else procSection hw arrival.packet arrival.pid f

/-- The DMAs that it starts. -/
def arrivalDmas (f : Filter) (arrival : Arrival) : List DmaStart :=
  if arrival.pes then pesDmas arrival.packet arrival.pid f
  else sectionDmas hw arrival.packet arrival.pid f

/-- A packet that is processed begins or goes on with sections and PES packets inside of
itself. -/
def ArrivalInside (f : Filter) (arrival : Arrival) : Prop :=
  pktAccepted arrival.pid arrival.packet = true ∧ f.procPreCheck = true →
    if arrival.pes then
      if pktPusi arrival.packet then PesBeginsInside arrival.packet f
      else PesGoesOnInside arrival.packet f
    else SectionInside arrival.packet f

theorem HeaderKept.procArrival {f : Filter} (hw : Hw) (kept : HeaderKept f)
    (arrival : Arrival) : HeaderKept (procArrival hw f arrival) := by
  rw [Tsp.procArrival]
  split
  · exact kept.procPes hw _ _
  · exact kept.procSection hw _ _

theorem arrivalDmas_length (hw : Hw) (f : Filter) (arrival : Arrival) :
    (procArrival hw f arrival).dmaCount =
      f.dmaCount + (arrivalDmas hw f arrival).length := by
  rw [procArrival, arrivalDmas]
  split
  · exact pesDmas_length hw _ _ f
  · exact sectionDmas_length hw _ _ f

theorem arrivalDmas_inWindow_iff (hw : Hw) {f : Filter} (kept : HeaderKept f)
    (arrival : Arrival) :
    (∀ d ∈ arrivalDmas hw f arrival, d.InWindow) ↔ ArrivalInside f arrival := by
  rw [arrivalDmas, ArrivalInside]
  by_cases pes : arrival.pes = true
  · rw [if_pos pes, pesDmas]
    simp only [pes, if_true]
    split
    · rename_i processed
      rw [forall_prop_of_true processed]
      split
      · exact pesFirstDmas_inWindow_iff
      · exact pesFollowDmas_inWindow_iff kept
    · rename_i ignored
      exact iff_of_true (fun d none => by cases none)
        fun processed => absurd processed ignored
  · rw [if_neg pes, sectionDmas_inWindow_iff hw _ _ kept]
    simp only [pes]
    rfl

/-- In every run from the state that `FwTSP_Init` leaves, all DMAs are in the window if
and only if sections and PES packets begin and go on inside of their packets. -/
theorem dmas_inWindow_iff (hw : Hw) (f : Filter) (secByte : f.secByte = 0)
    (secLenData : f.secLenData = 0) (arrivals : List Arrival) :
    (∀ d ∈ Run.outputs (procArrival hw) (arrivalDmas hw) f arrivals, d.InWindow) ↔
      Run.Meets (procArrival hw) ArrivalInside f arrivals := by
  rw [Run.forall_mem_outputs_iff]
  exact Run.meets_congr (fun f arrival kept => arrivalDmas_inWindow_iff hw kept arrival)
    (fun f arrival kept _ => kept.procArrival hw arrival)
    (HeaderKept.of_zero secByte secLenData)

/-- The arrivals of some packets for a section filter. -/
def sectionArrivals (packets : List Packet) : List Arrival :=
  packets.map fun packet => ⟨false, none, packet⟩

theorem dmas_inWindow_iff_split :
    (∀ d ∈ Run.outputs (procArrival calmHw) (arrivalDmas calmHw) openFilter
        (sectionArrivals splitRun), d.InWindow) ↔
      Run.Meets (procArrival calmHw) ArrivalInside openFilter
        (sectionArrivals splitRun) :=
  dmas_inWindow_iff calmHw openFilter rfl rfl (sectionArrivals splitRun)

/-- The start of a section, and a packet whose adaptation field claims 200 bytes. -/
def longAdaptation : List Packet :=
  [stuffedPacket [0x47, 0x40, 0x00, 0x10, 0xB4] 185 [0x42, 0xB0, 0x04],
    stuffedPacket [0x47, 0x00, 0x00, 0x31, 0xC8] 5 []]

/-- A PES packet with the longest length. -/
def longestPes : Packet :=
  stuffedPacket [0x47, 0x40, 0x00, 0x10, 0x00, 0x00, 0x01, 0xE0, 0xFF, 0xFF] 10 []

/-- Behind such an adaptation field a DMA of nearly 64 KiB begins behind the packet; and
the first DMA of the longest PES packet is larger than what remains. -/
theorem dmas_outside :
    (∃ d ∈ Run.outputs (procArrival calmHw) (arrivalDmas calmHw) openFilter
        (sectionArrivals longAdaptation), ¬ d.InWindow) ∧
      ∃ d ∈ Run.outputs (procArrival calmHw) (arrivalDmas calmHw) openFilter
        [⟨true, none, longestPes⟩], ¬ d.InWindow := by
  have adaptation : Run.outputs (procArrival calmHw) (arrivalDmas calmHw) openFilter
      (sectionArrivals longAdaptation) = [⟨185, 3, some 7⟩, ⟨205, 65519, some 4⟩] := by
    decide +kernel
  have longest : Run.outputs (procArrival calmHw) (arrivalDmas calmHw) openFilter
      [⟨true, none, longestPes⟩] = [⟨4, 184, some 5⟩] := by
    decide +kernel
  constructor
  · refine ⟨⟨205, 65519, some 4⟩, ?_, ?_⟩
    · rw [adaptation]
      simp
    · exact fun window => absurd window.inside (by decide)
  · refine ⟨⟨4, 184, some 5⟩, ?_, ?_⟩
    · rw [longest]
      simp
    · exact fun window => absurd (window.remains 5 rfl) (by decide)

end Gp2Firmware.Tsp
