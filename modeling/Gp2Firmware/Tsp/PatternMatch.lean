import Mathlib.Tactic.IntervalCases
import Gp2Firmware.Tsp.Packet

/-!
# Matching a pattern across two packets

`_PatternMatchHead` and `_PatternMatchTail`.  When a section begins so late in
a packet that fewer than sixteen bytes are left, the head masks the rest of the
pattern away, and the tail compares it with the next packet, moved to the front
of the registers.
-/

namespace Gp2Firmware.Tsp

/-- The registers `Match` and `Mask` of a filter, its `_u32PtnByte`, and the
arrays `_u32PtnMask` and `_u32Ptn` that all filters share. -/
structure Pattern where
  pattern : Nat → U32
  mask : Nat → U32
  ptnByte : Nat
  ptnMask : Nat → U32
  ptn : Nat → U32

/-- Shifts use the low five bits of the count. -/
def shiftLeft (word : U32) (count : Nat) : U32 := word <<< (count % 32)

/-- Shifts use the low five bits of the count. -/
def shiftRight (word : U32) (count : Nat) : U32 := word >>> (count % 32)

/-- The mask registers while the head is compared: nothing from `byte` on. -/
def headMask (mask : Nat → U32) (byte : Nat) : Nat → U32 :=
  fun i =>
    if i = byte / 4 then
      mask i ||| shiftLeft 0xFFFFFFFF ((byte % 4) <<< 3)
    else if byte / 4 < i ∧ i < 4 then 0xFFFFFFFF
    else mask i

/-- `_PatternMatchHead` -/
def patternMatchHead (packet : Packet) (dataStart : Nat) (s : Pattern) :
    Bool × Pattern :=
  let s := { s with ptnByte := 0 }
  if dataStart < tsPacketSize - 15 then
    (cmpMatch packet dataStart s.pattern s.mask, s)
  else
    let byte := tsPacketSize - dataStart
    let ptnMask := fun i =>
      if byte / 4 ≤ i ∧ i < 4 then s.mask i else s.ptnMask i
    let masked := headMask s.mask byte
    let matched := cmpMatch packet dataStart s.pattern masked
    let restored := fun i =>
      if byte / 4 ≤ i ∧ i < 4 then ptnMask i else masked i
    (matched,
      { s with
        ptnMask := ptnMask
        mask := restored
        ptnByte := if matched then byte else 0 })

/-- `_u32PtnMaskShft` and `_u32PtnShft`: the words from `byte` on. -/
def shifted (words : Nat → U32) (byte : Nat) : Nat → U32 :=
  fun i =>
    shiftRight (words (byte / 4 + i)) ((byte % 4) <<< 3) |||
      shiftLeft (words (byte / 4 + i + 1)) (32 - (byte % 4) <<< 3)

/-- `_PatternMatchTail` -/
def patternMatchTail (packet : Packet) (dataStart : Nat) (s : Pattern) :
    Bool × Pattern :=
  let byte := s.ptnByte
  if byte = 0 then (true, s)
  else
    let ptnMask := fun i => if i < 4 then s.mask i else s.ptnMask i
    let ptn := fun i => if i < 4 then s.pattern i else s.ptn i
    let mask := fun i => if i < 4 then shifted ptnMask byte i else s.mask i
    let pattern := fun i => if i < 4 then shifted ptn byte i else s.pattern i
    let matched := cmpMatch packet dataStart pattern mask
    (matched,
      { ptnMask := ptnMask
        ptn := ptn
        mask := fun i => if i < 4 then ptnMask i else mask i
        pattern := fun i => if i < 4 then ptn i else pattern i
        ptnByte := 0 })

/-- `FwTSP_Init` fills `_u32PtnMask`, and its upper half stays so. -/
def Spare (s : Pattern) : Prop := ∀ i, 4 ≤ i → i < 8 → s.ptnMask i = 0xFFFFFFFF

/-- The filter as the next packet finds it; other filters may have used the
shared arrays. -/
structure Resumed (before after : Pattern) : Prop where
  pattern_eq : after.pattern = before.pattern
  mask_eq : after.mask = before.mask
  ptnByte_eq : after.ptnByte = before.ptnByte
  spare : Spare after

/-- Any sixteen bytes with the first `split` at the end of one packet and the
rest in the next are accepted by head and tail if and only if they match, and
the registers have their values again. -/
def SplitAgrees (s : Pattern) (split : Nat) : Prop :=
  ∀ (sec first second : Packet) (start : Nat) (next : Pattern),
    (∀ i, i < split → first (tsPacketSize - split + i) = sec i) →
    (∀ i, split ≤ i → i < 16 → second (start + (i - split)) = sec i) →
    Resumed (patternMatchHead first (tsPacketSize - split) s).2 next →
    ((patternMatchHead first (tsPacketSize - split) s).1 = true ∧
        (patternMatchTail second start next).1 = true ↔
      cmpMatch sec 0 s.pattern s.mask = true) ∧
      (patternMatchTail second start next).2.pattern = s.pattern ∧
      (patternMatchTail second start next).2.mask = s.mask

/-! ### The registers and the shared arrays -/

variable {s : Pattern} {packet : Packet} {dataStart : Nat}

theorem patternMatchHead_registers (s : Pattern) (packet : Packet)
    (dataStart : Nat) :
    (patternMatchHead packet dataStart s).2.pattern = s.pattern ∧
      (patternMatchHead packet dataStart s).2.mask = s.mask := by
  rw [patternMatchHead]
  split
  · exact ⟨rfl, rfl⟩
  · refine ⟨rfl, ?_⟩
    funext i
    simp only [headMask]
    by_cases kept : (tsPacketSize - dataStart) / 4 ≤ i ∧ i < 4
    · rw [if_pos kept, if_pos kept]
    · rw [if_neg kept]
      by_cases first : i = (tsPacketSize - dataStart) / 4
      · rw [if_pos first, first]
        -- the packet does not end more than fifteen bytes away
        have small : (tsPacketSize - dataStart) / 4 < 4 := by
          rename_i late
          rw [tsPacketSize] at late ⊢
          omega
        exact absurd ⟨by omega, by omega⟩ kept
      · rw [if_neg first, if_neg (by omega)]

theorem patternMatchTail_registers (s : Pattern) (packet : Packet)
    (dataStart : Nat) :
    (patternMatchTail packet dataStart s).2.pattern = s.pattern ∧
      (patternMatchTail packet dataStart s).2.mask = s.mask := by
  rw [patternMatchTail]
  by_cases none : s.ptnByte = 0
  · rw [if_pos none]
    exact ⟨rfl, rfl⟩
  · rw [if_neg none]
    constructor
    · funext i
      by_cases word : i < 4
      · simp only [word, if_true]
      · simp only [word, if_false]
    · funext i
      by_cases word : i < 4
      · simp only [word, if_true]
      · simp only [word, if_false]

theorem spare_patternMatchHead (spare : Spare s) :
    Spare (patternMatchHead packet dataStart s).2 := by
  intro i low high
  rw [patternMatchHead]
  split
  · exact spare i low high
  · simp only
    rw [if_neg (by omega)]
    exact spare i low high

theorem spare_patternMatchTail (spare : Spare s) :
    Spare (patternMatchTail packet dataStart s).2 := by
  intro i low high
  rw [patternMatchTail]
  split
  · exact spare i low high
  · simp only
    rw [if_neg (by omega)]
    exact spare i low high

/-! ### Masks and patterns bit by bit -/

theorem bitOf_headMask (mask : Nat → U32) {byte bit : Nat} (inside : bit < 128) :
    bitOf (headMask mask byte) bit =
      (bitOf mask bit || decide (8 * byte ≤ bit)) := by
  rw [bitOf, headMask]
  have amount : (byte % 4) <<< 3 % 32 = 8 * (byte % 4) := by
    rw [Nat.shiftLeft_eq]
    omega
  by_cases first : bit / 32 = byte / 4
  · rw [if_pos first, shiftLeft, amount, BitVec.getLsbD_or,
      BitVec.getLsbD_shiftLeft, show (0xFFFFFFFF : U32) = BitVec.allOnes 32 from rfl,
      BitVec.getLsbD_allOnes, bitOf]
    congr 1
    have small : bit % 32 < 32 := Nat.mod_lt _ (by decide)
    by_cases masked : 8 * byte ≤ bit
    · have place : ¬ bit % 32 < 8 * (byte % 4) := by omega
      have width : bit % 32 - 8 * (byte % 4) < 32 := by omega
      simp [masked, place, width, small]
    · have place : bit % 32 < 8 * (byte % 4) := by omega
      simp [masked, place]
  · rw [if_neg first]
    by_cases later : byte / 4 < bit / 32 ∧ bit / 32 < 4
    · rw [if_pos later, show (0xFFFFFFFF : U32) = BitVec.allOnes 32 from rfl,
        BitVec.getLsbD_allOnes]
      have masked : 8 * byte ≤ bit := by omega
      have small : bit % 32 < 32 := Nat.mod_lt _ (by decide)
      simp [masked, small]
    · have kept : ¬ 8 * byte ≤ bit := by omega
      rw [if_neg later, bitOf, decide_eq_false kept, Bool.or_false]

/-- Within a word the shift is right. -/
theorem bitOf_shifted (words : Nat → U32) {byte : Nat} (apart : byte % 4 ≠ 0)
    (bit : Nat) : bitOf (shifted words byte) bit = bitOf words (8 * byte + bit) := by
  have right : (byte % 4) <<< 3 % 32 = 8 * (byte % 4) := by
    rw [Nat.shiftLeft_eq]
    omega
  have left : (32 - (byte % 4) <<< 3) % 32 = 32 - 8 * (byte % 4) := by
    rw [Nat.shiftLeft_eq]
    omega
  rw [bitOf, shifted, shiftRight, shiftLeft, right, left, BitVec.getLsbD_or,
    BitVec.getLsbD_ushiftRight, BitVec.getLsbD_shiftLeft, bitOf]
  have small : bit % 32 < 32 := Nat.mod_lt _ (by decide)
  by_cases same : 8 * (byte % 4) + bit % 32 < 32
  · rw [show (8 * byte + bit) / 32 = byte / 4 + bit / 32 by omega,
      show (8 * byte + bit) % 32 = 8 * (byte % 4) + bit % 32 by omega]
    have place : bit % 32 < 32 - 8 * (byte % 4) := by omega
    simp [place]
  · rw [show (8 * byte + bit) / 32 = byte / 4 + bit / 32 + 1 by omega,
      show (8 * byte + bit) % 32 = bit % 32 - (32 - 8 * (byte % 4)) by omega,
      BitVec.getLsbD_of_ge _ (8 * (byte % 4) + bit % 32) (by omega)]
    have place : ¬ bit % 32 < 32 - 8 * (byte % 4) := by omega
    simp [place, small]

/-- At a word boundary the shift by 32 does nothing, and two words are mixed. -/
theorem bitOf_shifted_of_aligned (words : Nat → U32) {byte : Nat}
    (aligned : byte % 4 = 0) (bit : Nat) :
    bitOf (shifted words byte) bit =
      (bitOf words (8 * byte + bit) || bitOf words (8 * byte + bit + 32)) := by
  rw [bitOf, shifted, shiftRight, shiftLeft, aligned]
  change ((words (byte / 4 + bit / 32)) >>> 0 |||
    (words (byte / 4 + bit / 32 + 1)) <<< 0).getLsbD (bit % 32) = _
  rw [BitVec.ushiftRight_zero, BitVec.shiftLeft_zero, BitVec.getLsbD_or, bitOf,
    bitOf, show (8 * byte + bit) / 32 = byte / 4 + bit / 32 by omega,
    show (8 * byte + bit) % 32 = bit % 32 by omega,
    show (8 * byte + bit + 32) / 32 = byte / 4 + bit / 32 + 1 by omega,
    show (8 * byte + bit + 32) % 32 = bit % 32 by omega]

/-! ### Head and tail as comparisons of bits -/

variable {split start : Nat} {first second sec : Packet} {next : Pattern}

/-- The whole arrays that the tail shifts. -/
def ptnArray (low high : Nat → U32) : Nat → U32 :=
  fun i => if i < 4 then low i else high i

theorem bitOf_ptnArray (low high : Nat → U32) (bit : Nat) :
    bitOf (ptnArray low high) bit =
      if bit < 128 then bitOf low bit else bitOf high bit := by
  rw [bitOf, ptnArray, bitOf, bitOf]
  by_cases small : bit < 128
  · rw [if_pos small, if_pos (by omega)]
  · rw [if_neg small, if_neg (by omega)]

/-- Nothing is compared behind the fourth word. -/
theorem bitOf_ptnArray_of_spare (spare : Spare s) (low : Nat → U32) {bit : Nat}
    (behind : 128 ≤ bit) (inside : bit < 256) :
    bitOf (ptnArray low s.ptnMask) bit = true := by
  rw [bitOf_ptnArray, if_neg (by omega), bitOf, spare _ (by omega) (by omega),
    show (0xFFFFFFFF : U32) = BitVec.allOnes 32 from rfl, BitVec.getLsbD_allOnes]
  exact decide_eq_true (Nat.mod_lt _ (by decide))

/-- The part of the pattern before a byte matches. -/
def FrontMatches (sec : Packet) (s : Pattern) (split : Nat) : Prop :=
  ∀ bit, bit < 8 * split → bitOf s.mask bit = true ∨
    windowBit sec 0 bit = bitOf s.pattern bit

theorem patternMatchHead_iff (low : 1 ≤ split) (high : split ≤ 15)
    (carries : ∀ i, i < split → first (tsPacketSize - split + i) = sec i) :
    (patternMatchHead first (tsPacketSize - split) s).1 = true ↔
      FrontMatches sec s split := by
  have late : ¬ tsPacketSize - split < tsPacketSize - 15 := by
    rw [tsPacketSize]
    omega
  have byte : tsPacketSize - (tsPacketSize - split) = split := by
    rw [tsPacketSize]
    omega
  have window : ∀ bit, bit < 8 * split →
      windowBit first (tsPacketSize - split) bit = windowBit sec 0 bit := by
    intro bit inside
    rw [windowBit, windowBit, carries _ (by omega), Nat.zero_add]
  rw [patternMatchHead, if_neg late]
  simp only [byte]
  rw [cmpMatch_iff]
  constructor
  · intro matched bit inside
    have same := matched bit (by omega)
    rw [bitOf_headMask _ (by omega), decide_eq_false (by omega), Bool.or_false,
      window bit inside] at same
    exact same
  · intro matched bit inside
    rw [bitOf_headMask _ inside]
    by_cases front : bit < 8 * split
    · rw [decide_eq_false (by omega), Bool.or_false, window bit front]
      exact matched bit front
    · rw [decide_eq_true (by omega), Bool.or_true]
      exact Or.inl rfl

theorem patternMatchHead_ptnByte (low : 1 ≤ split) (high : split ≤ 15)
    (matched : (patternMatchHead first (tsPacketSize - split) s).1 = true) :
    (patternMatchHead first (tsPacketSize - split) s).2.ptnByte = split := by
  have late : ¬ tsPacketSize - split < tsPacketSize - 15 := by
    rw [tsPacketSize]
    omega
  have byte : tsPacketSize - (tsPacketSize - split) = split := by
    rw [tsPacketSize]
    omega
  rw [patternMatchHead, if_neg late] at matched ⊢
  simp only [byte] at matched ⊢
  rw [if_pos matched]

theorem patternMatchTail_iff (some : next.ptnByte ≠ 0) :
    (patternMatchTail second start next).1 = true ↔
      ∀ bit, bit < 128 →
        bitOf (shifted (ptnArray next.mask next.ptnMask) next.ptnByte) bit = true ∨
          windowBit second start bit =
            bitOf (shifted (ptnArray next.pattern next.ptn) next.ptnByte) bit := by
  rw [patternMatchTail, if_neg some]
  simp only
  rw [cmpMatch_iff]
  apply forall₂_congr
  intro bit inside
  have word : bit / 32 < 4 := by omega
  simp only [bitOf, word, if_true]
  rfl

/-- What `_PatternMatchTail` compares at a bit agrees.  At a word boundary the
pattern is mixed with its next word. -/
def AgreesAt (s : Pattern) (byte : Nat) (packet : Packet) (offset bit : Nat) : Prop :=
  bitOf s.mask bit = true ∨
    if byte % 4 = 0 then
      128 ≤ bit + 32 ∨ bitOf s.mask (bit + 32) = true ∨
        windowBit packet offset (bit - 8 * byte) =
          (bitOf s.pattern bit || bitOf s.pattern (bit + 32))
    else windowBit packet offset (bit - 8 * byte) = bitOf s.pattern bit

/-- What `_PatternMatchTail` compares behind some bytes agrees. -/
def RestAgrees (s : Pattern) (byte : Nat) (packet : Packet) (offset : Nat) : Prop :=
  ∀ bit, 8 * byte ≤ bit → bit < 128 → AgreesAt s byte packet offset bit

theorem RestAgrees.congr {t : Pattern} (pattern : t.pattern = s.pattern) (mask : t.mask = s.mask)
    (byte : Nat) (packet : Packet) (offset : Nat) :
    RestAgrees t byte packet offset ↔ RestAgrees s byte packet offset := by
  unfold RestAgrees AgreesAt
  rw [pattern, mask]

theorem tailBit_iff (spare : Spare s) {bit : Nat} (inside : 8 * s.ptnByte + bit < 128) :
    (bitOf (shifted (ptnArray s.mask s.ptnMask) s.ptnByte) bit = true ∨
        windowBit packet dataStart bit =
          bitOf (shifted (ptnArray s.pattern s.ptn) s.ptnByte) bit) ↔
      AgreesAt s s.ptnByte packet dataStart (8 * s.ptnByte + bit) := by
  rw [AgreesAt, Nat.add_sub_cancel_left]
  by_cases aligned : s.ptnByte % 4 = 0
  · rw [bitOf_shifted_of_aligned _ aligned, bitOf_shifted_of_aligned _ aligned,
      if_pos aligned, Bool.or_eq_true, bitOf_ptnArray, if_pos inside, or_assoc]
    apply or_congr Iff.rfl
    by_cases last : 128 ≤ 8 * s.ptnByte + bit + 32
    · have masked := bitOf_ptnArray_of_spare spare s.mask last (by omega)
      simp only [masked, last, true_or]
    · simp only [bitOf_ptnArray, inside, last, Nat.lt_of_not_le last, if_true, false_or]
  · rw [bitOf_shifted _ aligned, bitOf_shifted _ aligned, if_neg aligned, bitOf_ptnArray,
      bitOf_ptnArray, if_pos inside, if_pos inside]

theorem tail_iff_restAgrees (spare : Spare s) (some : s.ptnByte ≠ 0)
    (small : s.ptnByte ≤ 15) :
    (patternMatchTail packet dataStart s).1 = true ↔
      RestAgrees s s.ptnByte packet dataStart := by
  rw [patternMatchTail_iff some]
  constructor
  · intro matched bit low high
    obtain ⟨later, rfl⟩ := Nat.exists_eq_add_of_le low
    exact (tailBit_iff spare high).mp (matched later (by omega))
  · intro agrees bit inside
    by_cases within : 8 * s.ptnByte + bit < 128
    · exact (tailBit_iff spare within).mpr (agrees _ (Nat.le_add_right _ bit) within)
    · have masked := bitOf_ptnArray_of_spare spare s.mask (Nat.le_of_not_lt within)
        (by omega)
      left
      by_cases aligned : s.ptnByte % 4 = 0
      · rw [bitOf_shifted_of_aligned _ aligned, masked, Bool.true_or]
      · rw [bitOf_shifted _ aligned, masked]

/-- Inside a word the tail compares what the head left out. -/
theorem patternMatchTail_of_apart (spare : Spare next) (apart : next.ptnByte % 4 ≠ 0)
    (high : next.ptnByte ≤ 15)
    (carries : ∀ i, next.ptnByte ≤ i → i < 16 →
      second (start + (i - next.ptnByte)) = sec i) :
    (patternMatchTail second start next).1 = true ↔
      ∀ bit, 8 * next.ptnByte ≤ bit → bit < 128 → bitOf next.mask bit = true ∨
        windowBit sec 0 bit = bitOf next.pattern bit := by
  rw [tail_iff_restAgrees spare (by omega) high, RestAgrees]
  apply forall_congr'
  intro bit
  apply forall₂_congr
  intro low inside
  have byte := carries (bit / 8) (by omega) (by omega)
  have window : windowBit second start (bit - 8 * next.ptnByte) = windowBit sec 0 bit := by
    rw [windowBit, windowBit, Nat.zero_add, ← byte,
      show (bit - 8 * next.ptnByte) / 8 = bit / 8 - next.ptnByte by omega,
      show (bit - 8 * next.ptnByte) % 8 = bit % 8 by omega]
  rw [AgreesAt, if_neg apart, window]

/-- At a word boundary the tail accepts anything if nothing is compared. -/
theorem patternMatchTail_of_masked (spare : Spare next) (some : next.ptnByte ≠ 0)
    (masked : ∀ bit, 8 * next.ptnByte ≤ bit → bit < 128 →
      bitOf next.mask bit = true) (high : next.ptnByte ≤ 15) :
    (patternMatchTail second start next).1 = true :=
  (tail_iff_restAgrees spare some high).mpr
    fun bit behind inside => .inl (masked bit behind inside)

theorem cmpMatch_iff_front (high : split ≤ 15) :
    cmpMatch sec 0 s.pattern s.mask = true ↔
      FrontMatches sec s split ∧
        ∀ bit, 8 * split ≤ bit → bit < 128 → bitOf s.mask bit = true ∨
          windowBit sec 0 bit = bitOf s.pattern bit := by
  rw [cmpMatch_iff]
  constructor
  · intro matched
    exact ⟨fun bit inside => matched bit (by omega),
      fun bit _ inside => matched bit inside⟩
  · intro parts bit inside
    by_cases front : bit < 8 * split
    · exact parts.1 bit front
    · exact parts.2 bit (by omega) inside

/-- Away from word boundaries, or when nothing is compared behind one, the two
comparisons agree with the whole one. -/
theorem splitAgrees_of_condition (low : 1 ≤ split) (high : split ≤ 15)
    (condition : split % 4 ≠ 0 ∨
      ∀ bit, 8 * split ≤ bit → bit < 128 → bitOf s.mask bit = true) :
    SplitAgrees s split := by
  intro sec first second start next carriesFirst carriesSecond resumed
  have registers := patternMatchHead_registers s first (tsPacketSize - split)
  have tailRegisters := patternMatchTail_registers next second start
  have patternEq := resumed.pattern_eq.trans registers.1
  have maskEq := resumed.mask_eq.trans registers.2
  refine ⟨?_, tailRegisters.1.trans patternEq, tailRegisters.2.trans maskEq⟩
  have front := patternMatchHead_iff (s := s) low high carriesFirst
  rw [cmpMatch_iff_front high]
  by_cases matched : (patternMatchHead first (tsPacketSize - split) s).1 = true
  · have byte := resumed.ptnByte_eq.trans (patternMatchHead_ptnByte low high matched)
    apply and_congr front
    by_cases apart : split % 4 ≠ 0
    · rw [patternMatchTail_of_apart resumed.spare (by rw [byte]; exact apart)
        (by rw [byte]; exact high) (by rw [byte]; exact carriesSecond), byte,
        maskEq, patternEq]
    · have masked := condition.resolve_left apart
      apply iff_of_true
      · apply patternMatchTail_of_masked resumed.spare
        · omega
        · rw [byte, maskEq]
          exact masked
        · omega
      · intro bit behind inside
        exact Or.inl (masked bit behind inside)
  · apply iff_of_false
    · intro both
      exact matched both.1
    · intro both
      exact matched (front.mpr both.1)

/-! ### What a word boundary hides -/

/-- The packet with given bits. -/
def packetOfBits (bits : Nat → Bool) : Packet :=
  fun i => BitVec.ofBoolListLE
    [bits (8 * i), bits (8 * i + 1), bits (8 * i + 2), bits (8 * i + 3),
      bits (8 * i + 4), bits (8 * i + 5), bits (8 * i + 6), bits (8 * i + 7)]

theorem windowBit_packetOfBits (bits : Nat → Bool) (bit : Nat) :
    windowBit (packetOfBits bits) 0 bit = bits bit := by
  have digit : ∀ i n, n < 8 →
      (packetOfBits bits i).getLsbD n = bits (8 * i + n) := by
    intro i n small
    rw [packetOfBits, BitVec.getLsbD_ofBoolListLE]
    interval_cases n <;> rfl
  rw [windowBit, digit _ _ (Nat.mod_lt _ (by decide)), Nat.zero_add,
    Nat.div_add_mod]

/-- The head of one packet and the tail in the next, cut out of the same
bytes. -/
theorem carries_cut (split : Nat) (sec : Packet) (start : Nat) :
    (∀ i, i < split →
        (fun j => sec (j - (tsPacketSize - split))) (tsPacketSize - split + i) =
          sec i) ∧
      ∀ i, split ≤ i → i < 16 →
        (fun j => sec (split + (j - start))) (start + (i - split)) = sec i := by
  constructor
  · intro i _
    simp only [Nat.add_sub_cancel_left]
  · intro i behind _
    simp only [Nat.add_sub_cancel_left, Nat.add_sub_cancel' behind]

/-- The bits of a section that differs from the pattern in one bit, and that the
tail at a word boundary accepts if it does not compare that bit. -/
def hiddenBits (s : Pattern) (split hidden : Nat) : Nat → Bool :=
  fun bit =>
    if bit = hidden then !bitOf s.pattern bit
    else if bit < 8 * split then bitOf s.pattern bit
    else
      bitOf (ptnArray s.pattern s.ptn) bit || bitOf (ptnArray s.pattern s.ptn) (bit + 32)

/-- If the comparisons agree, a bit is masked when the one 32 bits behind it
is. -/
theorem masked_of_next (low : 1 ≤ split) (high : split ≤ 15)
    (agrees : SplitAgrees s split) (aligned : split % 4 = 0)
    {hidden : Nat} (behind : 8 * split ≤ hidden) (inside : hidden < 128)
    (later : hidden + 32 < 128 → bitOf s.mask (hidden + 32) = true) :
    bitOf s.mask hidden = true := by
  let sec := packetOfBits (hiddenBits s split hidden)
  let first : Packet := fun j => sec (j - (tsPacketSize - split))
  let second : Packet := fun j => sec (split + (j - 4))
  let head := patternMatchHead first (tsPacketSize - split) s
  let next : Pattern := { head.2 with ptnMask := fun _ => 0xFFFFFFFF }
  have carries := carries_cut split sec 4
  have spare : Spare next := fun _ _ _ => rfl
  have registers := patternMatchHead_registers s first (tsPacketSize - split)
  have law := (agrees sec first second 4 next carries.1 carries.2
    ⟨rfl, rfl, rfl, spare⟩).1
  have matched : head.1 = true := by
    rw [patternMatchHead_iff low high carries.1]
    intro bit front
    right
    rw [windowBit_packetOfBits, hiddenBits, if_neg (by omega), if_pos front]
  have byte : next.ptnByte = split := patternMatchHead_ptnByte low high matched
  have ptn : next.ptn = s.ptn := by
    change (patternMatchHead first (tsPacketSize - split) s).2.ptn = s.ptn
    rw [patternMatchHead]
    split <;> rfl
  have tail : (patternMatchTail second 4 next).1 = true := by
    rw [patternMatchTail_iff (by omega), byte]
    intro bit small
    rw [bitOf_shifted_of_aligned _ aligned, bitOf_shifted_of_aligned _ aligned,
      show next.pattern = s.pattern from registers.1,
      show next.mask = s.mask from registers.2, ptn]
    by_cases same : 8 * split + bit = hidden
    · left
      rw [same]
      by_cases within : hidden + 32 < 128
      · rw [bitOf_ptnArray _ _ (hidden + 32), if_pos within, later within,
          Bool.or_true]
      · have top := bitOf_ptnArray_of_spare spare s.mask
          (show 128 ≤ hidden + 32 by omega) (by omega)
        rw [top, Bool.or_true]
    · by_cases within : 8 * split + bit < 128
      · right
        have window : windowBit second 4 bit = windowBit sec 0 (8 * split + bit) := by
          rw [windowBit, windowBit]
          change (sec (split + (4 + bit / 8 - 4))).getLsbD (bit % 8) = _
          rw [Nat.add_sub_cancel_left, Nat.zero_add,
            show (8 * split + bit) / 8 = split + bit / 8 by omega,
            show (8 * split + bit) % 8 = bit % 8 by omega]
        rw [window, windowBit_packetOfBits, hiddenBits, if_neg same,
          if_neg (by omega)]
      · left
        rw [bitOf_ptnArray_of_spare spare _ (by omega) (by omega), Bool.true_or]
  have whole := (cmpMatch_iff _ _ _ _).mp (law.mp ⟨matched, tail⟩) hidden inside
  rw [windowBit_packetOfBits, hiddenBits, if_pos rfl] at whole
  apply whole.resolve_right
  cases bitOf s.pattern hidden <;> decide

theorem condition_of_splitAgrees (low : 1 ≤ split) (high : split ≤ 15)
    (agrees : SplitAgrees s split) :
    split % 4 ≠ 0 ∨
      ∀ bit, 8 * split ≤ bit → bit < 128 → bitOf s.mask bit = true := by
  by_cases aligned : split % 4 = 0
  · right
    intro bit behind inside
    -- from the last word back
    induction left : 128 - bit using Nat.strongRecOn generalizing bit with
    | ind left inductionHypothesis =>
        apply masked_of_next low high agrees aligned behind inside
        intro within
        exact inductionHypothesis (128 - (bit + 32)) (by omega) _ (by omega) within
          rfl
  · exact Or.inl aligned

/-- Matching head and tail is matching the whole, for all sections, if and only
if the split is not at a word boundary or nothing is compared behind it. -/
theorem splitAgrees_iff (s : Pattern) (split : Nat) (low : 1 ≤ split)
    (high : split ≤ 15) :
    SplitAgrees s split ↔
      split % 4 ≠ 0 ∨
        ∀ bit, 8 * split ≤ bit → bit < 128 → bitOf s.mask bit = true :=
  ⟨condition_of_splitAgrees low high, splitAgrees_of_condition low high⟩

/-- A pattern with one byte set, all of it compared. -/
def wholePattern : Pattern where
  pattern := fun i => if i = 2 then 0xFF else 0
  mask := fun _ => 0
  ptnByte := 0
  ptnMask := fun _ => 0xFFFFFFFF
  ptn := fun _ => 0

theorem splitAgrees_iff_five :
    SplitAgrees wholePattern 5 ↔
      5 % 4 ≠ 0 ∨
        ∀ bit, 8 * 5 ≤ bit → bit < 128 → bitOf wholePattern.mask bit = true :=
  splitAgrees_iff wholePattern 5 (by decide) (by decide)

/-- Split after four bytes, head and tail do not decide as the whole comparison
does. -/
theorem split_mismatched : ¬ SplitAgrees wholePattern 4 := by
  intro agrees
  have condition := condition_of_splitAgrees (by decide) (by decide) agrees
  have masked := condition.resolve_left (by decide) 127 (by decide) (by decide)
  revert masked
  decide

end Gp2Firmware.Tsp
