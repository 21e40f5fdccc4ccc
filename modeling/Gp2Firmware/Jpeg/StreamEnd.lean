import Gp2Firmware.Jpeg.OverSubscribed

/-!
# Streams that end

Each byte of a stream is read once, and behind the last one come `0xFF` and `0xD9` in turn.  How
many bytes are left is known from the buffer and from what is still to be brought into it.
-/

namespace Gp2Firmware.Jpeg.BitReader

open Gp2Firmware.Lib.WordMemory

section Streams

/-- How many bytes the one who waits for the stream still has.  It keeps account of them in
variables that the decoder leaves alone, and brings some of them until there are none left. -/
structure FiniteStream (wait : Wait) (left : Reader → Nat) : Prop where
  brings : ∀ r, r.inBufLeft = 0 → (wait r).inBufLeft.toNat + left (wait r) ≤ left r
  ends : ∀ r, r.inBufLeft = 0 → (wait r).inBufLeft = 0 → left r = 0
  phase : ∀ r, (wait r).temFlag = r.temFlag
  mode : ∀ r, (wait r).thumbnailAccessMode = r.thumbnailAccessMode
  apart : ∀ (r : Reader) memory inBufOfs inBufLeft temFlag bitsLeft bitBuf thumbnailBufferOffset
    thumbnailBufferSize, left { r with
      memory := memory
      inBufOfs := inBufOfs
      inBufLeft := inBufLeft
      temFlag := temFlag
      bitsLeft := bitsLeft
      bitBuf := bitBuf
      thumbnailBufferOffset := thumbnailBufferOffset
      thumbnailBufferSize := thumbnailBufferSize } = left r

variable {wait : Wait} (left : Reader → Nat)

/-- The bytes of the stream in front of its end. -/
def remaining (r : Reader) : Nat :=
  r.inBufLeft.toNat +
    if r.eofFlag then 0
    else if r.thumbnailAccessMode then r.thumbnailBufferSize.toNat
    else left r

/-- The flag of the padding is one bit, and there is a buffer for the parts of a thumbnail. -/
structure Supplied (r : Reader) : Prop where
  phase : r.temFlag = 0 ∨ r.temFlag = 1
  buffer : r.thumbnailAccessMode = true → r.mrcBufferSize ≠ 0

/-- One reader behind another one has no more bytes of the same stream. -/
structure Onward (r u : Reader) : Prop where
  supplied : Supplied u
  mode : u.thumbnailAccessMode = r.thumbnailAccessMode
  less : remaining left u ≤ remaining left r

variable {left} {r u v : Reader}

theorem Onward.refl (supplied : Supplied r) : Onward left r r :=
  ⟨supplied, rfl, le_rfl⟩

theorem Onward.trans (first : Onward left r u) (second : Onward left u v) : Onward left r v :=
  ⟨second.supplied, second.mode.trans first.mode, second.less.trans first.less⟩

variable (finite : FiniteStream wait left) (supplied : Supplied r)

include finite supplied

/-- Only the register differs, or the buffer has other bytes. -/
theorem FiniteStream.onward {memory : Memory} {inBufOfs : Address} {inBufLeft bitBuf : U32}
    {bitsLeft : Int} (fewer : inBufLeft.toNat ≤ r.inBufLeft.toNat) :
    Onward left r { r with
      memory := memory
      inBufOfs := inBufOfs
      inBufLeft := inBufLeft
      bitsLeft := bitsLeft
      bitBuf := bitBuf } := by
  refine ⟨⟨supplied.phase, supplied.buffer⟩, rfl, ?_⟩
  have same := finite.apart r memory inBufOfs inBufLeft r.temFlag bitsLeft bitBuf
    r.thumbnailBufferOffset r.thumbnailBufferSize
  rw [remaining, remaining]
  dsimp only
  rw [same]
  exact Nat.add_le_add_right fewer _

/-- A refill brings nothing just at the end. -/
theorem FiniteStream.fillReadBuffer (empty : r.inBufLeft = 0) :
    Onward left r (fillReadBuffer wait r) ∧
      (BitReader.fillReadBuffer wait r).temFlag = r.temFlag ∧
      ((BitReader.fillReadBuffer wait r).inBufLeft = 0 →
        remaining left r = 0 ∧ remaining left (BitReader.fillReadBuffer wait r) = 0) := by
  have none : r.inBufLeft.toNat = 0 := congrArg BitVec.toNat empty
  rw [BitReader.fillReadBuffer]
  dsimp only
  by_cases eof : r.eofFlag = true
  · rw [if_pos eof]
    refine ⟨⟨⟨supplied.phase, supplied.buffer⟩, rfl, ?_⟩, rfl, fun _ => ⟨?_, ?_⟩⟩
    · rw [remaining, remaining]
      simp [eof]
    · rw [remaining]
      simp [eof, none]
    · rw [remaining]
      simp [eof]
  rw [if_neg eof]
  by_cases thumbnail : r.thumbnailAccessMode = true
  · rw [if_pos thumbnail]
    have here : remaining left r = r.thumbnailBufferSize.toNat := by
      rw [remaining]
      simp [eof, thumbnail, none]
    by_cases enough : r.mrcBufferSize ≤ r.thumbnailBufferSize
    · rw [if_pos enough]
      rw [BitVec.le_def] at enough
      refine ⟨⟨⟨supplied.phase, supplied.buffer⟩, rfl, ?_⟩, rfl, fun zero => ?_⟩
      · rw [here, remaining]
        dsimp only
        rw [if_neg eof, if_pos thumbnail]
        bv_omega
      · exact absurd zero (supplied.buffer thumbnail)
    · rw [if_neg enough]
      refine ⟨⟨⟨supplied.phase, supplied.buffer⟩, rfl, ?_⟩, rfl, fun zero => ⟨?_, ?_⟩⟩
      · rw [here, remaining]
        simp
      · rw [here]
        exact congrArg BitVec.toNat zero
      · rw [remaining]
        simp only [if_true, Nat.add_zero]
        exact congrArg BitVec.toNat zero
  · rw [if_neg thumbnail]
    have same := finite.apart r (Function.update (Function.update (Function.update
      (Function.update r.memory (r.mrcBufferAddr + 0) 0x55) (r.mrcBufferAddr + 1) 0xAA)
      (r.mrcBufferAddr + 2) 0xAA) (r.mrcBufferAddr + 3) 0x55) r.inBuf 0 r.temFlag r.bitsLeft
      r.bitBuf r.thumbnailBufferOffset r.thumbnailBufferSize
    have here : remaining left r = left r := by
      rw [remaining]
      simp [eof, thumbnail, none]
    generalize asked : ({ r with
      memory := _
      inBufOfs := r.inBuf
      inBufLeft := 0 } : Reader) = asking at same ⊢
    have brings := finite.brings asking (by rw [← asked])
    have ends := finite.ends asking (by rw [← asked])
    have phase : (wait asking).temFlag = r.temFlag := by
      rw [finite.phase, ← asked]
    have mode : (wait asking).thumbnailAccessMode = r.thumbnailAccessMode := by
      rw [finite.mode, ← asked]
    have less : remaining left (wait asking) ≤
        (wait asking).inBufLeft.toNat + left (wait asking) := by
      rw [remaining, mode, if_neg thumbnail]
      split
      · omega
      · exact le_rfl
    refine ⟨⟨⟨?_, ?_⟩, mode, ?_⟩, phase, fun zero => ?_⟩
    · rw [phase]
      exact supplied.phase
    · rw [mode]
      exact fun isThumbnail => absurd isThumbnail thumbnail
    · rw [here]
      omega
    · have last := ends zero
      rw [here]
      omega

omit finite supplied in
theorem toNat_take {number : U32} {count : Nat} (inside : count ≤ number.toNat) :
    (number - BitVec.ofNat 32 count).toNat = number.toNat - count := by
  have small := number.isLt
  have same : (BitVec.ofNat 32 count).toNat = count := by
    rw [BitVec.toNat_ofNat, Nat.mod_eq_of_lt (by omega)]
  rw [BitVec.toNat_sub_of_le (by rw [BitVec.le_def]; omega), same]

/-- Some bytes of the buffer are used up. -/
theorem FiniteStream.drop {count : Nat} {inBufOfs : Address} (inside : count ≤ r.inBufLeft.toNat) :
    Onward left r { r with
        inBufLeft := r.inBufLeft - BitVec.ofNat 32 count
        inBufOfs := inBufOfs } ∧
      remaining left { r with
        inBufLeft := r.inBufLeft - BitVec.ofNat 32 count
        inBufOfs := inBufOfs } + count = remaining left r := by
  have taken := toNat_take inside
  refine ⟨finite.onward supplied (by omega), ?_⟩
  have same := finite.apart r r.memory inBufOfs (r.inBufLeft - BitVec.ofNat 32 count) r.temFlag
    r.bitsLeft r.bitBuf r.thumbnailBufferOffset r.thumbnailBufferSize
  rw [remaining, remaining]
  dsimp only
  rw [same, taken]
  omega

theorem FiniteStream.takeChar (some : r.inBufLeft ≠ 0) :
    Onward left r (takeChar r).2 ∧ remaining left (takeChar r).2 + 1 = remaining left r := by
  have inside : 1 ≤ r.inBufLeft.toNat := by
    rw [Nat.one_le_iff_ne_zero]
    exact fun zero => some (BitVec.eq_of_toNat_eq zero)
  exact @FiniteStream.drop _ _ _ finite supplied 1 (r.inBufOfs + 1) inside

/-- What the padding gives: it is the other byte the next time. -/
structure Padded (left : Reader → Nat) (r : Reader) (c : U8) (u : Reader) : Prop where
  ended : remaining left r = 0
  char : c = if r.temFlag ≠ 0 then 0xD9 else 0xFF
  next : u.temFlag = r.temFlag ^^^ 1

theorem FiniteStream.padding (ended : remaining left r = 0) :
    Onward left r (padding r).2 ∧ Padded left r (padding r).1 (padding r).2 := by
  refine ⟨⟨⟨?_, supplied.buffer⟩, rfl, ?_⟩, ended, rfl, rfl⟩
  · rcases supplied.phase with zero | one
    · right
      rw [BitReader.padding, zero]
      rfl
    · left
      rw [BitReader.padding, one]
      rfl
  · have same := finite.apart r r.memory r.inBufOfs r.inBufLeft (r.temFlag ^^^ 1) r.bitsLeft
      r.bitBuf r.thumbnailBufferOffset r.thumbnailBufferSize
    rw [BitReader.padding, remaining, remaining]
    dsimp only
    rw [same]

/-- A byte of the stream is taken, or there is none and it is one of the padding. -/
theorem FiniteStream.getCharP :
    Onward left r (getCharP wait r).2.2 ∧
      ((BitReader.getCharP wait r).2.1 = false ∧
          remaining left (BitReader.getCharP wait r).2.2 + 1 ≤ remaining left r ∨
        (BitReader.getCharP wait r).2.1 = true ∧
          Padded left r (BitReader.getCharP wait r).1 (BitReader.getCharP wait r).2.2) := by
  rw [BitReader.getCharP]
  by_cases empty : r.inBufLeft = 0
  · rw [if_pos empty]
    obtain ⟨filled, phase, ends⟩ := finite.fillReadBuffer supplied empty
    dsimp only
    by_cases still : (BitReader.fillReadBuffer wait r).inBufLeft = 0
    · rw [if_pos still]
      obtain ⟨none, noneThen⟩ := ends still
      obtain ⟨onward, padded⟩ := finite.padding filled.supplied noneThen
      refine ⟨filled.trans onward, .inr ⟨rfl, none, ?_, ?_⟩⟩
      · rw [← phase]
        exact padded.char
      · rw [← phase]
        exact padded.next
    · rw [if_neg still]
      obtain ⟨onward, one⟩ := finite.takeChar filled.supplied still
      refine ⟨filled.trans onward, .inl ⟨rfl, ?_⟩⟩
      exact one.le.trans filled.less
  · rw [if_neg empty]
    obtain ⟨onward, one⟩ := finite.takeChar supplied empty
    exact ⟨onward, .inl ⟨rfl, one.le⟩⟩

theorem FiniteStream.getChar :
    Onward left r (getChar wait r).2 ∧
      (remaining left (BitReader.getChar wait r).2 + 1 ≤ remaining left r ∨
        Padded left r (BitReader.getChar wait r).1 (BitReader.getChar wait r).2) := by
  obtain ⟨onward, taken⟩ := finite.getCharP supplied
  refine ⟨onward, ?_⟩
  rcases taken with ⟨-, one⟩ | ⟨-, padded⟩
  · exact .inl one
  · exact .inr padded

theorem FiniteStream.stuffChar {q : U8} :
    Supplied (stuffChar r q) ∧
      (BitReader.stuffChar r q).thumbnailAccessMode = r.thumbnailAccessMode ∧
      remaining left (BitReader.stuffChar r q) ≤ remaining left r + 1 := by
  refine ⟨⟨supplied.phase, supplied.buffer⟩, rfl, ?_⟩
  have same := finite.apart r (Function.update r.memory (r.inBufOfs - 1) q) (r.inBufOfs - 1)
    (r.inBufLeft + 1) r.temFlag r.bitsLeft r.bitBuf r.thumbnailBufferOffset r.thumbnailBufferSize
  have most : (r.inBufLeft + 1).toNat ≤ r.inBufLeft.toNat + 1 := by
    rw [BitVec.toNat_add]
    exact Nat.mod_le _ _
  rw [BitReader.stuffChar, remaining, remaining]
  dsimp only
  rw [same]
  omega

/-- No more is put back than was taken. -/
theorem FiniteStream.getOctet : Onward left r (getOctet wait r).2 := by
  obtain ⟨first, taken⟩ := finite.getCharP supplied
  obtain ⟨second, takenThen⟩ := finite.getCharP first.supplied
  have both := first.trans second
  rw [BitReader.getOctet]
  dsimp only
  by_cases escape : (BitReader.getCharP wait r).1 = 0xFF
  · rw [if_pos escape]
    by_cases padded : (BitReader.getCharP wait r).2.1 = true
    · rw [if_pos padded]
      exact first
    rw [if_neg padded]
    have one : remaining left (BitReader.getCharP wait r).2.2 + 1 ≤ remaining left r := by
      rcases taken with ⟨-, one⟩ | ⟨isPadded, -⟩
      · exact one
      · exact absurd isPadded padded
    obtain ⟨stuffed, mode, more⟩ := @FiniteStream.stuffChar _ _ _ finite both.supplied 0xFF
    by_cases paddedThen : (BitReader.getCharP wait (BitReader.getCharP wait r).2.2).2.1 = true
    · rw [if_pos paddedThen]
      refine ⟨stuffed, mode.trans both.mode, ?_⟩
      have less := second.less
      exact more.trans (by omega)
    rw [if_neg paddedThen]
    have two : remaining left (BitReader.getCharP wait (BitReader.getCharP wait r).2.2).2.2 + 1 ≤
        remaining left (BitReader.getCharP wait r).2.2 := by
      rcases takenThen with ⟨-, two⟩ | ⟨isPadded, -⟩
      · exact two
      · exact absurd isPadded paddedThen
    split
    · exact both
    · obtain ⟨firstStuffed, firstMode, firstMore⟩ := @FiniteStream.stuffChar _ _ _ finite
        both.supplied (BitReader.getCharP wait (BitReader.getCharP wait r).2.2).1
      obtain ⟨lastStuffed, lastMode, lastMore⟩ := @FiniteStream.stuffChar _ _ _ finite
        firstStuffed 0xFF
      refine ⟨lastStuffed, lastMode.trans (firstMode.trans both.mode), ?_⟩
      exact lastMore.trans (by omega)
  · rw [if_neg escape]
    exact first

theorem FiniteStream.getBits2 {numbits : Nat} : Onward left r (getBits2 wait numbits r).2 := by
  have register : ∀ {u : Reader} (_ : Supplied u) bitBuf bitsLeft,
      Onward left u { u with bitBuf := bitBuf, bitsLeft := bitsLeft } :=
    fun here _ _ => finite.onward here le_rfl
  rw [BitReader.getBits2]
  dsimp only
  split
  · have before := register supplied
      (rol r.bitBuf (asU8 ((numbits : Int) + (r.bitsLeft - (numbits : Int)))))
      (r.bitsLeft - (numbits : Int))
    have first := finite.getOctet before.supplied
    have second := finite.getOctet first.supplied
    exact ((before.trans first).trans second).trans (register second.supplied _ _)
  · exact register supplied _ _

theorem FiniteStream.prime : Onward left r (prime wait r) := by
  have before : Onward left r { r with bitsLeft := 16 } := finite.onward supplied le_rfl
  have first := @FiniteStream.getBits2 _ _ _ finite before.supplied 16
  exact (before.trans first).trans (finite.getBits2 first.supplied)

end Streams

section Taking

/-- From a reader one gets to another one, and takes some characters on the way.  The bits of
the entropy coded data are not counted. -/
inductive Takes (wait : Wait) (r : Reader) : Nat → Reader → Prop
  | start : Takes wait r 0 r
  | char {n u} : Takes wait r n u → Takes wait r (n + 1) (getChar wait u).2
  | fill {n u} : Takes wait r n u → u.inBufLeft = 0 → Takes wait r n (fillReadBuffer wait u)
  | drop {n u count} : Takes wait r n u → count ≤ u.inBufLeft.toNat →
      Takes wait r (n + count) { u with
        inBufLeft := u.inBufLeft - BitVec.ofNat 32 count
        inBufOfs := u.inBufOfs + BitVec.ofNat 32 count }
  | empty {n u} : Takes wait r n u →
      Takes wait r (n + u.inBufLeft.toNat) { u with inBufLeft := 0 }
  | bits {n u numbits} : Takes wait r n u → Takes wait r n (getBits2 wait numbits u).2
  | prime {n u} : Takes wait r n u → Takes wait r n (prime wait u)

variable {wait : Wait} {left : Reader → Nat} {n more : Nat} {r u v : Reader}

theorem Takes.trans (first : Takes wait r n u) (second : Takes wait u more v) :
    Takes wait r (n + more) v := by
  induction second with
  | start => exact first
  | char _ inductionHypothesis => exact inductionHypothesis.char
  | fill _ empty inductionHypothesis => exact inductionHypothesis.fill empty
  | drop _ inside inductionHypothesis =>
      rw [← Nat.add_assoc]
      exact inductionHypothesis.drop inside
  | empty _ inductionHypothesis =>
      rw [← Nat.add_assoc]
      exact inductionHypothesis.empty
  | bits _ inductionHypothesis => exact inductionHypothesis.bits
  | prime _ inductionHypothesis => exact inductionHypothesis.prime

theorem Takes.skip {count : Nat} : Takes wait r count (HuffmanTable.skip wait count r) := by
  induction count with
  | zero => exact .start
  | succ count inductionHypothesis =>
      rw [HuffmanTable.skip, Function.iterate_succ_apply']
      exact inductionHypothesis.char

/-- The characters come from the stream, unless it has come to its end. -/
theorem Takes.spent (takes : Takes wait r n u) (finite : FiniteStream wait left)
    (supplied : Supplied r) :
    Onward left r u ∧ (remaining left u + n ≤ remaining left r ∨ remaining left u = 0) := by
  induction takes with
  | start => exact ⟨.refl supplied, .inl le_rfl⟩
  | @char n u _ inductionHypothesis =>
      obtain ⟨before, spent⟩ := inductionHypothesis
      obtain ⟨onward, taken⟩ := finite.getChar before.supplied
      refine ⟨before.trans onward, ?_⟩
      have less := onward.less
      rcases taken with one | padded
      · omega
      · have ended := padded.ended
        omega
  | @fill n u _ empty inductionHypothesis =>
      obtain ⟨before, spent⟩ := inductionHypothesis
      have onward := (finite.fillReadBuffer before.supplied empty).1
      have less := onward.less
      exact ⟨before.trans onward, by omega⟩
  | @drop n u count _ inside inductionHypothesis =>
      obtain ⟨before, spent⟩ := inductionHypothesis
      obtain ⟨onward, dropped⟩ := @FiniteStream.drop _ _ _ finite before.supplied count
        (u.inBufOfs + BitVec.ofNat 32 count) inside
      exact ⟨before.trans onward, by omega⟩
  | @empty n u _ inductionHypothesis =>
      obtain ⟨before, spent⟩ := inductionHypothesis
      obtain ⟨onward, dropped⟩ := @FiniteStream.drop _ _ _ finite before.supplied
        u.inBufLeft.toNat u.inBufOfs le_rfl
      rw [BitVec.ofNat_toNat, BitVec.setWidth_eq, BitVec.sub_self] at onward dropped
      have rest : remaining left { u with inBufLeft := 0 } + u.inBufLeft.toNat =
        remaining left u := dropped
      exact ⟨before.trans onward, by omega⟩
  | @bits n u numbits _ inductionHypothesis =>
      obtain ⟨before, spent⟩ := inductionHypothesis
      have onward := @FiniteStream.getBits2 _ _ _ finite before.supplied numbits
      have less := onward.less
      exact ⟨before.trans onward, by omega⟩
  | @prime n u _ inductionHypothesis =>
      obtain ⟨before, spent⟩ := inductionHypothesis
      have onward := finite.prime before.supplied
      have less := onward.less
      exact ⟨before.trans onward, by omega⟩

end Taking

end Gp2Firmware.Jpeg.BitReader
