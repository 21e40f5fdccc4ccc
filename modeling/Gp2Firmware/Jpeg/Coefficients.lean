import Gp2Firmware.Lib.Ensures
import Gp2Firmware.Jpeg.Progressive
import Gp2Firmware.Jpeg.PushBack

/-!
# The coefficients of a block

The coefficient buffers and the buffer of the stream are in the same memory.  What is read of
the stream, with the bytes that are put back, does not change a block that lies outside of
the buffer and of the byte in front of it.
-/

namespace Gp2Firmware.Jpeg.BitReader

open Gp2Firmware.Lib.WordMemory

/-- Whoever is waited for puts a part of the stream into the buffer and tells its length. -/
def Delivers (wait : Wait) : Prop :=
  ∀ r, ∃ part : List U8, part.length ≤ r.mrcBufferSize.toNat ∧ wait r = deliver part r

section Block

/-- The bytes of a block of 64 coefficients. -/
def InBlock (p byte : Address) : Prop :=
  (byte - p).toNat < 128

/-- How far the read position is behind the byte in front of the buffer. -/
def offset (r : Reader) : Nat :=
  (r.inBufOfs - (r.inBuf - 1)).toNat

/-- What is left to be read is in the buffer, or begins a byte in front of it, and the block
is outside. -/
structure OutsideBuffer (p : Address) (r : Reader) : Prop where
  position : offset r + r.inBufLeft.toNat ≤ r.mrcBufferSize.toNat + 1
  buffer : ∀ byte, InBlock p byte → r.mrcBufferSize.toNat + 1 ≤ (byte - (r.inBuf - 1)).toNat
  mark : ∀ byte, InBlock p byte → 4 ≤ (byte - r.mrcBufferAddr).toNat

/-- The block is as it was. -/
def SameBlock (p : Address) (memory changed : Memory) : Prop :=
  ∀ byte, InBlock p byte → changed byte = memory byte

/-- The reader in front of a step and behind it. -/
structure LeavesBlock (p : Address) (r after : Reader) : Prop where
  outside : OutsideBuffer p after
  same : SameBlock p r.memory after.memory

variable {wait : Wait} {p : Address} {r after last : Reader}

theorem OutsideBuffer.small (outside : OutsideBuffer p r) : r.mrcBufferSize.toNat + 1 < 2 ^ 32 := by
  have first : InBlock p p := by
    rw [InBlock, BitVec.sub_self]
    decide
  have behind := outside.buffer p first
  omega

theorem LeavesBlock.refl (outside : OutsideBuffer p r) : LeavesBlock p r r :=
  ⟨outside, fun _ _ => rfl⟩

theorem LeavesBlock.trans (first : LeavesBlock p r after) (second : LeavesBlock p after last) :
    LeavesBlock p r last :=
  ⟨second.outside, fun byte inside => (second.same byte inside).trans (first.same byte inside)⟩

/-- A byte of the buffer or in front of it is not one of the block. -/
theorem OutsideBuffer.update (outside : OutsideBuffer p r) {place : Address} {value : U8}
    (inside : (place - (r.inBuf - 1)).toNat ≤ r.mrcBufferSize.toNat) :
    SameBlock p r.memory (Function.update r.memory place value) := by
  intro byte here
  apply Function.update_of_ne
  intro same
  have behind := outside.buffer byte here
  rw [same] at behind
  omega

theorem putBytes_outside {bytes : List U8} {memory : Memory} {address byte : Address}
    (outside : bytes.length ≤ (byte - address).toNat) :
    putBytes memory address bytes byte = memory byte := by
  induction bytes generalizing memory address with
  | nil => rfl
  | cons first rest inductionHypothesis =>
      rw [List.length_cons] at outside
      have different : byte ≠ address := by
        rintro rfl
        rw [BitVec.sub_self] at outside
        exact absurd outside (by simp)
      rw [putBytes, inductionHypothesis (by bv_omega), Function.update_of_ne different]

/-- A place as far behind the front of the buffer as behind the byte in front of it. -/
theorem sub_front {byte front : Address} {size : Nat}
    (behind : size + 1 ≤ (byte - (front - 1)).toNat) : size ≤ (byte - front).toNat := by
  bv_omega

section Fill

variable (outside : OutsideBuffer p r)

include outside

theorem OutsideBuffer.refilled (front : after.inBuf = r.inBuf) (read : after.inBufOfs = r.inBuf)
    (size : after.mrcBufferSize = r.mrcBufferSize) (address : after.mrcBufferAddr = r.mrcBufferAddr)
    (few : after.inBufLeft.toNat ≤ r.mrcBufferSize.toNat)
    (same : SameBlock p r.memory after.memory) : LeavesBlock p r after ∧ offset after = 1 := by
  have first : offset after = 1 := by
    rw [offset, front, read]
    bv_omega
  refine ⟨⟨⟨?_, ?_, ?_⟩, same⟩, first⟩
  · rw [first, size]
    omega
  · rw [size, front]
    exact outside.buffer
  · rw [address]
    exact outside.mark

theorem OutsideBuffer.memcpy {source : Address} {count : U32}
    (few : count.toNat ≤ r.mrcBufferSize.toNat) :
    SameBlock p r.memory (memcpy r.memory (r.inBuf + 0) source count) := by
  intro byte inside
  have behind := sub_front (outside.buffer byte inside)
  have start : r.inBuf + 0 = r.inBuf := BitVec.add_zero r.inBuf
  rw [BitReader.memcpy, start, if_neg]
  rw [BitVec.lt_def]
  omega

theorem OutsideBuffer.marked {place : Address} {memory : Memory} {value : U8}
    (few : place.toNat < 4) :
    SameBlock p memory (Function.update memory (r.mrcBufferAddr + place) value) := by
  intro byte inside
  apply Function.update_of_ne
  intro same
  have behind := outside.mark byte inside
  rw [same] at behind
  bv_omega

/-- A refill begins at the front of the buffer. -/
theorem fillReadBuffer_leaves (delivers : Delivers wait) :
    LeavesBlock p r (fillReadBuffer wait r) ∧ offset (fillReadBuffer wait r) = 1 := by
  rw [fillReadBuffer]
  dsimp only
  split
  · exact outside.refilled rfl rfl rfl rfl (Nat.zero_le _) fun _ _ => rfl
  split
  · split
    · exact outside.refilled rfl rfl rfl rfl le_rfl (outside.memcpy le_rfl)
    · rename_i fewer
      have few : r.thumbnailBufferSize.toNat ≤ r.mrcBufferSize.toNat := Nat.le_of_not_le fewer
      exact outside.refilled rfl rfl rfl rfl few (outside.memcpy few)
  · obtain ⟨part, fits, delivered⟩ := delivers { r with
      inBufLeft := 0
      inBufOfs := r.inBuf
      memory := Function.update (Function.update (Function.update (Function.update r.memory
        (r.mrcBufferAddr + 0) 0x55) (r.mrcBufferAddr + 1) 0xAA) (r.mrcBufferAddr + 2) 0xAA)
        (r.mrcBufferAddr + 3) 0x55 }
    have told : (0 + BitVec.ofNat 32 part.length : U32).toNat ≤ part.length := by
      rw [BitVec.ofNat_eq_ofNat, BitVec.zero_add, BitVec.toNat_ofNat]
      exact Nat.mod_le _ _
    refine outside.refilled ?_ ?_ ?_ ?_ ?_ ?_
    · rw [delivered, deliver]
    · rw [delivered, deliver]
    · rw [delivered, deliver]
    · rw [delivered, deliver]
    · rw [delivered, deliver]
      exact told.trans fits
    · intro byte inside
      have behind := sub_front (outside.buffer byte inside)
      rw [delivered, deliver]
      dsimp only at fits ⊢
      rw [putBytes_outside (by omega), outside.marked (by decide) byte inside,
        outside.marked (by decide) byte inside, outside.marked (by decide) byte inside,
        outside.marked (by decide) byte inside]

end Fill

section Chars

variable (outside : OutsideBuffer p r)

include outside

theorem takeChar_leaves (some : r.inBufLeft ≠ 0) :
    LeavesBlock p r (takeChar r).2 ∧ offset (takeChar r).2 = offset r + 1 := by
  have position := outside.position
  have small := outside.small
  have next : offset (takeChar r).2 = offset r + 1 := by
    rw [offset] at position ⊢
    rw [offset, takeChar]
    dsimp only
    bv_omega
  refine ⟨⟨⟨?_, outside.buffer, outside.mark⟩, fun _ _ => rfl⟩, next⟩
  rw [next]
  rw [takeChar]
  dsimp only
  bv_omega

theorem stuffChar_leaves {q : U8} (behind : 1 ≤ offset r)
    (room : offset r + r.inBufLeft.toNat ≤ r.mrcBufferSize.toNat + 1) :
    LeavesBlock p r (stuffChar r q) ∧ offset (stuffChar r q) = offset r - 1 := by
  have small := outside.small
  have next : offset (stuffChar r q) = offset r - 1 := by
    rw [offset] at behind ⊢
    rw [offset, stuffChar]
    dsimp only
    bv_omega
  refine ⟨⟨⟨?_, outside.buffer, outside.mark⟩, ?_⟩, next⟩
  · rw [next]
    rw [stuffChar]
    dsimp only
    bv_omega
  · apply outside.update
    rw [offset] at behind room
    bv_omega

/-- Padding comes from the front of the buffer, and what is taken is in front of the read
position then. -/
theorem getCharP_leaves (delivers : Delivers wait) :
    LeavesBlock p r (getCharP wait r).2.2 ∧ 1 ≤ offset (getCharP wait r).2.2 ∧
      ((getCharP wait r).2.1 = false → 1 ≤ offset r → 2 ≤ offset (getCharP wait r).2.2) := by
  rw [getCharP]
  split
  · obtain ⟨filled, front⟩ := fillReadBuffer_leaves outside delivers
    dsimp only
    split
    · refine ⟨⟨⟨filled.outside.position, filled.outside.buffer, filled.outside.mark⟩,
        filled.same⟩, ?_, ?_⟩
      · exact front.ge
      · intro taken
        cases taken
    · rename_i some
      obtain ⟨taken, next⟩ := takeChar_leaves filled.outside some
      exact ⟨filled.trans taken, by dsimp only; omega, fun _ _ => by dsimp only; omega⟩
  · rename_i some
    obtain ⟨taken, next⟩ := takeChar_leaves outside some
    exact ⟨taken, by dsimp only; omega, fun _ _ => by dsimp only; omega⟩

theorem getOctet_leaves (delivers : Delivers wait) : LeavesBlock p r (getOctet wait r).2 := by
  obtain ⟨first, behind, -⟩ := getCharP_leaves outside delivers
  obtain ⟨second, more, taken⟩ := getCharP_leaves first.outside delivers
  rw [getOctet]
  dsimp only
  split
  · split
    · exact first
    · have both := first.trans second
      split
      · exact both.trans (stuffChar_leaves both.outside more both.outside.position).1
      · split
        · exact both
        · rename_i notPadded _
          have two := taken (by simpa using notPadded) behind
          obtain ⟨third, before⟩ := stuffChar_leaves both.outside more both.outside.position
          exact both.trans (third.trans
            (stuffChar_leaves third.outside (by omega) third.outside.position).1)
  · exact first

/-- The register has nothing to do with the buffer. -/
theorem OutsideBuffer.register {bitBuf : U32} {bitsLeft : Int} :
    OutsideBuffer p { r with bitBuf := bitBuf, bitsLeft := bitsLeft } :=
  ⟨outside.position, outside.buffer, outside.mark⟩

theorem getBits2_leaves (delivers : Delivers wait) {n : Nat} :
    LeavesBlock p r (getBits2 wait n r).2 := by
  rw [getBits2]
  dsimp only
  split
  · have first := getOctet_leaves (@OutsideBuffer.register p r outside
      (rol r.bitBuf (asU8 ((n : Int) + (r.bitsLeft - n)))) (r.bitsLeft - n)) delivers
    have second := getOctet_leaves first.outside delivers
    have both := first.trans second
    exact ⟨both.outside.register, both.same⟩
  · exact ⟨outside.register, fun _ _ => rfl⟩

end Chars

/-- What is read of a stream keeps the reader as it has to be and leaves the block alone, and
changes of the block are no matter. -/
structure Undisturbed (wait : Wait) (p : Address) (reads : Reader → Prop) : Prop where
  bits : ∀ r n, reads r →
    reads (getBits2 wait n r).2 ∧ SameBlock p r.memory (getBits2 wait n r).2.memory
  block : ∀ r memory, reads r → (∀ byte, ¬ InBlock p byte → memory byte = r.memory byte) →
    reads { r with memory := memory }

theorem Delivers.undisturbed (delivers : Delivers wait) :
    Undisturbed wait p (OutsideBuffer p) := by
  constructor
  · intro r n outside
    obtain ⟨after, same⟩ := @getBits2_leaves wait p r outside delivers n
    exact ⟨after, same⟩
  · intro r memory outside _
    exact ⟨outside.position, outside.buffer, outside.mark⟩

end Block

end Gp2Firmware.Jpeg.BitReader

namespace Gp2Firmware.Jpeg.Decoder

open Gp2Firmware.Lib (Loop.returns_rule Achieves Ensures)
open Gp2Firmware.Lib.WordMemory Gp2Firmware.Jpeg.BitReader
  Gp2Firmware.Jpeg.HuffmanTable Gp2Firmware.Jpeg.Mcu

section Coefficients

def coefAt (memory : Memory) (p : Address) (k : Nat) : U16 :=
  loadShort memory (coefPlace p k)

variable {memory changed : Memory} {p : Address} {j k : Nat}

theorem coefPlace_inBlock (inside : k < 64) :
    InBlock p (coefPlace p k) ∧ InBlock p (coefPlace p k + 1) := by
  rw [InBlock, InBlock, coefPlace]
  constructor
  · bv_omega
  · bv_omega

theorem coefAt_of_same (same : SameBlock p memory changed) (inside : k < 64) :
    coefAt changed p k = coefAt memory p k := by
  obtain ⟨low, high⟩ := @coefPlace_inBlock p k inside
  rw [coefAt, coefAt, loadShort, loadShort, same _ low, same _ high]

theorem halves_append {value : U16} :
    (value >>> 8).setWidth 8 ++ value.setWidth 8 = value := by
  apply BitVec.eq_of_getLsbD_eq
  intro i inside
  rw [BitVec.getLsbD_append, BitVec.getLsbD_setWidth, BitVec.getLsbD_setWidth,
    BitVec.getLsbD_ushiftRight]
  split
  · rename_i low
    rw [decide_eq_true low, Bool.true_and]
  · rename_i high
    rw [decide_eq_true (by omega : i - 8 < 8), Bool.true_and, show 8 + (i - 8) = i by omega]

theorem coefAt_storeShort {value : U16} (inside : k < 64) (other : j < 64) :
    coefAt (storeShort memory (coefPlace p k) value) p j =
      if j = k then value else coefAt memory p j := by
  have apart : ∀ i < 64, i ≠ k → coefPlace p i ≠ coefPlace p k ∧
      coefPlace p i ≠ coefPlace p k + 1 ∧ coefPlace p i + 1 ≠ coefPlace p k ∧
      coefPlace p i + 1 ≠ coefPlace p k + 1 := by
    intro i small different
    simp only [coefPlace]
    refine ⟨?_, ?_, ?_, ?_⟩ <;> bv_omega
  have next : coefPlace p k ≠ coefPlace p k + 1 := by bv_omega
  rw [coefAt, loadShort, storeShort]
  split
  · rename_i same
    subst same
    rw [Function.update_self, Function.update_of_ne next, Function.update_self]
    exact halves_append
  · rename_i different
    obtain ⟨first, second, third, fourth⟩ := apart j other different
    rw [Function.update_of_ne fourth, Function.update_of_ne third, Function.update_of_ne second,
      Function.update_of_ne first, coefAt, loadShort]

end Coefficients

section Scan

/-- A scan of AC coefficients: its band, the position of its bits, its component and the table
of this. -/
structure AcScan where
  first : Nat
  last : Nat
  low : Nat
  componentId : Nat
  tables : HuffTables

/-- A decoder in a scan, with a reader as it has to be and some coefficients in a block. -/
structure Holds (scan : AcScan) (p : Address) (reads : Reader → Prop) (c : Nat → U16)
    (s : State) : Prop where
  reads : reads s.reader
  start : s.spectralStart = scan.first
  ends : s.spectralEnd = scan.last
  low : s.successiveLow = scan.low
  table : s.huffTbls (s.compAcTab scan.componentId) = scan.tables
  coefs : ∀ k < 64, coefAt s.reader.memory p k = c k

/-- A value that a read of bits can give. -/
def Possible (wait : Wait) (reads : Reader → Prop) (n : Nat) (bits : U32) : Prop :=
  ∃ r, reads r ∧ (getBits2 wait n r).1 = bits

variable {machine : Machine} {scan : AcScan} {p : Address} {reads : Reader → Prop}
  {c : Nat → U16} {k n : Nat} {s : State}

theorem Holds.setEobRun (holds : Holds scan p reads c s) {run : U32} :
    Holds scan p reads c { s with eobRun := run } :=
  ⟨holds.reads, holds.start, holds.ends, holds.low, holds.table, holds.coefs⟩

theorem Holds.read (undisturbed : Undisturbed machine.wait p reads)
    (holds : Holds scan p reads c s) :
    Holds scan p reads c { s with reader := (getBits2 machine.wait n s.reader).2 } := by
  obtain ⟨after, same⟩ := undisturbed.bits s.reader n holds.reads
  refine ⟨after, holds.start, holds.ends, holds.low, holds.table, ?_⟩
  intro k inside
  rw [← holds.coefs k inside]
  exact coefAt_of_same same inside

theorem achieves_loadCoef (inside : k < 64) :
    Achieves (Holds scan p reads c) (loadCoef p k) fun value s =>
      value = c k ∧ Holds scan p reads c s :=
  fun s holds => ⟨_, s, rfl, holds.coefs k inside, holds⟩

theorem achieves_storeCoef
    (block : ∀ r memory, reads r → (∀ byte, ¬ InBlock p byte → memory byte = r.memory byte) →
      reads { r with memory := memory }) (inside : k < 64) {value : U32} :
    Achieves (Holds scan p reads c) (storeCoef p k value) fun _ s =>
      Holds scan p reads (Function.update c k (value.setWidth 16)) s := by
  intro s holds
  refine ⟨(), _, rfl, ?_, holds.start, holds.ends, holds.low, holds.table, ?_⟩
  · apply block s.reader _ holds.reads
    intro byte outside
    obtain ⟨low, high⟩ := @coefPlace_inBlock p k inside
    have notLow : byte ≠ coefPlace p k := fun same => outside (same ▸ low)
    have notHigh : byte ≠ coefPlace p k + 1 := fun same => outside (same ▸ high)
    exact (Function.update_of_ne notHigh _ _).trans (Function.update_of_ne notLow _ _)
  · intro j small
    dsimp only
    rw [coefAt_storeShort inside small, Function.update_apply]
    split
    · rfl
    · exact holds.coefs j small

section Undisturbed

variable (undisturbed : Undisturbed machine.wait p reads)

include undisturbed

theorem achieves_getBits :
    Achieves (Holds scan p reads c) (getBits machine n) fun bits s =>
      Possible machine.wait reads n bits ∧ Holds scan p reads c s :=
  fun s holds => ⟨_, _, rfl, ⟨s.reader, holds.reads, rfl⟩, holds.read undisturbed⟩

/-- A symbol is decoded with nothing but reads of bits. -/
theorem ensures_huffSymbol {index : Nat} :
    Ensures (Holds scan p reads c) (huffSymbol machine index) fun _ => Holds scan p reads c := by
  intro s symbol t holds ran
  rw [huffSymbol, Option.map_eq_some_iff] at ran
  obtain ⟨⟨decoded, after⟩, decodes, same⟩ := ran
  cases same
  rw [huffDecode] at decodes
  split at decodes
  · obtain ⟨last, held, leaves⟩ := @Loop.returns_rule _ _ (huffTurn machine.wait _) _ _
      (fun state => Holds scan p reads c { s with reader := state.2 })
      (by
        intro state next held goes
        rw [huffTurn] at goes
        dsimp only at goes
        split at goes
        · cases goes
          exact held.read undisturbed
        · cases goes)
      (holds.read undisturbed) ⟨_, decodes⟩
    rw [huffTurn] at leaves
    dsimp only at leaves
    split at leaves
    · cases leaves
    · cases leaves
      exact held.read undisturbed
  · cases decodes
    exact holds.read undisturbed

end Undisturbed

end Scan

end Gp2Firmware.Jpeg.Decoder
