import Gp2Firmware.Jpeg.AcBand
import Gp2Firmware.Jpeg.DcSizes

/-!
# Which AC scans stay in their band

A band up to the last coefficient is never left.  For every other one there are scans that
store a coefficient behind it, and a coefficient with the least value changes its sign when it
is refined.
-/

namespace Gp2Firmware.Jpeg.Decoder

open Gp2Firmware.Lib (Achieves Ensures achieves_pure achieves_get_bind)
open Gp2Firmware.Lib.WordMemory Gp2Firmware.Lib.CanonicalCode Gp2Firmware.Jpeg.BitReader
  Gp2Firmware.Jpeg.HuffmanTable Gp2Firmware.Jpeg.Mcu

section Arithmetic

/-- A multiple of what the bit in front of a position is worth. -/
def MultipleAbove (low : Nat) (value : U16) : Prop :=
  (2 ^ (low + 1) : Int) ∣ value.toInt

/-- Zero stays so or becomes the value of the bit with a sign; any other number keeps its sign,
and grows by this value or not at all. -/
def RefinedBy (low : Nat) (old new : U16) : Prop :=
  if old = 0 then new = 0 ∨ new.toInt = 2 ^ low ∨ new.toInt = -2 ^ low
  else new.toInt.sign = old.toInt.sign ∧
    (new = old ∨ new.toInt.natAbs = old.toInt.natAbs + 2 ^ low)

variable {low : Nat} {old new : U16} {bit : U32} {possible : U32 → Prop}

theorem refinedBy_same : RefinedBy low old old := by
  rw [RefinedBy]
  split
  · rename_i zero
    exact .inl zero
  · exact ⟨rfl, .inl rfl⟩

theorem bit_toInt (few : low ≤ 14) :
    ((1 <<< low : U32).setWidth 16).toInt = 2 ^ low ∧
      ((-(1 <<< low) : U32).setWidth 16).toInt = -2 ^ low := by
  have all : ∀ low < 15, ((1 <<< low : U32).setWidth 16).toInt = 2 ^ low ∧
      ((-(1 <<< low) : U32).setWidth 16).toInt = -2 ^ low := by decide
  exact all low (by omega)

theorem NewValue.refinedBy (isNew : NewValue low new) (few : low ≤ 14) : RefinedBy low 0 new := by
  obtain ⟨plus, minus⟩ := @bit_toInt low few
  rw [RefinedBy, if_pos rfl]
  right
  rcases isNew with same | same
  · rw [same]
    exact .inl plus
  · rw [same]
    exact .inr minus

/-- A number that is not the least one has room for the bit in front of it. -/
theorem MultipleAbove.room (multiple : MultipleAbove low old) (few : low ≤ 14)
    (notLeast : old ≠ 0x8000) :
    -32768 + 2 ^ (low + 1) ≤ old.toInt ∧ old.toInt ≤ 32768 - 2 ^ (low + 1) := by
  have half : (2 ^ (low + 1) : Int) ∣ 32768 := by
    rw [show (32768 : Int) = 2 ^ 15 by rfl]
    exact pow_dvd_pow 2 (by omega)
  have least : -32768 ≤ old.toInt := BitVec.le_toInt old
  have most : old.toInt < 32768 := BitVec.toInt_lt
  have other : old.toInt ≠ -32768 := by
    intro same
    apply notLeast
    apply BitVec.eq_of_toInt_eq
    rw [same]
    rfl
  have above := Int.le_of_dvd (show 0 < old.toInt + 32768 by omega) (dvd_add multiple half)
  have below := Int.le_of_dvd (show 0 < 32768 - old.toInt by omega) (dvd_sub half multiple)
  omega

theorem add_toInt {q : U32} {value : Int} (same : (q.setWidth 16).toInt = value)
    (above : -32768 ≤ old.toInt + value) (below : old.toInt + value < 32768) :
    ((old.signExtend 32 + q).setWidth 16).toInt = old.toInt + value := by
  have narrow : (old.signExtend 32).setWidth 16 = old := by
    apply BitVec.eq_of_getLsbD_eq
    intro i inside
    rw [BitVec.getLsbD_setWidth, BitVec.getLsbD_signExtend, decide_eq_true inside,
      decide_eq_true (show i < 32 by omega), if_pos inside, Bool.true_and, Bool.true_and]
  rw [BitVec.setWidth_add _ _ (by decide), narrow, BitVec.toInt_add, same]
  exact Int.bmod_eq_of_le (by omega) (by omega)

theorem refineValue_refinedBy (multiple : MultipleAbove low old) (few : low ≤ 14)
    (notLeast : old ≠ 0x8000) : RefinedBy low old (refineValue low bit old) := by
  rw [refineValue]
  split
  · rename_i changes
    obtain ⟨above, below⟩ := multiple.room few notLeast
    obtain ⟨plus, minus⟩ := @bit_toInt low few
    have double : (2 ^ (low + 1) : Int) = 2 * 2 ^ low := pow_succ' 2 low
    have positive : (0 : Int) < 2 ^ low := by positivity
    have cast : ((2 ^ low : Nat) : Int) = 2 ^ low := by push_cast; rfl
    have nonzero : old.toInt ≠ 0 := fun zero => changes.1 (BitVec.eq_of_toInt_eq zero)
    rw [RefinedBy, if_neg changes.1]
    split
    · rename_i negative
      have less := BitVec.toInt_neg_of_msb_true negative
      have value := @add_toInt old (-(1 <<< low)) _ minus (by omega) (by omega)
      rw [← BitVec.sub_eq_add_neg] at value
      rw [value, Int.sign_eq_neg_one_of_neg less, Int.sign_eq_neg_one_of_neg (by omega)]
      exact ⟨rfl, .inr (by omega)⟩
    · rename_i positiveSign
      have most := BitVec.toInt_nonneg_of_msb_false (by simpa using positiveSign)
      have value := @add_toInt old (1 <<< low) _ plus (by omega) (by omega)
      rw [value, Int.sign_eq_one_of_pos (by omega), Int.sign_eq_one_of_pos (by omega)]
      exact ⟨rfl, .inr (by omega)⟩
  · exact refinedBy_same

theorem CoefStep.refinedBy (step : CoefStep low possible old new) (multiple : MultipleAbove low old)
    (few : low ≤ 14) (notLeast : old ≠ 0x8000) : RefinedBy low old new := by
  cases step with
  | same => exact refinedBy_same
  | refined _ => exact refineValue_refinedBy multiple few notLeast
  | new zero isNew =>
      rw [zero]
      exact isNew.refinedBy few

/-- The least number becomes a positive one. -/
theorem not_refinedBy_least (few : low ≤ 14) :
    ¬ RefinedBy low 0x8000 (refineValue low 1 0x8000) := by
  have all : ∀ low < 15, (refineValue low 1 0x8000).toInt.sign = 1 := by decide
  intro refined
  rw [RefinedBy, if_neg (by decide), all low (by omega)] at refined
  exact absurd refined.1 (by decide)

end Arithmetic

section Property

/-- A scan at a block outside of the buffer, with a table as it is made. -/
structure AtScan (machine : Machine) (scan : AcScan) (p : Address) (blockX blockY : Nat)
    (c : Nat → U16) (s : State) : Prop where
  block : AtBlock machine scan p (OutsideBuffer p) blockX blockY c s
  register : 1 ≤ s.reader.bitsLeft ∧ s.reader.bitsLeft ≤ 16
  made : ∃ info hs made, HuffmanTable.makeHuffTable true info hs = some (made, scan.tables)

/-- Whatever is in the stream and in the block, the coefficients outside of the band stay. -/
def StaysInBand (decode : Machine → Nat → Nat → Nat → Program State Bool) (first last : Nat) :
    Prop :=
  ∀ (machine : Machine) (scan : AcScan) (p : Address) (blockX blockY : Nat) (c : Nat → U16),
    Delivers machine.wait → scan.first = first → scan.last = last →
    Ensures (AtScan machine scan p blockX blockY c) (decode machine scan.componentId blockX blockY)
      fun ok t => ∃ u, Leaves machine ok u t ∧
        ∀ k < 64, k < first ∨ last < k → coefAt u.reader.memory p k = c k

/-- Whatever is in the stream, the coefficients of the band are refined as they should be. -/
def RefinesBand (first last low : Nat) (content : Nat → U16) : Prop :=
  ∀ (machine : Machine) (scan : AcScan) (p : Address) (blockX blockY : Nat) (c : Nat → U16),
    Delivers machine.wait → scan.first = first → scan.last = last → scan.low = low →
    (∀ k, first ≤ k → k ≤ last → c k = content k) →
    Ensures (AtScan machine scan p blockX blockY c)
      (decodeBlockAcRefine machine scan.componentId blockX blockY) fun ok t =>
        ∃ u, Leaves machine ok u t ∧ ∀ k, first ≤ k → k ≤ last →
          RefinedBy low (content k) (coefAt u.reader.memory p k)

variable {first last low : Nat} {content : Nat → U16}

theorem staysInBand_acFirst : StaysInBand decodeBlockAcFirst first 63 := by
  intro machine scan p blockX blockY c delivers start _
  refine (ensures_decodeBlockAcFirst delivers.undisturbed).imp (fun _ here => here.block) ?_
  intro ok t ⟨u, after, leaves, holds, kept⟩
  refine ⟨u, leaves, ?_⟩
  intro k inside outside
  rw [holds.coefs k inside, kept k (by omega)]

theorem staysInBand_acRefine : StaysInBand decodeBlockAcRefine first 63 := by
  intro machine scan p blockX blockY c delivers start ends
  refine (ensures_decodeBlockAcRefine delivers.undisturbed ends.le).imp
    (fun _ here => here.block) ?_
  intro ok t ⟨u, after, stop, leaves, holds, passes⟩
  refine ⟨u, leaves, ?_⟩
  intro k inside outside
  rw [holds.coefs k inside, passes.rest k (by omega)]

theorem refinesBand_of_notLeast (inside : last ≤ 63) (few : low ≤ 14)
    (multiples : ∀ k, first ≤ k → k ≤ last → MultipleAbove low (content k))
    (notLeast : ∀ k, first ≤ k → k ≤ last → content k ≠ 0x8000) :
    RefinesBand first last low content := by
  intro machine scan p blockX blockY c delivers start ends position same
  refine (ensures_decodeBlockAcRefine delivers.undisturbed (by omega)).imp
    (fun _ here => here.block) ?_
  intro ok t ⟨u, after, stop, leaves, holds, passes⟩
  refine ⟨u, leaves, ?_⟩
  intro k from_ upTo
  have step : CoefStep low (Possible machine.wait (OutsideBuffer p) 1) (c k) (after k) := by
    rcases Nat.lt_or_ge k stop with before | behind
    · rw [← position]
      exact passes.done k (by omega) before (by omega)
    · rw [passes.rest k (.inr behind)]
      exact .same
  rw [holds.coefs k (by omega)]
  rw [same k from_ upTo] at step
  exact step.refinedBy (multiples k from_ upTo) few (notLeast k from_ upTo)

end Property

section States

/-- Where the bytes of a memory full of ones point to. -/
def blockPlace : Address := 0x01010101

/-- Some coefficients in a block, and a marker in the buffer. -/
def blockMemory (c : Nat → U16) : Memory := fun byte =>
  if (byte - blockPlace).toNat < 128 then
    (c ((byte - blockPlace).toNat / 2) >>> (8 * ((byte - blockPlace).toNat % 2))).setWidth 8
  else if byte = 16 then 0xFF
  else if byte = 17 then 0xD9
  else 1

def markerReader (c : Nat → U16) (bitBuf : U32) : Reader :=
  { sampleReader with
    memory := blockMemory c
    inBuf := 16
    inBufOfs := 16
    inBufLeft := 2
    bitsLeft := 16
    bitBuf := bitBuf
    mrcBufferAddr := 16 }

def scanState (scan : AcScan) (run : U32) (r : Reader) : State :=
  { State.start r with
    huffTbls := fun _ => scan.tables
    acCoeffs := fun _ => 1
    spectralStart := scan.first
    spectralEnd := scan.last
    successiveLow := scan.low
    eobRun := run }

variable {c : Nat → U16} {bitBuf run : U32} {scan : AcScan} {k : Nat}

theorem coefAt_blockMemory (inside : k < 64) : coefAt (blockMemory c) blockPlace k = c k := by
  have low : (coefPlace blockPlace k - blockPlace).toNat = 2 * k := by
    rw [coefPlace]
    bv_omega
  have high : (coefPlace blockPlace k + 1 - blockPlace).toNat = 2 * k + 1 := by
    rw [coefPlace]
    bv_omega
  rw [coefAt, loadShort, blockMemory, blockMemory, low, high, if_pos (by omega), if_pos (by omega),
    show (2 * k + 1) / 2 = k by omega, show (2 * k + 1) % 2 = 1 by omega,
    show 2 * k / 2 = k by omega, show 2 * k % 2 = 0 by omega]
  exact halves_append

theorem blockMemory_front {byte : Address} (front : byte.toNat < 16) : blockMemory c byte = 1 := by
  rw [blockMemory, if_neg, if_neg, if_neg]
  · rintro rfl
    exact absurd front (by decide)
  · rintro rfl
    exact absurd front (by decide)
  · rw [blockPlace]
    bv_omega

theorem markerReader_outside : OutsideBuffer blockPlace (markerReader c bitBuf) := by
  refine ⟨?_, ?_, ?_⟩
  · have front : offset (markerReader c bitBuf) = 1 := by
      change ((16 : Address) - (16 - 1)).toNat = 1
      decide
    have left : (markerReader c bitBuf).inBufLeft = 2 := rfl
    have size : (markerReader c bitBuf).mrcBufferSize = 128 := rfl
    rw [front, left, size]
    decide
  · intro byte inside
    rw [InBlock, blockPlace] at inside
    rw [markerReader, sampleReader]
    dsimp only
    bv_omega
  · intro byte inside
    rw [InBlock, blockPlace] at inside
    rw [markerReader]
    dsimp only
    bv_omega

/-- The block of the buffer at the address 1 is at hand. -/
theorem scanState_atBlock {reads : Reader → Prop} (here : reads (markerReader c bitBuf)) :
    AtBlock wholeMachine scan blockPlace reads 0 0 c
      (scanState scan run (markerReader c bitBuf)) := by
  refine ⟨⟨here, rfl, rfl, rfl, rfl, fun k inside => coefAt_blockMemory inside⟩, ?_, by decide⟩
  have data : pu8Data (blockMemory c) 1 = 0x01010101 := by
    unfold pu8Data load
    repeat rw [blockMemory_front (by decide)]
    rfl
  have columns : blockNumX (blockMemory c) 1 = 0x0101 := by
    unfold blockNumX loadShort
    repeat rw [blockMemory_front (by decide)]
    rfl
  have rows : blockNumY (blockMemory c) 1 = 0x0101 := by
    unfold blockNumY loadShort
    repeat rw [blockMemory_front (by decide)]
    rfl
  have size : blockSize (blockMemory c) 1 = 0x0101 := by
    unfold blockSize loadShort
    repeat rw [blockMemory_front (by decide)]
    rfl
  have found := @coeffBufGetp_eq wholeMachine 0 0 (scanState scan run (markerReader c bitBuf)) 1
    (by decide) (by change 0 < (blockNumX (blockMemory c) 1).toNat; rw [columns]; decide)
    (by change 0 < (blockNumY (blockMemory c) 1).toNat; rw [rows]; decide)
  have place : pu8Data (blockMemory c) 1 +
      BitVec.ofNat 32 0 * (blockSize (blockMemory c) 1).setWidth 32 +
      BitVec.ofNat 32 0 * ((blockSize (blockMemory c) 1).setWidth 32 *
        (blockNumX (blockMemory c) 1).setWidth 32) = blockPlace := by
    rw [data, columns, size]
    rfl
  exact found.trans (congrArg (fun p => some (p, _)) place)

end States

section Marker

/-- A marker is next, and the register is full of ones. -/
structure AtMarker (p : Address) (r : Reader) : Prop where
  ones : r.bitBuf = 0xFFFFFFFF
  left : 2 ≤ r.inBufLeft.toNat
  escape : r.memory r.inBufOfs = 0xFF
  marker : r.memory (r.inBufOfs + 1) = 0xD9
  outside : ¬ InBlock p r.inBufOfs ∧ ¬ InBlock p (r.inBufOfs + 1)

variable {wait : Wait} {p : Address} {r : Reader}

theorem rol_ones {j : Nat} : rol 0xFFFFFFFF j = 0xFFFFFFFF := by
  rcases Nat.lt_or_ge 32 j with far | near
  · rw [rol, show 32 - j = 0 by omega, BitVec.shiftLeft_eq_zero (by omega)]
    rfl
  · apply BitVec.eq_of_getLsbD_eq
    intro k inside
    have all : ∀ k < 32, (0xFFFFFFFF : U32).getLsbD k = true := by decide
    rw [getLsbD_rol near inside, all k inside]
    split
    · exact all _ (by omega)
    · exact all _ (by omega)

/-- The marker is put back, byte by byte. -/
theorem AtMarker.getOctet (at_ : AtMarker p r) : getOctet wait r = (0xFF, r) := by
  have left := at_.left
  have first : r.inBufLeft ≠ 0 := by
    intro zero
    rw [zero] at left
    exact absurd left (by decide)
  have second : r.inBufLeft - 1 ≠ 0 := by bv_omega
  have taken : ∀ r : Reader, r.inBufLeft ≠ 0 →
      getCharP wait r = (r.memory r.inBufOfs, false, (takeChar r).2) := by
    intro r more
    rw [getCharP, if_neg more]
    rfl
  have char : getCharP wait r = (0xFF, false, (takeChar r).2) := by
    rw [taken r first, at_.escape]
  have next : getCharP wait (takeChar r).2 = (0xD9, false, (takeChar (takeChar r).2).2) := by
    rw [← at_.marker]
    exact taken _ second
  have behind : r.inBufOfs + 1 + 1 - 1 = r.inBufOfs + 1 := by bv_omega
  have front : r.inBufOfs + 1 - 1 = r.inBufOfs := by bv_omega
  have count : r.inBufLeft - 1 - 1 + 1 + 1 = r.inBufLeft := by bv_omega
  have sameMarker : Function.update r.memory (r.inBufOfs + 1) 0xD9 = r.memory := by
    rw [← at_.marker, Function.update_eq_self]
  have sameEscape : Function.update r.memory r.inBufOfs 0xFF = r.memory := by
    rw [← at_.escape, Function.update_eq_self]
  have back : stuffChar (stuffChar (takeChar (takeChar r).2).2 0xD9) 0xFF = r := by
    simp only [stuffChar, takeChar, behind, front, count, sameMarker, sameEscape]
  rw [BitReader.getOctet, char]
  dsimp only
  rw [if_pos rfl, if_neg (by decide), next]
  dsimp only
  rw [if_neg (by decide), if_neg (by decide), back]

theorem AtMarker.undisturbed : Undisturbed wait p (AtMarker p) := by
  constructor
  · intro r n at_
    have registers : ∀ bitsLeft, AtMarker p { r with bitBuf := 0xFFFFFFFF, bitsLeft := bitsLeft } :=
      fun _ => ⟨rfl, at_.left, at_.escape, at_.marker, at_.outside⟩
    have same : ∃ bitsLeft, (getBits2 wait n r).2 =
        { r with bitBuf := 0xFFFFFFFF, bitsLeft := bitsLeft } := by
      rw [getBits2]
      dsimp only
      rw [at_.ones, rol_ones, rol_ones]
      split
      · rw [(registers _).getOctet]
        dsimp only
        rw [(registers _).getOctet]
        dsimp only
        have filled : ((0xFFFFFFFF : U32) &&& (0xFFFF : U32)) ||| ((0xFF : U8).setWidth 32 <<< 24) |||
            ((0xFF : U8).setWidth 32 <<< 16) = 0xFFFFFFFF := by decide
        rw [filled, rol_ones]
        exact ⟨_, rfl⟩
      · exact ⟨_, rfl⟩
    obtain ⟨bitsLeft, same⟩ := same
    rw [same]
    exact ⟨registers bitsLeft, fun _ _ => rfl⟩
  · intro r memory at_ only
    refine ⟨at_.ones, at_.left, ?_, ?_, at_.outside⟩
    · exact (only _ at_.outside.1).trans at_.escape
    · exact (only _ at_.outside.2).trans at_.marker

theorem Possible.atMarker {bit : U32} (possible : Possible wait (AtMarker p) 1 bit) :
    bit = 1 := by
  obtain ⟨r, at_, same⟩ := possible
  rw [← same, getBits2_value, at_.ones]
  decide

end Marker

section Tables

/-- A table with one symbol for every bit: a coefficient behind no zeroes. -/
def everyBit : HuffInfo :=
  HuffInfo.load (fun size => if size = 1 then 2 else 0) (fun _ => 1) (noTables 0)

def everyBitMade : Option (HuffInfo × HuffTables) :=
  HuffmanTable.makeHuffTable true everyBit noHuffTables

theorem everyBitMade_isSome : everyBitMade.isSome = true := by decide +kernel

def everyBitTables : HuffTables :=
  (everyBitMade.get everyBitMade_isSome).2

theorem everyBit_makes : ∃ info hs made,
    HuffmanTable.makeHuffTable true info hs = some (made, everyBitTables) :=
  ⟨everyBit, noHuffTables, _, (Option.some_get everyBitMade_isSome).symm⟩

theorem everyBit_codes :
    ((makeSizes everyBit.huffNum).bind fun s =>
      (makeCodes (Function.update s.1 s.2 0)).map fun code =>
        (s.2, s.1 0, s.1 1, code 0, code 1)) = some (2, 1, 1, 0, 1) := by
  decide +kernel

theorem putCode_oneBit (code : U16) (s : HuffTables × Int) :
    putCode 1 code 1 s =
      some ({ s.1 with
        codeSize := Function.update s.1.codeSize 1 1
        lookUp := fillLookUp 1 128 (code <<< 7).toNat s.1.lookUp }, s.2) :=
  rfl

/-- One of the two codes is at the top of any byte. -/
theorem everyBitTables_lookUp : ∀ value < 256, everyBitTables.lookUp value = 1 := by
  intro value small
  have makes : HuffmanTable.makeHuffTable true everyBit noHuffTables =
      some ((everyBitMade.get everyBitMade_isSome).1, everyBitTables) :=
    (Option.some_get everyBitMade_isSome).symm
  simp only [HuffmanTable.makeHuffTable, if_true, Option.bind_eq_bind, Option.bind_eq_some_iff,
    Option.some.injEq, Prod.mk.injEq] at makes
  obtain ⟨⟨huffsize, lastp⟩, sizes, huffcode, codes, ⟨tables, next⟩, put, -, same⟩ := makes
  have known := everyBit_codes
  rw [sizes, Option.bind_some, codes, Option.map_some] at known
  simp only [Option.some.injEq, Prod.mk.injEq] at known
  obtain ⟨rfl, zeroSize, oneSize, zeroCode, oneCode⟩ := known
  have both : List.range 2 = [0, 1] := rfl
  have symbols : everyBit.huffVal = fun _ => 1 := rfl
  simp only [makeTables, both, symbols, List.foldlM_cons, List.foldlM_nil, zeroCode, oneCode] at put
  rw [Function.update_of_ne (by decide), Function.update_of_ne (by decide), zeroSize, oneSize,
    putCode_oneBit, Option.bind_eq_bind, Option.bind_some, putCode_oneBit] at put
  simp only [Option.bind_some, Option.pure_def, Option.some.injEq, Prod.mk.injEq] at put
  have first : ((0 : U16) <<< 7).toNat = 0 := by decide
  have second : ((1 : U16) <<< 7).toNat = 128 := by decide
  rw [← same, ← put.1]
  dsimp only
  rw [fillLookUp_eq, fillLookUp_eq, first, second]
  split
  · rfl
  · exact if_pos (by omega)

end Tables

section LeastValue

variable {machine : Machine} {scan : AcScan} {p : Address} {reads : Reader → Prop}
  {blockX blockY : Nat} {c : Nat → U16} {s : State}
  (undisturbed : Undisturbed machine.wait p reads) (ends : scan.last ≤ 63)

include undisturbed ends

/-- In a run of blocks all coefficients of the band are refined. -/
theorem AtBlock.refined_in_run (here : AtBlock machine scan p reads blockX blockY c s)
    (run : s.eobRun ≠ 0) :
    Achieves (· = s) (decodeBlockAcRefine machine scan.componentId blockX blockY) fun ok t =>
      ok = true ∧ ∃ after, Holds scan p reads after t ∧
        Refreshed scan.low (Possible machine.wait reads 1) scan.first (scan.last + 1) c after := by
  unfold decodeBlockAcRefine
  apply achieves_get_bind
  intro t same
  subst same
  refine here.achieves_coeffBufGetp.bind ?_
  intro place
  apply Achieves.fact
  intro same
  subst same
  refine Achieves.ite (fun zero => absurd zero here.nonzero) ?_
  intro _
  apply achieves_get_bind
  intro u same
  subst same
  apply achieves_get_bind
  intro v same
  subst same
  refine Achieves.ite (fun none => absurd none run) ?_
  intro _
  rw [here.holds.start]
  unfold refineInRun
  apply achieves_get_bind
  intro w same
  subst same
  refine Achieves.ite ?_ (fun none => absurd run none)
  intro _
  refine Achieves.bind (Achieves.at here.holds (achieves_refineRest undisturbed ends (by omega))) ?_
  intro _
  apply Achieves.some
  intro after x ⟨held, refreshed⟩
  refine (achieves_takeEobRun.bind ?_) x held
  intro _
  apply achieves_pure
  intro y stored
  exact ⟨rfl, after, stored, refreshed⟩

omit undisturbed ends in
theorem atMarker_markerReader : AtMarker blockPlace (markerReader c 0xFFFFFFFF) := by
  have escape : ¬ ((16 : Address) - blockPlace).toNat < 128 := by decide
  have marker : ¬ ((17 : Address) - blockPlace).toNat < 128 := by decide
  have left : (markerReader c 0xFFFFFFFF).inBufLeft = 2 := rfl
  refine ⟨rfl, ?_, ?_, ?_, escape, marker⟩
  · rw [left]
    decide
  · change blockMemory c 16 = 0xFF
    rw [blockMemory, if_neg escape, if_pos rfl]
  · change blockMemory c 17 = 0xD9
    rw [blockMemory, if_neg marker, if_neg (by decide), if_pos rfl]

omit undisturbed ends in
theorem delivers_id : Delivers id := by
  intro r
  refine ⟨[], Nat.zero_le _, ?_⟩
  have same : r.inBufLeft + BitVec.ofNat 32 ([] : List U8).length = r.inBufLeft :=
    BitVec.add_zero r.inBufLeft
  rw [deliver, same]
  rfl

omit undisturbed ends in
theorem atScan_scanState {bitBuf run : U32}
    (made : ∃ info hs made, HuffmanTable.makeHuffTable true info hs = some (made, scan.tables)) :
    AtScan wholeMachine scan blockPlace 0 0 c (scanState scan run (markerReader c bitBuf)) := by
  refine ⟨scanState_atBlock markerReader_outside, ?_, made⟩
  have register : (scanState scan run (markerReader c bitBuf)).reader.bitsLeft = 16 := rfl
  omega

omit undisturbed ends in
theorem not_refinesBand_of_least {first last low k : Nat} (from_ : first ≤ k) (upTo : k ≤ last)
    (inside : last ≤ 63) (few : low ≤ 14) (least : c k = 0x8000) :
    ¬ RefinesBand first last low c := by
  intro refines
  let scan : AcScan := ⟨first, last, low, 0, everyBitTables⟩
  have here : AtBlock wholeMachine scan blockPlace (AtMarker blockPlace) 0 0 c
      (scanState scan 1 (markerReader c 0xFFFFFFFF)) := scanState_atBlock atMarker_markerReader
  obtain ⟨ok, t, ran, same, after, holds, refreshed⟩ :=
    here.refined_in_run AtMarker.undisturbed inside (show (1 : U32) ≠ 0 by decide) _ rfl
  obtain ⟨bit, possible, refined⟩ := refreshed.within k from_ (show k < last + 1 by omega)
  obtain ⟨u, leaves, kept⟩ := refines wholeMachine scan blockPlace 0 0 c delivers_id rfl rfl rfl
    (fun _ _ _ => rfl) _ ok t (atScan_scanState everyBit_makes) ran
  subst same
  have left : t = u := leaves
  subst left
  have wrong := kept k from_ upTo
  rw [holds.coefs k (by omega), refined, possible.atMarker, least] at wrong
  exact not_refinedBy_least few wrong

end LeastValue

section BehindRefined

variable {machine : Machine} {scan : AcScan} {p : Address} {reads : Reader → Prop}
  {blockX blockY k : Nat} {c : Nat → U16} {s : State}
  (undisturbed : Undisturbed machine.wait p reads)

include undisturbed

/-- With one symbol for all bits there is nothing to look for. -/
theorem Holds.achieves_huffSymbol {value : Nat}
    (only : ∀ bits < 256, scan.tables.lookUp bits = value) (held : Holds scan p reads c s) :
    Achieves (· = s) (huffSymbol machine (s.compAcTab scan.componentId)) fun symbol t =>
      symbol = value ∧ Holds scan p reads c t := by
  intro t same
  subst same
  have small : ((t.reader.bitBuf >>> 8) &&& (0xFF : U32)).toNat < 256 := by
    rw [BitVec.toNat_and]
    exact Nat.lt_succ_of_le Nat.and_le_right
  have decodes : huffDecode machine.wait scan.tables t.reader = some ((value : Int),
      (getBits2 machine.wait (scan.tables.codeSize value) t.reader).2) := by
    rw [huffDecode, only _ small]
    rw [if_neg (by omega), Int.toNat_natCast]
  refine ⟨value, { t with reader :=
    (getBits2 machine.wait (scan.tables.codeSize value) t.reader).2 }, ?_, rfl,
    held.read undisturbed⟩
  rw [huffSymbol, held.table, decodes]
  rfl

variable (only : ∀ bits < 256, scan.tables.lookUp bits = (1 : Nat)) (ordered : scan.first ≤ scan.last)
  (inside : scan.last < 63) (nonzero : ∀ k, scan.first ≤ k → k ≤ scan.last → c k ≠ 0)

include only ordered inside nonzero

/-- A new coefficient behind those of the band, none of which is zero. -/
theorem achieves_behind :
    Achieves (Holds scan p reads c) (acRefine machine scan.componentId p 65 scan.first)
      fun result t => result = some (scan.last + 2) ∧ ∃ after, Holds scan p reads after t ∧
        NewValue scan.low (after (scan.last + 1)) := by
  rw [acRefine]
  apply achieves_get_bind
  intro s holds
  rw [holds.ends]
  refine Achieves.ite (fun behind => absurd behind (by omega)) ?_
  intro _
  apply achieves_get_bind
  intro t same
  subst same
  refine (holds.achieves_huffSymbol undisturbed only).bind ?_
  intro symbol
  apply Achieves.fact
  intro same
  subst same
  refine Achieves.ite (fun bad => absurd bad (by decide)) ?_
  intro _
  refine Achieves.ite (fun bad => absurd bad (by decide)) ?_
  intro _
  rw [refineStep_bind]
  refine (achieves_refineStep undisturbed (by omega) ordered).bind ?_
  intro stop
  apply Achieves.some
  intro after
  apply Achieves.some
  intro value
  apply Achieves.fact
  intro isSome
  apply Achieves.fact
  intro isNew
  apply Achieves.fact
  intro stops
  have last : stop = scan.last + 1 := by
    rcases stops.place with ⟨before, zero⟩ | last
    · exact absurd zero (nonzero stop stops.from_ before)
    · exact last
  subst last
  obtain ⟨new, same⟩ := Option.isSome_iff_exists.mp (isSome (by decide))
  have stored : putNew after (scan.last + 1) value =
      Function.update after (scan.last + 1) (new.setWidth 16) := by
    rw [same]
    exact if_pos (by omega)
  rw [stored, acRefine]
  apply achieves_get_bind
  intro u held
  rw [held.ends]
  refine Achieves.ite ?_ (fun before => absurd (by omega) before)
  intro _
  apply achieves_pure
  intro v same
  subst same
  refine ⟨rfl, _, held, ?_⟩
  rw [Function.update_self]
  exact isNew new (by assumption)

theorem AtBlock.refined_behind (here : AtBlock machine scan p reads blockX blockY c s)
    (idle : s.eobRun = 0) :
    Achieves (· = s) (decodeBlockAcRefine machine scan.componentId blockX blockY) fun ok t =>
      ok = true ∧ ∃ after, Holds scan p reads after t ∧
        NewValue scan.low (after (scan.last + 1)) := by
  unfold decodeBlockAcRefine
  apply achieves_get_bind
  intro t same
  subst same
  refine here.achieves_coeffBufGetp.bind ?_
  intro place
  apply Achieves.fact
  intro same
  subst same
  refine Achieves.ite (fun zero => absurd zero here.nonzero) ?_
  intro _
  apply achieves_get_bind
  intro u same
  subst same
  apply achieves_get_bind
  intro v same
  subst same
  refine Achieves.ite ?_ (fun none => absurd idle none)
  intro _
  rw [here.holds.start]
  refine Achieves.bind (Achieves.at here.holds
    (achieves_behind undisturbed only ordered inside nonzero)) ?_
  intro result
  apply Achieves.fact
  intro same
  subst same
  apply Achieves.some
  intro after w ⟨held, isNew⟩
  obtain ⟨ok, x, ran, same, last, stored, passes⟩ :=
    achieves_refineInRun undisturbed (by omega) w held
  refine ⟨ok, x, ran, same, last, stored, ?_⟩
  rw [passes.rest (scan.last + 1) (by omega)]
  exact isNew

end BehindRefined

theorem NewValue.nonzero {value : U16} (isNew : NewValue 0 value) : value ≠ 0 := by
  rcases isNew with same | same
  · rw [same]
    decide
  · rw [same]
    decide

theorem not_staysInBand_acRefine {first last : Nat} (ordered : first ≤ last) (inside : last < 63) :
    ¬ StaysInBand decodeBlockAcRefine first last := by
  intro stays
  let scan : AcScan := ⟨first, last, 0, 0, everyBitTables⟩
  let c : Nat → U16 := fun k => if k ≤ last then 2 else 0
  have here : AtBlock wholeMachine scan blockPlace (OutsideBuffer blockPlace) 0 0 c
      (scanState scan 0 (markerReader c 0)) := scanState_atBlock markerReader_outside
  have nonzero : ∀ k, first ≤ k → k ≤ last → c k ≠ 0 := by
    intro k _ upTo
    rw [show c k = 2 from if_pos upTo]
    decide
  have zero : c (last + 1) = 0 := if_neg (by omega)
  obtain ⟨ok, t, ran, same, after, holds, isNew⟩ := here.refined_behind
    delivers_id.undisturbed everyBitTables_lookUp ordered inside nonzero rfl _ rfl
  obtain ⟨u, leaves, kept⟩ := stays wholeMachine scan blockPlace 0 0 c delivers_id rfl rfl
    _ ok t (atScan_scanState everyBit_makes) ran
  subst same
  have left : t = u := leaves
  subst left
  have outside := kept (last + 1) (by omega) (.inr (by omega))
  rw [holds.coefs (last + 1) (by omega), zero] at outside
  exact NewValue.nonzero isNew outside

section Ahead

/-- Some bits in the register, of which some are taken, and zeroes behind them. -/
structure Ahead (bits taken : Nat) (r : Reader) : Prop where
  register : r.bitBuf = BitVec.ofNat 32 (bits * 2 ^ taken)
  left : r.bitsLeft = 16 - (taken : Int)

variable {bits taken n : Nat} {r : Reader} {wait : Wait}

theorem Ahead.getBits2 (ahead : Ahead bits taken r) (small : bits < 2 ^ 16) (fits : taken + n < 16) :
    Ahead bits (taken + n) (getBits2 wait n r).2 ∧ (getBits2 wait n r).2.memory = r.memory := by
  have left := ahead.left
  rw [getBits2_stays (by omega)]
  refine ⟨⟨?_, ?_⟩, rfl⟩
  · have powers : 2 ^ taken * 2 ^ n ≤ 2 ^ 15 := by
      rw [← pow_add]
      exact Nat.pow_le_pow_right (by decide) (by omega)
    have product : bits * 2 ^ taken * 2 ^ n < 2 ^ 31 := by
      rw [Nat.mul_assoc]
      calc bits * (2 ^ taken * 2 ^ n) < 2 ^ 16 * 2 ^ 15 :=
            Nat.mul_lt_mul_of_lt_of_le small powers (by decide)
        _ = 2 ^ 31 := by decide
    have here : bits * 2 ^ taken < 2 ^ 32 := by
      have positive := Nat.two_pow_pos n
      have := Nat.le_mul_of_pos_right (bits * 2 ^ taken) positive
      omega
    have scaled : bits * 2 ^ taken * 2 ^ n < 2 ^ (32 - n) * 2 ^ n := by
      rw [← pow_add, Nat.sub_add_cancel (by omega)]
      omega
    have top : bits * 2 ^ taken < 2 ^ (32 - n) := Nat.lt_of_mul_lt_mul_right scaled
    apply BitVec.eq_of_toNat_eq
    dsimp only [withRegister]
    rw [ahead.register, rol, BitVec.toNat_or, BitVec.toNat_shiftLeft, BitVec.toNat_ushiftRight,
      BitVec.toNat_ofNat, BitVec.toNat_ofNat, Nat.mod_eq_of_lt here, Nat.shiftRight_eq_div_pow,
      Nat.div_eq_of_lt top, Nat.shiftLeft_eq, Nat.or_zero, Nat.mul_assoc, ← pow_add]
  · dsimp only [withRegister]
    push_cast
    omega

theorem Ahead.window_eq (ahead : Ahead bits taken r) :
    window r = bits * 2 ^ taken % 2 ^ 16 := by
  rw [window, ahead.register, BitVec.toNat_ofNat]
  omega

end Ahead

section Jumps

def jumpsNum (size : Nat) : U8 :=
  if size = 1 ∨ size = 2 then 1 else 0

/-- A coefficient of two bits behind 13 zeroes, and one of one bit behind `b`. -/
def jumpsVal (b p : Nat) : U8 :=
  if p = 0 then 0xD2 else BitVec.ofNat 8 (16 * b + 1)

def jumps (b : Nat) : HuffInfo :=
  HuffInfo.load jumpsNum (jumpsVal b) (noTables 0)

def jumpsMade (b : Nat) : Option (HuffInfo × HuffTables) :=
  HuffmanTable.makeHuffTable true (jumps b) noHuffTables

theorem jumpsMade_isSome : ∀ b < 16, (jumpsMade b).isSome = true := by decide +kernel

/-- A code of a table with different symbols. -/
theorem huffDecode_code {info made : HuffInfo} {hs tables : HuffTables} {wait : Wait} {r : Reader}
    {p : Nat} (few : codesUpTo info.huffNum 16 ≤ 255) (kraft : kraftUpTo info.huffNum 16 ≤ 2 ^ 16)
    (distinct : ∀ p < codesUpTo info.huffNum 16, ∀ q < codesUpTo info.huffNum 16,
      info.huffVal p = info.huffVal q → p = q)
    (makes : HuffmanTable.makeHuffTable true info hs = some (made, tables))
    (outside : Outside wait) (least : 1 ≤ r.bitsLeft) (most : r.bitsLeft ≤ 16)
    (inside : p < codesUpTo info.huffNum 16)
    (here : pre 16 (sizesUpTo info.huffNum 16 p) (window r) = word (sizesUpTo info.huffNum 16) p) :
    huffDecode wait tables r =
      some (((info.huffVal p).toNat : Int), (getBits2 wait (sizesUpTo info.huffNum 16 p) r).2) := by
  have coded := coded_of_kraft kraft few
  obtain ⟨huffcode, next, makesCodes, filled⟩ := makeHuffTable_filled few makes
  obtain ⟨sameCodes, returns, codes, -⟩ := makeCodes_eq coded
  cases makesCodes.symm.trans returns
  obtain ⟨⟨nodes, linked⟩, codeSize⟩ := makeTables_linked coded codes distinct filled
  exact huffDecode_eq coded linked inside here outside least most (codeSize p inside)

variable {b taken bits k : Nat} {scan : AcScan} {p : Address} {c : Nat → U16} {s : State}
  {tables : HuffTables} {made : HuffInfo} {machine : Machine}

/-- The first code is a zero, and the second a one and a zero. -/
theorem huffDecode_jumps (makes : jumpsMade b = some (made, tables)) (few : b < 16)
    (outside : Outside machine.wait) {r : Reader} (least : 1 ≤ r.bitsLeft) (most : r.bitsLeft ≤ 16) :
    (window r < 2 ^ 15 → huffDecode machine.wait tables r =
      some (((0xD2 : Nat) : Int), (getBits2 machine.wait 1 r).2)) ∧
    (window r = 2 ^ 15 → huffDecode machine.wait tables r =
      some (((16 * b + 1 : Nat) : Int), (getBits2 machine.wait 2 r).2)) := by
  have total : codesUpTo jumpsNum 16 = 2 := by decide
  have kraft : kraftUpTo jumpsNum 16 ≤ 2 ^ 16 := by decide
  have different : ∀ b < 16, ∀ p < 2, ∀ q < 2, jumpsVal b p = jumpsVal b q → p = q := by decide
  have values : ∀ b < 16, (jumpsVal b 1).toNat = 16 * b + 1 := by decide
  have distinct : ∀ p < codesUpTo jumpsNum 16, ∀ q < codesUpTo jumpsNum 16,
      jumpsVal b p = jumpsVal b q → p = q := by
    rw [total]
    exact different b few
  have decodes : ∀ p < 2, pre 16 (sizesUpTo jumpsNum 16 p) (window r) =
      word (sizesUpTo jumpsNum 16) p → huffDecode machine.wait tables r =
        some (((jumpsVal b p).toNat : Int),
          (getBits2 machine.wait (sizesUpTo jumpsNum 16 p) r).2) := by
    intro p inside here
    exact @huffDecode_code (jumps b) _ _ _ _ _ _ (total.le.trans (by decide)) kraft distinct makes
      outside least most (inside.trans_le total.ge) here
  have firstSize : sizesUpTo jumpsNum 16 0 = 1 := by decide
  have secondSize : sizesUpTo jumpsNum 16 1 = 2 := by decide
  have firstWord : word (sizesUpTo jumpsNum 16) 0 = 0 := by decide
  have secondWord : word (sizesUpTo jumpsNum 16) 1 = 2 := by decide
  constructor
  · intro below
    have first := decodes 0 (by decide)
    rw [firstSize, firstWord] at first
    apply first
    rw [pre]
    omega
  · intro same
    have second := decodes 1 (by decide)
    rw [secondSize, secondWord, values b few] at second
    apply second
    rw [pre, same]
    decide

theorem Holds.getBits_ahead (held : Holds scan p (Ahead bits taken) c s) (small : bits < 2 ^ 16)
    {n : Nat} (fits : taken + n < 16) :
    Holds scan p (Ahead bits (taken + n)) c
      { s with reader := (getBits2 machine.wait n s.reader).2 } := by
  obtain ⟨ahead, same⟩ := @Ahead.getBits2 _ _ n _ machine.wait held.reads small fits
  refine ⟨ahead, held.start, held.ends, held.low, held.table, ?_⟩
  intro k inside
  dsimp only
  rw [same]
  exact held.coefs k inside

theorem extend_nonzero {value : U32} (bit : value.toNat < 2) :
    (HUFF_EXTEND machine value 1 <<< 0).setWidth 16 ≠ (0 : U16) := by
  have test : extendTest machine 1 = 1 := rfl
  have offset : extendOffset machine 1 = -1 := rfl
  have cases : value = 0 ∨ value = 1 := by
    rcases Nat.le_one_iff_eq_zero_or_eq_one.mp (Nat.le_of_lt_succ bit) with zero | one
    · exact .inl (BitVec.eq_of_toNat_eq zero)
    · exact .inr (BitVec.eq_of_toNat_eq one)
  rw [HUFF_EXTEND, test, offset]
  rcases cases with same | same
  · rw [same]
    decide
  · rw [same]
    decide

/-- A number of one bit that is read is no zero. -/
theorem achieves_getExtended_ahead (small : bits < 2 ^ 16) {size : Nat} (fits : taken + size < 16) :
    Achieves (Holds scan p (Ahead bits taken) c) (getExtended machine size) fun value t =>
      (size = 1 → (value <<< 0).setWidth 16 ≠ (0 : U16)) ∧
        Holds scan p (Ahead bits (taken + size)) c t := by
  unfold getExtended
  refine Achieves.ite ?_ ?_
  · intro _
    have read : Achieves (Holds scan p (Ahead bits taken) c) (getBits machine (size % 256))
        fun value t => (size = 1 → value.toNat < 2) ∧
          Holds scan p (Ahead bits (taken + size)) c t := by
      intro s held
      rw [Nat.mod_eq_of_lt (by omega)]
      refine ⟨_, _, rfl, ?_, held.getBits_ahead small fits⟩
      rintro rfl
      have top : window s.reader < 2 ^ 16 := Nat.mod_lt _ (by decide)
      rw [getBits2_toNat (by decide)]
      omega
    refine read.bind ?_
    intro value
    apply Achieves.fact
    intro bit
    apply achieves_pure
    intro t held
    refine ⟨?_, held⟩
    rintro rfl
    exact extend_nonzero (bit rfl)
  · intro zero
    rw [not_not.mp zero]
    exact achieves_pure fun _ held => ⟨by omega, held⟩

/-- A turn with a coefficient behind some zeroes. -/
theorem achieves_turn {reads between behind : Reader → Prop} {run size turns : Nat}
    {fact : U32 → Prop} {post : Bool → State → Prop} (inside : k ≤ scan.last) (room : k + run ≤ 63)
    (some : size ≠ 0) (fits : size < 16)
    (decodes : ∀ s, Holds scan p reads c s →
      Achieves (· = s) (huffSymbol machine (s.compAcTab scan.componentId)) fun symbol t =>
        symbol = ((16 * run + size : Nat) : Int) ∧ Holds scan p between c t)
    (number : Achieves (Holds scan p between c) (getExtended machine size) fun value t =>
      fact value ∧ Holds scan p behind c t)
    (block : ∀ r memory, behind r → (∀ byte, ¬ InBlock p byte → memory byte = r.memory byte) →
      behind { r with memory := memory })
    (later : ∀ value, fact value →
      Achieves (Holds scan p behind
        (Function.update c (k + run) ((value <<< scan.low).setWidth 16)))
        (acFirst machine scan.componentId p turns (k + run + 1)) post) :
    Achieves (Holds scan p reads c) (acFirst machine scan.componentId p (turns + 1) k) post := by
  rw [acFirst]
  apply achieves_get_bind
  intro s held
  rw [held.ends]
  refine Achieves.ite (fun behind => absurd behind (by omega)) ?_
  intro _
  apply achieves_get_bind
  intro t same
  subst same
  refine (decodes t held).bind ?_
  intro symbol
  apply Achieves.fact
  intro same
  subst same
  have runs : (((16 * run + size : Nat) : Int) / 16).toNat = run := by omega
  have sizes : (((16 * run + size : Nat) : Int) % 16).toNat = size := by omega
  dsimp only
  rw [runs, sizes]
  refine Achieves.ite ?_ (fun none => absurd some none)
  intro _
  refine Achieves.ite (fun bad => absurd bad (by omega)) ?_
  intro _
  refine number.bind ?_
  intro value
  apply Achieves.fact
  intro here
  apply achieves_get_bind
  intro u read
  rw [read.low]
  refine Achieves.bind (Achieves.at read (achieves_storeCoef block (by omega))) ?_
  exact fun _ => later value here

section Run

variable {e last : Nat} (makes : jumpsMade b = some (made, scan.tables)) (few : b < 16)
  (outside : Outside machine.wait) (short : e ≤ 12)

include makes few outside short

/-- The first code is next while some jumps are left. -/
theorem Holds.achieves_jump {left : Nat} (sum : taken + 3 * (left + 1) = e)
    (held : Holds scan p (Ahead (2 ^ (15 - e)) taken) c s) :
    Achieves (· = s) (huffSymbol machine (s.compAcTab scan.componentId)) fun symbol t =>
      symbol = ((16 * 13 + 2 : Nat) : Int) ∧
        Holds scan p (Ahead (2 ^ (15 - e)) (taken + 1)) c t := by
  intro t same
  subst same
  have small : 2 ^ (15 - e) < 2 ^ 16 := Nat.pow_lt_pow_right (by decide) (by omega)
  have register := held.reads.left
  have next : window t.reader < 2 ^ 15 := by
    have below : 2 ^ (15 - e + taken) < 2 ^ 15 := Nat.pow_lt_pow_right (by decide) (by omega)
    rw [held.reads.window_eq, ← pow_add, Nat.mod_eq_of_lt (below.trans (by decide))]
    exact below
  have decodes := (@huffDecode_jumps b scan.tables made machine makes few outside t.reader
    (by omega) (by omega)).1 next
  rw [huffSymbol, held.table, decodes]
  exact ⟨_, _, rfl, rfl, held.getBits_ahead small (by omega)⟩

/-- The second code is next behind the jumps. -/
theorem Holds.achieves_last (sum : taken = e)
    (held : Holds scan p (Ahead (2 ^ (15 - e)) taken) c s) :
    Achieves (· = s) (huffSymbol machine (s.compAcTab scan.componentId)) fun symbol t =>
      symbol = ((16 * b + 1 : Nat) : Int) ∧
        Holds scan p (Ahead (2 ^ (15 - e)) (taken + 2)) c t := by
  intro t same
  subst same
  have small : 2 ^ (15 - e) < 2 ^ 16 := Nat.pow_lt_pow_right (by decide) (by omega)
  have register := held.reads.left
  have next : window t.reader = 2 ^ 15 := by
    rw [held.reads.window_eq, ← pow_add, show 15 - e + taken = 15 by omega]
    decide
  have decodes := (@huffDecode_jumps b scan.tables made machine makes few outside t.reader
    (by omega) (by omega)).2 next
  rw [huffSymbol, held.table, decodes]
  exact ⟨_, _, rfl, rfl, held.getBits_ahead small (by omega)⟩

variable (low : scan.low = 0) (positive : 1 ≤ b) (inside : scan.last < 63)

include low positive inside

/-- Some jumps of 14 places in the band, and one to the place behind it. -/
theorem achieves_jumps {left turns : Nat} (sum : taken + 3 * left = e)
    (there : k + 14 * left + b = scan.last + 1) (enough : left < turns) :
    Achieves (Holds scan p (Ahead (2 ^ (15 - e)) taken) c)
      (acFirst machine scan.componentId p turns k) fun ok t => ok = true ∧
        ∃ reads after, Holds scan p reads after t ∧ after (scan.last + 1) ≠ 0 := by
  have small : 2 ^ (15 - e) < 2 ^ 16 := Nat.pow_lt_pow_right (by decide) (by omega)
  have block : ∀ taken (r : Reader) memory, Ahead (2 ^ (15 - e)) taken r →
      (∀ byte, ¬ InBlock p byte → memory byte = r.memory byte) →
      Ahead (2 ^ (15 - e)) taken { r with memory := memory } :=
    fun _ _ _ ahead _ => ⟨ahead.register, ahead.left⟩
  induction left generalizing taken k c turns with
  | zero =>
      obtain ⟨turns, rfl⟩ := Nat.exists_eq_succ_of_ne_zero (show turns ≠ 0 by omega)
      refine achieves_turn (by omega) (show k + b ≤ 63 by omega) (show 1 ≠ 0 by decide) (by decide)
        (fun s held => held.achieves_last makes few outside short (by omega))
        (achieves_getExtended_ahead small (by omega)) (block _) ?_
      intro value nonzero s held
      have ends : acFirst machine scan.componentId p turns (k + b + 1) s = some (true, s) := by
        cases turns with
        | zero => rfl
        | succ turns =>
            rw [acFirst]
            change (if s.spectralEnd < k + b + 1 then _ else _ : Program State Bool) s = _
            rw [held.ends, if_pos (by omega)]
            rfl
      refine ⟨true, s, ends, rfl, _, _, held, ?_⟩
      rw [low, show k + b = scan.last + 1 by omega, Function.update_self]
      exact nonzero rfl
  | succ left inductionHypothesis =>
      obtain ⟨turns, rfl⟩ := Nat.exists_eq_succ_of_ne_zero (show turns ≠ 0 by omega)
      refine achieves_turn (by omega) (show k + 13 ≤ 63 by omega) (show 2 ≠ 0 by decide) (by decide)
        (fun s held => held.achieves_jump makes few outside short sum)
        (achieves_getExtended_ahead small (by omega)) (block _) ?_
      intro value _
      exact inductionHypothesis (by omega) (by omega) (by omega)

end Run

section Jumped

variable {reads : Reader → Prop} {blockX blockY last : Nat}

/-- A block behind no run of blocks. -/
theorem AtBlock.achieves_acFirst {post : Bool → State → Prop}
    (here : AtBlock machine scan p reads blockX blockY c s) (idle : s.eobRun = 0)
    (decodes : Achieves (Holds scan p reads c)
      (acFirst machine scan.componentId p 65 scan.first) post) :
    Achieves (· = s) (decodeBlockAcFirst machine scan.componentId blockX blockY) post := by
  unfold decodeBlockAcFirst
  apply achieves_get_bind
  intro t same
  subst same
  refine Achieves.ite (fun run => absurd idle run) ?_
  intro _
  apply achieves_get_bind
  intro u same
  subst same
  refine here.achieves_coeffBufGetp.bind ?_
  intro place
  apply Achieves.fact
  intro same
  subst same
  refine Achieves.ite (fun zero => absurd zero here.nonzero) ?_
  intro _
  apply achieves_get_bind
  intro v same
  subst same
  rw [here.holds.start]
  exact Achieves.at here.holds decodes

theorem jumpsMade_makes (few : b < 16) : ∃ made tables,
    jumpsMade b = some (made, tables) := by
  obtain ⟨⟨made, tables⟩, same⟩ := Option.isSome_iff_exists.mp (jumpsMade_isSome b few)
  exact ⟨made, tables, same⟩

theorem ahead_markerReader {bits : Nat} :
    Ahead bits 0 (markerReader c (BitVec.ofNat 32 bits)) := by
  constructor
  · rw [pow_zero, Nat.mul_one]
    rfl
  · rfl

theorem not_staysInBand_acFirst {first : Nat} (ordered : first ≤ last) (inside : last < 63) :
    ¬ StaysInBand decodeBlockAcFirst first last := by
  intro stays
  -- 14 places for each jump, and the rest of the way for the last coefficient
  let jumps := (last - first) / 14
  let rest := last - first - 14 * jumps + 1
  have least : 14 * jumps ≤ last - first := Nat.mul_div_le _ _
  have most : last - first < 14 * jumps + 14 := by omega
  have few : rest < 16 := by omega
  obtain ⟨made, tables, makes⟩ := jumpsMade_makes few
  let scan : AcScan := ⟨first, last, 0, 0, tables⟩
  have here : AtBlock wholeMachine scan blockPlace (Ahead (2 ^ (15 - 3 * jumps)) 0) 0 0 (fun _ => 0)
      (scanState scan 0 (markerReader (fun _ => 0) (BitVec.ofNat 32 (2 ^ (15 - 3 * jumps))))) :=
    scanState_atBlock ahead_markerReader
  have there : first + 14 * jumps + rest = last + 1 := by omega
  have decodes := here.achieves_acFirst rfl
    (@achieves_jumps _ _ _ _ _ _ _ _ _ makes few (fun _ _ _ => rfl) (by omega) rfl (by omega) inside
      _ 65 (Nat.zero_add (3 * jumps)) there (by omega))
  obtain ⟨ok, t, ran, same, reads, after, holds, nonzero⟩ := decodes _ rfl
  obtain ⟨u, leaves, kept⟩ := stays wholeMachine scan blockPlace 0 0 (fun _ => 0) delivers_id rfl
    rfl _ ok t (atScan_scanState ⟨_, _, made, makes⟩) ran
  subst same
  have left : t = u := leaves
  subst left
  have outside := kept (last + 1) (by omega) (.inr (by omega))
  rw [holds.coefs (last + 1) (by omega)] at outside
  exact nonzero outside

end Jumped

end Jumps

section WhichScans

variable {first last low : Nat} {content : Nat → U16}

/-- The scans of a band stay in it if and only if it is one up to the last coefficient.  The
coefficients of a band are refined as they should be if and only if none is the least number. -/
theorem acScans_stay_iff (ordered : first ≤ last) (inside : last ≤ 63) :
    (StaysInBand decodeBlockAcFirst first last ↔ last = 63) ∧
    (StaysInBand decodeBlockAcRefine first last ↔ last = 63) ∧
    (low ≤ 14 → (∀ k, first ≤ k → k ≤ last → MultipleAbove low (content k)) →
      (RefinesBand first last low content ↔
        ∀ k, first ≤ k → k ≤ last → content k ≠ 0x8000)) := by
  refine ⟨⟨?_, ?_⟩, ⟨?_, ?_⟩, ?_⟩
  · intro stays
    by_contra other
    exact not_staysInBand_acFirst ordered (by omega) stays
  · intro same
    rw [same]
    exact staysInBand_acFirst
  · intro stays
    by_contra other
    exact not_staysInBand_acRefine ordered (by omega) stays
  · intro same
    rw [same]
    exact staysInBand_acRefine
  · intro few multiples
    constructor
    · intro refines k from_ upTo least
      exact not_refinesBand_of_least from_ upTo inside few least refines
    · exact refinesBand_of_notLeast inside few multiples

/-- The whole block, and a band of five coefficients that are worth 2 each. -/
theorem acScans_stay_bands :
    StaysInBand decodeBlockAcFirst 1 63 ∧ StaysInBand decodeBlockAcRefine 1 63 ∧
      RefinesBand 1 5 0 (fun _ => 2) := by
  have whole := @acScans_stay_iff 1 63 0 (fun _ => 2) (by decide) (by decide)
  have band := @acScans_stay_iff 1 5 0 (fun _ => 2) (by decide) (by decide)
  have multiples : ∀ k, 1 ≤ k → k ≤ 5 → MultipleAbove 0 2 := fun _ _ _ => ⟨1, rfl⟩
  have others : ∀ k : Nat, 1 ≤ k → k ≤ 5 → (2 : U16) ≠ 0x8000 := by
    intro _ _ _
    decide
  exact ⟨whole.1.mpr rfl, whole.2.1.mpr rfl, (band.2.2 (by decide) multiples).mpr others⟩

/-- Neither the scans of a band of five coefficients stay in it, nor is a coefficient with the
least number refined as it should be. -/
theorem acScans_not_always_stay :
    ¬ StaysInBand decodeBlockAcFirst 1 5 ∧ ¬ StaysInBand decodeBlockAcRefine 1 5 ∧
      MultipleAbove 0 0x8000 ∧ ¬ RefinesBand 1 5 0 (fun _ => 0x8000) := by
  refine ⟨not_staysInBand_acFirst (by decide) (by decide),
    not_staysInBand_acRefine (by decide) (by decide), ⟨-16384, by decide⟩, ?_⟩
  exact @not_refinesBand_of_least (fun _ => 0x8000) 1 5 0 1 (by decide) (by decide) (by decide)
    (by decide) rfl

end WhichScans

end Gp2Firmware.Jpeg.Decoder
