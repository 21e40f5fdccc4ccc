import Mathlib.Tactic
import Gp2Firmware.Lib.WordMemory

/-!
# The bit reader of the JPEG decoder

The bytes of the stream come from the input buffer in memory, which is filled
again when it is empty.  `getOctet` takes the stuffing out of the entropy coded
data and stops at a marker.  `getBits2` reads from a register of 32 bits: its
lower half holds the next 16 bits of the stream, and the top `bitsLeft` bits of
its upper half the bits behind them.
-/

namespace Gp2Firmware.Jpeg.BitReader

open Gp2Firmware.Lib.WordMemory

abbrev U8 := BitVec 8
abbrev U16 := BitVec 16
abbrev U32 := BitVec 32

/-- The variables of the reader and the memory. -/
structure Reader where
  memory : Memory
  inBuf : Address
  inBufOfs : Address
  inBufLeft : U32
  temFlag : U8
  eofFlag : Bool
  bitsLeft : Int
  bitBuf : U32
  totalBytesRead : U32
  thumbnailAccessMode : Bool
  thumbnailBufferOffset : U32
  thumbnailBufferSize : U32
  mrcBufferAddr : Address
  mrcBufferSize : U32
  internalBufferAddr : Address

section Code

/-- `count` bytes copied from one place to another. -/
def memcpy (memory : Memory) (target source : Address) (count : U32) : Memory :=
  fun byte => if byte - target < count then memory (source + (byte - target)) else memory byte

/-- What the one who waits for the next part of the stream finds when it is woken. -/
abbrev Wait := Reader → Reader

variable (wait : Wait)

def fillReadBuffer (r : Reader) : Reader :=
  let r := { r with inBufLeft := 0, inBufOfs := r.inBuf }
  if r.eofFlag then
    r
  else if r.thumbnailAccessMode then
    let source := r.internalBufferAddr + r.thumbnailBufferOffset
    let r :=
      if r.mrcBufferSize ≤ r.thumbnailBufferSize then
        { r with
          memory := memcpy r.memory (r.inBuf + r.inBufLeft) source r.mrcBufferSize
          inBufLeft := r.mrcBufferSize
          thumbnailBufferOffset := r.thumbnailBufferOffset + r.mrcBufferSize
          thumbnailBufferSize := r.thumbnailBufferSize - r.mrcBufferSize }
      else
        let size := r.thumbnailBufferSize
        { r with
          memory := memcpy r.memory (r.inBuf + r.inBufLeft) source size
          eofFlag := true
          inBufLeft := size
          thumbnailBufferOffset := r.thumbnailBufferOffset + size
          thumbnailBufferSize := 0 }
    { r with totalBytesRead := r.totalBytesRead + r.inBufLeft }
  else
    let put := fun memory offset value =>
      Function.update memory (r.mrcBufferAddr + offset) value
    wait { r with memory := put (put (put (put r.memory 0 0x55) 1 0xAA) 2 0xAA) 3 0x55 }

/-- The bytes `0xFF` and `0xD9` in turn, where the stream has no more. -/
def padding (r : Reader) : U8 × Reader :=
  (if r.temFlag ≠ 0 then 0xD9 else 0xFF, { r with temFlag := r.temFlag ^^^ 1 })

/-- The next byte of the buffer. -/
def takeChar (r : Reader) : U8 × Reader :=
  (r.memory r.inBufOfs,
    { r with inBufOfs := r.inBufOfs + 1, inBufLeft := r.inBufLeft - 1 })

/-- The next byte, and whether it is padding. -/
def getCharP (r : Reader) : U8 × Bool × Reader :=
  if r.inBufLeft = 0 then
    let r := fillReadBuffer wait r
    if r.inBufLeft = 0 then
      ((padding r).1, true, (padding r).2)
    else
      ((takeChar r).1, false, (takeChar r).2)
  else
    ((takeChar r).1, false, (takeChar r).2)

def getChar (r : Reader) : U8 × Reader :=
  let (c, _, r) := getCharP wait r
  (c, r)

def stuffChar (r : Reader) (q : U8) : Reader :=
  { r with
    inBufOfs := r.inBufOfs - 1
    memory := Function.update r.memory (r.inBufOfs - 1) q
    inBufLeft := r.inBufLeft + 1 }

/-- The next byte of the entropy coded data; `0xFF` again and again at a marker. -/
def getOctet (r : Reader) : U8 × Reader :=
  let (c, padded, r) := getCharP wait r
  if c = 0xFF then
    if padded then
      (0xFF, r)
    else
      let (c, padded, r) := getCharP wait r
      if padded then
        (0xFF, stuffChar r 0xFF)
      else if c = 0x00 then
        (0xFF, r)
      else
        (0xFF, stuffChar (stuffChar r c) 0xFF)
  else
    (c, r)

/-- Rotation to the left; by 0 places it is the word itself whatever a shift by its
width gives. -/
def rol (i : U32) (j : Nat) : U32 :=
  (i <<< j) ||| (i >>> (32 - j))

/-- A number as the argument of type `U8` that a call passes. -/
def asU8 (number : Int) : Nat :=
  (number % 256).toNat

def getBits2 (numbits : Nat) (r : Reader) : U32 × Reader :=
  let i := (r.bitBuf >>> (16 - numbits)) &&& BitVec.ofNat 32 (2 ^ numbits - 1)
  let r := { r with bitsLeft := r.bitsLeft - (numbits : Int) }
  if r.bitsLeft ≤ (0 : Int) then
    let r := { r with bitBuf := rol r.bitBuf (asU8 ((numbits : Int) + r.bitsLeft)) }
    let (c1, r) := getOctet wait r
    let (c2, r) := getOctet wait r
    let r := { r with
      bitBuf :=
        (r.bitBuf &&& (0xFFFF : U32)) ||| (c1.setWidth 32 <<< 24) ||| (c2.setWidth 32 <<< 16) }
    let r := { r with bitBuf := rol r.bitBuf (asU8 (-r.bitsLeft)) }
    (i, { r with bitsLeft := r.bitsLeft + 16 })
  else
    (i, { r with bitBuf := rol r.bitBuf numbits })

/-- The register filled before the first block of a scan is read. -/
def prime (r : Reader) : Reader :=
  let r := { r with bitsLeft := 16 }
  let r := (getBits2 wait 16 r).2
  (getBits2 wait 16 r).2

/-- The values of some reads one after the other. -/
def readAll : List Nat → Reader → List U32 × Reader
  | [], r => ([], r)
  | numbits :: rest, r =>
      let (value, r) := getBits2 wait numbits r
      let (values, r) := readAll rest r
      (value :: values, r)

end Code

section Segment

/-- Entropy coded bytes without a marker: every `0xFF` is followed by a stuffed zero. -/
def EntropyCoded : List U8 → Prop
  | [] => True
  | [byte] => byte ≠ 0xFF
  | byte :: next :: rest =>
      if byte = 0xFF then next = 0x00 ∧ EntropyCoded rest else EntropyCoded (next :: rest)

/-- The bytes with each `0xFF00` replaced by `0xFF`. -/
def unstuff : List U8 → List U8
  | [] => []
  | [byte] => [byte]
  | byte :: next :: rest =>
      if byte = 0xFF then byte :: unstuff rest else byte :: unstuff (next :: rest)

/-- The bytes behind the first octet. -/
def behind : List U8 → List U8
  | [] => []
  | [_] => []
  | byte :: next :: rest => if byte = 0xFF then rest else next :: rest

def byteBits (byte : U8) : List Bool :=
  (List.range 8).map fun bit => byte.getLsbD (7 - bit)

/-- The bits of a segment, and ones behind them. -/
def segmentBit (segment : List U8) (bit : Nat) : Bool :=
  ((unstuff segment).flatMap byteBits).getD bit true

variable {segment : List U8}

theorem EntropyCoded.behind (coded : EntropyCoded segment) :
    EntropyCoded (behind segment) := by
  match segment with
  | [] => trivial
  | [byte] => trivial
  | byte :: next :: rest =>
      rw [EntropyCoded] at coded
      rw [BitReader.behind]
      split
      · rw [if_pos ‹_›] at coded
        exact coded.2
      · rwa [if_neg ‹_›] at coded

theorem unstuff_behind : unstuff (behind segment) = (unstuff segment).tail := by
  match segment with
  | [] => rfl
  | [byte] => rfl
  | byte :: next :: rest =>
      rw [behind, unstuff]
      split <;> rfl

/-- A bit as a bit of its octet. -/
theorem segmentBit_eq (bit : Nat) :
    segmentBit segment bit = ((unstuff segment).getD (bit / 8) 0xFF).getLsbD (7 - bit % 8) := by
  rw [segmentBit]
  generalize unstuff segment = bytes
  induction bytes generalizing bit with
  | nil =>
      have ones : ∀ place < 8, (0xFF : U8).getLsbD place = true := by decide
      exact (ones _ (by omega)).symm
  | cons byte rest inductionHypothesis =>
      rw [List.flatMap_cons]
      by_cases here : bit < 8
      · rw [List.getD_eq_getElem?_getD,
          List.getElem?_append_left (by simpa [byteBits] using here), Nat.div_eq_of_lt here,
          Nat.mod_eq_of_lt here]
        simp [byteBits, here]
      · obtain ⟨later, rfl⟩ : ∃ later, bit = 8 + later := ⟨bit - 8, by omega⟩
        rw [List.getD_eq_getElem?_getD, List.getElem?_append_right (by simp [byteBits]),
          ← List.getD_eq_getElem?_getD, Nat.add_div_left _ (by decide), Nat.add_mod_left,
          List.getD_cons_succ, ← inductionHypothesis later]
        simp [byteBits]

theorem segmentBit_behind (bit : Nat) :
    segmentBit (behind segment) bit = segmentBit segment (8 + bit) := by
  rw [segmentBit_eq, segmentBit_eq, unstuff_behind, Nat.add_div_left _ (by decide),
    Nat.add_mod_left]
  cases unstuff segment <;> simp

end Segment

section Register

theorem getLsbD_rol {i : U32} {j k : Nat} (places : j ≤ 32) (inside : k < 32) :
    (rol i j).getLsbD k = if k < j then i.getLsbD (32 - j + k) else i.getLsbD (k - j) := by
  rw [rol, BitVec.getLsbD_or, BitVec.getLsbD_shiftLeft, BitVec.getLsbD_ushiftRight]
  by_cases low : k < j
  · simp [low, inside]
  · have out : i.getLsbD (32 - j + k) = false := BitVec.getLsbD_of_ge _ _ (by omega)
    simp [low, inside, out]

/-- A register holds the next 16 bits of a stream and some bits behind them. -/
structure Register (bitBuf : U32) (left : Nat) (stream : Nat → Bool) : Prop where
  lower : ∀ j < 16, bitBuf.getLsbD (15 - j) = stream j
  upper : ∀ j < left, bitBuf.getLsbD (31 - j) = stream (16 + j)

variable {bitBuf : U32} {left n : Nat} {stream : Nat → Bool}

theorem Register.value (register : Register bitBuf left stream) (most : n ≤ 16) {j : Nat}
    (inside : j < n) :
    ((bitBuf >>> (16 - n)) &&& BitVec.ofNat 32 (2 ^ n - 1)).getLsbD (n - 1 - j) = stream j := by
  rw [BitVec.getLsbD_and, BitVec.getLsbD_ushiftRight, BitVec.getLsbD_ofNat,
    Nat.testBit_two_pow_sub_one, ← register.lower j (by omega),
    show 16 - n + (n - 1 - j) = 15 - j by omega]
  simp
  omega

/-- Bits taken out of the register while more are left in its upper half. -/
theorem Register.shift (register : Register bitBuf left stream) (bound : left ≤ 16)
    (fewer : n < left) :
    Register (rol bitBuf n) (left - n) fun j => stream (j + n) := by
  constructor
  · intro j inside
    rw [getLsbD_rol (by omega) (by omega)]
    split
    · rw [show 32 - n + (15 - j) = 31 - (j + n - 16) by omega, register.upper _ (by omega)]
      congr 1
      omega
    · rw [show 15 - j - n = 15 - (j + n) by omega, register.lower _ (by omega)]
  · intro j inside
    rw [getLsbD_rol (by omega) (by omega), if_neg (by omega),
      show 31 - j - n = 31 - (j + n) by omega, register.upper _ (by omega)]
    congr 1
    omega

/-- The upper half of a register is replaced by two octets. -/
theorem getLsbD_octets (mid : U32) (c1 c2 : U8) {k : Nat} (inside : k < 32) :
    ((mid &&& (0xFFFF : U32)) ||| (c1.setWidth 32 <<< 24) ||| (c2.setWidth 32 <<< 16)).getLsbD k =
      if k < 16 then mid.getLsbD k
      else if k < 24 then c2.getLsbD (k - 16) else c1.getLsbD (k - 24) := by
  rw [BitVec.getLsbD_or, BitVec.getLsbD_or, BitVec.getLsbD_and, BitVec.getLsbD_shiftLeft,
    BitVec.getLsbD_shiftLeft, BitVec.getLsbD_setWidth, BitVec.getLsbD_setWidth,
    show (0xFFFF : U32) = BitVec.ofNat 32 (2 ^ 16 - 1) by decide, BitVec.getLsbD_ofNat,
    Nat.testBit_two_pow_sub_one]
  by_cases low : k < 16
  · have lower : k < 24 := by omega
    simp [low, lower, inside]
  · by_cases middle : k < 24
    · have small : k - 16 < 32 := by omega
      simp [low, middle, inside, small]
    · have out : c2.getLsbD (k - 16) = false := BitVec.getLsbD_of_ge _ _ (by omega)
      have small : k - 24 < 32 := by omega
      simp [low, middle, inside, out, small]

/-- The register filled up with two octets. -/
theorem Register.refill (register : Register bitBuf left stream) (bound : left ≤ 16)
    (atLeast : left ≤ n) (most : n ≤ 16) (positive : 1 ≤ left) (c1 c2 : U8)
    (octets : ∀ j < 16, stream (16 + left + j) =
      if j < 8 then c1.getLsbD (7 - j) else c2.getLsbD (15 - j)) :
    Register (rol ((rol bitBuf left &&& (0xFFFF : U32)) ||| (c1.setWidth 32 <<< 24) |||
      (c2.setWidth 32 <<< 16)) (n - left)) (16 - (n - left)) fun j => stream (j + n) := by
  -- a bit of the upper half by its place in the stream
  have high : ∀ j < 16, ((rol bitBuf left &&& (0xFFFF : U32)) ||| (c1.setWidth 32 <<< 24) |||
      (c2.setWidth 32 <<< 16)).getLsbD (31 - j) = stream (16 + left + j) := by
    intro j inside
    rw [getLsbD_octets _ _ _ (by omega), if_neg (by omega), octets j inside]
    by_cases first : j < 8
    · rw [if_neg (by omega), if_pos first]
      congr 1
      omega
    · rw [if_pos (by omega), if_neg first]
      congr 1
      omega
  constructor
  · intro j inside
    rw [getLsbD_rol (by omega) (by omega)]
    by_cases fresh : 15 - j < n - left
    · rw [if_pos fresh, show 32 - (n - left) + (15 - j) = 31 - (j + (n - left) - 16) by omega,
        high _ (by omega)]
      congr 1
      omega
    · rw [if_neg fresh, getLsbD_octets _ _ _ (by omega), if_pos (by omega),
        getLsbD_rol (by omega) (by omega)]
      split
      · rw [show 32 - left + (15 - j - (n - left)) = 31 - (j + n - 16) by omega,
          register.upper _ (by omega)]
        congr 1
        omega
      · rw [show 15 - j - (n - left) - left = 15 - (j + n) by omega,
          register.lower _ (by omega)]
  · intro j inside
    rw [getLsbD_rol (by omega) (by omega), if_neg (by omega),
      show 31 - j - (n - left) = 31 - (j + (n - left)) by omega, high _ (by omega)]
    congr 1
    omega

end Register

section Buffer

/-- Bytes one after the other in memory. -/
def Stored (memory : Memory) : Address → List U8 → Prop
  | _, [] => True
  | address, byte :: rest => memory address = byte ∧ Stored memory (address + 1) rest

/-- Bytes that wait in the input buffer. -/
structure Buffered (r : Reader) (bytes : List U8) : Prop where
  stored : Stored r.memory r.inBufOfs bytes
  enough : bytes.length ≤ r.inBufLeft.toNat

/-- The reader behind a number of bytes of the buffer. -/
def skip (count : Nat) (r : Reader) : Reader :=
  { r with
    inBufOfs := r.inBufOfs + BitVec.ofNat 32 count
    inBufLeft := r.inBufLeft - BitVec.ofNat 32 count }

variable {wait : Wait} {r : Reader} {byte marker : U8} {bytes segment rest : List U8}

theorem skip_zero : skip 0 r = r := by
  simp [skip]

theorem skip_skip {count more : Nat} : skip more (skip count r) = skip (count + more) r := by
  simp only [skip, BitVec.ofNat_add]
  congr 1 <;> bv_omega

theorem getCharP_buffered (buffered : Buffered r (byte :: rest)) :
    getCharP wait r = (byte, false, skip 1 r) ∧ Buffered (skip 1 r) rest := by
  obtain ⟨⟨here, later⟩, enough⟩ := buffered
  rw [List.length_cons] at enough
  have some : r.inBufLeft ≠ 0 := by
    intro none
    rw [none] at enough
    simp at enough
  constructor
  · rw [getCharP, if_neg some, takeChar, here]
    rfl
  · refine ⟨later, ?_⟩
    have less : (r.inBufLeft - 1).toNat = r.inBufLeft.toNat - 1 := by bv_omega
    simp only [skip]
    change _ ≤ (r.inBufLeft - 1).toNat
    omega

/-- A byte is put back where it was taken. -/
theorem stuffChar_skip (here : r.memory r.inBufOfs = byte) : stuffChar (skip 1 r) byte = r := by
  have back : r.inBufOfs + BitVec.ofNat 32 1 - 1 = r.inBufOfs := by bv_omega
  have left : r.inBufLeft - BitVec.ofNat 32 1 + 1 = r.inBufLeft := by bv_omega
  simp only [stuffChar, skip, back, left, ← here, Function.update_eq_self]

theorem getOctet_plain (buffered : Buffered r (byte :: rest)) (plain : byte ≠ 0xFF) :
    getOctet wait r = (byte, skip 1 r) ∧ Buffered (skip 1 r) rest := by
  obtain ⟨first, later⟩ := @getCharP_buffered wait r byte rest buffered
  refine ⟨?_, later⟩
  rw [getOctet, first]
  exact if_neg plain

theorem getOctet_stuffed (buffered : Buffered r (0xFF :: 0x00 :: rest)) :
    getOctet wait r = (0xFF, skip 2 r) ∧ Buffered (skip 2 r) rest := by
  obtain ⟨first, buffered'⟩ := @getCharP_buffered wait _ _ _ buffered
  obtain ⟨second, later⟩ := @getCharP_buffered wait _ _ _ buffered'
  rw [skip_skip] at second later
  refine ⟨?_, later⟩
  simp only [getOctet, first, second, if_true]
  rfl

theorem getOctet_marker (buffered : Buffered r (0xFF :: marker :: rest))
    (nonzero : marker ≠ 0) : getOctet wait r = (0xFF, r) := by
  obtain ⟨first, buffered'⟩ := @getCharP_buffered wait _ _ _ buffered
  obtain ⟨second, -⟩ := @getCharP_buffered wait _ _ _ buffered'
  simp only [getOctet, first, second, if_true, Bool.false_eq_true, if_false, if_neg nonzero]
  rw [stuffChar_skip buffered'.stored.1, stuffChar_skip buffered.stored.1]

/-- The next octet of a segment, or `0xFF` at the marker behind it. -/
theorem getOctet_segment (coded : EntropyCoded segment) (nonzero : marker ≠ 0)
    (buffered : Buffered r (segment ++ 0xFF :: marker :: rest)) :
    getOctet wait r =
        ((unstuff segment).headD 0xFF, skip (segment.length - (behind segment).length) r) ∧
      Buffered (skip (segment.length - (behind segment).length) r)
        (behind segment ++ 0xFF :: marker :: rest) := by
  match segment with
  | [] =>
      refine ⟨?_, ?_⟩
      · rw [getOctet_marker buffered nonzero]
        simp [unstuff, behind, skip_zero]
      · simpa [behind, skip_zero] using buffered
  | [byte] => exact getOctet_plain buffered coded
  | byte :: next :: later =>
      rw [EntropyCoded] at coded
      by_cases escape : byte = 0xFF
      · rw [if_pos escape] at coded
        obtain ⟨rfl, -⟩ := coded
        subst escape
        have places : (0xFF :: 0x00 :: later : List U8).length -
            (behind (0xFF :: 0x00 :: later)).length = 2 := by
          rw [behind, if_pos rfl, List.length_cons, List.length_cons]
          omega
        rw [places, unstuff, behind, if_pos rfl, if_pos rfl]
        exact getOctet_stuffed buffered
      · have places : (byte :: next :: later).length - (behind (byte :: next :: later)).length =
            1 := by
          rw [behind, if_neg escape, List.length_cons]
          omega
        rw [places, unstuff, behind, if_neg escape, if_neg escape]
        exact getOctet_plain buffered escape

theorem length_behind_le : (behind segment).length ≤ segment.length := by
  match segment with
  | [] => exact le_rfl
  | [_] => simp [behind]
  | _ :: _ :: later =>
      rw [behind, List.length_cons, List.length_cons]
      split
      · omega
      · rw [List.length_cons]
        omega

end Buffer

section Reads

/-- The reader has a register of a stream whose later bits are those of the segment
in the buffer, up to a marker. -/
structure Primed (r : Reader) (segment : List U8) (stream : Nat → Bool) : Prop where
  coded : EntropyCoded segment
  buffered : ∃ marker rest, marker ≠ 0 ∧ Buffered r (segment ++ 0xFF :: marker :: rest)
  register : ∃ left : Nat, r.bitsLeft = left ∧ 1 ≤ left ∧ left ≤ 16 ∧
    Register r.bitBuf left stream ∧ ∀ j, stream (16 + left + j) = segmentBit segment j

variable {wait : Wait} {r : Reader} {segment : List U8} {stream : Nat → Bool} {n : Nat}

theorem octet_bits {j : Nat} :
    segmentBit segment j =
      if j < 8 then ((unstuff segment).headD 0xFF).getLsbD (7 - j)
      else segmentBit (behind segment) (j - 8) := by
  by_cases first : j < 8
  · rw [if_pos first, segmentBit_eq, Nat.div_eq_of_lt first, Nat.mod_eq_of_lt first]
    cases unstuff segment <;> simp
  · rw [if_neg first, segmentBit_behind]
    congr 1
    omega

theorem getBits2_value : (BitReader.getBits2 wait n r).1 =
    (r.bitBuf >>> (16 - n)) &&& BitVec.ofNat 32 (2 ^ n - 1) := by
  simp only [BitReader.getBits2]
  split <;> rfl

/-- A read gives the next bits of the stream and leaves the reader behind them. -/
theorem Primed.getBits2 (primed : Primed r segment stream) (positive : 1 ≤ n)
    (most : n ≤ 16) :
    (∀ j < n, (BitReader.getBits2 wait n r).1.getLsbD (n - 1 - j) = stream j) ∧
      ∃ later consumed, later.length + consumed = segment.length ∧
        Primed (BitReader.getBits2 wait n r).2 later (fun j => stream (j + n)) ∧
        ∃ bitBuf bitsLeft, (BitReader.getBits2 wait n r).2 =
          { skip consumed r with bitBuf := bitBuf, bitsLeft := bitsLeft } := by
  obtain ⟨coded, ⟨marker, rest, nonzero, buffered⟩, left, left_eq, atLeast, atMost, register,
    registerEnds⟩ := primed
  refine ⟨fun j inside => by rw [getBits2_value, register.value most inside], ?_⟩
  by_cases more : r.bitsLeft - (n : Int) ≤ 0
  · -- the upper half of the register runs out and is filled with two octets
    have rotation : asU8 ((n : Int) + (r.bitsLeft - n)) = left := by
      rw [asU8, left_eq]
      omega
    have remaining : asU8 (-(r.bitsLeft - (n : Int))) = n - left := by
      rw [asU8, left_eq]
      omega
    obtain ⟨first, buffered'⟩ := @getOctet_segment wait
      { r with bitsLeft := r.bitsLeft - (n : Int), bitBuf := rol r.bitBuf left } marker segment
      rest coded nonzero ⟨buffered.stored, buffered.enough⟩
    obtain ⟨second, buffered''⟩ := @getOctet_segment wait _ marker (behind segment) rest
      coded.behind nonzero buffered'
    have shorter := @length_behind_le segment
    have shorterStill := @length_behind_le (behind segment)
    have result : (BitReader.getBits2 wait n r).2 =
        { skip (segment.length - (behind (behind segment)).length) r with
          bitBuf := rol ((rol r.bitBuf left &&& (0xFFFF : U32)) |||
            (((unstuff segment).headD 0xFF).setWidth 32 <<< 24) |||
            (((unstuff (behind segment)).headD 0xFF).setWidth 32 <<< 16)) (n - left)
          bitsLeft := r.bitsLeft - (n : Int) + 16 } := by
      simp only [BitReader.getBits2, if_pos more, rotation, first, second, skip_skip]
      rw [show segment.length - (behind segment).length +
        ((behind segment).length - (behind (behind segment)).length) =
          segment.length - (behind (behind segment)).length by omega]
      simp only [skip, remaining]
    refine ⟨behind (behind segment), segment.length - (behind (behind segment)).length,
      by omega, ?_, _, _, result⟩
    rw [result]
    refine ⟨coded.behind.behind, ⟨marker, rest, nonzero, ?_⟩, 16 - (n - left), ?_, by omega,
      by omega, ?_, ?_⟩
    · rw [skip_skip, show segment.length - (behind segment).length +
        ((behind segment).length - (behind (behind segment)).length) =
          segment.length - (behind (behind segment)).length by omega] at buffered''
      exact ⟨buffered''.stored, buffered''.enough⟩
    · simp only [left_eq]
      omega
    · apply register.refill atMost (by omega) most atLeast
      intro j inside
      rw [registerEnds, octet_bits]
      split
      · rfl
      · rw [octet_bits, if_pos (by omega)]
        congr 1
        omega
    · intro j
      rw [show 16 + (16 - (n - left)) + j + n = 16 + left + (8 + (8 + j)) by omega,
        registerEnds, segmentBit_behind, segmentBit_behind]
  · have result : (BitReader.getBits2 wait n r).2 =
        { skip 0 r with bitBuf := rol r.bitBuf n, bitsLeft := r.bitsLeft - (n : Int) } := by
      rw [skip_zero]
      simp only [BitReader.getBits2, if_neg more]
    refine ⟨segment, 0, rfl, ?_, _, _, result⟩
    rw [result]
    refine ⟨coded, ⟨marker, rest, nonzero, ?_⟩, left - n, ?_, by omega, by omega, ?_, ?_⟩
    · rw [skip_zero]
      exact ⟨buffered.stored, buffered.enough⟩
    · simp only [left_eq]
      omega
    · exact register.shift atMost (by omega)
    · intro j
      rw [show 16 + (left - n) + j + n = 16 + left + j by omega, registerEnds]

/-- The reader took some bytes from the buffer, up to a marker at most, and changed
nothing else but the register. -/
def Passed (most : Nat) (r last : Reader) : Prop :=
  ∃ consumed ≤ most, ∃ bitBuf bitsLeft,
    last = { skip consumed r with bitBuf := bitBuf, bitsLeft := bitsLeft }

/-- The bits of a value, the highest one first. -/
def valueBits (numbits : Nat) (value : U32) : List Bool :=
  (List.range numbits).map fun j => value.getLsbD (numbits - 1 - j)

theorem getBits2_lt (most : n ≤ 16) : (BitReader.getBits2 wait n r).1.toNat < 2 ^ n := by
  have small : 2 ^ n ≤ 2 ^ 16 := Nat.pow_le_pow_right (by decide) most
  have positive := Nat.two_pow_pos n
  rw [getBits2_value, BitVec.toNat_and, BitVec.toNat_ofNat, Nat.mod_eq_of_lt (by omega),
    Nat.and_two_pow_sub_one_eq_mod]
  exact Nat.mod_lt _ positive

theorem Primed.readAll {requests : List Nat} (primed : Primed r segment stream)
    (sizes : ∀ n ∈ requests, 1 ≤ n ∧ n ≤ 16) :
    List.Forall₂ (fun n value => value.toNat < 2 ^ n) requests
        (BitReader.readAll wait requests r).1 ∧
      (List.zipWith valueBits requests (BitReader.readAll wait requests r).1).flatten =
        (List.range requests.sum).map stream ∧
      Passed segment.length r (BitReader.readAll wait requests r).2 := by
  induction requests generalizing r segment stream with
  | nil =>
      refine ⟨.nil, rfl, 0, Nat.zero_le _, r.bitBuf, r.bitsLeft, ?_⟩
      simp [BitReader.readAll, skip_zero]
  | cons n rest inductionHypothesis =>
      obtain ⟨⟨positive, most⟩, sizes⟩ := List.forall_mem_cons.mp sizes
      obtain ⟨bits, later, consumed, together, primed, bitBuf, bitsLeft, next⟩ :=
        @Primed.getBits2 wait _ _ _ _ primed positive most
      obtain ⟨small, all, more, few, bitBuf', bitsLeft', last⟩ := inductionHypothesis primed sizes
      refine ⟨.cons (getBits2_lt most) small, ?_, consumed + more, by omega, bitBuf', bitsLeft', ?_⟩
      · have first : valueBits n (BitReader.getBits2 wait n r).1 =
            (List.range n).map stream := by
          apply List.map_congr_left
          intro j inside
          exact bits j (List.mem_range.mp inside)
        rw [List.sum_cons, List.range_add, List.map_append, List.map_map, ← first]
        simp only [BitReader.readAll, List.zipWith_cons_cons, List.flatten_cons, all]
        congr 1
        apply List.map_congr_left
        intro j _
        rw [Function.comp_apply, Nat.add_comm]
      · refine Eq.trans last ?_
        rw [next, ← skip_skip]
        rfl

theorem readAll_prime {requests : List Nat} :
    BitReader.readAll wait (16 :: 16 :: requests) { r with bitsLeft := 16 } =
      ((BitReader.getBits2 wait 16 { r with bitsLeft := 16 }).1 ::
        (BitReader.getBits2 wait 16 (BitReader.getBits2 wait 16 { r with bitsLeft := 16 }).2).1 ::
        (BitReader.readAll wait requests (prime wait r)).1,
      (BitReader.readAll wait requests (prime wait r)).2) := by
  simp only [BitReader.readAll, prime]

/-- The reads behind the two that fill the register give the bits of the segment in the
buffer, and ones from the marker on; the reader stays at the marker or before it. -/
theorem prime_readAll {marker : U8} {requests : List Nat} (coded : EntropyCoded segment)
    (nonzero : marker ≠ 0) (buffered : Buffered r (segment ++ [0xFF, marker]))
    (sizes : ∀ n ∈ requests, 1 ≤ n ∧ n ≤ 16) :
    List.Forall₂ (fun n value => value.toNat < 2 ^ n) requests
        (BitReader.readAll wait requests (prime wait r)).1 ∧
      (List.zipWith valueBits requests (BitReader.readAll wait requests (prime wait r)).1).flatten =
        (List.range requests.sum).map (segmentBit segment) ∧
      Passed segment.length r (BitReader.readAll wait requests (prime wait r)).2 := by
  -- the bits that the register holds at first come before those of the segment
  let stream (j : Nat) : Bool :=
    if j < 16 then r.bitBuf.getLsbD (15 - j)
    else if j < 32 then r.bitBuf.getLsbD (31 - (j - 16))
    else segmentBit segment (j - 32)
  have primed : Primed { r with bitsLeft := 16 } segment stream := by
    refine ⟨coded, ⟨marker, [], nonzero, buffered.stored, buffered.enough⟩, 16, rfl, by decide,
      le_rfl, ⟨?_, ?_⟩, ?_⟩
    · intro j inside
      simp [stream, inside]
    · intro j inside
      have upper : 16 + j < 32 := by omega
      simp [stream, upper]
    · intro j
      simp only [stream]
      rw [if_neg (by omega), if_neg (by omega)]
      congr 1
      omega
  have sizes' : ∀ n ∈ 16 :: 16 :: requests, 1 ≤ n ∧ n ≤ 16 := by
    simpa using sizes
  obtain ⟨small, all, passed⟩ := @Primed.readAll wait _ _ _ _ primed sizes'
  rw [readAll_prime] at small all passed
  refine ⟨(List.forall₂_cons.mp (List.forall₂_cons.mp small).2).2, ?_, passed⟩
  have split : List.range (16 :: 16 :: requests).sum =
      List.range 32 ++ (List.range requests.sum).map (32 + ·) := by
    rw [List.sum_cons, List.sum_cons, ← Nat.add_assoc, List.range_add]
  rw [split, List.zipWith_cons_cons, List.zipWith_cons_cons, List.flatten_cons, List.flatten_cons,
    ← List.append_assoc, List.map_append, List.map_map] at all
  rw [List.append_inj_right all (by simp [valueBits])]
  apply List.map_congr_left
  intro j _
  simp only [Function.comp_apply, stream]
  rw [if_neg (by omega), if_neg (by omega), Nat.add_sub_cancel_left]

/-- A reader in front of four bytes with a stuffed zero among them and the end marker. -/
def sampleReader : Reader where
  memory address := [0x12, 0xFF, 0x00, 0x34, 0xFF, 0xD9].getD address.toNat 0
  inBuf := 0
  inBufOfs := 0
  inBufLeft := 6
  temFlag := 0
  eofFlag := true
  bitsLeft := 0
  bitBuf := 0
  totalBytesRead := 6
  thumbnailAccessMode := false
  thumbnailBufferOffset := 0
  thumbnailBufferSize := 0
  mrcBufferAddr := 0
  mrcBufferSize := 128
  internalBufferAddr := 0x1000

theorem prime_readAll_sample :
    (List.zipWith valueBits [4, 16, 3, 16]
        (BitReader.readAll id [4, 16, 3, 16] (prime id sampleReader)).1).flatten =
      (List.range 39).map (segmentBit [0x12, 0xFF, 0x00, 0x34]) :=
  (@prime_readAll id sampleReader [0x12, 0xFF, 0x00, 0x34] 0xD9 [4, 16, 3, 16]
    (by simp [EntropyCoded]) (by decide) ⟨by simp [Stored, sampleReader], by decide⟩
    (by decide)).2.1

end Reads

section Composition

/-- The first bits of the register that a read gives. -/
def window (r : Reader) : Nat :=
  r.bitBuf.toNat % 2 ^ 16

/-- A reader with another register. -/
def withRegister (r : Reader) (bitBuf : U32) (bitsLeft : Int) : Reader :=
  { r with bitBuf := bitBuf, bitsLeft := bitsLeft }

/-- The one that fills the buffer has nothing to do with the register. -/
def Outside (wait : Wait) : Prop :=
  ∀ r bitBuf bitsLeft, wait (withRegister r bitBuf bitsLeft) =
    withRegister (wait r) bitBuf bitsLeft

variable {wait : Wait} (outside : Outside wait) {r : Reader} {n : Nat}

theorem rol_rol {i : U32} {first second : Nat} (places : first + second ≤ 32) :
    rol (rol i first) second = rol i (first + second) := by
  apply BitVec.eq_of_getLsbD_eq
  intro k inside
  rw [getLsbD_rol (by omega) inside, getLsbD_rol (by omega) inside]
  by_cases low : k < second
  · rw [if_pos low, getLsbD_rol (by omega) (by omega), if_neg (by omega), if_pos (by omega)]
    congr 1
    omega
  · rw [if_neg low, getLsbD_rol (by omega) (by omega)]
    by_cases middle : k < first + second
    · rw [if_pos (by omega), if_pos middle]
      congr 1
      omega
    · rw [if_neg (by omega), if_neg middle]
      congr 1
      omega

theorem getBits2_toNat (most : n ≤ 16) :
    (getBits2 wait n r).1.toNat = window r / 2 ^ (16 - n) := by
  rw [getBits2_value, BitVec.toNat_and, BitVec.toNat_ushiftRight, BitVec.toNat_ofNat,
    Nat.shiftRight_eq_div_pow, window]
  have small : 2 ^ n ≤ 2 ^ 16 := Nat.pow_le_pow_right (by decide) most
  rw [Nat.mod_eq_of_lt (by omega), Nat.and_two_pow_sub_one_eq_mod,
    show 2 ^ 16 = 2 ^ (16 - n) * 2 ^ n by rw [← pow_add]; congr 1; omega,
    Nat.mod_mul_right_div_self]

include outside

theorem Outside.fillReadBuffer {bitBuf : U32} {bitsLeft : Int} :
    fillReadBuffer wait (withRegister r bitBuf bitsLeft) =
      withRegister (fillReadBuffer wait r) bitBuf bitsLeft := by
  simp only [BitReader.fillReadBuffer]
  by_cases ended : r.eofFlag = true
  · rw [if_pos ended, if_pos (show (withRegister r bitBuf bitsLeft).eofFlag = true from ended)]
    rfl
  rw [if_neg ended, if_neg (show ¬ (withRegister r bitBuf bitsLeft).eofFlag = true from ended)]
  by_cases thumbnail : r.thumbnailAccessMode = true
  · rw [if_pos thumbnail,
      if_pos (show (withRegister r bitBuf bitsLeft).thumbnailAccessMode = true from thumbnail)]
    by_cases more : r.mrcBufferSize ≤ r.thumbnailBufferSize
    · have same : (withRegister r bitBuf bitsLeft).mrcBufferSize ≤
        (withRegister r bitBuf bitsLeft).thumbnailBufferSize := more
      simp only [if_pos more, if_pos same]
      rfl
    · have same : ¬ (withRegister r bitBuf bitsLeft).mrcBufferSize ≤
        (withRegister r bitBuf bitsLeft).thumbnailBufferSize := more
      simp only [if_neg more, if_neg same]
      rfl
  · rw [if_neg thumbnail,
      if_neg (show ¬ (withRegister r bitBuf bitsLeft).thumbnailAccessMode = true from thumbnail)]
    rw [← outside]
    rfl

theorem Outside.getCharP {bitBuf : U32} {bitsLeft : Int} :
    getCharP wait (withRegister r bitBuf bitsLeft) =
      ((getCharP wait r).1, (getCharP wait r).2.1,
        withRegister (getCharP wait r).2.2 bitBuf bitsLeft) := by
  have left : (withRegister r bitBuf bitsLeft).inBufLeft = r.inBufLeft := rfl
  simp only [BitReader.getCharP, outside.fillReadBuffer, left]
  have filled : (withRegister (BitReader.fillReadBuffer wait r) bitBuf bitsLeft).inBufLeft =
    (BitReader.fillReadBuffer wait r).inBufLeft := rfl
  by_cases empty : r.inBufLeft = 0
  · by_cases still : (BitReader.fillReadBuffer wait r).inBufLeft = 0
    · simp only [empty, filled, still, if_true]
      rfl
    · simp only [empty, filled, still, if_true, if_false]
      rfl
  · simp only [empty, if_false]
    rfl

theorem Outside.getOctet {bitBuf : U32} {bitsLeft : Int} :
    getOctet wait (withRegister r bitBuf bitsLeft) =
      ((getOctet wait r).1, withRegister (getOctet wait r).2 bitBuf bitsLeft) := by
  simp only [BitReader.getOctet, outside.getCharP]
  split
  · split
    · rfl
    · split
      · rfl
      · split
        · rfl
        · rfl
  · rfl

omit outside in
theorem window_bit {k : Nat} (inside : k < 16) :
    window r / 2 ^ k % 2 = (r.bitBuf.getLsbD k).toNat := by
  have low : (window r).testBit k = r.bitBuf.getLsbD k := by
    rw [window, BitVec.getLsbD, Nat.testBit_mod_two_pow, decide_eq_true inside, Bool.true_and]
  rw [← low, Nat.toNat_testBit]

omit outside in
theorem getBits2_stays (fewer : (n : Int) < r.bitsLeft) :
    (getBits2 wait n r).2 = withRegister r (rol r.bitBuf n) (r.bitsLeft - n) := by
  simp only [getBits2]
  rw [if_neg (by omega)]
  rfl

theorem Outside.getBits2_refills {left : Nat} (held : r.bitsLeft = left) (atLeast : left ≤ n)
    (most : n ≤ 16) :
    (getBits2 wait n r).2 =
      withRegister (BitReader.getOctet wait (BitReader.getOctet wait r).2).2
        (rol (((rol r.bitBuf left) &&& (0xFFFF : U32)) |||
          ((BitReader.getOctet wait r).1.setWidth 32 <<< 24) |||
          ((BitReader.getOctet wait (BitReader.getOctet wait r).2).1.setWidth 32 <<< 16))
          (n - left))
        (left - n + 16) := by
  have rotation : asU8 ((n : Int) + (r.bitsLeft - n)) = left := by
    rw [asU8, held]
    omega
  have rest : asU8 (-((left : Int) - n)) = n - left := by
    rw [asU8]
    omega
  have same : ({ r with
      bitsLeft := r.bitsLeft - (n : Int)
      bitBuf := rol r.bitBuf left } : Reader) =
      withRegister r (rol r.bitBuf left) (r.bitsLeft - n) := rfl
  simp only [getBits2]
  rw [if_pos (by omega)]
  simp only [rotation, same, outside.getOctet]
  simp only [withRegister, held, rest]

/-- A read of some bits and one of the next one leave what one read of them all leaves. -/
theorem Outside.getBits2_succ (least : 1 ≤ r.bitsLeft) (most : r.bitsLeft ≤ 16)
    (fits : n < 16) :
    (getBits2 wait 1 (getBits2 wait n r).2).2 = (getBits2 wait (n + 1) r).2 := by
  obtain ⟨left, held⟩ := Int.eq_ofNat_of_zero_le (show 0 ≤ r.bitsLeft by omega)
  rcases Nat.lt_or_ge n left with fewer | atLeast
  · rw [@getBits2_stays wait r n (by omega)]
    rcases Nat.lt_or_ge (n + 1) left with still | last
    · rw [getBits2_stays (by simp only [withRegister]; omega),
        @getBits2_stays wait r (n + 1) (by push_cast; omega)]
      simp only [withRegister, rol_rol (show n + 1 ≤ 32 by omega), Nat.cast_add, Nat.cast_one,
        sub_sub]
    · have one : (withRegister r (rol r.bitBuf n) (r.bitsLeft - n)).bitsLeft = (1 : Nat) := by
        simp only [withRegister]
        omega
      have same : left = n + 1 := by omega
      rw [outside.getBits2_refills one le_rfl (by omega),
        outside.getBits2_refills held (by omega) (by omega)]
      simp only [outside.getOctet, same]
      simp only [withRegister, rol_rol (show n + 1 ≤ 32 by omega), Nat.sub_self, sub_self,
        Nat.cast_one, zero_add]
  · rw [outside.getBits2_refills held atLeast (by omega),
      outside.getBits2_refills held (by omega) (by omega),
      getBits2_stays (by simp only [withRegister]; omega)]
    simp only [withRegister, rol_rol (show n - left + 1 ≤ 32 by omega),
      show n - left + 1 = n + 1 - left by omega, Nat.cast_add, Nat.cast_one]
    congr 1
    omega

/-- The bits behind some others that a read takes. -/
theorem Outside.window_getBits2 (least : 1 ≤ r.bitsLeft) (most : r.bitsLeft ≤ 16)
    (fits : n < 16) {j : Nat} (inside : n + j < 16) :
    (getBits2 wait n r).2.bitBuf.getLsbD (15 - j) = r.bitBuf.getLsbD (15 - (n + j)) := by
  obtain ⟨left, held⟩ := Int.eq_ofNat_of_zero_le (show 0 ≤ r.bitsLeft by omega)
  rcases Nat.lt_or_ge n left with fewer | atLeast
  · rw [getBits2_stays (by omega)]
    simp only [withRegister]
    rw [getLsbD_rol (by omega) (by omega), if_neg (by omega)]
    congr 1
    omega
  · rw [outside.getBits2_refills held atLeast (by omega)]
    simp only [withRegister]
    rw [getLsbD_rol (by omega) (by omega), if_neg (by omega), getLsbD_octets _ _ _ (by omega),
      if_pos (by omega), getLsbD_rol (by omega) (by omega), if_neg (by omega)]
    congr 1
    omega

theorem Outside.bitsLeft_getBits2 (least : 1 ≤ r.bitsLeft) (most : r.bitsLeft ≤ 16)
    (fits : n ≤ 16) :
    1 ≤ (getBits2 wait n r).2.bitsLeft ∧ (getBits2 wait n r).2.bitsLeft ≤ 16 := by
  obtain ⟨left, held⟩ := Int.eq_ofNat_of_zero_le (show 0 ≤ r.bitsLeft by omega)
  rcases Nat.lt_or_ge n left with fewer | atLeast
  · rw [getBits2_stays (by omega)]
    simp only [withRegister]
    omega
  · rw [outside.getBits2_refills held atLeast (by omega)]
    simp only [withRegister]
    omega

/-- The bit behind some others that a read takes. -/
theorem Outside.next_bit (least : 1 ≤ r.bitsLeft) (most : r.bitsLeft ≤ 16) (fits : n < 16) :
    (getBits2 wait 1 (getBits2 wait n r).2).1.toNat = window r / 2 ^ (16 - n - 1) % 2 := by
  have bit := outside.window_getBits2 least most fits (show n + 0 < 16 by omega)
  have top : window (getBits2 wait n r).2 < 2 ^ 16 := Nat.mod_lt _ (by decide)
  have small : window (getBits2 wait n r).2 / 2 ^ 15 < 2 := by omega
  rw [getBits2_toNat (by omega), ← Nat.mod_eq_of_lt small, window_bit (by omega),
    window_bit (by omega), show 16 - n - 1 = 15 - (n + 0) by omega, ← bit]

end Composition

end Gp2Firmware.Jpeg.BitReader
