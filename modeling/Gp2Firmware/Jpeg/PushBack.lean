import Gp2Firmware.Jpeg.BitReader

/-!
# Bytes put back into the read buffer

`MDrv_JPEG_get_octet` puts the bytes of a marker back in front of the read position.  The
stream comes in parts, each of which begins at the front of the buffer again, so there is room
for them only where the marker does not go from one part into the next.
-/

namespace Gp2Firmware.Jpeg.BitReader

open Gp2Firmware.Lib.WordMemory

/-- A part of the stream is in the buffer, and `MDrv_JPEG_Wakeup` has been called with its
length. -/
def deliver (part : List U8) : Wait := fun r =>
  { r with
    memory := putBytes r.memory r.inBuf part
    inBufLeft := r.inBufLeft + BitVec.ofNat 32 part.length }

/-- A reader and the parts that its refills will find. -/
structure Feed where
  reader : Reader
  parts : Nat → List U8

namespace Feed

section Code

def refill (feed : Feed) : Feed :=
  ⟨fillReadBuffer (deliver (feed.parts 0)) feed.reader, fun part => feed.parts (part + 1)⟩

def getCharP (feed : Feed) : U8 × Bool × Feed :=
  let (c, padded, r) := BitReader.getCharP (deliver (feed.parts 0)) feed.reader
  (c, padded, ⟨r, if feed.reader.inBufLeft = 0 then feed.refill.parts else feed.parts⟩)

def stuffChar (feed : Feed) (q : U8) : Feed :=
  { feed with reader := BitReader.stuffChar feed.reader q }

/-- The next octet, and the addresses at which bytes are put back. -/
def getOctet (feed : Feed) : U8 × List Address × Feed :=
  let (c, padded, feed) := feed.getCharP
  if c = 0xFF then
    if padded then
      (0xFF, [], feed)
    else
      let (c, padded, feed) := feed.getCharP
      if padded then
        (0xFF, [feed.reader.inBufOfs - 1], feed.stuffChar 0xFF)
      else if c = 0x00 then
        (0xFF, [], feed)
      else
        (0xFF, [feed.reader.inBufOfs - 1, (feed.stuffChar c).reader.inBufOfs - 1],
          (feed.stuffChar c).stuffChar 0xFF)
  else
    (c, [], feed)

/-- With the same part at every refill this is `getOctet` of a reader. -/
theorem getOctet_reader {r : Reader} {part : List U8} :
    ((getOctet ⟨r, fun _ => part⟩).1, (getOctet ⟨r, fun _ => part⟩).2.2.reader) =
      BitReader.getOctet (deliver part) r := by
  have parts : ∀ r, (getCharP ⟨r, fun _ => part⟩) =
      ((BitReader.getCharP (deliver part) r).1, (BitReader.getCharP (deliver part) r).2.1,
        ⟨(BitReader.getCharP (deliver part) r).2.2, fun _ => part⟩) := by
    intro r
    rw [getCharP]
    dsimp only [refill]
    rw [ite_self]
  rw [getOctet, BitReader.getOctet, parts]
  dsimp only
  split
  · split
    · rfl
    · rw [parts]
      dsimp only
      split
      · rfl
      · split
        · rfl
        · rfl
  · rfl

/-- What is read from the stream. -/
inductive Event where
  | octet
  | char
  deriving DecidableEq

/-- The addresses at which bytes are put back, and what comes then. -/
def step (feed : Feed) : Event → List Address × Feed
  | .octet => feed.getOctet.2
  | .char => ([], feed.getCharP.2.2)

end Code

section Property

/-- The read position and all that is left behind it are in the buffer, which has room for
each part. -/
structure Within (feed : Feed) : Prop where
  position : (feed.reader.inBufOfs - feed.reader.inBuf).toNat + feed.reader.inBufLeft.toNat ≤
    feed.reader.mrcBufferSize.toNat
  fits : ∀ part, (feed.parts part).length ≤ feed.reader.mrcBufferSize.toNat

/-- Bytes are put back into the buffer only, and the read position stays in it. -/
def Keeps (feed : Feed) (stuffed : List Address) (next : Feed) : Prop :=
  (∀ address ∈ stuffed,
    (address - feed.reader.inBuf).toNat < feed.reader.mrcBufferSize.toNat) ∧ next.Within

def StaysInBuffer (feed : Feed) : List Event → Prop
  | [] => True
  | event :: rest =>
      feed.Keeps (feed.step event).1 (feed.step event).2 ∧
        StaysInBuffer (feed.step event).2 rest

/-- The bytes left in the buffer. -/
def bytes (feed : Feed) : List U8 :=
  (List.range feed.reader.inBufLeft.toNat).map fun byte =>
    feed.reader.memory (feed.reader.inBufOfs + BitVec.ofNat 32 byte)

/-- The bytes left in the buffer, and those of the refills to come. -/
def chunks (feed : Feed) (refills : Nat) : List U8 :=
  (refill^[refills] feed).bytes

/-- The next byte of the stream is `0xFF`, the last one in the buffer, and the refill for the
byte behind it brings nothing, or something else than a stuffed zero. -/
def Straddles (chunks : Nat → List U8) : Prop :=
  (chunks 0 = [0xFF] ∧ (chunks 1).head? ≠ some 0x00) ∨
    (chunks 0 = [] ∧ chunks 1 = [0xFF] ∧ (chunks 2).head? ≠ some 0x00)

/-- No octet is read where a marker goes from one part into the next. -/
def NeverStraddles (feed : Feed) : List Event → Prop
  | [] => True
  | event :: rest =>
      (event = .octet → ¬ Straddles feed.chunks) ∧ NeverStraddles (feed.step event).2 rest

instance (chunks : Nat → List U8) : Decidable (Straddles chunks) :=
  inferInstanceAs (Decidable (_ ∨ _))

instance decidableNeverStraddles (feed : Feed) (events : List Event) :
    Decidable (feed.NeverStraddles events) :=
  match events with
  | [] => inferInstanceAs (Decidable True)
  | event :: rest =>
      @instDecidableAnd _ _ inferInstance (decidableNeverStraddles (feed.step event).2 rest)

end Property

section Chars

variable {feed : Feed}

theorem getCharP_of_some (some : feed.reader.inBufLeft ≠ 0) :
    feed.getCharP = (feed.reader.memory feed.reader.inBufOfs, false,
      { feed with reader := (takeChar feed.reader).2 }) := by
  rw [getCharP, BitReader.getCharP, if_neg some, if_neg some]
  rfl

theorem getCharP_of_refill (none : feed.reader.inBufLeft = 0)
    (some : feed.refill.reader.inBufLeft ≠ 0) : feed.getCharP = feed.refill.getCharP := by
  rw [getCharP_of_some some, getCharP, BitReader.getCharP, if_pos none, if_pos none]
  dsimp only [refill] at some ⊢
  rw [if_neg some]
  rfl

theorem getCharP_of_end (none : feed.reader.inBufLeft = 0)
    (end_ : feed.refill.reader.inBufLeft = 0) :
    feed.getCharP = ((padding feed.refill.reader).1, true,
      { feed.refill with reader := (padding feed.refill.reader).2 }) := by
  rw [getCharP, BitReader.getCharP, if_pos none, if_pos none]
  dsimp only [refill] at end_ ⊢
  rw [if_pos end_]

theorem getOctet_of_refill (none : feed.reader.inBufLeft = 0)
    (some : feed.refill.reader.inBufLeft ≠ 0) : feed.getOctet = feed.refill.getOctet := by
  rw [getOctet, getOctet, getCharP_of_refill none some]

/-- A refill begins at the front of the buffer and does not go behind it. -/
theorem refill_front (within : feed.Within) :
    feed.refill.reader.inBuf = feed.reader.inBuf ∧
      feed.refill.reader.inBufOfs = feed.reader.inBuf ∧
      feed.refill.reader.mrcBufferSize = feed.reader.mrcBufferSize ∧
      feed.refill.reader.inBufLeft.toNat ≤ feed.reader.mrcBufferSize.toNat := by
  dsimp only [refill]
  rw [fillReadBuffer]
  dsimp only
  split
  · exact ⟨rfl, rfl, rfl, Nat.zero_le _⟩
  split
  · split
    · exact ⟨rfl, rfl, rfl, le_rfl⟩
    · rename_i fewer
      exact ⟨rfl, rfl, rfl, Nat.le_of_not_le fewer⟩
  · refine ⟨rfl, rfl, rfl, ?_⟩
    have fits := within.fits 0
    have told : (0 + BitVec.ofNat 32 (feed.parts 0).length : U32).toNat ≤
        (feed.parts 0).length := by
      rw [BitVec.ofNat_eq_ofNat, BitVec.zero_add, BitVec.toNat_ofNat]
      exact Nat.mod_le _ _
    exact told.trans fits

theorem Within.refill (within : feed.Within) : feed.refill.Within := by
  obtain ⟨front, offset, size, few⟩ := refill_front within
  constructor
  · rw [front, offset, size, BitVec.sub_self]
    simpa using few
  · intro part
    rw [size]
    exact within.fits (part + 1)

theorem chunks_zero : feed.chunks 0 = feed.bytes := rfl

theorem chunks_succ {refills : Nat} :
    feed.chunks (refills + 1) = feed.refill.chunks refills := by
  rw [chunks, chunks, Function.iterate_succ_apply]

theorem length_bytes : feed.bytes.length = feed.reader.inBufLeft.toNat := by
  rw [bytes, List.length_map, List.length_range]

theorem bytes_eq_nil : feed.bytes = [] ↔ feed.reader.inBufLeft = 0 := by
  rw [← List.length_eq_zero_iff, length_bytes, ← BitVec.toNat_inj]
  rfl

theorem head_bytes (some : feed.reader.inBufLeft ≠ 0) :
    feed.bytes.head? = Option.some (feed.reader.memory feed.reader.inBufOfs) := by
  have more : feed.reader.inBufLeft.toNat ≠ 0 := by
    intro none
    exact some (BitVec.eq_of_toNat_eq none)
  obtain ⟨left, same⟩ := Nat.exists_eq_succ_of_ne_zero more
  rw [bytes, same, List.range_succ_eq_map]
  simp

theorem bytes_eq_single {byte : U8} :
    feed.bytes = [byte] ↔
      feed.reader.inBufLeft = 1 ∧ feed.reader.memory feed.reader.inBufOfs = byte := by
  have left := @length_bytes feed
  constructor
  · intro single
    rw [single] at left
    have one : feed.reader.inBufLeft = 1 := BitVec.eq_of_toNat_eq left.symm
    have next := @head_bytes feed (by rw [one]; decide)
    rw [single] at next
    exact ⟨one, (Option.some.inj next).symm⟩
  · intro ⟨one, here⟩
    have next := @head_bytes feed (by rw [one]; decide)
    rw [one] at left
    obtain ⟨other, single⟩ := List.length_eq_one_iff.mp left
    rw [single] at next ⊢
    rw [Option.some.inj next, here]

/-- The bytes left begin with the next one. -/
theorem straddles_of_some (some : feed.reader.inBufLeft ≠ 0) :
    Straddles feed.chunks ↔
      feed.bytes = [0xFF] ∧ feed.refill.bytes.head? ≠ Option.some 0x00 := by
  rw [Straddles, chunks_succ, chunks_zero, chunks_zero, or_iff_left]
  intro ⟨empty, _⟩
  exact some (bytes_eq_nil.mp empty)

theorem straddles_of_refill (none : feed.reader.inBufLeft = 0)
    (some : feed.refill.reader.inBufLeft ≠ 0) :
    Straddles feed.chunks ↔ Straddles feed.refill.chunks := by
  rw [straddles_of_some some, Straddles, chunks_zero, bytes_eq_nil.mpr none, chunks_succ,
    chunks_zero, chunks_succ, chunks_succ, chunks_zero]
  simp

end Chars

section Octets

variable {feed : Feed}

/-- The reader behind a byte of the buffer. -/
def take (feed : Feed) : Feed :=
  { feed with reader := (takeChar feed.reader).2 }

theorem Within.take (within : feed.Within) (some : feed.reader.inBufLeft ≠ 0) :
    feed.take.Within := by
  obtain ⟨position, fits⟩ := within
  refine ⟨?_, fits⟩
  dsimp only [Feed.take, takeChar]
  bv_omega

theorem second_inside {offset front left size : U32}
    (position : (offset - front).toNat + left.toNat ≤ size.toNat) (some : left ≠ 0)
    (more : left - 1 ≠ 0) : (offset + 1 - front).toNat < size.toNat := by
  have two : 2 ≤ left.toNat := by bv_omega
  have shift : offset + 1 - front = offset - front + 1 := by
    rw [BitVec.sub_eq_add_neg, BitVec.sub_eq_add_neg, BitVec.add_assoc, BitVec.add_assoc,
      BitVec.add_comm 1]
  rw [shift, BitVec.toNat_add, show (1 : U32).toNat = 1 from rfl]
  omega

theorem not_before_front {front size : U32} : ¬ (front - 1 - front).toNat < size.toNat := by
  bv_omega

/-- Where the stream is at its end there is padding, and nothing is put back. -/
theorem getOctet_of_end (within : feed.Within) (none : feed.reader.inBufLeft = 0)
    (end_ : feed.refill.reader.inBufLeft = 0) :
    feed.Keeps feed.getOctet.2.1 feed.getOctet.2.2 := by
  have later := within.refill
  have octet : feed.getOctet.2 =
      ([], { feed.refill with reader := (padding feed.refill.reader).2 }) := by
    rw [getOctet, getCharP_of_end none end_]
    dsimp only
    split
    · rfl
    · rfl
  rw [octet]
  exact ⟨by simp, later.position, later.fits⟩

theorem getOctet_of_plain (within : feed.Within) (some : feed.reader.inBufLeft ≠ 0)
    (plain : feed.reader.memory feed.reader.inBufOfs ≠ 0xFF) :
    feed.Keeps feed.getOctet.2.1 feed.getOctet.2.2 := by
  have octet : feed.getOctet.2 = ([], feed.take) := by
    rw [getOctet, getCharP_of_some some]
    dsimp only
    rw [if_neg plain]
    rfl
  rw [octet]
  exact ⟨by simp, within.take some⟩

section Escape

variable (within : feed.Within) (some : feed.reader.inBufLeft ≠ 0)
  (escape : feed.reader.memory feed.reader.inBufOfs = 0xFF)

include some escape

omit within in
theorem getOctet_of_escape : feed.getOctet =
    if feed.take.getCharP.2.1 then
      (0xFF, [feed.take.getCharP.2.2.reader.inBufOfs - 1],
        feed.take.getCharP.2.2.stuffChar 0xFF)
    else if feed.take.getCharP.1 = 0x00 then
      (0xFF, [], feed.take.getCharP.2.2)
    else
      (0xFF, [feed.take.getCharP.2.2.reader.inBufOfs - 1,
          (feed.take.getCharP.2.2.stuffChar feed.take.getCharP.1).reader.inBufOfs - 1],
        (feed.take.getCharP.2.2.stuffChar feed.take.getCharP.1).stuffChar 0xFF) := by
  rw [getOctet, getCharP_of_some some]
  dsimp only
  rw [if_pos escape, if_neg Bool.false_ne_true]
  rfl

include within

/-- Both bytes of a marker go back to where they were. -/
theorem getOctet_of_pair (more : feed.take.reader.inBufLeft ≠ 0) :
    feed.Keeps feed.getOctet.2.1 feed.getOctet.2.2 := by
  have taken := (within.take some).take more
  rw [getOctet_of_escape some escape, getCharP_of_some more, if_neg Bool.false_ne_true]
  split
  · exact ⟨by simp, taken⟩
  · obtain ⟨position, fits⟩ := within
    have second := second_inside position some more
    have two : feed.reader.inBufLeft - 1 - 1 + 1 + 1 = feed.reader.inBufLeft := by
      rw [BitVec.sub_add_cancel, BitVec.sub_add_cancel]
    have back : feed.reader.inBufOfs + 1 + 1 - 1 = feed.reader.inBufOfs + 1 :=
      BitVec.add_sub_cancel _ _
    have front : feed.reader.inBufOfs + 1 + 1 - 1 - 1 = feed.reader.inBufOfs := by
      rw [back, BitVec.add_sub_cancel]
    refine ⟨?_, ?_, fits⟩
    · intro address member
      rcases List.mem_pair.mp member with rfl | rfl
      · dsimp only [Feed.take, takeChar]
        rw [back]
        exact second
      · dsimp only [Feed.take, takeChar, stuffChar, BitReader.stuffChar]
        rw [front]
        have least : 1 ≤ feed.reader.inBufLeft.toNat := by bv_omega
        omega
    · dsimp only [Feed.take, takeChar, stuffChar, BitReader.stuffChar]
      rw [front, two]
      exact position

/-- The second byte is in the next part. -/
theorem getOctet_of_last (last : feed.take.reader.inBufLeft = 0) :
    feed.Keeps feed.getOctet.2.1 feed.getOctet.2.2 ↔
      feed.refill.bytes.head? = Option.some 0x00 := by
  obtain ⟨front, offset, size, few⟩ := refill_front within
  have refilled : feed.take.refill = feed.refill := rfl
  rw [getOctet_of_escape some escape]
  by_cases end_ : feed.refill.reader.inBufLeft = 0
  · rw [getCharP_of_end last end_, refilled, if_pos rfl, bytes_eq_nil.mpr end_]
    refine iff_of_false ?_ (by simp)
    intro ⟨inside, _⟩
    have first := inside _ (List.mem_singleton_self _)
    dsimp only [padding] at first
    rw [offset] at first
    exact not_before_front first
  · rw [getCharP_of_refill last end_, refilled, getCharP_of_some end_, if_neg Bool.false_ne_true,
      head_bytes end_, Option.some_inj]
    split
    · rename_i zero
      exact iff_of_true ⟨by simp, within.refill.take end_⟩ zero
    · rename_i other
      refine iff_of_false ?_ other
      intro ⟨inside, _⟩
      have second := inside _ (List.mem_pair.mpr (.inr rfl))
      dsimp only [takeChar, stuffChar, BitReader.stuffChar] at second
      rw [offset, BitVec.add_sub_cancel] at second
      exact not_before_front second

end Escape

theorem keeps_of_some (within : feed.Within) (some : feed.reader.inBufLeft ≠ 0) :
    feed.Keeps feed.getOctet.2.1 feed.getOctet.2.2 ↔ ¬ Straddles feed.chunks := by
  have one : feed.reader.inBufLeft = 1 ↔ feed.take.reader.inBufLeft = 0 := by
    dsimp only [Feed.take, takeChar]
    constructor
    · intro last
      rw [last]
      rfl
    · intro last
      rw [← BitVec.sub_add_cancel feed.reader.inBufLeft 1, last]
      rfl
  rw [straddles_of_some some, bytes_eq_single, one]
  by_cases escape : feed.reader.memory feed.reader.inBufOfs = 0xFF
  · by_cases last : feed.take.reader.inBufLeft = 0
    · rw [getOctet_of_last within some escape last]
      simp [last, escape]
    · refine iff_of_true (getOctet_of_pair within some escape last) ?_
      intro ⟨⟨here, _⟩, _⟩
      exact last here
  · refine iff_of_true (getOctet_of_plain within some escape) ?_
    intro ⟨⟨_, here⟩, _⟩
    exact escape here

/-- An octet is read without leaving the buffer just if no marker goes from the part it begins
in into the next one. -/
theorem keeps_getOctet_iff (within : feed.Within) :
    feed.Keeps feed.getOctet.2.1 feed.getOctet.2.2 ↔ ¬ Straddles feed.chunks := by
  by_cases none : feed.reader.inBufLeft = 0
  · by_cases end_ : feed.refill.reader.inBufLeft = 0
    · refine iff_of_true (getOctet_of_end within none end_) ?_
      intro straddles
      rw [Straddles, chunks_zero, chunks_succ, chunks_zero, bytes_eq_nil.mpr none,
        bytes_eq_nil.mpr end_] at straddles
      simp at straddles
    · obtain ⟨front, -, size, -⟩ := refill_front within
      rw [getOctet_of_refill none end_, straddles_of_refill none end_,
        ← keeps_of_some within.refill end_, Keeps, Keeps, front, size]
  · exact keeps_of_some within none

theorem keeps_getCharP (within : feed.Within) : feed.Keeps [] feed.getCharP.2.2 := by
  refine ⟨by simp, ?_⟩
  by_cases none : feed.reader.inBufLeft = 0
  · have later := within.refill
    by_cases end_ : feed.refill.reader.inBufLeft = 0
    · rw [getCharP_of_end none end_]
      exact ⟨later.position, later.fits⟩
    · rw [getCharP_of_refill none end_, getCharP_of_some end_]
      exact later.take end_
  · rw [getCharP_of_some none]
    exact within.take none

end Octets

section Main

/-- The bytes put back stay in the read buffer throughout a run just if no octet of the run is
a marker that goes from one part of the stream into the next. -/
theorem staysInBuffer_iff {feed : Feed} {events : List Event} (within : feed.Within) :
    feed.StaysInBuffer events ↔ feed.NeverStraddles events := by
  induction events generalizing feed with
  | nil => exact Iff.rfl
  | cons event rest inductionHypothesis =>
      have keeps : feed.Keeps (feed.step event).1 (feed.step event).2 ↔
          (event = .octet → ¬ Straddles feed.chunks) := by
        cases event with
        | octet =>
            simp only [forall_const]
            exact keeps_getOctet_iff within
        | char => exact iff_of_true (keeps_getCharP within) (fun other => nomatch other)
      rw [StaysInBuffer, NeverStraddles, ← keeps]
      exact and_congr_right fun kept => inductionHypothesis kept.2

/-- A buffer of four bytes, and a stream of two parts. -/
def sampleFeed (next : U8) : Feed where
  reader := { sampleReader with
    memory := putBytes (fun _ => 0) 0x1000 [0x12, 0x34, 0x56, 0xFF]
    inBuf := 0x1000
    inBufOfs := 0x1000
    inBufLeft := 4
    eofFlag := false
    mrcBufferAddr := 0x1000
    mrcBufferSize := 4 }
  parts := fun part => if part = 0 then [next, 0x78] else []

theorem within_sampleFeed (next : U8) : (sampleFeed next).Within where
  position := by
    change ((0x1000 - 0x1000 : U32).toNat + (4 : U32).toNat ≤ (4 : U32).toNat)
    decide
  fits := by
    intro part
    dsimp only [sampleFeed]
    split
    · exact Nat.le_of_ble_eq_true rfl
    · exact Nat.zero_le _

/-- The zero of a stuffed byte may be in the next part. -/
theorem staysInBuffer_stuffed :
    (sampleFeed 0x00).StaysInBuffer [.octet, .octet, .octet, .octet, .char] :=
  (@staysInBuffer_iff (sampleFeed 0x00) _ (within_sampleFeed _)).mpr (by decide +kernel)

/-- The first byte of a marker is put back in front of the buffer. -/
theorem marker_before_buffer :
    (sampleFeed 0xD0).Within ∧
      ¬ (sampleFeed 0xD0).StaysInBuffer [.octet, .octet, .octet, .octet] := by
  refine ⟨within_sampleFeed _, ?_⟩
  intro ⟨_, _, _, ⟨inside, _⟩, _⟩
  exact absurd (inside 0xFFF (by decide +kernel)) (by decide +kernel)

end Main

end Feed

end Gp2Firmware.Jpeg.BitReader
