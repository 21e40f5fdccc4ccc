import Gp2Firmware.Jpeg.Thumbnail

/-!
# The bytes that the Exif parser reads

`MDrv_JPEG_DecodeExifInfo` compares places in an APP1 segment with the length of the segment,
but only behind the first reads of a directory.  Here every read is recorded with the addresses
of its bytes.
-/

namespace Gp2Firmware.Jpeg.Thumbnail

open Gp2Firmware.Lib.WordMemory

/-- A value that is found out by reading some bytes. -/
structure Reads (α : Type) where
  value : α
  bytes : List Address

namespace Reads

def bind {α β : Type} (first : Reads α) (later : α → Reads β) : Reads β :=
  ⟨(later first.value).value, first.bytes ++ (later first.value).bytes⟩

instance : Monad Reads where
  pure value := ⟨value, []⟩
  bind := bind

end Reads

section Code

variable (memory : Memory)

def readU16 (data : Address) : Reads U16 :=
  ⟨getU16 memory data, [data + 1, data]⟩

def readU32 (data : Address) : Reads U32 :=
  ⟨getU32 memory data, [data + 3, data + 2, data + 1, data]⟩

def readShort (tiffBigEndian : Bool) (data : Address) : Reads U16 := do
  let val ← readU16 memory data
  pure (tiffEndianChangeS tiffBigEndian val)

def readLong (tiffBigEndian : Bool) (data : Address) : Reads U32 := do
  let val ← readU32 memory data
  pure (tiffEndianChangeL tiffBigEndian val)

/-- The directory behind the first one; its boundary check stands behind the number of its
entries. -/
def readSecondIfd (internalBufferAddr nextIfd : Address) (dataLength : U32)
    (tiffBigEndian : Bool) : Reads (Option (Address × U16)) := do
  let numOfEntry ← readShort memory tiffBigEndian nextIfd
  let nextIfd := nextIfd + 2
  if dataLength ≤ nextIfd - internalBufferAddr + numOfEntry.setWidth 32 * 12 then
    pure none
  else
    pure (some (nextIfd, numOfEntry))

/-- The first directory up to the place of the second one. -/
def readFirstIfd (internalBufferAddr tiffHdr jpegBuff : Address) (dataLength : U32)
    (tiffBigEndian : Bool) : Reads (Option (Address × U16)) := do
  let numOfEntry ← readShort memory tiffBigEndian jpegBuff
  let jpegBuff := jpegBuff + 2
  if dataLength ≤ jpegBuff - internalBufferAddr + numOfEntry.setWidth 32 * 12 then
    pure none
  else do
    let offset ← readLong memory tiffBigEndian (jpegBuff + 12 * numOfEntry.setWidth 32)
    if offset = 0 then
      pure none
    else
      readSecondIfd memory internalBufferAddr (tiffHdr + offset) dataLength tiffBigEndian

def readNextIfd (internalBufferAddr tiffHdr : Address) (dataLength : U32) (tiffBigEndian : Bool) :
    Reads (Option (Address × U16)) := do
  let jpegBuff := tiffHdr + 2
  let marker ← readShort memory tiffBigEndian jpegBuff
  if marker ≠ 0x002A then
    pure none
  else do
    let jpegBuff := jpegBuff + 2
    let long ← readLong memory tiffBigEndian jpegBuff
    let len : U16 := long.setWidth 16
    readFirstIfd memory internalBufferAddr tiffHdr (jpegBuff + (len.setWidth 32 - 4)) dataLength
      tiffBigEndian

/-- The entries of a directory.  The word behind the tag is read and not used. -/
def readEntries (tiffBigEndian : Bool) : Nat → Address → Reads (List (U16 × U32))
  | 0, _ => pure []
  | count + 1, nextIfd => do
      let marker ← readShort memory tiffBigEndian nextIfd
      let _ ← readLong memory tiffBigEndian (nextIfd + 4)
      let tmp ← readLong memory tiffBigEndian (nextIfd + 8)
      let rest ← readEntries tiffBigEndian count (nextIfd + 12)
      pure ((marker, tmp) :: rest)

/-- The parser behind the byte order. -/
def readDirectories (internalBufferAddr tiffHdr : Address) (dataLength : U32)
    (tiffBigEndian : Bool) (s : State) : Reads (Bool × State) := do
  let s := { s with
    tiffBigEndian := tiffBigEndian, thumbnailOffset := s.thumbnailOffset + 6 }
  match ← readNextIfd memory internalBufferAddr tiffHdr dataLength tiffBigEndian with
  | none => pure (false, s)
  | some (nextIfd, numOfEntry) => do
      let entries ← readEntries memory tiffBigEndian numOfEntry.toNat nextIfd
      let s := checkWindow dataLength (entries.foldl takeEntry s)
      pure (s.thumbnailFound, s)

/-- `MDrv_JPEG_DecodeExifInfo` with the bytes that it reads. -/
def readExifInfo (internalBufferAddr data : Address) (dataLength : U32) (s : State) :
    Reads (Bool × State) := do
  let tag ← readU32 memory data
  if tag ≠ JPEG_TAG_EXIF then
    pure (false, s)
  else do
    let tiffHdr := data + 6
    let marker ← readU16 memory tiffHdr
    match byteOrder marker with
    | none => pure (false, s)
    | some tiffBigEndian =>
        readDirectories memory internalBufferAddr tiffHdr dataLength tiffBigEndian s

end Code

/-! ### The same parser -/

section Values

variable {memory : Memory} {internalBufferAddr tiffHdr data : Address} {dataLength : U32}
  {tiffBigEndian : Bool} {s : State}

@[simp]
theorem Reads.value_bind {α β : Type} {first : Reads α} {later : α → Reads β} :
    (first >>= later).value = (later first.value).value := rfl

theorem Reads.bytes_bind {α β : Type} {first : Reads α} {later : α → Reads β} :
    (first >>= later).bytes = first.bytes ++ (later first.value).bytes := rfl

@[simp]
theorem Reads.value_pure {α : Type} {value : α} : (pure value : Reads α).value = value := rfl

@[simp]
theorem Reads.value_ite {α : Type} {p : Prop} [Decidable p] {yes no : Reads α} :
    (if p then yes else no).value = if p then yes.value else no.value :=
  apply_ite Reads.value p yes no

theorem Reads.bytes_ite {α : Type} {p : Prop} [Decidable p] {yes no : Reads α} :
    (if p then yes else no).bytes = if p then yes.bytes else no.bytes :=
  apply_ite Reads.bytes p yes no

@[simp]
theorem value_readShort : (readShort memory tiffBigEndian data).value =
    tiffEndianChangeS tiffBigEndian (getU16 memory data) := rfl

@[simp]
theorem value_readLong : (readLong memory tiffBigEndian data).value =
    tiffEndianChangeL tiffBigEndian (getU32 memory data) := rfl

theorem value_readEntries {count : Nat} {nextIfd : Address} :
    (readEntries memory tiffBigEndian count nextIfd).value =
      ifdEntries memory tiffBigEndian count nextIfd := by
  induction count generalizing nextIfd with
  | zero => rfl
  | succ count inductionHypothesis =>
      rw [ifdEntries, ← inductionHypothesis]
      rfl

theorem value_readNextIfd :
    (readNextIfd memory internalBufferAddr tiffHdr dataLength tiffBigEndian).value =
      nextIfd memory internalBufferAddr tiffHdr dataLength tiffBigEndian := by
  unfold readNextIfd nextIfd
  rw [Reads.value_bind, value_readShort]
  dsimp only
  rw [Reads.value_ite, Reads.value_bind, readFirstIfd, Reads.value_bind, value_readShort,
    value_readLong]
  rw [Reads.value_ite, Reads.value_bind, value_readLong]
  rw [Reads.value_ite, readSecondIfd, Reads.value_bind, value_readShort]
  dsimp only
  rw [Reads.value_ite]
  rfl

/-- What is recorded does not change what the parser finds out. -/
theorem value_readExifInfo :
    (readExifInfo memory internalBufferAddr data dataLength s).value =
      decodeExifInfo memory internalBufferAddr data dataLength s := by
  unfold readExifInfo decodeExifInfo
  rw [Reads.value_bind, Reads.value_ite]
  congr 1
  dsimp only
  rw [Reads.value_bind]
  change (match byteOrder (getU16 memory (data + 6)) with
    | none => pure (false, s)
    | some tiffBigEndian =>
        readDirectories memory internalBufferAddr (data + 6) dataLength tiffBigEndian s
      : Reads (Bool × State)).value = _
  cases byteOrder (getU16 memory (data + 6)) with
  | none => rfl
  | some tiffBigEndian =>
      dsimp only
      rw [readDirectories, Reads.value_bind, value_readNextIfd]
      cases nextIfd memory internalBufferAddr (data + 6) dataLength tiffBigEndian with
      | none => rfl
      | some found =>
          dsimp only
          rw [Reads.value_bind, value_readEntries]
          rfl

end Values

section Places

variable {internalBufferAddr place : Address} {length : Nat}

/-- Bytes of the first `length` ones of the internal buffer. -/
def Inside (internalBufferAddr : Address) (length : Nat) (bytes : List Address) : Prop :=
  ∀ byte ∈ bytes, (byte - internalBufferAddr).toNat < length

theorem inside_nil : Inside internalBufferAddr length [] := by
  simp [Inside]

theorem inside_append {first second : List Address} :
    Inside internalBufferAddr length (first ++ second) ↔
      Inside internalBufferAddr length first ∧ Inside internalBufferAddr length second :=
  List.forall_mem_append

/-- The bytes of a value, the last one first; none of them is behind a wrap-around. -/
theorem inside_short (small : length ≤ 65533) :
    Inside internalBufferAddr length [internalBufferAddr + place + 1, internalBufferAddr + place] ↔
      place.toNat + 2 ≤ length := by
  have last : internalBufferAddr + place + 1 - internalBufferAddr = place + 1 := by bv_omega
  have first : internalBufferAddr + place - internalBufferAddr = place := by bv_omega
  simp only [Inside, List.forall_mem_cons, last, first, BitVec.toNat_add]
  have bound := place.isLt
  simp
  omega

theorem inside_long (small : length ≤ 65533) :
    Inside internalBufferAddr length
        [internalBufferAddr + place + 3, internalBufferAddr + place + 2,
          internalBufferAddr + place + 1, internalBufferAddr + place] ↔
      place.toNat + 4 ≤ length := by
  have three : internalBufferAddr + place + 3 - internalBufferAddr = place + 3 := by bv_omega
  have two : internalBufferAddr + place + 2 - internalBufferAddr = place + 2 := by bv_omega
  have one : internalBufferAddr + place + 1 - internalBufferAddr = place + 1 := by bv_omega
  have zero : internalBufferAddr + place - internalBufferAddr = place := by bv_omega
  simp only [Inside, List.forall_mem_cons, three, two, one, zero, BitVec.toNat_add]
  have bound := place.isLt
  simp
  omega

end Places

/-! ### The segments that are long enough -/

section Segments

variable (segment : Segment) (internalBufferAddr : Address)

/-- The call for a segment with the bytes that it reads. -/
def Segment.read (s : State) : Reads (Bool × State) :=
  readExifInfo (segment.stored internalBufferAddr) internalBufferAddr internalBufferAddr
    segment.dataLength s

def Segment.tag : U32 :=
  getU32 (segment.stored internalBufferAddr) internalBufferAddr

def Segment.order : Option Bool :=
  byteOrder (getU16 (segment.stored internalBufferAddr) (internalBufferAddr + 6))

variable (tiffBigEndian : Bool)

def Segment.shortAt (place : U32) : U16 :=
  tiffEndianChangeS tiffBigEndian
    (getU16 (segment.stored internalBufferAddr) (internalBufferAddr + place))

def Segment.longAt (place : U32) : U32 :=
  tiffEndianChangeL tiffBigEndian
    (getU32 (segment.stored internalBufferAddr) (internalBufferAddr + place))

/-- The number of entries of a second directory is in the segment. -/
def Segment.HoldsSecondIfd (offset : U32) : Prop :=
  offset ≠ 0 → (6 + offset).toNat + 2 ≤ segment.bytes.length

/-- The number of entries of a first directory is in the segment, and unless the entries reach
up to its end, so is the whole word behind them. -/
def Segment.HoldsFirstIfd (len : U16) : Prop :=
  let numOfEntry := segment.shortAt internalBufferAddr tiffBigEndian (6 + len.setWidth 32)
  8 + len.toNat ≤ segment.bytes.length ∧
    (8 + len.toNat + 12 * numOfEntry.toNat < segment.bytes.length →
      12 + len.toNat + 12 * numOfEntry.toNat ≤ segment.bytes.length ∧
      segment.HoldsSecondIfd (segment.longAt internalBufferAddr tiffBigEndian
        (8 + len.setWidth 32 + 12 * numOfEntry.setWidth 32)))

def Segment.HoldsDirectories : Prop :=
  10 ≤ segment.bytes.length ∧
    (segment.shortAt internalBufferAddr tiffBigEndian 8 = 0x002A →
      14 ≤ segment.bytes.length ∧
      segment.HoldsFirstIfd internalBufferAddr tiffBigEndian
        ((segment.longAt internalBufferAddr tiffBigEndian 10).setWidth 16))

/-- A segment that ends behind all that the parser looks at in front of the entries of the second
directory. -/
def Segment.LongEnough : Prop :=
  4 ≤ segment.bytes.length ∧
    (segment.tag internalBufferAddr = JPEG_TAG_EXIF →
      8 ≤ segment.bytes.length ∧
      ∀ tiffBigEndian, segment.order internalBufferAddr = some tiffBigEndian →
        segment.HoldsDirectories internalBufferAddr tiffBigEndian)

end Segments

section Claim

variable {segment : Segment} {internalBufferAddr : Address} {tiffBigEndian : Bool}

theorem inside_readShort {place : U32} :
    Inside internalBufferAddr segment.bytes.length
        (readShort (segment.stored internalBufferAddr) tiffBigEndian
          (internalBufferAddr + place)).bytes ↔ place.toNat + 2 ≤ segment.bytes.length :=
  inside_short segment.short

theorem inside_readLong {place : U32} :
    Inside internalBufferAddr segment.bytes.length
        (readLong (segment.stored internalBufferAddr) tiffBigEndian
          (internalBufferAddr + place)).bytes ↔ place.toNat + 4 ≤ segment.bytes.length :=
  inside_long segment.short

/-- The boundary check covers the entries. -/
theorem inside_readEntries {count : Nat} {place : U32}
    (room : place.toNat + 12 * count ≤ segment.bytes.length) :
    Inside internalBufferAddr segment.bytes.length
      (readEntries (segment.stored internalBufferAddr) tiffBigEndian count
        (internalBufferAddr + place)).bytes := by
  have short := segment.short
  induction count generalizing place with
  | zero => exact inside_nil
  | succ count inductionHypothesis =>
      have next : internalBufferAddr + place + 12 = internalBufferAddr + (place + 12) :=
        BitVec.add_assoc _ _ _
      have word : internalBufferAddr + place + 4 = internalBufferAddr + (place + 4) :=
        BitVec.add_assoc _ _ _
      have value : internalBufferAddr + place + 8 = internalBufferAddr + (place + 8) :=
        BitVec.add_assoc _ _ _
      have later : (place + 12).toNat = place.toNat + 12 := by bv_omega
      have rest := @inductionHypothesis (place + 12) (by omega)
      rw [readEntries, next, word, value]
      refine inside_append.mpr ⟨inside_readShort.mpr (by omega), ?_⟩
      refine inside_append.mpr ⟨inside_readLong.mpr (by bv_omega), ?_⟩
      refine inside_append.mpr ⟨inside_readLong.mpr (by bv_omega), ?_⟩
      exact inside_append.mpr ⟨rest, inside_nil⟩

theorem toNat_dataLength : segment.dataLength.toNat = segment.bytes.length := by
  have short := segment.short
  rw [Segment.dataLength, BitVec.toNat_ofNat]
  omega

/-- Entries that are in the segment. -/
def Located (segment : Segment) (internalBufferAddr : Address) (found : Option (Address × U16)) :
    Prop :=
  ∀ nextIfd numOfEntry, found = some (nextIfd, numOfEntry) → ∃ place : U32,
    nextIfd = internalBufferAddr + place ∧
      place.toNat + 12 * numOfEntry.toNat ≤ segment.bytes.length

theorem located_none : Located segment internalBufferAddr none := by
  intro nextIfd numOfEntry found
  cases found

theorem inside_readSecondIfd {offset : U32} :
    Inside internalBufferAddr segment.bytes.length
        (readSecondIfd (segment.stored internalBufferAddr) internalBufferAddr
          (internalBufferAddr + 6 + offset) segment.dataLength tiffBigEndian).bytes ↔
      (6 + offset).toNat + 2 ≤ segment.bytes.length := by
  rw [BitVec.add_assoc, ← @inside_readShort segment internalBufferAddr tiffBigEndian (6 + offset)]
  refine inside_append.trans (and_iff_left ?_)
  dsimp only
  split
  · exact inside_nil
  · exact inside_nil

theorem located_readSecondIfd {offset : U32}
    (inside : (6 + offset).toNat + 2 ≤ segment.bytes.length) :
    Located segment internalBufferAddr
      (readSecondIfd (segment.stored internalBufferAddr) internalBufferAddr
        (internalBufferAddr + 6 + offset) segment.dataLength tiffBigEndian).value := by
  have short := segment.short
  have length := @toNat_dataLength segment
  rw [readSecondIfd, Reads.value_bind]
  generalize (readShort _ _ _).value = numOfEntry
  have few := numOfEntry.isLt
  dsimp only
  split
  · exact located_none
  · rename_i within
    intro nextIfd count found
    obtain ⟨rfl, rfl⟩ := Prod.mk.inj (Option.some.inj found)
    refine ⟨6 + offset + 2, ?_, ?_⟩
    · rw [BitVec.add_assoc, BitVec.add_assoc, BitVec.add_assoc]
    · have place : internalBufferAddr + 6 + offset + 2 - internalBufferAddr = 6 + offset + 2 := by
        bv_omega
      have behind : (6 + offset + 2).toNat = (6 + offset).toNat + 2 := by bv_omega
      have entries : (numOfEntry.setWidth 32 * 12 : U32).toNat = numOfEntry.toNat * 12 := by
        rw [BitVec.toNat_mul, BitVec.toNat_setWidth]
        simp
        omega
      rw [place, BitVec.not_le, BitVec.lt_def, BitVec.toNat_add, entries, length, behind] at within
      omega

/-- The places of the first directory as numbers. -/
theorem firstIfd_places (len count : U16) :
    (6 + len.setWidth 32 : U32).toNat = 6 + len.toNat ∧
      internalBufferAddr + (6 + len.setWidth 32) + 2 - internalBufferAddr +
        count.setWidth 32 * 12 = 8 + len.setWidth 32 + 12 * count.setWidth 32 ∧
      internalBufferAddr + (6 + len.setWidth 32) + 2 + 12 * count.setWidth 32 =
        internalBufferAddr + (8 + len.setWidth 32 + 12 * count.setWidth 32) ∧
      (8 + len.setWidth 32 + 12 * count.setWidth 32 : U32).toNat =
        8 + len.toNat + 12 * count.toNat := by
  have lenBound := len.isLt
  have countBound := count.isLt
  have entries : (12 * count.setWidth 32 : U32).toNat = 12 * count.toNat := by
    rw [BitVec.toNat_mul, BitVec.toNat_setWidth]
    simp
    omega
  have wide : (len.setWidth 32 : U32).toNat = len.toNat := by
    rw [BitVec.toNat_setWidth]
    omega
  have commuted : (count.setWidth 32 * 12 : U32) = 12 * count.setWidth 32 := BitVec.mul_comm _ _
  rw [commuted]
  generalize (12 * count.setWidth 32 : U32) = size at entries ⊢
  generalize (len.setWidth 32 : U32) = offset at wide ⊢
  refine ⟨by bv_omega, by bv_omega, by bv_omega, by bv_omega⟩

theorem readFirstIfd_spec {len : U16} :
    let read := readFirstIfd (segment.stored internalBufferAddr) internalBufferAddr
      (internalBufferAddr + 6) (internalBufferAddr + (6 + len.setWidth 32)) segment.dataLength
      tiffBigEndian
    (Inside internalBufferAddr segment.bytes.length read.bytes ↔
        segment.HoldsFirstIfd internalBufferAddr tiffBigEndian len) ∧
      (segment.HoldsFirstIfd internalBufferAddr tiffBigEndian len →
        Located segment internalBufferAddr read.value) := by
  have length := @toNat_dataLength segment
  have count : (readShort (segment.stored internalBufferAddr) tiffBigEndian
      (internalBufferAddr + (6 + len.setWidth 32))).value =
        segment.shortAt internalBufferAddr tiffBigEndian (6 + len.setWidth 32) := rfl
  dsimp only [readFirstIfd]
  rw [Reads.value_bind, Reads.bytes_bind, inside_append, inside_readShort, count,
    Segment.HoldsFirstIfd]
  generalize segment.shortAt internalBufferAddr tiffBigEndian (6 + len.setWidth 32) = numOfEntry
  obtain ⟨front, check, behind, number⟩ := @firstIfd_places internalBufferAddr len numOfEntry
  have offset : (readLong (segment.stored internalBufferAddr) tiffBigEndian
      (internalBufferAddr + (8 + len.setWidth 32 + 12 * numOfEntry.setWidth 32))).value =
        segment.longAt internalBufferAddr tiffBigEndian
          (8 + len.setWidth 32 + 12 * numOfEntry.setWidth 32) := rfl
  rw [front, check, behind, Reads.value_ite, Reads.bytes_ite, Reads.value_bind,
    Reads.bytes_bind, offset]
  split
  · rename_i beyond
    rw [BitVec.le_def, number, length] at beyond
    refine ⟨?_, fun _ => located_none⟩
    constructor
    · intro ⟨room, _⟩
      exact ⟨by omega, fun within => absurd within (by omega)⟩
    · intro ⟨room, _⟩
      exact ⟨by omega, inside_nil⟩
  · rename_i within
    rw [BitVec.le_def, number, length] at within
    rw [inside_append, inside_readLong, number, Segment.HoldsSecondIfd]
    generalize segment.longAt internalBufferAddr tiffBigEndian _ = offset
    rw [Reads.value_ite, Reads.bytes_ite]
    split
    · rename_i zero
      refine ⟨?_, fun _ => located_none⟩
      constructor
      · intro ⟨room, word, _⟩
        exact ⟨by omega, fun _ => ⟨by omega, fun some => absurd zero some⟩⟩
      · intro ⟨room, later⟩
        exact ⟨by omega, by have := (later (by omega)).1; omega, inside_nil⟩
    · rename_i some
      rw [inside_readSecondIfd]
      constructor
      · constructor
        · intro ⟨room, word, second⟩
          exact ⟨by omega, fun _ => ⟨by omega, fun _ => second⟩⟩
        · intro ⟨room, later⟩
          obtain ⟨word, second⟩ := later (by omega)
          exact ⟨by omega, by omega, second some⟩
      · intro ⟨_, later⟩
        exact located_readSecondIfd ((later (by omega)).2 some)

theorem readNextIfd_spec :
    let read := readNextIfd (segment.stored internalBufferAddr) internalBufferAddr
      (internalBufferAddr + 6) segment.dataLength tiffBigEndian
    (Inside internalBufferAddr segment.bytes.length read.bytes ↔
        segment.HoldsDirectories internalBufferAddr tiffBigEndian) ∧
      (segment.HoldsDirectories internalBufferAddr tiffBigEndian →
        Located segment internalBufferAddr read.value) := by
  have number : internalBufferAddr + 6 + 2 = internalBufferAddr + 8 := BitVec.add_assoc _ _ _
  have word : internalBufferAddr + 8 + 2 = internalBufferAddr + 10 := BitVec.add_assoc _ _ _
  have marker : (readShort (segment.stored internalBufferAddr) tiffBigEndian
      (internalBufferAddr + 8)).value =
        segment.shortAt internalBufferAddr tiffBigEndian 8 := rfl
  have offset : (readLong (segment.stored internalBufferAddr) tiffBigEndian
      (internalBufferAddr + 10)).value =
        segment.longAt internalBufferAddr tiffBigEndian 10 := rfl
  dsimp only [readNextIfd]
  rw [number, word, Reads.value_bind, Reads.bytes_bind, inside_append, inside_readShort, marker,
    Segment.HoldsDirectories, Reads.value_ite, Reads.bytes_ite, Reads.value_bind,
    Reads.bytes_bind, offset]
  split
  · rename_i other
    refine ⟨?_, fun _ => located_none⟩
    constructor
    · intro ⟨room, _⟩
      exact ⟨room, fun same => absurd same other⟩
    · intro ⟨room, _⟩
      exact ⟨room, inside_nil⟩
  · rename_i same
    have place : ∀ len : U16, internalBufferAddr + 10 + (len.setWidth 32 - 4) =
        internalBufferAddr + (6 + len.setWidth 32) := by
      intro len
      generalize (len.setWidth 32 : U32) = offset
      bv_omega
    obtain ⟨inside, located⟩ := @readFirstIfd_spec segment internalBufferAddr tiffBigEndian
      ((segment.longAt internalBufferAddr tiffBigEndian 10).setWidth 16)
    rw [inside_append, inside_readLong, place, inside]
    constructor
    · constructor
      · intro ⟨room, later⟩
        exact ⟨room, fun _ => later⟩
      · intro ⟨room, later⟩
        exact ⟨room, later (not_not.mp same)⟩
    · intro ⟨_, later⟩
      exact located (later (not_not.mp same)).2

theorem inside_readDirectories {s : State} :
    Inside internalBufferAddr segment.bytes.length
        (readDirectories (segment.stored internalBufferAddr) internalBufferAddr
          (internalBufferAddr + 6) segment.dataLength tiffBigEndian s).bytes ↔
      segment.HoldsDirectories internalBufferAddr tiffBigEndian := by
  obtain ⟨inside, located⟩ := @readNextIfd_spec segment internalBufferAddr tiffBigEndian
  refine inside_append.trans ?_
  rw [inside]
  refine and_iff_left_of_imp ?_
  intro holds
  have found := located holds
  cases value : (readNextIfd (segment.stored internalBufferAddr) internalBufferAddr
      (internalBufferAddr + 6) segment.dataLength tiffBigEndian).value with
  | none => exact inside_nil
  | some entries =>
      obtain ⟨nextIfd, numOfEntry⟩ := entries
      obtain ⟨place, rfl, room⟩ := found nextIfd numOfEntry value
      exact inside_append.mpr ⟨inside_readEntries room, inside_nil⟩

/-- All bytes that the parser reads are in the segment just if it is long enough. -/
theorem exifReads_inside_iff (segment : Segment) (internalBufferAddr : Address) (s : State) :
    (∀ byte ∈ (segment.read internalBufferAddr s).bytes,
        (byte - internalBufferAddr).toNat < segment.bytes.length) ↔
      segment.LongEnough internalBufferAddr := by
  have start : internalBufferAddr + 0 = internalBufferAddr := BitVec.add_zero _
  have tagBytes := @inside_readLong segment internalBufferAddr false 0
  rw [start] at tagBytes
  change Inside internalBufferAddr segment.bytes.length
    (segment.read internalBufferAddr s).bytes ↔ _
  rw [Segment.LongEnough, Segment.read, readExifInfo, Reads.bytes_bind, inside_append]
  refine and_congr tagBytes ?_
  rw [Reads.bytes_ite]
  change Inside _ _ (if segment.tag internalBufferAddr ≠ JPEG_TAG_EXIF then _ else _) ↔ _
  split
  · rename_i other
    exact ⟨fun _ same => absurd same other, fun _ => inside_nil⟩
  · rename_i same
    rw [Reads.bytes_bind, inside_append]
    have orderBytes := @inside_readShort segment internalBufferAddr false 6
    rw [forall_prop_of_true (not_not.mp same)]
    refine and_congr orderBytes ?_
    change Inside _ _ (match segment.order internalBufferAddr with
      | none => pure (false, s)
      | some tiffBigEndian =>
          readDirectories (segment.stored internalBufferAddr) internalBufferAddr
            (internalBufferAddr + 6) segment.dataLength tiffBigEndian s
        : Reads (Bool × State)).bytes ↔ _
    cases segment.order internalBufferAddr with
    | none =>
        refine ⟨?_, fun _ => inside_nil⟩
        intro _ _ named
        cases named
    | some tiffBigEndian =>
        rw [inside_readDirectories]
        constructor
        · intro holds _ named
          cases named
          exact holds
        · intro holds
          exact holds tiffBigEndian (Eq.refl _)

/-- A segment that ends behind the place of its first directory, which is far away. -/
def farSegment : Segment where
  memory := fun _ => 0
  bytes := [0x45, 0x78, 0x69, 0x66, 0, 0, 0x4D, 0x4D, 0, 0x2A, 0, 0, 0xFF, 0xFF]
  short := by decide

/-- The number of its entries is read 64 kilobytes behind the segment. -/
theorem exifReads_not_always_inside :
    ¬ ∀ (segment : Segment) (internalBufferAddr : Address) (s : State),
      ∀ byte ∈ (segment.read internalBufferAddr s).bytes,
        (byte - internalBufferAddr).toNat < segment.bytes.length := by
  intro always
  have read : (0x11005 : Address) ∈ (farSegment.read 0x1000 State.init).bytes := by
    decide +kernel
  exact absurd (always farSegment 0x1000 State.init _ read) (by decide)

end Claim

end Gp2Firmware.Jpeg.Thumbnail
