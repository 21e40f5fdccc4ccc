import Mathlib.Algebra.BigOperators.Group.List.Basic
import Mathlib.Data.List.Induction
import Mathlib.Tactic.Common
import Gp2Firmware.Lib.Run
import Gp2Firmware.Lib.WordMemory
import Mathlib.Data.BitVec

/-!
# The thumbnail of an Exif segment

The decoder copies an APP1 segment into its internal buffer and looks there for
the place and the size of a thumbnail.  Both are kept in variables that the next
segment finds as this one leaves them.
-/

namespace Gp2Firmware.Jpeg.Thumbnail

open Gp2Firmware.Lib.WordMemory

abbrev U8 := BitVec 8
abbrev U16 := BitVec 16
abbrev U32 := BitVec 32

def EndianChangeL (x : U32) : U32 :=
  ((x &&& 0xff) <<< 24) ||| ((x &&& 0xff00) <<< 8) ||| ((x &&& 0xff0000) >>> 8) |||
    ((x &&& 0xff000000) >>> 24)

def EndianChangeS (x : U16) : U16 :=
  ((x &&& 0xff) <<< 8) ||| ((x &&& 0xff00) >>> 8)

def JPEG_TAG_EXIF : U32 := EndianChangeL 0x45786966
def JPEG_TIFF_SOI_OFFSET : U16 := 0x0201
def JPEG_TIFF_JPEG_IMG_BYTES : U16 := 0x0202
def JPEG_TIFF_BIG_ENDIAN : U16 := 0x4D4D
def JPEG_TIFF_LITTLE_ENDIAN : U16 := 0x4949

/-- What is known of the thumbnail, and the place that it is read from. -/
structure State where
  thumbnailFound : Bool
  thumbnailOffset : U32
  thumbnailSize : U16
  tiffBigEndian : Bool
  thumbnailBufferOffset : U32
  thumbnailBufferSize : U32
  deriving DecidableEq, Repr

def State.init : State :=
  ⟨false, 0, 0, false, 0, 0⟩

section Code

variable (memory : Memory)

def getU16 (data : Address) : U16 :=
  [1, 0].foldl (fun val i => (val <<< 8) + (memory (data + i)).setWidth 16) 0

def getU32 (data : Address) : U32 :=
  [3, 2, 1, 0].foldl (fun val i => (val <<< 8) + (memory (data + i)).setWidth 32) 0

def tiffEndianChangeL (tiffBigEndian : Bool) (val : U32) : U32 :=
  if tiffBigEndian then EndianChangeL val else val

def tiffEndianChangeS (tiffBigEndian : Bool) (val : U16) : U16 :=
  if tiffBigEndian then EndianChangeS val else val

/-- The byte order that a TIFF header names. -/
def byteOrder (marker : U16) : Option Bool :=
  if marker = JPEG_TIFF_BIG_ENDIAN then some true
  else if marker = JPEG_TIFF_LITTLE_ENDIAN then some false
  else none

/-- The entries of the first directory and their number, behind the checks of the header;
nothing if one of them fails. -/
def nextIfd (internalBufferAddr tiffHdr : Address) (dataLength : U32) (tiffBigEndian : Bool) :
    Option (Address × U16) :=
  let short p := tiffEndianChangeS tiffBigEndian (getU16 memory p)
  let long p := tiffEndianChangeL tiffBigEndian (getU32 memory p)
  let jpegBuff := tiffHdr + 2
  if short jpegBuff ≠ 0x002A then
    none
  else
    let jpegBuff := jpegBuff + 2
    let len : U16 := (long jpegBuff).setWidth 16
    let jpegBuff := jpegBuff + (len.setWidth 32 - 4)
    let numOfEntry := short jpegBuff
    let jpegBuff := jpegBuff + 2
    if dataLength ≤ jpegBuff - internalBufferAddr + numOfEntry.setWidth 32 * 12 then
      none
    else
      let jpegBuff := jpegBuff + 12 * numOfEntry.setWidth 32
      let offset := long jpegBuff
      if offset = 0 then
        none
      else
        let nextIfd := tiffHdr + offset
        let numOfEntry := short nextIfd
        let nextIfd := nextIfd + 2
        if dataLength ≤ nextIfd - internalBufferAddr + numOfEntry.setWidth 32 * 12 then
          none
        else
          some (nextIfd, numOfEntry)

/-- The tags and the values of entries one behind the other. -/
def ifdEntries (tiffBigEndian : Bool) : Nat → Address → List (U16 × U32)
  | 0, _ => []
  | count + 1, nextIfd =>
      (tiffEndianChangeS tiffBigEndian (getU16 memory nextIfd),
        tiffEndianChangeL tiffBigEndian (getU32 memory (nextIfd + 8))) ::
        ifdEntries tiffBigEndian count (nextIfd + 12)

/-- A turn of the loop over the entries. -/
def takeEntry (s : State) (entry : U16 × U32) : State :=
  if entry.1 = JPEG_TIFF_JPEG_IMG_BYTES then
    { s with thumbnailSize := entry.2.setWidth 16 }
  else if entry.1 = JPEG_TIFF_SOI_OFFSET then
    { s with thumbnailFound := true, thumbnailOffset := s.thumbnailOffset + entry.2 }
  else
    s

/-- The checks behind the loop. -/
def checkWindow (dataLength : U32) (s : State) : State :=
  if s.thumbnailFound then
    let s :=
      if dataLength < s.thumbnailOffset + s.thumbnailSize.setWidth 32 then
        { s with thumbnailFound := false }
      else
        s
    if s.thumbnailSize ≤ 2 then { s with thumbnailFound := false } else s
  else
    s

def decodeExifInfo (internalBufferAddr data : Address) (dataLength : U32) (s : State) :
    Bool × State :=
  if getU32 memory data ≠ JPEG_TAG_EXIF then
    (false, s)
  else
    let tiffHdr := data + 6
    match byteOrder (getU16 memory tiffHdr) with
    | none => (false, s)
    | some tiffBigEndian =>
        let s := { s with
          tiffBigEndian := tiffBigEndian, thumbnailOffset := s.thumbnailOffset + 6 }
        match nextIfd memory internalBufferAddr tiffHdr dataLength tiffBigEndian with
        | none => (false, s)
        | some (nextIfd, numOfEntry) =>
            let entries := ifdEntries memory tiffBigEndian numOfEntry.toNat nextIfd
            let s := checkWindow dataLength (entries.foldl takeEntry s)
            (s.thumbnailFound, s)

end Code

/-- A segment: what the memory holds in front of it, and its bytes behind the length. -/
structure Segment where
  memory : Memory
  bytes : List U8
  short : bytes.length ≤ 65533

section Segments

variable (internalBufferAddr : Address)

/-- The memory with the segment in the internal buffer. -/
def Segment.stored (segment : Segment) : Memory :=
  putBytes segment.memory internalBufferAddr segment.bytes

def Segment.dataLength (segment : Segment) : U32 :=
  BitVec.ofNat 32 segment.bytes.length

/-- The call for a segment. -/
def Segment.decode (segment : Segment) (s : State) : Bool × State :=
  decodeExifInfo (segment.stored internalBufferAddr) internalBufferAddr internalBufferAddr
    segment.dataLength s

def readApp1Marker (s : State) (segment : Segment) : State :=
  let (found, s) := segment.decode internalBufferAddr s
  if found then
    { s with
      thumbnailBufferOffset := s.thumbnailOffset
      thumbnailBufferSize := s.thumbnailSize.setWidth 32 }
  else
    s

/-- An APP1 marker while the thumbnail is looked for. -/
def processApp1 (s : State) (segment : Segment) : State :=
  if s.thumbnailFound = false then readApp1Marker internalBufferAddr s segment else s

/-- The segment has the tag and a TIFF header with a byte order. -/
def Segment.HasHeader (segment : Segment) : Prop :=
  getU32 (segment.stored internalBufferAddr) internalBufferAddr = JPEG_TAG_EXIF ∧
    byteOrder (getU16 (segment.stored internalBufferAddr) (internalBufferAddr + 6)) ≠ none

/-- The entries of the segment that are searched for the thumbnail; nothing if a check in
front of them fails. -/
def Segment.entries (segment : Segment) : Option (List (U16 × U32)) :=
  let memory := segment.stored internalBufferAddr
  let tiffHdr := internalBufferAddr + 6
  (byteOrder (getU16 memory tiffHdr)).bind fun tiffBigEndian =>
    (nextIfd memory internalBufferAddr tiffHdr segment.dataLength tiffBigEndian).map
      fun (nextIfd, numOfEntry) => ifdEntries memory tiffBigEndian numOfEntry.toNat nextIfd

/-- The values of the entries for the offset. -/
def soiOffsets (entries : List (U16 × U32)) : List U32 :=
  (entries.filter fun entry => entry.1 = JPEG_TIFF_SOI_OFFSET).map (·.2)

/-- The size that the last entry for it gives, or the one before. -/
def imgBytes (entries : List (U16 × U32)) (before : U16) : U16 :=
  ((entries.filter fun entry => entry.1 = JPEG_TIFF_JPEG_IMG_BYTES).getLast?.map
    fun entry => entry.2.setWidth 16).getD before

/-- A window inside of the segment, at the place that the segment gives; and a call without
a thumbnail leaves things as they were. -/
def Good (s : State) (segment : Segment) : Prop :=
  s.thumbnailFound = false →
    ((segment.decode internalBufferAddr s).2.thumbnailFound = true →
      (segment.decode internalBufferAddr s).2.thumbnailOffset.toNat +
          (segment.decode internalBufferAddr s).2.thumbnailSize.toNat ≤
        segment.dataLength.toNat ∧
      ∃ entries, segment.entries internalBufferAddr = some entries ∧
        ∃ offset ∈ soiOffsets entries,
          (segment.decode internalBufferAddr s).2.thumbnailOffset.toNat = 6 + offset.toNat) ∧
    ((segment.decode internalBufferAddr s).1 = false →
      (segment.decode internalBufferAddr s).2.thumbnailOffset = s.thumbnailOffset ∧
        (segment.decode internalBufferAddr s).2.thumbnailSize = s.thumbnailSize ∧
        (segment.decode internalBufferAddr s).2.thumbnailFound = s.thumbnailFound)

/-- A thumbnail of more than two bytes inside of the segment, with one offset. -/
def Segment.Usable (segment : Segment) : Prop :=
  segment.HasHeader internalBufferAddr ∧
    ∃ entries, segment.entries internalBufferAddr = some entries ∧ 2 < imgBytes entries 0 ∧
      ∃ offset ∈ soiOffsets entries, (soiOffsets entries).sum = offset ∧
        6 + offset.toNat + (imgBytes entries 0).toNat ≤ segment.dataLength.toNat

/-- No header; or offsets that take back the one of the header, and no size. -/
def Segment.Harmless (segment : Segment) : Prop :=
  segment.HasHeader internalBufferAddr →
    ∃ entries, segment.entries internalBufferAddr = some entries ∧
      (soiOffsets entries).sum = -6 ∧ imgBytes entries 0 = 0

/-- Harmless segments, up to one with a thumbnail if there is one. -/
def Clean : List Segment → Prop
  | [] => True
  | segment :: rest =>
      segment.Usable internalBufferAddr ∨ segment.Harmless internalBufferAddr ∧ Clean rest

end Segments

section Entries

variable {entries : List (U16 × U32)} {s : State}

/-- What the loop over the entries finds. -/
theorem foldl_takeEntry :
    (entries.foldl takeEntry s).thumbnailOffset = s.thumbnailOffset + (soiOffsets entries).sum ∧
      (entries.foldl takeEntry s).thumbnailSize = imgBytes entries s.thumbnailSize ∧
      (entries.foldl takeEntry s).thumbnailFound =
        (s.thumbnailFound || !(soiOffsets entries).isEmpty) := by
  induction entries using List.reverseRecOn with
  | nil => simp [soiOffsets, imgBytes]
  | append_singleton entries entry inductionHypothesis =>
      obtain ⟨offset, size, found⟩ := inductionHypothesis
      rw [List.foldl_append, List.foldl_cons, List.foldl_nil, takeEntry]
      by_cases bytes : entry.1 = JPEG_TIFF_JPEG_IMG_BYTES
      · have other : entry.1 ≠ JPEG_TIFF_SOI_OFFSET := by
          rw [bytes]
          decide
        have same : soiOffsets (entries ++ [entry]) = soiOffsets entries := by
          simp [soiOffsets, other]
        rw [if_pos bytes, same]
        exact ⟨offset, by simp [imgBytes, bytes], found⟩
      · have same : imgBytes (entries ++ [entry]) s.thumbnailSize =
            imgBytes entries s.thumbnailSize := by
          simp [imgBytes, bytes]
        rw [if_neg bytes, same]
        by_cases soi : entry.1 = JPEG_TIFF_SOI_OFFSET
        · have more : soiOffsets (entries ++ [entry]) = soiOffsets entries ++ [entry.2] := by
            simp [soiOffsets, soi]
          rw [if_pos soi, more, List.sum_append, List.sum_singleton, ← BitVec.add_assoc, ← offset]
          exact ⟨rfl, size, by simp⟩
        · have less : soiOffsets (entries ++ [entry]) = soiOffsets entries := by
            simp [soiOffsets, soi]
          rw [if_neg soi, less]
          exact ⟨offset, size, found⟩

end Entries

theorem checkWindow_spec {dataLength : U32} {s : State} :
    (checkWindow dataLength s).thumbnailFound =
        decide (s.thumbnailFound = true ∧ 2 < s.thumbnailSize ∧
          s.thumbnailOffset + s.thumbnailSize.setWidth 32 ≤ dataLength) ∧
      (checkWindow dataLength s).thumbnailOffset = s.thumbnailOffset ∧
      (checkWindow dataLength s).thumbnailSize = s.thumbnailSize := by
  rw [checkWindow]
  by_cases found : s.thumbnailFound = true
  · rw [if_pos found]
    by_cases beyond : dataLength < s.thumbnailOffset + s.thumbnailSize.setWidth 32
    · have outside : ¬ s.thumbnailOffset + s.thumbnailSize.setWidth 32 ≤ dataLength :=
        BitVec.not_le.mpr beyond
      simp only [if_pos beyond, outside, and_false, decide_false]
      split
      · exact ⟨rfl, rfl, rfl⟩
      · exact ⟨rfl, rfl, rfl⟩
    · have inside : s.thumbnailOffset + s.thumbnailSize.setWidth 32 ≤ dataLength :=
        BitVec.not_lt.mp beyond
      simp only [if_neg beyond, inside, and_true, found, true_and]
      split
      · rename_i small
        exact ⟨(decide_eq_false (BitVec.not_lt.mpr small)).symm, rfl, rfl⟩
      · rename_i large
        exact ⟨found.trans (decide_eq_true (BitVec.not_le.mp large)).symm, rfl, rfl⟩
  · rw [if_neg found]
    exact ⟨by simp [found], rfl, rfl⟩

section Decode

variable {internalBufferAddr : Address} {segment : Segment} {s : State}
  {entries : List (U16 × U32)}

/-- A result of a call that only `found` and the window matter of. -/
structure Leaves (result : Bool × State) (found : Bool) (offset : U32) (size : U16) : Prop where
  returned : result.1 = found
  found_eq : result.2.thumbnailFound = found
  offset_eq : result.2.thumbnailOffset = offset
  size_eq : result.2.thumbnailSize = size

theorem decode_of_no_header (none : ¬ segment.HasHeader internalBufferAddr)
    (looking : s.thumbnailFound = false) :
    Leaves (segment.decode internalBufferAddr s) false s.thumbnailOffset s.thumbnailSize := by
  have unchanged : segment.decode internalBufferAddr s = (false, s) := by
    rw [Segment.decode, decodeExifInfo]
    split
    · rfl
    · rename_i tag
      have order : byteOrder (getU16 (segment.stored internalBufferAddr)
          (internalBufferAddr + 6)) = Option.none := by
        by_contra some
        exact none ⟨not_not.mp tag, some⟩
      simp only [order]
  rw [unchanged]
  exact ⟨rfl, looking, rfl, rfl⟩

theorem decode_of_no_entries (header : segment.HasHeader internalBufferAddr)
    (none : segment.entries internalBufferAddr = none) (looking : s.thumbnailFound = false) :
    Leaves (segment.decode internalBufferAddr s) false (s.thumbnailOffset + 6)
      s.thumbnailSize := by
  obtain ⟨tag, order⟩ := header
  obtain ⟨tiffBigEndian, named⟩ := Option.ne_none_iff_exists'.mp order
  rw [Segment.entries, named, Option.bind_some, Option.map_eq_none_iff] at none
  rw [Segment.decode, decodeExifInfo, if_neg (not_not.mpr tag)]
  simp only [named, none]
  exact ⟨rfl, looking, rfl, rfl⟩

/-- The thumbnail is found if there is an offset, a size above two, and the sum of both as
it is computed does not exceed the length. -/
theorem decode_of_entries (header : segment.HasHeader internalBufferAddr)
    (some : segment.entries internalBufferAddr = some entries)
    (looking : s.thumbnailFound = false) :
    Leaves (segment.decode internalBufferAddr s)
      (decide (soiOffsets entries ≠ [] ∧ 2 < imgBytes entries s.thumbnailSize ∧
        s.thumbnailOffset + 6 + (soiOffsets entries).sum +
          (imgBytes entries s.thumbnailSize).setWidth 32 ≤ segment.dataLength))
      (s.thumbnailOffset + 6 + (soiOffsets entries).sum) (imgBytes entries s.thumbnailSize) := by
  obtain ⟨tag, order⟩ := header
  obtain ⟨tiffBigEndian, named⟩ := Option.ne_none_iff_exists'.mp order
  rw [Segment.entries, named, Option.bind_some, Option.map_eq_some_iff] at some
  obtain ⟨⟨first, count⟩, ifd, entries_eq⟩ := some
  rw [Segment.decode, decodeExifInfo, if_neg (not_not.mpr tag)]
  simp only [named, ifd, entries_eq]
  obtain ⟨before, before_eq⟩ : ∃ before : State, before = { s with
      tiffBigEndian := tiffBigEndian, thumbnailOffset := s.thumbnailOffset + 6 } := ⟨_, rfl⟩
  rw [← before_eq]
  obtain ⟨offset, size, found⟩ := @foldl_takeEntry entries before
  generalize entries.foldl takeEntry before = later at offset size found ⊢
  simp only [before_eq, looking, Bool.false_or] at offset size found
  obtain ⟨checked, sameOffset, sameSize⟩ := @checkWindow_spec segment.dataLength later
  have some : later.thumbnailFound = true ↔ soiOffsets entries ≠ [] := by
    rw [found]
    simp
  have same : (checkWindow segment.dataLength later).thumbnailFound =
      decide (soiOffsets entries ≠ [] ∧ 2 < imgBytes entries s.thumbnailSize ∧
        s.thumbnailOffset + 6 + (soiOffsets entries).sum +
          (imgBytes entries s.thumbnailSize).setWidth 32 ≤ segment.dataLength) := by
    rw [checked, offset, size]
    exact decide_eq_decide.mpr (and_congr_left' some)
  exact ⟨same, same, sameOffset.trans offset, sameSize.trans size⟩

end Decode

section Run

variable {internalBufferAddr : Address} {segment : Segment} {s : State}

/-- No segment has left anything. -/
structure Fresh (s : State) : Prop where
  looking : s.thumbnailFound = false
  offset : s.thumbnailOffset = 0
  size : s.thumbnailSize = 0

theorem good_iff {found : Bool} {offset : U32} {size : U16} (fresh : Fresh s)
    (leaves : Leaves (segment.decode internalBufferAddr s) found offset size) :
    Good internalBufferAddr s segment ↔
      (found = true → offset.toNat + size.toNat ≤ segment.dataLength.toNat ∧
        ∃ entries, segment.entries internalBufferAddr = some entries ∧
          ∃ soi ∈ soiOffsets entries, offset.toNat = 6 + soi.toNat) ∧
      (found = false → offset = 0 ∧ size = 0) := by
  rw [Good, leaves.returned, leaves.found_eq, leaves.offset_eq, leaves.size_eq, fresh.offset,
    fresh.size, fresh.looking]
  simp only [true_implies]
  constructor
  · rintro ⟨inside, unchanged⟩
    exact ⟨inside, fun none => ⟨(unchanged none).1, (unchanged none).2.1⟩⟩
  · rintro ⟨inside, unchanged⟩
    exact ⟨inside, fun none => ⟨(unchanged none).1, (unchanged none).2, none⟩⟩

/-- The window of a usable segment is found, and no other good one is. -/
theorem usable_iff {entries : List (U16 × U32)} (header : segment.HasHeader internalBufferAddr)
    (some : segment.entries internalBufferAddr = some entries) :
    segment.Usable internalBufferAddr ↔
      (soiOffsets entries ≠ [] ∧ 2 < imgBytes entries 0 ∧
        6 + (soiOffsets entries).sum + (imgBytes entries 0).setWidth 32 ≤ segment.dataLength) ∧
      (6 + (soiOffsets entries).sum).toNat + (imgBytes entries 0).toNat ≤
          segment.dataLength.toNat ∧
        ∃ soi ∈ soiOffsets entries, (6 + (soiOffsets entries).sum).toNat = 6 + soi.toNat := by
  have bound := segment.dataLength.isLt
  constructor
  · rintro ⟨-, other, same, large, soi, member, sum, inside⟩
    cases some.symm.trans same
    have offset : (6 + (soiOffsets entries).sum).toNat = 6 + soi.toNat := by
      rw [sum]
      bv_omega
    refine ⟨⟨List.ne_nil_of_mem member, large, ?_⟩, by omega, soi, member, offset⟩
    rw [BitVec.le_def, BitVec.toNat_add, offset, BitVec.toNat_setWidth]
    omega
  · rintro ⟨⟨-, large, -⟩, inside, soi, member, offset⟩
    refine ⟨header, entries, some, large, soi, member, ?_, by omega⟩
    have := soi.isLt
    bv_omega

/-- What a call does that finds everything as it was at first. -/
theorem leaves_of_fresh (fresh : Fresh s) {entries : List (U16 × U32)}
    (header : segment.HasHeader internalBufferAddr)
    (some : segment.entries internalBufferAddr = some entries) :
    Leaves (segment.decode internalBufferAddr s)
      (decide (soiOffsets entries ≠ [] ∧ 2 < imgBytes entries 0 ∧
        6 + (soiOffsets entries).sum + (imgBytes entries 0).setWidth 32 ≤ segment.dataLength))
      (6 + (soiOffsets entries).sum) (imgBytes entries 0) := by
  have leaves := decode_of_entries header some fresh.looking
  rw [fresh.offset, fresh.size, show (0 : U32) + 6 = 6 from rfl] at leaves
  exact leaves

theorem good_iff_usable_or_harmless (fresh : Fresh s) :
    Good internalBufferAddr s segment ↔
      segment.Usable internalBufferAddr ∨ segment.Harmless internalBufferAddr := by
  by_cases header : segment.HasHeader internalBufferAddr
  · cases entries_eq : segment.entries internalBufferAddr with
    | none =>
        have leaves := decode_of_no_entries header entries_eq fresh.looking
        rw [good_iff fresh leaves, fresh.offset]
        constructor
        · rintro ⟨-, unchanged⟩
          exact absurd (unchanged rfl).1 (by decide)
        · rintro (⟨-, entries, some, -⟩ | harmless)
          · cases entries_eq.symm.trans some
          · obtain ⟨entries, some, -⟩ := harmless header
            cases entries_eq.symm.trans some
    | some entries =>
        rw [good_iff fresh (leaves_of_fresh fresh header entries_eq), usable_iff header entries_eq,
          Segment.Harmless]
        simp only [decide_eq_true_eq, decide_eq_false_iff_not, header, true_implies, entries_eq,
          Option.some.injEq, exists_eq_left']
        constructor
        · rintro ⟨inside, unchanged⟩
          by_cases found : soiOffsets entries ≠ [] ∧ 2 < imgBytes entries 0 ∧
            6 + (soiOffsets entries).sum + (imgBytes entries 0).setWidth 32 ≤ segment.dataLength
          · exact .inl ⟨found, inside found⟩
          · obtain ⟨offset, size⟩ := unchanged found
            exact .inr ⟨by bv_omega, size⟩
        · rintro (⟨found, inside⟩ | ⟨sum, size⟩)
          · exact ⟨fun _ => inside, fun not => absurd found not⟩
          · rw [size, sum]
            exact ⟨fun found => absurd found.2.1 (by decide), fun _ => ⟨by decide, rfl⟩⟩
  · have leaves := decode_of_no_header header fresh.looking
    rw [good_iff fresh leaves]
    constructor
    · intro _
      exact .inr fun has => absurd has header
    · intro _
      exact ⟨by simp, fun _ => ⟨fresh.offset, fresh.size⟩⟩

theorem found_of_usable (fresh : Fresh s) (usable : segment.Usable internalBufferAddr) :
    (processApp1 internalBufferAddr s segment).thumbnailFound = true := by
  obtain ⟨header, entries, some, -⟩ := id usable
  have leaves := leaves_of_fresh fresh header some
  rw [decide_eq_true ((usable_iff header some).mp usable).1] at leaves
  rw [processApp1, if_pos fresh.looking, readApp1Marker]
  simp only [leaves.returned, if_true]
  exact leaves.found_eq

theorem fresh_of_harmless (fresh : Fresh s) (harmless : segment.Harmless internalBufferAddr) :
    Fresh (processApp1 internalBufferAddr s segment) := by
  have leaves : Leaves (segment.decode internalBufferAddr s) false 0 0 := by
    by_cases header : segment.HasHeader internalBufferAddr
    · obtain ⟨entries, some, sum, size⟩ := harmless header
      have leaves := leaves_of_fresh fresh header some
      rw [sum, size, decide_eq_false (by simp)] at leaves
      exact leaves
    · have leaves := decode_of_no_header header fresh.looking
      rw [fresh.offset, fresh.size] at leaves
      exact leaves
  rw [processApp1, if_pos fresh.looking, readApp1Marker]
  simp only [leaves.returned]
  exact ⟨leaves.found_eq, leaves.offset_eq, leaves.size_eq⟩

/-- Every call of a run is good just if the segments are harmless up to one with a
thumbnail. -/
theorem meets_good_iff_clean {segments : List Segment} :
    Run.Meets (processApp1 internalBufferAddr) (Good internalBufferAddr) State.init segments ↔
      Clean internalBufferAddr segments := by
  have found : ∀ {s : State}, s.thumbnailFound = true → ∀ segments,
      Run.Meets (processApp1 internalBufferAddr) (Good internalBufferAddr) s segments := by
    intro s known segments
    induction segments with
    | nil => trivial
    | cons segment rest inductionHypothesis =>
        refine ⟨fun looking => absurd (looking.symm.trans known) (by decide), ?_⟩
        rw [processApp1, if_neg (by simp [known])]
        exact inductionHypothesis
  have fresh : Fresh State.init := ⟨rfl, rfl, rfl⟩
  generalize State.init = s at fresh
  induction segments generalizing s with
  | nil => exact Iff.rfl
  | cons segment rest inductionHypothesis =>
      rw [Run.Meets, Clean, good_iff_usable_or_harmless fresh]
      constructor
      · rintro ⟨usable | harmless, later⟩
        · exact .inl usable
        · exact .inr ⟨harmless,
            (inductionHypothesis _ (fresh_of_harmless fresh harmless)).mp later⟩
      · rintro (usable | ⟨harmless, later⟩)
        · exact ⟨.inl usable, found (found_of_usable fresh usable) rest⟩
        · exact ⟨.inr harmless,
            (inductionHypothesis _ (fresh_of_harmless fresh harmless)).mpr later⟩

/-- A segment with a header and one directory, which has no entries. -/
def emptySegment : Segment where
  memory := fun _ => 0
  bytes := [0x45, 0x78, 0x69, 0x66, 0, 0, 0x4D, 0x4D, 0, 0x2A, 0, 0, 0, 8, 0, 0, 0, 0, 0, 0]
  short := by decide

/-- The segment without a thumbnail moves the offset of the next one. -/
theorem not_always_good :
    ¬ ∀ segments, Run.Meets (processApp1 0x1000) (Good 0x1000) State.init segments := by
  intro always
  have unchanged := ((always [emptySegment]).1 rfl).2 (by decide +kernel)
  exact absurd unchanged.1 (by decide +kernel)

end Run

end Gp2Firmware.Jpeg.Thumbnail
