import Gp2Firmware.CmdLg.Mtdinfo
import Mathlib.Algebra.Group.Nat.Defs

/-!
# Software update

`_do_single_pak` and `_do_epk` of `cmd_swu.c`, with the bytes that they read in a
download.  A package begins with an `EPK_HEADER_T`, an image with a `PAK_HEADER_T`.
-/

namespace Gp2Firmware.CmdLg

variable (w : World)

/-! ### Bytes in the memory -/

/-- A word, least significant byte first. -/
def World.word (addr : BitVec 32) : BitVec 32 :=
  w.ram (addr + 3) ++ w.ram (addr + 2) ++ w.ram (addr + 1) ++ w.ram addr

/-- A string of at most some characters. -/
def World.string : (most : Nat) → (addr : BitVec 32) → CString
  | 0, _ => []
  | most + 1, addr =>
      if w.ram addr = 0 then [] else w.ram addr :: World.string most (addr + 1)

/-- Bytes are read. -/
def Board.note (b : Board) (part : Part) (addr : BitVec 32) (len : Nat) : Board :=
  { b with reads := ⟨part, addr, len⟩ :: b.reads }

/-- The bytes that are read to print a string. -/
def World.printed (addr : BitVec 32) : Nat := (w.string (2 ^ 32) addr).length + 1

/-! ### The checksum -/

/-- `CRC32_POLY` -/
def crc32Poly : BitVec 32 := 0x04c11db7

/-- An entry of `crc32_table`. -/
def crc32Table (i : BitVec 8) : BitVec 32 :=
  Nat.iterate
    (fun c : BitVec 32 => if c &&& 0x80000000 ≠ 0 then (c <<< 1) ^^^ crc32Poly else c <<< 1)
    8 (i.setWidth 32 <<< 24)

/-- The loop of `calc_crc32`. -/
def crc32Loop : (len : Nat) → (p crc : BitVec 32) → BitVec 32
  | 0, _, crc => crc
  | len + 1, p, crc =>
      crc32Loop len (p + 1)
        ((crc <<< 8) ^^^ crc32Table (((crc >>> 24) ^^^ (w.ram p).setWidth 32).setWidth 8))

/-- `calc_crc32` -/
def calcCrc32 (buf len : BitVec 32) : BitVec 32 := crc32Loop w len.toNat buf 0xffffffff

/-! ### One image -/

/-- `sizeof(PAK_HEADER_T)` -/
def pakHeaderSize : BitVec 32 := 128

/-- `pak->imageSize` -/
def World.imageSize (pak : BitVec 32) : BitVec 32 := w.word (pak + 4)

/-- `pak->SWVersion` -/
def World.swVersion (pak : BitVec 32) : BitVec 32 := w.word (pak + 72)

/-- `imgtype` -/
def World.imageType (pak : BitVec 32) : CString := w.string 4 pak

/-- What `_do_single_pak` reads of an image before it compares the checksums. -/
def readImage (b : Board) (pak : BitVec 32) : Board :=
  let offset := pak + pakHeaderSize
  let size := w.imageSize pak
  ((((b.note .header (pak + 8) (w.printed (pak + 8))).note .header (pak + 80) 4).note
    .header (pak + 4) 4).note .crc (offset + size) 4).note .image offset size.toNat

/-- `struct mtd_partition_info` in an image. -/
def World.partitionInfo (addr : BitVec 32) : MtdPartitionInfo where
  name := w.string 32 addr
  offset := w.word (addr + 32)
  size := w.word (addr + 36)
  filename := w.string 32 (addr + 40)
  filesize := w.word (addr + 72)
  swVer := w.word (addr + 76)
  used := w.ram (addr + 80)
  valid := w.ram (addr + 81)
  maskFlags := w.ram (addr + 82)

/-- `&(pmi->partition[idx])` -/
def partitionAddr (pmi : BitVec 32) (idx : Nat) : BitVec 32 :=
  pmi + 240 + BitVec.ofNat 32 (84 * idx)

/-- `pmi->partition[idx]` -/
def World.partitionAt (pmi : BitVec 32) (idx : Fin mtdPartitionMax) : MtdPartitionInfo :=
  w.partitionInfo (partitionAddr pmi idx)

/-- The entry of an image with a table that an entry is compared with: the first one in
use under the name, or else the last one. -/
def comparedIndex (pmi : BitVec 32) (mpi : MtdPartitionInfo) : Fin mtdPartitionMax :=
  (Fin.find? fun idx => (w.partitionAt pmi idx).inUse mpi.name).getD (Fin.last 31)

/-- An image with a table has the version of an entry. -/
def sameVersion (pmi : BitVec 32) (mpi : MtdPartitionInfo) : Bool :=
  mpi.swVer = (w.partitionAt pmi (comparedIndex w pmi mpi)).swVer

/-- The bytes of an entry that the search reads: `used`, with `valid` behind it if the
entry is used, and then the beginning of the name. -/
def entryReads (pmi : BitVec 32) (idx : Fin mtdPartitionMax) : List Access :=
  let mpi := w.partitionAt pmi idx
  let addr := partitionAddr pmi idx
  ⟨.table, addr + 80, if mpi.used ≠ 0 then 2 else 1⟩ ::
    if mpi.used ≠ 0 ∧ mpi.valid ≠ 0 then [⟨.table, addr, 4⟩] else []

/-- The bytes that the comparison of an image with an entry reads. -/
def tableReads (pmi : BitVec 32) (mpi : MtdPartitionInfo) : List Access :=
  let last := comparedIndex w pmi mpi
  ⟨.table, partitionAddr pmi last + 76, 4⟩ ::
    ((List.finRange mtdPartitionMax).filter (· ≤ last)).flatMap (entryReads w pmi)

/-- The entry of the table is compared with the table in an image. -/
def compareTable (b : Board) (pmi : BitVec 32) (mpi : MtdPartitionInfo) : Board :=
  { b with
    reads := (if mpi.name = mtdinfoName then tableReads w pmi mpi else []) ++ b.reads }

/-- The entries after a write. -/
def adjust (info : BootMtdInfo) (mpi : Fin mtdPartitionMax)
    (unmpi : Option (Fin mtdPartitionMax)) (size swver : BitVec 32) : BootMtdInfo :=
  match unmpi with
  | some unmpi =>
      let written := info.set unmpi
        { info.partition unmpi with filesize := size, swVer := swver, used := yes, valid := yes }
      let left := written.set mpi { written.partition mpi with used := no, valid := yes }
      swapPartition left mpi unmpi
  | none =>
      info.set mpi { info.partition mpi with filesize := size, swVer := swver }

/-- The flash offset to which an image is written. -/
def writeOffset (info : BootMtdInfo) (mpi : Fin mtdPartitionMax)
    (unmpi : Option (Fin mtdPartitionMax)) : BitVec 32 :=
  (info.partition (unmpi.getD mpi)).offset + cfgFlashBase

/-- The part of `_do_single_pak` behind the write to the flash. -/
def finishImage (b : Board) (pak : BitVec 32) (mpi : Fin mtdPartitionMax)
    (unmpi : Option (Fin mtdPartitionMax)) : Board :=
  let info := adjust b.mtdinfo mpi unmpi (w.imageSize pak) (w.swVersion pak)
  keepMtdinfo w { b with mtdinfo := info } mpi

/-- The write of an image, before which its version and date are printed. -/
def flashImage (b : Board) (pak : BitVec 32) (mpi : Fin mtdPartitionMax)
    (unmpi : Option (Fin mtdPartitionMax)) : Int × Board :=
  writeFlashData w ((b.note .header (pak + 72) 4).note .header (pak + 76) 4)
    (writeOffset b.mtdinfo mpi unmpi) (w.imageSize pak) (.ram (pak + pakHeaderSize))

/-- The part of `_do_single_pak` behind the search for a partition. -/
def writeImage (b : Board) (pak : BitVec 32) (mpi : Fin mtdPartitionMax)
    (unmpi : Option (Fin mtdPartitionMax)) : Int × Board :=
  let size := w.imageSize pak
  let flsize := (b.mtdinfo.partition (unmpi.getD mpi)).size
  if 0 < size ∧ size ≤ flsize then
    let done := flashImage w b pak mpi unmpi
    if done.1 ≠ 0 then done else (0, finishImage w done.2 pak mpi unmpi)
  else (-1, b)

/-- The part of `_do_single_pak` behind the comparison of the checksums. -/
def updateImage (b : Board) (pak : BitVec 32) : Int × Board :=
  let offset := pak + pakHeaderSize
  let size := w.imageSize pak
  let imgtype := w.imageType pak
  if strncmpEq 4 imgtype (str ['s', 'p', 'i', 'b', 'o', 'o', 't']) then
    (0, (ask w b (.spiUpdate offset size)).2)
  else if strncmpEq 4 imgtype (str ['m', 'i', 'c', 'o', 'm']) then
    (0, (ask w b (.micomUpdate offset size)).2)
  else
    match getPartition b.mtdinfo imgtype with
    | none => (-1, b)
    | some mpi =>
        let unmpi := getUnusedPartition b.mtdinfo imgtype
        let entry := b.mtdinfo.partition mpi
        let b := compareTable w b offset entry
        if entry.name = mtdinfoName ∧ sameVersion w offset entry then (0, b)
        else writeImage w b pak mpi unmpi

/-- `_do_single_pak` -/
def doSinglePak (b : Board) (pak : BitVec 32) : Int × Board :=
  let offset := pak + pakHeaderSize
  let size := w.imageSize pak
  let read := readImage w b pak
  if calcCrc32 w offset size ≠ w.word (offset + size) then (-1, read)
  else updateImage w (read.note .header pak 4) pak

/-! ### What becomes of an image -/

/-- The entry of the table that `_do_single_pak` compares with an image. -/
def comparedEntry (b : Board) (pak : BitVec 32) : Option MtdPartitionInfo :=
  let offset := pak + pakHeaderSize
  let size := w.imageSize pak
  let imgtype := w.imageType pak
  if calcCrc32 w offset size ≠ w.word (offset + size) then none
  else if strncmpEq 4 imgtype (str ['s', 'p', 'i', 'b', 'o', 'o', 't']) then none
  else if strncmpEq 4 imgtype (str ['m', 'i', 'c', 'o', 'm']) then none
  else
    match getPartition b.mtdinfo imgtype with
    | none => none
    | some mpi =>
        let entry := b.mtdinfo.partition mpi
        if entry.name = mtdinfoName then some entry else none

/-- The state in which `_do_single_pak` knows the type of an image. -/
def typed (b : Board) (pak : BitVec 32) : Board := (readImage w b pak).note .header pak 4

/-- The state in which it has found the partition. -/
def found (b : Board) (pak : BitVec 32) (mpi : Fin mtdPartitionMax) : Board :=
  compareTable w (typed w b pak) (pak + pakHeaderSize) (b.mtdinfo.partition mpi)

/-- The write of an image from this state. -/
def flashed (b : Board) (pak : BitVec 32) (mpi : Fin mtdPartitionMax) : Int × Board :=
  flashImage w (found w b pak mpi) pak mpi (getUnusedPartition b.mtdinfo (w.imageType pak))

/-- The ways in which `_do_single_pak` ends once it has found the partition. -/
inductive FoundEnd (w : World) (b : Board) (pak : BitVec 32) (mpi : Fin mtdPartitionMax) :
    Int × Board → Prop where
  | sameVersion (named : (b.mtdinfo.partition mpi).name = mtdinfoName) :
      FoundEnd w b pak mpi (0, found w b pak mpi)
  | wrongSize : FoundEnd w b pak mpi (-1, found w b pak mpi)
  | failed (ret : (flashed w b pak mpi).1 ≠ 0) : FoundEnd w b pak mpi (flashed w b pak mpi)
  | written (ret : (flashed w b pak mpi).1 = 0) :
      FoundEnd w b pak mpi (0, finishImage w (flashed w b pak mpi).2 pak mpi
        (getUnusedPartition b.mtdinfo (w.imageType pak)))

/-- The ways in which `_do_single_pak` ends. -/
inductive PakEnd (w : World) (b : Board) (pak : BitVec 32) : Int × Board → Prop where
  | badCrc (compared : comparedEntry w b pak = none) : PakEnd w b pak (-1, readImage w b pak)
  | spiboot (compared : comparedEntry w b pak = none)
      (named : strncmpEq 4 (w.imageType pak) (str ['s', 'p', 'i', 'b', 'o', 'o', 't']) = true) :
      PakEnd w b pak (0, (ask w (typed w b pak)
        (.spiUpdate (pak + pakHeaderSize) (w.imageSize pak))).2)
  | micom (compared : comparedEntry w b pak = none)
      (named : strncmpEq 4 (w.imageType pak) (str ['m', 'i', 'c', 'o', 'm']) = true) :
      PakEnd w b pak (0, (ask w (typed w b pak)
        (.micomUpdate (pak + pakHeaderSize) (w.imageSize pak))).2)
  | unknown (compared : comparedEntry w b pak = none) : PakEnd w b pak (-1, typed w b pak)
  | found (mpi : Fin mtdPartitionMax)
      (current : getPartition b.mtdinfo (w.imageType pak) = some mpi)
      (compared : comparedEntry w b pak =
        if (b.mtdinfo.partition mpi).name = mtdinfoName then some (b.mtdinfo.partition mpi)
        else none)
      (done : Int × Board) (ends : FoundEnd w b pak mpi done) : PakEnd w b pak done

variable {w} {b : Board} {pak : BitVec 32} {mpi : Fin mtdPartitionMax}

/-- Bytes have been read, and nothing else has happened. -/
structure OnlyReads (before after : Board) : Prop where
  mtdinfo : after.mtdinfo = before.mtdinfo
  calls : after.calls = before.calls

theorem OnlyReads.note {before after : Board} (same : OnlyReads before after) (part : Part)
    (addr : BitVec 32) (len : Nat) : OnlyReads before (after.note part addr len) :=
  ⟨same.mtdinfo, same.calls⟩

theorem OnlyReads.compareTable {before after : Board} (same : OnlyReads before after)
    (pmi : BitVec 32) (mpi : MtdPartitionInfo) :
    OnlyReads before (CmdLg.compareTable w after pmi mpi) :=
  ⟨same.mtdinfo, same.calls⟩

theorem onlyReads_readImage : OnlyReads b (readImage w b pak) :=
  ⟨rfl, rfl⟩

theorem onlyReads_typed : OnlyReads b (typed w b pak) :=
  onlyReads_readImage.note _ _ _

theorem onlyReads_found : OnlyReads b (found w b pak mpi) :=
  onlyReads_typed.compareTable _ _

theorem foundEnd_writeImage :
    FoundEnd w b pak mpi (writeImage w (found w b pak mpi) pak mpi
      (getUnusedPartition b.mtdinfo (w.imageType pak))) := by
  unfold writeImage
  dsimp only
  split
  · split
    · rename_i ret
      exact .failed ret
    · rename_i ret
      exact .written (not_not.mp ret)
  · exact .wrongSize

theorem pakEnd_doSinglePak (b : Board) (pak : BitVec 32) :
    PakEnd w b pak (doSinglePak w b pak) := by
  unfold doSinglePak
  dsimp only
  split
  · rename_i crc
    exact .badCrc (if_pos crc)
  · rename_i crc
    unfold updateImage
    dsimp only
    split
    · rename_i named
      exact .spiboot ((if_neg crc).trans (if_pos named)) named
    · rename_i other
      split
      · rename_i named
        exact .micom ((if_neg crc).trans ((if_neg other).trans (if_pos named))) named
      · rename_i another
        have compared : comparedEntry w b pak = _ :=
          (if_neg crc).trans ((if_neg other).trans (if_neg another))
        split
        · rename_i unknown
          replace unknown : getPartition b.mtdinfo (w.imageType pak) = none := unknown
          exact .unknown (compared.trans (by rw [unknown]))
        · rename_i mpi current
          replace current : getPartition b.mtdinfo (w.imageType pak) = some mpi := current
          refine @PakEnd.found w b pak mpi current (compared.trans (by rw [current])) _ ?_
          split
          · rename_i same
            exact .sameVersion same.1
          · exact foundEnd_writeImage

/-- The write of an image leaves the table as it is. -/
theorem flashed_same :
    SameTable
      (((found w b pak mpi).note .header (pak + 72) 4).note .header (pak + 76) 4)
      (flashed w b pak mpi).2 :=
  SameTable.writeFlashData

theorem flashed_mtdinfo : (flashed w b pak mpi).2.mtdinfo = b.mtdinfo :=
  flashed_same.mtdinfo.trans ((onlyReads_found.note _ _ _).note _ _ _).mtdinfo

end Gp2Firmware.CmdLg
