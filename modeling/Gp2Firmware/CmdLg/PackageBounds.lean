import Gp2Firmware.CmdLg.Epk
import Gp2Firmware.Lib.Run
import Mathlib.Algebra.Group.Nat.Defs

/-!
# The bounds of a download

The fields of a package and of its images tell where `_do_epk` and `_do_single_pak` read.
The bytes lie in the download if and only if the fields keep to its size.
-/

namespace Gp2Firmware.CmdLg

/-! ### Bytes behind the load address -/

/-- The address at a position of a download. -/
def loadAt (p : Nat) : BitVec 32 := cfgLoadAddr + BitVec.ofNat 32 p

/-- The bytes lie in a download of a size. -/
def Access.Inside (size : Nat) (a : Access) : Prop :=
  ∀ k < a.len,
    cfgLoadAddr.toNat ≤ (a.addr + BitVec.ofNat 32 k).toNat ∧
      (a.addr + BitVec.ofNat 32 k).toNat < cfgLoadAddr.toNat + size

/-- A location is one of the 20 of a package. -/
def Access.InTable (a : Access) : Prop :=
  ∀ index, a.part = .location index → index < 20

/-- A checksum runs over an image that lies in the download with its header and its
CRC. -/
def Access.Whole (size : Nat) (a : Access) : Prop :=
  a.part = .image → Access.Inside size ⟨.image, a.addr - pakHeaderSize, a.len + 132⟩

/-- What the bounds ask of some bytes that are read. -/
structure Access.Fine (size : Nat) (a : Access) : Prop where
  inside : a.Inside size
  inTable : a.InTable
  whole : a.Whole size

variable {size p len : Nat} {part : Part}

theorem loadAt_add (p k : Nat) : loadAt p + BitVec.ofNat 32 k = loadAt (p + k) := by
  rw [loadAt, loadAt, BitVec.add_assoc, BitVec.ofNat_add]

theorem loadAt_toNat (p : Nat) : (loadAt p).toNat = (2181038080 + p) % 2 ^ 32 := by
  rw [loadAt, BitVec.toNat_add, BitVec.toNat_ofNat, Nat.add_mod_mod]
  rfl

theorem loadAt_toNat_sub (addr : BitVec 32) :
    loadAt addr.toNat = cfgLoadAddr + addr := by
  rw [loadAt, BitVec.ofNat_toNat, BitVec.setWidth_eq]

/-- Some bytes from a position on lie in the download if and only if they end in it: the
first one that does not is the one behind the download, or the very first one. -/
theorem inside_iff (fits : cfgLoadAddr.toNat + size ≤ 2 ^ 32) (low : p < 2 ^ 32) :
    Access.Inside size ⟨part, loadAt p, len⟩ ↔ len = 0 ∨ p + len ≤ size := by
  have base : cfgLoadAddr.toNat = 2181038080 := rfl
  rw [base] at fits
  simp only [Access.Inside, loadAt_add, loadAt_toNat, base]
  constructor
  · intro inside
    by_contra outside
    rw [not_or, Nat.not_le] at outside
    have first := inside 0 (by omega)
    have last := inside (size - p) (by omega)
    omega
  · intro ends k below
    omega

theorem inside_iff_of_pos (fits : cfgLoadAddr.toNat + size ≤ 2 ^ 32) (low : p < 2 ^ 32)
    (some : 0 < len) : Access.Inside size ⟨part, loadAt p, len⟩ ↔ p + len ≤ size := by
  rw [inside_iff fits low]
  omega

/-! ### Strings -/

variable {w : World}

theorem string_length_le {most k : Nat} {addr : BitVec 32} (below : k < most)
    (ends : w.ram (addr + BitVec.ofNat 32 k) = 0) : (w.string most addr).length ≤ k := by
  induction most generalizing addr k with
  | zero => exact absurd below (Nat.not_lt_zero k)
  | succ most inductionHypothesis =>
      rw [World.string]
      split
      · exact Nat.zero_le k
      · rename_i more
        cases k with
        | zero => exact absurd (by rwa [BitVec.add_zero] at ends) more
        | succ k =>
            have next : addr + 1 + BitVec.ofNat 32 k = addr + BitVec.ofNat 32 (k + 1) := by
              rw [Nat.add_comm k 1, BitVec.ofNat_add, ← BitVec.add_assoc]
              rfl
            exact Nat.succ_le_succ
              (inductionHypothesis (Nat.lt_of_succ_lt_succ below) (next ▸ ends))

theorem string_ends {most : Nat} {addr : BitVec 32}
    (short : (w.string most addr).length < most) :
    w.ram (addr + BitVec.ofNat 32 (w.string most addr).length) = 0 := by
  induction most generalizing addr with
  | zero => exact absurd short (Nat.not_lt_zero _)
  | succ most inductionHypothesis =>
      rw [World.string] at short ⊢
      split at short
      · rename_i ends
        rw [if_pos ends]
        exact (congrArg w.ram (BitVec.add_zero addr)).trans ends
      · rename_i more
        rw [if_neg more, List.length_cons, Nat.add_comm, BitVec.ofNat_add,
          ← BitVec.add_assoc]
        exact inductionHypothesis (Nat.lt_of_succ_lt_succ short)

/-- A string can be printed within the download if and only if it ends there. -/
theorem printed_inside (fits : cfgLoadAddr.toNat + size ≤ 2 ^ 32) (low : p < 2 ^ 32) :
    Access.Inside size ⟨part, loadAt p, w.printed (loadAt p)⟩ ↔
      ∃ q, p ≤ q ∧ q < size ∧ w.ram (loadAt q) = 0 := by
  rw [World.printed, inside_iff_of_pos fits low (Nat.succ_pos _)]
  constructor
  · intro ends
    have short : (w.string (2 ^ 32) (loadAt p)).length < 2 ^ 32 := by omega
    have zero := string_ends short
    rw [loadAt_add] at zero
    exact ⟨_, Nat.le_add_right _ _, ends, zero⟩
  · rintro ⟨q, behind, inside, zero⟩
    have length := @string_length_le w (2 ^ 32) (q - p) (loadAt p) (by omega)
      (by rwa [loadAt_add, Nat.add_sub_cancel' behind])
    omega

/-! ### What the bounds ask -/

/-- A field of a header or a table, or a checksum that is stored. -/
def Part.isField : Part → Bool
  | .location _ => false
  | .image => false
  | _ => true

theorem fine_iff_inside {addr : BitVec 32} (field : part.isField = true) :
    Access.Fine size ⟨part, addr, len⟩ ↔ Access.Inside size ⟨part, addr, len⟩ := by
  refine ⟨fun fine => fine.inside, fun inside => ⟨inside, ?_, ?_⟩⟩
  · rintro index rfl
    cases field
  · rintro rfl
    cases field

theorem fine_location {addr : BitVec 32} {index : Nat} :
    Access.Fine size ⟨.location index, addr, len⟩ ↔
      Access.Inside size ⟨.location index, addr, len⟩ ∧ index < 20 :=
  ⟨fun fine => ⟨fine.inside, fine.inTable index rfl⟩,
    fun ⟨inside, low⟩ => ⟨inside, fun _ same => Part.location.inj same ▸ low, nofun⟩⟩

theorem fine_image {addr : BitVec 32} :
    Access.Fine size ⟨.image, addr, len⟩ ↔
      Access.Inside size ⟨.image, addr, len⟩ ∧
        Access.Inside size ⟨.image, addr - pakHeaderSize, len + 132⟩ :=
  ⟨fun fine => ⟨fine.inside, fine.whole rfl⟩,
    fun ⟨inside, whole⟩ => ⟨inside, nofun, fun _ => whole⟩⟩

theorem fine_field (fits : cfgLoadAddr.toNat + size ≤ 2 ^ 32) (low : p < 2 ^ 32)
    (some : 0 < len) (field : part.isField = true) :
    Access.Fine size ⟨part, loadAt p, len⟩ ↔ p + len ≤ size :=
  (fine_iff_inside field).trans (inside_iff_of_pos fits low some)

/-- All bytes that have been read are in bounds. -/
def Board.Bounded (size : Nat) (b : Board) : Prop := ∀ a ∈ b.reads, a.Fine size

theorem bounded_note {b : Board} {addr : BitVec 32} :
    (b.note part addr len).Bounded size ↔
      Access.Fine size ⟨part, addr, len⟩ ∧ b.Bounded size :=
  List.forall_mem_cons

/-! ### One image -/

/-- An image lies in a download: header, bytes and CRC, and its model name ends there. -/
structure PakFits (w : World) (size p : Nat) : Prop where
  ends : p + 132 + (w.imageSize (loadAt p)).toNat ≤ size
  name : ∃ q, p + 8 ≤ q ∧ q < size ∧ w.ram (loadAt q) = 0

/-- The reads up to the checksum are in bounds if and only if the image lies in the
download. -/
theorem bounded_readImage (fits : cfgLoadAddr.toNat + size ≤ 2 ^ 32) (low : p < 2 ^ 32)
    {b : Board} :
    (readImage w b (loadAt p)).Bounded size ↔ PakFits w size p ∧ b.Bounded size := by
  have base : cfgLoadAddr.toNat = 2181038080 := rfl
  have offset : loadAt p + pakHeaderSize = loadAt (p + 128) := loadAt_add p 128
  have start : loadAt (p + 128) - pakHeaderSize = loadAt p := by
    rw [← offset, BitVec.add_sub_cancel]
  have crc : loadAt (p + 128) + w.imageSize (loadAt p) =
      loadAt (p + 128 + (w.imageSize (loadAt p)).toNat) := by
    have sum := loadAt_add (p + 128) (w.imageSize (loadAt p)).toNat
    rwa [BitVec.ofNat_toNat, BitVec.setWidth_eq] at sum
  have at4 : loadAt p + 4 = loadAt (p + 4) := loadAt_add p 4
  have at8 : loadAt p + 8 = loadAt (p + 8) := loadAt_add p 8
  have at80 : loadAt p + 80 = loadAt (p + 80) := loadAt_add p 80
  have plain : ∀ {addr : BitVec 32} {len : Nat}, Access.Fine size ⟨.header, addr, len⟩ ↔
      Access.Inside size ⟨.header, addr, len⟩ := fine_iff_inside rfl
  have check : ∀ {addr : BitVec 32} {len : Nat}, Access.Fine size ⟨.crc, addr, len⟩ ↔
      Access.Inside size ⟨.crc, addr, len⟩ := fine_iff_inside rfl
  simp only [readImage, bounded_note, fine_image, check, plain, offset, start, crc, at4, at8,
    at80]
  constructor
  · rintro ⟨⟨-, whole⟩, -, -, -, name, before⟩
    rw [inside_iff_of_pos fits low (by omega)] at whole
    have ends : p + 132 + (w.imageSize (loadAt p)).toNat ≤ size := by omega
    exact ⟨⟨ends, (printed_inside fits (by omega)).mp name⟩, before⟩
  · rintro ⟨⟨ends, name⟩, before⟩
    refine ⟨⟨?_, ?_⟩, ?_, ?_, ?_, ?_, before⟩
    · exact (inside_iff fits (by omega)).mpr (Or.inr (by omega))
    · exact (inside_iff fits low).mpr (Or.inr (by omega))
    · exact (inside_iff fits (by omega)).mpr (Or.inr (by omega))
    · exact (inside_iff fits (by omega)).mpr (Or.inr (by omega))
    · exact (inside_iff fits (by omega)).mpr (Or.inr (by omega))
    · exact (printed_inside fits (by omega)).mpr name

/-- A field in the header of an image that lies in the download. -/
theorem bounded_headerField (fits : cfgLoadAddr.toNat + size ≤ 2 ^ 32) {b : Board} {k : Nat}
    (within : k ≤ 128) (image : b.Bounded size → PakFits w size p) :
    (b.note .header (loadAt p + BitVec.ofNat 32 k) 4).Bounded size ↔ b.Bounded size := by
  have base : cfgLoadAddr.toNat = 2181038080 := rfl
  rw [bounded_note, loadAt_add]
  refine ⟨And.right, fun before => ⟨?_, before⟩⟩
  have ends := (image before).ends
  exact (@fine_field size (p + k) 4 .header fits (by omega) (by decide) rfl).mpr (by omega)

/-! ### The table in an image -/

/-- Where the bytes of an entry that the search reads end, behind the beginning of the
image. -/
def World.entryEnd (w : World) (pmi : BitVec 32) (idx : Fin mtdPartitionMax) : Nat :=
  368 + 84 * idx + if (w.partitionAt pmi idx).used ≠ 0 then 82 else 81

/-- The entry of an image with a table that an entry is compared with lies in the
download. -/
def TableFits (w : World) (size p : Nat) (mpi : MtdPartitionInfo) : Prop :=
  p + w.entryEnd (loadAt p + pakHeaderSize)
    (comparedIndex w (loadAt p + pakHeaderSize) mpi) ≤ size

theorem partitionAddr_loadAt (p idx : Nat) :
    partitionAddr (loadAt p + pakHeaderSize) idx = loadAt (p + 368 + 84 * idx) := by
  have start : loadAt p + pakHeaderSize + 240 = loadAt (p + 368) :=
    (congrArg (· + 240) (loadAt_add p 128)).trans (loadAt_add (p + 128) 240)
  rw [partitionAddr, start, loadAt_add]

theorem entryReads_fine (fits : cfgLoadAddr.toNat + size ≤ 2 ^ 32) (low : p ≤ size)
    (idx : Fin mtdPartitionMax) :
    (∀ a ∈ entryReads w (loadAt p + pakHeaderSize) idx, a.Fine size) ↔
      p + w.entryEnd (loadAt p + pakHeaderSize) idx ≤ size := by
  have base : cfgLoadAddr.toNat = 2181038080 := rfl
  have last : idx.val < 32 := idx.isLt
  have used : partitionAddr (loadAt p + pakHeaderSize) idx + 80 =
      loadAt (p + 368 + 84 * idx + 80) :=
    (congrArg (· + 80) (partitionAddr_loadAt p idx)).trans (loadAt_add _ 80)
  have name : Access.Fine size
      ⟨.table, partitionAddr (loadAt p + pakHeaderSize) idx, 4⟩ ↔
        p + 368 + 84 * idx + 4 ≤ size := by
    rw [partitionAddr_loadAt]
    exact fine_field fits (by omega) (by decide) rfl
  have flags : ∀ len, 0 < len → (Access.Fine size
      ⟨.table, loadAt (p + 368 + 84 * idx + 80), len⟩ ↔
        p + 368 + 84 * idx + 80 + len ≤ size) := fun len some =>
    @fine_field size _ len .table fits (by omega) some rfl
  rw [entryReads, World.entryEnd, List.forall_mem_cons, used]
  by_cases isUsed : (w.partitionAt (loadAt p + pakHeaderSize) idx).used ≠ 0
  · rw [if_pos isUsed, if_pos isUsed, flags 2 (by decide)]
    split
    · rw [List.forall_mem_singleton, name]
      omega
    · simp only [List.not_mem_nil, false_imp_iff, implies_true, and_true]
      omega
  · rw [if_neg isUsed, if_neg isUsed, if_neg fun both => isUsed both.1,
      flags 1 (by decide)]
    simp only [List.not_mem_nil, false_imp_iff, implies_true, and_true]
    omega

/-- The reads of the comparison are in bounds if and only if its entry is: the others
lie before it. -/
theorem tableReads_fine (fits : cfgLoadAddr.toNat + size ≤ 2 ^ 32) (low : p ≤ size)
    (mpi : MtdPartitionInfo) :
    (∀ a ∈ tableReads w (loadAt p + pakHeaderSize) mpi, a.Fine size) ↔
      TableFits w size p mpi := by
  have base : cfgLoadAddr.toNat = 2181038080 := rfl
  unfold tableReads TableFits
  generalize comparedIndex w (loadAt p + pakHeaderSize) mpi = last
  have below : last.val < 32 := last.isLt
  have version : partitionAddr (loadAt p + pakHeaderSize) last + 76 =
      loadAt (p + 368 + 84 * last + 76) :=
    (congrArg (· + 76) (partitionAddr_loadAt p last)).trans (loadAt_add _ 76)
  have turns : (∀ a ∈ ((List.finRange mtdPartitionMax).filter (· ≤ last)).flatMap
      (entryReads w (loadAt p + pakHeaderSize)), a.Fine size) ↔
        ∀ idx ≤ last, p + w.entryEnd (loadAt p + pakHeaderSize) idx ≤ size := by
    simp only [List.forall_mem_flatMap, List.mem_filter, List.mem_finRange, true_and,
      decide_eq_true_eq, entryReads_fine fits low]
  rw [List.forall_mem_cons, turns, version,
    @fine_field size (p + 368 + 84 * last + 76) 4 .table fits (by omega) (by decide) rfl]
  constructor
  · rintro ⟨-, all⟩
    exact all last le_rfl
  · intro ends
    have lower : 368 + 84 * last.val + 81 ≤ w.entryEnd (loadAt p + pakHeaderSize) last := by
      unfold World.entryEnd
      split <;> omega
    refine ⟨by omega, fun idx before => ?_⟩
    rcases eq_or_lt_of_le before with rfl | strictly
    · exact ends
    · have upper : w.entryEnd (loadAt p + pakHeaderSize) idx ≤ 368 + 84 * idx + 82 := by
        unfold World.entryEnd
        split <;> omega
      have earlier : idx.val < last.val := strictly
      omega

/-- An image lies in the download, with the entry of its table that is compared. -/
structure ImageFits (w : World) (b : Board) (size p : Nat) : Prop where
  pak : PakFits w size p
  table : ∀ mpi ∈ comparedEntry w b (loadAt p), TableFits w size p mpi

theorem imageFits_of_none {b : Board} (compared : comparedEntry w b (loadAt p) = none) :
    ImageFits w b size p ↔ PakFits w size p :=
  ⟨ImageFits.pak, fun pak => ⟨pak, by rw [compared]; nofun⟩⟩

theorem imageFits_of_some {b : Board} {mpi : MtdPartitionInfo}
    (compared : comparedEntry w b (loadAt p) = some mpi) :
    ImageFits w b size p ↔ PakFits w size p ∧ TableFits w size p mpi :=
  ⟨fun image => ⟨image.pak, image.table mpi compared⟩, fun ⟨pak, table⟩ =>
    ⟨pak, fun _ same => Option.some_inj.mp (compared.symm.trans same) ▸ table⟩⟩

/-! ### What is read for an image -/

theorem bounded_compareTable (fits : cfgLoadAddr.toNat + size ≤ 2 ^ 32) {b : Board}
    {mpi : MtdPartitionInfo} (image : b.Bounded size → PakFits w size p) :
    (compareTable w b (loadAt p + pakHeaderSize) mpi).Bounded size ↔
      (mpi.name = mtdinfoName → TableFits w size p mpi) ∧ b.Bounded size := by
  rw [Board.Bounded, compareTable, List.forall_mem_append]
  refine and_congr_left fun before => ?_
  have ends := (image before).ends
  split
  · rename_i named
    rw [tableReads_fine fits (by omega)]
    exact ⟨fun table _ => table, fun table => table named⟩
  · rename_i other
    exact iff_of_true (fun a read => absurd read List.not_mem_nil) fun named => absurd named other

theorem bounded_typed (fits : cfgLoadAddr.toNat + size ≤ 2 ^ 32) (low : p < 2 ^ 32)
    {b : Board} :
    (typed w b (loadAt p)).Bounded size ↔ PakFits w size p ∧ b.Bounded size := by
  have read := @bounded_readImage size p w fits low b
  have start : loadAt p + BitVec.ofNat 32 0 = loadAt p := BitVec.add_zero _
  have field := @bounded_headerField size p w fits (readImage w b (loadAt p)) 0 (by decide)
    fun before => (read.mp before).1
  rw [start] at field
  exact field.trans read

theorem bounded_found (fits : cfgLoadAddr.toNat + size ≤ 2 ^ 32) (low : p < 2 ^ 32)
    {b : Board} {mpi : Fin mtdPartitionMax}
    (compared : comparedEntry w b (loadAt p) =
      if (b.mtdinfo.partition mpi).name = mtdinfoName then some (b.mtdinfo.partition mpi)
      else none) :
    (found w b (loadAt p) mpi).Bounded size ↔ ImageFits w b size p ∧ b.Bounded size := by
  have typed := @bounded_typed size p w fits low b
  rw [found, bounded_compareTable fits fun before => (typed.mp before).1, typed, ← and_assoc]
  refine and_congr_left fun _ => ?_
  by_cases named : (b.mtdinfo.partition mpi).name = mtdinfoName
  · rw [imageFits_of_some (compared.trans (if_pos named)), and_comm]
    exact and_congr_right fun _ => forall_prop_of_true named
  · rw [imageFits_of_none (compared.trans (if_neg named))]
    exact and_iff_right fun same => absurd same named

theorem keepMtdinfo_reads (b : Board) (mpi : Fin mtdPartitionMax) :
    (keepMtdinfo w b mpi).reads = b.reads := by
  refine @keepMtdinfo_keeps w b (fun next => next.reads = b.reads) (fun next same => ?_)
    (fun next same => ?_) (fun next same => ?_) rfl mpi
  · exact (SameTable.saveMtdinfo next).reads.trans same
  · unfold loadMtdinfo
    dsimp only
    split
    · exact same
    · exact same
  · exact (@SameTable.eraseCachepart w next).reads.trans same

theorem bounded_congr {b next : Board} (same : next.reads = b.reads) :
    next.Bounded size ↔ b.Bounded size := by
  rw [Board.Bounded, Board.Bounded, same]

/-- The bytes that are read for an image are in bounds if and only if it lies in the
download. -/
theorem bounded_doSinglePak (fits : cfgLoadAddr.toNat + size ≤ 2 ^ 32) (low : p < 2 ^ 32)
    (b : Board) :
    (doSinglePak w b (loadAt p)).2.Bounded size ↔ ImageFits w b size p ∧ b.Bounded size := by
  have ends := @pakEnd_doSinglePak w b (loadAt p)
  generalize doSinglePak w b (loadAt p) = done at ends ⊢
  have known : ∀ {next : Board}, comparedEntry w b (loadAt p) = none →
      next.reads = (typed w b (loadAt p)).reads →
        (next.Bounded size ↔ ImageFits w b size p ∧ b.Bounded size) := by
    intro next compared same
    rw [bounded_congr same, bounded_typed fits low, imageFits_of_none compared]
  cases ends with
  | badCrc compared => rw [bounded_readImage fits low, imageFits_of_none compared]
  | spiboot compared named => exact known compared rfl
  | micom compared named => exact known compared rfl
  | unknown compared => exact known compared rfl
  | found mpi current compared done ends =>
      have place := bounded_found fits low compared
      have version := @bounded_headerField size p w fits (found w b (loadAt p) mpi) 72
        (by decide) fun before => (place.mp before).1.pak
      have date := @bounded_headerField size p w fits
        ((found w b (loadAt p) mpi).note .header (loadAt p + 72) 4) 76 (by decide)
        fun before => (place.mp (version.mp before)).1.pak
      have wrote : (flashed w b (loadAt p) mpi).2.Bounded size ↔
          ImageFits w b size p ∧ b.Bounded size :=
        (bounded_congr flashed_same.reads).trans (date.trans (version.trans place))
      cases ends with
      | sameVersion named => exact place
      | wrongSize => exact place
      | failed ret => exact wrote
      | written ret => exact (bounded_congr (keepMtdinfo_reads _ _)).trans wrote

/-! ### Packages -/

/-- The image of a location, if it has one, lies in the download. -/
def LocationFits (w : World) (size : Nat) (b : Board) (i : Nat) : Prop :=
  w.imageOffset i ≠ 0 →
    ImageFits w (b.note (.location i) (locationAddr i) 4) size (w.imageOffset i).toNat

theorem bounded_packageTurn (fits : cfgLoadAddr.toNat + size ≤ 2 ^ 32) (b : Board) (i : Nat) :
    (packageTurn w b i).Bounded size ↔
      b.Bounded size ∧
        (Access.Fine size ⟨.location i, locationAddr i, 4⟩ ∧ LocationFits w size b i) := by
  unfold packageTurn LocationFits
  dsimp only
  split
  · rename_i skipped
    rw [bounded_note]
    simp only [skipped, ne_eq, not_true_eq_false, false_imp_iff, and_true]
    exact and_comm
  · rename_i located
    rw [← loadAt_toNat_sub, bounded_doSinglePak fits (w.imageOffset i).isLt, bounded_note]
    simp only [located, ne_eq, not_false_eq_true, true_imp_iff]
    exact ⟨fun ⟨image, read, before⟩ => ⟨before, read, image⟩,
      fun ⟨before, read, image⟩ => ⟨image, read, before⟩⟩

/-- A package lies in a download: its header and the locations of its images, each of
which lies in the download when the loop comes to it. -/
structure PackageFits (w : World) (b : Board) (size : Nat) : Prop where
  header : 176 ≤ size
  locations : w.fileNum.toNat ≤ 20
  images : Run.Meets (packageTurn w) (LocationFits w size) (packageStart w b)
    (List.range w.fileNum.toNat)

theorem locationAddr_eq (i : Nat) : locationAddr i = loadAt (12 + 8 * i) :=
  loadAt_add 12 (8 * i)

theorem bounded_packageStart (fits : cfgLoadAddr.toNat + size ≤ 2 ^ 32) (b : Board) :
    (packageStart w b).Bounded size ↔ 176 ≤ size ∧ b.Bounded size := by
  have version := @fine_field size 172 4 .header fits (by decide) (by decide) rfl
  have number := @fine_field size 8 4 .header fits (by decide) (by decide) rfl
  have notes : (packageStart w b).Bounded size ↔
      Access.Fine size ⟨.header, loadAt 8, 4⟩ ∧
        Access.Fine size ⟨.header, loadAt 172, 4⟩ ∧ b.Bounded size :=
    List.forall_mem_cons.trans (and_congr_right fun _ => List.forall_mem_cons)
  rw [notes, version, number]
  exact ⟨fun ⟨_, top, before⟩ => ⟨top, before⟩,
    fun ⟨top, before⟩ => ⟨by omega, top, before⟩⟩

/-- The locations of a package are in bounds if and only if there are no more than 20. -/
theorem locations_fine (fits : cfgLoadAddr.toNat + size ≤ 2 ^ 32) (top : 176 ≤ size)
    (number : Nat) :
    (∀ i ∈ List.range number, Access.Fine size ⟨.location i, locationAddr i, 4⟩) ↔
      number ≤ 20 := by
  simp only [List.mem_range]
  constructor
  · intro locations
    by_contra many
    have last := locations 20 (Nat.not_le.mp many)
    exact Nat.lt_irrefl 20 (fine_location.mp last).2
  · intro few i below
    refine fine_location.mpr ⟨?_, by omega⟩
    rw [locationAddr_eq]
    exact (inside_iff fits (by omega)).mpr (Or.inr (by omega))

theorem bounded_doPackage (fits : cfgLoadAddr.toNat + size ≤ 2 ^ 32) (b : Board) :
    (doPackage w b).Bounded size ↔ PackageFits w b size ∧ b.Bounded size := by
  rw [doPackage_eq_foldl, Run.foldl_iff_meets (bounded_packageTurn fits), Run.meets_and,
    bounded_packageStart fits]
  constructor
  · rintro ⟨⟨top, before⟩, locations, images⟩
    exact ⟨⟨top, (locations_fine fits top _).mp locations, images⟩, before⟩
  · rintro ⟨⟨top, few, images⟩, before⟩
    exact ⟨⟨top, before⟩, (locations_fine fits top _).mpr few, images⟩

/-- A download is a package that lies in it, or an image that does. -/
def WellFormed (w : World) (b : Board) (size : Nat) : Prop :=
  let b := b.note .header cfgLoadAddr 4
  if w.isEpk then PackageFits w b size else ImageFits w b size 0

/-- The state in which no byte of a download has been read. -/
def Board.fresh (b : Board) : Board := { b with reads := [] }

theorem bounded_doEpk {line : Line} {type : LoadType}
    (fits : cfgLoadAddr.toNat + (receivedEpk line type).toNat ≤ 2 ^ 32) (b : Board) :
    (doEpk w line type b.fresh).2.Bounded (receivedEpk line type).toNat ↔
      receivedEpk line type = 0 ∨ WellFormed w b.fresh (receivedEpk line type).toNat := by
  by_cases none : receivedEpk line type = 0
  · simp only [doEpk, none, if_true, true_or, iff_true]
    exact fun a read => absurd read List.not_mem_nil
  · rw [or_iff_right none, WellFormed]
    simp only [doEpk, none, if_false]
    generalize (receivedEpk line type).toNat = size at fits ⊢
    have typed : (b.fresh.note .header cfgLoadAddr 4).Bounded size ↔ 4 ≤ size := by
      have field := @fine_field size 0 4 .header fits (by decide) (by decide) rfl
      rw [Nat.zero_add] at field
      rw [bounded_note]
      exact (and_iff_left fun a read => absurd read List.not_mem_nil).trans field
    split
    · rw [bounded_doPackage fits, typed]
      exact ⟨And.left, fun package => ⟨package, by have := package.header; omega⟩⟩
    · have image := @bounded_doSinglePak size 0 w fits (by decide)
        (b.fresh.note .header cfgLoadAddr 4)
      refine image.trans ?_
      rw [typed]
      exact ⟨And.left, fun image => ⟨image, by have := image.pak.ends; omega⟩⟩

/-- What the bounds ask of a download: the bytes that are read of it lie in it, a location
is one of the 20, and no checksum runs over an image that does not lie in it. -/
def StaysInside (w : World) (line : Line) (type : LoadType) (b : Board) : Prop :=
  cfgLoadAddr.toNat + (receivedEpk line type).toNat ≤ 2 ^ 32 →
    (doEpk w line type b.fresh).2.Bounded (receivedEpk line type).toNat

/-- The bytes of a download that are read lie in it if and only if it is empty or well
formed. -/
theorem staysInside_iff (w : World) (line : Line) (type : LoadType) (b : Board) :
    StaysInside w line type b ↔
      (cfgLoadAddr.toNat + (receivedEpk line type).toNat ≤ 2 ^ 32 →
        receivedEpk line type = 0 ∨ WellFormed w b.fresh (receivedEpk line type).toNat) :=
  forall_congr' fun fits => bounded_doEpk fits b

/-- A package with an image that tells a size of 4 KiB. -/
def longEpk : Nat → BitVec 8
  | 0 => 0x65
  | 1 => 0x70
  | 2 => 0x61
  | 3 => 0x6b
  | 8 => 1
  | 12 => 176
  | 181 => 0x10
  | _ => 0

/-- The checksum of the image runs over 4 KiB of a download of 512 bytes. -/
theorem outside_of_longImage :
    ¬ StaysInside (.loaded longEpk) (.network 512) .tftp .initial := by
  intro law
  have fits : cfgLoadAddr.toNat + (receivedEpk (.network 512) .tftp).toNat ≤ 2 ^ 32 := by
    decide
  rcases (bounded_doEpk fits _).mp (law fits) with none | formed
  · exact absurd none (by decide)
  · have package : (World.loaded longEpk).isEpk = true := by decide +kernel
    rw [WellFormed, if_pos package] at formed
    have one : List.range (World.loaded longEpk).fileNum.toNat = [0] := by decide +kernel
    have images := formed.images
    rw [one] at images
    have image := images.1 (by decide +kernel)
    exact absurd image.pak.ends (by decide +kernel)

end Gp2Firmware.CmdLg
