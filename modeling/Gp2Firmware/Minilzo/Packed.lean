import Gp2Firmware.Minilzo.RoundTrip

/-!
# Packed files

`lzo_do_decomp` reads a header, then blocks that are compressed or stored as they are, up to
a block of length zero.  The file reads as a memory from its start on; what is written is
kept as a list up to `dst`.
-/

namespace Gp2Firmware.Minilzo

open Gp2Firmware.Lib Gp2Firmware.Lib.BackReference

/-- `Read32Data` -/
def read32Data (memory : Nat → U8) (s : Nat) : U32 :=
  (memory s).setWidth 32 <<< 24 ||| (memory (s + 1)).setWidth 32 <<< 16 |||
    (memory (s + 2)).setWidth 32 <<< 8 ||| (memory (s + 3)).setWidth 32

def magic : List U8 := [0x00, 0xe9, 0x4c, 0x5a, 0x4f, 0xff, 0x1a, 0x00]

structure Blocks where
  src : Nat
  dst : List U8
  total : U32
  deriving DecidableEq

section Code

variable (memory : Nat → U8) (turns : Nat)

/-- One block; the loop is left with the result, or with none where the decompression
gives none. -/
def blockTurn (blksize : U32) (b : Blocks) : Blocks ⊕ Option (Int × Blocks) :=
  let dstLen := read32Data memory b.src
  let srcLen := read32Data memory (b.src + 4)
  let data := b.src + 8
  if dstLen = 0 then .inr (some (LZO_E_OK, b))
  else if blksize < srcLen ∨ blksize < dstLen ∨ srcLen = 0 ∨ dstLen < srcLen then
    .inr (some (LZO_E_ERROR, b))
  else if srcLen < dstLen then
    match lzo1xDecompress (fun i => memory (data + i)) turns srcLen.toNat with
    | none => .inr none
    | some (ret, bytes) =>
        if ret ≠ LZO_E_OK ∨ BitVec.ofNat 32 bytes.length ≠ dstLen then
          .inr (some (LZO_E_ERROR, b))
        else .inl ⟨data + srcLen.toNat, b.dst ++ bytes, b.total + dstLen⟩
  else
    .inl ⟨data + srcLen.toNat, b.dst ++ slice memory data srcLen.toNat, b.total + dstLen⟩

/-- The result, and the blocks that are written with their total size. -/
def lzoDoDecomp : Option (Int × Blocks) :=
  if slice memory 0 8 ≠ magic then some (LZO_E_ERROR, ⟨0, [], 0⟩)
  -- the size and the flags are skipped, then `method` and `level`
  else if memory 16 ≠ 1 then some (LZO_E_ERROR, ⟨0, [], 0⟩)
  else
    let blksize := read32Data memory 18
    if blksize < 1024 ∨ 8 * 1024 * 1024 < blksize then some (LZO_E_ERROR, ⟨0, [], 0⟩)
    else (Loop.run (blockTurn memory turns blksize) turns ⟨22, [], 0⟩).join

end Code

/-! ### Files -/

def bytes32 (v : U32) : List U8 :=
  [v.extractLsb' 24 8, v.extractLsb' 16 8, v.extractLsb' 8 8, v.extractLsb' 0 8]

/-- A block in a file: what `lzo1x_1_compress` makes of it where this is shorter, or itself. -/
inductive StoredAs (data : List U8) : List U8 → Prop
  | whole : StoredAs data data
  | compressed {src : Nat → U8} {base : U32} {wrkmem : U32 → U32} {stored : List U8}
      (input : Holds src 0 data) (placed : Placed base data.length)
      (result : lzo1x1Compress src base data.length wrkmem = some stored)
      (shorter : stored.length < data.length) : StoredAs data stored

structure Block where
  data : List U8
  stored : List U8
  storedAs : StoredAs data stored

def Block.bytes (block : Block) : List U8 :=
  bytes32 (BitVec.ofNat 32 block.data.length) ++ bytes32 (BitVec.ofNat 32 block.stored.length) ++
    block.stored

structure Header where
  size : U32
  flags : U32
  level : U8
  blksize : U32
  atLeast : 1024 ≤ blksize
  atMost : blksize ≤ 8 * 1024 * 1024

def Header.bytes (header : Header) : List U8 :=
  magic ++ bytes32 header.size ++ bytes32 header.flags ++ [1, header.level] ++
    bytes32 header.blksize

def fileBytes (header : Header) (blocks : List Block) : List U8 :=
  header.bytes ++ (blocks.flatMap Block.bytes ++ bytes32 0)

def contents (blocks : List Block) : List U8 :=
  blocks.flatMap Block.data

section Files

variable {memory : Nat → U8} {turns s : Nat} {block : Block} {blksize : U32}

theorem read32Data_of_holds {v : U32} (holds : Holds memory s (bytes32 v)) :
    read32Data memory s = v := by
  simp only [bytes32, holds_cons] at holds
  obtain ⟨first, second, third, fourth, -⟩ := holds
  rw [read32Data, first, second, third, fourth]
  apply BitVec.eq_of_getLsbD_eq
  intro i bound
  simp only [BitVec.getLsbD_or, BitVec.getLsbD_shiftLeft, BitVec.getLsbD_setWidth,
    BitVec.getLsbD_extractLsb']
  grind

/-- A part of a memory, read from its start on. -/
theorem holds_shift {items : List U8} (holds : Holds memory s items) :
    Holds (fun i => memory (s + i)) 0 items := by
  rw [Holds, slice] at holds ⊢
  simpa only [Nat.zero_add] using holds

/-- What is stored of a block is as long at most, and not empty. -/
theorem Block.length_stored (block : Block) (positive : 0 < block.data.length) :
    0 < block.stored.length ∧ block.stored.length ≤ block.data.length := by
  obtain ⟨data, stored, storedAs⟩ := block
  cases storedAs with
  | whole => exact ⟨positive, Nat.le_refl _⟩
  | @compressed src base wrkmem _ input placed result shorter =>
      obtain ⟨phrases, ii, -, -, -, -, same⟩ :=
        @lzo1x1Compress_eq src base data.length placed wrkmem
      rw [result, Option.some.injEq] at same
      refine ⟨?_, Nat.le_of_lt shorter⟩
      dsimp only
      rw [same, stream, List.length_append]
      exact Nat.lt_of_lt_of_le (by decide) (Nat.le_add_left 3 _)

/-- The size of a block in its four bytes. -/
theorem size_of_block {n : Nat} (positive : 0 < n) (small : n ≤ blksize.toNat) :
    (BitVec.ofNat 32 n).toNat = n ∧ BitVec.ofNat 32 n ≠ 0 := by
  have limit := blksize.isLt
  have same : (BitVec.ofNat 32 n).toNat = n := by
    rw [BitVec.toNat_ofNat]
    exact Nat.mod_eq_of_lt (by omega)
  refine ⟨same, fun zero => ?_⟩
  have none := congrArg BitVec.toNat zero
  rw [same] at none
  exact absurd none (Nat.ne_of_gt positive)

theorem Block.length_bytes (block : Block) : block.bytes.length = 8 + block.stored.length := by
  rw [Block.bytes, List.length_append, List.length_append]
  rfl

/-- The turn for a block goes on behind it. -/
theorem blockTurn_of_holds {b : Blocks} (holds : Holds memory b.src block.bytes)
    (positive : 0 < block.data.length) (size : block.data.length ≤ blksize.toNat)
    (enough : block.stored.length ≤ turns) :
    blockTurn memory turns blksize b =
      .inl ⟨b.src + block.bytes.length, b.dst ++ block.data,
        b.total + BitVec.ofNat 32 block.data.length⟩ := by
  obtain ⟨some, most⟩ := block.length_stored positive
  rw [block.length_bytes, ← Nat.add_assoc]
  rw [Block.bytes, List.append_assoc, holds_append, holds_append] at holds
  obtain ⟨first, second, stored⟩ := holds
  obtain ⟨dataSize, notEnd⟩ := size_of_block positive size
  obtain ⟨storedSize, notEmpty⟩ := size_of_block some (Nat.le_trans most size)
  have fits : ¬ (blksize < BitVec.ofNat 32 block.stored.length ∨
      blksize < BitVec.ofNat 32 block.data.length ∨ BitVec.ofNat 32 block.stored.length = 0 ∨
      BitVec.ofNat 32 block.data.length < BitVec.ofNat 32 block.stored.length) := by
    simp only [BitVec.lt_def, dataSize, storedSize, not_or]
    exact ⟨by omega, by omega, notEmpty, by omega⟩
  have storedHolds : Holds memory (b.src + 8) block.stored := stored
  have secondHolds : Holds memory (b.src + 4) (bytes32 (BitVec.ofNat 32 block.stored.length)) :=
    second
  rw [blockTurn, read32Data_of_holds first, read32Data_of_holds secondHolds, if_neg notEnd,
    if_neg fits, storedSize]
  obtain ⟨data, storedBytes, storedAs⟩ := block
  dsimp only at *
  cases storedAs with
  | whole =>
      rw [if_neg (by rw [BitVec.lt_def]; omega)]
      rw [show slice memory (b.src + 8) data.length = data from storedHolds]
  | @compressed src base wrkmem _ input placed result shorter =>
      obtain ⟨packed, compressed, decompresses⟩ := @decompress_compress src base data.length placed
        wrkmem
      rw [result, Option.some.injEq] at compressed
      subst compressed
      have whole : slice src 0 data.length = data := input
      rw [if_pos (by rw [BitVec.lt_def]; omega),
        decompresses _ turns (holds_shift storedHolds) enough, whole]
      have fine : ¬ (LZO_E_OK ≠ LZO_E_OK ∨
          BitVec.ofNat 32 data.length ≠ BitVec.ofNat 32 data.length) := by
        simp only [ne_eq, not_true_eq_false, or_self, not_false_eq_true]
      exact if_neg fine

theorem blockTurn_of_end {b : Blocks} (holds : Holds memory b.src (bytes32 0)) :
    blockTurn memory turns blksize b = .inr (some (LZO_E_OK, b)) := by
  rw [blockTurn, read32Data_of_holds holds, if_pos rfl]

/-- What a header allows of a block. -/
structure Fits (blksize : U32) (turns : Nat) (block : Block) : Prop where
  positive : 0 < block.data.length
  size : block.data.length ≤ blksize.toNat
  enough : block.stored.length ≤ turns

theorem run_blockTurn {blocks : List Block} {b : Blocks} {more : Nat}
    (holds : Holds memory b.src (blocks.flatMap Block.bytes ++ bytes32 0))
    (fits : ∀ block ∈ blocks, Fits blksize turns block) (enough : blocks.length < more) :
    Loop.run (blockTurn memory turns blksize) more b =
      some (some (LZO_E_OK, ⟨b.src + (blocks.flatMap Block.bytes).length,
        b.dst ++ contents blocks, b.total + BitVec.ofNat 32 (contents blocks).length⟩)) := by
  induction blocks generalizing b more with
  | nil =>
      obtain ⟨more, rfl⟩ := Nat.exists_eq_add_of_lt enough
      rw [Loop.run_of_leaves (blockTurn_of_end holds)]
      simp only [contents, List.flatMap_nil, List.append_nil, List.length_nil,
        BitVec.add_zero, Nat.add_zero]
  | cons block rest inductionHypothesis =>
      obtain ⟨more, rfl⟩ := Nat.exists_eq_add_of_lt enough
      rw [List.flatMap_cons, List.append_assoc, holds_append] at holds
      obtain ⟨positive, size, short⟩ := fits block List.mem_cons_self
      rw [Loop.run_of_goes (blockTurn_of_holds holds.1 positive size short)]
      have restFits : ∀ other ∈ rest, Fits blksize turns other :=
        fun other member => fits other (List.mem_cons_of_mem block member)
      rw [List.length_cons]
      have ran := @inductionHypothesis ⟨b.src + block.bytes.length, b.dst ++ block.data,
        b.total + BitVec.ofNat 32 block.data.length⟩ (rest.length + 1 + more) holds.2 restFits
        (by omega)
      rw [ran, contents, contents, List.flatMap_cons, List.flatMap_cons, List.length_append,
        List.length_append, BitVec.ofNat_add]
      simp only [List.append_assoc, BitVec.add_assoc, Nat.add_assoc]

/-- A file is read as its contents. -/
theorem lzoDoDecomp_of_holds {header : Header} {blocks : List Block}
    (holds : Holds memory 0 (fileBytes header blocks))
    (fits : ∀ block ∈ blocks, Fits header.blksize turns block)
    (enough : blocks.length < turns) :
    lzoDoDecomp memory turns =
      some (LZO_E_OK, ⟨22 + (blocks.flatMap Block.bytes).length, contents blocks,
        BitVec.ofNat 32 (contents blocks).length⟩) := by
  rw [fileBytes, Header.bytes] at holds
  simp only [List.append_assoc] at holds
  obtain ⟨atMagic, atSize⟩ := holds_append.mp holds
  obtain ⟨-, atFlags⟩ := holds_append.mp atSize
  obtain ⟨-, atMethod⟩ := holds_append.mp atFlags
  obtain ⟨method, atBlksize⟩ := holds_append.mp atMethod
  obtain ⟨size, atBlocks⟩ := holds_append.mp atBlksize
  have sizeHolds : Holds memory 18 (bytes32 header.blksize) := size
  have magicHolds : slice memory 0 8 = magic := atMagic
  have isMethod : memory 16 = 1 := (holds_cons.mp method).1
  have limits : ¬ (header.blksize < 1024 ∨ 8 * 1024 * 1024 < header.blksize) := by
    have atLeast := header.atLeast
    have atMost := header.atMost
    simp only [BitVec.le_def, BitVec.lt_def, not_or, Nat.not_lt] at atLeast atMost ⊢
    exact ⟨atLeast, atMost⟩
  have ran := @run_blockTurn memory turns header.blksize blocks ⟨22, [], 0⟩ turns atBlocks fits
    enough
  rw [lzoDoDecomp, if_neg (not_not.mpr magicHolds), if_neg (not_not.mpr isMethod),
    read32Data_of_holds sizeHolds, if_neg limits, ran]
  have total : (0 : U32) + BitVec.ofNat 32 (contents blocks).length =
      BitVec.ofNat 32 (contents blocks).length := BitVec.zero_add _
  rw [Option.join_some, List.nil_append, total]

/-- A file of blocks that are compressed or stored as they are is unpacked to its contents, and
their size is returned. -/
theorem lzo_do_decomp_unpacks {header : Header} {blocks : List Block}
    (holds : Holds memory 0 (fileBytes header blocks))
    (positive : ∀ block ∈ blocks, 0 < block.data.length)
    (size : ∀ block ∈ blocks, block.data.length ≤ header.blksize.toNat) :
    ∃ turns, ∀ more, lzoDoDecomp memory (turns + more) =
      some (LZO_E_OK, ⟨22 + (blocks.flatMap Block.bytes).length, contents blocks,
        BitVec.ofNat 32 (contents blocks).length⟩) := by
  refine ⟨header.blksize.toNat + (blocks.length + 1), fun more => ?_⟩
  refine lzoDoDecomp_of_holds holds (fun block member => ?_) (by omega)
  obtain ⟨-, short⟩ := block.length_stored (positive block member)
  have most := size block member
  exact ⟨positive block member, most, by omega⟩

end Files

/-- A block that repeats a byte is compressed, one of three bytes is stored as it is. -/
theorem lzo_do_decomp_unpacks_two :
    ∃ repeated : Block, repeated.stored = [2, 7, 7, 7, 7, 7, 32, 2, 0, 0, 17, 0, 0] ∧
      let blocks := [repeated, ⟨[1, 2, 3], [1, 2, 3], .whole⟩]
      let header : Header := ⟨43, 0, 9, 262144, by decide, by decide⟩
      let memory := fun i => (fileBytes header blocks).getD i 0
      ∃ turns, ∀ more, lzoDoDecomp memory (turns + more) =
        some (LZO_E_OK, ⟨54, List.replicate 40 7 ++ [1, 2, 3], 43⟩) := by
  have placed : Placed 0x80000000 40 := ⟨by decide, by decide⟩
  have packed : lzo1x1Compress (fun _ => 7) 0x80000000 40 (fun _ => 0) =
      some [2, 7, 7, 7, 7, 7, 32, 2, 0, 0, 17, 0, 0] := by decide
  have input : Holds (fun _ => (7 : U8)) 0 (List.replicate 40 7) := by rfl
  refine ⟨⟨List.replicate 40 7, _, .compressed input placed packed (by decide)⟩, rfl, ?_⟩
  intro blocks header memory
  refine lzo_do_decomp_unpacks (holds_getD _ 0) ?_ ?_
  · exact List.forall_mem_cons.mpr ⟨Nat.zero_lt_succ 39,
      List.forall_mem_singleton.mpr (Nat.zero_lt_succ 2)⟩
  · exact List.forall_mem_cons.mpr ⟨show 40 ≤ 262144 by decide,
      List.forall_mem_singleton.mpr (show 3 ≤ 262144 by decide)⟩

/-! ### Any memory -/

section Sizes

variable {memory : Nat → U8} {turns : Nat} {blksize : U32} {b next : Blocks}

/-- The total is the number of bytes that are written. -/
def Counted (b : Blocks) : Prop :=
  b.total = BitVec.ofNat 32 b.dst.length

theorem blockTurn_goes (counted : Counted b) (goes : blockTurn memory turns blksize b = .inl next) :
    Counted next := by
  rw [Counted] at counted ⊢
  rw [blockTurn] at goes
  generalize read32Data memory b.src = dstLen at goes
  generalize read32Data memory (b.src + 4) = srcLen at goes
  split at goes
  · cases goes
  split at goes
  · cases goes
  rename_i notEnd within
  split at goes
  · split at goes
    · cases goes
    · rename_i ret bytes result
      split at goes
      · cases goes
      · rename_i fine
        cases goes
        have same : BitVec.ofNat 32 bytes.length = dstLen := by
          by_contra other
          exact fine (.inr other)
        dsimp only
        rw [List.length_append, BitVec.ofNat_add, counted, same]
  · rename_i whole
    cases goes
    have same : srcLen = dstLen := by
      simp only [not_or] at within
      bv_omega
    dsimp only
    rw [List.length_append, length_slice, BitVec.ofNat_add, counted, same, BitVec.ofNat_toNat,
      BitVec.setWidth_eq]

theorem blockTurn_leaves {result : Option (Int × Blocks)}
    (leaves : blockTurn memory turns blksize b = .inr result) :
    ∀ out ∈ result, out.2 = b := by
  rw [blockTurn] at leaves
  generalize read32Data memory b.src = dstLen at leaves
  generalize read32Data memory (b.src + 4) = srcLen at leaves
  intro out member
  split at leaves
  · cases leaves
    cases member
    rfl
  split at leaves
  · cases leaves
    cases member
    rfl
  split at leaves
  · split at leaves
    · cases leaves
      cases member
    · split at leaves
      · cases leaves
        cases member
        rfl
      · cases leaves
  · cases leaves

/-- Also where a file is not well formed, the total is what is written of it. -/
theorem lzoDoDecomp_counted {ret : Int} (result : lzoDoDecomp memory turns = some (ret, b)) :
    Counted b := by
  rw [lzoDoDecomp] at result
  split at result
  · cases result
    rfl
  split at result
  · cases result
    rfl
  dsimp only at result
  split at result
  · cases result
    rfl
  obtain ⟨last, counted, leaves⟩ := Loop.returns_rule blockTurn_goes
    (show Counted ⟨22, [], 0⟩ from rfl) ⟨turns, Option.join_eq_some_iff.mp result⟩
  have same : b = last := blockTurn_leaves leaves (ret, b) rfl
  rwa [same]

end Sizes

end Gp2Firmware.Minilzo
