import Mathlib.Data.List.Range
import Mathlib.Order.Interval.Finset.Nat
import Gp2Firmware.Nand.ReserveAllocation

/-!
# The three regions and the map entries

`nand_bbm_info_setup` and `nand_bbm_info_save` walk the data region, the info
region and the reserve region one erase block at a time.  An erase block
larger than the info region makes the walk of the data region start in the
middle of block zero, which the info region then names a second time.
-/

namespace Gp2Firmware.Nand

/-- `bbm_blkinfo_t` -/
structure BlkInfo where
  offset : Nat
  length : Nat

/-- `nand_bbm_blkmap.blkinfo`, in the order `BBM_BLK_DATA`, `BBM_BLK_INFO`,
`BBM_BLK_REDIR`. -/
def nandBbmBlkmap (g : Geometry) : List BlkInfo :=
  [⟨bbmInfoSize, g.redirectStart - bbmInfoSize⟩, ⟨0, bbmInfoSize⟩,
    ⟨g.redirectStart, g.redirectSize⟩]

/-- The values of `pos` in
`for (pos = start; pos < end; pos += blocksize)`. -/
def regionPositions (g : Geometry) (info : BlkInfo) : List Nat :=
  (List.range ((info.length + g.erasesize - 1) / g.erasesize)).map
    fun turn => info.offset + turn * g.erasesize

/-- The values of `pos` in the loop over all three regions. -/
def mapPositions (g : Geometry) : List Nat :=
  (nandBbmBlkmap g).flatMap (regionPositions g)

/-- `struct bbm_mapinfo` -/
structure MapInfo where
  bbIndex : Nat
  relocIndex : Nat
  deriving DecidableEq

/-- `nand_bbm->maps` as the loop of `nand_bbm_info_save` fills it. -/
def infoMaps (g : Geometry) (s : Bbm) : List MapInfo :=
  (mapPositions g).filterMap fun pos =>
    if s.flagged (g.blockIndex pos) then
      some ⟨g.blockIndex pos, s.target (g.blockIndex pos)⟩
    else none

/-- `BBM_MAGIC` -/
def bbmMagic : Word := 0x8192a5a6

/-- `struct nand_bad_block_mng` as `nand_bbm_info_save` fills it. -/
def infoWords (g : Geometry) (s : Bbm) : List Word :=
  [bbmMagic, BitVec.ofNat 32 (s.bbCountData + s.bbCountRedirect),
      BitVec.ofNat 32 s.assignIndex] ++
    (infoMaps g s).flatMap fun entry =>
      [BitVec.ofNat 32 entry.bbIndex, BitVec.ofNat 32 entry.relocIndex]

/-- The blocks of the device with `BBM_BB_MASK` set. -/
def flaggedBlocks (g : Geometry) (s : Bbm) : Finset Nat :=
  (Finset.range g.blocks).filter fun index => s.flagged index = true

/-- The regions are made of whole blocks. -/
def Geometry.Aligned (g : Geometry) : Prop := g.erasesize ∣ bbmInfoSize

instance (g : Geometry) : Decidable g.Aligned :=
  inferInstanceAs (Decidable (g.erasesize ∣ bbmInfoSize))

/-- The blocks of the walk, in its order. -/
def mapIndices (g : Geometry) : List Nat :=
  (mapPositions g).map g.blockIndex

theorem mem_flaggedBlocks {g : Geometry} {s : Bbm} {index : Nat} :
    index ∈ flaggedBlocks g s ↔ index < g.blocks ∧ s.flagged index = true := by
  rw [flaggedBlocks, Finset.mem_filter, Finset.mem_range]

theorem infoMaps_eq (g : Geometry) (s : Bbm) :
    infoMaps g s =
      ((mapIndices g).filter s.flagged).map fun index =>
        ⟨index, s.target index⟩ := by
  rw [infoMaps, mapIndices, List.filter_map, List.map_map,
    ← List.filterMap_eq_map, List.filterMap_filter]
  rfl

/-- A loop over whole blocks from a block on. -/
private theorem map_blockIndex_range (g : Geometry) (offset turns : Nat) :
    ((List.range turns).map fun turn => offset + turn * g.erasesize).map
        g.blockIndex =
      List.range' (offset / g.erasesize) turns := by
  rw [List.map_map, List.range'_eq_map_range]
  apply List.map_congr_left
  intro turn _
  rw [Function.comp_apply, g.blockIndex_eq,
    Nat.add_mul_div_right _ _ g.erasesize_pos]

private theorem ceil_div_mul (g : Geometry) (count : Nat) :
    (count * g.erasesize + g.erasesize - 1) / g.erasesize = count := by
  have positive := g.erasesize_pos
  rw [Nat.add_sub_assoc positive, Nat.add_comm,
    Nat.add_mul_div_right _ _ positive,
    Nat.div_eq_of_lt (Nat.sub_lt positive Nat.one_pos), Nat.zero_add]

/-- An erase block that does not divide the info region is larger than it. -/
theorem Geometry.bbmInfoSize_lt_of_not_aligned
    {g : Geometry} (unaligned : ¬ g.Aligned) : bbmInfoSize < g.erasesize := by
  by_contra small
  have shift : g.physEraseShift ≤ 17 := by
    by_contra large
    have bigger : 2 ^ 18 ≤ g.erasesize :=
      Nat.pow_le_pow_right (by decide) (by omega)
    rw [bbmInfoSize] at small
    omega
  have whole : bbmInfoSize = 2 ^ 17 := by norm_num [bbmInfoSize]
  rw [Geometry.Aligned, whole] at unaligned
  exact unaligned (Nat.pow_dvd_pow 2 shift)

/-- The first block of the data region. -/
def Geometry.dataStart (g : Geometry) : Nat := bbmInfoSize / g.erasesize

theorem Geometry.dataStart_of_not_aligned
    {g : Geometry} (unaligned : ¬ g.Aligned) : g.dataStart = 0 :=
  Nat.div_eq_of_lt (g.bbmInfoSize_lt_of_not_aligned unaligned)

theorem Geometry.dataStart_le_redirFloor (g : Geometry) :
    g.dataStart ≤ g.redirFloor := by
  rw [dataStart, redirFloor, g.blockIndex_eq]
  exact Nat.div_le_div_right (Nat.le_of_lt g.bbmInfoSize_lt_redirectStart)

private theorem dataTurns (g : Geometry) :
    (g.redirectStart - bbmInfoSize + g.erasesize - 1) / g.erasesize =
      g.redirFloor - g.dataStart := by
  have start : g.redirectStart = g.redirFloor * g.erasesize := by
    rw [← g.blockPos_eq, g.blockPos_redirFloor]
  by_cases aligned : g.Aligned
  · have info : bbmInfoSize = g.dataStart * g.erasesize :=
      (Nat.div_mul_cancel aligned).symm
    rw [start, info, ← Nat.sub_mul, ceil_div_mul]
  · have small := g.bbmInfoSize_lt_of_not_aligned aligned
    have positive := g.redirFloor_pos
    have infoPositive : 0 < bbmInfoSize := by decide
    rw [start, g.dataStart_of_not_aligned aligned, Nat.sub_zero,
      show g.redirFloor * g.erasesize - bbmInfoSize + g.erasesize - 1 =
          g.erasesize - bbmInfoSize - 1 + g.redirFloor * g.erasesize by
        have := Nat.le_mul_of_pos_left g.erasesize positive
        omega,
      Nat.add_mul_div_right _ _ g.erasesize_pos,
      Nat.div_eq_of_lt (by omega), Nat.zero_add]

private theorem infoTurns (g : Geometry) :
    (bbmInfoSize + g.erasesize - 1) / g.erasesize =
      if g.Aligned then g.dataStart else 1 := by
  split
  · rename_i aligned
    have info : bbmInfoSize = g.dataStart * g.erasesize :=
      (Nat.div_mul_cancel aligned).symm
    rw [info, ceil_div_mul]
  · rename_i unaligned
    have small := g.bbmInfoSize_lt_of_not_aligned unaligned
    have infoPositive : 0 < bbmInfoSize := by decide
    rw [show bbmInfoSize + g.erasesize - 1 =
          bbmInfoSize - 1 + 1 * g.erasesize by omega,
      Nat.add_mul_div_right _ _ g.erasesize_pos,
      Nat.div_eq_of_lt (by omega)]

/-- Data blocks, then info blocks, then reserve blocks. -/
theorem mapIndices_eq (g : Geometry) :
    mapIndices g =
      List.range' g.dataStart (g.redirFloor - g.dataStart) ++
        (List.range (if g.Aligned then g.dataStart else 1) ++
          List.range' g.redirFloor g.redirBlocks) := by
  have redirTurns :
      (g.redirectSize + g.erasesize - 1) / g.erasesize = g.redirBlocks := by
    have whole : g.redirectSize = g.redirBlocks * g.erasesize :=
      (Nat.div_mul_cancel g.erasesize_dvd_redirectSize).symm
    rw [whole, ceil_div_mul]
  simp only [mapIndices, mapPositions, nandBbmBlkmap, List.flatMap_cons,
    List.flatMap_nil, List.append_nil, List.map_append, regionPositions,
    map_blockIndex_range, dataTurns, infoTurns, redirTurns, Nat.zero_div,
    ← List.range_eq_range']
  rw [Geometry.dataStart, Geometry.redirFloor, g.blockIndex_eq]

private theorem range'_split {low middle high : Nat}
    (below : low ≤ middle) (above : middle ≤ high) :
    List.range' low (high - low) =
      List.range' low (middle - low) ++ List.range' middle (high - middle) := by
  obtain ⟨first, rfl⟩ := Nat.exists_eq_add_of_le below
  obtain ⟨second, rfl⟩ := Nat.exists_eq_add_of_le above
  rw [Nat.add_sub_cancel_left, Nat.add_sub_cancel_left, List.range'_append_1]
  congr 1
  omega

/-- With whole blocks the walk meets every block once. -/
theorem mapIndices_perm {g : Geometry} (aligned : g.Aligned) :
    (mapIndices g).Perm (List.range g.blocks) := by
  have total := g.redirFloor_add_redirBlocks
  have data := g.dataStart_le_redirFloor
  have reserve : g.redirBlocks = g.blocks - g.redirFloor := by omega
  have whole : List.range g.blocks =
      List.range g.dataStart ++
        (List.range' g.dataStart (g.redirFloor - g.dataStart) ++
          List.range' g.redirFloor g.redirBlocks) := by
    have bound : g.redirFloor ≤ g.blocks := by omega
    rw [reserve, ← range'_split data bound, List.range_eq_range',
      List.range_eq_range']
    exact range'_split (Nat.zero_le _) (le_trans data bound)
  rw [mapIndices_eq, if_pos aligned, whole]
  exact List.perm_append_comm_assoc _ _ _

/-- Otherwise it meets block zero twice. -/
theorem mapIndices_perm_of_not_aligned
    {g : Geometry} (unaligned : ¬ g.Aligned) :
    (mapIndices g).Perm (0 :: List.range g.blocks) := by
  have total := g.redirFloor_add_redirBlocks
  have reserve : g.redirBlocks = g.blocks - g.redirFloor := by omega
  have whole : List.range g.blocks =
      List.range' 0 g.redirFloor ++ List.range' g.redirFloor g.redirBlocks := by
    have bound : g.redirFloor ≤ g.blocks := by omega
    rw [reserve, List.range_eq_range']
    exact range'_split (Nat.zero_le _) bound
  rw [mapIndices_eq, if_neg unaligned, g.dataStart_of_not_aligned unaligned,
    Nat.sub_zero, whole, List.range_one, List.singleton_append]
  exact List.perm_middle

private theorem length_filter_range (g : Geometry) (s : Bbm) :
    ((List.range g.blocks).filter s.flagged).length =
      (flaggedBlocks g s).card := by
  have same : flaggedBlocks g s =
      ((List.range g.blocks).filter s.flagged).toFinset := by
    ext index
    simp [mem_flaggedBlocks]
  rw [same, List.toFinset_card_of_nodup (List.nodup_range.filter _)]

/-- The number of map entries: one for each flagged block, and one more when
block zero is flagged and named twice. -/
theorem infoMaps_length (g : Geometry) (s : Bbm) :
    (infoMaps g s).length =
      (flaggedBlocks g s).card +
        if ¬ g.Aligned ∧ s.flagged 0 = true then 1 else 0 := by
  rw [infoMaps_eq, List.length_map, ← length_filter_range]
  by_cases aligned : g.Aligned
  · rw [if_neg (fun both => both.1 aligned), Nat.add_zero]
    exact ((mapIndices_perm aligned).filter _).length_eq
  · rw [((mapIndices_perm_of_not_aligned aligned).filter s.flagged).length_eq]
    by_cases flagged : s.flagged 0 = true
    · rw [List.filter_cons_of_pos flagged, List.length_cons,
        if_pos ⟨aligned, flagged⟩]
    · rw [List.filter_cons_of_neg flagged, if_neg (fun both => flagged both.2),
        Nat.add_zero]

theorem infoWords_length (g : Geometry) (s : Bbm) :
    (infoWords g s).length = 3 + 2 * (infoMaps g s).length := by
  have pairs : ∀ entries : List MapInfo,
      (entries.flatMap fun entry =>
        [BitVec.ofNat 32 entry.bbIndex,
          (BitVec.ofNat 32 entry.relocIndex : Word)]).length =
        2 * entries.length := by
    intro entries
    induction entries with
    | nil => rfl
    | cons entry rest inductionHypothesis =>
        rw [List.flatMap_cons, List.length_append, inductionHypothesis,
          List.length_cons]
        simp only [List.length_cons, List.length_nil]
        omega
  rw [infoWords, List.length_append, pairs]
  rfl

private theorem pairs_getElem?
    (entries : List MapInfo) (index : Nat) :
    (entries.flatMap fun entry =>
        [BitVec.ofNat 32 entry.bbIndex,
          (BitVec.ofNat 32 entry.relocIndex : Word)])[2 * index]? =
        entries[index]?.map (fun entry => BitVec.ofNat 32 entry.bbIndex) ∧
      (entries.flatMap fun entry =>
        [BitVec.ofNat 32 entry.bbIndex,
          (BitVec.ofNat 32 entry.relocIndex : Word)])[2 * index + 1]? =
        entries[index]?.map (fun entry => BitVec.ofNat 32 entry.relocIndex) := by
  induction entries generalizing index with
  | nil => exact ⟨rfl, rfl⟩
  | cons entry rest inductionHypothesis =>
      cases index with
      | zero => exact ⟨rfl, rfl⟩
      | succ index =>
          rw [show 2 * (index + 1) = 2 * index + 1 + 1 by omega]
          exact inductionHypothesis index

/-- The words of the entry with a number. -/
theorem infoWords_entry
    {g : Geometry} {s : Bbm} {index : Nat} {entry : MapInfo}
    (found : (infoMaps g s)[index]? = some entry) :
    (infoWords g s).getD (3 + 2 * index) 0 = BitVec.ofNat 32 entry.bbIndex ∧
      (infoWords g s).getD (4 + 2 * index) 0 =
        BitVec.ofNat 32 entry.relocIndex := by
  obtain ⟨bb, reloc⟩ := pairs_getElem? (infoMaps g s) index
  rw [found, Option.map_some] at bb reloc
  rw [infoWords, List.getD_eq_getElem?_getD, List.getD_eq_getElem?_getD,
    List.getElem?_append_right (by simp),
    List.getElem?_append_right (by simp; omega)]
  simp only [List.length_cons, List.length_nil]
  rw [show 3 + 2 * index - (0 + 1 + 1 + 1) = 2 * index by omega,
    show 4 + 2 * index - (0 + 1 + 1 + 1) = 2 * index + 1 by omega, bb, reloc]
  exact ⟨rfl, rfl⟩

end Gp2Firmware.Nand
