import Gp2Firmware.Nand.ReserveAllocation

/-!
# Translation of offsets

The lookup that every access makes before it goes to the chip.  The sources
repeat it in line wherever they need it; it is the macro `NAND_BBM_ADJUST`,
and with the bad-block test and the assignment behind it the macro
`NAND_BBM_ADJUST_CHECK`.
-/

namespace Gp2Firmware.Nand

/-- `NAND_BBM_ADJUST` -/
def nandBbmAdjust (g : Geometry) (s : Bbm) (ofs : Nat) : Nat :=
  if s.nandBbmCheck && s.flagged (g.blockIndex ofs) then
    g.blockPos (s.target (g.blockIndex ofs)) ||| (ofs &&& (g.erasesize - 1))
  else ofs

/-- `NAND_BBM_ADJUST_CHECK` -/
def nandBbmAdjustCheck (g : Geometry) (blockBad : Nat → Bool) (s : Bbm)
    (ofs : Nat) : Nat × Bbm :=
  if s.nandBbmCheck && blockBad (nandBbmAdjust g s ofs) then
    nandBbmAssignBlock g blockBad s (nandBbmAdjust g s ofs)
  else (nandBbmAdjust g s ofs, s)

/-- The lookup as it is made for a page number. -/
def adjustPage (g : Geometry) (s : Bbm) (page : Nat) : Nat :=
  nandBbmAdjust g s (page <<< g.pageShift) >>> g.pageShift &&& g.pagemask

/-- The block that the lookup leads to. -/
def Bbm.translate (s : Bbm) (block : Nat) : Nat :=
  if s.nandBbmCheck && s.flagged block then s.target block else block

theorem Bbm.translate_of_check
    {s : Bbm} {block : Nat} (check : s.nandBbmCheck = true)
    (flagged : s.flagged block = true) :
    s.translate block = s.target block := by
  rw [translate, check, flagged]
  rfl

theorem Bbm.translate_of_not_flagged
    {s : Bbm} {block : Nat} (clear : s.flagged block = false) :
    s.translate block = block := by
  rw [translate, clear, Bool.and_false]
  rfl

theorem Bbm.translate_of_not_check
    {s : Bbm} (block : Nat) (check : s.nandBbmCheck = false) :
    s.translate block = block := by
  rw [translate, check, Bool.false_and]
  rfl

theorem nandBbmAdjust_eq (g : Geometry) (s : Bbm) (ofs : Nat) :
    nandBbmAdjust g s ofs =
      s.translate (g.blockIndex ofs) * g.erasesize + ofs % g.erasesize := by
  rw [nandBbmAdjust, Bbm.translate]
  split
  · exact g.blockPos_or_and _ _
  · rw [g.blockIndex_eq, Nat.div_add_mod']

@[simp]
theorem blockIndex_nandBbmAdjust (g : Geometry) (s : Bbm) (ofs : Nat) :
    g.blockIndex (nandBbmAdjust g s ofs) = s.translate (g.blockIndex ofs) := by
  have small := Nat.mod_lt ofs g.erasesize_pos
  rw [nandBbmAdjust_eq, g.blockIndex_eq, Nat.add_comm,
    Nat.add_mul_div_right _ _ g.erasesize_pos, Nat.div_eq_of_lt small,
    Nat.zero_add]

theorem nandBbmAdjust_blockPos (g : Geometry) (s : Bbm) (block : Nat) :
    nandBbmAdjust g s (g.blockPos block) = g.blockPos (s.translate block) := by
  rw [nandBbmAdjust_eq, g.blockIndex_blockPos, g.blockPos_eq, g.blockPos_eq,
    Nat.mul_mod_left, Nat.add_zero]

/-- All blocks of the map lead into the chip. -/
def Bbm.TargetsInside (g : Geometry) (s : Bbm) : Prop :=
  ∀ block, block < g.blocks → s.target block < g.blocks

theorem ReserveInv.targetsInside
    {g : Geometry} {s : Bbm} (inv : ReserveInv g s) : s.TargetsInside g := by
  intro block inside
  by_cases moved : s.target block = block
  · rwa [moved]
  · have holds := Bbm.redirect_eq_some_iff.mpr ⟨inside, rfl, moved⟩
    have within := inv.pool.le_high holds
    have top := g.redirTop_succ
    omega

theorem Bbm.TargetsInside.translate_lt
    {g : Geometry} {s : Bbm} (targets : s.TargetsInside g)
    {block : Nat} (inside : block < g.blocks) :
    s.translate block < g.blocks := by
  rw [translate]
  split
  · exact targets block inside
  · exact inside

theorem adjustPage_eq
    {g : Geometry} {s : Bbm} (targets : s.TargetsInside g)
    {page : Nat} (inside : page < g.pages) :
    adjustPage g s page =
      s.translate (page / g.pagesPerBlock) * g.pagesPerBlock +
        page % g.pagesPerBlock := by
  have block := targets.translate_lt (g.page_div_lt_blocks inside)
  rw [adjustPage, nandBbmAdjust_eq, g.blockIndex_page, g.page_of_translated,
    g.and_pagemask
      (g.page_lt_pages block (Nat.mod_lt page g.pagesPerBlock_pos))]

/-- The block that a translated page lies in. -/
theorem adjustPage_div
    {g : Geometry} {s : Bbm} (targets : s.TargetsInside g)
    {page : Nat} (inside : page < g.pages) :
    adjustPage g s page / g.pagesPerBlock =
      s.translate (page / g.pagesPerBlock) := by
  have column := Nat.mod_lt page g.pagesPerBlock_pos
  rw [adjustPage_eq targets inside, Nat.add_comm,
    Nat.add_mul_div_right _ _ g.pagesPerBlock_pos, Nat.div_eq_of_lt column,
    Nat.zero_add]

theorem nandBbmAdjustCheck_of_good
    {g : Geometry} {blockBad : Nat → Bool} {s : Bbm} {ofs : Nat}
    (good : s.nandBbmCheck = true →
      blockBad (nandBbmAdjust g s ofs) = false) :
    nandBbmAdjustCheck g blockBad s ofs = (nandBbmAdjust g s ofs, s) := by
  rw [nandBbmAdjustCheck]
  cases check : s.nandBbmCheck with
  | false => rfl
  | true =>
      rw [good check]
      rfl

theorem nandBbmAdjustCheck_of_bad
    {g : Geometry} {blockBad : Nat → Bool} {s : Bbm} {ofs : Nat}
    (check : s.nandBbmCheck = true)
    (bad : blockBad (nandBbmAdjust g s ofs) = true) :
    nandBbmAdjustCheck g blockBad s ofs =
      nandBbmAssignBlock g blockBad s (nandBbmAdjust g s ofs) := by
  rw [nandBbmAdjustCheck, check, bad]
  rfl

theorem reserveInv_adjustCheck
    {g : Geometry} {s : Bbm} (inv : ReserveInv g s)
    (blockBad : Nat → Bool) (ofs : Nat) :
    ReserveInv g (nandBbmAdjustCheck g blockBad s ofs).2 := by
  rw [nandBbmAdjustCheck]
  split
  · exact reserveInv_assignBlock inv blockBad _
  · exact inv

end Gp2Firmware.Nand
