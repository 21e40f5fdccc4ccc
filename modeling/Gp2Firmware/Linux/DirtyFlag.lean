import Gp2Firmware.Linux.InfoBlock
import Gp2Firmware.Linux.PageCache

/-!
# The dirty flag

`nand_bbm_assign_block` counts `bbm_dirty_flag` up, `nand_bbm_update` saves the map and
sets the flag to zero.  What a run keeps is that a clean map is the one in block zero.
-/

namespace Gp2Firmware.Linux

open Gp2Firmware.Nand
open Gp2Firmware.Lib

variable {g : Geometry} {layout : NandLayout} {chip : ChipBehaviour}

/-! ### The map -/

/-- The map leads into the chip, and only from block zero to block zero. -/
structure LeadsAway (g : Geometry) (s : Bbm) : Prop where
  cursor_le : s.assignIndex ≤ g.redirTop
  inside : s.TargetsInside g
  away : ∀ block < g.blocks, block ≠ 0 → s.target block ≠ 0

theorem leadsAway_init (g : Geometry) (s : Bbm) : LeadsAway g (nandBbmInfoInit g s) where
  cursor_le := le_refl _
  inside := fun block inside => by rwa [nandBbmInfoInit_target g s inside]
  away := fun block inside other => by rwa [nandBbmInfoInit_target g s inside]

namespace LeadsAway

variable {s : Bbm}

theorem setCheck (leads : LeadsAway g s) (check : Bool) : LeadsAway g (s.setCheck check) :=
  ⟨leads.cursor_le, leads.inside, leads.away⟩

theorem assignBlock (leads : LeadsAway g s) (blockBad : Nat → Bool) (badpos : Nat) :
    LeadsAway g (Nand.nandBbmAssignBlock g blockBad s badpos).2 := by
  have cursor := leads.cursor_le
  have top := g.redirTop_succ
  cases found : reserveFor g blockBad s.assignIndex with
  | none =>
      rw [nandBbmAssignBlock_of_none found]
      refine ⟨le_trans (Nat.min_le_right _ _) cursor, ?_, ?_⟩
      · intro block inside
        rw [Bbm.target_setCheck, Bbm.target_skipTo]
        exact leads.inside block inside
      · intro block inside other
        rw [Bbm.target_setCheck, Bbm.target_skipTo]
        exact leads.away block inside other
  | some reserve =>
      obtain ⟨above, within, _⟩ := reserveFor_eq_some_iff.mp found
      have small := reserve_lt_pow cursor found
      have lowered : ((s.assigned (g.blockIndex badpos) reserve).setCheck true).assignIndex =
        reserve - 1 := rfl
      rw [nandBbmAssignBlock_of_some found]
      refine ⟨by rw [lowered]; omega, ?_, ?_⟩
      · intro block inside
        rw [Bbm.target_setCheck, Bbm.target_assigned _ _ _ small]
        split
        · omega
        · exact leads.inside block inside
      · intro block inside other
        rw [Bbm.target_setCheck, Bbm.target_assigned _ _ _ small]
        split
        · omega
        · exact leads.away block inside other

theorem translate_ne_zero (leads : LeadsAway g s) {block : Nat} (inside : block < g.blocks)
    (other : block ≠ 0) : s.translate block ≠ 0 := by
  unfold Bbm.translate
  split
  · exact leads.away block inside other
  · exact other

/-- A page outside block zero is stored outside block zero. -/
theorem le_adjustPage (leads : LeadsAway g s) {page : Nat} (inside : page < g.pages)
    (outside : g.pagesPerBlock ≤ page) : g.pagesPerBlock ≤ adjustPage g s page := by
  have block : page / g.pagesPerBlock ≠ 0 :=
    Nat.ne_of_gt (Nat.div_pos outside g.pagesPerBlock_pos)
  have moved := leads.translate_ne_zero (g.page_div_lt_blocks inside) block
  rw [adjustPage_eq leads.inside inside]
  exact le_trans (Nat.le_mul_of_pos_left _ (Nat.pos_of_ne_zero moved)) (Nat.le_add_right _ _)

end LeadsAway

/-- There is a reserve block to hand out, or none is left to be marked bad. -/
def Stocked (g : Geometry) (chip : ChipBehaviour) (s : Bbm) : Prop :=
  s.assignIndex ≤ g.redirFloor ∨ reserveFor g chip.blockBad s.assignIndex ≠ none

/-- The map, or the map with translation switched off for want of reserve blocks. -/
def MapKept (g : Geometry) (s t : Bbm) : Prop :=
  t = s ∨ s.assignIndex ≤ g.redirFloor ∧ t = s.setCheck false

theorem reserveFor_of_le {blockBad : Nat → Bool} {top : Nat} (low : top ≤ g.redirFloor) :
    reserveFor g blockBad top = none :=
  reserveFor_eq_none_iff.mpr fun index above below => by omega

theorem assignBlock_of_le {s : Bbm} (low : s.assignIndex ≤ g.redirFloor)
    (blockBad : Nat → Bool) (badpos : Nat) :
    (Nand.nandBbmAssignBlock g blockBad s badpos).2 = s.setCheck false := by
  rw [nandBbmAssignBlock_of_none (reserveFor_of_le low), Bbm.skipTo_self low]

/-- An assignment never lowers the dirty flag. -/
theorem assignBlock_dirty {s : Bbm} (dirty : s.bbmDirtyFlag ≠ 0) (blockBad : Nat → Bool)
    (badpos : Nat) :
    (Nand.nandBbmAssignBlock g blockBad s badpos).2.bbmDirtyFlag ≠ 0 := by
  cases found : reserveFor g blockBad s.assignIndex with
  | none =>
      rw [nandBbmAssignBlock_of_none found]
      exact dirty
  | some reserve =>
      rw [nandBbmAssignBlock_of_some found]
      exact Nat.succ_ne_zero _

/-- An assignment makes the map dirty, or leaves it as it is. -/
theorem MapKept.assignBlock {s t : Bbm} (same : MapKept g s t)
    (stocked : t = s → Stocked g chip s) (badpos : Nat) :
    (Nand.nandBbmAssignBlock g chip.blockBad t badpos).2.bbmDirtyFlag ≠ 0 ∨
      MapKept g s (Nand.nandBbmAssignBlock g chip.blockBad t badpos).2 := by
  have exhausted : ∀ check, s.assignIndex ≤ g.redirFloor → t = s.setCheck check →
      MapKept g s (Nand.nandBbmAssignBlock g chip.blockBad t badpos).2 := by
    intro check low equal
    refine Or.inr ⟨low, ?_⟩
    rw [equal]
    exact assignBlock_of_le (s := s.setCheck check) low chip.blockBad badpos
  rcases same with equal | ⟨low, equal⟩
  · rcases stocked equal with low | found
    · exact Or.inr (exhausted s.nandBbmCheck low equal)
    · left
      obtain ⟨reserve, found⟩ := Option.ne_none_iff_exists'.mp found
      rw [equal, nandBbmAssignBlock_of_some found]
      exact Nat.succ_ne_zero _
  · exact Or.inr (exhausted false low equal)

/-! ### Block zero -/

/-- Block zero of the chip is the same. -/
def SameInfoBlock (g : Geometry) (f after : Flash) : Prop :=
  ∀ page < g.pagesPerBlock, after.data page = f.data page

theorem SameInfoBlock.trans {f after last : Flash} (first : SameInfoBlock g f after)
    (second : SameInfoBlock g after last) : SameInfoBlock g f last :=
  fun page inside => (second page inside).trans (first page inside)

theorem sameInfoBlock_programPage {f : Flash} {page : Nat} (outside : g.pagesPerBlock ≤ page)
    (data spare : Page) : SameInfoBlock g f (f.programPage chip page data spare).2 :=
  fun _ inside => Flash.programPage_other (by omega) data spare

theorem sameInfoBlock_eraseBlock {f : Flash} {page : Nat} (outside : g.pagesPerBlock ≤ page) :
    SameInfoBlock g f (f.eraseBlock g chip page).2 :=
  fun _ inside => Flash.eraseBlock_other (by omega)

theorem sameInfoBlock_copySpare (oob : Page) {page : Nat} (outside : g.pagesPerBlock ≤ page)
    (d : Device) : SameInfoBlock g d.flash (copySpare layout chip oob page d).flash := by
  unfold copySpare
  split
  · exact fun _ _ => rfl
  · exact sameInfoBlock_programPage outside _ _

theorem sameInfoBlock_copyData (data : Page) {page : Nat} (outside : g.pagesPerBlock ≤ page)
    (d : Device) : SameInfoBlock g d.flash (copyData g chip data page d).2.flash := by
  unfold copyData
  split
  · exact fun _ _ => rfl
  · exact sameInfoBlock_programPage outside _ _

theorem sameInfoBlock_copyLoop (dump : Flash) (source : Nat) {target : Nat}
    (outside : g.pagesPerBlock ≤ target) (left i : Nat) (d : Device) :
    SameInfoBlock g d.flash (copyLoop g layout chip dump source target left i d).2.flash := by
  induction left generalizing i d with
  | zero => exact fun _ _ => rfl
  | succ left inductionHypothesis =>
      have page : g.pagesPerBlock ≤ target + i := le_trans outside (Nat.le_add_right _ _)
      have spare := @sameInfoBlock_copySpare g layout chip (dump.spare (source + i))
        (target + i) page d
      have copied := spare.trans
        (@sameInfoBlock_copyData g chip (dump.data (source + i)) (target + i) page _)
      rw [copyLoop]
      split
      · exact copied
      · exact copied.trans (inductionHypothesis _ _)

/-- A reserve block is erased and filled outside block zero. -/
theorem sameInfoBlock_assignBlock {d : Device} (cursor : d.bbm.assignIndex ≤ g.redirTop)
    (badpos : Nat) (blkcopy : Bool) :
    SameInfoBlock g d.flash
      (nandBbmAssignBlock g layout chip d badpos blkcopy).2.flash := by
  have loop := assignLoop_eq g chip.blockBad badpos (d.bbm.setCheck false)
  rw [Bbm.assignIndex_setCheck] at loop
  unfold nandBbmAssignBlock
  rw [loop]
  cases found : reserveFor g chip.blockBad d.bbm.assignIndex with
  | none => exact fun _ _ => rfl
  | some reserve =>
      obtain ⟨above, within, _⟩ := reserveFor_eq_some_iff.mp found
      have top := g.redirTop_succ
      have inside : reserve < g.blocks := by omega
      have first : g.pagesPerBlock ≤ reserve * g.pagesPerBlock :=
        Nat.le_mul_of_pos_left _ (by omega)
      have start : g.blockPos reserve >>> g.pageShift &&& g.pagemask =
          reserve * g.pagesPerBlock := by
        rw [g.blockPos_shiftRight, g.and_pagemask (g.firstPage_lt inside)]
      cases blkcopy with
      | false => exact fun _ _ => rfl
      | true =>
          refine SameInfoBlock.trans ?_ (sameInfoBlock_copyLoop _ _ ?_ _ _ _)
          · exact sameInfoBlock_eraseBlock (by rw [start]; exact first)
          · rw [g.blockPos_shiftRight]
            exact first

/-! ### Calls -/

/-- Since `d` the map has become dirty, or it is the same and so is block zero. -/
structure Settled (g : Geometry) (d next : Device) : Prop where
  leads : LeadsAway g next.bbm
  kept : next.bbm.bbmDirtyFlag ≠ 0 ∨
    MapKept g d.bbm next.bbm ∧ SameInfoBlock g d.flash next.flash

variable {d next : Device}

theorem Settled.refl (leads : LeadsAway g d.bbm) : Settled g d d :=
  ⟨leads, Or.inr ⟨Or.inl rfl, fun _ _ => rfl⟩⟩

theorem MapKept.dirty {s t : Bbm} (same : MapKept g s t) : t.bbmDirtyFlag = s.bbmDirtyFlag := by
  rcases same with equal | ⟨_, equal⟩
  · rw [equal]
  · rw [equal]
    rfl

namespace Settled

/-- A change of the chip outside block zero. -/
theorem ofFlash {after : Device} (settled : Settled g d next) (bbm : after.bbm = next.bbm)
    (flash : next.bbm.bbmDirtyFlag = 0 → SameInfoBlock g next.flash after.flash) :
    Settled g d after := by
  refine ⟨by rw [bbm]; exact settled.leads, ?_⟩
  rw [bbm]
  by_cases dirty : next.bbm.bbmDirtyFlag = 0
  · obtain ⟨same, block⟩ := settled.kept.resolve_left (not_not.mpr dirty)
    exact Or.inr ⟨same, block.trans (flash dirty)⟩
  · exact Or.inl dirty

/-- A map that has been through an assignment. -/
theorem ofAssign {after : Device} (settled : Settled g d next) {badpos : Nat}
    (bbm : after.bbm = (Nand.nandBbmAssignBlock g chip.blockBad next.bbm badpos).2)
    (flash : next.bbm.bbmDirtyFlag = 0 → SameInfoBlock g next.flash after.flash)
    (stocked : d.bbm.bbmDirtyFlag = 0 → next.bbm = d.bbm → Stocked g chip d.bbm) :
    Settled g d after := by
  refine ⟨by rw [bbm]; exact settled.leads.assignBlock _ _, ?_⟩
  by_cases dirty : next.bbm.bbmDirtyFlag = 0
  · obtain ⟨same, block⟩ := settled.kept.resolve_left (not_not.mpr dirty)
    have clean : d.bbm.bbmDirtyFlag = 0 := by rw [← same.dirty, dirty]
    rw [bbm]
    exact (same.assignBlock (stocked clean) badpos).imp_right
      fun still => ⟨still, block.trans (flash dirty)⟩
  · left
    rw [bbm]
    exact assignBlock_dirty dirty _ _

end Settled

/-- A call outside block zero. -/
def Call.OffInfoBlock (g : Geometry) : Call → Prop
  | .read .. => True
  | .write _ start len _ =>
      ∀ page, InRequest g start len page → g.pagesPerBlock ≤ page &&& g.pagemask
  | .erase _ instr =>
      ∀ i < instr.len >>> g.physEraseShift, g.pagesPerBlock ≤ eraseFirstPage g instr i

/-- Every reserve block that a call marks bad is counted in the dirty flag. -/
def Call.Counted (g : Geometry) (d : Device) : Call → Prop
  | .read .. => True
  | .write chip start len buf =>
      Stocked g chip d.bbm ∨ (Call.write chip start len buf).NothingGoesBad g d
  | .erase chip instr =>
      Stocked g chip d.bbm ∨ (Call.erase chip instr).NothingGoesBad g d

/-! ### Reads -/

theorem readTurn_keeps (fetch : Nat → Nat → Fetched) (r : ReadState) :
    (readTurn g fetch r).device.bbm = r.device.bbm ∧
      (readTurn g fetch r).device.flash = r.device.flash := by
  unfold readTurn
  dsimp only
  split
  · exact ⟨rfl, rfl⟩
  · split
    · exact ⟨rfl, rfl⟩
    · exact ⟨rfl, rfl⟩

theorem readLoop_keeps (fetch : Nat → Nat → Fetched) (turns : Nat) (r : ReadState) :
    (readLoop g fetch turns r).device.bbm = r.device.bbm ∧
      (readLoop g fetch turns r).device.flash = r.device.flash := by
  induction turns generalizing r with
  | zero => exact ⟨rfl, rfl⟩
  | succ turns inductionHypothesis =>
      obtain ⟨bbm, flash⟩ := readTurn_keeps (g := g) fetch r
      rw [readLoop]
      split
      · exact ⟨bbm, flash⟩
      · obtain ⟨later, laterFlash⟩ := inductionHypothesis (readTurn g fetch r)
        exact ⟨later.trans bbm, laterFlash.trans flash⟩

/-! ### Writes -/

theorem and_pagemask_lt (g : Geometry) (page : Nat) : page &&& g.pagemask < g.pages := by
  have some_ : 0 < g.pages := by
    have := g.page_lt_pages g.blocks_pos g.pagesPerBlock_pos
    omega
  have masked : page &&& g.pagemask ≤ g.pages - 1 := Nat.and_le_right
  omega

/-- What a write needs so that it leaves a clean map in block zero. -/
structure CleanWrite (g : Geometry) (chip : ChipBehaviour) (d : Device) (start len : Nat) :
    Prop where
  outside : ∀ page, InRequest g start len page → g.pagesPerBlock ≤ page &&& g.pagemask
  counted : Stocked g chip d.bbm ∨
    ∀ page, InRequest g start len page →
      ∀ tick, chip.programFails tick (d.place g page) = false

theorem settled_written {start len : Nat} {w : WriteState} {buf : Nat → Byte}
    (here : InWrite g start len w) (settled : Settled g d w.device)
    (clean : d.bbm.bbmDirtyFlag = 0 → CleanWrite g chip d start len) :
    Settled g d (written g chip buf w) := by
  refine settled.ofFlash (written_bbm buf w) fun flag => ?_
  obtain ⟨same, _⟩ := settled.kept.resolve_left (not_not.mpr flag)
  have outside := (clean (same.dirty.symm.trans flag)).outside w.realpage here.inRequest
  rw [← here.page] at outside
  have onChip : w.page < g.pages := by
    rw [here.page]
    exact and_pagemask_lt g w.realpage
  have programmed := @sameInfoBlock_programPage g chip (writeDevice g buf w).flash
    (adjustPage g w.device.bbm w.page) (settled.leads.le_adjustPage onChip outside)
    (writeData g buf w) (writeDevice g buf w).oobPoi
  intro page inside
  rw [← writeDevice_flash (g := g) buf w]
  exact programmed page inside

theorem settled_retried {start len : Nat} {w : WriteState} {buf : Nat → Byte}
    (here : InWrite g start len w) (settled : Settled g d w.device)
    (clean : d.bbm.bbmDirtyFlag = 0 → CleanWrite g chip d start len)
    (fails : turnFails g chip w = true) :
    Settled g d (retried g layout chip buf w).device := by
  have written_ := @settled_written g chip d start len w buf here settled clean
  have cursor := written_.leads.cursor_le
  refine written_.ofAssign (nandBbmAssignBlock_map g layout chip _ _ true).2
    (fun _ => sameInfoBlock_assignBlock cursor _ true) fun flag equal => ?_
  refine (clean flag).counted.resolve_right fun works => ?_
  have here_ := works w.realpage here.inRequest w.device.flash.tick
  rw [written_bbm] at equal
  rw [Device.place, ← equal, ← here.page] at here_
  rw [turnFails, here_] at fails
  cases fails

theorem settled_write {start len : Nat} {buf : Nat → Byte} {result : WriteResult}
    (leads : LeadsAway g d.bbm)
    (clean : d.bbm.bbmDirtyFlag = 0 → CleanWrite g chip d start len)
    (returns : WriteReturns g layout chip d start len buf result) :
    Settled g d result.device := by
  cases refused : writeRefused g layout chip start len with
  | some ret =>
      obtain ⟨turns, ran⟩ := returns
      rw [nandDoWriteOps, refused, Option.some_inj] at ran
      rw [← ran]
      exact .refl leads
  | none =>
      have loop : Loop.Returns (writeTurn g layout chip buf len) (writeStart g d start len)
          result := by
        obtain ⟨turns, ran⟩ := returns
        rw [nandDoWriteOps, refused] at ran
        exact ⟨turns, ran⟩
      have keeps : ∀ {w next : WriteState},
          InWrite g start len w ∧ Settled g d w.device →
            writeTurn g layout chip buf len w = .inl next →
              InWrite g start len next ∧ Settled g d next.device := by
        intro w next holds step
        obtain ⟨here, settled⟩ := holds
        rw [writeTurn_eq] at step
        split at step
        · rename_i fails
          rw [← Sum.inl.inj step]
          exact ⟨here.retried, settled_retried here settled clean fails⟩
        · split at step
          · cases step
          · rename_i more
            rw [← Sum.inl.inj step]
            exact ⟨here.nextPage more, settled_written here settled clean⟩
      have started : Settled g d (writeStart g d start len).device :=
        (Settled.refl leads).ofFlash rfl fun _ _ _ => rfl
      obtain ⟨last, ⟨here, settled⟩, leaves⟩ :=
        Loop.returns_rule keeps ⟨inWrite_start d refused, started⟩ loop
      rw [writeTurn_eq] at leaves
      split at leaves
      · cases leaves
      · split at leaves
        · rw [← Sum.inr.inj leaves]
          exact settled_written here settled clean
        · cases leaves

/-! ### Erases -/

/-- Where the erase of a block goes, and what it makes of the map. -/
theorem erasePage_block {s : Bbm} (leads : LeadsAway g s) {block : Nat}
    (inside : block < g.blocks) :
    ∃ at_ < g.blocks, (block ≠ 0 → at_ ≠ 0) ∧
      (erasePage g chip s (block * g.pagesPerBlock)).1 = at_ * g.pagesPerBlock ∧
      ((erasePage g chip s (block * g.pagesPerBlock)).2 = s ∨
        (s.nandBbmCheck = true ∧
          chip.blockBad (nandBbmAdjust g s (g.blockPos block)) = true) ∧
        ∃ badpos, (erasePage g chip s (block * g.pagesPerBlock)).2 =
          (Nand.nandBbmAssignBlock g chip.blockBad s badpos).2) := by
  have page : ∀ at_ < g.blocks, g.blockPos at_ >>> g.pageShift &&& g.pagemask =
      at_ * g.pagesPerBlock := by
    intro at_ there
    rw [g.blockPos_shiftRight, g.and_pagemask (g.firstPage_lt there)]
  have moved := leads.inside.translate_lt inside
  have away := leads.translate_ne_zero inside
  unfold erasePage
  rw [g.shiftLeft_block]
  by_cases check : s.nandBbmCheck = true
  · rw [if_pos check]
    by_cases bad : chip.blockBad (nandBbmAdjust g s (g.blockPos block)) = true
    · rw [nandBbmAdjustCheck_of_bad check bad, nandBbmAdjust_blockPos]
      cases found : reserveFor g chip.blockBad s.assignIndex with
      | none =>
          refine ⟨s.translate block, moved, away, ?_, Or.inr ⟨⟨check, ?_⟩, _, rfl⟩⟩
          · rw [nandBbmAssignBlock_of_none found]
            exact page _ moved
          · rwa [nandBbmAdjust_blockPos] at bad
      | some reserve =>
          obtain ⟨above, within, _⟩ := reserveFor_eq_some_iff.mp found
          have cursor := leads.cursor_le
          have top := g.redirTop_succ
          have there : reserve < g.blocks := by omega
          refine ⟨reserve, there, fun _ => by omega, ?_, Or.inr ⟨⟨check, ?_⟩, _, rfl⟩⟩
          · rw [nandBbmAssignBlock_of_some found]
            exact page _ there
          · rwa [nandBbmAdjust_blockPos] at bad
    · have good : s.nandBbmCheck = true →
          chip.blockBad (nandBbmAdjust g s (g.blockPos block)) = false :=
        fun _ => Bool.eq_false_of_not_eq_true bad
      rw [nandBbmAdjustCheck_of_good good, nandBbmAdjust_blockPos]
      exact ⟨s.translate block, moved, away, page _ moved, Or.inl rfl⟩
  · rw [if_neg check]
    exact ⟨block, inside, id, rfl, Or.inl rfl⟩

/-- What the erase of a block needs so that it leaves a clean map in block zero. -/
structure CleanEraseOf (g : Geometry) (chip : ChipBehaviour) (d : Device) (block : Nat) :
    Prop where
  outside : block ≠ 0
  counted : Stocked g chip d.bbm ∨ (d.bbm.nandBbmCheck = true →
    chip.blockBad (nandBbmAdjust g d.bbm (g.blockPos block)) = false)

theorem settled_eraseTurn {block : Nat} (inside : block < g.blocks)
    (settled : Settled g d next)
    (clean : d.bbm.bbmDirtyFlag = 0 → CleanEraseOf g chip d block) :
    Settled g d (eraseTurn g chip next (block * g.pagesPerBlock)).2 := by
  obtain ⟨at_, there, away, page, map⟩ :=
    @erasePage_block g chip next.bbm settled.leads block inside
  have flash : next.bbm.bbmDirtyFlag = 0 → SameInfoBlock g next.flash
      (eraseTurn g chip next (block * g.pagesPerBlock)).2.flash := by
    intro flag
    obtain ⟨same, _⟩ := settled.kept.resolve_left (not_not.mpr flag)
    have outside := away (clean (same.dirty.symm.trans flag)).outside
    have first : g.pagesPerBlock ≤ at_ * g.pagesPerBlock :=
      Nat.le_mul_of_pos_left _ (Nat.pos_of_ne_zero outside)
    unfold eraseTurn
    simp only [page, g.and_pagemask (g.firstPage_lt there)]
    exact sameInfoBlock_eraseBlock first
  rcases map with unchanged | ⟨⟨check, bad⟩, badpos, assigned⟩
  · exact settled.ofFlash unchanged flash
  · refine settled.ofAssign assigned flash fun flag equal => ?_
    refine (clean flag).counted.resolve_right fun good => ?_
    rw [equal] at check bad
    rw [good check] at bad
    cases bad

theorem settled_eraseLoop {left block : Nat} (fits : block + left ≤ g.blocks)
    {instr : EraseInfo} (settled : Settled g d next)
    (clean : d.bbm.bbmDirtyFlag = 0 → ∀ i < left, CleanEraseOf g chip d (block + i)) :
    Settled g d (eraseLoop g chip left (block * g.pagesPerBlock) instr next).2 := by
  induction left generalizing block next with
  | zero => exact settled
  | succ left inductionHypothesis =>
      have turn := @settled_eraseTurn g chip d next block (by omega) settled
        fun flag => clean flag 0 (Nat.succ_pos left)
      have further : block * g.pagesPerBlock + g.pagesPerBlock =
          (block + 1) * g.pagesPerBlock := by
        rw [Nat.add_mul, Nat.one_mul]
      rw [eraseLoop]
      split
      · exact turn
      · rw [further]
        refine inductionHypothesis (by omega) turn fun flag i below => ?_
        rw [Nat.add_assoc, Nat.add_comm 1 i]
        exact clean flag (i + 1) (Nat.succ_lt_succ below)

theorem settled_erase {instr : EraseInfo} (leads : LeadsAway g d.bbm)
    (clean : d.bbm.bbmDirtyFlag = 0 → (Call.erase chip instr).OffInfoBlock g ∧
      (Call.erase chip instr).Counted g d) :
    Settled g d (nandEraseNand g chip d instr).device := by
  unfold nandEraseNand
  split_ifs with addr len size locked
  · exact .refl leads
  · exact .refl leads
  · exact .refl leads
  · exact .refl leads
  · dsimp only
    rw [← Geometry.erasesize, g.and_erasesize, not_not] at addr len
    have start : instr.addr = g.blockPos (instr.addr / g.erasesize) := by
      rw [g.blockPos_eq, Nat.div_mul_cancel (Nat.dvd_of_mod_eq_zero addr)]
    have blocks : instr.len >>> g.physEraseShift = instr.len / g.erasesize :=
      Nat.shiftRight_eq_div_pow _ _
    have first : instr.addr >>> g.pageShift =
        instr.addr / g.erasesize * g.pagesPerBlock := by
      rw [← g.blockPos_shiftRight, ← start]
    have fits : instr.addr / g.erasesize + instr.len / g.erasesize ≤ g.blocks := by
      rw [← Nat.add_div_of_dvd_right (Nat.dvd_of_mod_eq_zero addr)]
      refine Nat.div_le_of_le_mul ?_
      rw [Nat.mul_comm, g.blocks_mul_erasesize]
      omega
    rw [first, blocks]
    refine settled_eraseLoop fits (.refl leads) fun flag i below => ?_
    obtain ⟨outside, counted⟩ := clean flag
    have page : eraseFirstPage g instr i =
        (instr.addr / g.erasesize + i) * g.pagesPerBlock := by
      rw [eraseFirstPage, first, Nat.add_mul]
    refine ⟨?_, counted.imp_right fun good check => ?_⟩
    · have there := outside i (by rw [blocks]; exact below)
      rw [page] at there
      intro zero
      rw [zero, Nat.zero_mul] at there
      exact absurd there (Nat.not_le.mpr g.pagesPerBlock_pos)
    · have here := good check i (by rw [blocks]; exact below)
      rwa [page, g.shiftLeft_block] at here

/-! ### Runs -/

theorem settled_call {call : Call} (leads : LeadsAway g d.bbm)
    (clean : d.bbm.bbmDirtyFlag = 0 → call.OffInfoBlock g ∧ call.Counted g d)
    (leaves : call.Leaves g layout d next) : Settled g d next := by
  cases call with
  | read start len buf =>
      obtain ⟨bbm, flash⟩ := readLoop_keeps (g := g) d.fetch (len + 1)
        (readStart g d start len buf)
      rw [leaves]
      refine (Settled.refl leads).ofFlash bbm fun _ page _ => ?_
      exact congrFun (congrArg Flash.data flash) page
  | write chip start len buf =>
      obtain ⟨result, returns, rfl⟩ := leaves
      exact settled_write leads (fun flag => ⟨(clean flag).1, (clean flag).2⟩) returns
  | erase chip instr =>
      rw [leaves]
      exact settled_erase leads clean

/-- A call, or `nand_bbm_update`. -/
inductive MapEvent where
  | call (call : Call)
  | update (chip : ChipBehaviour) (kbuf : Bool) (turns : Nat)

/-- An event leaves a device. -/
def MapEvent.Leaves (g : Geometry) (layout : NandLayout) (d : Device) :
    MapEvent → Device → Prop
  | .call made, next => made.Leaves g layout d next
  | .update chip kbuf turns, next =>
      ∃ ret, nandBbmUpdate g layout chip kbuf turns d = some (ret, next)

/-- While the map is clean, a call leaves block zero alone and counts the reserve
blocks that it marks bad; the save of a dirty map gets its buffer, and its erase and
its programs succeed. -/
def MapEvent.Saves (g : Geometry) (d : Device) : MapEvent → Prop
  | .call made => d.bbm.bbmDirtyFlag = 0 → made.OffInfoBlock g ∧ made.Counted g d
  | .update chip kbuf _ => d.bbm.bbmDirtyFlag ≠ 0 →
      kbuf = true ∧ SaveWorks g chip d.flash.tick ∧
        (g.Aligned ∨ d.bbm.flagged 0 = false)

/-- A clean map is the one in block zero. -/
structure Recorded (g : Geometry) (d : Device) : Prop where
  leads : LeadsAway g d.bbm
  encoded : d.bbm.bbmDirtyFlag = 0 → Encoded g d.bbm d.flash

theorem Encoded.settled (encoded : Encoded g d.bbm d.flash) (same : MapKept g d.bbm next.bbm)
    (block : SameInfoBlock g d.flash next.flash) : Encoded g next.bbm next.flash := by
  obtain ⟨blocks, flagged, pages⟩ := encoded
  have there : ∀ page < g.pagesPerBlock, ∀ column < g.writesize,
      next.flash.data page column =
        bytesOfWords (encoding d.bbm blocks) (page * g.writesize + column) := by
    intro page inside column below
    rw [block page inside]
    exact pages page inside column below
  rcases same with equal | ⟨_, equal⟩
  · rw [equal]
    exact ⟨blocks, flagged, there⟩
  · rw [equal]
    exact ⟨blocks, flagged, there⟩

theorem Recorded.call {call : Call} (recorded : Recorded g d)
    (saves : (MapEvent.call call).Saves g d) (leaves : call.Leaves g layout d next) :
    Recorded g next := by
  obtain ⟨leads, kept⟩ := settled_call recorded.leads saves leaves
  refine ⟨leads, fun clean => ?_⟩
  obtain ⟨same, block⟩ := kept.resolve_left (not_not.mpr clean)
  exact (recorded.encoded (same.dirty.symm.trans clean)).settled same block

theorem Recorded.update {kbuf : Bool} {turns : Nat} {ret : Int} (recorded : Recorded g d)
    (saves : (MapEvent.update chip kbuf turns).Saves g d)
    (returned : nandBbmUpdate g layout chip kbuf turns d = some (ret, next)) :
    Recorded g next ∧ ret = 0 := by
  by_cases clean : d.bbm.bbmDirtyFlag = 0
  · rw [nandBbmUpdate, if_pos clean, Option.some_inj, Prod.mk.injEq] at returned
    rw [← returned.1, ← returned.2]
    exact ⟨recorded, rfl⟩
  · obtain ⟨rfl, works, once⟩ := saves clean
    obtain ⟨ok, bbm, encoded⟩ := nandBbmUpdate_returned clean works once returned
    refine ⟨⟨?_, fun _ => encoded⟩, ok⟩
    rw [bbm]
    exact ⟨recorded.leads.cursor_le, recorded.leads.inside, recorded.leads.away⟩

theorem recorded_step (d : Device) (event : MapEvent) (next : Device)
    (recorded : Recorded g d) (saves : event.Saves g d)
    (leaves : event.Leaves g layout d next) : Recorded g next := by
  cases event with
  | call call => exact recorded.call saves leaves
  | update chip kbuf turns =>
      obtain ⟨ret, returned⟩ := leaves
      exact (recorded.update saves returned).1

/-- In every run whose saves succeed, an update that leaves a clean map leaves it in
block zero, and a save that failed leaves a dirty one. -/
theorem dirtyFlag_of_saves {last : Device} {events : List MapEvent} {kbuf : Bool}
    {turns : Nat} {ret : Int} (recorded : Recorded g d)
    (run : Run.Steps (fun d event => MapEvent.Leaves g layout d event) (MapEvent.Saves g) d
      events last)
    (saves : (MapEvent.update chip kbuf turns).Saves g last)
    (returned : nandBbmUpdate g layout chip kbuf turns last = some (ret, next)) :
    (next.bbm.bbmDirtyFlag = 0 → Encoded g next.bbm next.flash) ∧
      (ret ≠ 0 → next.bbm.bbmDirtyFlag ≠ 0) := by
  obtain ⟨after, ok⟩ := (run.keeps recorded_step recorded).update saves returned
  exact ⟨after.encoded, fun failed => absurd ok failed⟩

/-- The map on which block 5 has been redirected is dirty. -/
theorem recorded_redirected : Recorded nand128MiB .redirected := by
  refine ⟨(leadsAway_init nand128MiB Bbm.boot).assignBlock _ _, fun clean => ?_⟩
  exact absurd clean (by decide +kernel)

theorem fits_redirected :
    4 * (infoWords nand128MiB Device.redirected.bbm).length ≤ nand128MiB.erasesize := by
  decide +kernel

theorem saveWorks_sound (tick : Nat) : SaveWorks nand128MiB .sound tick :=
  ⟨rfl, rfl, fun _ _ => rfl⟩

/-- Block 5 has been read, and the map is saved. -/
theorem dirtyFlag_of_sound :
    ∃ next, nandBbmUpdate nand128MiB titaniaNandOob64 .sound true 1 .block5Read =
        some (0, next) ∧
      (next.bbm.bbmDirtyFlag = 0 → Encoded nand128MiB next.bbm next.flash) ∧
        ((0 : Int) ≠ 0 → next.bbm.bbmDirtyFlag ≠ 0) := by
  obtain ⟨bbm, _⟩ := readLoop_keeps (g := nand128MiB) Device.redirected.fetch (1 + 1)
    (readStart nand128MiB .redirected (nand128MiB.blockPos 5) 1 ⊤)
  have same : Device.block5Read.bbm = Device.redirected.bbm := bbm
  have dirty : Device.block5Read.bbm.bbmDirtyFlag ≠ 0 := by
    rw [same]
    decide +kernel
  obtain ⟨next, returned⟩ := @nandBbmUpdate_of_works nand128MiB titaniaNandOob64 .sound
    .block5Read dirty (saveWorks_sound _) (by rw [same]; exact fits_redirected) 0
  refine ⟨next, returned, ?_⟩
  exact @dirtyFlag_of_saves nand128MiB titaniaNandOob64 .sound .redirected next .block5Read
    [.call readBlock5] true 1 0 recorded_redirected
    (.cons (fun clean => absurd clean (by decide +kernel)) rfl (.nil _))
    (fun _ => ⟨rfl, saveWorks_sound _, Or.inl (by decide)⟩) returned

/-- A chip whose block zero cannot be erased. -/
def infoBlockWorn : ChipBehaviour :=
  { ChipBehaviour.sound with eraseFails := fun _ page => page = 0 }

theorem magic_of_encoded {s : Bbm} {flash : Flash} (encoded : Encoded g s flash) :
    flash.data 0 0 0 = false := by
  obtain ⟨blocks, _, pages⟩ := encoded
  rw [pages 0 g.pagesPerBlock_pos 0 g.writesize_pos, Nat.zero_mul]
  have lowest : bbmMagic.getLsbD 0 = false := by decide
  exact lowest

/-- The erase of block zero fails, and the map is marked clean. -/
theorem clean_after_failed_save :
    Recorded nand128MiB .redirected ∧
      ∃ next, nandBbmUpdate nand128MiB titaniaNandOob64 infoBlockWorn true 1 .redirected =
          some (-1, next) ∧
        next.bbm.bbmDirtyFlag = 0 ∧ ¬ Encoded nand128MiB next.bbm next.flash := by
  refine ⟨recorded_redirected, ?_⟩
  obtain ⟨next, returned, clean, flash⟩ := @nandBbmUpdate_of_eraseFails nand128MiB
    titaniaNandOob64 infoBlockWorn .redirected (by decide +kernel) fits_redirected
    (by decide +kernel) 1
  refine ⟨next, returned, clean, fun encoded => ?_⟩
  have magic := magic_of_encoded encoded
  rw [flash] at magic
  revert magic
  decide +kernel

end Gp2Firmware.Linux
