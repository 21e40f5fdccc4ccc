import Gp2Firmware.Linux.WriteLoop

/-!
# What the block copy leaves

`nand_bbm_assign_block` erases the reserve block and copies the failed block there, page
by page, leaving out the pages that look erased.  On a reserve block that works the copy
is complete.
-/

namespace Gp2Firmware.Linux

open Gp2Firmware.Nand
open Gp2Firmware.Lib

variable {g : Geometry} {layout : NandLayout} {chip : ChipBehaviour}

/-- Programming all ones changes no data, even if it fails. -/
theorem programPage_top (f : Flash) (page other : Nat) (spare : Page) :
    (f.programPage chip page ⊤ spare).2.data other = f.data other := by
  by_cases same : other = page
  · rw [same, Flash.programPage]
    split
    · change Function.update f.data page (programPartly (f.data page) ⊤ _) page = f.data page
      rw [Function.update_self, programPartly, top_sup_eq, inf_top_eq]
    · change Function.update f.data page (program (f.data page) ⊤) page = f.data page
      rw [Function.update_self, program, inf_top_eq]
  · exact Flash.programPage_other same ⊤ spare

theorem copySpare_data (oob : Page) (page other : Nat) (d : Device) :
    (copySpare layout chip oob page d).flash.data other = d.flash.data other := by
  unfold copySpare
  split
  · rfl
  · exact programPage_top _ _ _ _

theorem nandBbmCheckEmpty_eq_true_iff {buf : Page} {length : Nat} :
    nandBbmCheckEmpty buf length = true ↔ ∀ column < length, buf column = ⊤ := by
  simp [nandBbmCheckEmpty]

/-- A page that works and is blank takes the data of the dump. -/
theorem copyData_of_works {page : Nat} {d : Device} (data : Page)
    (works : ∀ tick, chip.programFails tick page = false)
    (blank : d.flash.data page = ⊤) :
    (copyData g chip data page d).1 = 0 ∧
      (∀ column < g.writesize,
        (copyData g chip data page d).2.flash.data page column = data column) ∧
      ∀ other ≠ page,
        (copyData g chip data page d).2.flash.data other = d.flash.data other := by
  unfold copyData
  by_cases empty : nandBbmCheckEmpty data g.writesize = true
  · rw [if_pos empty]
    refine ⟨rfl, fun column below => ?_, fun _ _ => rfl⟩
    rw [nandBbmCheckEmpty_eq_true_iff.mp empty column below]
    exact congrFun blank column
  · rw [if_neg empty, nandWritePage]
    simp only [Flash.programPage_of_works (works _), Bool.false_eq_true, if_false]
    refine ⟨trivial, fun column _ => ?_, fun other different => ?_⟩
    · rw [Function.update_self, blank, program_top]
    · exact Function.update_of_ne different _ _

/-- The copy of the pages from a number on. -/
theorem copyLoop_of_works {dump : Flash} {source target left i : Nat} {d : Device}
    (works : ∀ j, i ≤ j → j < i + left → ∀ tick,
      chip.programFails tick (target + j) = false)
    (blank : ∀ j, i ≤ j → j < i + left → d.flash.data (target + j) = ⊤) :
    (∀ j, i ≤ j → j < i + left → ∀ column < g.writesize,
        (copyLoop g layout chip dump source target left i d).2.flash.data (target + j)
          column = dump.data (source + j) column) ∧
      ∀ page, (∀ j, i ≤ j → j < i + left → page ≠ target + j) →
        (copyLoop g layout chip dump source target left i d).2.flash.data page =
          d.flash.data page := by
  induction left generalizing i d with
  | zero =>
      refine ⟨fun j above below => ?_, fun _ _ => rfl⟩
      omega
  | succ left inductionHypothesis =>
      have here := @copyData_of_works g chip (target + i)
        (copySpare layout chip (dump.spare (source + i)) (target + i) d)
        (dump.data (source + i)) (works i (le_refl i) (by omega))
        (by rw [copySpare_data]; exact blank i (le_refl i) (by omega))
      obtain ⟨ok, copied, others⟩ := here
      have kept : ∀ page, page ≠ target + i →
          (copyData g chip (dump.data (source + i)) (target + i)
            (copySpare layout chip (dump.spare (source + i)) (target + i) d)).2.flash.data
              page = d.flash.data page :=
        fun page different => (others page different).trans (copySpare_data _ _ _ _)
      rw [copyLoop, if_neg (not_not.mpr ok)]
      obtain ⟨later, untouched⟩ := @inductionHypothesis (i + 1) _
        (fun j above below => works j (by omega) (by omega))
        (fun j above below => by
          rw [kept _ (by omega)]
          exact blank j (by omega) (by omega))
      refine ⟨fun j above below column inside => ?_, fun page outside => ?_⟩
      · by_cases first : j = i
        · rw [first, untouched (target + i) (fun k beyond _ => by omega)]
          exact copied column inside
        · exact later j (by omega) (by omega) column inside
      · rw [untouched page (fun j above below => outside j (by omega) (by omega))]
        exact kept page (outside i (le_refl i) (by omega))

/-- Neither the dump nor the copy goes through the page cache. -/
theorem copyLoop_cache (dump : Flash) (source target left i : Nat) (d : Device) :
    (copyLoop g layout chip dump source target left i d).2.pagebuf = d.pagebuf ∧
      (copyLoop g layout chip dump source target left i d).2.dataBuf = d.dataBuf := by
  have spare : ∀ (oob : Page) (page : Nat) (e : Device),
      (copySpare layout chip oob page e).pagebuf = e.pagebuf ∧
        (copySpare layout chip oob page e).dataBuf = e.dataBuf := by
    intro oob page e
    unfold copySpare
    split
    · exact ⟨rfl, rfl⟩
    · exact ⟨rfl, rfl⟩
  have data : ∀ (buf : Page) (page : Nat) (e : Device),
      (copyData g chip buf page e).2.pagebuf = e.pagebuf ∧
        (copyData g chip buf page e).2.dataBuf = e.dataBuf := by
    intro buf page e
    unfold copyData
    split
    · exact ⟨rfl, rfl⟩
    · exact ⟨rfl, rfl⟩
  induction left generalizing i d with
  | zero => exact ⟨rfl, rfl⟩
  | succ left inductionHypothesis =>
      obtain ⟨pagebuf, dataBuf⟩ := data (dump.data (source + i)) (target + i)
        (copySpare layout chip (dump.spare (source + i)) (target + i) d)
      obtain ⟨first, second⟩ := spare (dump.spare (source + i)) (target + i) d
      rw [copyLoop]
      split
      · exact ⟨pagebuf.trans first, dataBuf.trans second⟩
      · obtain ⟨later, laterBuf⟩ := inductionHypothesis (i + 1)
          (copyData g chip (dump.data (source + i)) (target + i)
            (copySpare layout chip (dump.spare (source + i)) (target + i) d)).2
        exact ⟨later.trans (pagebuf.trans first), laterBuf.trans (dataBuf.trans second)⟩

/-- A block works: it can be erased and all its pages can be programmed. -/
structure BlockWorks (g : Geometry) (chip : ChipBehaviour) (block : Nat) : Prop where
  erases : ∀ tick, chip.eraseFails tick (block * g.pagesPerBlock) = false
  programs : ∀ tick, ∀ j < g.pagesPerBlock,
    chip.programFails tick (block * g.pagesPerBlock + j) = false

/-- What an assignment that finds a reserve block leaves: the copy of the failed block
there, and all other pages as they were. -/
structure Copied (g : Geometry) (bad reserve : Nat) (d after : Device) : Prop where
  copy : ∀ j < g.pagesPerBlock, ∀ column < g.writesize,
    after.flash.data (reserve * g.pagesPerBlock + j) column =
      d.flash.data (bad * g.pagesPerBlock + j) column
  other : ∀ page, page / g.pagesPerBlock ≠ reserve →
    after.flash.data page = d.flash.data page
  pagebuf : after.pagebuf = d.pagebuf
  dataBuf : after.dataBuf = d.dataBuf

theorem page_eq_of_block {block page : Nat}
    (inBlock : block * g.pagesPerBlock ≤ page ∧
      page < block * g.pagesPerBlock + g.pagesPerBlock) :
    page / g.pagesPerBlock = block :=
  Nat.div_eq_of_lt_le inBlock.1 (by rw [Nat.add_mul, Nat.one_mul]; exact inBlock.2)

theorem block_add_div (block : Nat) {j : Nat} (inside : j < g.pagesPerBlock) :
    (block * g.pagesPerBlock + j) / g.pagesPerBlock = block :=
  page_eq_of_block ⟨Nat.le_add_right _ _, by omega⟩

theorem copied_of_assignBlock {d : Device} {badpos reserve : Nat}
    (cursor : d.bbm.assignIndex ≤ g.redirTop)
    (found : reserveFor g chip.blockBad d.bbm.assignIndex = some reserve)
    (works : BlockWorks g chip reserve) (apart : g.blockIndex badpos ≠ reserve) :
    Copied g (g.blockIndex badpos) reserve d
      (nandBbmAssignBlock g layout chip d badpos true).2 := by
  obtain ⟨above, within, _⟩ := reserveFor_eq_some_iff.mp found
  have top := g.redirTop_succ
  have inside : reserve < g.blocks := by omega
  have start : g.blockPos reserve >>> g.pageShift &&& g.pagemask =
      reserve * g.pagesPerBlock := by
    rw [g.blockPos_shiftRight, g.and_pagemask (g.firstPage_lt inside)]
  have loop := assignLoop_eq g chip.blockBad badpos (d.bbm.setCheck false)
  rw [Bbm.assignIndex_setCheck, found] at loop
  -- the device between the erase and the copy
  obtain ⟨e, erased⟩ : ∃ e, nandBbmEraseBlock g chip
      { d with bbm := (d.bbm.setCheck false).assigned (g.blockIndex badpos) reserve }
      (g.blockPos reserve) = e := ⟨_, rfl⟩
  have blank : ∀ page, e.flash.data page =
      if reserve * g.pagesPerBlock ≤ page ∧
          page < reserve * g.pagesPerBlock + g.pagesPerBlock then ⊤
      else d.flash.data page := by
    intro page
    rw [← erased, nandBbmEraseBlock, start, Flash.eraseBlock_of_works (works.erases _)]
  have outside : ∀ page, page / g.pagesPerBlock ≠ reserve →
      e.flash.data page = d.flash.data page := by
    intro page different
    rw [blank, if_neg fun inBlock => different (page_eq_of_block inBlock)]
  have after : (nandBbmAssignBlock g layout chip d badpos true).2 =
      { (nandBbmCopyBlock g layout chip e (g.blockPos (g.blockIndex badpos))
          (g.blockPos reserve)).2 with
        bbm := (nandBbmCopyBlock g layout chip e (g.blockPos (g.blockIndex badpos))
          (g.blockPos reserve)).2.bbm.setCheck true } := by
    rw [nandBbmAssignBlock, loop, ← erased]
    rfl
  obtain ⟨copy, other⟩ := @copyLoop_of_works g layout chip e.flash
    (g.blockIndex badpos * g.pagesPerBlock) (reserve * g.pagesPerBlock) g.pagesPerBlock 0 e
    (fun j _ below tick => works.programs tick j (by omega))
    (fun j _ below => by
      rw [blank, if_pos ⟨Nat.le_add_right _ _, by omega⟩])
  obtain ⟨pagebuf, dataBuf⟩ := @copyLoop_cache g layout chip e.flash
    (g.blockIndex badpos * g.pagesPerBlock) (reserve * g.pagesPerBlock) g.pagesPerBlock 0 e
  rw [after, nandBbmCopyBlock, g.blockPos_shiftRight, g.blockPos_shiftRight]
  refine ⟨fun j below column inPage => ?_, fun page different => ?_, ?_, ?_⟩
  · have source : (g.blockIndex badpos * g.pagesPerBlock + j) / g.pagesPerBlock ≠ reserve := by
      rwa [block_add_div _ below]
    rw [← outside _ source]
    exact copy j (Nat.zero_le j) (by omega) column inPage
  · rw [← outside page different]
    refine other page fun j _ below equal => different ?_
    rw [equal]
    exact block_add_div reserve (by omega)
  · rw [← erased] at pagebuf ⊢
    exact pagebuf
  · rw [← erased] at dataBuf ⊢
    exact dataBuf

end Gp2Firmware.Linux
