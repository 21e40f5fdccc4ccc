import Gp2Firmware.Lib.WordBytes
import Gp2Firmware.Nand.BlockMap
import Gp2Firmware.Linux.WriteLoop

/-!
# Saving the map in the kernel

`nand_bbm_info_save` and `nand_bbm_update` of the kernel's `nand_bbm.c`.  The map is
written with `nand_erase_nand` and `nand_do_write_ops` while `nand_bbm_check` is zero.
As in the boot loader, a map that does not fit into the buffer of one erase block has
no defined effect and is `none` here.
-/

namespace Gp2Firmware.Linux

open Gp2Firmware.Nand
open Gp2Firmware.Lib

variable (g : Geometry) (layout : NandLayout) (chip : ChipBehaviour)

/-- `ENOMEM` -/
def enomem : Int := 12

/-- The loop that writes the buffer, by the number of pages left.  Every write is given
up after a number of turns. -/
def saveLoop (buffer : Nat → Byte) (turns : Nat) :
    (left pos : Nat) → Device → Option (Int × Device)
  | 0, _, d => some (0, d)
  | left + 1, pos, d =>
      match nandDoWriteOps g layout chip d pos g.writesize
          (fun column => buffer (pos + column)) turns with
      | none => none
      | some result =>
          if result.ret ≠ 0 then some (-1, result.device)
          else saveLoop buffer turns left (pos + g.writesize) result.device

/-- `nand_bbm_info_save`.  The position that `nand_bbm_find_pos` finds is zero; `kbuf`
says whether `kmalloc` gives the page buffer. -/
def nandBbmInfoSave (kbuf : Bool) (turns : Nat) (d : Device) : Option (Int × Device) :=
  if g.erasesize < 4 * (infoWords g d.bbm).length then none
  else if kbuf = false then some (-enomem, d)
  else
    let erased := nandEraseNand g chip d (.ofBlock g 0 g.blocks_pos)
    if erased.ret ≠ 0 then some (-1, erased.device)
    else
      saveLoop g layout chip (bytesOfWords (infoWords g d.bbm)) turns g.pagesPerBlock 0
        erased.device

/-- `nand_bbm_update`, with what `nand_bbm_info_save` returned, which it does not look
at. -/
def nandBbmUpdate (kbuf : Bool) (turns : Nat) (d : Device) : Option (Int × Device) :=
  if d.bbm.bbmDirtyFlag = 0 then some (0, d)
  else
    (nandBbmInfoSave g layout chip kbuf turns
        { d with bbm := d.bbm.setCheck false }).map fun saved =>
      (saved.1,
        { saved.2 with bbm := { saved.2.bbm.setCheck true with bbmDirtyFlag := 0 } })

/-! ### A page of the info block -/

variable {g layout chip}

theorem adjustPage_of_not_check {s : Bbm} (check : s.nandBbmCheck = false) {page : Nat}
    (inside : page < g.pages) : adjustPage g s page = page := by
  rw [adjustPage, nandBbmAdjust, check, Bool.false_and, if_neg Bool.false_ne_true,
    Nat.shiftLeft_shiftRight, g.and_pagemask inside]

/-- A whole page of the chip is accepted. -/
theorem writeRefused_page (unprotected : chip.writeProtected = false) (page : Nat) :
    writeRefused g layout chip (page * g.writesize) g.writesize = none := by
  have aligned : page * g.writesize &&& (subpagesize g layout - 1) = 0 :=
    (and_subpagesize g layout _).mpr
      (Dvd.dvd.mul_left (subpagesize_dvd g layout) page)
  have whole : g.writesize &&& (subpagesize g layout - 1) = 0 :=
    (and_subpagesize g layout _).mpr (subpagesize_dvd g layout)
  unfold subpagesize at aligned whole
  rw [writeRefused, if_neg (Nat.ne_of_gt g.writesize_pos), aligned, whole, unprotected]
  simp

/-- A page that can be programmed is written at once while translation is off. -/
theorem nandDoWriteOps_page {d : Device} {page : Nat} (inside : page < g.pages)
    (check : d.bbm.nandBbmCheck = false) (unprotected : chip.writeProtected = false)
    (works : chip.programFails d.flash.tick page = false) (buf : Nat → Byte)
    (turns : Nat) :
    ∃ result, nandDoWriteOps g layout chip d (page * g.writesize) g.writesize buf
        (turns + 1) = some result ∧
      result.ret = 0 ∧ result.device.bbm = d.bbm ∧
      result.device.flash.tick = d.flash.tick + 1 ∧
      result.device.flash.data =
        Function.update d.flash.data page (program (d.flash.data page) buf) := by
  have start : writeStart g d (page * g.writesize) g.writesize =
      { device := { writeInvalidate g d (page * g.writesize) g.writesize with oobPoi := ⊤ }
        bufAt := 0
        writelen := g.writesize
        realpage := page
        page := page
        column := 0 } := by
    unfold writeStart
    rw [g.shiftRight_pageShift, Nat.mul_div_cancel _ g.writesize_pos,
      g.and_pagemask inside, g.and_writesize, Nat.mul_mod_left]
  have whole : ¬ partialPage g (writeStart g d (page * g.writesize) g.writesize) := by
    rw [start]
    change ¬ (0 ≠ 0 ∨ g.writesize < g.writesize - 1)
    omega
  have stored : adjustPage g (writeStart g d (page * g.writesize) g.writesize).device.bbm
      (writeStart g d (page * g.writesize) g.writesize).page = page := by
    rw [start]
    exact adjustPage_of_not_check check inside
  have goes : turnFails g chip (writeStart g d (page * g.writesize) g.writesize) = false := by
    unfold turnFails
    rw [stored]
    exact works
  have last : (writeStart g d (page * g.writesize) g.writesize).writelen -
      writeBytes g (writeStart g d (page * g.writesize) g.writesize) = 0 := by
    rw [writeBytes, if_neg whole]
    exact Nat.sub_self _
  have turn := @writeTurn_eq g layout chip buf g.writesize
    (writeStart g d (page * g.writesize) g.writesize)
  rw [goes, if_neg Bool.false_ne_true, if_pos last] at turn
  have data : writeData g buf (writeStart g d (page * g.writesize) g.writesize) = buf := by
    rw [writeData, if_neg whole, start]
    funext column
    exact congrArg buf (Nat.zero_add column)
  have same : writeDevice g buf (writeStart g d (page * g.writesize) g.writesize) =
      (writeStart g d (page * g.writesize) g.writesize).device := if_neg whole
  have flash : (written g chip buf
      (writeStart g d (page * g.writesize) g.writesize)).flash =
      { data := Function.update d.flash.data page (program (d.flash.data page) buf)
        spare := Function.update d.flash.spare page (program (d.flash.spare page) ⊤)
        tick := d.flash.tick + 1 } := by
    rw [written, nandWritePage, stored, data, same]
    exact congrArg Prod.snd (Flash.programPage_of_works works buf ⊤)
  refine ⟨⟨0, g.writesize, written g chip buf
    (writeStart g d (page * g.writesize) g.writesize)⟩, ?_, rfl, ?_, ?_, ?_⟩
  · rw [nandDoWriteOps, writeRefused_page unprotected]
    exact Loop.run_of_leaves turn turns
  · rw [written_bbm, start]
    rfl
  · rw [flash]
  · rw [flash]

/-! ### The block -/

/-- The map as it is saved, with its entries in an order of the flagged blocks. -/
def encoding (s : Bbm) (blocks : List Nat) : List Word :=
  [bbmMagic, BitVec.ofNat 32 (s.bbCountData + s.bbCountRedirect),
      BitVec.ofNat 32 s.assignIndex] ++
    blocks.flatMap fun index => [BitVec.ofNat 32 index, BitVec.ofNat 32 (s.target index)]

/-- Block zero of the chip holds the magic number, the counters and one entry for each
flagged block, and zeros behind them. -/
def Encoded (g : Geometry) (s : Bbm) (flash : Flash) : Prop :=
  ∃ blocks : List Nat, blocks.Perm ((List.range g.blocks).filter s.flagged) ∧
    ∀ page < g.pagesPerBlock, ∀ column < g.writesize,
      flash.data page column =
        bytesOfWords (encoding s blocks) (page * g.writesize + column)

theorem infoWords_eq_encoding (g : Geometry) (s : Bbm) :
    infoWords g s = encoding s ((mapIndices g).filter s.flagged) := by
  rw [infoWords, infoMaps_eq, List.flatMap_map]
  rfl

/-- Where the erase blocks make up the info region, or block zero is not flagged, the
walk names every flagged block once. -/
theorem mapIndices_filter_perm {s : Bbm} (once : g.Aligned ∨ s.flagged 0 = false) :
    ((mapIndices g).filter s.flagged).Perm ((List.range g.blocks).filter s.flagged) := by
  by_cases aligned : g.Aligned
  · exact (mapIndices_perm aligned).filter _
  · have clear := once.resolve_left aligned
    refine ((mapIndices_perm_of_not_aligned aligned).filter _).trans ?_
    rw [List.filter_cons_of_neg (by rw [clear]; exact Bool.false_ne_true)]

/-- Pages that hold the words of the map hold its encoding. -/
theorem encoded_of_pages {s : Bbm} {flash : Flash}
    (once : g.Aligned ∨ s.flagged 0 = false)
    (pages : ∀ page < g.pagesPerBlock, flash.data page =
      fun column => bytesOfWords (infoWords g s) (page * g.writesize + column)) :
    Encoded g s flash := by
  refine ⟨_, mapIndices_filter_perm once, fun page inside column _ => ?_⟩
  rw [pages page inside, infoWords_eq_encoding]

/-- The erase of block zero and the programs of its pages succeed, as the next
operations of the chip. -/
structure SaveWorks (g : Geometry) (chip : ChipBehaviour) (tick : Nat) : Prop where
  unprotected : chip.writeProtected = false
  erases : chip.eraseFails tick 0 = false
  programs : ∀ page < g.pagesPerBlock, chip.programFails (tick + 1 + page) page = false

theorem saveLoop_of_works {tick : Nat} (works : SaveWorks g chip tick)
    (buffer : Nat → Byte) (turns : Nat) {left page : Nat}
    (all : page + left = g.pagesPerBlock) {d : Device} (check : d.bbm.nandBbmCheck = false)
    (now : d.flash.tick = tick + 1 + page)
    (blank : ∀ other, page ≤ other → other < g.pagesPerBlock → d.flash.data other = ⊤)
    (written : ∀ other < page, d.flash.data other =
      fun column => buffer (other * g.writesize + column)) :
    ∃ saved, saveLoop g layout chip buffer (turns + 1) left (page * g.writesize) d =
        some (0, saved) ∧
      saved.bbm = d.bbm ∧
      ∀ other < g.pagesPerBlock, saved.flash.data other =
        fun column => buffer (other * g.writesize + column) := by
  induction left generalizing page d with
  | zero => exact ⟨d, rfl, rfl, fun other inside => written other (by omega)⟩
  | succ left inductionHypothesis =>
      have inside : page < g.pagesPerBlock := by omega
      have onChip : page < g.pages := by
        have := g.page_lt_pages g.blocks_pos inside
        omega
      obtain ⟨result, ran, ret, bbm, next, data⟩ := @nandDoWriteOps_page g layout chip d page
        onChip check works.unprotected (by rw [now]; exact works.programs page inside)
        (fun column => buffer (page * g.writesize + column)) turns
      have further : page * g.writesize + g.writesize = (page + 1) * g.writesize := by
        rw [Nat.add_mul, Nat.one_mul]
      obtain ⟨saved, saves, kept, pages⟩ := @inductionHypothesis (page + 1) (by omega)
        result.device (by rw [bbm]; exact check) (by rw [next, now]; omega)
        (fun other above below => by
          rw [data, Function.update_of_ne (by omega)]
          exact blank other (by omega) below)
        (fun other below => by
          rw [data]
          by_cases here : other = page
          · rw [here, Function.update_self, blank page (le_refl page) inside, program_top]
          · rw [Function.update_of_ne here]
            exact written other (by omega))
      refine ⟨saved, ?_, kept.trans bbm, pages⟩
      rw [saveLoop, ran]
      simp only [ret, ne_eq, not_true_eq_false, if_false, further]
      exact saves

/-- While translation is off, an erase of block zero that works leaves its pages blank. -/
theorem nandEraseNand_infoBlock {d : Device} (check : d.bbm.nandBbmCheck = false)
    (unprotected : chip.writeProtected = false)
    (erases : chip.eraseFails d.flash.tick 0 = false) :
    (nandEraseNand g chip d (.ofBlock g 0 g.blocks_pos)).ret = 0 ∧
      (nandEraseNand g chip d (.ofBlock g 0 g.blocks_pos)).device.bbm = d.bbm ∧
      (nandEraseNand g chip d (.ofBlock g 0 g.blocks_pos)).device.flash.tick =
        d.flash.tick + 1 ∧
      ∀ page < g.pagesPerBlock,
        (nandEraseNand g chip d (.ofBlock g 0 g.blocks_pos)).device.flash.data page = ⊤ := by
  have addr : EraseInfo.addr (.ofBlock g 0 g.blocks_pos) = 0 := Nat.zero_shiftLeft _
  have len : EraseInfo.len (.ofBlock g 0 g.blocks_pos) = g.erasesize := rfl
  have whole : g.erasesize &&& (2 ^ g.physEraseShift - 1) = 0 := by
    rw [← Geometry.erasesize, g.and_erasesize, Nat.mod_self]
  have fits : ¬ g.size < g.erasesize + 0 := Nat.not_lt.mpr g.erasesize_le_size
  have one : g.erasesize >>> g.physEraseShift = 1 := by
    rw [Nat.shiftRight_eq_div_pow, ← Geometry.erasesize, Nat.div_self g.erasesize_pos]
  have page : Linux.erasePage g chip d.bbm 0 = (0, d.bbm) := by
    rw [Linux.erasePage, check, if_neg Bool.false_ne_true]
  have turn : eraseTurn g chip d 0 =
      (false,
        { d with
          flash := (d.flash.eraseBlock g chip 0).2
          pagebuf := d.pagebuf.filter
            fun cached => ¬ (0 ≤ cached ∧ cached < 0 + g.pagesPerBlock) }) := by
    simp only [eraseTurn, page, Nat.zero_and, Flash.eraseBlock_fst, erases]
  simp only [nandEraseNand, addr, len, whole, Nat.zero_and, fits, unprotected, one,
    Nat.zero_shiftRight, eraseLoop, turn, ne_eq, not_true_eq_false, if_false,
    Bool.false_eq_true, if_true, Flash.eraseBlock_of_works erases, true_and]
  exact fun page inside => if_pos ⟨Nat.zero_le page, by omega⟩

/-- The save of a map that fits, on a chip that does its part. -/
theorem nandBbmInfoSave_of_works {d : Device} (works : SaveWorks g chip d.flash.tick)
    (check : d.bbm.nandBbmCheck = false)
    (fits : 4 * (infoWords g d.bbm).length ≤ g.erasesize) (turns : Nat) :
    ∃ saved, nandBbmInfoSave g layout chip true (turns + 1) d = some (0, saved) ∧
      saved.bbm = d.bbm ∧
      ∀ page < g.pagesPerBlock, saved.flash.data page =
        fun column => bytesOfWords (infoWords g d.bbm) (page * g.writesize + column) := by
  obtain ⟨ret, bbm, next, blank⟩ := @nandEraseNand_infoBlock g chip d check
    works.unprotected works.erases
  obtain ⟨saved, saves, kept, pages⟩ := @saveLoop_of_works g layout chip _ works
    (bytesOfWords (infoWords g d.bbm)) turns g.pagesPerBlock 0 (Nat.zero_add _)
    (nandEraseNand g chip d (.ofBlock g 0 g.blocks_pos)).device (by rw [bbm]; exact check)
    (by rw [next]) (fun other _ below => blank other below)
    (fun other below => absurd below (Nat.not_lt_zero other))
  refine ⟨saved, ?_, kept.trans bbm, pages⟩
  rw [Nat.zero_mul] at saves
  have noOverrun : ¬ g.erasesize < 4 * (infoWords g d.bbm).length := Nat.not_lt.mpr fits
  simp only [nandBbmInfoSave, noOverrun, ret, saves, ne_eq, not_true_eq_false, if_false,
    Bool.true_eq_false]

/-- A save that returns has been given turns. -/
theorem saveLoop_no_turns (unprotected : chip.writeProtected = false)
    (buffer : Nat → Byte) (left page : Nat) (d : Device) :
    saveLoop g layout chip buffer 0 (left + 1) (page * g.writesize) d = none := by
  rw [saveLoop, nandDoWriteOps, writeRefused_page unprotected]
  rfl

theorem nandBbmInfoSave_returned {d saved : Device} {turns : Nat} {ret : Int}
    (works : SaveWorks g chip d.flash.tick) (check : d.bbm.nandBbmCheck = false)
    (returned : nandBbmInfoSave g layout chip true turns d = some (ret, saved)) :
    ret = 0 ∧ saved.bbm = d.bbm ∧
      ∀ page < g.pagesPerBlock, saved.flash.data page =
        fun column => bytesOfWords (infoWords g d.bbm) (page * g.writesize + column) := by
  by_cases overrun : g.erasesize < 4 * (infoWords g d.bbm).length
  · rw [nandBbmInfoSave, if_pos overrun] at returned
    cases returned
  · cases turns with
    | zero =>
        obtain ⟨ret, _⟩ := @nandEraseNand_infoBlock g chip d check works.unprotected
          works.erases
        obtain ⟨left, some_⟩ := Nat.exists_eq_succ_of_ne_zero
          (Nat.ne_of_gt g.pagesPerBlock_pos)
        have none_ := @saveLoop_no_turns g layout chip works.unprotected
          (bytesOfWords (infoWords g d.bbm)) left 0
          (nandEraseNand g chip d (.ofBlock g 0 g.blocks_pos)).device
        rw [Nat.zero_mul] at none_
        simp only [nandBbmInfoSave, overrun, ret, some_, none_, Nat.succ_eq_add_one, ne_eq,
          not_true_eq_false, if_false, Bool.true_eq_false] at returned
        cases returned
    | succ turns =>
        obtain ⟨other, saves, kept, pages⟩ := @nandBbmInfoSave_of_works g layout chip d
          works check (Nat.not_lt.mp overrun) turns
        rw [saves, Option.some_inj, Prod.mk.injEq] at returned
        rw [← returned.1, ← returned.2]
        exact ⟨rfl, kept, pages⟩

/-- An update of a dirty map on a chip that does its part leaves it encoded and
clean. -/
theorem nandBbmUpdate_returned {d next : Device} {turns : Nat} {ret : Int}
    (dirty : d.bbm.bbmDirtyFlag ≠ 0) (works : SaveWorks g chip d.flash.tick)
    (once : g.Aligned ∨ d.bbm.flagged 0 = false)
    (returned : nandBbmUpdate g layout chip true turns d = some (ret, next)) :
    ret = 0 ∧ next.bbm = { d.bbm.setCheck true with bbmDirtyFlag := 0 } ∧
      Encoded g next.bbm next.flash := by
  rw [nandBbmUpdate, if_neg dirty, Option.map_eq_some_iff] at returned
  obtain ⟨⟨status, saved⟩, saves, same⟩ := returned
  obtain ⟨ok, bbm, pages⟩ := @nandBbmInfoSave_returned g layout chip
    { d with bbm := d.bbm.setCheck false } saved turns status works rfl saves
  rw [Prod.mk.injEq] at same
  obtain ⟨rfl, rfl⟩ := same
  refine ⟨ok, ?_, encoded_of_pages ?_ ?_⟩
  · rw [bbm]
    rfl
  · change g.Aligned ∨ saved.bbm.flagged 0 = false
    rw [bbm]
    exact once
  · change ∀ page < g.pagesPerBlock, saved.flash.data page =
      fun column => bytesOfWords (infoWords g saved.bbm) (page * g.writesize + column)
    rw [bbm]
    exact pages

/-- An update of a dirty map that fits returns on a chip that does its part. -/
theorem nandBbmUpdate_of_works {d : Device} (dirty : d.bbm.bbmDirtyFlag ≠ 0)
    (works : SaveWorks g chip d.flash.tick)
    (fits : 4 * (infoWords g d.bbm).length ≤ g.erasesize) (turns : Nat) :
    ∃ next, nandBbmUpdate g layout chip true (turns + 1) d = some (0, next) := by
  obtain ⟨saved, saves, _⟩ := @nandBbmInfoSave_of_works g layout chip
    { d with bbm := d.bbm.setCheck false } works rfl fits turns
  rw [nandBbmUpdate, if_neg dirty, saves]
  exact ⟨_, rfl⟩

/-- An update whose erase fails marks the map clean all the same. -/
theorem nandBbmUpdate_of_eraseFails {d : Device} (dirty : d.bbm.bbmDirtyFlag ≠ 0)
    (fits : 4 * (infoWords g d.bbm).length ≤ g.erasesize)
    (fails : (nandEraseNand g chip { d with bbm := d.bbm.setCheck false }
      (.ofBlock g 0 g.blocks_pos)).ret ≠ 0) (turns : Nat) :
    ∃ next, nandBbmUpdate g layout chip true turns d = some (-1, next) ∧
      next.bbm.bbmDirtyFlag = 0 ∧
      next.flash = (nandEraseNand g chip { d with bbm := d.bbm.setCheck false }
        (.ofBlock g 0 g.blocks_pos)).device.flash := by
  have noOverrun :
      ¬ g.erasesize < 4 * (infoWords g (d.bbm.setCheck false)).length := Nat.not_lt.mpr fits
  have saves : nandBbmInfoSave g layout chip true turns
      { d with bbm := d.bbm.setCheck false } =
        some (-1, (nandEraseNand g chip { d with bbm := d.bbm.setCheck false }
          (.ofBlock g 0 g.blocks_pos)).device) := by
    simp only [nandBbmInfoSave, noOverrun, fails, if_false, if_true, ne_eq,
      not_false_eq_true, Bool.true_eq_false]
  rw [nandBbmUpdate, if_neg dirty, saves]
  exact ⟨_, rfl, rfl, rfl⟩

end Gp2Firmware.Linux
