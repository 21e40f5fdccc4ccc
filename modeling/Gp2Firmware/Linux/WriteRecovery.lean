import Gp2Firmware.Linux.BlockCopy
import Gp2Firmware.Linux.PageCache
import Gp2Firmware.Linux.WriteTermination

/-!
# Recovery of a write

A write that cannot program a page moves the block to a reserve block and programs the
page there.  What the pages of the data blocks hold, found through the map, is the same
before and after a move.
-/

namespace Gp2Firmware.Linux

open Gp2Firmware.Nand
open Gp2Firmware.Lib

variable {g : Geometry} {layout : NandLayout} {chip : ChipBehaviour}

/-! ### Places of data pages -/

/-- A page of a block that is never handed out. -/
def DataPage (g : Geometry) (page : Nat) : Prop := page / g.pagesPerBlock ≤ g.redirFloor

theorem DataPage.block_lt {page : Nat} (data : DataPage g page) :
    page / g.pagesPerBlock < g.blocks :=
  lt_of_le_of_lt data (by
    have floor := g.redirFloor_lt_redirTop
    have top := g.redirTop_succ
    omega)

theorem DataPage.lt_pages {page : Nat} (data : DataPage g page) : page < g.pages := by
  have inside := g.page_lt_pages data.block_lt (Nat.mod_lt page g.pagesPerBlock_pos)
  rwa [Nat.div_add_mod'] at inside

/-- With translation on, the map leads where its entry says. -/
theorem translate_eq_target {s : Bbm} (inv : ReserveInv g s) (check : s.nandBbmCheck = true)
    {block : Nat} (inside : block < g.blocks) : s.translate block = s.target block := by
  unfold Bbm.translate
  rw [check, Bool.true_and]
  split
  · rfl
  · rename_i clear
    by_contra moved
    exact clear (inv.flagged_of_moved block inside (Ne.symm moved))

/-- No two data blocks lead to the same block. -/
theorem target_injective {s : Bbm} (inv : ReserveInv g s) {first second : Nat}
    (left : first ≤ g.redirFloor) (right : second ≤ g.redirFloor)
    (same : s.target first = s.target second) : first = second := by
  have floor := g.redirFloor_lt_redirTop
  have top := g.redirTop_succ
  by_cases moved : s.target first = first
  · by_cases other : s.target second = second
    · rw [← moved, same, other]
    · have held := Bbm.redirect_eq_some_iff.mpr
        ⟨(by omega : second < g.blocks), rfl, other⟩
      have above := inv.pool.low_lt held
      omega
  · have held := Bbm.redirect_eq_some_iff.mpr ⟨(by omega : first < g.blocks), rfl, moved⟩
    by_cases other : s.target second = second
    · have above := inv.pool.low_lt held
      omega
    · rw [same] at held
      exact inv.pool.injective held (Bbm.redirect_eq_some_iff.mpr
        ⟨(by omega : second < g.blocks), rfl, other⟩)

theorem place_eq {d : Device} (inv : ReserveInv g d.bbm) (check : d.bbm.nandBbmCheck = true)
    {page : Nat} (data : DataPage g page) :
    d.place g page =
      d.bbm.target (page / g.pagesPerBlock) * g.pagesPerBlock + page % g.pagesPerBlock := by
  rw [Device.place, g.and_pagemask data.lt_pages,
    adjustPage_eq inv.targetsInside data.lt_pages, translate_eq_target inv check data.block_lt]

theorem place_div {d : Device} (inv : ReserveInv g d.bbm)
    (check : d.bbm.nandBbmCheck = true) {page : Nat} (data : DataPage g page) :
    d.place g page / g.pagesPerBlock = d.bbm.target (page / g.pagesPerBlock) := by
  rw [place_eq inv check data]
  exact block_add_div _ (Nat.mod_lt page g.pagesPerBlock_pos)

theorem place_injective {d : Device} (inv : ReserveInv g d.bbm)
    (check : d.bbm.nandBbmCheck = true) {first second : Nat} (left : DataPage g first)
    (right : DataPage g second) (same : d.place g first = d.place g second) :
    first = second := by
  have targets := congrArg (· / g.pagesPerBlock) same
  simp only [place_div inv check left, place_div inv check right] at targets
  have blocks := target_injective inv left right targets
  rw [place_eq inv check left, place_eq inv check right, targets] at same
  rw [← Nat.div_add_mod' first g.pagesPerBlock, ← Nat.div_add_mod' second g.pagesPerBlock,
    blocks, Nat.add_left_cancel same]

/-- What a page holds. -/
def Device.stored (g : Geometry) (d : Device) (page : Nat) : Page :=
  d.flash.data (d.place g page)

/-! ### A block that moves -/

/-- A failed block that was where its number says moves to the reserve block, and no page
changes. -/
theorem stored_of_copied {d after : Device} (inv : ReserveInv g d.bbm)
    (check : d.bbm.nandBbmCheck = true) {bad reserve : Nat}
    (itself : d.bbm.target bad = bad) (above : g.redirFloor < reserve)
    (within : reserve ≤ d.bbm.assignIndex)
    (bbm : after.bbm = (d.bbm.assigned bad reserve).setCheck true)
    (copied : Copied g bad reserve d after) {page : Nat} (data : DataPage g page)
    {column : Nat} (inPage : column < g.writesize) :
    after.stored g page column = d.stored g page column := by
  have small : reserve < 2 ^ 28 := by
    have cursor := inv.cursor_le
    have top := redirTop_lt_pow g
    omega
  have invAfter : ReserveInv g after.bbm := by
    rw [bbm]
    exact reserveInv_setCheck (reserveInv_assigned inv bad above within) true
  have checkAfter : after.bbm.nandBbmCheck = true := by rw [bbm]; rfl
  have target : after.bbm.target (page / g.pagesPerBlock) =
      if page / g.pagesPerBlock = bad then reserve
      else d.bbm.target (page / g.pagesPerBlock) := by
    rw [bbm, Bbm.target_setCheck, Bbm.target_assigned _ _ _ small]
  unfold Device.stored
  rw [place_eq invAfter checkAfter data, target]
  by_cases here : page / g.pagesPerBlock = bad
  · rw [if_pos here, copied.copy _ (Nat.mod_lt page g.pagesPerBlock_pos) column inPage,
      place_eq inv check data, here, itself]
  · have apart : d.bbm.target (page / g.pagesPerBlock) ≠ reserve := by
      intro equal
      by_cases moved : d.bbm.target (page / g.pagesPerBlock) = page / g.pagesPerBlock
      · have floor : page / g.pagesPerBlock ≤ g.redirFloor := data
        omega
      · have held := Bbm.redirect_eq_some_iff.mpr ⟨data.block_lt, rfl, moved⟩
        have over_ := inv.pool.cursor_lt held
        omega
    rw [if_neg here, ← place_eq inv check data]
    exact congrFun (copied.other _ (by rwa [place_div inv check data])) column

/-! ### Single turns -/

/-- The bytes that a request has for a page. -/
def requested (g : Geometry) (start : Nat) (buf : Nat → Byte) (page : Nat) : Page :=
  fun column => buf (page * g.writesize - start + column)

/-- What the data pages hold when the loop stands at a page: the pages before it have
been programmed, of the others nothing shows once they are, and nothing else has
changed. -/
structure Pages (g : Geometry) (d : Device) (start len : Nat) (buf : Nat → Byte)
    (next : Nat) (e : Device) : Prop where
  written : ∀ page < next, InRequest g start len page → ∀ column < g.writesize,
    e.stored g page column =
      program (d.stored g page column) (requested g start buf page column)
  pending : ∀ page, next ≤ page → InRequest g start len page → ∀ column < g.writesize,
    program (e.stored g page column) (requested g start buf page column) =
      program (d.stored g page column) (requested g start buf page column)
  other : ∀ page, DataPage g page → ¬ InRequest g start len page →
    ∀ column < g.writesize, e.stored g page column = d.stored g page column

variable {d : Device} {start len : Nat} {buf : Nat → Byte}

/-- Nothing shows of what keeps every data page. -/
theorem Pages.congr {next : Nat} {e after : Device} (pages : Pages g d start len buf next e)
    (data : ∀ page, InRequest g start len page → DataPage g page)
    (same : ∀ page, DataPage g page → ∀ column < g.writesize,
      after.stored g page column = e.stored g page column) :
    Pages g d start len buf next after where
  written := fun page before request column inPage => by
    rw [same page (data page request) column inPage]
    exact pages.written page before request column inPage
  pending := fun page notBefore request column inPage => by
    rw [same page (data page request) column inPage]
    exact pages.pending page notBefore request column inPage
  other := fun page inside outside column inPage => by
    rw [same page inside column inPage]
    exact pages.other page inside outside column inPage

/-- The loop writes whole pages. -/
structure WholePages (g : Geometry) (start len : Nat) (w : WriteState) : Prop
    extends InWrite g start len w where
  column : w.column = 0
  whole : g.writesize ∣ w.writelen

namespace WholePages

variable {w : WriteState}

theorem not_partial (here : WholePages g start len w) : ¬ partialPage g w := by
  have one := Nat.le_of_dvd here.more here.whole
  rw [partialPage, not_or, not_not]
  exact ⟨here.column, by omega⟩

theorem writeBytes_eq (here : WholePages g start len w) : writeBytes g w = g.writesize :=
  if_neg here.not_partial

theorem writeDevice_eq (here : WholePages g start len w) : writeDevice g buf w = w.device :=
  if_neg here.not_partial

theorem writeData_eq (here : WholePages g start len w) :
    writeData g buf w = requested g start buf w.realpage := by
  have position := here.position
  rw [writeData, if_neg here.not_partial]
  funext column
  have behind : w.bufAt = w.realpage * g.writesize - start := by
    rw [here.column] at position
    omega
  rw [behind]
  rfl

/-- The place that the turn programs. -/
theorem adjustPage_eq_place (here : WholePages g start len w) :
    adjustPage g w.device.bbm w.page = w.device.place g w.realpage := by
  rw [here.page]
  rfl

theorem flash_written (here : WholePages g start len w) :
    (Linux.written g chip buf w).flash =
      (w.device.flash.programPage chip (w.device.place g w.realpage)
        (requested g start buf w.realpage) w.device.oobPoi).2 := by
  rw [Linux.written, nandWritePage, here.writeData_eq, here.writeDevice_eq,
    here.adjustPage_eq_place]

theorem nextPage (here : WholePages g start len w)
    (more : w.writelen - writeBytes g w ≠ 0) :
    WholePages g start len (Linux.nextPage g chip buf w) where
  toInWrite := here.toInWrite.nextPage more
  column := rfl
  whole := by
    change g.writesize ∣ w.writelen - writeBytes g w
    rw [here.writeBytes_eq]
    exact Nat.dvd_sub here.whole (dvd_refl _)

theorem retried (here : WholePages g start len w) :
    WholePages g start len (Linux.retried g layout chip buf w) :=
  ⟨here.toInWrite.retried, here.column, here.whole⟩

/-- The place in a turn that programs its page changes no other data page. -/
theorem stored_written_other (here : WholePages g start len w)
    (inv : ReserveInv g w.device.bbm) (check : w.device.bbm.nandBbmCheck = true)
    (data : DataPage g w.realpage) {page : Nat} (inside : DataPage g page)
    (different : page ≠ w.realpage) :
    (Linux.written g chip buf w).stored g page = w.device.stored g page := by
  have places : w.device.place g page ≠ w.device.place g w.realpage :=
    fun same => different (place_injective inv check inside data same)
  have same : (Linux.written g chip buf w).place g page = w.device.place g page := by
    rw [Device.place, written_bbm]
    rfl
  rw [Device.stored, Device.stored, same, here.flash_written]
  exact Flash.programPage_other places _ _

theorem stored_written_self (here : WholePages g start len w) :
    (Linux.written g chip buf w).stored g w.realpage =
      if turnFails g chip w then
        programPartly (w.device.stored g w.realpage) (requested g start buf w.realpage)
          (chip.stuckData w.device.flash.tick (w.device.place g w.realpage))
      else
        program (w.device.stored g w.realpage) (requested g start buf w.realpage) := by
  have same : (Linux.written g chip buf w).place g w.realpage =
      w.device.place g w.realpage := by
    rw [Device.place, written_bbm]
    rfl
  rw [Device.stored, same, here.flash_written, turnFails, here.adjustPage_eq_place,
    Flash.programPage]
  split
  · exact Function.update_self _ _ _
  · exact Function.update_self _ _ _

end WholePages

/-! ### Recovery -/

/-- The reserve blocks that the map leads to, and the good ones that are left. -/
def Reserve (g : Geometry) (chip : ChipBehaviour) (s : Bbm) (index : Nat) : Prop :=
  (∃ block, s.redirect g block = some index) ∨
    g.redirFloor < index ∧ chip.blockBad (g.blockPos index) = false

/-- Reserve blocks work; programming fails in the blocks of `weak` only, and there are as
many good reserve blocks left as blocks of `weak` that have not been moved. -/
structure Recovers (g : Geometry) (chip : ChipBehaviour) (s : Bbm) (weak : Finset Nat) :
    Prop where
  works : ∀ index, Reserve g chip s index → BlockWorks g chip index
  fails : ∀ tick page, DataPage g page → chip.programFails tick page = true →
    page / g.pagesPerBlock ∈ weak
  enough : (weak.filter fun block => s.target block = block).card ≤
    (sparesBelow g chip.blockBad s.assignIndex).length

/-- What the loop keeps. -/
structure Recovering (g : Geometry) (chip : ChipBehaviour) (d : Device) (start len : Nat)
    (buf : Nat → Byte) (weak : Finset Nat) (w : WriteState) : Prop
    extends WholePages g start len w where
  inv : ReserveInv g w.device.bbm
  check : w.device.bbm.nandBbmCheck = true
  recovers : Recovers g chip w.device.bbm weak
  pagebuf : w.device.pagebuf = (writeInvalidate g d start len).pagebuf
  dataBuf : w.device.dataBuf = d.dataBuf
  pages : Pages g d start len buf w.realpage w.device

namespace Recovering

variable {weak : Finset Nat} {w : WriteState}

/-- A turn changes the page at which it stands, and no other. -/
theorem pages_written (now : Recovering g chip d start len buf weak w)
    (data : ∀ page, InRequest g start len page → DataPage g page) {next : Nat}
    (before : ∀ page < next, page ≠ w.realpage → page < w.realpage)
    (behind : ∀ page, next ≤ page → w.realpage ≤ page)
    (done : w.realpage < next → ∀ column < g.writesize,
      (written g chip buf w).stored g w.realpage column =
        program (d.stored g w.realpage column) (requested g start buf w.realpage column))
    (undone : next ≤ w.realpage → ∀ column < g.writesize,
      program ((written g chip buf w).stored g w.realpage column)
          (requested g start buf w.realpage column) =
        program (d.stored g w.realpage column) (requested g start buf w.realpage column)) :
    Pages g d start len buf next (written g chip buf w) := by
  have request := now.inRequest
  have others := fun page inside different => @WholePages.stored_written_other g chip start
    len buf w now.toWholePages now.inv now.check (data _ request) page inside different
  refine ⟨fun page earlier here column inPage => ?_,
    fun page later here column inPage => ?_, fun page inside outside column inPage => ?_⟩
  · by_cases same : page = w.realpage
    · rw [same] at earlier ⊢
      exact done earlier column inPage
    · rw [others page (data page here) same]
      exact now.pages.written page (before page earlier same) here column inPage
  · by_cases same : page = w.realpage
    · rw [same] at later ⊢
      exact undone later column inPage
    · rw [others page (data page here) same]
      exact now.pages.pending page (behind page later) here column inPage
  · have different : page ≠ w.realpage := by
      intro same
      rw [same] at outside
      exact outside request
    rw [others page inside different]
    exact now.pages.other page inside outside column inPage

/-- A page programmed without a failure is done. -/
theorem pages_of_works (now : Recovering g chip d start len buf weak w)
    (data : ∀ page, InRequest g start len page → DataPage g page)
    (works : turnFails g chip w = false) :
    Pages g d start len buf (w.realpage + 1) (written g chip buf w) := by
  have self := @WholePages.stored_written_self g chip start len buf w now.toWholePages
  rw [works, if_neg Bool.false_ne_true] at self
  apply now.pages_written data
  · intro page earlier different
    omega
  · intro page later
    omega
  · intro _ column inPage
    rw [self]
    exact now.pages.pending _ (le_refl _) now.inRequest column inPage
  · intro impossible
    omega

/-- A page at which programming fails can still be written. -/
theorem pages_of_fails (now : Recovering g chip d start len buf weak w)
    (data : ∀ page, InRequest g start len page → DataPage g page)
    (fails : turnFails g chip w = true) :
    Pages g d start len buf w.realpage (written g chip buf w) := by
  have self := @WholePages.stored_written_self g chip start len buf w now.toWholePages
  rw [fails, if_pos rfl] at self
  apply now.pages_written data
  · exact fun _ earlier _ => earlier
  · exact fun _ later => later
  · exact fun impossible => absurd impossible (lt_irrefl _)
  · intro _ column inPage
    rw [self]
    exact (program_programPartly _ _ _).trans
      (now.pages.pending _ (le_refl _) now.inRequest column inPage)

/-- Programming fails where the number of the block says, in a block of `weak`. -/
theorem target_of_fails (now : Recovering g chip d start len buf weak w)
    (data : ∀ page, InRequest g start len page → DataPage g page)
    (fails : turnFails g chip w = true) :
    w.device.bbm.target (w.realpage / g.pagesPerBlock) = w.realpage / g.pagesPerBlock ∧
      w.realpage / g.pagesPerBlock ∈ weak := by
  have inside := data _ now.inRequest
  have place := place_eq now.inv now.check inside
  unfold turnFails at fails
  rw [now.adjustPage_eq_place, place] at fails
  have itself : w.device.bbm.target (w.realpage / g.pagesPerBlock) =
      w.realpage / g.pagesPerBlock := by
    by_contra moved
    have held := Bbm.redirect_eq_some_iff.mpr ⟨inside.block_lt, rfl, moved⟩
    rw [(now.recovers.works _ (Or.inl ⟨_, held⟩)).programs _ _
      (Nat.mod_lt _ g.pagesPerBlock_pos)] at fails
    cases fails
  rw [itself, Nat.div_add_mod'] at fails
  exact ⟨itself, now.recovers.fails _ _ inside fails⟩

end Recovering

/-- A reserve block handed out is one of the good ones. -/
theorem recovers_assigned {s : Bbm} {weak : Finset Nat} (recovers : Recovers g chip s weak)
    (inv : ReserveInv g s) {bad reserve : Nat} (low : bad ≤ g.redirFloor)
    (itself : s.target bad = bad) (member : bad ∈ weak)
    (found : reserveFor g chip.blockBad s.assignIndex = some reserve) :
    Recovers g chip ((s.assigned bad reserve).setCheck true) weak := by
  obtain ⟨above, within, good, _⟩ := reserveFor_eq_some_iff.mp found
  have small := reserve_lt_pow inv.cursor_le found
  have target : ∀ block, ((s.assigned bad reserve).setCheck true).target block =
      if block = bad then reserve else s.target block := by
    intro block
    rw [Bbm.target_setCheck, Bbm.target_assigned _ _ _ small]
  refine ⟨fun index kind => recovers.works index ?_, recovers.fails, ?_⟩
  · rcases kind with ⟨block, held⟩ | free
    · obtain ⟨inside, leads, moved⟩ := Bbm.redirect_eq_some_iff.mp held
      rw [target] at leads
      by_cases same : block = bad
      · rw [if_pos same] at leads
        rw [← leads]
        exact Or.inr ⟨above, good⟩
      · rw [if_neg same] at leads
        exact Or.inl ⟨block, Bbm.redirect_eq_some_iff.mpr ⟨inside, leads, moved⟩⟩
    · exact Or.inr free
  · have fewer : (weak.filter fun block =>
        ((s.assigned bad reserve).setCheck true).target block = block) =
          (weak.filter fun block => s.target block = block).erase bad := by
      ext block
      rw [Finset.mem_filter, Finset.mem_erase, Finset.mem_filter, target]
      by_cases same : block = bad
      · rw [if_pos same, same]
        constructor
        · intro both
          omega
        · intro both
          exact absurd rfl both.1
      · rw [if_neg same]
        exact ⟨fun both => ⟨same, both⟩, fun both => both.2⟩
    have some_ : bad ∈ weak.filter fun block => s.target block = block :=
      Finset.mem_filter.mpr ⟨member, itself⟩
    have enough := recovers.enough
    have spares := sparesBelow_eq (g := g) chip.blockBad s.assignIndex
    rw [found] at spares
    rw [spares, List.length_cons] at enough
    have lowered : ((s.assigned bad reserve).setCheck true).assignIndex = reserve - 1 := rfl
    rw [fewer, Finset.card_erase_of_mem some_, lowered]
    omega

namespace Recovering

variable {weak : Finset Nat} {w : WriteState}

/-- There is a reserve block for a block that fails. -/
theorem reserveFor_of_fails (now : Recovering g chip d start len buf weak w)
    (data : ∀ page, InRequest g start len page → DataPage g page)
    (fails : turnFails g chip w = true) :
    ∃ reserve, reserveFor g chip.blockBad w.device.bbm.assignIndex = some reserve := by
  obtain ⟨itself, member⟩ := now.target_of_fails data fails
  have some_ : 0 < (weak.filter fun block => w.device.bbm.target block = block).card :=
    Finset.card_pos.mpr ⟨_, Finset.mem_filter.mpr ⟨member, itself⟩⟩
  have enough := now.recovers.enough
  cases found : reserveFor g chip.blockBad w.device.bbm.assignIndex with
  | some reserve => exact ⟨reserve, rfl⟩
  | none =>
      have spares := sparesBelow_eq (g := g) chip.blockBad w.device.bbm.assignIndex
      rw [found] at spares
      rw [spares] at enough
      exact absurd (lt_of_lt_of_le some_ enough) (Nat.lt_irrefl 0)

/-- The block that fails is the one that the position given to the assignment lies in. -/
theorem blockIndex_of_fails (now : Recovering g chip d start len buf weak w)
    (data : ∀ page, InRequest g start len page → DataPage g page)
    (fails : turnFails g chip w = true) :
    g.blockIndex (nandBbmAdjust g w.device.bbm (w.page <<< g.pageShift)) =
      w.realpage / g.pagesPerBlock := by
  have inside := data _ now.inRequest
  obtain ⟨itself, _⟩ := now.target_of_fails data fails
  rw [blockIndex_nandBbmAdjust, g.blockIndex_page, now.page, g.and_pagemask inside.lt_pages,
    translate_eq_target now.inv now.check inside.block_lt, itself]

theorem retried (now : Recovering g chip d start len buf weak w)
    (data : ∀ page, InRequest g start len page → DataPage g page)
    (fails : turnFails g chip w = true) :
    Recovering g chip d start len buf weak (Linux.retried g layout chip buf w) := by
  have inside := data _ now.inRequest
  have block := now.blockIndex_of_fails data fails
  obtain ⟨itself, member⟩ := now.target_of_fails data fails
  obtain ⟨reserve, found⟩ := now.reserveFor_of_fails data fails
  obtain ⟨above, within, good, _⟩ := reserveFor_eq_some_iff.mp found
  have low : w.realpage / g.pagesPerBlock ≤ g.redirFloor := inside
  have same : (written g chip buf w).bbm = w.device.bbm := written_bbm buf w
  have bbm : (Linux.retried g layout chip buf w).device.bbm =
      (w.device.bbm.assigned (w.realpage / g.pagesPerBlock) reserve).setCheck true := by
    have map := (nandBbmAssignBlock_map g layout chip (written g chip buf w)
      (nandBbmAdjust g w.device.bbm (w.page <<< g.pageShift)) true).2
    rw [same, nandBbmAssignBlock_of_some found, block] at map
    exact map
  have copied : Copied g (w.realpage / g.pagesPerBlock) reserve (written g chip buf w)
      (Linux.retried g layout chip buf w).device := by
    have apart : g.blockIndex (nandBbmAdjust g w.device.bbm (w.page <<< g.pageShift)) ≠
        reserve := by
      rw [block]
      omega
    have copy := @copied_of_assignBlock g layout chip (written g chip buf w) _ reserve
      (by rw [same]; exact now.inv.cursor_le) (by rw [same]; exact found)
      (now.recovers.works reserve (Or.inr ⟨above, good⟩)) apart
    rw [block] at copy
    exact copy
  have pages := now.pages_of_fails data fails
  refine ⟨now.toWholePages.retried, ?_, ?_, ?_, ?_, ?_, ?_⟩
  · rw [bbm]
    exact reserveInv_setCheck (reserveInv_assigned now.inv _ above within) true
  · rw [bbm]
    rfl
  · rw [bbm]
    exact recovers_assigned now.recovers now.inv low itself member found
  · rw [copied.pagebuf]
    change (writeDevice g buf w).pagebuf = _
    rw [now.writeDevice_eq]
    exact now.pagebuf
  · rw [copied.dataBuf]
    change (writeDevice g buf w).dataBuf = _
    rw [now.writeDevice_eq]
    exact now.dataBuf
  · refine pages.congr data fun page dataPage column inPage => ?_
    exact stored_of_copied (by rw [same]; exact now.inv) (by rw [same]; exact now.check)
      (by rw [same]; exact itself) above (by rw [same]; exact within) (by rw [same]; exact bbm)
      copied dataPage inPage

theorem nextPage (now : Recovering g chip d start len buf weak w)
    (data : ∀ page, InRequest g start len page → DataPage g page)
    (works : turnFails g chip w = false) (more : w.writelen - writeBytes g w ≠ 0) :
    Recovering g chip d start len buf weak (Linux.nextPage g chip buf w) := by
  have bbm : (Linux.nextPage g chip buf w).device.bbm = w.device.bbm := written_bbm buf w
  refine ⟨now.toWholePages.nextPage more, ?_, ?_, ?_, ?_, ?_, now.pages_of_works data works⟩
  · rw [bbm]
    exact now.inv
  · rw [bbm]
    exact now.check
  · rw [bbm]
    exact now.recovers
  · change (writeDevice g buf w).pagebuf = _
    rw [now.writeDevice_eq]
    exact now.pagebuf
  · change (writeDevice g buf w).dataBuf = _
    rw [now.writeDevice_eq]
    exact now.dataBuf

end Recovering

/-! ### Whole requests -/

/-- A page of a request of whole pages has all its bytes in it. -/
theorem inRequest_iff (startAligned : g.writesize ∣ start) {page : Nat} :
    InRequest g start len page ↔
      start ≤ page * g.writesize ∧ page * g.writesize < start + len := by
  obtain ⟨first, rfl⟩ := startAligned
  have positive := g.writesize_pos
  rw [InRequest, Nat.mul_comm g.writesize first]
  constructor
  · intro request
    refine ⟨Nat.mul_le_mul_right _ ?_, request.1⟩
    exact Nat.le_of_lt_succ (Nat.lt_of_mul_lt_mul_right request.2)
  · intro request
    refine ⟨request.2, lt_of_le_of_lt request.1 ?_⟩
    rw [Nat.add_mul, Nat.one_mul]
    omega

/-- What a returning write leaves: its pages are programmed, and nothing else that is kept
in a data page or in the cache has changed. -/
structure Written (g : Geometry) (d : Device) (start len : Nat) (buf : Nat → Byte)
    (after : Device) : Prop where
  written : ∀ page, InRequest g start len page → ∀ column < g.writesize,
    after.stored g page column =
      program (d.stored g page column) (requested g start buf page column)
  other : ∀ page, DataPage g page → ¬ InRequest g start len page →
    ∀ column < g.writesize, after.stored g page column = d.stored g page column
  pagebuf : after.pagebuf = (writeInvalidate g d start len).pagebuf
  dataBuf : after.dataBuf = d.dataBuf

theorem written_of_returns {weak : Finset Nat} {result : WriteResult}
    (inv : ReserveInv g d.bbm) (check : d.bbm.nandBbmCheck = true)
    (startAligned : g.writesize ∣ start) (lenAligned : g.writesize ∣ len)
    (data : ∀ page, InRequest g start len page → DataPage g page)
    (recovers : Recovers g chip d.bbm weak)
    (accepted : writeRefused g layout chip start len = none)
    (returns : WriteReturns g layout chip d start len buf result) :
    Written g d start len buf result.device := by
  have loop : Loop.Returns (writeTurn g layout chip buf len) (writeStart g d start len)
      result := by
    obtain ⟨turns, ran⟩ := returns
    rw [nandDoWriteOps, accepted] at ran
    exact ⟨turns, ran⟩
  have keeps : ∀ {w next : WriteState}, Recovering g chip d start len buf weak w →
      writeTurn g layout chip buf len w = .inl next →
        Recovering g chip d start len buf weak next := by
    intro w next now step
    rw [writeTurn_eq] at step
    split at step
    · rename_i fails
      rw [← Sum.inl.inj step]
      exact now.retried data fails
    · rename_i works
      split at step
      · cases step
      · rename_i more
        rw [← Sum.inl.inj step]
        exact now.nextPage data (Bool.eq_false_of_not_eq_true works) more
  have started : Recovering g chip d start len buf weak (writeStart g d start len) := by
    refine ⟨⟨inWrite_start d accepted, ?_, lenAligned⟩, inv, check, recovers, rfl, rfl, ?_⟩
    · change start &&& (g.writesize - 1) = 0
      rw [g.and_writesize]
      exact Nat.mod_eq_zero_of_dvd startAligned
    · refine ⟨fun page before request column _ => ?_, fun _ _ _ _ _ => rfl,
        fun _ _ _ _ _ => rfl⟩
      have first : page < start / g.writesize := by
        rw [← g.shiftRight_pageShift]
        exact before
      have behind := (inRequest_iff startAligned).mp request
      have begins : start / g.writesize ≤ page :=
        Nat.div_le_of_le_mul (by rw [Nat.mul_comm]; exact behind.1)
      omega
  obtain ⟨last, now, leaves⟩ := Loop.returns_rule keeps started loop
  rw [writeTurn_eq] at leaves
  split at leaves
  · cases leaves
  · rename_i works
    split at leaves
    · rename_i finished
      rw [← Sum.inr.inj leaves]
      have pages := now.pages_of_works data (Bool.eq_false_of_not_eq_true works)
      have position := now.position
      have left := now.left
      have column := now.column
      rw [now.writeBytes_eq] at finished
      refine ⟨fun page request => pages.written page ?_ request, pages.other, ?_, ?_⟩
      · have before := request.1
        apply Nat.lt_of_mul_lt_mul_right (a := g.writesize)
        rw [Nat.add_mul, Nat.one_mul]
        omega
      · change (writeDevice g buf last).pagebuf = _
        rw [now.writeDevice_eq]
        exact now.pagebuf
      · change (writeDevice g buf last).dataBuf = _
        rw [now.writeDevice_eq]
        exact now.dataBuf
    · cases leaves

/-- The loop of a write leaves in one way only. -/
theorem ret_of_accepted {result : WriteResult}
    (accepted : writeRefused g layout chip start len = none)
    (returns : WriteReturns g layout chip d start len buf result) : result.ret = 0 := by
  obtain ⟨turns, ran⟩ := returns
  rw [nandDoWriteOps, accepted] at ran
  have keeps : ∀ {w next : WriteState}, True →
      writeTurn g layout chip buf len w = .inl next → True := fun _ _ => trivial
  obtain ⟨last, _, leaves⟩ := Loop.returns_rule keeps trivial ⟨turns, ran⟩
  rw [writeTurn_eq] at leaves
  split at leaves
  · cases leaves
  · split at leaves
    · rw [← Sum.inr.inj leaves]
    · cases leaves

/-! ### Reading back -/

/-- A page as `nand_do_read_ops` reads it. -/
def Device.readBack (g : Geometry) (d : Device) (page : Nat) : Page :=
  (nandDoReadOps g d.fetch d (page * g.writesize) g.writesize fun _ => ⊥).buf

/-- The turn that reads a whole page. -/
theorem readTurn_wholePage (d : Device) (page : Nat) (buf : Nat → Byte) {r : ReadState}
    (start : r = ⟨d, buf, 0, g.writesize, page, 0, 0, 0, 0⟩) :
    (readTurn g d.fetch r).readlen = 0 ∧
      ∀ column < g.writesize, (readTurn g d.fetch r).buf column =
        if some page = d.pagebuf then d.dataBuf column else d.stored g page column := by
  have whole : min (g.writesize - 0) g.writesize = g.writesize := Nat.min_self _
  rw [start]
  by_cases cached : some page = d.pagebuf
  · simp only [readTurn, cached, if_true, whole, Nat.sub_self]
    refine ⟨trivial, fun column inPage => ?_⟩
    rw [copyOut, if_pos ⟨Nat.zero_le column, by omega⟩, Nat.zero_add, Nat.sub_zero]
  · simp only [readTurn, cached, if_false, whole, Nat.sub_self, Device.fetch,
      Int.lt_irrefl]
    refine ⟨trivial, fun column inPage => ?_⟩
    rw [copyOut, if_pos ⟨Nat.zero_le column, by omega⟩, Nat.zero_add, Nat.sub_zero]
    rfl

theorem readBack_eq (d : Device) (page : Nat) {column : Nat}
    (inPage : column < g.writesize) :
    d.readBack g page column =
      if some page = d.pagebuf then d.dataBuf column else d.stored g page column := by
  have first : (page * g.writesize) >>> g.pageShift = page := by
    rw [g.shiftRight_pageShift, Nat.mul_div_cancel _ g.writesize_pos]
  have aligned : page * g.writesize &&& (g.writesize - 1) = 0 := by
    rw [g.and_writesize, Nat.mul_mod_left]
  obtain ⟨finished, bytes⟩ := @readTurn_wholePage g d page (fun _ => ⊥) _ rfl
  simp only [Device.readBack, nandDoReadOps, first, aligned, readLoop, finished, or_true,
    if_true]
  exact bytes column inPage

/-- One block that has worn out is no trouble as long as there is a reserve block. -/
theorem recovers_wornChip {s : Bbm} {block : Nat} (inv : ReserveInv g s)
    (low : block ≤ g.redirFloor) (spare : g.redirFloor < s.assignIndex) :
    Recovers g (wornChip g [block]) s {block} := by
  refine ⟨fun index reserve => ?_, fun tick page _ fails => ?_, ?_⟩
  · have above : g.redirFloor < index := by
      cases reserve with
      | inl moved =>
          obtain ⟨key, held⟩ := moved
          exact inv.pool.low_lt held
      | inr left => exact left.1
    refine ⟨fun _ => rfl, fun _ j inside => ?_⟩
    have different : (index * g.pagesPerBlock + j) / g.pagesPerBlock ∉ [block] := by
      rw [block_add_div index inside, List.mem_singleton]
      omega
    exact decide_eq_false different
  · have worn : page / g.pagesPerBlock ∈ [block] := of_decide_eq_true fails
    rw [List.mem_singleton] at worn
    rw [worn]
    exact Finset.mem_singleton_self block
  · have first : s.assignIndex ∈ sparesBelow g (wornChip g [block]).blockBad s.assignIndex :=
      mem_sparesBelow.mpr ⟨spare, le_refl _, rfl⟩
    have one := Finset.card_filter_le {block} fun block => s.target block = block
    rw [Finset.card_singleton] at one
    exact le_trans one (List.length_pos_of_mem first)

theorem reserveInv_fresh (g : Geometry) : ReserveInv g (Device.fresh g).bbm :=
  reserveInv_setCheck (reserveInv_init g Device.powerOn.bbm) true

theorem recovers_fresh :
    Recovers nand128MiB (wornChip nand128MiB [5]) (Device.fresh nand128MiB).bbm {5} :=
  recovers_wornChip (reserveInv_fresh nand128MiB) (by decide +kernel) (by decide +kernel)

/-- After a write that returns 0 the pages of the request have been programmed, and the
other data pages hold what they held before, as `nand_do_read_ops` reads them. -/
theorem readBack_of_returns {weak : Finset Nat} {result : WriteResult}
    (inv : ReserveInv g d.bbm) (check : d.bbm.nandBbmCheck = true)
    (startAligned : g.writesize ∣ start) (lenAligned : g.writesize ∣ len)
    (data : ∀ page, InRequest g start len page → DataPage g page)
    (recovers : Recovers g chip d.bbm weak)
    (returns : WriteReturns g layout chip d start len buf result) (ok : result.ret = 0)
    {page : Nat} (inside : DataPage g page) {column : Nat} (inPage : column < g.writesize) :
    (InRequest g start len page →
        result.device.readBack g page column =
          program (d.stored g page column) (requested g start buf page column)) ∧
      (¬ InRequest g start len page →
        result.device.readBack g page column = d.readBack g page column) := by
  have positive := g.writesize_pos
  cases refused : writeRefused g layout chip start len with
  | some ret =>
      obtain ⟨turns, ran⟩ := returns
      rw [nandDoWriteOps, refused, Option.some_inj] at ran
      rw [← ran] at ok ⊢
      refine ⟨fun request => ?_, fun _ => rfl⟩
      have empty : len = 0 := by
        by_contra some_
        rw [writeRefused, if_neg some_] at refused
        split_ifs at refused
        · rw [← Option.some_inj.mp refused] at ok
          cases ok
        · rw [← Option.some_inj.mp refused] at ok
          cases ok
      have inRequest := (inRequest_iff startAligned).mp request
      omega
  | none =>
      have after := written_of_returns inv check startAligned lenAligned data recovers refused
        returns
      have kept : some page = result.device.pagebuf ↔
          some page = d.pagebuf ∧ ¬ InRequest g start len page := by
        have position : page <<< g.pageShift = page * g.writesize := Nat.shiftLeft_eq page _
        rw [after.pagebuf, inRequest_iff startAligned, eq_comm, eq_comm (a := some page),
          ← position]
        exact Option.mem_filter_iff.trans (and_congr_right fun _ => decide_eq_true_iff)
      rw [readBack_eq _ _ inPage, readBack_eq _ _ inPage, after.dataBuf]
      constructor
      · intro request
        rw [if_neg fun cached => (kept.mp cached).2 request]
        exact after.written page request column inPage
      · intro outside
        by_cases cached : some page = d.pagebuf
        · rw [if_pos (kept.mpr ⟨cached, outside⟩), if_pos cached]
        · rw [if_neg fun still => cached (kept.mp still).1, if_neg cached]
          exact after.other page inside outside column inPage

/-- A chip all of whose pages are alike, with the map that `nand_bbm_info_init` sets up. -/
def Device.filled (g : Geometry) (page : Page) : Device :=
  { Device.fresh g with flash := { Flash.erased with data := fun _ => page } }

theorem stored_filled (g : Geometry) (content : Page) (page : Nat) :
    (Device.filled g content).stored g page = content := rfl

/-- The first page of block 5. -/
theorem inRequest_page320 {page : Nat} :
    InRequest nand128MiB (nand128MiB.blockPos 5) nand128MiB.writesize page ↔ page = 320 := by
  have aligned : nand128MiB.writesize ∣ nand128MiB.blockPos 5 := by decide +kernel
  have size : nand128MiB.writesize = 2048 := rfl
  have first : nand128MiB.blockPos 5 = 655360 := by decide +kernel
  rw [inRequest_iff aligned, size, first]
  omega

theorem dataPage_of_request {page : Nat}
    (request : InRequest nand128MiB (nand128MiB.blockPos 5) nand128MiB.writesize page) :
    DataPage nand128MiB page := by
  rw [inRequest_page320.mp request]
  exact (by decide +kernel : 320 / nand128MiB.pagesPerBlock ≤ nand128MiB.redirFloor)

/-- A write to the first page of the worn block 5 returns. -/
theorem returns_oneWorn (content : Page) (buf : Nat → Byte) :
    ∃ result, WriteReturns nand128MiB titaniaNandOob64 (wornChip nand128MiB [5])
        (Device.filled nand128MiB content) (nand128MiB.blockPos 5) nand128MiB.writesize buf
        result ∧ result.ret = 0 := by
  have accepted : writeRefused nand128MiB titaniaNandOob64 (wornChip nand128MiB [5])
      (nand128MiB.blockPos 5) nand128MiB.writesize = none := by decide +kernel
  have within : nand128MiB.blockPos 5 + nand128MiB.writesize ≤ nand128MiB.size := by
    decide +kernel
  have valid : ValidMap nand128MiB (Device.filled nand128MiB content).bbm :=
    validMap_fresh nand128MiB
  have served : StandIn.succeeds (fun block => decide (block ∈ [5]))
      (standIns nand128MiB (wornChip nand128MiB [5]).blockBad (Device.fresh nand128MiB).bbm)
      (requestBlocks nand128MiB (nand128MiB.blockPos 5) nand128MiB.writesize) = true := by
    decide +kernel
  obtain ⟨result, returns⟩ := (writeReturns_iff titaniaNandOob64 buf
    (failsPermanently_worn nand128MiB [5]) valid within).mpr (Or.inr served)
  exact ⟨result, returns, ret_of_accepted accepted returns⟩

end Gp2Firmware.Linux
