import Gp2Firmware.Lib.StandIn
import Gp2Firmware.Linux.NandBase

/-!
# The write loop and the map

What the parts of `nand_do_write_ops` do to the map, and the arithmetic of the
pages of a request.  To a write the map is a table of stand-ins: a look into it,
and a list of spare blocks.
-/

namespace Gp2Firmware.Linux

open Gp2Firmware.Nand
open Gp2Firmware.Lib

variable {g : Geometry} {layout : NandLayout} {chip : ChipBehaviour}

/-! ### The block copy leaves the map alone -/

@[simp]
theorem nandWritePage_bbm (d : Device) (page : Nat) (data : Page) :
    (nandWritePage chip d page data).2.bbm = d.bbm := rfl

@[simp]
theorem nandBbmEraseBlock_bbm (d : Device) (pos : Nat) :
    (nandBbmEraseBlock g chip d pos).bbm = d.bbm := rfl

@[simp]
theorem copySpare_bbm (oob : Page) (page : Nat) (d : Device) :
    (copySpare layout chip oob page d).bbm = d.bbm := by
  rw [copySpare]
  split <;> rfl

@[simp]
theorem copyData_bbm (data : Page) (page : Nat) (d : Device) :
    (copyData g chip data page d).2.bbm = d.bbm := by
  rw [copyData]
  split <;> rfl

theorem copyLoop_bbm (dump : Flash) (source target left i : Nat) (d : Device) :
    (copyLoop g layout chip dump source target left i d).2.bbm = d.bbm := by
  induction left generalizing i d with
  | zero => rfl
  | succ left inductionHypothesis =>
      simp only [copyLoop]
      split
      · rw [copyData_bbm, copySpare_bbm]
      · rw [inductionHypothesis, copyData_bbm, copySpare_bbm]

theorem nandBbmCopyBlock_bbm (d : Device) (badpos redirpos : Nat) :
    (nandBbmCopyBlock g layout chip d badpos redirpos).2.bbm = d.bbm :=
  copyLoop_bbm _ _ _ _ _ _

/-- To the map the copy makes no difference. -/
theorem nandBbmAssignBlock_map (g : Geometry) (layout : NandLayout)
    (chip : ChipBehaviour) (d : Device) (badpos : Nat) (blkcopy : Bool) :
    (nandBbmAssignBlock g layout chip d badpos blkcopy).1 =
        (Nand.nandBbmAssignBlock g chip.blockBad d.bbm badpos).1 ∧
      (nandBbmAssignBlock g layout chip d badpos blkcopy).2.bbm =
        (Nand.nandBbmAssignBlock g chip.blockBad d.bbm badpos).2 := by
  rw [nandBbmAssignBlock, Nand.nandBbmAssignBlock]
  rcases Nand.assignLoop g chip.blockBad badpos d.bbm.assignIndex
    (d.bbm.setCheck false) with ⟨_ | pos, s⟩
  · exact ⟨rfl, rfl⟩
  · refine ⟨rfl, ?_⟩
    cases blkcopy with
    | false => rfl
    | true =>
        simp only [if_true, nandBbmCopyBlock_bbm, nandBbmEraseBlock_bbm]

/-! ### Maps whose entries make sense -/

/-- The entries of a map lead to blocks of the chip, and only flagged ones lead
elsewhere. -/
structure ValidMap (g : Geometry) (s : Bbm) : Prop where
  cursor_le : s.assignIndex ≤ g.redirTop
  targets : s.TargetsInside g
  flagged_of_moved : ∀ index, index < g.blocks →
    s.target index ≠ index → s.flagged index = true

theorem validMap_of_reserveInv {s : Bbm} (inv : ReserveInv g s) :
    ValidMap g s :=
  ⟨inv.cursor_le, inv.targetsInside, inv.flagged_of_moved⟩

theorem ValidMap.assignBlock {s : Bbm} (valid : ValidMap g s)
    (blockBad : Nat → Bool) (badpos : Nat) :
    ValidMap g (Nand.nandBbmAssignBlock g blockBad s badpos).2 := by
  have cursor := valid.cursor_le
  have top := g.redirTop_succ
  cases found : reserveFor g blockBad s.assignIndex with
  | none =>
      rw [nandBbmAssignBlock_of_none found]
      have lowered : ((s.skipTo g.redirFloor).setCheck false).assignIndex =
          min g.redirFloor s.assignIndex := rfl
      refine ⟨by rw [lowered]; omega, ?_, ?_⟩
      · intro block inside
        rw [Bbm.target_setCheck, Bbm.target_skipTo]
        exact valid.targets block inside
      · intro block inside moved
        rw [Bbm.target_setCheck, Bbm.target_skipTo] at moved
        rw [Bbm.flagged_setCheck, Bbm.flagged_skipTo,
          valid.flagged_of_moved block inside moved, Bool.true_or]
  | some reserve =>
      rw [nandBbmAssignBlock_of_some found]
      have within := (reserveFor_eq_some_iff.mp found).2.1
      have small := reserve_lt_pow cursor found
      have lowered : ((s.assigned (g.blockIndex badpos) reserve).setCheck
          true).assignIndex = reserve - 1 := rfl
      refine ⟨by rw [lowered]; omega, ?_, ?_⟩
      · intro block inside
        rw [Bbm.target_setCheck, Bbm.target_assigned _ _ _ small]
        split
        · omega
        · exact valid.targets block inside
      · intro block inside moved
        rw [Bbm.target_setCheck, Bbm.target_assigned _ _ _ small] at moved
        rw [Bbm.flagged_setCheck, Bbm.flagged_assigned]
        by_cases same : block = g.blockIndex badpos
        · simp [same]
        · rw [if_neg same] at moved
          simp [valid.flagged_of_moved block inside moved]

/-! ### The map as a table of stand-ins -/

/-- The good reserve blocks, in the order in which they are handed out. -/
def sparesBelow (g : Geometry) (blockBad : Nat → Bool) : Nat → List Nat
  | 0 => []
  | index + 1 =>
      if index + 1 ≤ g.redirFloor then []
      else if blockBad (g.blockPos (index + 1)) = false then
        (index + 1) :: sparesBelow g blockBad index
      else sparesBelow g blockBad index

theorem sparesBelow_eq (blockBad : Nat → Bool) (cursor : Nat) :
    sparesBelow g blockBad cursor =
      match reserveFor g blockBad cursor with
      | none => []
      | some reserve => reserve :: sparesBelow g blockBad (reserve - 1) := by
  induction cursor with
  | zero => rfl
  | succ cursor inductionHypothesis =>
      rw [sparesBelow, reserveFor]
      split
      · rfl
      · split
        · rfl
        · exact inductionHypothesis

theorem sparesBelow_of_le {blockBad : Nat → Bool} {cursor : Nat}
    (low : cursor ≤ g.redirFloor) : sparesBelow g blockBad cursor = [] := by
  cases cursor with
  | zero => rfl
  | succ cursor => rw [sparesBelow, if_pos low]

theorem mem_sparesBelow {blockBad : Nat → Bool} {cursor index : Nat} :
    index ∈ sparesBelow g blockBad cursor ↔
      g.redirFloor < index ∧ index ≤ cursor ∧
        blockBad (g.blockPos index) = false := by
  induction cursor with
  | zero =>
      simp only [sparesBelow, List.not_mem_nil, false_iff]
      omega
  | succ cursor inductionHypothesis =>
      rw [sparesBelow]
      split
      · rename_i low
        simp only [List.not_mem_nil, false_iff]
        omega
      · rename_i high
        split
        · rename_i good
          rw [List.mem_cons, inductionHypothesis]
          constructor
          · intro either
            cases either with
            | inl same =>
                rw [same]
                exact ⟨by omega, le_refl _, good⟩
            | inr lower => exact ⟨lower.1, by omega, lower.2.2⟩
          · intro found
            by_cases same : index = cursor + 1
            · exact Or.inl same
            · exact Or.inr ⟨found.1, by omega, found.2.2⟩
        · rename_i bad
          rw [inductionHypothesis]
          constructor
          · intro lower
            exact ⟨lower.1, by omega, lower.2.2⟩
          · intro found
            have different : index ≠ cursor + 1 := by
              intro same
              rw [same] at found
              exact bad found.2.2
            exact ⟨found.1, by omega, found.2.2⟩

/-- Where a look into the map leads while translation is on. -/
def redirectOf (s : Bbm) (block : Nat) : Nat :=
  if s.flagged block then s.target block else block

/-- Flagging the reserve blocks passed over changes no look into the map. -/
theorem redirectOf_skipTo {s : Bbm} (valid : ValidMap g s) (index : Nat) :
    redirectOf (s.skipTo index) = redirectOf s := by
  have cursor := valid.cursor_le
  have top := g.redirTop_succ
  funext block
  rw [redirectOf, redirectOf, Bbm.target_skipTo, Bbm.flagged_skipTo]
  cases flag : s.flagged block with
  | true => rw [Bool.true_or]
  | false =>
      rw [Bool.false_or, if_neg Bool.false_ne_true]
      split
      · rename_i passed
        have within := (of_decide_eq_true passed).2
        by_contra moved
        rw [valid.flagged_of_moved block (by omega) moved] at flag
        cases flag
      · rfl

theorem redirectOf_assigned {s : Bbm} (valid : ValidMap g s) (bad : Nat)
    {reserve : Nat} (small : reserve < 2 ^ 28) :
    redirectOf (s.assigned bad reserve) =
      Function.update (redirectOf s) bad reserve := by
  funext block
  by_cases same : block = bad
  · rw [same, Function.update_self, redirectOf, Bbm.flagged_assigned,
      s.target_assigned _ _ small]
    simp
  · have skipped := congrFun (redirectOf_skipTo valid reserve) block
    rw [redirectOf, Bbm.flagged_skipTo, Bbm.target_skipTo] at skipped
    rw [Function.update_of_ne same, redirectOf, Bbm.flagged_assigned,
      s.target_assigned _ _ small, if_neg same, decide_eq_false same,
      Bool.false_or]
    exact skipped

/-- The map as `nand_do_write_ops` uses it. -/
def standIns (g : Geometry) (blockBad : Nat → Bool) (s : Bbm) :
    StandIn.Table Nat where
  redirect := redirectOf s
  on := s.nandBbmCheck
  spares := sparesBelow g blockBad s.assignIndex

@[simp]
theorem standIns_lookup (blockBad : Nat → Bool) (s : Bbm) (block : Nat) :
    (standIns g blockBad s).lookup block = s.translate block := by
  rw [StandIn.Table.lookup, Bbm.translate, standIns]
  cases s.nandBbmCheck with
  | false => rfl
  | true => rfl

/-- An assignment replaces the block that failed in the table. -/
theorem standIns_assignBlock {s : Bbm} (valid : ValidMap g s)
    (blockBad : Nat → Bool) (badpos : Nat) :
    standIns g blockBad (Nand.nandBbmAssignBlock g blockBad s badpos).2 =
      (standIns g blockBad s).replace (g.blockIndex badpos) := by
  have spares := sparesBelow_eq (g := g) blockBad s.assignIndex
  cases found : reserveFor g blockBad s.assignIndex with
  | none =>
      rw [found] at spares
      rw [StandIn.Table.replace_of_nil spares, nandBbmAssignBlock_of_none found]
      have lowered : ((s.skipTo g.redirFloor).setCheck false).assignIndex =
          min g.redirFloor s.assignIndex := rfl
      rw [standIns, lowered, sparesBelow_of_le (Nat.min_le_left _ _),
        StandIn.Table.mk.injEq]
      exact ⟨redirectOf_skipTo valid _, rfl, rfl⟩
  | some reserve =>
      rw [found] at spares
      have small := reserve_lt_pow valid.cursor_le found
      rw [StandIn.Table.replace_of_cons spares, nandBbmAssignBlock_of_some found]
      have lowered : ((s.assigned (g.blockIndex badpos) reserve).setCheck
          true).assignIndex = reserve - 1 := rfl
      rw [standIns, lowered, StandIn.Table.mk.injEq]
      exact ⟨redirectOf_assigned valid _ small, rfl, rfl⟩

/-! ### Single turns -/

/-- Programming fails in the turn. -/
def turnFails (g : Geometry) (chip : ChipBehaviour) (w : WriteState) : Bool :=
  chip.programFails w.device.flash.tick (adjustPage g w.device.bbm w.page)

theorem nandWritePage_fst_ne (chip : ChipBehaviour) (d : Device) (page : Nat)
    (data : Page) :
    (nandWritePage chip d page data).1 ≠ 0 ↔
      chip.programFails d.flash.tick page = true := by
  rw [nandWritePage]
  simp only [Flash.programPage_fst]
  cases chip.programFails d.flash.tick page with
  | false => simp
  | true => simp [eio]

@[simp]
theorem writeDevice_bbm (buf : Nat → Byte) (w : WriteState) :
    (writeDevice g buf w).bbm = w.device.bbm := by
  rw [writeDevice]
  split <;> rfl

@[simp]
theorem writeDevice_flash (buf : Nat → Byte) (w : WriteState) :
    (writeDevice g buf w).flash = w.device.flash := by
  rw [writeDevice]
  split <;> rfl

/-- The device after the page of a turn has been programmed. -/
def written (g : Geometry) (chip : ChipBehaviour) (buf : Nat → Byte)
    (w : WriteState) : Device :=
  (nandWritePage chip (writeDevice g buf w)
    (adjustPage g w.device.bbm w.page) (writeData g buf w)).2

@[simp]
theorem written_bbm (buf : Nat → Byte) (w : WriteState) :
    (written g chip buf w).bbm = w.device.bbm := by
  rw [written, nandWritePage_bbm, writeDevice_bbm]

/-- The state for the next page. -/
def nextPage (g : Geometry) (chip : ChipBehaviour) (buf : Nat → Byte)
    (w : WriteState) : WriteState where
  device := written g chip buf w
  bufAt := w.bufAt + writeBytes g w
  writelen := w.writelen - writeBytes g w
  realpage := w.realpage + 1
  page := (w.realpage + 1) &&& g.pagemask
  column := 0

/-- The state for another try at the same page. -/
def retried (g : Geometry) (layout : NandLayout) (chip : ChipBehaviour)
    (buf : Nat → Byte) (w : WriteState) : WriteState :=
  { w with
    device := (nandBbmAssignBlock g layout chip (written g chip buf w)
      (nandBbmAdjust g w.device.bbm (w.page <<< g.pageShift)) true).2 }

theorem writeTurn_eq (buf : Nat → Byte) (len : Nat) (w : WriteState) :
    writeTurn g layout chip buf len w =
      if turnFails g chip w then .inl (retried g layout chip buf w)
      else if w.writelen - writeBytes g w = 0 then
        .inr ⟨0, len, written g chip buf w⟩
      else .inl (nextPage g chip buf w) := by
  have status := nandWritePage_fst_ne chip (writeDevice g buf w)
    (adjustPage g w.device.bbm w.page) (writeData g buf w)
  rw [writeDevice_flash] at status
  simp only [writeTurn, writeDevice_bbm]
  rw [turnFails]
  by_cases failed : chip.programFails w.device.flash.tick
      (adjustPage g w.device.bbm w.page) = true
  · rw [if_pos (status.mpr failed), if_pos failed]
    rfl
  · rw [if_neg (fun nonzero => failed (status.mp nonzero)), if_neg failed]
    rfl

/-! ### The pages of a request -/

/-- `chip->subpagesize` -/
def subpagesize (g : Geometry) (layout : NandLayout) : Nat :=
  g.writesize >>> layout.subpageSft

theorem subpagesize_eq (g : Geometry) (layout : NandLayout) :
    subpagesize g layout = 2 ^ (g.pageShift - layout.subpageSft) := by
  have small := layout.subpageSft_le
  have large := g.pageShift_ge
  rw [subpagesize, Geometry.writesize, Nat.shiftRight_eq_div_pow,
    Nat.pow_div (by omega) (by decide)]

theorem subpagesize_dvd (g : Geometry) (layout : NandLayout) :
    subpagesize g layout ∣ g.writesize := by
  rw [subpagesize_eq]
  exact Nat.pow_dvd_pow 2 (Nat.sub_le _ _)

theorem two_le_subpagesize (g : Geometry) (layout : NandLayout) :
    2 ≤ subpagesize g layout := by
  have small := layout.subpageSft_le
  have large := g.pageShift_ge
  rw [subpagesize_eq]
  calc
    2 = 2 ^ 1 := rfl
    _ ≤ 2 ^ (g.pageShift - layout.subpageSft) :=
      Nat.pow_le_pow_right (by decide) (by omega)

/-- The test `NOTALIGNED`. -/
theorem and_subpagesize (g : Geometry) (layout : NandLayout) (ofs : Nat) :
    ofs &&& (subpagesize g layout - 1) = 0 ↔ subpagesize g layout ∣ ofs := by
  rw [subpagesize_eq, Nat.and_two_pow_sub_one_eq_mod]
  exact (Nat.dvd_iff_mod_eq_zero).symm

/-- What the loop keeps of a request that was not refused. -/
structure WriteInv (g : Geometry) (layout : NandLayout) (w : WriteState) :
    Prop where
  page_eq : w.page = w.realpage
  column_lt : w.column < g.writesize
  writelen_pos : 0 < w.writelen
  fits : w.realpage * g.writesize + w.column + w.writelen ≤ g.size
  column_aligned : subpagesize g layout ∣ w.column
  writelen_aligned : subpagesize g layout ∣ w.writelen

/-- The number of pages that are left of a request. -/
def pagesLeft (g : Geometry) (column writelen : Nat) : Nat :=
  (column + writelen + (g.writesize - 1)) / g.writesize

theorem pagesLeft_of_le {column writelen : Nat} (some : 0 < writelen)
    (le : column + writelen ≤ g.writesize) : pagesLeft g column writelen = 1 := by
  have positive := g.writesize_pos
  rw [pagesLeft, show column + writelen + (g.writesize - 1) =
    column + writelen - 1 + 1 * g.writesize by omega,
    Nat.add_mul_div_right _ _ positive, Nat.div_eq_of_lt (by omega)]

theorem pagesLeft_of_lt {column writelen : Nat}
    (lt : g.writesize < column + writelen) :
    pagesLeft g column writelen =
      pagesLeft g 0 (column + writelen - g.writesize) + 1 := by
  have positive := g.writesize_pos
  rw [pagesLeft, pagesLeft, ← Nat.add_div_right _ positive]
  congr 1
  omega

namespace WriteInv

variable {w : WriteState}

theorem realpage_lt (inv : WriteInv g layout w) : w.realpage < g.pages := by
  have fits := inv.fits
  have some := inv.writelen_pos
  have total := g.pages_mul_writesize
  apply Nat.lt_of_mul_lt_mul_right (a := g.writesize)
  omega

theorem page_lt (inv : WriteInv g layout w) : w.page < g.pages := by
  rw [inv.page_eq]
  exact inv.realpage_lt

/-- A turn writes to the end of the page or of the request. -/
theorem writeBytes_eq (inv : WriteInv g layout w) :
    writeBytes g w = min (g.writesize - w.column) w.writelen := by
  rw [writeBytes]
  split
  · rfl
  · rename_i whole
    rw [partialPage, not_or, not_not] at whole
    have positive := g.writesize_pos
    have long : w.writelen ≠ g.writesize - 1 := by
      intro short
      have two := two_le_subpagesize g layout
      have gap := Nat.dvd_sub (subpagesize_dvd g layout) inv.writelen_aligned
      rw [show g.writesize - w.writelen = 1 by omega, Nat.dvd_one] at gap
      omega
    omega

theorem last_iff (inv : WriteInv g layout w) :
    w.writelen - writeBytes g w = 0 ↔ w.column + w.writelen ≤ g.writesize := by
  have column := inv.column_lt
  rw [inv.writeBytes_eq]
  omega

theorem retried (inv : WriteInv g layout w) (buf : Nat → Byte) :
    WriteInv g layout (retried g layout chip buf w) :=
  ⟨inv.page_eq, inv.column_lt, inv.writelen_pos, inv.fits, inv.column_aligned,
    inv.writelen_aligned⟩

theorem nextPage (inv : WriteInv g layout w) (chip : ChipBehaviour)
    (buf : Nat → Byte)
    (more : w.writelen - writeBytes g w ≠ 0) :
    WriteInv g layout (nextPage g chip buf w) ∧
      (Linux.nextPage g chip buf w).writelen =
        w.column + w.writelen - g.writesize := by
  have fits := inv.fits
  have column := inv.column_lt
  have long : g.writesize < w.column + w.writelen := by
    rw [ne_eq, inv.last_iff] at more
    omega
  have bytes : writeBytes g w = g.writesize - w.column := by
    rw [inv.writeBytes_eq]
    omega
  have length : (Linux.nextPage g chip buf w).writelen =
      w.column + w.writelen - g.writesize := by
    change w.writelen - writeBytes g w = _
    rw [bytes]
    omega
  have total := g.pages_mul_writesize
  have next : (w.realpage + 1) * g.writesize =
      w.realpage * g.writesize + g.writesize := Nat.succ_mul _ _
  have inside : w.realpage + 1 < g.pages := by
    apply Nat.lt_of_mul_lt_mul_right (a := g.writesize)
    omega
  refine ⟨⟨?_, g.writesize_pos, ?_, ?_, Nat.dvd_zero _, ?_⟩, length⟩
  · exact g.and_pagemask inside
  · rw [length]
    omega
  · rw [length]
    change (w.realpage + 1) * g.writesize + 0 +
      (w.column + w.writelen - g.writesize) ≤ g.size
    omega
  · rw [length]
    exact Nat.dvd_sub (Nat.dvd_add inv.column_aligned inv.writelen_aligned)
      (subpagesize_dvd g layout)

end WriteInv

/-- A request on the chip that is not refused starts the loop well. -/
theorem writeInv_start
    (d : Device) {start len : Nat} (inside : start + len ≤ g.size)
    (accepted : writeRefused g layout chip start len = none) :
    WriteInv g layout (writeStart g d start len) := by
  rw [writeRefused] at accepted
  split at accepted
  · cases accepted
  · rename_i some
    split at accepted
    · cases accepted
    · rename_i aligned
      rw [not_or, not_not, not_not, ← subpagesize, and_subpagesize,
        and_subpagesize] at aligned
      have split := Nat.div_add_mod' start g.writesize
      have total := g.pages_mul_writesize
      have page : start >>> g.pageShift < g.pages := by
        rw [g.shiftRight_pageShift]
        apply (Nat.div_lt_iff_lt_mul g.writesize_pos).mpr
        omega
      refine ⟨g.and_pagemask page, ?_, Nat.pos_of_ne_zero some, ?_, ?_,
        aligned.2⟩
      · change start &&& (g.writesize - 1) < g.writesize
        rw [g.and_writesize]
        exact Nat.mod_lt _ g.writesize_pos
      · change start >>> g.pageShift * g.writesize +
          (start &&& (g.writesize - 1)) + len ≤ g.size
        rw [g.shiftRight_pageShift, g.and_writesize]
        omega
      · change subpagesize g layout ∣ start &&& (g.writesize - 1)
        rw [g.and_writesize]
        exact (Nat.dvd_mod_iff (subpagesize_dvd g layout)).mpr aligned.1

/-! ### The place in a request -/

/-- A page of which a request has bytes. -/
def InRequest (g : Geometry) (start len realpage : Nat) : Prop :=
  realpage * g.writesize < start + len ∧ start < (realpage + 1) * g.writesize

/-- The loop of a write stands in its request, wherever that lies. -/
structure InWrite (g : Geometry) (start len : Nat) (w : WriteState) : Prop where
  position : w.realpage * g.writesize + w.column = start + w.bufAt
  left : w.bufAt + w.writelen = len
  more : 0 < w.writelen
  column_lt : w.column < g.writesize
  page : w.page = w.realpage &&& g.pagemask

namespace InWrite

variable {start len : Nat} {w : WriteState} {buf : Nat → Byte}

theorem inRequest (here : InWrite g start len w) : InRequest g start len w.realpage := by
  have position := here.position
  have left := here.left
  have more := here.more
  have column := here.column_lt
  refine ⟨by omega, ?_⟩
  rw [Nat.add_mul, Nat.one_mul]
  omega

/-- Where a turn leaves bytes to write, it has come to the end of its page. -/
theorem column_add_writeBytes (more : w.writelen - writeBytes g w ≠ 0)
    (column : w.column < g.writesize) : w.column + writeBytes g w = g.writesize := by
  unfold writeBytes at more ⊢
  split at more
  · rename_i part
    rw [if_pos part]
    omega
  · rename_i whole
    rw [if_neg whole]
    have zero : w.column = 0 := by
      by_contra column
      exact whole (Or.inl column)
    omega

theorem nextPage (here : InWrite g start len w) (more : w.writelen - writeBytes g w ≠ 0) :
    InWrite g start len (Linux.nextPage g chip buf w) := by
  have finished := column_add_writeBytes more here.column_lt
  have position := here.position
  have left := here.left
  refine ⟨?_, ?_, Nat.pos_of_ne_zero more, g.writesize_pos, rfl⟩
  · change (w.realpage + 1) * g.writesize + 0 = start + (w.bufAt + writeBytes g w)
    rw [Nat.add_mul, Nat.one_mul]
    omega
  · change w.bufAt + writeBytes g w + (w.writelen - writeBytes g w) = len
    omega

theorem retried (here : InWrite g start len w) :
    InWrite g start len (Linux.retried g layout chip buf w) :=
  ⟨here.position, here.left, here.more, here.column_lt, here.page⟩

end InWrite

theorem inWrite_start (d : Device) {start len : Nat}
    (accepted : writeRefused g layout chip start len = none) :
    InWrite g start len (writeStart g d start len) := by
  have some_ : len ≠ 0 := by
    intro empty
    rw [writeRefused, if_pos empty] at accepted
    cases accepted
  refine ⟨?_, Nat.zero_add len, Nat.pos_of_ne_zero some_, ?_, rfl⟩
  · change start >>> g.pageShift * g.writesize + (start &&& (g.writesize - 1)) = start + 0
    rw [g.shiftRight_pageShift, g.and_writesize, Nat.div_add_mod']
    rfl
  · change start &&& (g.writesize - 1) < g.writesize
    rw [g.and_writesize]
    exact Nat.mod_lt start g.writesize_pos

end Gp2Firmware.Linux
