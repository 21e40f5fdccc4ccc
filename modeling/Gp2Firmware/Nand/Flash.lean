import Gp2Firmware.Lib.ClearOnlyCells
import Gp2Firmware.Nand.Geometry

/-!
# The flash array behind the drivers

Pages of clear-only bytes, numbered from the start of the chip.  The chip may
fail any program or erase; which ones fail, and what they leave behind, is
chosen by the environment separately for every operation.
-/

namespace Gp2Firmware.Nand

open Gp2Firmware.Lib

/-- Eight bits, least significant first. -/
abbrev Byte := Fin 8 → Bool

/-- The bytes of a page by column. -/
abbrev Page := Nat → Byte

/-- The array: data and spare area of every physical page, and the number of
program and erase operations it has carried out. -/
structure Flash where
  data : Nat → Page
  spare : Nat → Page
  tick : Nat

/-- How the chip behaves during one call of a driver function.  `blockBad` is
the answer of `chip->block_bad` for an offset; `misread` is what arrives for a
page that cannot be corrected; the failure of a program or erase is looked up
under the number of the operation and the page it addresses. -/
structure ChipBehaviour where
  blockBad : Nat → Bool
  writeProtected : Bool
  misread : Nat → Option Page
  programFails : Nat → Nat → Bool
  stuckData : Nat → Nat → Page
  stuckSpare : Nat → Nat → Page
  eraseFails : Nat → Nat → Bool
  erasedPartly : Nat → Nat → Page

/-- A chip on which nothing fails and no block is bad. -/
def ChipBehaviour.sound : ChipBehaviour where
  blockBad := fun _ => false
  writeProtected := false
  misread := fun _ => none
  programFails := fun _ _ => false
  stuckData := fun _ _ => ⊤
  stuckSpare := fun _ _ => ⊤
  eraseFails := fun _ _ => false
  erasedPartly := fun _ _ => ⊤

/-- A chip whose only trouble is a list of bad blocks. -/
def ChipBehaviour.withBad (g : Geometry) (bad : List Nat) : ChipBehaviour :=
  { ChipBehaviour.sound with
    blockBad := fun ofs => decide (g.blockIndex ofs ∈ bad) }

/-- `instr->state` -/
inductive EraseState where
  | pending
  | erasing
  | failed
  | done
  deriving DecidableEq

/-- `struct erase_info`.  The callers check the range, so that its end does not
wrap. -/
structure EraseInfo where
  addr : Nat
  len : Nat
  nowrap : addr + len < 2 ^ 32
  failAddr : Nat
  state : EraseState

/-- The request to erase one block. -/
def EraseInfo.ofBlock (g : Geometry) (block : Nat) (inside : block < g.blocks) :
    EraseInfo where
  addr := g.blockPos block
  len := g.erasesize
  nowrap := by
    have total := g.blocks_mul_erasesize
    have small : g.size ≤ 2 ^ 31 :=
      Nat.pow_le_pow_right (by decide) g.chipShift_le
    have next : (block + 1) * g.erasesize ≤ g.blocks * g.erasesize :=
      Nat.mul_le_mul_right _ inside
    rw [Nat.add_mul, Nat.one_mul] at next
    rw [g.blockPos_eq]
    omega
  failAddr := 0
  state := EraseState.pending

namespace Flash

/-- An erased array. -/
def erased : Flash where
  data := fun _ => ⊤
  spare := fun _ => ⊤
  tick := 0

/-- `SEQIN`, data and spare bytes, `PAGEPROG`, and the status afterwards.  The
flag is the `FAIL` bit. -/
def programPage (f : Flash) (chip : ChipBehaviour) (page : Nat)
    (data spare : Page) : Bool × Flash :=
  if chip.programFails f.tick page then
    (true,
      { data := Function.update f.data page
          (programPartly (f.data page) data (chip.stuckData f.tick page))
        spare := Function.update f.spare page
          (programPartly (f.spare page) spare (chip.stuckSpare f.tick page))
        tick := f.tick + 1 })
  else
    (false,
      { data := Function.update f.data page (program (f.data page) data)
        spare := Function.update f.spare page (program (f.spare page) spare)
        tick := f.tick + 1 })

/-- The erase command for the block that starts at `page`, and the status
afterwards. -/
def eraseBlock (f : Flash) (g : Geometry) (chip : ChipBehaviour)
    (page : Nat) : Bool × Flash :=
  if chip.eraseFails f.tick page then
    (true,
      { data := fun other =>
          if page ≤ other ∧ other < page + g.pagesPerBlock then
            chip.erasedPartly f.tick other
          else f.data other
        spare := fun other =>
          if page ≤ other ∧ other < page + g.pagesPerBlock then
            chip.erasedPartly f.tick other
          else f.spare other
        tick := f.tick + 1 })
  else
    (false,
      { data := fun other =>
          if page ≤ other ∧ other < page + g.pagesPerBlock then ⊤
          else f.data other
        spare := fun other =>
          if page ≤ other ∧ other < page + g.pagesPerBlock then ⊤
          else f.spare other
        tick := f.tick + 1 })

variable {f : Flash} {g : Geometry} {chip : ChipBehaviour} {page : Nat}

theorem programPage_fst (data spare : Page) :
    (f.programPage chip page data spare).1 = chip.programFails f.tick page := by
  rw [programPage]
  split <;> simp_all

theorem programPage_of_works
    (works : chip.programFails f.tick page = false) (data spare : Page) :
    f.programPage chip page data spare =
      (false,
        { data := Function.update f.data page (program (f.data page) data)
          spare := Function.update f.spare page (program (f.spare page) spare)
          tick := f.tick + 1 }) := by
  rw [programPage, works, if_neg (by simp)]

/-- A failed program may leave whatever lies between the old content and the programmed
one. -/
theorem exists_programPage_fails {data left : Page} (lower : program (f.data page) data ≤ left)
    (upper : left ≤ f.data page) (spare : Page) :
    ∃ chip, (f.programPage chip page data spare).1 = true ∧
      (f.programPage chip page data spare).2.data page = left := by
  obtain ⟨stuck, leaves⟩ := exists_programPartly lower upper
  refine ⟨{ ChipBehaviour.sound with
    programFails := fun _ _ => true
    stuckData := fun _ _ => stuck }, ?_⟩
  rw [programPage, if_pos rfl]
  refine ⟨rfl, ?_⟩
  change Function.update f.data page _ page = left
  rw [Function.update_self]
  exact leaves

/-- A program touches no page but its own. -/
theorem programPage_other
    {other : Nat} (different : other ≠ page) (data spare : Page) :
    (f.programPage chip page data spare).2.data other = f.data other := by
  rw [programPage]
  split <;> exact Function.update_of_ne different _ _

theorem eraseBlock_fst :
    (f.eraseBlock g chip page).1 = chip.eraseFails f.tick page := by
  rw [eraseBlock]
  split <;> simp_all

theorem eraseBlock_of_works
    (works : chip.eraseFails f.tick page = false) :
    f.eraseBlock g chip page =
      (false,
        { data := fun other =>
            if page ≤ other ∧ other < page + g.pagesPerBlock then ⊤
            else f.data other
          spare := fun other =>
            if page ≤ other ∧ other < page + g.pagesPerBlock then ⊤
            else f.spare other
          tick := f.tick + 1 }) := by
  rw [eraseBlock, works, if_neg (by simp)]

/-- An erase touches no page outside its block. -/
theorem eraseBlock_other
    {other : Nat}
    (outside : ¬ (page ≤ other ∧ other < page + g.pagesPerBlock)) :
    (f.eraseBlock g chip page).2.data other = f.data other := by
  rw [eraseBlock]
  split <;> exact if_neg outside

end Flash

end Gp2Firmware.Nand
