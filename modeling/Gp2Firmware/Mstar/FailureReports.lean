import Gp2Firmware.Mstar.NandBase

/-!
# Failed programs and erases

`nand_write_page`, `nand_write_oob_std` and `nand_erase_nand` look at the value of
`chip->waitfunc`, and `_titania_nand_wait` has no other value than 0.  What the
controller reports of a program or an erase is dropped in the driver.
-/

namespace Gp2Firmware.Mstar

open Gp2Firmware.Nand
open Gp2Firmware.Linux

/-- A page program, a program of the spare bytes from `oob_poi`, or an erase with
the answers of `chip->block_bad`. -/
inductive Operation where
  | writePage (buf : Nat → U8) (page : Nat) (raw : Bool)
  | writeOob (page : Nat)
  | erase (bad : Nat → Nat → Bool) (instr : EraseInfo)

variable (b : Board)

/-- The function of `nand_base.c` for an operation. -/
def Operation.run (m : Mtd) : Operation → Int × Mtd
  | .writePage buf page raw => m.nandWritePage b buf page raw
  | .writeOob page => m.nandWriteOobStd b page
  | .erase bad instr =>
      let erased := m.nandEraseNand b bad instr
      (erased.1, erased.2.2)

/-- Whether an operation comes to the chip.  An erase is refused on a wrong range and
on a write-protected chip. -/
def Operation.Starts (m : Mtd) : Operation → Prop
  | .writePage .. => True
  | .writeOob _ => True
  | .erase _ instr => Mtd.EraseTaken b instr ∧ (m.nandCheckWp b).1 = false

/-- The number of programs and erases that an operation is made of, where it comes to
the chip. -/
def Operation.count : Operation → Nat
  | .writePage .. => 1
  | .writeOob _ => 1
  | .erase _ instr => instr.len >>> b.g.physEraseShift

/-- The state from which the failures of one operation are looked at. -/
def Mtd.noneFailed (m : Mtd) : Mtd :=
  { m with driver := { m.driver with failed := false } }

/-- A failure of the operation is reported, and nothing else is. -/
def FailureReported (m : Mtd) (op : Operation) : Prop :=
  let after := op.run b m.noneFailed
  (after.2.driver.failed = true → after.1 < 0) ∧
    (after.2.driver.failed = false → op.Starts b m → after.1 = 0)

/-- No program and no erase of the operation fails. -/
def NothingFails (m : Mtd) (op : Operation) : Prop :=
  op.Starts b m →
    ∀ n < op.count b, (b.hw.write (m.driver.writes + n)).fails = false

/-! ### The driver keeps the failure to itself -/

namespace Driver

variable (hw : Hw) (d : Driver)

theorem staged_failed : (d.staged hw).failed = d.failed := by
  unfold staged
  split
  · split <;> rfl
  · rfl

theorem staged_writes : (d.staged hw).writes = d.writes := by
  unfold staged
  split
  · split <;> rfl
  · rfl

theorem pageProgram_failed :
    (d.pageProgram hw).failed = (d.failed || (hw.write d.writes).fails) := by
  unfold pageProgram program
  simp only [staged_failed, staged_writes]

end Driver

namespace Mtd

variable {b}

theorem nandWritePage_failed (m : Mtd) (buf : Nat → U8) (page : Nat) (raw : Bool) :
    (m.nandWritePage b buf page raw).2.driver.failed =
      (m.driver.failed || (b.hw.write m.driver.writes).fails) :=
  Driver.pageProgram_failed b.hw _

theorem nandWriteOobStd_failed (m : Mtd) (page : Nat) :
    (m.nandWriteOobStd b page).2.driver.failed =
      (m.driver.failed || (b.hw.write m.driver.writes).fails) :=
  Driver.pageProgram_failed b.hw _

theorem eraseTurn_passes (bad : Nat → Bool) (m : Mtd) (page : Nat) :
    (m.eraseTurn b bad page).1 = false :=
  Driver.wait_passes _

/-- The loop goes on past a block that could not be erased. -/
theorem eraseLoop_succ (bad : Nat → Nat → Bool) (left page : Nat) (instr : EraseInfo)
    (m : Mtd) :
    m.eraseLoop b bad (left + 1) page instr =
      (m.eraseTurn b (bad left) page).2.eraseLoop b bad left
        (page + b.g.pagesPerBlock) instr := by
  rw [eraseLoop]
  exact if_neg (Bool.not_eq_true _ ▸ eraseTurn_passes (bad left) m page)

theorem eraseLoop_state (bad : Nat → Nat → Bool) (left page : Nat)
    (instr : EraseInfo) (m : Mtd) :
    (m.eraseLoop b bad left page instr).1.state = EraseState.done := by
  induction left generalizing page m with
  | zero => rfl
  | succ left inductionHypothesis =>
      rw [eraseLoop_succ]
      exact inductionHypothesis _ _

/-- After the loop a failure is known to the driver if there was one in any of its
erases. -/
theorem eraseLoop_failed (bad : Nat → Nat → Bool) (left page : Nat)
    (instr : EraseInfo) (m : Mtd) :
    (m.eraseLoop b bad left page instr).2.driver.failed = false ↔
      m.driver.failed = false ∧
        ∀ n < left, (b.hw.write (m.driver.writes + n)).fails = false := by
  induction left generalizing page m with
  | zero =>
      refine (and_iff_left ?_).symm
      intro n below
      exact absurd below (Nat.not_lt_zero n)
  | succ left inductionHypothesis =>
      have here :
          (m.eraseTurn b (bad left) page).2.driver.failed =
            (m.driver.failed || (b.hw.write m.driver.writes).fails) := rfl
      have next :
          (m.eraseTurn b (bad left) page).2.driver.writes = m.driver.writes + 1 := rfl
      rw [eraseLoop_succ, inductionHypothesis, here, next, Bool.or_eq_false_iff,
        and_assoc]
      refine and_congr_right fun _ => ?_
      rw [Nat.forall_lt_succ_left]
      refine and_congr_right fun _ => ?_
      refine forall₂_congr fun n _ => ?_
      rw [Nat.add_assoc, Nat.add_comm 1 n]

end Mtd

namespace Operation

variable {b}

/-- What comes to the chip returns 0, and the driver knows of every failure. -/
theorem run_of_starts {m : Mtd} {op : Operation} (starts : op.Starts b m) :
    (op.run b m.noneFailed).1 = 0 ∧
      ((op.run b m.noneFailed).2.driver.failed = false ↔
        ∀ n < op.count b, (b.hw.write (m.driver.writes + n)).fails = false) := by
  cases op with
  | writePage buf page raw =>
      refine ⟨Mtd.nandWritePage_ret _ _ _ _ _, ?_⟩
      rw [run, Mtd.nandWritePage_failed, count, Nat.forall_lt_succ_left]
      refine (and_iff_left ?_).symm
      intro n below
      exact absurd below (Nat.not_lt_zero n)
  | writeOob page =>
      refine ⟨Mtd.nandWriteOobStd_ret _ _ _, ?_⟩
      rw [run, Mtd.nandWriteOobStd_failed, count, Nat.forall_lt_succ_left]
      refine (and_iff_left ?_).symm
      intro n below
      exact absurd below (Nat.not_lt_zero n)
  | erase bad instr =>
      rcases starts with ⟨taken, writable⟩
      have loop :
          m.noneFailed.eraseBlocks b bad instr =
            (m.noneFailed.nandCheckWp b).2.eraseLoop b bad
              (instr.len >>> b.g.physEraseShift) (instr.addr >>> b.g.pageShift)
              { instr with failAddr := 0xffffffff, state := EraseState.erasing } := by
        unfold Mtd.eraseBlocks
        exact if_neg (Bool.not_eq_true _ ▸ writable)
      have all :
          m.noneFailed.nandEraseNand b bad instr =
            (if (m.noneFailed.eraseBlocks b bad instr).1.state = EraseState.done
              then 0 else -eio, m.noneFailed.eraseBlocks b bad instr) :=
        if_pos taken
      have finished : (m.noneFailed.nandEraseNand b bad instr).1 = 0 := by
        rw [all, loop]
        exact if_pos (Mtd.eraseLoop_state _ _ _ _ _)
      refine ⟨finished, ?_⟩
      rw [run, all, loop]
      exact (Mtd.eraseLoop_failed bad _ _ _ _).trans (and_iff_right rfl)

/-- What is refused does not come to the chip. -/
theorem run_of_refused {m : Mtd} {op : Operation} (refused : ¬ op.Starts b m) :
    (op.run b m.noneFailed).2.driver.failed = false := by
  cases op with
  | writePage => exact absurd trivial refused
  | writeOob => exact absurd trivial refused
  | erase bad instr =>
      by_cases taken : Mtd.EraseTaken b instr
      · have protected_ : (m.nandCheckWp b).1 = true := by
          cases writable : (m.nandCheckWp b).1 with
          | true => rfl
          | false => exact absurd ⟨taken, writable⟩ refused
        have stopped :
            m.noneFailed.eraseBlocks b bad instr =
              ({ instr with failAddr := 0xffffffff, state := EraseState.failed },
                (m.noneFailed.nandCheckWp b).2) := by
          unfold Mtd.eraseBlocks
          exact if_pos protected_
        rw [run, Mtd.nandEraseNand, if_pos taken, stopped]
        rfl
      · rw [run, Mtd.nandEraseNand, if_neg taken]
        rfl

end Operation

/-- A program or an erase is reported as it went exactly when it did not fail. -/
theorem failureReported_iff (m : Mtd) (op : Operation) :
    FailureReported b m op ↔ NothingFails b m op := by
  by_cases starts : op.Starts b m
  · rcases Operation.run_of_starts starts with ⟨ret, failed⟩
    constructor
    · rintro ⟨reported, -⟩ -
      rw [← failed]
      cases known : (op.run b m.noneFailed).2.driver.failed with
      | false => rfl
      | true =>
          have negative := reported known
          rw [ret] at negative
          exact absurd negative (lt_irrefl 0)
    · intro nothing
      have unknown := failed.mpr (nothing starts)
      refine ⟨?_, fun _ _ => ret⟩
      intro known
      rw [unknown] at known
      cases known
  · have unknown := Operation.run_of_refused starts
    refine iff_of_true ⟨?_, fun _ started => absurd started starts⟩
      fun started => absurd started starts
    intro known
    rw [unknown] at known
    cases known

/-- A chip that is worn out: every program and every erase ends with `FAIL`. -/
def wornHw : Hw where
  flash2kpage := true
  job := fun _ => ⟨false, false, false, 0xC0, none⟩
  write := fun _ => ⟨false, 0xC1, none⟩
  ecc := fun _ _ => 0xFF

/-- A worn chip of 128 MiB. -/
def wornBoard : Board := ⟨nand128MiB, wornHw, true, by decide⟩

/-- On a worn chip a page program, a program of the spare bytes and the erase of
block 9 return 0, and the driver knows that each of them failed. -/
theorem failures_dropped :
    (let m := Mtd.fresh nand128MiB
      let data := Operation.writePage (fun _ => 0x5A) 576 false
      let spare := Operation.writeOob 576
      let block := Operation.erase (fun _ _ => false)
        (.ofBlock nand128MiB 9 (by decide))
      ¬ FailureReported wornBoard m data ∧ ¬ FailureReported wornBoard m spare ∧
        ¬ FailureReported wornBoard m block) := by
  have known :
      let m := Mtd.fresh nand128MiB
      let data := Operation.writePage (fun _ => 0x5A) 576 false
      let spare := Operation.writeOob 576
      let block := Operation.erase (fun _ _ => false)
        (.ofBlock nand128MiB 9 (by decide))
      ∀ op ∈ [data, spare, block],
        (op.run wornBoard m.noneFailed).2.driver.failed = true ∧
          ¬ (op.run wornBoard m.noneFailed).1 < 0 := by
    decide +kernel
  refine ⟨?_, ?_, ?_⟩ <;> rintro ⟨reported, -⟩
  · have at_ := known _ (List.mem_cons_self ..)
    exact at_.2 (reported at_.1)
  · have at_ := known _ (List.mem_cons_of_mem _ (List.mem_cons_self ..))
    exact at_.2 (reported at_.1)
  · have at_ :=
      known _ (List.mem_cons_of_mem _ (List.mem_cons_of_mem _ (List.mem_cons_self ..)))
    exact at_.2 (reported at_.1)

end Gp2Firmware.Mstar
