import Mathlib.Data.Fin.Basic
import Mathlib.Tactic.FinCases
import Gp2Firmware.Lib.WordBits

/-!
# The mailbox registers

A mail is eight words, and so is a register group of `mhal_msmailbox.c`.  Word 0
carries the control bits of the macros in `mhal_msmailbox.h` and word 7 the
state bits.
-/

namespace Gp2Firmware.Msmailbox

abbrev Word := BitVec 16

/-- `msmailbox_t`, or what a register group holds. -/
abbrev Mail := Fin 8 → Word

namespace Mail

def setBit (mail : Mail) (word : Fin 8) (bit : Fin 16) : Mail :=
  Function.update mail word (mail word ||| (1#16 <<< bit.val))

def clearBit (mail : Mail) (word : Fin 8) (bit : Fin 16) : Mail :=
  Function.update mail word (mail word &&& ~~~(1#16 <<< bit.val))

def testBit (mail : Mail) (word : Fin 8) (bit : Fin 16) : Bool :=
  mail word &&& (1#16 <<< bit.val) != 0

/-- `_FIRE_S`, `_FIRE_C`, `_FIRE` -/
def fireS (regs : Mail) : Mail := regs.setBit 0 0
def fireC (regs : Mail) : Mail := regs.clearBit 0 0
def fire (regs : Mail) : Bool := regs.testBit 0 0

/-- `_READBACK` -/
def readback (regs : Mail) : Bool := regs.testBit 0 1

/-- `_INSTANT` -/
def instant (regs : Mail) : Bool := regs.testBit 0 2

/-- `_BUSY_S`, `_BUSY_C`, `_BUSY` -/
def busyS (regs : Mail) : Mail := regs.setBit 7 15
def busyC (regs : Mail) : Mail := regs.clearBit 7 15
def busy (regs : Mail) : Bool := regs.testBit 7 15

/-- `_OVERFLOW_S`, `_OVERFLOW_C`, `_OVERFLOW` -/
def overflowS (regs : Mail) : Mail := regs.setBit 7 13
def overflowC (regs : Mail) : Mail := regs.clearBit 7 13
def overflow (regs : Mail) : Bool := regs.testBit 7 13

/-- `_S1_C` -/
def s1C (regs : Mail) : Mail := Function.update regs 7 (regs 7 &&& 0x00FF)

end Mail

/-- The loop that copies a mail word by word. -/
def fill (regs mail : Mail) : Mail :=
  (List.finRange 8).foldl (fun regs k => Function.update regs k (mail k)) regs

/-- The results of the calls in `mhal_msmailbox.c`. -/
inductive ErrCode where
  | ok
  | coprocessorNotReady
  | coprocessorBusy
  | coprocessorOverflow
  deriving DecidableEq

theorem fill_eq (regs mail : Mail) : fill regs mail = mail := by
  funext k
  fin_cases k <;> rfl

theorem fire_zero : Mail.fire (fun _ => 0) = false := by decide

/-! ### Bits of the registers -/

namespace Mail

variable {mail : Mail} {word other : Fin 8} {bit place : Fin 16}

theorem testBit_eq : mail.testBit word bit = (mail word).getLsbD bit := by
  rw [testBit, Bool.eq_iff_iff, bne_iff_ne]
  exact Lib.and_bit_ne_zero (mail word) bit

theorem testBit_setBit :
    (mail.setBit word bit).testBit other place =
      (mail.testBit other place || decide (other = word ∧ place = bit)) := by
  rw [testBit_eq, testBit_eq, setBit]
  by_cases same : other = word
  · subst same
    rw [Function.update_self, Lib.getLsbD_or_bit]
    simp
  · rw [Function.update_of_ne same]
    simp [same]

theorem testBit_clearBit :
    (mail.clearBit word bit).testBit other place =
      (mail.testBit other place && decide (¬ (other = word ∧ place = bit))) := by
  rw [testBit_eq, testBit_eq, clearBit]
  by_cases same : other = word
  · subst same
    rw [Function.update_self, Lib.getLsbD_and_not_bit]
    simp
  · rw [Function.update_of_ne same]
    simp [same]

/-- A mail is determined by its bits. -/
theorem ext_testBit {first second : Mail}
    (same : ∀ word bit, first.testBit word bit = second.testBit word bit) :
    first = second := by
  funext word
  ext i small
  have bits := same word ⟨i, small⟩
  rw [testBit_eq, testBit_eq] at bits
  simpa [BitVec.getLsbD_eq_getElem small] using bits

@[simp]
theorem fire_fireS : mail.fireS.fire = true := by
  simp [fire, fireS, testBit_setBit]

@[simp]
theorem fire_fireC : mail.fireC.fire = false := by
  simp [fire, fireC, testBit_clearBit]

@[simp]
theorem instant_busyS : mail.busyS.instant = mail.instant := by
  rw [instant, busyS, testBit_setBit]
  simp [instant]

@[simp]
theorem readback_busyS : mail.busyS.readback = mail.readback := by
  rw [readback, busyS, testBit_setBit]
  simp [readback]

@[simp]
theorem fireS_fireS : mail.fireS.fireS = mail.fireS := by
  apply ext_testBit
  intro word bit
  simp [fireS, testBit_setBit]

@[simp]
theorem fireS_fireC : mail.fireC.fireS = mail.fireS := by
  apply ext_testBit
  intro word bit
  rw [fireS, fireC, testBit_setBit, testBit_clearBit, fireS, testBit_setBit]
  by_cases here : word = 0 ∧ bit = 0 <;> simp [here]

theorem fireS_of_fire (set : mail.fire = true) : mail.fireS = mail := by
  apply ext_testBit
  intro word bit
  rw [fireS, testBit_setBit]
  by_cases here : word = 0 ∧ bit = 0
  · obtain ⟨rfl, rfl⟩ := here
    rw [show mail.testBit 0 0 = true from set]
    rfl
  · simp [here]

end Mail

end Gp2Firmware.Msmailbox
