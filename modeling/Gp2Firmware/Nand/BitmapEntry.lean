import Mathlib.Tactic
import Mathlib.Data.Nat.Bitwise

/-!
# Entries of `nand_bbm_bitmap`

An entry is one 32-bit `unsigned long`: a block index in the low 28 bits and
two flags on top.  Everything the bad-block manager does to an entry is an
`or` with one of the masks, so the lemmas here say how the flag test and the
index field see those operations; no other module looks at single bits.
-/

namespace Gp2Firmware.Nand

/-- `unsigned long` of the 32-bit targets. -/
abbrev Word := BitVec 32

/-- `BBM_BB_MASK` -/
def bbmBbMask : Word := 0x80000000

/-- `BBM_REDIR_MASK` -/
def bbmRedirMask : Word := 0x40000000

/-- `BBM_IDX_MASK` -/
def bbmIdxMask : Word := 0x0fffffff

/-- The test `entry & BBM_BB_MASK`. -/
def isBad (entry : Word) : Bool := entry &&& bbmBbMask != 0

/-- The block index `entry & BBM_IDX_MASK`. -/
def indexOf (entry : Word) : Nat := (entry &&& bbmIdxMask).toNat

/-- The entry `BBM_BB_MASK | index`. -/
def badEntry (index : Nat) : Word := bbmBbMask ||| BitVec.ofNat 32 index

theorem isBad_eq_getLsbD (entry : Word) : isBad entry = entry.getLsbD 31 := by
  have masked : entry &&& bbmBbMask = if entry.getLsbD 31 then bbmBbMask else 0 := by
    apply BitVec.eq_of_getLsbD_eq
    intro bit bound
    rw [BitVec.getLsbD_and]
    have only : bbmBbMask.getLsbD bit = decide (bit = 31) := by
      interval_cases bit <;> rfl
    rw [only]
    by_cases last : bit = 31
    · subst last
      cases entry.getLsbD 31 <;> decide
    · cases entry.getLsbD 31 <;> simp [only, last]
  rw [isBad, masked]
  cases entry.getLsbD 31 <;> decide

theorem indexOf_eq_mod (entry : Word) : indexOf entry = entry.toNat % 2 ^ 28 := by
  rw [indexOf, BitVec.toNat_and, ← Nat.and_two_pow_sub_one_eq_mod]
  rfl

private theorem indexOf_or (left right : Word) :
    indexOf (left ||| right) = indexOf left ||| indexOf right := by
  rw [indexOf_eq_mod, indexOf_eq_mod, indexOf_eq_mod, BitVec.toNat_or,
    Nat.or_mod_two_pow]

@[simp]
theorem isBad_or (left right : Word) :
    isBad (left ||| right) = (isBad left || isBad right) := by
  simp only [isBad_eq_getLsbD, BitVec.getLsbD_or]

@[simp]
theorem isBad_bbmBbMask : isBad bbmBbMask = true := by
  decide

@[simp]
theorem isBad_bbmRedirMask : isBad bbmRedirMask = false := by
  decide

@[simp]
theorem indexOf_or_bbmBbMask (entry : Word) :
    indexOf (entry ||| bbmBbMask) = indexOf entry := by
  rw [indexOf_or, show indexOf bbmBbMask = 0 from by decide, Nat.or_zero]

@[simp]
theorem indexOf_or_bbmRedirMask (entry : Word) :
    indexOf (entry ||| bbmRedirMask) = indexOf entry := by
  rw [indexOf_or, show indexOf bbmRedirMask = 0 from by decide, Nat.or_zero]

@[simp]
theorem isBad_badEntry (index : Nat) : isBad (badEntry index) = true := by
  rw [badEntry, isBad_or, isBad_bbmBbMask, Bool.true_or]

theorem indexOf_ofNat {index : Nat} (small : index < 2 ^ 28) :
    indexOf (BitVec.ofNat 32 index) = index := by
  rw [indexOf_eq_mod, BitVec.toNat_ofNat]
  omega

theorem indexOf_badEntry {index : Nat} (small : index < 2 ^ 28) :
    indexOf (badEntry index) = index := by
  rw [badEntry, indexOf_or, show indexOf bbmBbMask = 0 from by decide,
    Nat.zero_or, indexOf_ofNat small]

theorem isBad_ofNat {index : Nat} (small : index < 2 ^ 28) :
    isBad (BitVec.ofNat 32 index) = false := by
  rw [isBad_eq_getLsbD, BitVec.getLsbD_ofNat]
  have high : index.testBit 31 = false :=
    Nat.testBit_lt_two_pow
      (lt_of_lt_of_le small (Nat.pow_le_pow_right (by decide) (by decide)))
  simp [high]

/-- The redirect flag `entry & BBM_REDIR_MASK`, which no test of the drivers
reads but which is part of the map. -/
def isRedirect (entry : Word) : Bool := entry.getLsbD 30

@[simp]
theorem isRedirect_or (left right : Word) :
    isRedirect (left ||| right) = (isRedirect left || isRedirect right) := by
  simp only [isRedirect, BitVec.getLsbD_or]

@[simp]
theorem isRedirect_bbmRedirMask : isRedirect bbmRedirMask = true := by
  decide

@[simp]
theorem isRedirect_bbmBbMask : isRedirect bbmBbMask = false := by
  decide

theorem isRedirect_ofNat {index : Nat} (small : index < 2 ^ 28) :
    isRedirect (BitVec.ofNat 32 index) = false := by
  rw [isRedirect, BitVec.getLsbD_ofNat]
  have high : index.testBit 30 = false :=
    Nat.testBit_lt_two_pow
      (lt_of_lt_of_le small (Nat.pow_le_pow_right (by decide) (by decide)))
  simp [high]

end Gp2Firmware.Nand
