import Mathlib.Data.BitVec

/-!
# Cyclic redundancy checks

The register of a check takes the bits of a message one after the other, the most
significant bit of each byte first.  A shift of the register is linear in exclusive or, so
the eight shifts of a byte are an entry of a table for the top byte of the register and a
move of the rest.
-/

namespace Gp2Firmware.Lib.Crc

variable {w : Nat} (poly : BitVec w)

/-- One shift of the register; the bit that leaves it brings in the polynomial. -/
def shift (reg : BitVec w) : BitVec w :=
  if reg.msb then (reg <<< 1) ^^^ poly else reg <<< 1

def shifts : Nat → BitVec w → BitVec w
  | 0, reg => reg
  | count + 1, reg => shifts count (shift poly reg)

/-- One bit of the message: it is taken together with the bit that leaves the register. -/
def feedBit (reg : BitVec w) (bit : Bool) : BitVec w :=
  if (reg.msb ^^ bit) then (reg <<< 1) ^^^ poly else reg <<< 1

/-- The bits of a byte, the most significant one first. -/
def bits (byte : BitVec 8) : List Bool :=
  (List.range 8).map fun i => byte.getLsbD (7 - i)

def feedByte (reg : BitVec w) (byte : BitVec 8) : BitVec w :=
  (bits byte).foldl (feedBit poly) reg

/-- The register behind a message. -/
def register (reg : BitVec w) (message : List (BitVec 8)) : BitVec w :=
  message.foldl (feedByte poly) reg

/-- A byte at the top of a register. -/
def atTop (byte : BitVec 8) : BitVec w :=
  byte.setWidth w <<< (w - 8)

/-- The byte at the top of a register. -/
def top (reg : BitVec w) : BitVec 8 :=
  (reg >>> (w - 8)).setWidth 8

/-- The entry of the table for a byte. -/
def entry (byte : BitVec 8) : BitVec w :=
  shifts poly 8 (atTop byte)

variable {poly}

theorem register_append (reg : BitVec w) (first second : List (BitVec 8)) :
    register poly reg (first ++ second) = register poly (register poly reg first) second :=
  List.foldl_append

/-! ### Linearity -/

theorem shift_xor (left right : BitVec w) :
    shift poly (left ^^^ right) = shift poly left ^^^ shift poly right := by
  simp only [shift, BitVec.msb_xor, BitVec.shiftLeft_xor_distrib]
  cases left.msb with
  | false =>
      cases right.msb with
      | false => rfl
      | true =>
          simp only [Bool.false_xor, if_true, Bool.false_eq_true, if_false]
          ac_rfl
  | true =>
      cases right.msb with
      | false =>
          simp only [Bool.xor_false, if_true, Bool.false_eq_true, if_false]
          ac_rfl
      | true =>
          simp only [Bool.xor_self, if_true, Bool.false_eq_true, if_false]
          have twice : poly ^^^ poly = 0#w := BitVec.xor_self
          calc left <<< 1 ^^^ right <<< 1
              = left <<< 1 ^^^ right <<< 1 ^^^ (poly ^^^ poly) := by
                rw [twice, BitVec.xor_zero]
            _ = left <<< 1 ^^^ poly ^^^ (right <<< 1 ^^^ poly) := by ac_rfl

theorem shifts_xor (count : Nat) (left right : BitVec w) :
    shifts poly count (left ^^^ right) = shifts poly count left ^^^ shifts poly count right := by
  induction count generalizing left right with
  | zero => rfl
  | succ count inductionHypothesis => rw [shifts, shift_xor, inductionHypothesis, shifts, shifts]

theorem shifts_succ (count : Nat) (reg : BitVec w) :
    shifts poly (count + 1) reg = shift poly (shifts poly count reg) := by
  induction count generalizing reg with
  | zero => rfl
  | succ count inductionHypothesis => rw [shifts, inductionHypothesis, shifts]

/-- A register whose top bits are clear only moves. -/
theorem shifts_of_clear {count : Nat} {reg : BitVec w}
    (clear : ∀ i < count, reg.getMsbD i = false) : shifts poly count reg = reg <<< count := by
  induction count generalizing reg with
  | zero => rw [shifts, BitVec.shiftLeft_zero]
  | succ count inductionHypothesis =>
      have first : reg.msb = false := clear 0 (Nat.succ_pos count)
      have moved : shift poly reg = reg <<< 1 := by simp [shift, first]
      rw [shifts, moved, inductionHypothesis, ← BitVec.shiftLeft_add, Nat.add_comm]
      intro i inside
      rw [BitVec.getMsbD_shiftLeft, clear (i + 1) (by omega)]

/-! ### A byte at a time -/

/-- A bit that is fed may as well stand at the top of the register. -/
theorem feedBit_msb (reg other : BitVec w) :
    feedBit poly reg other.msb ^^^ other <<< 1 = shift poly (reg ^^^ other) := by
  rw [feedBit, shift, BitVec.msb_xor, BitVec.shiftLeft_xor_distrib]
  split
  · ac_rfl
  · rfl

theorem msb_atTop_shiftLeft (wide : 8 ≤ w) (byte : BitVec 8) {i : Nat} (inside : i < 8) :
    ((atTop byte : BitVec w) <<< i).msb = byte.getLsbD (7 - i) := by
  rw [atTop, ← BitVec.shiftLeft_add, BitVec.msb_eq_getLsbD_last, BitVec.getLsbD_shiftLeft,
    BitVec.getLsbD_setWidth, show w - 1 - (w - 8 + i) = 7 - i by omega]
  have last : w - 1 < w := by omega
  have above : ¬ w - 1 < w - 8 + i := by omega
  have place : 7 - i < w := by omega
  simp [last, above, place]

theorem atTop_shiftLeft (wide : 8 ≤ w) (byte : BitVec 8) :
    (atTop byte : BitVec w) <<< 8 = 0#w := by
  rw [atTop, ← BitVec.shiftLeft_add, Nat.sub_add_cancel wide, BitVec.shiftLeft_eq_zero le_rfl]

theorem atTop_xor (left right : BitVec 8) :
    (atTop (left ^^^ right) : BitVec w) = atTop left ^^^ atTop right := by
  rw [atTop, BitVec.setWidth_xor, BitVec.shiftLeft_xor_distrib, atTop, atTop]

theorem getMsbD_atTop_top (wide : 8 ≤ w) {reg : BitVec w} {i : Nat} (inside : i < 8) :
    (atTop (top reg) : BitVec w).getMsbD i = reg.getMsbD i := by
  have first : i < w := by omega
  have above : ¬ w - 1 - i < w - 8 := by omega
  have place : w - 1 - i - (w - 8) = 7 - i := by omega
  have byte : 7 - i < 8 := by omega
  have word : 7 - i < w := by omega
  have back : w - 8 + (7 - i) = w - 1 - i := by omega
  have below : w - 1 - i < w := by omega
  rw [BitVec.getMsbD_eq_getLsbD, BitVec.getMsbD_eq_getLsbD, atTop, top,
    BitVec.getLsbD_shiftLeft, BitVec.getLsbD_setWidth, BitVec.getLsbD_setWidth,
    BitVec.getLsbD_ushiftRight, place, back]
  simp [first, above, byte, word, below]

theorem feedByte_eq_shifts (wide : 8 ≤ w) (reg : BitVec w) (byte : BitVec 8) :
    feedByte poly reg byte = shifts poly 8 (reg ^^^ atTop byte) := by
  -- the bits that are still to come stand at the top
  have ahead : ∀ count ≤ 8,
      ((List.range count).map fun i => byte.getLsbD (7 - i)).foldl (feedBit poly) reg ^^^
        (atTop byte) <<< count = shifts poly count (reg ^^^ atTop byte) := by
    intro count fits
    induction count with
    | zero => simp [shifts]
    | succ count inductionHypothesis =>
        rw [List.range_succ, List.map_append, List.foldl_append, List.map_singleton,
          List.foldl_cons, List.foldl_nil, ← msb_atTop_shiftLeft wide byte (by omega),
          BitVec.shiftLeft_add, feedBit_msb, inductionHypothesis (by omega), shifts_succ]
  have whole := ahead 8 le_rfl
  rwa [atTop_shiftLeft wide, BitVec.xor_zero] at whole

/-- The table: the entry for the byte that leaves the register and the one that comes, and a
move of the rest. -/
theorem feedByte_eq (wide : 8 ≤ w) (reg : BitVec w) (byte : BitVec 8) :
    feedByte poly reg byte = (reg <<< 8) ^^^ entry poly (top reg ^^^ byte) := by
  have split : reg ^^^ atTop byte =
      (reg ^^^ atTop (top reg)) ^^^ atTop (top reg ^^^ byte) := by
    rw [atTop_xor, ← BitVec.xor_assoc, BitVec.xor_assoc reg, BitVec.xor_self, BitVec.xor_zero]
  have clear : ∀ i < 8, (reg ^^^ atTop (top reg)).getMsbD i = false := by
    intro i inside
    rw [BitVec.getMsbD_xor, getMsbD_atTop_top wide inside, Bool.xor_self]
  rw [feedByte_eq_shifts wide, split, shifts_xor, shifts_of_clear clear,
    BitVec.shiftLeft_xor_distrib, atTop_shiftLeft wide, BitVec.xor_zero, entry]

end Gp2Firmware.Lib.Crc
