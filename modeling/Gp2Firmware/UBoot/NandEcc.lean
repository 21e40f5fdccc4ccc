import Gp2Firmware.Lib.ParityPairs
import Mathlib.Data.Fin.VecNotation
import Mathlib.Data.BitVec
import Mathlib.Tactic.FinCases

/-!
# The ECC of 256 bytes in software

`nand_calculate_ecc` and `nand_correct_data` of the boot loader's `nand_ecc.c`: three bytes
of parities by the table of column parities, and the correction of one bit with them.
-/

namespace Gp2Firmware.UBoot.NandEcc

abbrev U8 := BitVec 8

/-- For the literals that index the three bytes of a code. -/
scoped instance codeBytes : NeZero 3 := ⟨by decide⟩

def nandEccPrecalcTable : List U8 :=
  [0x00, 0x55, 0x56, 0x03, 0x59, 0x0c, 0x0f, 0x5a, 0x5a, 0x0f, 0x0c, 0x59, 0x03, 0x56, 0x55, 0x00,
   0x65, 0x30, 0x33, 0x66, 0x3c, 0x69, 0x6a, 0x3f, 0x3f, 0x6a, 0x69, 0x3c, 0x66, 0x33, 0x30, 0x65,
   0x66, 0x33, 0x30, 0x65, 0x3f, 0x6a, 0x69, 0x3c, 0x3c, 0x69, 0x6a, 0x3f, 0x65, 0x30, 0x33, 0x66,
   0x03, 0x56, 0x55, 0x00, 0x5a, 0x0f, 0x0c, 0x59, 0x59, 0x0c, 0x0f, 0x5a, 0x00, 0x55, 0x56, 0x03,
   0x69, 0x3c, 0x3f, 0x6a, 0x30, 0x65, 0x66, 0x33, 0x33, 0x66, 0x65, 0x30, 0x6a, 0x3f, 0x3c, 0x69,
   0x0c, 0x59, 0x5a, 0x0f, 0x55, 0x00, 0x03, 0x56, 0x56, 0x03, 0x00, 0x55, 0x0f, 0x5a, 0x59, 0x0c,
   0x0f, 0x5a, 0x59, 0x0c, 0x56, 0x03, 0x00, 0x55, 0x55, 0x00, 0x03, 0x56, 0x0c, 0x59, 0x5a, 0x0f,
   0x6a, 0x3f, 0x3c, 0x69, 0x33, 0x66, 0x65, 0x30, 0x30, 0x65, 0x66, 0x33, 0x69, 0x3c, 0x3f, 0x6a,
   0x6a, 0x3f, 0x3c, 0x69, 0x33, 0x66, 0x65, 0x30, 0x30, 0x65, 0x66, 0x33, 0x69, 0x3c, 0x3f, 0x6a,
   0x0f, 0x5a, 0x59, 0x0c, 0x56, 0x03, 0x00, 0x55, 0x55, 0x00, 0x03, 0x56, 0x0c, 0x59, 0x5a, 0x0f,
   0x0c, 0x59, 0x5a, 0x0f, 0x55, 0x00, 0x03, 0x56, 0x56, 0x03, 0x00, 0x55, 0x0f, 0x5a, 0x59, 0x0c,
   0x69, 0x3c, 0x3f, 0x6a, 0x30, 0x65, 0x66, 0x33, 0x33, 0x66, 0x65, 0x30, 0x6a, 0x3f, 0x3c, 0x69,
   0x03, 0x56, 0x55, 0x00, 0x5a, 0x0f, 0x0c, 0x59, 0x59, 0x0c, 0x0f, 0x5a, 0x00, 0x55, 0x56, 0x03,
   0x66, 0x33, 0x30, 0x65, 0x3f, 0x6a, 0x69, 0x3c, 0x3c, 0x69, 0x6a, 0x3f, 0x65, 0x30, 0x33, 0x66,
   0x65, 0x30, 0x33, 0x66, 0x3c, 0x69, 0x6a, 0x3f, 0x3f, 0x6a, 0x69, 0x3c, 0x66, 0x33, 0x30, 0x65,
   0x00, 0x55, 0x56, 0x03, 0x59, 0x0c, 0x0f, 0x5a, 0x5a, 0x0f, 0x0c, 0x59, 0x03, 0x56, 0x55, 0x00]

/-! ### Calculation -/

/-- `a`, `b` and `tmp1` or `tmp2`. -/
structure Transfer where
  a : U8
  b : U8
  tmp : U8

def transTurn (reg2 reg3 : U8) (s : Transfer) : Transfer :=
  let tmp := if reg3 &&& s.a ≠ 0 then s.tmp ||| s.b else s.tmp
  let b := s.b >>> 1
  ⟨s.a >>> 1, b >>> 1, if reg2 &&& s.a ≠ 0 then tmp ||| b else tmp⟩

/-- The first two bytes, not inverted. -/
def nandTransResult (reg2 reg3 : U8) : U8 × U8 :=
  let first := (transTurn reg2 reg3)^[4] ⟨0x80, 0x80, 0⟩
  let second := (transTurn reg2 reg3)^[4] ⟨first.a, 0x80, 0⟩
  (first.tmp, second.tmp)

structure Regs where
  reg1 : U8
  reg2 : U8
  reg3 : U8

def columnTurn (dat : Nat → U8) (r : Regs) (j : Nat) : Regs :=
  let idx := nandEccPrecalcTable.getD (dat j).toNat 0
  let reg1 := r.reg1 ^^^ (idx &&& 0x3f)
  if idx &&& 0x40 ≠ 0 then
    ⟨reg1, r.reg2 ^^^ ~~~(BitVec.ofNat 8 j), r.reg3 ^^^ BitVec.ofNat 8 j⟩
  else ⟨reg1, r.reg2, r.reg3⟩

def columnParity (dat : Nat → U8) (count : Nat) : Regs :=
  (List.range count).foldl (columnTurn dat) ⟨0, 0, 0⟩

def nandCalculateEcc (dat : Nat → U8) : Fin 3 → U8 :=
  let regs := columnParity dat 256
  let tmp := nandTransResult regs.reg2 regs.reg3
  ![~~~tmp.1, ~~~tmp.2, (~~~regs.reg1) <<< 2 ||| (0x03 : U8)]

/-! ### Correction -/

/-- The mask `c`, the bit to set next, and the bits that are set. -/
structure Gather where
  c : U8
  bit : U8
  sum : U8

def gatherTurn (d : U8) (s : Gather) : Gather :=
  ⟨s.c >>> 2, s.bit >>> 1, if d &&& s.c ≠ 0 then s.sum ||| s.bit else s.sum⟩

/-- `add` -/
def address (d1 d2 : U8) : U8 :=
  let high := (gatherTurn d1)^[4] ⟨0x80, 0x80, 0⟩
  ((gatherTurn d2)^[4] ⟨0x80, high.bit, high.sum⟩).sum

/-- `bit` -/
def bitNumber (d3 : U8) : U8 :=
  ((gatherTurn d3)^[3] ⟨0x80, 0x04, 0⟩).sum

/-- `while (d) { if (d & 0x01) ++i; d >>= 1; }`, for a number of bits. -/
def countFrom (w : Nat) : Nat → BitVec w → Nat
  | 0, _ => 0
  | left + 1, d =>
      if d = 0 then 0
      else (if d &&& 1 ≠ 0 then 1 else 0) + countFrom w left (d >>> 1)

/-- The result, the data and the code that was read. -/
structure Corrected where
  ret : Int
  dat : Nat → U8
  readEcc : Fin 3 → U8

def nandCorrectData (dat : Nat → U8) (readEcc calcEcc : Fin 3 → U8) : Corrected :=
  let d1 := calcEcc 0 ^^^ readEcc 0
  let d2 := calcEcc 1 ^^^ readEcc 1
  let d3 := calcEcc 2 ^^^ readEcc 2
  if d1 ||| d2 ||| d3 = 0 then ⟨0, dat, readEcc⟩
  else
    let a := (d1 ^^^ d1 >>> 1) &&& 0x55
    let b := (d2 ^^^ d2 >>> 1) &&& 0x55
    let c := (d3 ^^^ d3 >>> 1) &&& 0x54
    if a = 0x55 ∧ b = 0x55 ∧ c = 0x54 then
      let add := (address d1 d2).toNat
      ⟨1, Function.update dat add (dat add ^^^ (1 : U8) <<< (bitNumber d3).toNat), readEcc⟩
    else if countFrom 8 8 d1 + countFrom 8 8 d2 + countFrom 8 8 d3 = 1 then
      ⟨2, dat, ![calcEcc 0, calcEcc 1, calcEcc 2]⟩
    else ⟨-1, dat, readEcc⟩

/-! ### Flips -/

/-- What a chip holds of 256 bytes. -/
structure Stored where
  dat : Nat → U8
  ecc : Fin 3 → U8

inductive BitFlip
  | data (address : Fin 256) (bit : Fin 8)
  | code (byte : Fin 3) (bit : Fin 8)
  deriving DecidableEq

def BitFlip.apply (s : Stored) : BitFlip → Stored
  | .data address bit =>
      { s with dat := Function.update s.dat address (s.dat address ^^^ (1 : U8) <<< bit.val) }
  | .code byte bit =>
      { s with ecc := Function.update s.ecc byte (s.ecc byte ^^^ (1 : U8) <<< bit.val) }

/-- The data with the code that is calculated for them. -/
def encoded (dat : Nat → U8) : Stored :=
  ⟨dat, nandCalculateEcc dat⟩

/-- The correction when the data are read. -/
def Stored.corrected (s : Stored) : Corrected :=
  nandCorrectData s.dat s.ecc (nandCalculateEcc s.dat)

theorem and_xor {x y mask : U8} : (x ^^^ y) &&& mask = (x &&& mask) ^^^ (y &&& mask) :=
  BitVec.eq_of_getElem_eq (by simp [Bool.and_xor_distrib_right])

section Columns

/-- What a byte adds to the registers. -/
def contribution (byte : U8) (j : Nat) : Regs :=
  let idx := nandEccPrecalcTable.getD byte.toNat 0
  if idx &&& 0x40 ≠ 0 then ⟨idx &&& 0x3f, ~~~(BitVec.ofNat 8 j), BitVec.ofNat 8 j⟩
  else ⟨idx &&& 0x3f, 0, 0⟩

def Regs.xor (r s : Regs) : Regs :=
  ⟨r.reg1 ^^^ s.reg1, r.reg2 ^^^ s.reg2, r.reg3 ^^^ s.reg3⟩

theorem Regs.xor_right_comm (r s t : Regs) : (r.xor s).xor t = (r.xor t).xor s := by
  simp only [Regs.xor, BitVec.xor_assoc, BitVec.xor_comm s.reg1, BitVec.xor_comm s.reg2,
    BitVec.xor_comm s.reg3]

theorem Regs.xor_assoc (r s t : Regs) : (r.xor s).xor t = r.xor (s.xor t) := by
  simp only [Regs.xor, BitVec.xor_assoc]

theorem columnTurn_eq (dat : Nat → U8) (r : Regs) (j : Nat) :
    columnTurn dat r j = r.xor (contribution (dat j) j) := by
  rw [columnTurn, contribution]
  split <;> simp [Regs.xor]

/-- What the flip of a bit adds to the registers. -/
def flipRegs (address : Nat) (bit : Nat) : Regs :=
  ⟨nandEccPrecalcTable.getD ((1 : U8) <<< bit).toNat 0 &&& 0x3f, ~~~(BitVec.ofNat 8 address),
    BitVec.ofNat 8 address⟩

def weigh (column : U8) (bit : Bool) : U8 :=
  if bit then column else 0

theorem weigh_xor (column : U8) (bit other : Bool) :
    weigh column (bit ^^ other) = weigh column bit ^^^ weigh column other := by
  cases bit <;> cases other <;> simp [weigh]

/-- What the bits of a byte add up to. -/
def columnParities (byte : U8) : U8 :=
  weigh 0x55 (byte.getLsbD 0) ^^^ weigh 0x56 (byte.getLsbD 1) ^^^ weigh 0x59 (byte.getLsbD 2) ^^^
    weigh 0x5a (byte.getLsbD 3) ^^^ weigh 0x65 (byte.getLsbD 4) ^^^ weigh 0x66 (byte.getLsbD 5) ^^^
    weigh 0x69 (byte.getLsbD 6) ^^^ weigh 0x6a (byte.getLsbD 7)

theorem nandEccPrecalcTable_eq :
    nandEccPrecalcTable = (List.range 256).map fun n => columnParities (BitVec.ofNat 8 n) := by
  decide +kernel

theorem table_eq (byte : U8) : nandEccPrecalcTable.getD byte.toNat 0 = columnParities byte := by
  rw [nandEccPrecalcTable_eq]
  simp [List.getD, byte.isLt]

theorem table_xor (byte other : U8) :
    nandEccPrecalcTable.getD (byte ^^^ other).toNat 0 =
      nandEccPrecalcTable.getD byte.toNat 0 ^^^ nandEccPrecalcTable.getD other.toNat 0 := by
  simp only [table_eq, columnParities, BitVec.getLsbD_xor, weigh_xor]
  ac_rfl

theorem contribution_flip (byte : U8) (bit : Fin 8) (j : Nat) :
    contribution (byte ^^^ (1 : U8) <<< bit.val) j =
      (contribution byte j).xor (flipRegs j bit) := by
  have odd : ∀ bit : Fin 8,
      nandEccPrecalcTable.getD ((1 : U8) <<< bit.val).toNat 0 &&& 0x40 = 0x40 := by decide
  have either : ∀ idx : U8, idx &&& 0x40 = 0 ∨ idx &&& 0x40 = 0x40 := by decide
  rw [contribution, contribution, table_xor, and_xor, and_xor, odd]
  obtain even | odd := either (nandEccPrecalcTable.getD byte.toNat 0)
  · rw [even, if_pos (by decide), if_neg (by decide)]
    simp [Regs.xor, flipRegs]
  · rw [odd, if_neg (by decide), if_pos (by decide)]
    simp [Regs.xor, flipRegs]

variable (dat : Nat → U8)

theorem columnParity_succ (count : Nat) :
    columnParity dat (count + 1) =
      (columnParity dat count).xor (contribution (dat count) count) := by
  rw [columnParity, List.range_succ, List.foldl_append, List.foldl_cons, List.foldl_nil,
    columnTurn_eq]
  rfl

theorem columnParity_congr {dat other : Nat → U8} {count : Nat}
    (same : ∀ j < count, dat j = other j) : columnParity dat count = columnParity other count := by
  induction count with
  | zero => rfl
  | succ count inductionHypothesis =>
      rw [columnParity_succ, columnParity_succ, same count (Nat.lt_succ_self count),
        inductionHypothesis fun j before => same j (Nat.lt_succ_of_lt before)]

theorem columnParity_flip (address count : Nat) (bit : Fin 8) :
    columnParity (Function.update dat address (dat address ^^^ (1 : U8) <<< bit.val)) count =
      if address < count then (columnParity dat count).xor (flipRegs address bit)
      else columnParity dat count := by
  induction count with
  | zero => rfl
  | succ count inductionHypothesis =>
      rw [columnParity_succ, columnParity_succ, inductionHypothesis]
      obtain before | rfl | behind := Nat.lt_trichotomy address count
      · rw [if_pos before, if_pos (by omega), Function.update_of_ne (by omega),
          Regs.xor_right_comm]
      · rw [if_neg (by omega), if_pos (by omega), Function.update_self, contribution_flip,
          Regs.xor_assoc]
      · rw [if_neg (by omega), if_neg (by omega), Function.update_of_ne (by omega)]

end Columns

section Lines

/-- The pairs of bits of a byte, from its high end on. -/
def pairs (d : U8) (k : Fin 4) : Bool × Bool :=
  (d.getLsbD (7 - 2 * k), d.getLsbD (6 - 2 * k))

theorem pairs_xor (d e : U8) (k : Fin 4) :
    pairs (d ^^^ e) k = ((pairs d k).1 ^^ (pairs e k).1, (pairs d k).2 ^^ (pairs e k).2) := by
  simp only [pairs, BitVec.getLsbD_xor]

theorem pairs_ext {d e : U8} (same : ∀ k, pairs d k = pairs e k) : d = e := by
  apply BitVec.eq_of_getLsbD_eq
  intro i bound
  have zero := same 0
  have one := same 1
  have two := same 2
  have three := same 3
  simp only [pairs, Prod.mk.injEq] at zero one two three
  have which : i = 0 ∨ i = 1 ∨ i = 2 ∨ i = 3 ∨ i = 4 ∨ i = 5 ∨ i = 6 ∨ i = 7 := by omega
  obtain rfl | rfl | rfl | rfl | rfl | rfl | rfl | rfl := which
  · exact three.2
  · exact three.1
  · exact two.2
  · exact two.1
  · exact one.2
  · exact one.1
  · exact zero.2
  · exact zero.1

theorem getLsbD_weigh (column : U8) (bit : Bool) (i : Nat) :
    (weigh column bit).getLsbD i = (bit && column.getLsbD i) := by
  cases bit <;> simp [weigh]

theorem or_masked (reg sum column : U8) (n : Fin 8) :
    (if reg &&& BitVec.twoPow 8 n ≠ 0 then sum ||| column else sum) =
      sum ||| weigh column (reg.getLsbD n) := by
  have set : ∀ n : Fin 8, BitVec.twoPow 8 n ≠ 0 := by decide
  rw [BitVec.and_twoPow]
  cases reg.getLsbD n with
  | false => simp [weigh]
  | true =>
      rw [if_pos rfl, if_pos (set n)]
      rfl

theorem transTurn_eq (reg2 reg3 b t : U8) (n : Fin 8) :
    transTurn reg2 reg3 ⟨BitVec.twoPow 8 n, b, t⟩ =
      ⟨BitVec.twoPow 8 n >>> 1, b >>> 1 >>> 1, t ||| weigh b (reg3.getLsbD n) |||
        weigh (b >>> 1) (reg2.getLsbD n)⟩ := by
  simp only [transTurn, or_masked]

/-- Four turns carry over four bits of each register. -/
theorem iterate_transTurn (reg2 reg3 : U8) (n : Fin 5) :
    (transTurn reg2 reg3)^[4] ⟨BitVec.twoPow 8 (n + 3 : Nat), 0x80, 0⟩ =
      ⟨BitVec.twoPow 8 n >>> 1, 0,
        weigh 0x80 (reg3.getLsbD (n + 3)) ||| weigh 0x40 (reg2.getLsbD (n + 3)) |||
          weigh 0x20 (reg3.getLsbD (n + 2)) ||| weigh 0x10 (reg2.getLsbD (n + 2)) |||
          weigh 0x08 (reg3.getLsbD (n + 1)) ||| weigh 0x04 (reg2.getLsbD (n + 1)) |||
          weigh 0x02 (reg3.getLsbD n) ||| weigh 0x01 (reg2.getLsbD n)⟩ := by
  have half : ∀ n : Fin 7, BitVec.twoPow 8 (n + 1 : Nat) >>> 1 = BitVec.twoPow 8 n := by decide
  have turn := fun (m : Nat) (small : m < 8) (b t : U8) => transTurn_eq reg2 reg3 b t ⟨m, small⟩
  have bound := n.isLt
  simp only [Function.iterate_succ_apply, Function.iterate_zero_apply]
  rw [turn (n + 3) (by omega), half ⟨n + 2, by omega⟩, turn (n + 2) (by omega),
    half ⟨n + 1, by omega⟩, turn (n + 1) (by omega), half ⟨n, by omega⟩, turn n (by omega)]
  simp

/-- The registers stand side by side in the first two bytes. -/
theorem pairs_nandTransResult (reg2 reg3 : U8) (k : Fin 4) :
    pairs (nandTransResult reg2 reg3).1 k = (reg3.getLsbD (7 - k), reg2.getLsbD (7 - k)) ∧
      pairs (nandTransResult reg2 reg3).2 k = (reg3.getLsbD (3 - k), reg2.getLsbD (3 - k)) := by
  have first : (transTurn reg2 reg3)^[4] ⟨0x80, 0x80, 0⟩ = _ := iterate_transTurn reg2 reg3 4
  have second : (transTurn reg2 reg3)^[4] ⟨BitVec.twoPow 8 (4 : Fin 5) >>> 1, 0x80, 0⟩ = _ :=
    iterate_transTurn reg2 reg3 0
  simp only [nandTransResult, first, second, pairs, BitVec.getLsbD_or, getLsbD_weigh]
  fin_cases k <;> simp

theorem nandTransResult_xor (reg2 reg3 other2 other3 : U8) :
    nandTransResult (reg2 ^^^ other2) (reg3 ^^^ other3) =
      ((nandTransResult reg2 reg3).1 ^^^ (nandTransResult other2 other3).1,
        (nandTransResult reg2 reg3).2 ^^^ (nandTransResult other2 other3).2) := by
  refine Prod.ext (pairs_ext fun k => ?_) (pairs_ext fun k => ?_)
  · rw [pairs_xor, (pairs_nandTransResult _ _ k).1, (pairs_nandTransResult _ _ k).1,
      (pairs_nandTransResult _ _ k).1, BitVec.getLsbD_xor, BitVec.getLsbD_xor]
  · rw [pairs_xor, (pairs_nandTransResult _ _ k).2, (pairs_nandTransResult _ _ k).2,
      (pairs_nandTransResult _ _ k).2, BitVec.getLsbD_xor, BitVec.getLsbD_xor]

end Lines

section Marks

/-- What the flip of a bit changes in the code. -/
def flipMark (address bit : Nat) : Fin 3 → U8 :=
  let regs := flipRegs address bit
  let tmp := nandTransResult regs.reg2 regs.reg3
  ![tmp.1, tmp.2, regs.reg1 <<< 2]

/-- What a flip changes in the code that is calculated, against the one that is stored. -/
def BitFlip.mark : BitFlip → Fin 3 → U8
  | .data address bit => flipMark address bit
  | .code byte bit => Function.update 0 byte ((1 : U8) <<< bit.val)

theorem column_byte_xor (reg1 marked : U8) :
    (~~~(reg1 ^^^ marked)) <<< 2 ||| (0x03 : U8) =
      ((~~~reg1) <<< 2 ||| (0x03 : U8)) ^^^ marked <<< 2 := by
  rw [BitVec.not_xor_left, BitVec.shiftLeft_xor_distrib]
  generalize ~~~reg1 = inverted
  apply BitVec.eq_of_getLsbD_eq
  intro i bound
  have three : ∀ i : Fin 8, (3 : U8).getLsbD i = decide (i.val < 2) := by decide
  have here : (3 : U8).getLsbD i = decide (i < 2) := three ⟨i, bound⟩
  rw [BitVec.getLsbD_or, BitVec.getLsbD_xor, BitVec.getLsbD_xor, BitVec.getLsbD_or, here,
    BitVec.getLsbD_shiftLeft, BitVec.getLsbD_shiftLeft]
  cases decide (i < 2) <;> simp

/-- Two codes, byte by byte. -/
def xorCode (first second : Fin 3 → U8) : Fin 3 → U8 :=
  fun k => first k ^^^ second k

theorem nandCalculateEcc_flip (dat : Nat → U8) (address : Fin 256) (bit : Fin 8) :
    nandCalculateEcc
        (Function.update dat address (dat address ^^^ (1 : U8) <<< bit.val)) =
      xorCode (nandCalculateEcc dat) (flipMark address bit) := by
  rw [nandCalculateEcc, columnParity_flip, if_pos address.isLt, nandCalculateEcc, flipMark]
  generalize columnParity dat 256 = regs
  generalize flipRegs address bit = marked
  simp only [Regs.xor, nandTransResult_xor]
  funext k
  fin_cases k
  · exact BitVec.not_xor_left
  · exact BitVec.not_xor_left
  · exact column_byte_xor regs.reg1 marked.reg1

/-- In what the code that is calculated differs from the one that is stored. -/
def Stored.difference (s : Stored) : Fin 3 → U8 :=
  xorCode (nandCalculateEcc s.dat) s.ecc

theorem xorCode_right_comm (first second third : Fin 3 → U8) :
    xorCode (xorCode first second) third = xorCode (xorCode first third) second := by
  funext k
  simp only [xorCode, BitVec.xor_assoc, BitVec.xor_comm (second k)]

theorem difference_apply (s : Stored) (flip : BitFlip) :
    (flip.apply s).difference = xorCode s.difference flip.mark := by
  cases flip with
  | data address bit =>
      rw [BitFlip.apply, Stored.difference, nandCalculateEcc_flip, xorCode_right_comm]
      rfl
  | code byte bit =>
      funext k
      simp only [BitFlip.apply, Stored.difference, BitFlip.mark, xorCode, BitVec.xor_assoc]
      by_cases here : k = byte
      · subst here
        rw [Function.update_self, Function.update_self]
      · rw [Function.update_of_ne here, Function.update_of_ne here]
        exact congrArg _ BitVec.xor_zero.symm

theorem difference_encoded (dat : Nat → U8) : (encoded dat).difference = 0 := by
  funext k
  exact BitVec.xor_self

theorem zero_xorCode (code : Fin 3 → U8) : xorCode 0 code = code := by
  funext k
  exact BitVec.zero_xor

/-- The correction by the difference. -/
theorem corrected_eq (s : Stored) :
    s.corrected = nandCorrectData s.dat s.ecc (xorCode s.ecc s.difference) := by
  have same : xorCode s.ecc s.difference = nandCalculateEcc s.dat := by
    funext k
    simp only [xorCode, Stored.difference]
    rw [BitVec.xor_comm, BitVec.xor_assoc, BitVec.xor_self, BitVec.xor_zero]
  rw [same, Stored.corrected]

end Marks

end Gp2Firmware.UBoot.NandEcc
