import Gp2Firmware.CmdLg.Swu
import Gp2Firmware.Lib.Crc
import Gp2Firmware.Lib.WordBits

/-!
# The checksum of an image

`calc_crc32` of `cmd_swu.c` with the table that its first call builds.
-/

namespace Gp2Firmware.CmdLg.Crc32

open Gp2Firmware.Lib

/-- `crc32_table` -/
abbrev Table := Nat → BitVec 32

/-- A turn of the inner loop of `init_crc32`. -/
def initTurn (c : BitVec 32) : BitVec 32 :=
  if c &&& 0x80000000 ≠ 0 then (c <<< 1) ^^^ crc32Poly else c <<< 1

def initCrc32 (table : Table) : Table :=
  (List.range 256).foldl
    (fun table i => Function.update table i (Nat.iterate initTurn 8 (BitVec.ofNat 32 i <<< 24)))
    table

/-- The loop of `calc_crc32` over the bytes of the buffer. -/
def crcLoop (table : Table) (crc : BitVec 32) (buf : List (BitVec 8)) : BitVec 32 :=
  buf.foldl (fun crc byte => (crc <<< 8) ^^^ table ((crc >>> 24) ^^^ byte.setWidth 32).toNat) crc

/-- The table is built if its second entry is zero. -/
def builtTable (table : Table) : Table :=
  if table 1 = 0 then initCrc32 table else table

/-- The checksum, and the table behind the call. -/
def calcCrc32 (table : Table) (buf : List (BitVec 8)) : BitVec 32 × Table :=
  (crcLoop (builtTable table) 0xffffffff buf, builtTable table)

/-- The table behind some calls. -/
def tableBehind (earlier : List (List (BitVec 8))) : Table :=
  earlier.foldl (fun table buf => (calcCrc32 table buf).2) fun _ => 0

section Table

variable {table : Table} {buf : List (BitVec 8)}

theorem initTurn_eq (c : BitVec 32) : initTurn c = Crc.shift crc32Poly c := by
  have top : c &&& 0x80000000 ≠ 0 ↔ c.msb = true := by
    rw [BitVec.msb_eq_getLsbD_last]
    exact and_bit_ne_zero c ⟨31, by decide⟩
  rw [initTurn, Crc.shift]
  simp only [top]

theorem iterate_initTurn (count : Nat) (c : BitVec 32) :
    Nat.iterate initTurn count c = Crc.shifts crc32Poly count c := by
  induction count generalizing c with
  | zero => rfl
  | succ count inductionHypothesis =>
      rw [Function.iterate_succ_apply, inductionHypothesis, initTurn_eq, Crc.shifts]

theorem atTop_eq {i : Nat} (inside : i < 256) :
    (Crc.atTop (BitVec.ofNat 8 i) : BitVec 32) = BitVec.ofNat 32 i <<< 24 := by
  have same : (BitVec.ofNat 8 i).setWidth 32 = BitVec.ofNat 32 i := by
    apply BitVec.eq_of_toNat_eq
    rw [BitVec.toNat_setWidth, BitVec.toNat_ofNat, BitVec.toNat_ofNat]
    omega
  rw [Crc.atTop, same]

/-- Behind `init_crc32` each entry stands for its byte. -/
theorem initCrc32_apply {i : Nat} (inside : i < 256) :
    initCrc32 table i = Crc.entry crc32Poly (BitVec.ofNat 8 i) := by
  have filled : ∀ count ≤ 256, i < count →
      (List.range count).foldl (fun table i =>
        Function.update table i (Nat.iterate initTurn 8 (BitVec.ofNat 32 i <<< 24))) table i =
          Crc.entry crc32Poly (BitVec.ofNat 8 i) := by
    intro count fits below
    induction count with
    | zero => exact absurd below (Nat.not_lt_zero i)
    | succ count inductionHypothesis =>
        rw [List.range_succ, List.foldl_append, List.foldl_cons, List.foldl_nil]
        by_cases last : i = count
        · rw [last, Function.update_self, iterate_initTurn, ← atTop_eq (last ▸ inside), Crc.entry]
        · rw [Function.update_of_ne last]
          exact inductionHypothesis (by omega) (by omega)
  exact filled 256 le_rfl inside

/-- The table as `init_crc32` leaves it. -/
def Built (table : Table) : Prop :=
  ∀ i < 256, table i = Crc.entry crc32Poly (BitVec.ofNat 8 i)

theorem built_of_zero (zero : table 1 = 0) : Built (builtTable table) := by
  intro i inside
  rw [builtTable, if_pos zero, initCrc32_apply inside]

theorem built_of_built (built : Built table) : Built (builtTable table) := by
  rw [builtTable]
  split
  · intro i inside
    rw [initCrc32_apply inside]
  · exact built

/-- Behind every call the next one finds or builds the table. -/
theorem built_tableBehind (earlier : List (List (BitVec 8))) :
    Built (builtTable (tableBehind earlier)) := by
  induction earlier using List.reverseRecOn with
  | nil => exact built_of_zero (Eq.refl 0)
  | append_singleton earlier buf inductionHypothesis =>
      rw [tableBehind, List.foldl_append]
      exact built_of_built inductionHypothesis

theorem index_eq (crc : BitVec 32) (byte : BitVec 8) :
    (crc >>> 24) ^^^ byte.setWidth 32 = (Crc.top crc ^^^ byte).setWidth 32 := by
  have low : crc >>> 24 = ((crc >>> 24).setWidth 8).setWidth 32 := by
    apply BitVec.eq_of_toNat_eq
    have bound := crc.isLt
    rw [BitVec.toNat_setWidth, BitVec.toNat_setWidth, BitVec.toNat_ushiftRight,
      Nat.shiftRight_eq_div_pow]
    omega
  rw [BitVec.setWidth_xor, Crc.top]
  exact congrArg (· ^^^ byte.setWidth 32) low

theorem crcLoop_eq (built : Built table) (crc : BitVec 32) :
    crcLoop table crc buf = Crc.register crc32Poly crc buf := by
  induction buf generalizing crc with
  | nil => rfl
  | cons byte buf inductionHypothesis =>
      have bound := (Crc.top crc ^^^ byte).isLt
      have place : ((crc >>> 24) ^^^ byte.setWidth 32).toNat = (Crc.top crc ^^^ byte).toNat := by
        rw [index_eq, BitVec.toNat_setWidth]
        omega
      have turn : (crc <<< 8) ^^^ table ((crc >>> 24) ^^^ byte.setWidth 32).toNat =
          Crc.feedByte crc32Poly crc byte := by
        rw [place, built _ bound, BitVec.ofNat_toNat, BitVec.setWidth_eq,
          Crc.feedByte_eq (by decide)]
      rw [crcLoop, List.foldl_cons, turn]
      exact inductionHypothesis _

/-- The loop over bytes in the memory. -/
theorem crc32Loop_eq (w : World) (len : Nat) (p crc : BitVec 32) :
    crc32Loop w len p crc = Crc.register crc32Poly crc
      ((List.range len).map fun i => w.ram (p + BitVec.ofNat 32 i)) := by
  induction len generalizing p crc with
  | zero => rfl
  | succ len inductionHypothesis =>
      have next : ∀ i, p + 1 + BitVec.ofNat 32 i = p + BitVec.ofNat 32 (i + 1) := by
        intro i
        rw [BitVec.add_assoc, Nat.add_comm i 1, BitVec.ofNat_add]
        rfl
      have entry : ∀ i, crc32Table i = Crc.entry crc32Poly i :=
        fun i => iterate_initTurn 8 (i.setWidth 32 <<< 24)
      have whole : ∀ byte : BitVec 8, (byte.setWidth 32).setWidth 8 = byte := by
        intro byte
        rw [BitVec.setWidth_setWidth_of_le _ (by decide), BitVec.setWidth_eq]
      rw [crc32Loop, inductionHypothesis, index_eq, whole, entry, ← Crc.feedByte_eq (by decide),
        List.range_succ_eq_map, List.map_cons, List.map_map, Crc.register, Crc.register,
        List.foldl_cons]
      have first : p + BitVec.ofNat 32 0 = p := BitVec.add_zero p
      have rest : (fun i => w.ram (p + 1 + BitVec.ofNat 32 i)) =
          (fun i => w.ram (p + BitVec.ofNat 32 i)) ∘ Nat.succ :=
        funext fun i => congrArg w.ram (next i)
      rw [first, rest]

end Table

/-- The checksum over the memory is the one over its bytes. -/
theorem calcCrc32_ram (w : World) (buf len : BitVec 32) (earlier : List (List (BitVec 8))) :
    CmdLg.calcCrc32 w buf len = (calcCrc32 (tableBehind earlier)
      ((List.range len.toNat).map fun i => w.ram (buf + BitVec.ofNat 32 i))).1 := by
  rw [CmdLg.calcCrc32, crc32Loop_eq, calcCrc32, crcLoop_eq (built_tableBehind earlier)]

/-- The checksum is the register of a bit-serial check, and the loop can go on from it. -/
theorem calcCrc32_eq_register (earlier : List (List (BitVec 8))) :
    (∀ buf, (calcCrc32 (tableBehind earlier) buf).1 =
      Crc.register 0x04c11db7 0xffffffff buf) ∧
    ∀ first second, (calcCrc32 (tableBehind earlier) (first ++ second)).1 =
      crcLoop (builtTable (tableBehind earlier)) (calcCrc32 (tableBehind earlier) first).1
        second := by
  have loop : ∀ crc buf, crcLoop (builtTable (tableBehind earlier)) crc buf =
      Crc.register crc32Poly crc buf :=
    fun crc buf => crcLoop_eq (built_tableBehind earlier) crc
  constructor
  · intro buf
    exact loop 0xffffffff buf
  · intro first second
    rw [calcCrc32, calcCrc32, loop, loop, loop, Crc.register_append]

end Gp2Firmware.CmdLg.Crc32
