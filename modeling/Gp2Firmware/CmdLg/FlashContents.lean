import Gp2Firmware.CmdLg.Mtdinfo
import Mathlib.Tactic.Common
import Mathlib.Algebra.Group.Nat.Defs

/-!
# What the flash holds

The places of the flash that hold a byte, as far as the answers of the drivers
tell it: an erase that succeeds leaves none in its range, a write that succeeds
leaves one everywhere in it, and a call that fails leaves anything there.  The
same for the table in the area of `mtdinfo`.
-/

namespace Gp2Firmware.CmdLg

/-- `DEFAULT_BBMINFO_BASE` -/
def defaultBbminfoBase : BitVec 32 := 0x00000

/-- `DEFAULT_BBMINFO_SIZE` -/
def defaultBbminfoSize : BitVec 32 := 0x20000

/-- The addresses from an offset on, as many as a length says. -/
def Within (ofs len addr : BitVec 32) : Prop := addr - ofs < len

instance (ofs len addr : BitVec 32) : Decidable (Within ofs len addr) :=
  inferInstanceAs (Decidable (_ < _))

/-- The place of the table. -/
def InTable (addr : BitVec 32) : Prop := Within defaultMtdinfoBase bootMtdInfoSize addr

variable (w : World)

/-- A call may change what is at an address.  The map of the bad blocks goes to
its own blocks at the start of the flash. -/
def Call.Covers (addr : BitVec 32) : Call → Prop
  | .nandErase ofs len => Within ofs len addr
  | .nandWrite ofs len _ => Within ofs len addr
  | .nandBbmUpdate =>
      Within defaultBbminfoBase defaultBbminfoSize addr ∨
        Within defaultBbminfoBase w.erasesize addr
  | _ => False

def Call.isWrite : Call → Bool
  | .nandWrite _ _ _ => true
  | _ => false

/-- A table is written at the place of the table. -/
def Call.StoresTable (call : Call) (info : BootMtdInfo) : Prop :=
  ∃ len, call = .nandWrite defaultMtdinfoBase len (.mtdinfo info)

/-- A call may change the table in the flash. -/
def Call.ReachesTable (call : Call) : Prop :=
  (∃ addr, InTable addr ∧ call.Covers w addr) ∨ ∃ info, call.StoresTable info

/-- The contents of the flash after each log of calls: where it holds a byte, and
what the bytes at the place of the table say. -/
structure Contents where
  holds : List Call → BitVec 32 → Prop
  table : List Call → BootMtdInfo
  holds_other : ∀ call calls addr, ¬ call.Covers w addr →
    (holds (call :: calls) addr ↔ holds calls addr)
  holds_erased : ∀ ofs len calls addr, Within ofs len addr →
    w.result (.nandErase ofs len :: calls) = 0 →
    ¬ holds (.nandErase ofs len :: calls) addr
  holds_written : ∀ ofs len src calls addr, Within ofs len addr →
    w.result (.nandWrite ofs len src :: calls) = 0 →
    holds (.nandWrite ofs len src :: calls) addr
  table_other : ∀ call calls, ¬ call.ReachesTable w →
    table (call :: calls) = table calls
  table_stored : ∀ call calls info, call.StoresTable info →
    w.result (call :: calls) = 0 → table (call :: calls) = info

section Worst

/-- An address holds a byte whatever the calls that failed have left: it has been
written since it was erased, or it is one of some addresses and no call has
covered it. -/
def Survives (before : BitVec 32 → Prop) : List Call → BitVec 32 → Prop
  | [], addr => before addr
  | call :: calls, addr =>
      (call.Covers w addr ∧ call.isWrite = true ∧ w.result (call :: calls) = 0) ∨
        (¬ call.Covers w addr ∧ Survives before calls addr)

variable {w} {before : BitVec 32 → Prop} {calls : List Call} {call : Call}
  {addr : BitVec 32}

theorem Contents.holds_of_survives (flash : Contents w)
    (present : ∀ addr, before addr → flash.holds [] addr)
    (survives : Survives w before calls addr) : flash.holds calls addr := by
  induction calls with
  | nil => exact present addr survives
  | cons call calls inductionHypothesis =>
      obtain ⟨covers, writes, done⟩ | ⟨other, kept⟩ := survives
      · cases call with
        | nandWrite ofs len src => exact flash.holds_written ofs len src calls addr covers done
        | nandErase | nandBbmUpdate | nandRead | spiUpdate | micomUpdate => cases writes
      · exact (flash.holds_other call calls addr other).mpr (inductionHypothesis kept)

theorem survives_other (other : ¬ call.Covers w addr) :
    Survives w before (call :: calls) addr ↔ Survives w before calls addr := by
  simp [Survives, other]

theorem survives_spoiled (covers : call.Covers w addr) (spoils : call.isWrite = false) :
    ¬ Survives w before (call :: calls) addr := by
  simp [Survives, covers, spoils]

theorem survives_written {ofs len : BitVec 32} {src : Source}
    (covers : Within ofs len addr) :
    Survives w before (.nandWrite ofs len src :: calls) addr ↔
      w.result (.nandWrite ofs len src :: calls) = 0 := by
  have here : (Call.nandWrite ofs len src).Covers w addr := covers
  simp [Survives, here, Call.isWrite]

open Classical in
/-- The table at its place if a call that may change it leaves a given one. -/
noncomputable def worstTable (w : World) (stored lie : BootMtdInfo) :
    List Call → BootMtdInfo
  | [] => stored
  | call :: calls =>
      if stores : ∃ info, call.StoresTable info ∧ w.result (call :: calls) = 0 then
        stores.choose
      else if call.ReachesTable w then lie
      else worstTable w stored lie calls

theorem Call.StoresTable.unique {info other : BootMtdInfo} (first : call.StoresTable info)
    (second : call.StoresTable other) : info = other := by
  obtain ⟨len, rfl⟩ := first
  obtain ⟨_, same⟩ := second
  cases same
  rfl

/-- A flash of which every call that fails leaves nothing in its range, and every
one that reaches the table leaves a given table. -/
noncomputable def Contents.worst (w : World) (before : BitVec 32 → Prop)
    (stored lie : BootMtdInfo) : Contents w where
  holds := Survives w before
  table := worstTable w stored lie
  holds_other _ _ _ := survives_other
  holds_erased _ _ _ _ covers _ := survives_spoiled covers rfl
  holds_written _ _ _ _ _ covers done := (survives_written covers).mpr done
  table_other call calls other := by
    have none : ¬ ∃ info, call.StoresTable info ∧ w.result (call :: calls) = 0 := by
      intro ⟨info, stores, _⟩
      exact other (Or.inr ⟨info, stores⟩)
    simp [worstTable, none, other]
  table_stored call calls info stores done := by
    have some : ∃ info, call.StoresTable info ∧ w.result (call :: calls) = 0 :=
      ⟨info, stores, done⟩
    simp only [worstTable, some, dite_true]
    exact some.choose_spec.1.unique stores

theorem worstTable_lie {stored lie : BootMtdInfo} (reached : call.ReachesTable w)
    (other : ∀ info, ¬ call.StoresTable info) :
    worstTable w stored lie (call :: calls) = lie := by
  simp [worstTable, reached, other]

end Worst

/-! ### `write_flash_data`, block by block -/

/-- A call of `write_flash_data` behind a log of calls. -/
structure FlashWrite where
  before : List Call
  ofs : BitVec 32
  cnt : BitVec 32
  src : Source

namespace FlashWrite

variable (w : World) (op : FlashWrite)

def length : BitVec 32 := wholeBlocks w op.cnt

/-- The number of blocks to erase. -/
def blocks : Nat :=
  ((op.length w).toNat + w.erasesize.toNat - 1) / w.erasesize.toNat

def block (k : Nat) : BitVec 32 := op.ofs + BitVec.ofNat 32 (k * w.erasesize.toNat)

/-- The log after the erase of some blocks. -/
def erases : Nat → List Call
  | 0 => op.before
  | k + 1 => .nandErase (op.block w k) w.erasesize :: erases k

/-- No erase of the blocks before one fails. -/
def Reaches (k : Nat) : Prop := ∀ j < k, w.result (op.erases w (j + 1)) = 0

/-- The log after the write. -/
def written : List Call :=
  .nandWrite op.ofs (op.length w) op.src :: .nandBbmUpdate :: op.erases w (op.blocks w)

/-- The erase of a block fails. -/
def FailsAt (k : Nat) : Prop :=
  k < op.blocks w ∧ op.Reaches w k ∧ w.result (op.erases w (k + 1)) ≠ 0

/-- No erase fails, and the write does not fail. -/
def Succeeds : Prop := op.Reaches w (op.blocks w) ∧ w.result (op.written w) = 0

/-- An address is in a block for which an erase is asked, or in the map of the bad
blocks and that is updated. -/
def Asks (addr : BitVec 32) : Prop :=
  (∃ k < op.blocks w, op.Reaches w k ∧ Within (op.block w k) w.erasesize addr) ∨
    (op.Reaches w (op.blocks w) ∧ Call.nandBbmUpdate.Covers w addr)

/-- The log behind the call. -/
def after : List Call :=
  (writeFlashData w ⟨defaultMtdInfo, op.before, []⟩ op.ofs op.cnt op.src).2.calls

variable {w} {op}

/-- The length is a number of whole blocks, or less than a block if the sum wraps. -/
theorem dvd_length_or_lt (some : 0 < w.erasesize.toNat) :
    w.erasesize.toNat ∣ (op.length w).toNat ∨
      (op.length w).toNat < w.erasesize.toNat := by
  have blockSmall := w.erasesize.isLt
  have cntSmall := op.cnt.isLt
  have rest := Nat.mod_lt op.cnt.toNat some
  have parts := Nat.mod_add_div op.cnt.toNat w.erasesize.toNat
  by_cases whole : op.cnt % w.erasesize = 0
  · have none : op.cnt.toNat % w.erasesize.toNat = 0 := by
      simpa using congrArg BitVec.toNat whole
    have same : op.length w = op.cnt := by simp [length, wholeBlocks, whole]
    rw [same]
    exact Or.inl (Nat.dvd_of_mod_eq_zero none)
  · have sum : (op.length w).toNat =
        (op.cnt.toNat + (w.erasesize.toNat - op.cnt.toNat % w.erasesize.toNat)) % 2 ^ 32 := by
      have le : op.cnt % w.erasesize ≤ w.erasesize := by
        rw [BitVec.le_def, BitVec.toNat_umod]
        exact rest.le
      simp only [length, wholeBlocks, ne_eq, whole, not_false_eq_true, if_true,
        BitVec.toNat_add, BitVec.toNat_sub_of_le le, BitVec.toNat_umod]
    by_cases wraps : op.cnt.toNat +
        (w.erasesize.toNat - op.cnt.toNat % w.erasesize.toNat) < 2 ^ 32
    · left
      rw [sum, Nat.mod_eq_of_lt wraps]
      refine ⟨op.cnt.toNat / w.erasesize.toNat + 1, ?_⟩
      rw [Nat.mul_add]
      omega
    · right
      omega

theorem length_eq_zero (none : w.erasesize = 0) : op.length w = 0 := by
  have rest : op.cnt % (0 : BitVec 32) = op.cnt := BitVec.umod_zero
  rw [length, wholeBlocks, none, rest]
  split
  · bv_omega
  · rename_i zero
    simpa using zero

theorem mul_lt_length {k : Nat} (less : k < op.blocks w) :
    k * w.erasesize.toNat < (op.length w).toNat := by
  by_cases some : 0 < w.erasesize.toNat
  · rw [blocks, Nat.lt_iff_add_one_le, Nat.le_div_iff_mul_le some, Nat.add_mul] at less
    omega
  · simp [blocks, Nat.eq_zero_of_not_pos some] at less

theorem length_le_mul : (op.length w).toNat ≤ op.blocks w * w.erasesize.toNat := by
  by_cases some : 0 < w.erasesize.toNat
  · have more := Nat.lt_div_mul_add some (a := (op.length w).toNat + w.erasesize.toNat - 1)
    rw [blocks]
    omega
  · have none : w.erasesize = 0 := by
      rw [← BitVec.toNat_inj]
      simpa using some
    simp [length_eq_zero none]

theorem blocks_mul_lt : op.blocks w * w.erasesize.toNat < 2 ^ 32 := by
  by_cases none : op.blocks w = 0
  · simp [none]
  · have last := @mul_lt_length w op (op.blocks w - 1) (by omega)
    have size := (op.length w).isLt
    have blockSmall := w.erasesize.isLt
    have some : 0 < w.erasesize.toNat := by
      refine Nat.pos_of_ne_zero fun zero => none ?_
      simp [blocks, zero]
    obtain ⟨count, whole⟩ | short := @dvd_length_or_lt w op some
    · have le : op.blocks w ≤ count := by
        rw [whole, Nat.mul_comm] at last
        have less := Nat.lt_of_mul_lt_mul_left last
        omega
      have bound := Nat.mul_le_mul_right w.erasesize.toNat le
      rw [Nat.mul_comm count, ← whole] at bound
      omega
    · have one : op.blocks w ≤ 1 := by
        refine Nat.le_of_lt_succ ?_
        rw [blocks, Nat.div_lt_iff_lt_mul some]
        omega
      have bound := Nat.mul_le_mul_right w.erasesize.toNat one
      omega

/-- The start of a block as the loop counts it. -/
theorem start_lt_iff {k : Nat} (le : k ≤ op.blocks w) :
    BitVec.ofNat 32 (k * w.erasesize.toNat) < op.length w ↔ k < op.blocks w := by
  have bound := @blocks_mul_lt w op
  have upTo := Nat.mul_le_mul_right w.erasesize.toNat le
  rw [BitVec.lt_def, BitVec.toNat_ofNat, Nat.mod_eq_of_lt (by omega)]
  refine ⟨fun less => ?_, mul_lt_length⟩
  refine Nat.lt_of_le_of_ne le ?_
  rintro rfl
  have all := @length_le_mul w op
  omega

theorem Reaches.mono {j k : Nat} (reaches : op.Reaches w k) (le : j ≤ k) :
    op.Reaches w j :=
  fun i less => reaches i (less.trans_le le)

theorem Reaches.succ {k : Nat} (reaches : op.Reaches w k)
    (erased : w.result (op.erases w (k + 1)) = 0) : op.Reaches w (k + 1) := by
  intro j less
  obtain before | rfl := Nat.lt_succ_iff_lt_or_eq.mp less
  · exact reaches j before
  · exact erased

/-- The loop ends behind the last block or at the first that it cannot erase. -/
theorem eraseBlocks_ends (info : BootMtdInfo) (reads : List Access) (turns : Nat) {k : Nat}
    (le : k ≤ op.blocks w) (enough : op.blocks w ≤ k + turns) (reaches : op.Reaches w k) :
    (op.Reaches w (op.blocks w) ∧
      eraseBlocks w op.ofs (op.length w) turns (BitVec.ofNat 32 (k * w.erasesize.toNat))
        ⟨info, op.erases w k, reads⟩ = (true, ⟨info, op.erases w (op.blocks w), reads⟩)) ∨
    ∃ f, op.FailsAt w f ∧
      eraseBlocks w op.ofs (op.length w) turns (BitVec.ofNat 32 (k * w.erasesize.toNat))
        ⟨info, op.erases w k, reads⟩ = (false, ⟨info, op.erases w (f + 1), reads⟩) := by
  induction turns generalizing k with
  | zero =>
      obtain rfl : k = op.blocks w := by omega
      exact Or.inl ⟨reaches, rfl⟩
  | succ turns inductionHypothesis =>
      rw [eraseBlocks]
      by_cases more : k < op.blocks w
      · have here : ask w ⟨info, op.erases w k, reads⟩
            (.nandErase (op.ofs + BitVec.ofNat 32 (k * w.erasesize.toNat)) w.erasesize) =
            (w.result (op.erases w (k + 1)), ⟨info, op.erases w (k + 1), reads⟩) := rfl
        have next : BitVec.ofNat 32 (k * w.erasesize.toNat) + w.erasesize =
            BitVec.ofNat 32 ((k + 1) * w.erasesize.toNat) := by
          rw [Nat.add_mul, Nat.one_mul, BitVec.ofNat_add, BitVec.ofNat_toNat,
            BitVec.setWidth_eq]
        rw [if_pos ((start_lt_iff le).mpr more), here, next]
        by_cases erased : w.result (op.erases w (k + 1)) = 0
        · simp only [erased, ne_eq, not_true_eq_false, if_false]
          exact inductionHypothesis more (by omega) (reaches.succ erased)
        · simp only [erased, ne_eq, not_false_eq_true, if_true]
          exact Or.inr ⟨k, ⟨more, reaches, erased⟩, rfl⟩
      · obtain rfl : k = op.blocks w := by omega
        rw [if_neg (mt (start_lt_iff le).mp more)]
        exact Or.inl ⟨reaches, rfl⟩

theorem blocks_le_length : op.blocks w ≤ (op.length w).toNat := by
  by_cases none : op.blocks w = 0
  · omega
  · have last := @mul_lt_length w op (op.blocks w - 1) (by omega)
    have some : 0 < w.erasesize.toNat := by
      refine Nat.pos_of_ne_zero fun zero => none ?_
      simp [blocks, zero]
    have le := Nat.le_mul_of_pos_right (op.blocks w - 1) some
    omega

/-- The ways in which the call ends: written, or at a block that is not erased. -/
theorem writeFlashData_ends (info : BootMtdInfo) (reads : List Access) :
    (op.Reaches w (op.blocks w) ∧
      writeFlashData w ⟨info, op.before, reads⟩ op.ofs op.cnt op.src =
        (if w.result (op.written w) ≠ 0 then 1 else 0, ⟨info, op.written w, reads⟩)) ∨
    ∃ f, op.FailsAt w f ∧
      writeFlashData w ⟨info, op.before, reads⟩ op.ofs op.cnt op.src =
        (1, ⟨info, op.erases w (f + 1), reads⟩) := by
  have ends := @eraseBlocks_ends w op info reads (op.length w).toNat 0 (Nat.zero_le _)
    (by simpa using blocks_le_length) (fun _ none => absurd none (Nat.not_lt_zero _))
  have start : BitVec.ofNat 32 (0 * w.erasesize.toNat) = 0 := by simp
  rw [start] at ends
  unfold writeFlashData
  dsimp only
  refine ends.imp (fun ⟨all, erased⟩ => ⟨all, ?_⟩) fun ⟨f, fails, erased⟩ => ⟨f, fails, ?_⟩
  · change eraseBlocks w op.ofs (wholeBlocks w op.cnt) (wholeBlocks w op.cnt).toNat 0
      ⟨info, op.before, reads⟩ = _ at erased
    rw [erased]
    rfl
  · change eraseBlocks w op.ofs (wholeBlocks w op.cnt) (wholeBlocks w op.cnt).toNat 0
      ⟨info, op.before, reads⟩ = _ at erased
    rw [erased]
    rfl

theorem writeFlashData_snd (info : BootMtdInfo) (reads : List Access) :
    (writeFlashData w ⟨info, op.before, reads⟩ op.ofs op.cnt op.src).2 =
      ⟨info, op.after w, reads⟩ := by
  rw [after]
  obtain ⟨all, here⟩ | ⟨f, ⟨_, first, failed⟩, here⟩ :=
    @writeFlashData_ends w op info reads
  · obtain ⟨_, there⟩ | ⟨f, ⟨less, _, failed⟩, _⟩ :=
      @writeFlashData_ends w op defaultMtdInfo []
    · rw [here, there]
    · exact absurd (all f less) failed
  · obtain ⟨all, _⟩ | ⟨f', ⟨_, second, failed'⟩, there⟩ :=
      @writeFlashData_ends w op defaultMtdInfo []
    · exact absurd (all f (by assumption)) failed
    · obtain rfl : f = f' := by
        refine le_antisymm ?_ ?_
        · exact Nat.le_of_not_lt fun less => failed' (first f' less)
        · exact Nat.le_of_not_lt fun less => failed (second f less)
      rw [here, there]

theorem writeFlashData_eq_zero_iff (info : BootMtdInfo) (reads : List Access) :
    (writeFlashData w ⟨info, op.before, reads⟩ op.ofs op.cnt op.src).1 = 0 ↔
      op.Succeeds w := by
  obtain ⟨all, ends⟩ | ⟨f, ⟨less, _, failed⟩, ends⟩ :=
    @writeFlashData_ends w op info reads
  · rw [ends, Succeeds, and_iff_right all]
    simp
  · rw [ends, Succeeds]
    exact iff_of_false Int.one_ne_zero fun succeeds => failed (succeeds.1 f less)

/-- The log of a call that succeeds. -/
theorem after_of_succeeds (succeeds : op.Succeeds w) : op.after w = op.written w := by
  rw [after]
  obtain ⟨_, ends⟩ | ⟨f, ⟨less, _, failed⟩, _⟩ :=
    @writeFlashData_ends w op defaultMtdInfo []
  · rw [ends]
  · exact absurd (succeeds.1 f less) failed

section Survives

variable {before : BitVec 32 → Prop} {addr : BitVec 32}

theorem survives_erases (k : Nat) :
    Survives w before (op.erases w k) addr ↔
      (∀ j < k, ¬ Within (op.block w j) w.erasesize addr) ∧
        Survives w before op.before addr := by
  induction k with
  | zero => simp [erases]
  | succ k inductionHypothesis =>
      rw [erases]
      by_cases covers : Within (op.block w k) w.erasesize addr
      · have gone := @survives_spoiled w before (op.erases w k)
          (.nandErase (op.block w k) w.erasesize) addr covers rfl
        refine iff_of_false gone fun kept => ?_
        exact kept.1 k k.lt_succ_self covers
      · have other : ¬ (Call.nandErase (op.block w k) w.erasesize).Covers w addr := covers
        rw [survives_other other, inductionHypothesis]
        refine and_congr_left fun _ => ⟨fun outside j less => ?_, fun outside j less => ?_⟩
        · obtain less | rfl := Nat.lt_succ_iff_lt_or_eq.mp less
          · exact outside j less
          · exact covers
        · exact outside j (less.trans k.lt_succ_self)

/-- All that is written has been erased. -/
theorem exists_block (covers : Within op.ofs (op.length w) addr) :
    ∃ k < op.blocks w, Within (op.block w k) w.erasesize addr := by
  have below : (addr - op.ofs).toNat < (op.length w).toNat := covers
  have some : 0 < w.erasesize.toNat := by
    refine Nat.pos_of_ne_zero fun zero => ?_
    have none : w.erasesize = 0 := BitVec.eq_of_toNat_eq zero
    rw [length_eq_zero none] at below
    exact absurd below (Nat.not_lt_zero _)
  have all := @length_le_mul w op
  obtain ⟨k, rest, short, parts⟩ : ∃ k rest, rest < w.erasesize.toNat ∧
      (addr - op.ofs).toNat = k * w.erasesize.toNat + rest :=
    ⟨_, _, Nat.mod_lt _ some, (Nat.div_add_mod' _ _).symm⟩
  have less : k < op.blocks w := by
    refine Nat.lt_of_not_le fun le => ?_
    have beyond := Nat.mul_le_mul_right w.erasesize.toNat le
    omega
  have start : (BitVec.ofNat 32 (k * w.erasesize.toNat)).toNat = k * w.erasesize.toNat := by
    have bound := (addr - op.ofs).isLt
    rw [BitVec.toNat_ofNat, Nat.mod_eq_of_lt]
    omega
  have apart : addr - op.block w k =
      addr - op.ofs - BitVec.ofNat 32 (k * w.erasesize.toNat) := by
    rw [block]
    bv_omega
  have le : BitVec.ofNat 32 (k * w.erasesize.toNat) ≤ addr - op.ofs := by
    rw [BitVec.le_def, start]
    omega
  refine ⟨k, less, ?_⟩
  rw [Within, apart, BitVec.lt_def, BitVec.toNat_sub_of_le le, start]
  omega

/-- What the call leaves: of the bytes for which it asks, those that it writes. -/
theorem survives_after :
    Survives w before (op.after w) addr ↔
      (op.Asks w addr ∧ op.Succeeds w ∧ Within op.ofs (op.length w) addr) ∨
        (¬ op.Asks w addr ∧ Survives w before op.before addr) := by
  rw [after]
  obtain ⟨all, ends⟩ | ⟨f, ⟨less, first, failed⟩, ends⟩ :=
    @writeFlashData_ends w op defaultMtdInfo []
  · rw [ends]
    dsimp only
    by_cases covers : Within op.ofs (op.length w) addr
    · obtain ⟨k, less, inside⟩ := exists_block covers
      have asks : op.Asks w addr := Or.inl ⟨k, less, all.mono less.le, inside⟩
      have succeeds : op.Succeeds w ↔ w.result (op.written w) = 0 := and_iff_right all
      simp only [asks, covers, succeeds, written, survives_written, true_and, and_true,
        not_true_eq_false, false_and, or_false]
    · have other : ¬ (Call.nandWrite op.ofs (op.length w) op.src).Covers w addr := covers
      rw [written, survives_other other]
      by_cases map : Call.nandBbmUpdate.Covers w addr
      · have asks : op.Asks w addr := Or.inr ⟨all, map⟩
        have gone := @survives_spoiled w before (op.erases w (op.blocks w)) .nandBbmUpdate
          addr map rfl
        simp [asks, covers, gone]
      · have asks : op.Asks w addr ↔
            ∃ k < op.blocks w, Within (op.block w k) w.erasesize addr := by
          refine (or_iff_left fun both => map both.2).trans ?_
          refine exists_congr fun k => and_congr_right fun less => ?_
          exact and_iff_right (all.mono less.le)
        rw [survives_other map, survives_erases, asks]
        simp [covers]
  · rw [ends]
    have fails : ¬ op.Succeeds w := fun succeeds => failed (succeeds.1 f less)
    have reach (k : Nat) : op.Reaches w k ↔ k ≤ f := by
      refine ⟨fun reaches => ?_, first.mono⟩
      exact Nat.le_of_not_lt fun beyond => failed (reaches f beyond)
    have asks : op.Asks w addr ↔
        ∃ k < f + 1, Within (op.block w k) w.erasesize addr := by
      refine (or_iff_left fun both => ?_).trans ?_
      · exact absurd ((reach _).mp both.1) (by omega)
      · refine exists_congr fun k => ?_
        rw [reach, Nat.lt_succ_iff, ← and_assoc]
        exact and_congr_left fun _ => ⟨And.right, fun le => ⟨by omega, le⟩⟩
    rw [survives_erases, asks]
    simp [fails]

end Survives

end FlashWrite

end Gp2Firmware.CmdLg
