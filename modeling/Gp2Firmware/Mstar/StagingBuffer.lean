import Gp2Firmware.Lib.Run
import Gp2Firmware.Mstar.NandBase
import Gp2Firmware.Mstar.PageBuffer

/-!
# The page buffer against a plain page

The transfers that the kernel asks for, next to a plain chip whose pages have 2048
data bytes and 64 spare bytes: a read delivers them, a program clears the bits that
it is given, and an erase sets them.  The controller computes the ECC bytes, so the
plain chip takes them from the flash.

A page read delivers the spare bytes that the last program has left in the page
buffer, and a page program takes spare bytes from the flash in place of its own.
-/

namespace Gp2Firmware.Mstar

open Gp2Firmware.Nand

/-- The transfers of `nand_base.c`, with the alignment of the caller's buffer. -/
inductive Transfer where
  | readPage (row : Nat) (aligned : Bool)
  | readOob (row : Nat)
  | writePage (row : Nat) (data oob : Nat → U8)
  | writeOob (row : Nat) (oob : Nat → U8)
  | erase (row : Nat)

/-- What `read_buf` has delivered: data bytes and spare bytes, as far as a transfer
asks for them. -/
structure Delivered where
  data : Option (Nat → U8)
  spare : Option (Nat → U8)

variable (hw : Hw) (pagesPerBlock : Nat)

/-- `NAND_CMD_READ0`, and the transfers of 2048 and of 64 bytes. -/
def Driver.readPage (d : Driver) (row : Nat) (aligned : Bool) : Delivered × Driver :=
  let data := (d.sendRead0 hw row).readBuf hw aligned 0x800
  let spare := data.2.readBuf hw true 64
  (⟨some data.1, some spare.1⟩, spare.2)

/-- `NAND_CMD_READOOB`, and the transfer of 64 bytes. -/
def Driver.readSpare (d : Driver) (row : Nat) : Delivered × Driver :=
  let spare := (d.readOob hw row 0).readBuf hw true 64
  (⟨none, some spare.1⟩, spare.2)

/-- One transfer on the driver. -/
def Driver.transfer (d : Driver) : Transfer → Delivered × Driver
  | .readPage row aligned => d.readPage hw row aligned
  | .readOob row => d.readSpare hw row
  | .writePage row data oob =>
      (⟨none, none⟩, (d.pageLoaded hw row data oob).pageProgram hw)
  | .writeOob row oob => (⟨none, none⟩, (d.spareLoaded hw row oob).pageProgram hw)
  | .erase row => (⟨none, none⟩, (d.erase1 row).erase2 hw pagesPerBlock)

/-- The plain chip. -/
abbrev Plain := Nat → Cells

/-- The ECC bytes are those of another page. -/
def Cells.withEcc (cells flash : Cells) : Cells :=
  { cells with
    spare := fun k => if eccColumn k then flash.spare k else cells.spare k }

/-- One transfer on the plain chip, where `flash` has the ECC bytes. -/
def Plain.transfer (p : Plain) (flash : Nat → Cells) : Transfer → Plain
  | .readPage .. => p
  | .readOob _ => p
  | .writePage row data oob =>
      Function.update p row (((p row).program ⟨data, oob⟩).withEcc (flash row))
  | .writeOob row oob =>
      Function.update p row
        (((p row).program ⟨fun _ => 0xFF, oob⟩).withEcc (flash row))
  | .erase row => fun other =>
      if other / pagesPerBlock = row / pagesPerBlock then .erased else p other

/-- Two pages have the same bytes. -/
structure Cells.Same (cells other : Cells) : Prop where
  data : ∀ k < 0x800, cells.data k = other.data k
  spare : ∀ k < 64, cells.spare k = other.spare k

/-- What a transfer delivers is what the plain chip has. -/
def Plain.Delivers (p : Plain) (delivered : Delivered) : Transfer → Prop
  | .readPage row _ =>
      (∀ bytes ∈ delivered.data, ∀ k < 0x800, bytes k = (p row).data k) ∧
        ∀ bytes ∈ delivered.spare, ∀ k < 64, bytes k = (p row).spare k
  | .readOob row => ∀ bytes ∈ delivered.spare, ∀ k < 64, bytes k = (p row).spare k
  | _ => True

/-- The driver beside the plain chip. -/
structure Pair where
  driver : Driver
  plain : Plain

/-- One transfer on both. -/
def Pair.step (s : Pair) (t : Transfer) : Pair :=
  let driver := (s.driver.transfer hw pagesPerBlock t).2
  ⟨driver, s.plain.transfer pagesPerBlock driver.flash t⟩

/-- The flash is the plain chip. -/
def Pair.Agrees (s : Pair) : Prop :=
  ∀ row, (s.driver.flash row).Same (s.plain row)

/-- A transfer delivers the bytes of the plain chip, and the flash is that chip
behind it. -/
def Pair.Refines (s : Pair) (t : Transfer) : Prop :=
  s.plain.Delivers (s.driver.transfer hw pagesPerBlock t).1 t ∧
    (s.step hw pagesPerBlock t).Agrees

/-- In every transfer of a run the driver does what a plain chip does that starts
with the same pages. -/
def RefinesPlain (d : Driver) (run : List Transfer) : Prop :=
  Run.Meets (Pair.step hw pagesPerBlock) (Pair.Refines hw pagesPerBlock)
    ⟨d, d.flash⟩ run

/-- The end of the page buffer has the spare bytes of a page that is read, and where
a page is programmed with spare bytes 1 to 5 erased, the spare bytes that are taken
from the flash do not lose a bit that the program clears. -/
def Transfer.Safe (d : Driver) : Transfer → Prop
  | .readPage row _ => ∀ k < 64, d.stPageBuffer (0x800 + k) = (d.flash row).spare k
  | .writePage row _ oob =>
      (∀ i ∈ List.range' 1 5, oob i = 0xFF) →
        ∀ k < 64, k % 16 < 5 → (d.flash row).spare k &&& oob k = (d.flash row).spare k
  | _ => True

/-! ### What each transfer does -/

namespace Driver

variable {hw} (large : hw.flash2kpage = true) (sound : hw.Sound) (d : Driver)

theorem sendRead0_flash (row : Nat) : (d.sendRead0 hw row).flash = d.flash := by
  unfold sendRead0
  split <;> rfl

theorem sendRead0_stPageBuffer (row : Nat) :
    (d.sendRead0 hw row).stPageBuffer = d.stPageBuffer := by
  unfold sendRead0
  split <;> rfl

theorem readPage_flash (row : Nat) (aligned : Bool) :
    (d.readPage hw row aligned).2.flash = d.flash := by
  unfold readPage
  simp only [readBuf_data, readBuf_spare]
  exact d.sendRead0_flash row

include sound in
theorem readPage_data (row : Nat) (aligned : Bool) :
    ∀ bytes ∈ (d.readPage hw row aligned).1.data,
      ∀ k < 0x800, bytes k = (d.flash row).data k := by
  intro bytes delivered k inside
  unfold readPage at delivered
  simp only [readBuf_data, Option.mem_some_iff] at delivered
  rw [← delivered, dmaBytes_data sound _ inside, sendRead0_flash]
  rfl

/-- A page read delivers the end of the page buffer for the spare bytes. -/
theorem readPage_spare (row : Nat) (aligned : Bool) :
    (d.readPage hw row aligned).1.spare =
      some fun k => d.stPageBuffer (0x800 + k) := by
  unfold readPage
  simp only [readBuf_data, readBuf_spare, sendRead0_stPageBuffer]
  refine congrArg some (funext fun k => if_neg ?_)
  rintro ⟨-, below⟩
  omega

include large sound in
theorem readSpare_spare (row : Nat) :
    ∀ bytes ∈ (d.readSpare hw row).1.spare,
      ∀ k < 64, bytes k = (d.flash row).spare k := by
  intro bytes delivered k inside
  unfold readSpare at delivered
  simp only [readBuf_spare, Option.mem_some_iff] at delivered
  have taken : bytes k = (d.readOob hw row 0).stPageBuffer (0 + k) := by
    rw [← delivered, d.readOob_byteIdxofPage large]
  rw [taken, Nat.zero_add, d.readOob_stPageBuffer large sound, if_pos inside]

include large in
theorem readSpare_flash (row : Nat) : (d.readSpare hw row).2.flash = d.flash := by
  unfold readSpare
  rw [readBuf_spare]
  exact d.readOob_flash large row 0

include sound in
theorem pageLoadedProgram_flash (row : Nat) (data oob : Nat → U8) :
    ((d.pageLoaded hw row data oob).pageProgram hw).flash =
      Function.update d.flash row
        ((d.flash row).program (((d.pageLoaded hw row data oob).staged hw).sent hw)) :=
  pageProgram_flash sound _

include large in
/-- A page program takes spare bytes from the flash if its own bytes 1 to 5 are
erased. -/
theorem pageLoaded_keepsSpare (row : Nat) (data oob : Nat → U8) :
    (d.pageLoaded hw row data oob).KeepsSpare hw ↔
      ∀ i ∈ List.range' 1 5, oob i = 0xFF := by
  unfold KeepsSpare
  rw [d.pageLoaded_tWriteLen large, pageSize_large large, spareSize_large large,
    if_pos large]
  refine (and_iff_left rfl).trans (forall₂_congr fun i listed => ?_)
  have inside : i < 64 := by
    rw [List.mem_range'_1] at listed
    omega
  rw [d.pageLoaded_spare large row data oob inside]

include large sound in
theorem pageProgram_data (row : Nat) (data oob : Nat → U8) {k : Nat}
    (inside : k < 0x800) :
    (((d.pageLoaded hw row data oob).pageProgram hw).flash row).data k =
      (d.flash row).data k &&& data k := by
  rw [pageLoadedProgram_flash sound, Function.update_self, Cells.program_data,
    sent_data large sound _ inside, d.pageLoaded_data large row data oob inside]

include large sound in
theorem pageProgram_spare (row : Nat) (data oob : Nat → U8) {k : Nat}
    (inside : k < 64) (plain : eccColumn k = false) :
    (((d.pageLoaded hw row data oob).pageProgram hw).flash row).spare k =
      if (∀ i ∈ List.range' 1 5, oob i = 0xFF) ∧ k % 16 < 5 then (d.flash row).spare k
      else (d.flash row).spare k &&& oob k := by
  rw [pageLoadedProgram_flash sound, Function.update_self, Cells.program_spare,
    sent_spare large sound _ inside plain]
  unfold stagedSpare
  simp only [d.pageLoaded_keepsSpare large, d.pageLoaded_spare large row data oob inside]
  split_ifs
  · exact BitVec.and_self
  · rfl

end Driver

/-! ### Steps and runs -/

namespace Cells

theorem Same.refl (cells : Cells) : cells.Same cells :=
  ⟨fun _ _ => rfl, fun _ _ => rfl⟩

/-- A page that takes its ECC bytes from another one differs from that one in the
other bytes only. -/
theorem same_withEcc {flash cells : Cells} :
    flash.Same (cells.withEcc flash) ↔
      (∀ k < 0x800, flash.data k = cells.data k) ∧
        ∀ k < 64, eccColumn k = false → flash.spare k = cells.spare k := by
  constructor
  · rintro ⟨data, spare⟩
    refine ⟨data, fun k inside plain => (spare k inside).trans ?_⟩
    exact if_neg (Bool.not_eq_true _ ▸ plain)
  · rintro ⟨data, spare⟩
    refine ⟨data, fun k inside => ?_⟩
    cases ecc : eccColumn k with
    | true => exact (if_pos ecc).symm
    | false =>
        rw [spare k inside ecc]
        exact (if_neg (Bool.not_eq_true _ ▸ ecc)).symm

end Cells

namespace Pair

variable {hw} {pagesPerBlock} (large : hw.flash2kpage = true) (sound : hw.Sound)
variable {s : Pair} (agrees : s.Agrees)

include agrees in
/-- What leaves the flash alone keeps the agreement. -/
theorem agrees_of_read {d : Driver} (kept : d.flash = s.driver.flash) :
    Agrees ⟨d, s.plain⟩ := by
  intro row
  rw [kept]
  exact agrees row

include agrees in
/-- A program of one page keeps the agreement if it does on this page. -/
theorem agrees_of_program {flash : Nat → Cells} {row : Nat} {cells : Cells}
    (elsewhere : ∀ other, other ≠ row → flash other = s.driver.flash other) :
    (∀ other, (flash other).Same (Function.update s.plain row cells other)) ↔
      (flash row).Same cells := by
  constructor
  · intro all
    have here := all row
    rwa [Function.update_self] at here
  · intro here other
    by_cases same : other = row
    · rw [same, Function.update_self]
      exact here
    · rw [Function.update_of_ne same, elsewhere other same]
      exact agrees other

include sound agrees in
theorem refines_readPage (row : Nat) (aligned : Bool) :
    s.Refines hw pagesPerBlock (.readPage row aligned) ↔
      Transfer.Safe s.driver (.readPage row aligned) := by
  have after :
      Agrees (s.step hw pagesPerBlock (.readPage row aligned)) :=
    agrees_of_read agrees (s.driver.readPage_flash row aligned)
  have data :
      ∀ bytes ∈ (s.driver.readPage hw row aligned).1.data,
        ∀ k < 0x800, bytes k = (s.plain row).data k := by
    intro bytes delivered k inside
    rw [s.driver.readPage_data sound row aligned bytes delivered k inside]
    exact (agrees row).data k inside
  have spare :
      (∀ bytes ∈ (s.driver.readPage hw row aligned).1.spare,
          ∀ k < 64, bytes k = (s.plain row).spare k) ↔
        Transfer.Safe s.driver (.readPage row aligned) := by
    rw [s.driver.readPage_spare]
    simp only [Option.mem_some_iff, forall_eq']
    refine forall₂_congr fun k inside => ?_
    rw [(agrees row).spare k inside]
  exact (and_iff_left after).trans ((and_iff_right data).trans spare)

include large sound agrees in
theorem refines_readOob (row : Nat) :
    s.Refines hw pagesPerBlock (.readOob row) := by
  refine ⟨?_, agrees_of_read agrees (s.driver.readSpare_flash large row)⟩
  intro bytes delivered k inside
  rw [s.driver.readSpare_spare large sound row bytes delivered k inside]
  exact (agrees row).spare k inside

include large sound agrees in
theorem refines_writePage (row : Nat) (data oob : Nat → U8) :
    s.Refines hw pagesPerBlock (.writePage row data oob) ↔
      Transfer.Safe s.driver (.writePage row data oob) := by
  have elsewhere :
      ∀ other, other ≠ row →
        ((s.driver.pageLoaded hw row data oob).pageProgram hw).flash other =
          s.driver.flash other := by
    intro other away
    rw [Driver.pageLoadedProgram_flash sound, Function.update_of_ne away]
  have data_same :
      ∀ k < 0x800,
        (((s.driver.pageLoaded hw row data oob).pageProgram hw).flash row).data k =
          ((s.plain row).program ⟨data, oob⟩).data k := by
    intro k inside
    rw [Driver.pageProgram_data large sound _ _ _ _ inside, (agrees row).data k inside]
    rfl
  refine (and_iff_right trivial).trans ((agrees_of_program agrees elsewhere).trans ?_)
  refine Cells.same_withEcc.trans ((and_iff_right data_same).trans ?_)
  constructor
  · intro same erased k inside first
    have plain : eccColumn k = false := decide_eq_false (by omega)
    have byte := same k inside plain
    rw [Cells.program_spare, ← (agrees row).spare k inside] at byte
    refine byte.symm.trans ?_
    exact (Driver.pageProgram_spare large sound _ _ _ _ inside plain).trans
      (if_pos ⟨erased, first⟩)
  · intro safe k inside plain
    rw [Cells.program_spare, ← (agrees row).spare k inside]
    refine (Driver.pageProgram_spare large sound _ _ _ _ inside plain).trans ?_
    split_ifs with taken
    · exact (safe taken.1 k inside taken.2).symm
    · rfl

include large sound agrees in
theorem refines_writeOob (row : Nat) (oob : Nat → U8) :
    s.Refines hw pagesPerBlock (.writeOob row oob) := by
  have elsewhere :
      ∀ other, other ≠ row →
        ((s.driver.spareLoaded hw row oob).pageProgram hw).flash other =
          s.driver.flash other := by
    intro other away
    rw [Driver.spareProgram_flash sound, Function.update_of_ne away]
  refine ⟨trivial, (agrees_of_program agrees elsewhere).mpr ?_⟩
  refine Cells.same_withEcc.mpr ⟨?_, ?_⟩
  · intro k inside
    have kept := Driver.spareProgram_data large sound s.driver row oob inside
    refine kept.trans (((agrees row).data k inside).trans ?_)
    exact BitVec.and_allOnes.symm
  · intro k inside _
    refine (Driver.spareProgram_spare large sound s.driver row oob inside).trans ?_
    rw [Cells.program_spare, (agrees row).spare k inside]

include sound agrees in
theorem refines_erase (row : Nat) : s.Refines hw pagesPerBlock (.erase row) := by
  refine ⟨trivial, ?_⟩
  intro other
  have driver :
      ((s.driver.erase1 row).erase2 hw pagesPerBlock).flash other =
        if other / pagesPerBlock = row / pagesPerBlock then .erased
        else s.driver.flash other := by
    unfold Driver.erase2
    simp only [sound.leaves_eq]
    rfl
  have plain :
      (s.step hw pagesPerBlock (.erase row)).plain other =
        if other / pagesPerBlock = row / pagesPerBlock then .erased
        else s.plain other :=
    rfl
  rw [plain]
  refine driver.symm ▸ ?_
  split_ifs
  · exact Cells.Same.refl _
  · exact agrees other

include large sound agrees in
/-- One transfer refines the plain chip exactly when it is safe. -/
theorem refines_iff (t : Transfer) :
    s.Refines hw pagesPerBlock t ↔ t.Safe s.driver := by
  cases t with
  | readPage row aligned => exact refines_readPage sound agrees row aligned
  | readOob row => exact iff_of_true (refines_readOob large sound agrees row) trivial
  | writePage row data oob => exact refines_writePage large sound agrees row data oob
  | writeOob row oob =>
      exact iff_of_true (refines_writeOob large sound agrees row oob) trivial
  | erase row => exact iff_of_true (refines_erase sound agrees row) trivial

end Pair

/-- The driver is a plain chip over a run of transfers exactly when each of them is
safe. -/
theorem refinesPlain_iff {hw : Hw} (large : hw.flash2kpage = true) (sound : hw.Sound)
    (pagesPerBlock : Nat) (d : Driver) (run : List Transfer) :
    RefinesPlain hw pagesPerBlock d run ↔
      Run.Meets (fun d t => (d.transfer hw pagesPerBlock t).2) (fun d t => t.Safe d) d
        run :=
  Run.meets_iff_of_invariant Pair.driver (fun _ _ => rfl)
    (fun _ t agrees => Pair.refines_iff large sound agrees t)
    (fun _ _ _ refines => refines.2) fun row => Cells.Same.refl (d.flash row)

theorem refinesPlain_good :
    RefinesPlain goodHw 64 (Mtd.fresh nand128MiB).driver
        [.writePage 3 (fun _ => 0x5A) (fun _ => 0xFF), .readPage 3 true] ↔
      Run.Meets (fun d t => (Driver.transfer goodHw 64 d t).2) (fun d t => t.Safe d)
        (Mtd.fresh nand128MiB).driver
        [.writePage 3 (fun _ => 0x5A) (fun _ => 0xFF), .readPage 3 true] :=
  refinesPlain_iff rfl goodHw_sound 64 _ _

/-- Spare bytes of which the first of the second sector is in use. -/
def secondSectorUsed : Nat → U8 := fun k => if k = 16 then 0x5A else 0xFF

/-- A page read after a program of the spare bytes of another page delivers those,
and a page program with a spare byte in the second sector only loses it. -/
theorem page_buffer_leaks :
    ¬ RefinesPlain goodHw 64 (Mtd.fresh nand128MiB).driver
        [.writeOob 3 secondSectorUsed, .readPage 7 true] ∧
      ¬ RefinesPlain goodHw 64 (Mtd.fresh nand128MiB).driver
        [.writePage 3 (fun _ => 0) secondSectorUsed] := by
  constructor
  · rintro ⟨-, ⟨⟨-, spare⟩, -⟩, -⟩
    exact absurd (spare _ rfl 16 (by decide)) (by decide +kernel)
  · rintro ⟨⟨-, agrees⟩, -⟩
    exact absurd ((agrees 3).spare 16 (by decide)) (by decide +kernel)

end Gp2Firmware.Mstar
