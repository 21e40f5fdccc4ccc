import Gp2Firmware.Lib.WordBytes
import Gp2Firmware.Nand.BlockMap
import Gp2Firmware.UBoot.NandBase

/-!
# The info block

`nand_bbm_info_save` writes the map to block zero, `nand_bbm_info_load`
rebuilds it from there.  Both work on a buffer of one erase block; an access
outside the buffer or outside `nand_bbm_bitmap` has no defined effect and is
`none` here.
-/

namespace Gp2Firmware.UBoot

open Gp2Firmware.Lib
open Gp2Firmware.Nand

variable (g : Geometry) (chip : ChipBehaviour)

/-- The loop that writes the buffer, by the number of pages left. -/
def saveLoop (buffer : Nat → Byte) : (left pos : Nat) → Device → Int × Device
  | 0, _, d => (0, d)
  | left + 1, pos, d =>
      let written := nandWriteEcc g chip d pos g.writesize
        fun column => buffer (pos + column)
      if written.ret ≠ 0 then (-1, written.device)
      else saveLoop buffer left (pos + g.writesize) written.device

/-- `nand_bbm_info_save`.  The position that `nand_bbm_find_pos` finds is
zero. -/
def nandBbmInfoSave (d : Device) : Option (Int × Device) :=
  if g.erasesize < 4 * (infoWords g d.bbm).length then none
  else
    let erased := nandEraseNand g chip d (.ofBlock g 0 g.blocks_pos)
    if erased.ret ≠ 0 then some (-1, erased.device)
    else
      some (saveLoop g chip (bytesOfWords (infoWords g d.bbm)) g.pagesPerBlock 0
        erased.device)

/-- The loop `while (reloc_index != rindex)`, which marks the reserve blocks
down to `reloc_index` bad. -/
def markSkipped (relocIndex : Nat) : Nat → Bbm → Option Bbm
  | 0, s => if relocIndex = 0 then some s else none
  | rindex + 1, s =>
      if relocIndex = rindex + 1 then some s
      else if g.blocks ≤ rindex + 1 then none
      else
        markSkipped relocIndex rindex
          { s with
            nandBbmBitmap := Function.update s.nandBbmBitmap (rindex + 1)
              (badEntry (rindex + 1))
            bbCountRedirect := s.bbCountRedirect + 1 }

/-- One entry of the loop of `nand_bbm_info_load`. -/
def loadEntry (entry : MapInfo) (rindex : Nat) (s : Bbm) : Option Bbm :=
  match markSkipped g entry.relocIndex rindex s with
  | none => none
  | some s =>
      if g.blocks ≤ entry.bbIndex ∨ g.blocks ≤ entry.relocIndex then none
      else
        let bitmap := Function.update s.nandBbmBitmap entry.bbIndex
          (badEntry entry.relocIndex)
        let s := { s with
          nandBbmBitmap := Function.update bitmap entry.relocIndex
            (bitmap entry.relocIndex ||| bbmRedirMask) }
        if g.blockPos entry.bbIndex ≠ g.blockPos entry.relocIndex then
          some { s with bbCountData := s.bbCountData + 1 }
        else some { s with bbCountRedirect := s.bbCountRedirect + 1 }

/-- The loop of `nand_bbm_info_load` over the reserve region, by the number of
turns left.  `rindex` wraps below zero, and so does the sum of the counters
above its word. -/
def loadLoop (bbCount : Nat) (maps : Nat → MapInfo) :
    (turns i rindex : Nat) → Bbm → Option (Nat × Bbm)
  | 0, _, rindex, s => some (rindex, s)
  | turns + 1, i, rindex, s =>
      if (s.bbCountData + s.bbCountRedirect) % 2 ^ 32 = bbCount then some (rindex, s)
      else if g.erasesize < 4 * (5 + 2 * i) then none
      else
        match loadEntry g (maps i) rindex s with
        | none => none
        | some s =>
            loadLoop bbCount maps turns (i + 1)
              (((maps i).relocIndex + (2 ^ 32 - 1)) % 2 ^ 32) s

/-- `nand_bbm_info_load` -/
def nandBbmInfoLoad (d : Device) : Option (Int × Device) :=
  let r := nandReadEcc g chip d 0 g.erasesize fun _ => ⊥
  let word := wordOfBytes r.buf
  if r.ret ≠ 0 then some (r.ret, r.device)
  else if word 0 ≠ bbmMagic then some (1, r.device)
  else
    let s := { r.device.bbm with
      nandBbmBitmap := fun index =>
        if index < g.blocks then BitVec.ofNat 32 index
        else r.device.bbm.nandBbmBitmap index
      bbCountData := r.device.bbm.bbCountRedirect }
    match loadLoop g (word 1).toNat
        (fun i => ⟨(word (3 + 2 * i)).toNat, (word (4 + 2 * i)).toNat⟩)
        g.redirBlocks 0 g.redirTop s with
    | none => none
    | some (rindex, s) =>
        some (if rindex = (word 2).toNat then 0 else 1,
          { r.device with bbm := { s with assignIndex := rindex } })

/-- The device after a power cycle. -/
def Device.reboot (d : Device) : Device :=
  { Device.powerOn with flash := d.flash }

/-- The map is saved without an error, and loading it after a power cycle
succeeds and gives it back. -/
def RoundTrips (saving loading : ChipBehaviour) (d : Device) : Prop :=
  ∃ saved loaded,
    nandBbmInfoSave g saving d = some (0, saved) ∧
    nandBbmInfoLoad g loading saved.reboot = some (0, loaded) ∧
    (∀ index, index < g.blocks →
      loaded.bbm.nandBbmBitmap index = d.bbm.nandBbmBitmap index) ∧
    loaded.bbm.assignIndex = d.bbm.assignIndex ∧
    loaded.bbm.bbCountData = d.bbm.bbCountData ∧
    loaded.bbm.bbCountRedirect = d.bbm.bbCountRedirect

/-- The chip does its part for the info block. -/
structure InfoBlockWorks : Prop where
  good : chip.blockBad (g.blockPos 0) = false
  unprotected : chip.writeProtected = false
  erases : ∀ tick, chip.eraseFails tick 0 = false
  programs : ∀ tick page, page < g.pagesPerBlock →
    chip.programFails tick page = false
  reads : ∀ page, page < g.pagesPerBlock → chip.misread page = none

variable {g chip}

/-! ### The buffer goes through the flash unchanged -/

/-- A good block whose translation is itself is erased where it is. -/
theorem eraseTurn_direct
    {d : Device} {block : Nat} (inside : block < g.blocks)
    (itself : d.bbm.translate block = block)
    (good : chip.blockBad (g.blockPos block) = false) :
    let erased := d.flash.eraseBlock g chip (block * g.pagesPerBlock)
    eraseTurn g chip d (block * g.pagesPerBlock) =
      (some erased.1,
        { d with
          flash := erased.2
          pagebuf := d.pagebuf.filter fun cached =>
            ¬ (block * g.pagesPerBlock ≤ cached ∧
              cached < block * g.pagesPerBlock + g.pagesPerBlock)
          sent := ChipCmd.erase (block * g.pagesPerBlock) :: d.sent }) := by
  have onChip := g.firstPage_lt inside
  have position := nandBbmAdjust_blockPos g d.bbm block
  rw [itself] at position
  have adjusted :
      nandBbmAdjustCheck g chip.blockBad d.bbm (g.blockPos block) =
        (g.blockPos block, d.bbm) := by
    rw [nandBbmAdjustCheck_of_good (fun _ => by rw [position]; exact good),
      position]
  have page :
      erasePage g chip d.bbm (block * g.pagesPerBlock) =
        (block * g.pagesPerBlock, d.bbm) := by
    rw [erasePage, g.shiftLeft_block, adjusted]
    split
    · simp only [g.blockPos_shiftRight, g.and_pagemask onChip]
    · rfl
  simp only [eraseTurn, page, g.shiftLeft_block, good, g.and_pagemask onChip,
    Bool.false_eq_true, if_false]

/-- A page of block zero that is written goes to that page. -/
private theorem adjustPage_infoBlock
    {s : Bbm} (targets : s.TargetsInside g) (itself : s.translate 0 = 0)
    {page : Nat} (inside : page < g.pagesPerBlock) :
    page < g.pages ∧ adjustPage g s page = page := by
  have onChip : page < g.pages := by
    have := g.page_lt_pages g.blocks_pos inside
    omega
  refine ⟨onChip, ?_⟩
  rw [adjustPage_eq targets onChip, Nat.div_eq_of_lt inside, itself,
    Nat.mod_eq_of_lt inside, Nat.zero_mul, Nat.zero_add]

theorem saveLoop_spec
    (works : InfoBlockWorks g chip) (buffer : Nat → Byte)
    (left page : Nat) (all : page + left = g.pagesPerBlock) (d : Device)
    (targets : d.bbm.TargetsInside g) (itself : d.bbm.translate 0 = 0)
    (blank : ∀ other, page ≤ other → other < g.pagesPerBlock →
      d.flash.data other = ⊤)
    (written : ∀ other, other < page →
      d.flash.data other = fun column =>
        buffer (other * g.writesize + column)) :
    ∃ saved, saveLoop g chip buffer left (page <<< g.pageShift) d = (0, saved) ∧
      ∀ other, other < g.pagesPerBlock →
        saved.flash.data other = fun column =>
          buffer (other * g.writesize + column) := by
  induction left generalizing page d with
  | zero => exact ⟨d, rfl, fun other inside => written other (by omega)⟩
  | succ left inductionHypothesis =>
      have inside : page < g.pagesPerBlock := by omega
      obtain ⟨onChip, direct⟩ := adjustPage_infoBlock targets itself inside
      obtain ⟨ret, device⟩ := nandWriteEcc_onePage d
        (fun column => buffer (page <<< g.pageShift + column)) works.unprotected
        onChip
      have position : page <<< g.pageShift = page * g.writesize :=
        Nat.shiftLeft_eq page _
      have next : page <<< g.pageShift + g.writesize =
          (page + 1) <<< g.pageShift := by
        rw [position, Nat.shiftLeft_eq, ← Geometry.writesize, Nat.add_mul,
          Nat.one_mul]
      rw [nandWritePage, direct] at ret device
      rw [Flash.programPage_of_works (works.programs _ _ inside)] at ret device
      simp only [Bool.false_eq_true, if_false] at ret device
      rw [saveLoop]
      simp only [ret, next, device, ne_eq, not_true_eq_false, if_false]
      apply inductionHypothesis (page + 1) (by omega)
      · exact targets
      · exact itself
      · intro other above below
        change Function.update d.flash.data page _ other = ⊤
        rw [Function.update_of_ne (by omega)]
        exact blank other (by omega) below
      · intro other below
        change Function.update d.flash.data page _ other = _
        by_cases here : other = page
        · subst here
          rw [Function.update_self, blank other (le_refl _) inside, program_top,
            position]
        · rw [Function.update_of_ne here]
          exact written other (by omega)

/-- A map that fits into the block is written to it. -/
theorem nandBbmInfoSave_spec
    (works : InfoBlockWorks g chip) {d : Device} (inv : ReserveInv g d.bbm)
    (clear : d.bbm.flagged 0 = false)
    (fits : 4 * (infoWords g d.bbm).length ≤ g.erasesize) :
    ∃ saved, nandBbmInfoSave g chip d = some (0, saved) ∧
      ∀ page, page < g.pagesPerBlock →
        saved.flash.data page = fun column =>
          bytesOfWords (infoWords g d.bbm) (page * g.writesize + column) := by
  have itself : d.bbm.translate 0 = 0 := Bbm.translate_of_not_flagged clear
  have turn := eraseTurn_direct g.blocks_pos itself works.good
  have addr : (EraseInfo.ofBlock g 0 g.blocks_pos).addr = g.blockPos 0 := rfl
  have one := nandEraseNand_block (d := d) g.blocks_pos addr rfl
    works.unprotected
  rw [turn, Nat.zero_mul, Nat.zero_add,
    Flash.eraseBlock_of_works (works.erases _)] at one
  obtain ⟨ret, device⟩ := one
  have erased := ret.mpr rfl
  obtain ⟨saved, loop, pages⟩ := saveLoop_spec works
    (bytesOfWords (infoWords g d.bbm)) g.pagesPerBlock 0 (Nat.zero_add _)
    (nandEraseNand g chip d (.ofBlock g 0 g.blocks_pos)).device
    (by rw [device]; exact inv.targetsInside) (by rw [device]; exact itself)
    (by
      rw [device]
      intro other above below
      exact if_pos ⟨above, by omega⟩)
    (fun other below => absurd below (Nat.not_lt_zero _))
  refine ⟨saved, ?_, pages⟩
  rw [Nat.zero_shiftLeft] at loop
  have noOverrun : ¬ g.erasesize < 4 * (infoWords g d.bbm).length := by omega
  simp only [nandBbmInfoSave, noOverrun, erased, loop, ne_eq,
    not_true_eq_false, if_false]

/-- A map that does not fit overruns the buffer. -/
theorem nandBbmInfoSave_overrun
    {d : Device} (overrun : g.erasesize < 4 * (infoWords g d.bbm).length) :
    nandBbmInfoSave g chip d = none :=
  if_pos overrun

/-- One whole page that is not in the page buffer. -/
private theorem readTurn_wholePage
    {len : Nat} {r : ReadState} (check : r.device.bbm.nandBbmCheck = false)
    (uncached : r.device.pagebuf = none) (column : r.col = 0)
    (more : g.writesize ≤ len - r.read) (onChip : r.realpage < g.pages)
    (readable : chip.misread r.realpage = none) :
    let next := readTurn g chip len r
    next.device.bbm = r.device.bbm ∧ next.device.flash = r.device.flash ∧
      next.device.pagebuf = none ∧ next.col = 0 ∧
      next.read = r.read + g.writesize ∧ next.realpage = r.realpage + 1 ∧
      next.eccFailed = r.eccFailed ∧
      ∀ k, next.buf k =
        if r.read ≤ k ∧ k < r.read + g.writesize then
          r.device.flash.data r.realpage (k - r.read)
        else r.buf k := by
  have direct : adjustPage g r.device.bbm (r.realpage &&& g.pagemask) =
      r.realpage := by
    rw [g.and_pagemask onChip, adjustPage, nandBbmAdjust, check, Bool.false_and,
      if_neg (by simp), Nat.shiftLeft_shiftRight, g.and_pagemask onChip]
  have aligned : r.col = 0 ∧ g.writesize ≤ len - r.read := ⟨column, more⟩
  simp only [readTurn, direct, aligned, and_self, if_true, uncached, readable,
    Option.getD_none, Nat.zero_add]
  simp

private theorem readLoop_wholeBlock
    (works : InfoBlockWorks g chip) (left turns : Nat) (enough : left ≤ turns)
    (r : ReadState) (check : r.device.bbm.nandBbmCheck = false)
    (uncached : r.device.pagebuf = none) (column : r.col = 0)
    (position : r.read = r.realpage * g.writesize)
    (all : r.realpage + left = g.pagesPerBlock) (clean : r.eccFailed = 0)
    (sofar : ∀ k, k < r.read → r.buf k =
      r.device.flash.data (k / g.writesize) (k % g.writesize)) :
    let done := readLoop g chip g.erasesize turns r
    done.eccFailed = 0 ∧ done.device.bbm = r.device.bbm ∧
      ∀ k, k < g.erasesize → done.buf k =
        r.device.flash.data (k / g.writesize) (k % g.writesize) := by
  have whole := g.pagesPerBlock_mul_writesize
  induction left generalizing turns r with
  | zero =>
      have finished : ¬ r.read < g.erasesize := by
        rw [Nat.add_zero] at all
        rw [position, all, whole]
        omega
      have stop : readLoop g chip g.erasesize turns r = r := by
        cases turns with
        | zero => rfl
        | succ turns => rw [readLoop, if_neg finished]
      rw [stop]
      exact ⟨clean, rfl, fun k inside => sofar k (by omega)⟩
  | succ left inductionHypothesis =>
      obtain ⟨turns, rfl⟩ : ∃ fewer, turns = fewer + 1 :=
        ⟨turns - 1, by omega⟩
      have inside : r.realpage < g.pagesPerBlock := by omega
      have room : (r.realpage + 1) * g.writesize ≤ g.erasesize := by
        rw [← whole]
        exact Nat.mul_le_mul_right _ inside
      rw [Nat.add_mul, Nat.one_mul] at room
      have more : r.read < g.erasesize := by
        have := g.writesize_pos
        omega
      have onChip : r.realpage < g.pages := by
        have := g.page_lt_pages g.blocks_pos inside
        omega
      obtain ⟨bbm, flash, pagebuf, col, read, realpage, eccFailed, buf⟩ :=
        readTurn_wholePage check uncached column
          (by omega : g.writesize ≤ g.erasesize - r.read) onChip
          (works.reads _ inside)
      rw [readLoop, if_pos more, ← bbm, ← flash]
      apply inductionHypothesis turns (by omega)
      · rw [bbm, check]
      · exact pagebuf
      · exact col
      · rw [read, realpage, position, Nat.add_mul, Nat.one_mul]
      · omega
      · rw [eccFailed, clean]
      · intro k below
        rw [buf, flash]
        by_cases here : r.read ≤ k
        · have pageOf : k / g.writesize = r.realpage :=
            Nat.div_eq_of_lt_le (by omega) (by rw [Nat.add_mul]; omega)
          have columnOf : k % g.writesize = k - r.read := by
            rw [Nat.mod_eq_sub, pageOf, position, Nat.mul_comm]
          rw [if_pos ⟨here, by omega⟩, pageOf, columnOf]
        · rw [if_neg (fun both => here both.1)]
          exact sofar k (by omega)

/-- Reading the info block right after a power cycle. -/
theorem nandReadEcc_infoBlock
    (works : InfoBlockWorks g chip) (d : Device) (buf : Nat → Byte) :
    let r := nandReadEcc g chip d.reboot 0 g.erasesize buf
    r.ret = 0 ∧ r.device.bbm = Bbm.boot ∧
      ∀ k, k < g.erasesize →
        r.buf k = d.flash.data (k / g.writesize) (k % g.writesize) := by
  have fits : ¬ g.size < 0 + g.erasesize := by
    have := g.erasesize_le_size
    omega
  have enough : g.pagesPerBlock ≤ g.erasesize := by
    rw [← g.pagesPerBlock_mul_writesize]
    exact Nat.le_mul_of_pos_right _ g.writesize_pos
  obtain ⟨clean, bbm, bytes⟩ := readLoop_wholeBlock works g.pagesPerBlock
    g.erasesize enough
    { device := d.reboot, buf := buf, read := 0, realpage := 0, col := 0,
      eccFailed := 0 }
    rfl rfl rfl (Nat.zero_mul _).symm (Nat.zero_add _) rfl
    (fun k below => absurd below (Nat.not_lt_zero k))
  simp only [nandReadEcc, fits, if_false, Nat.zero_shiftRight, Nat.zero_and]
  exact ⟨if_pos clean, bbm, bytes⟩

/-- The words of an info block as they are read back. -/
theorem infoBlock_words
    (works : InfoBlockWorks g chip) {d : Device} {words : List Word}
    (pages : ∀ page, page < g.pagesPerBlock →
      d.flash.data page = fun column =>
        bytesOfWords words (page * g.writesize + column))
    (position : Nat) (inBuffer : 4 * position + 4 ≤ g.erasesize) :
    wordOfBytes (nandReadEcc g chip d.reboot 0 g.erasesize fun _ => ⊥).buf position =
      words.getD position 0 := by
  obtain ⟨-, -, bytes⟩ := nandReadEcc_infoBlock works d (fun _ => ⊥)
  rw [← wordOfBytes_bytesOfWords]
  apply wordOfBytes_congr
  intro byte above below
  have inPage : byte / g.writesize < g.pagesPerBlock := by
    rw [Nat.div_lt_iff_lt_mul g.writesize_pos, g.pagesPerBlock_mul_writesize]
    omega
  rw [bytes byte (by omega), pages _ inPage]
  exact congrArg _ (Nat.div_add_mod' byte g.writesize)

/-! ### What is left to decode -/

/-- The map that the entries are loaded into. -/
def freshMap (g : Geometry) : Bbm :=
  { Bbm.boot with
    nandBbmBitmap := fun index =>
      if index < g.blocks then BitVec.ofNat 32 index else 0 }

/-- The entries as they are read back; behind the last one the buffer is
zero. -/
def savedMaps (g : Geometry) (s : Bbm) (i : Nat) : MapInfo :=
  (infoMaps g s).getD i ⟨0, 0⟩

private theorem loadLoop_congr
    {bbCount : Nat} {first second : Nat → MapInfo}
    (same : ∀ i, 4 * (5 + 2 * i) ≤ g.erasesize → first i = second i)
    (turns i rindex : Nat) (s : Bbm) :
    loadLoop g bbCount first turns i rindex s =
      loadLoop g bbCount second turns i rindex s := by
  induction turns generalizing i rindex s with
  | zero => rfl
  | succ turns inductionHypothesis =>
      rw [loadLoop, loadLoop]
      split
      · rfl
      · split
        · rfl
        · rename_i inBuffer
          rw [same i (by omega)]
          cases loadEntry g (second i) rindex s with
          | none => rfl
          | some s => exact inductionHypothesis _ _ _

/-- Entries hold block numbers of the device. -/
theorem infoMaps_lt
    {s : Bbm} (targets : s.TargetsInside g) {entry : MapInfo}
    (member : entry ∈ infoMaps g s) :
    entry.bbIndex < g.blocks ∧ entry.relocIndex < g.blocks ∧
      s.flagged entry.bbIndex = true ∧
      entry.relocIndex = s.target entry.bbIndex := by
  rw [infoMaps_eq, List.mem_map] at member
  obtain ⟨index, selected, rfl⟩ := member
  rw [List.mem_filter] at selected
  have inside : index < g.blocks := by
    by_cases aligned : g.Aligned
    · exact List.mem_range.mp
        ((mapIndices_perm aligned).mem_iff.mp selected.1)
    · have covered :=
        (mapIndices_perm_of_not_aligned aligned).mem_iff.mp selected.1
      rw [List.mem_cons, List.mem_range] at covered
      have := g.blocks_pos
      omega
  exact ⟨inside, targets index inside, selected.2, rfl⟩

private theorem toNat_ofNat {value : Nat} (small : value < g.blocks) :
    (BitVec.ofNat 32 value : Word).toNat = value := by
  have := g.blocks_lt
  rw [BitVec.toNat_ofNat, Nat.mod_eq_of_lt (by omega)]

/-- The words of the block give the entries back. -/
private theorem entry_of_words
    {s : Bbm} (targets : s.TargetsInside g) (i : Nat) :
    (⟨((infoWords g s).getD (3 + 2 * i) 0).toNat,
        ((infoWords g s).getD (4 + 2 * i) 0).toNat⟩ : MapInfo) =
      savedMaps g s i := by
  rw [savedMaps]
  cases found : (infoMaps g s)[i]? with
  | some entry =>
      obtain ⟨bb, reloc⟩ := infoWords_entry found
      obtain ⟨bbInside, relocInside, -, -⟩ :=
        infoMaps_lt targets (List.mem_of_getElem? found)
      rw [bb, reloc, toNat_ofNat bbInside, toNat_ofNat relocInside,
        List.getD_eq_getElem?_getD, found, Option.getD_some]
  | none =>
      have beyond := List.getElem?_eq_none_iff.mp found
      have length := infoWords_length g s
      rw [List.getD_eq_default _ _ (by omega), List.getD_eq_default _ _ (by omega),
        List.getD_eq_default _ _ beyond]
      rfl

/-- Loading a block that holds the words of a map. -/
theorem nandBbmInfoLoad_spec
    (works : InfoBlockWorks g chip) {s : Bbm} (targets : s.TargetsInside g)
    (counts : s.bbCountData + s.bbCountRedirect < 2 ^ 32)
    (cursor : s.assignIndex < 2 ^ 32) {saved : Device}
    (pages : ∀ page, page < g.pagesPerBlock →
      saved.flash.data page = fun column =>
        bytesOfWords (infoWords g s) (page * g.writesize + column)) :
    ∃ d : Device, nandBbmInfoLoad g chip saved.reboot =
      match loadLoop g (s.bbCountData + s.bbCountRedirect) (savedMaps g s)
          g.redirBlocks 0 g.redirTop (freshMap g) with
      | none => none
      | some (rindex, loaded) =>
          some (if rindex = s.assignIndex then 0 else 1,
            { d with bbm := { loaded with assignIndex := rindex } }) := by
  obtain ⟨ret, bbm, bytes⟩ :=
    nandReadEcc_infoBlock works saved (fun _ => ⊥)
  refine ⟨(nandReadEcc g chip saved.reboot 0 g.erasesize fun _ => ⊥).device, ?_⟩
  have word := @infoBlock_words g chip works saved (infoWords g s) pages
  have header : 2 ^ 12 ≤ g.erasesize :=
    Nat.pow_le_pow_right (by decide) g.physEraseShift_ge
  have magic := word 0 (by omega)
  have count := word 1 (by omega)
  have assign := word 2 (by omega)
  have magicEq : (infoWords g s).getD 0 0 = bbmMagic := rfl
  have countEq : ((infoWords g s).getD 1 0).toNat =
      s.bbCountData + s.bbCountRedirect := by
    change (BitVec.ofNat 32 (s.bbCountData + s.bbCountRedirect)).toNat = _
    rw [BitVec.toNat_ofNat, Nat.mod_eq_of_lt counts]
  have assignEq : ((infoWords g s).getD 2 0).toNat = s.assignIndex := by
    change (BitVec.ofNat 32 s.assignIndex).toNat = _
    rw [BitVec.toNat_ofNat, Nat.mod_eq_of_lt cursor]
  rw [magicEq] at magic
  rw [nandBbmInfoLoad]
  simp only [ret, magic, count, countEq, assign, assignEq, bbm, ne_eq,
    not_true_eq_false, if_false]
  have entries : ∀ i, 4 * (5 + 2 * i) ≤ g.erasesize →
      (⟨(wordOfBytes (nandReadEcc g chip saved.reboot 0 g.erasesize
            fun _ => ⊥).buf (3 + 2 * i)).toNat,
          (wordOfBytes (nandReadEcc g chip saved.reboot 0 g.erasesize
            fun _ => ⊥).buf (4 + 2 * i)).toNat⟩ : MapInfo) =
        savedMaps g s i := by
    intro i inBuffer
    rw [word _ (by omega), word _ (by omega), entry_of_words targets]
  rw [loadLoop_congr entries]
  rfl

/-- The round trip succeeds when the map fits into the block and the loop over
its entries rebuilds it. -/
theorem roundTrips_iff
    {saving loading : ChipBehaviour} (saves : InfoBlockWorks g saving)
    (loads : InfoBlockWorks g loading) {d : Device}
    (inv : ReserveInv g d.bbm) (clear : d.bbm.flagged 0 = false)
    (counts : d.bbm.bbCountData + d.bbm.bbCountRedirect < 2 ^ 32) :
    RoundTrips g saving loading d ↔
      4 * (infoWords g d.bbm).length ≤ g.erasesize ∧
      ∃ loaded,
        loadLoop g (d.bbm.bbCountData + d.bbm.bbCountRedirect)
            (savedMaps g d.bbm) g.redirBlocks 0 g.redirTop (freshMap g) =
          some (d.bbm.assignIndex, loaded) ∧
        (∀ index, index < g.blocks →
          loaded.nandBbmBitmap index = d.bbm.nandBbmBitmap index) ∧
        loaded.bbCountData = d.bbm.bbCountData ∧
        loaded.bbCountRedirect = d.bbm.bbCountRedirect := by
  by_cases overrun : g.erasesize < 4 * (infoWords g d.bbm).length
  · constructor
    · rintro ⟨saved, loaded, save, -⟩
      rw [nandBbmInfoSave_overrun overrun] at save
      exact absurd save (by simp)
    · rintro ⟨fits, -⟩
      omega
  · have fits : 4 * (infoWords g d.bbm).length ≤ g.erasesize := by omega
    have cursor : d.bbm.assignIndex < 2 ^ 32 := by
      have := inv.cursor_le
      have := redirTop_lt_pow g
      omega
    obtain ⟨saved, save, pages⟩ := nandBbmInfoSave_spec saves inv clear fits
    obtain ⟨after, load⟩ :=
      nandBbmInfoLoad_spec loads inv.targetsInside counts cursor pages
    constructor
    · rintro ⟨saved', loaded, save', load', bitmap, assign, data, redirect⟩
      rw [save, Option.some.injEq, Prod.mk.injEq] at save'
      rw [← save'.2, load] at load'
      refine ⟨fits, ?_⟩
      cases loop : loadLoop g (d.bbm.bbCountData + d.bbm.bbCountRedirect)
          (savedMaps g d.bbm) g.redirBlocks 0 g.redirTop (freshMap g) with
      | none =>
          rw [loop] at load'
          exact absurd load' (by simp)
      | some finished =>
          obtain ⟨rindex, map⟩ := finished
          rw [loop] at load'
          simp only [Option.some.injEq, Prod.mk.injEq] at load'
          obtain ⟨ret, rfl⟩ := load'
          simp only at bitmap assign data redirect
          exact ⟨map, by rw [assign], bitmap, data, redirect⟩
    · rintro ⟨-, loaded, loop, bitmap, data, redirect⟩
      simp only [loop, if_true] at load
      exact ⟨saved, _, save, load, bitmap, rfl, data, redirect⟩

end Gp2Firmware.UBoot
