import Gp2Firmware.UBoot.NandBase
import Mathlib.Algebra.Group.Nat.Defs

/-!
# Erase, read and write of one logical block

Reads and writes look a block up once; an erase looks it up, and when the
block it finds is bad it records a new reserve block for that one.  The three
agree on the physical block until a block that stands in for another goes bad
itself.
-/

namespace Gp2Firmware.UBoot

open Gp2Firmware.Nand

/-- The range lies in one block. -/
def WithinBlock (g : Geometry) (block ofs len : Nat) : Prop :=
  g.blockPos block ≤ ofs ∧ ofs + len ≤ g.blockPos (block + 1)

/-- The erase of a block that led from `before` to `after` went to one good
physical block, and from then on every read and write within the block goes to
the same page of that physical block. -/
def EraseAgrees (g : Geometry) (chip : ChipBehaviour)
    (before after : Device) (block : Nat) : Prop :=
  ∃ physical,
    physical < g.blocks ∧
    chip.blockBad (g.blockPos physical) = false ∧
    after.sent = ChipCmd.erase (physical * g.pagesPerBlock) :: before.sent ∧
    ∀ later ofs len buf, WithinBlock g block ofs len →
      (∃ new, (nandReadEcc g later after ofs len buf).device.sent =
          new ++ after.sent ∧
        ∀ cmd ∈ new, ∃ page, ofs < (page + 1) * g.writesize ∧
          page * g.writesize < ofs + len ∧
          cmd = ChipCmd.read0
            (physical * g.pagesPerBlock + page % g.pagesPerBlock)) ∧
      ∃ new, (nandWriteEcc g later after ofs len buf).device.sent =
          new ++ after.sent ∧
        ∀ cmd ∈ new, ∃ page, ofs < (page + 1) * g.writesize ∧
          page * g.writesize < ofs + len ∧
          cmd = ChipCmd.seqin
            (physical * g.pagesPerBlock + page % g.pagesPerBlock)

variable {g : Geometry} {chip : ChipBehaviour}

/-! ### Where reads and writes go -/

private theorem readTurn_sent
    (g : Geometry) (chip : ChipBehaviour) (len : Nat) (r : ReadState) :
    (readTurn g chip len r).device.sent = r.device.sent ∨
      (readTurn g chip len r).device.sent =
        ChipCmd.read0
          (adjustPage g r.device.bbm (r.realpage &&& g.pagemask)) ::
          r.device.sent := by
  simp only [readTurn]
  split
  · exact Or.inl rfl
  · exact Or.inr rfl

/-- Where a `nand_read_ecc` loop stands in the range it reads, which ends at
`finish`. -/
private def Reads (g : Geometry) (finish len : Nat) (r : ReadState) : Prop :=
  r.col < g.writesize ∧
    (r.read < len → r.realpage * g.writesize + r.col + (len - r.read) = finish)

private theorem reads_readTurn
    (chip : ChipBehaviour) {finish len : Nat} {r : ReadState} (reads : Reads g finish len r)
    (more : r.read < len) :
    Reads g finish len (readTurn g chip len r) := by
  obtain ⟨column, position⟩ := reads
  have here := position more
  refine ⟨g.writesize_pos, ?_⟩
  simp only [readTurn, Nat.add_mul, Nat.one_mul]
  split
  · intro still
    omega
  · intro still
    omega

theorem readLoop_sent
    (chip : ChipBehaviour) {finish len : Nat} (turns : Nat) {r : ReadState}
    (reads : Reads g finish len r) :
    ∃ new, (readLoop g chip len turns r).device.sent = new ++ r.device.sent ∧
      ∀ cmd ∈ new, ∃ page, r.realpage ≤ page ∧
        page * g.writesize < finish ∧
        cmd = ChipCmd.read0
          (adjustPage g r.device.bbm (page &&& g.pagemask)) := by
  induction turns generalizing r with
  | zero => exact ⟨[], rfl, by simp⟩
  | succ turns inductionHypothesis =>
      rw [readLoop]
      split
      · rename_i more
        obtain ⟨new, sent, pages⟩ :=
          inductionHypothesis (reads_readTurn chip reads more)
        have further : ∀ cmd ∈ new, ∃ page, r.realpage ≤ page ∧
            page * g.writesize < finish ∧
            cmd = ChipCmd.read0
              (adjustPage g r.device.bbm (page &&& g.pagemask)) := by
          intro cmd member
          obtain ⟨page, above, below, cmdEq⟩ := pages cmd member
          have next : (readTurn g chip len r).realpage = r.realpage + 1 := rfl
          exact ⟨page, by omega, below, cmdEq⟩
        rw [sent]
        rcases readTurn_sent g chip len r with same | one
        · exact ⟨new, by rw [same], further⟩
        · refine ⟨new ++ [_], by rw [one, List.append_assoc]; rfl, ?_⟩
          intro cmd member
          rw [List.mem_append, List.mem_singleton] at member
          rcases member with old | rfl
          · exact further cmd old
          · have here := reads.2 more
            exact ⟨r.realpage, le_refl _, by omega, rfl⟩
      · exact ⟨[], rfl, by simp⟩

/-- The next page, wrapped or not, as long as it is on the chip. -/
private theorem next_page {page : Nat} (inside : page + 1 < g.pages) :
    (page + 1) &&& g.pagemask = page + 1 :=
  g.and_pagemask inside

theorem writeLoop_sent
    (chip : ChipBehaviour) (buf : Nat → Byte) (left page written retlen : Nat) (d : Device)
    (inside : page + left ≤ g.pages) :
    ∃ new, (writeLoop g chip buf left page written retlen d).device.sent =
        new ++ d.sent ∧
      ∀ cmd ∈ new, ∃ target, page ≤ target ∧ target < page + left ∧
        cmd = ChipCmd.seqin (adjustPage g d.bbm target) := by
  induction left generalizing page written retlen d with
  | zero => exact ⟨[], rfl, by simp⟩
  | succ left inductionHypothesis =>
      -- the first page, and whatever the rest of the loop sends
      have first : ∀ rest : WriteResult,
          (∃ new, rest.device.sent =
              new ++ ChipCmd.seqin (adjustPage g d.bbm page) :: d.sent ∧
            ∀ cmd ∈ new, ∃ target, page + 1 ≤ target ∧
              target < page + 1 + left ∧
              cmd = ChipCmd.seqin (adjustPage g d.bbm target)) →
          ∃ new, rest.device.sent = new ++ d.sent ∧
            ∀ cmd ∈ new, ∃ target, page ≤ target ∧ target < page + (left + 1) ∧
              cmd = ChipCmd.seqin (adjustPage g d.bbm target) := by
        rintro rest ⟨new, sent, pages⟩
        refine ⟨new ++ [ChipCmd.seqin (adjustPage g d.bbm page)],
          by rw [sent, List.append_assoc]; rfl, ?_⟩
        intro cmd member
        rw [List.mem_append, List.mem_singleton] at member
        rcases member with later | rfl
        · obtain ⟨target, above, below, cmdEq⟩ := pages cmd later
          exact ⟨target, by omega, by omega, cmdEq⟩
        · exact ⟨page, le_refl _, by omega, rfl⟩
      simp only [writeLoop]
      apply first
      split
      · exact ⟨[], rfl, by simp⟩
      · rcases Nat.eq_zero_or_pos left with last | more
        · subst last
          split <;> exact ⟨[], rfl, by simp⟩
        · rw [next_page (by omega)]
          split <;>
            exact inductionHypothesis (page + 1) _ _ _ (by omega)

/-! ### Pages of a block -/

private theorem page_of_ofs
    {block ofs len : Nat} (inside : block < g.blocks)
    (within : WithinBlock g block ofs len) {page : Nat}
    (above : ofs >>> g.pageShift ≤ page)
    (below : page * g.writesize < ofs + len) :
    page < g.pages ∧ page / g.pagesPerBlock = block ∧
      ofs < (page + 1) * g.writesize := by
  obtain ⟨start, finish⟩ := within
  have positive := g.writesize_pos
  have whole := g.pagesPerBlock_mul_writesize
  rw [g.blockPos_eq, ← whole, ← Nat.mul_assoc] at start finish
  rw [g.shiftRight_pageShift] at above
  have low : block * g.pagesPerBlock ≤ page :=
    le_trans ((Nat.le_div_iff_mul_le positive).mpr start) above
  have high : page < (block + 1) * g.pagesPerBlock :=
    Nat.lt_of_mul_lt_mul_right (lt_of_lt_of_le below finish)
  have total : (block + 1) * g.pagesPerBlock ≤ g.blocks * g.pagesPerBlock :=
    Nat.mul_le_mul_right _ inside
  refine ⟨?_, ?_, ?_⟩
  · rw [← g.blocks_mul_pagesPerBlock]
    exact lt_of_lt_of_le high total
  · exact Nat.div_eq_of_lt_le low high
  · exact (Nat.div_lt_iff_lt_mul positive).mp (Nat.lt_succ_of_le above)

/-- What reads and writes of a block do, for any map that leads inside the
chip. -/
theorem access_sent
    {d : Device} (targets : d.bbm.TargetsInside g) {block : Nat}
    (inside : block < g.blocks) (later : ChipBehaviour) {ofs len : Nat}
    (buf : Nat → Byte) (within : WithinBlock g block ofs len) :
    (∃ new, (nandReadEcc g later d ofs len buf).device.sent = new ++ d.sent ∧
      ∀ cmd ∈ new, ∃ page, ofs < (page + 1) * g.writesize ∧
        page * g.writesize < ofs + len ∧
        cmd = ChipCmd.read0
          (d.bbm.translate block * g.pagesPerBlock +
            page % g.pagesPerBlock)) ∧
    ∃ new, (nandWriteEcc g later d ofs len buf).device.sent = new ++ d.sent ∧
      ∀ cmd ∈ new, ∃ page, ofs < (page + 1) * g.writesize ∧
        page * g.writesize < ofs + len ∧
        cmd = ChipCmd.seqin
          (d.bbm.translate block * g.pagesPerBlock +
            page % g.pagesPerBlock) := by
  constructor
  · rw [nandReadEcc]
    split
    · exact ⟨[], rfl, by simp⟩
    · have reads : Reads g (ofs + len) len
          { device := d, buf := buf, read := 0,
            realpage := ofs >>> g.pageShift,
            col := ofs &&& (g.writesize - 1), eccFailed := 0 } := by
        have split := Nat.div_add_mod' ofs g.writesize
        rw [Reads, g.and_writesize, g.shiftRight_pageShift]
        refine ⟨Nat.mod_lt _ g.writesize_pos, fun _ => ?_⟩
        change ofs / g.writesize * g.writesize + ofs % g.writesize + (len - 0) = _
        omega
      obtain ⟨new, sent, pages⟩ :=
        readLoop_sent later len reads
      refine ⟨new, sent, fun cmd member => ?_⟩
      obtain ⟨page, above, below, cmdEq⟩ := pages cmd member
      obtain ⟨onChip, inBlock, reached⟩ :=
        page_of_ofs inside within above below
      refine ⟨page, reached, below, ?_⟩
      rw [cmdEq, g.and_pagemask onChip, adjustPage_eq targets onChip, inBlock]
  · simp only [nandWriteEcc]
    split
    · exact ⟨[], rfl, by simp⟩
    · split
      · exact ⟨[], rfl, by simp⟩
      · split
        · exact ⟨[], rfl, by simp⟩
        · rename_i beyond notAligned _
          rw [not_or, not_not, not_not, g.and_writesize, g.and_writesize]
            at notAligned
          obtain ⟨ofsAligned, lenAligned⟩ := notAligned
          have ofsEq := Nat.div_mul_cancel (Nat.dvd_of_mod_eq_zero ofsAligned)
          have lenEq := Nat.div_mul_cancel (Nat.dvd_of_mod_eq_zero lenAligned)
          have total := g.pages_mul_writesize
          rw [g.shiftRight_pageShift, g.shiftRight_pageShift]
          rcases Nat.eq_zero_or_pos (len / g.writesize) with nothing | some
          · rw [nothing]
            exact ⟨[], rfl, by simp⟩
          · have enough :
                (ofs / g.writesize + len / g.writesize) * g.writesize ≤
                  g.pages * g.writesize := by
              rw [Nat.add_mul]
              omega
            have last := Nat.le_of_mul_le_mul_right enough g.writesize_pos
            have onChip : ofs / g.writesize < g.pages := by omega
            rw [g.and_pagemask onChip]
            obtain ⟨new, sent, pages⟩ :=
              writeLoop_sent later buf (len / g.writesize)
                (ofs / g.writesize) 0 0 { d with pagebuf := _ } last
            refine ⟨new, sent, fun cmd member => ?_⟩
            obtain ⟨page, above, below, cmdEq⟩ := pages cmd member
            have covered : page * g.writesize < ofs + len := by
              have step := Nat.mul_lt_mul_of_pos_right below g.writesize_pos
              rw [Nat.add_mul] at step
              omega
            obtain ⟨onChip, inBlock, reached⟩ :=
              page_of_ofs inside within
                (by rw [g.shiftRight_pageShift]; exact above) covered
            refine ⟨page, reached, covered, ?_⟩
            rw [cmdEq, adjustPage_eq targets onChip, inBlock]

/-! ### The agreement -/

/-- The agreement is a matter of where the block translates to afterwards. -/
private theorem eraseAgrees_iff_translate
    {before after : Device} (targets : after.bbm.TargetsInside g)
    {block physical : Nat} (inside : block < g.blocks)
    (onChip : physical < g.blocks)
    (good : chip.blockBad (g.blockPos physical) = false)
    (sent : after.sent =
      ChipCmd.erase (physical * g.pagesPerBlock) :: before.sent) :
    EraseAgrees g chip before after block ↔
      after.bbm.translate block = physical := by
  have positive := g.pagesPerBlock_pos
  constructor
  · rintro ⟨named, -, -, namedSent, access⟩
    have same : named = physical := by
      rw [sent, List.cons.injEq, ChipCmd.erase.injEq] at namedSent
      exact (Nat.eq_of_mul_eq_mul_right positive namedSent.1).symm
    have within : WithinBlock g block (g.blockPos block) g.writesize := by
      refine ⟨le_refl _, ?_⟩
      have page := Nat.mul_le_mul_right g.writesize positive
      rw [g.pagesPerBlock_mul_writesize] at page
      rw [g.blockPos_eq, g.blockPos_eq, Nat.add_mul]
      omega
    obtain ⟨-, new, written, pages⟩ := access ChipBehaviour.sound
      (g.blockPos block) g.writesize (fun _ => ⊥) within
    have unprotected : ChipBehaviour.sound.writeProtected = false := rfl
    have first :=
      (nandWriteEcc_onePage after (fun _ => ⊥) unprotected
        (g.firstPage_lt inside)).2
    rw [← g.shiftLeft_block, first, nandWritePage, ← List.singleton_append,
      List.append_cancel_right_eq] at written
    obtain ⟨page, -, -, cmd⟩ := pages _ (written ▸ List.mem_singleton_self _)
    rw [ChipCmd.seqin.injEq, adjustPage_eq targets (g.firstPage_lt inside),
      Nat.mul_mod_left, Nat.mul_div_cancel _ positive, Nat.add_zero, same] at cmd
    have column := Nat.mod_lt page positive
    have block := congrArg (· / g.pagesPerBlock) cmd
    simp only [Nat.mul_div_cancel _ positive] at block
    rw [block, Nat.add_comm, Nat.add_mul_div_right _ _ positive,
      Nat.div_eq_of_lt column, Nat.zero_add]
  · rintro translated
    refine ⟨physical, onChip, good, sent, ?_⟩
    intro later ofs len buf within
    have access := access_sent targets inside later buf within
    rwa [translated] at access

/-- The lookup after an erase that recorded a reserve block. -/
private theorem translate_after_assign
    {s : Bbm} (inv : ReserveInv g s) {blockBad : Nat → Bool} {reserve : Nat}
    (found : reserveFor g blockBad s.assignIndex = some reserve)
    (bad block : Nat) :
    ((s.assigned bad reserve).setCheck true).translate block =
      if block = bad then reserve
      else if s.flagged block = true then s.target block
      else if reserve < block ∧ block ≤ s.assignIndex then s.target block
      else block := by
  have small := reserve_lt_pow inv.cursor_le found
  rw [Bbm.translate]
  simp only [Bbm.nandBbmCheck_setCheck, Bbm.flagged_setCheck,
    Bbm.target_setCheck, s.target_assigned _ _ small, Bbm.flagged_assigned,
    Bool.true_and, Bool.or_eq_true, decide_eq_true_eq]
  split_ifs <;> simp_all

/-- After a successful erase of a block, reads and writes of it go to the
block erased, and that block is good, exactly when the erase did not meet a
bad block standing in for another. -/
theorem eraseAgreement_iff
    (g : Geometry) (start : Device) (ops : List Operation)
    (chip : ChipBehaviour) (block : Nat) (inside : block < g.blocks)
    (instr : EraseInfo) (addr : instr.addr = g.blockPos block)
    (len : instr.len = g.erasesize) :
    let before := (start.infoInit g).run g ops
    let erased := nandEraseNand g chip before instr
    erased.ret = 0 →
      (EraseAgrees g chip before erased.device block ↔
        ¬ (before.bbm.nandBbmCheck = true ∧ before.bbm.flagged block = true ∧
            before.bbm.target block ≠ block ∧
            chip.blockBad (g.blockPos (before.bbm.target block)) = true)) := by
  intro before erased success
  have inv : ReserveInv g before.bbm :=
    reserveInv_run (reserveInv_infoInit g start) ops
  have unprotected : chip.writeProtected = false :=
    Bool.eq_false_of_not_eq_true fun guarded =>
      nandEraseNand_protected before instr guarded success
  obtain ⟨retIff, device⟩ :=
    nandEraseNand_block (d := before) inside addr len unprotected
  obtain ⟨good, sent⟩ := eraseTurn_success inv inside (retIff.mp success)
  have bbm : erased.device.bbm =
      (nandBbmAdjustCheck g chip.blockBad before.bbm (g.blockPos block)).2 := by
    rw [show erased.device = _ from device, eraseTurn_bbm, g.shiftLeft_block]
  rw [← device] at sent
  have afterInv : ReserveInv g erased.device.bbm := by
    rw [bbm]
    exact reserveInv_adjustCheck inv _ _
  rw [eraseAgrees_iff_translate afterInv.targetsInside inside
    (eraseBlockOf_lt inv chip.blockBad inside) good sent, bbm]
  by_cases bad : before.bbm.nandBbmCheck = true ∧
      chip.blockBad (g.blockPos (before.bbm.translate block)) = true
  · -- the erase went to a new reserve block
    obtain ⟨check, bad⟩ := bad
    rw [eraseBlockOf, check, bad, Bool.true_and, if_pos rfl] at good ⊢
    rw [nandBbmAdjustCheck_of_bad check
        (by rw [nandBbmAdjust_blockPos]; exact bad),
      nandBbmAdjust_blockPos]
    cases found : reserveFor g chip.blockBad before.bbm.assignIndex with
    | none =>
        rw [found, Option.getD_none, bad] at good
        exact absurd good (by simp)
    | some reserve =>
        rw [found, Option.getD_some] at good
        rw [nandBbmAssignBlock_of_some found, Option.getD_some,
          g.blockIndex_blockPos, translate_after_assign inv found]
        by_cases itself : block = before.bbm.translate block
        · rw [if_pos itself]
          refine ⟨fun _ => ?_, fun _ => rfl⟩
          rintro ⟨-, flagged, moved, -⟩
          rw [Bbm.translate_of_check check flagged] at itself
          exact moved itself.symm
        · have flagged : before.bbm.flagged block = true := by
            by_contra clear
            exact itself (Bbm.translate_of_not_flagged
              (Bool.eq_false_of_not_eq_true clear)).symm
          rw [if_neg itself, if_pos flagged]
          rw [Bbm.translate_of_check check flagged] at bad itself
          constructor
          · intro same
            rw [same, good] at bad
            exact absurd bad (by simp)
          · intro none
            exact absurd ⟨rfl, flagged, Ne.symm itself, bad⟩ none
  · -- the erase went to the block that reads and writes go to
    have kept : before.bbm.nandBbmCheck = true →
        chip.blockBad (g.blockPos (before.bbm.translate block)) = false :=
      fun check => Bool.eq_false_of_not_eq_true fun isBad => bad ⟨check, isBad⟩
    have direct : eraseBlockOf g chip.blockBad before.bbm block =
        before.bbm.translate block := by
      rw [eraseBlockOf, if_neg]
      rwa [Bool.and_eq_true]
    rw [direct, nandBbmAdjustCheck_of_good
      (by rw [nandBbmAdjust_blockPos]; exact kept)]
    refine ⟨fun _ => ?_, fun _ => rfl⟩
    rintro ⟨check, flagged, -, targetBad⟩
    rw [← Bbm.translate_of_check check flagged] at targetBad
    exact bad ⟨check, targetBad⟩

/-- Block 5 is redirected to block 1023, which then goes bad. -/
def standInWorn : List Operation :=
  [.setCheck true,
    .erase (.withBad nand128MiB [5]) (.ofBlock nand128MiB 5 (by decide : 5 < 1024))]

theorem eraseAgreement_iff_standInWorn :
    let before := (Device.powerOn.infoInit nand128MiB).run nand128MiB standInWorn
    let chip := ChipBehaviour.withBad nand128MiB [5, 1023]
    let erased := nandEraseNand nand128MiB chip before
      (.ofBlock nand128MiB 5 (by decide))
    erased.ret = 0 ∧
      (EraseAgrees nand128MiB chip before erased.device 5 ↔
        ¬ (before.bbm.nandBbmCheck = true ∧ before.bbm.flagged 5 = true ∧
            before.bbm.target 5 ≠ 5 ∧
            chip.blockBad
              (nand128MiB.blockPos (before.bbm.target 5)) = true)) :=
  ⟨by decide +kernel,
    eraseAgreement_iff nand128MiB Device.powerOn standInWorn
      (.withBad nand128MiB [5, 1023]) 5 (by decide)
      (.ofBlock nand128MiB 5 (by decide)) rfl rfl (by decide +kernel)⟩

/-- The erase of block 5 goes to block 1022; a write of its first page still
goes to block 1023. -/
theorem erase_missed_by_write :
    let before := (Device.powerOn.infoInit nand128MiB).run nand128MiB standInWorn
    let chip := ChipBehaviour.withBad nand128MiB [5, 1023]
    let erased := nandEraseNand nand128MiB chip before
      (.ofBlock nand128MiB 5 (by decide))
    erased.ret = 0 ∧
      erased.device.sent = ChipCmd.erase (1022 * 64) :: before.sent ∧
      (nandWriteEcc nand128MiB chip erased.device (nand128MiB.blockPos 5)
          nand128MiB.writesize fun _ => ⊥).device.sent =
        ChipCmd.seqin (1023 * 64) :: erased.device.sent ∧
      ¬ EraseAgrees nand128MiB chip before erased.device 5 := by
  intro before chip erased
  have inv : ReserveInv nand128MiB erased.device.bbm :=
    reserveInv_step
      (reserveInv_run (reserveInv_infoInit nand128MiB Device.powerOn) standInWorn)
      (Operation.erase chip _)
  have sent : erased.device.sent = ChipCmd.erase (1022 * 64) :: before.sent := by
    decide +kernel
  refine ⟨by decide +kernel, sent, by decide +kernel, ?_⟩
  rw [eraseAgrees_iff_translate inv.targetsInside (by decide) (by decide)
    (by decide +kernel) sent]
  decide +kernel

end Gp2Firmware.UBoot
