import Gp2Firmware.Linux.NandBase
import Gp2Firmware.Nand.FactoryScan
import Gp2Firmware.UBoot.NandBase

/-!
# The two builders of a fresh map

`nand_bbm_info_setup` of the boot loader and of the kernel.  The boot loader
keeps the position it asks about apart from the one that is assigned to it;
the kernel's loops go on behind the reserve block they were given.  Once the
first bad block has switched translation on, asking redirects without an
answer of "bad", so a kernel loop jumps once at most.
-/

namespace Gp2Firmware.UBoot

open Gp2Firmware.Nand

variable (g : Geometry) (chip : ChipBehaviour)

/-- One turn of the loop of `nand_bbm_info_setup`. -/
def setupTurn (d : Device) (ofs : Nat) : Device :=
  let asked := nandBlockIsbad g chip d ofs
  if asked.1 ≠ 0 then
    { asked.2 with
      bbm := (nandBbmAssignBlock g chip.blockBad asked.2.bbm ofs).2 }
  else asked.2

/-- `nand_bbm_info_setup`, which always returns zero. -/
def nandBbmInfoSetup (d : Device) : Device :=
  (mapPositions g).foldl (setupTurn g chip) d

end Gp2Firmware.UBoot

namespace Gp2Firmware.Linux

open Gp2Firmware.Nand
open Gp2Firmware.Lib

variable (g : Geometry) (layout : NandLayout) (chip : ChipBehaviour)

/-- One turn of a loop `for (ofs = start; ofs < stop; ofs += block_size)` of
`nand_bbm_info_setup`, whose body may set `ofs`. -/
def scanTurn (stop : Nat) (at_ : Nat × Device) : (Nat × Device) ⊕ Device :=
  if at_.1 < stop then
    let asked := nandBlockIsbad g chip at_.2 at_.1
    if asked.1 ≠ 0 then
      let assigned := nandBbmAssignBlock g layout chip asked.2 at_.1 false
      .inl (assigned.1 + g.erasesize, assigned.2)
    else .inl (at_.1 + g.erasesize, asked.2)
  else .inr at_.2

/-- `nand_bbm_info_setup`, every loop given up after a number of turns.  It
always returns zero. -/
def nandBbmInfoSetup (turns : Nat) (d : Device) : Option Device := do
  let d ← Loop.run (scanTurn g layout chip g.redirectStart) turns (bbmInfoSize, d)
  let d ← Loop.run (scanTurn g layout chip bbmInfoSize) turns (0, d)
  Loop.run (scanTurn g layout chip g.bbmRedirEnd) turns (g.redirectStart, d)

variable {g layout chip}

/-! ### The positions of a loop from one of them on -/

/-- The values of `ofs` in a loop that nothing disturbs. -/
def positionsFrom (g : Geometry) (start stop : Nat) : List Nat :=
  regionPositions g ⟨start, stop - start⟩

theorem positionsFrom_of_le {start stop : Nat} (le : stop ≤ start) :
    positionsFrom g start stop = [] := by
  have positive := g.erasesize_pos
  rw [positionsFrom, regionPositions, Nat.sub_eq_zero_of_le le, Nat.zero_add,
    Nat.div_eq_of_lt (by omega)]
  rfl

theorem positionsFrom_of_lt {start stop : Nat} (lt : start < stop) :
    positionsFrom g start stop =
      start :: positionsFrom g (start + g.erasesize) stop := by
  have positive := g.erasesize_pos
  have turns : (stop - start + g.erasesize - 1) / g.erasesize =
      (stop - (start + g.erasesize) + g.erasesize - 1) / g.erasesize + 1 := by
    by_cases last : stop ≤ start + g.erasesize
    · rw [Nat.sub_eq_zero_of_le last, Nat.zero_add,
        Nat.div_eq_of_lt (by omega : g.erasesize - 1 < g.erasesize),
        show stop - start + g.erasesize - 1 =
          stop - start - 1 + 1 * g.erasesize by omega,
        Nat.add_mul_div_right _ _ positive, Nat.div_eq_of_lt (by omega)]
    · rw [← Nat.add_div_right _ positive]
      congr 1
      omega
  rw [positionsFrom, positionsFrom, regionPositions, regionPositions, turns,
    List.range_succ_eq_map, List.map_cons, List.map_map]
  congr 1
  · simp only [Nat.zero_mul, Nat.add_zero]
  · apply List.map_congr_left
    intro turn _
    simp only [Function.comp_apply, Nat.succ_mul]
    omega

/-- Induction over the turns of a loop that runs up to `stop`. -/
theorem positions_induction (g : Geometry) (stop : Nat) {motive : Nat → Prop}
    (finished : ∀ start, stop ≤ start → motive start)
    (turn : ∀ start, start < stop → motive (start + g.erasesize) → motive start)
    (start : Nat) : motive start := by
  induction left : stop - start using Nat.strong_induction_on
    generalizing start with
  | _ left inductionHypothesis =>
      by_cases inside : start < stop
      · have positive := g.erasesize_pos
        apply turn start inside
        exact inductionHypothesis (stop - (start + g.erasesize)) (by omega) _ rfl
      · exact finished start (by omega)

theorem lt_of_mem_positionsFrom {start stop pos : Nat}
    (member : pos ∈ positionsFrom g start stop) : start ≤ pos ∧ pos < stop := by
  induction start using positions_induction g stop with
  | finished start le =>
      rw [positionsFrom_of_le le] at member
      cases member
  | turn start lt inductionHypothesis =>
      rw [positionsFrom_of_lt lt, List.mem_cons] at member
      cases member with
      | inl same => omega
      | inr later =>
          have bounds := inductionHypothesis later
          omega

/-- The positions behind one of the list are those of a loop started there. -/
theorem positionsFrom_after {start stop first : Nat} {before after : List Nat}
    (split : positionsFrom g start stop = before ++ first :: after) :
    after = positionsFrom g (first + g.erasesize) stop := by
  induction start using positions_induction g stop
    generalizing before with
  | finished start le =>
      rw [positionsFrom_of_le le] at split
      exact absurd split (by simp)
  | turn start lt inductionHypothesis =>
      rw [positionsFrom_of_lt lt] at split
      cases before with
      | nil =>
          rw [List.nil_append, List.cons.injEq] at split
          rw [← split.1, split.2]
      | cons head before =>
          rw [List.cons_append, List.cons.injEq] at split
          exact inductionHypothesis split.2

/-- A loop can be cut at any position it reaches. -/
theorem positionsFrom_append (g : Geometry) (start stop count : Nat)
    (within : start + count * g.erasesize ≤ stop) :
    positionsFrom g start stop =
      positionsFrom g start (start + count * g.erasesize) ++
        positionsFrom g (start + count * g.erasesize) stop := by
  have positive := g.erasesize_pos
  induction count generalizing start with
  | zero =>
      rw [Nat.zero_mul, Nat.add_zero, positionsFrom_of_le (le_refl start)]
      rfl
  | succ count inductionHypothesis =>
      rw [Nat.succ_mul] at within ⊢
      rw [positionsFrom_of_lt (by omega : start < stop),
        positionsFrom_of_lt
          (by omega : start < start + (count * g.erasesize + g.erasesize)),
        inductionHypothesis _ (by omega), List.cons_append]
      rw [show start + g.erasesize + count * g.erasesize =
        start + (count * g.erasesize + g.erasesize) by omega]

/-! ### Single turns -/

theorem nandBbmAdjustCheck_of_not_check
    {s : Bbm} (blockBad : Nat → Bool) (check : s.nandBbmCheck = false)
    (ofs : Nat) : nandBbmAdjustCheck g blockBad s ofs = (ofs, s) := by
  rw [nandBbmAdjustCheck, nandBbmAdjust, check]
  rfl

/-- `nand_block_isbad` of the boot loader on a position of the device. -/
theorem bootBlockIsbad_of_inside
    (d : UBoot.Device) {ofs : Nat} (inside : ofs < g.size) :
    UBoot.nandBlockIsbad g chip d ofs =
      (if chip.blockBad (nandBbmAdjustCheck g chip.blockBad d.bbm ofs).1 then 1
        else 0,
        { d with bbm := visit g chip.blockBad d.bbm ofs }) := by
  rw [UBoot.nandBlockIsbad, if_neg (Nat.not_lt_of_lt inside)]
  rfl

theorem nandBlockIsbad_of_inside
    (d : Device) {ofs : Nat} (inside : ofs < g.size) :
    nandBlockIsbad g chip d ofs =
      (if chip.blockBad (nandBbmAdjustCheck g chip.blockBad d.bbm ofs).1 then 1
        else 0,
        { d with bbm := visit g chip.blockBad d.bbm ofs }) := by
  rw [nandBlockIsbad, if_neg (Nat.not_lt_of_lt inside)]
  rfl

/-- Without a copy the kernel's assignment is the one of the boot loader. -/
theorem nandBbmAssignBlock_no_copy (d : Device) (badpos : Nat) :
    nandBbmAssignBlock g layout chip d badpos false =
      ((Nand.nandBbmAssignBlock g chip.blockBad d.bbm badpos).1,
        { d with
          bbm := (Nand.nandBbmAssignBlock g chip.blockBad d.bbm badpos).2 }) := by
  rw [nandBbmAssignBlock, Nand.nandBbmAssignBlock]
  rcases Nand.assignLoop g chip.blockBad badpos d.bbm.assignIndex
    (d.bbm.setCheck false) with ⟨_ | pos, s⟩
  · rfl
  · rfl

section Unmarked

variable (unmarked : GoodUnmarked g chip.blockBad)
  (suffice : ReservesSuffice g chip.blockBad)

include unmarked suffice

theorem setupTurn_checked
    {d : UBoot.Device} {done : Finset Nat}
    (redirected : Redirected g chip.blockBad d.bbm done)
    {ofs : Nat} (inside : ofs < g.size) :
    UBoot.setupTurn g chip d ofs =
      { d with bbm := visit g chip.blockBad d.bbm ofs } := by
  have good := (redirected.visit_step unmarked suffice inside).1
  simp only [UBoot.setupTurn, bootBlockIsbad_of_inside d inside, good]
  rfl

theorem setup_checked
    {d : UBoot.Device} {done : Finset Nat}
    (redirected : Redirected g chip.blockBad d.bbm done) (positions : List Nat)
    (inside : ∀ pos ∈ positions, pos < g.size) :
    (positions.foldl (UBoot.setupTurn g chip) d).bbm =
      visitAll g chip.blockBad d.bbm positions := by
  induction positions generalizing d done with
  | nil => rfl
  | cons ofs rest inductionHypothesis =>
      rw [List.forall_mem_cons] at inside
      rw [List.foldl_cons, setupTurn_checked unmarked suffice redirected inside.1]
      exact inductionHypothesis
        (redirected.visit_step unmarked suffice inside.1).2 inside.2

/-- A kernel loop that starts with translation on visits every position. -/
theorem scan_checked
    {d : Device} {done : Finset Nat} {stop : Nat} (onChip : stop ≤ g.size)
    (start : Nat) (redirected : Redirected g chip.blockBad d.bbm done) :
    Loop.Returns (scanTurn g layout chip stop) (start, d)
      { d with bbm :=
          visitAll g chip.blockBad d.bbm (positionsFrom g start stop) } := by
  induction start using positions_induction g stop
    generalizing d done with
  | finished start le =>
      apply Loop.returns_of_leaves
      rw [positionsFrom_of_le le, scanTurn, if_neg (Nat.not_lt_of_le le)]
      rfl
  | turn start lt inductionHypothesis =>
      have inside : start < g.size := lt_of_lt_of_le lt onChip
      have step := redirected.visit_step unmarked suffice inside
      have goes : scanTurn g layout chip stop (start, d) =
          .inl (start + g.erasesize,
            { d with bbm := visit g chip.blockBad d.bbm start }) := by
        simp only [scanTurn, if_pos lt, nandBlockIsbad_of_inside d inside, step.1]
        rfl
      rw [Loop.returns_iff_of_goes goes, positionsFrom_of_lt lt]
      exact inductionHypothesis step.2

end Unmarked

theorem visit_of_not_check
    {s : Bbm} (blockBad : Nat → Bool) (check : s.nandBbmCheck = false)
    (ofs : Nat) : visit g blockBad s ofs = s := by
  rw [visit, nandBbmAdjustCheck_of_not_check blockBad check]

theorem setup_clean
    {d : UBoot.Device} (check : d.bbm.nandBbmCheck = false)
    (positions : List Nat) (inside : ∀ pos ∈ positions, pos < g.size)
    (clean : ∀ pos ∈ positions, chip.blockBad pos = false) :
    positions.foldl (UBoot.setupTurn g chip) d = d := by
  induction positions with
  | nil => rfl
  | cons ofs rest inductionHypothesis =>
      rw [List.forall_mem_cons] at inside clean
      have same : UBoot.setupTurn g chip d ofs = d := by
        simp only [UBoot.setupTurn, bootBlockIsbad_of_inside d inside.1,
          nandBbmAdjustCheck_of_not_check _ check, clean.1,
          visit_of_not_check _ check]
        rfl
      rw [List.foldl_cons, same]
      exact inductionHypothesis inside.2 clean.2

/-- At a position that is not marked a kernel loop goes on by a block. -/
theorem scanTurn_clean
    {d : Device} (check : d.bbm.nandBbmCheck = false) {start stop : Nat}
    (lt : start < stop) (inside : start < g.size) (clean : chip.blockBad start = false) :
    scanTurn g layout chip stop (start, d) = .inl (start + g.erasesize, d) := by
  simp only [scanTurn, if_pos lt, nandBlockIsbad_of_inside d inside,
    nandBbmAdjustCheck_of_not_check _ check, clean, visit_of_not_check _ check]
  rfl

theorem scan_clean
    {d : Device} (check : d.bbm.nandBbmCheck = false) {stop : Nat}
    (onChip : stop ≤ g.size) (start : Nat)
    (clean : ∀ pos ∈ positionsFrom g start stop, chip.blockBad pos = false) :
    Loop.Returns (scanTurn g layout chip stop) (start, d) d := by
  induction start using positions_induction g stop with
  | finished start le =>
      apply Loop.returns_of_leaves
      rw [scanTurn, if_neg (Nat.not_lt_of_le le)]
  | turn start lt inductionHypothesis =>
      rw [positionsFrom_of_lt lt, List.forall_mem_cons] at clean
      have inside : start < g.size := lt_of_lt_of_le lt onChip
      rw [Loop.returns_iff_of_goes (scanTurn_clean check lt inside clean.1)]
      exact inductionHypothesis clean.2

/-- The map after the first bad position of the walk. -/
def firstMap (g : Geometry) (start : Bbm) (first reserve : Nat) : Bbm :=
  (start.assigned (g.blockIndex first) reserve).setCheck true

theorem setupTurn_first
    {d : UBoot.Device} (check : d.bbm.nandBbmCheck = false) {first : Nat}
    (inside : first < g.size) (marked : chip.blockBad first = true)
    {reserve : Nat}
    (found : reserveFor g chip.blockBad d.bbm.assignIndex = some reserve) :
    UBoot.setupTurn g chip d first =
      { d with bbm := firstMap g d.bbm first reserve } := by
  simp only [UBoot.setupTurn, bootBlockIsbad_of_inside d inside,
    nandBbmAdjustCheck_of_not_check _ check, marked,
    visit_of_not_check _ check, nandBbmAssignBlock_of_some found]
  rfl

/-- At its first bad position a kernel loop jumps behind the reserve block. -/
theorem scan_first
    {d : Device} (check : d.bbm.nandBbmCheck = false) {stop : Nat}
    (onChip : stop ≤ g.size) {start first reserve : Nat}
    {before after : List Nat}
    (split : positionsFrom g start stop = before ++ first :: after)
    (clean : ∀ pos ∈ before, chip.blockBad pos = false)
    (marked : chip.blockBad first = true)
    (found : reserveFor g chip.blockBad d.bbm.assignIndex = some reserve)
    (result : Device) :
    Loop.Returns (scanTurn g layout chip stop) (start, d) result ↔
      Loop.Returns (scanTurn g layout chip stop)
        (g.blockPos reserve + g.erasesize,
          { d with bbm := firstMap g d.bbm first reserve }) result := by
  induction start using positions_induction g stop
    generalizing before with
  | finished start le =>
      rw [positionsFrom_of_le le] at split
      exact absurd split (by simp)
  | turn start lt inductionHypothesis =>
      rw [positionsFrom_of_lt lt] at split
      have inside : start < g.size := lt_of_lt_of_le lt onChip
      cases before with
      | nil =>
          rw [List.nil_append, List.cons.injEq] at split
          obtain ⟨rfl, _⟩ := split
          have goes : scanTurn g layout chip stop (start, d) =
              .inl (g.blockPos reserve + g.erasesize,
                { d with bbm := firstMap g d.bbm start reserve }) := by
            simp only [scanTurn, if_pos lt, nandBlockIsbad_of_inside d inside,
              nandBbmAdjustCheck_of_not_check _ check, marked,
              visit_of_not_check _ check, nandBbmAssignBlock_no_copy,
              nandBbmAssignBlock_of_some found]
            rfl
          exact Loop.returns_iff_of_goes goes
      | cons head before =>
          rw [List.cons_append, List.cons.injEq] at split
          obtain ⟨rfl, rest⟩ := split
          rw [List.forall_mem_cons] at clean
          rw [Loop.returns_iff_of_goes (scanTurn_clean check lt inside clean.1)]
          exact inductionHypothesis rest clean.2

/-- The kernel's builder finishes if its three loops do. -/
theorem nandBbmInfoSetup_of_returns
    {d data info built : Device}
    (first : Loop.Returns (scanTurn g layout chip g.redirectStart)
      (bbmInfoSize, d) data)
    (second : Loop.Returns (scanTurn g layout chip bbmInfoSize) (0, data) info)
    (third : Loop.Returns (scanTurn g layout chip g.bbmRedirEnd)
      (g.redirectStart, info) built) :
    ∃ turns, nandBbmInfoSetup g layout chip turns d = some built := by
  obtain ⟨dataTurns, dataRan⟩ := first
  obtain ⟨infoTurns, infoRan⟩ := second
  obtain ⟨reserveTurns, reserveRan⟩ := third
  refine ⟨dataTurns + (infoTurns + reserveTurns), ?_⟩
  have dataLong := Loop.run_add dataRan (infoTurns + reserveTurns)
  have infoLong := Loop.run_add infoRan (dataTurns + reserveTurns)
  have reserveLong := Loop.run_add reserveRan (dataTurns + infoTurns)
  rw [show infoTurns + (dataTurns + reserveTurns) =
    dataTurns + (infoTurns + reserveTurns) by omega] at infoLong
  rw [show reserveTurns + (dataTurns + infoTurns) =
    dataTurns + (infoTurns + reserveTurns) by omega] at reserveLong
  rw [nandBbmInfoSetup, dataLong]
  simp only [Option.bind_eq_bind, Option.bind_some, infoLong, reserveLong]

/-- It finishes in one way only. -/
theorem nandBbmInfoSetup_unique
    {d built other : Device} {turns more : Nat}
    (first : nandBbmInfoSetup g layout chip turns d = some built)
    (second : nandBbmInfoSetup g layout chip more d = some other) :
    built = other := by
  simp only [nandBbmInfoSetup, Option.bind_eq_bind, Option.bind_eq_some_iff]
    at first second
  obtain ⟨data, dataRan, info, infoRan, built⟩ := first
  obtain ⟨otherData, otherDataRan, otherInfo, otherInfoRan, otherBuilt⟩ := second
  have sameData := Loop.returns_unique ⟨turns, dataRan⟩ ⟨more, otherDataRan⟩
  subst sameData
  have sameInfo := Loop.returns_unique ⟨turns, infoRan⟩ ⟨more, otherInfoRan⟩
  subst sameInfo
  exact Loop.returns_unique ⟨turns, built⟩ ⟨more, otherBuilt⟩

/-! ### Where a loop goes on after its jump -/

theorem lt_of_mem_before {start stop first pos : Nat} {before after : List Nat}
    (split : positionsFrom g start stop = before ++ first :: after)
    (member : pos ∈ before) : pos < first := by
  induction start using positions_induction g stop
    generalizing before with
  | finished start le =>
      rw [positionsFrom_of_le le] at split
      exact absurd split (by simp)
  | turn start lt inductionHypothesis =>
      rw [positionsFrom_of_lt lt] at split
      cases before with
      | nil => cases member
      | cons head before =>
          rw [List.cons_append, List.cons.injEq] at split
          obtain ⟨rfl, rest⟩ := split
          rw [List.mem_cons] at member
          cases member with
          | inl same =>
              have later : first ∈ positionsFrom g (start + g.erasesize) stop := by
                rw [rest]
                simp
              have bounds := lt_of_mem_positionsFrom later
              have positive := g.erasesize_pos
              omega
          | inr member => exact inductionHypothesis rest member

/-- The positions of a loop that lie behind one of them. -/
theorem mem_after_iff {start stop first pos : Nat} {before after : List Nat}
    (split : positionsFrom g start stop = before ++ first :: after) :
    pos ∈ after ↔ pos ∈ positionsFrom g start stop ∧ first < pos := by
  constructor
  · intro member
    have later := member
    rw [positionsFrom_after split] at later
    have bounds := lt_of_mem_positionsFrom later
    have positive := g.erasesize_pos
    refine ⟨?_, by omega⟩
    rw [split]
    exact List.mem_append_right _ (List.mem_cons_of_mem _ member)
  · intro both
    obtain ⟨member, later⟩ := both
    rw [split, List.mem_append, List.mem_cons] at member
    cases member with
    | inl early =>
        have earlier := lt_of_mem_before split early
        omega
    | inr rest =>
        cases rest with
        | inl same => omega
        | inr member => exact member

theorem blockPos_succ (g : Geometry) (block : Nat) :
    g.blockPos block + g.erasesize = g.blockPos (block + 1) := by
  rw [g.blockPos_eq, g.blockPos_eq, Nat.succ_mul]

theorem blockPos_lt_iff (g : Geometry) {first second : Nat} :
    g.blockPos first < g.blockPos second ↔ first < second := by
  rw [g.blockPos_eq, g.blockPos_eq]
  exact Nat.mul_lt_mul_right g.erasesize_pos

theorem exists_blockPos {index start stop pos : Nat}
    (aligned : start = g.blockPos index)
    (member : pos ∈ positionsFrom g start stop) :
    ∃ block, index ≤ block ∧ pos = g.blockPos block := by
  induction start using positions_induction g stop
    generalizing index with
  | finished start le =>
      rw [positionsFrom_of_le le] at member
      cases member
  | turn start lt inductionHypothesis =>
      rw [positionsFrom_of_lt lt, List.mem_cons] at member
      cases member with
      | inl same => exact ⟨index, le_refl _, same.trans aligned⟩
      | inr later =>
          obtain ⟨block, above, position⟩ :=
            inductionHypothesis (by rw [aligned, blockPos_succ]) later
          exact ⟨block, by omega, position⟩

/-- What a jump from `first` behind `reserve` does to the rest `after` of a
loop up to `stop`: the loop passes over `skipped`, and the boot loader visits
in addition just these. -/
structure Jump (g : Geometry) (blockBad : Nat → Bool)
    (start stop first reserve : Nat) (after skipped : List Nat) : Prop where
  visits : ∀ s, Redirected g blockBad s {g.blockIndex first} →
    visitAll g blockBad s after =
      visitAll g blockBad s
        (skipped ++ positionsFrom g (g.blockPos reserve + g.erasesize) stop)
  mem_skipped : ∀ pos ∈ skipped, pos ∈ after
  mem_rest : ∀ pos ∈ positionsFrom g (g.blockPos reserve + g.erasesize) stop,
    pos = first ∨ pos ∈ after
  covers : ∀ pos ∈ after, pos ∈ skipped ∨
    pos ∈ positionsFrom g (g.blockPos reserve + g.erasesize) stop
  apart : ∀ pos ∈ skipped,
    ∀ other ∈ positionsFrom g (g.blockPos reserve + g.erasesize) stop,
      g.blockIndex pos ≠ g.blockIndex other
  clean_iff : (∀ pos ∈ skipped, blockBad pos = false) ↔
    ∀ pos ∈ positionsFrom g start stop, first < pos →
      pos < g.blockPos reserve → blockBad pos = false

/-- A loop that ends before the reserve block is left by the jump. -/
theorem jump_out {blockBad : Nat → Bool} {start stop first reserve : Nat}
    {before after : List Nat}
    (split : positionsFrom g start stop = before ++ first :: after)
    (far : stop ≤ g.blockPos reserve) :
    Jump g blockBad start stop first reserve after after := by
  have left : positionsFrom g (g.blockPos reserve + g.erasesize) stop = [] :=
    positionsFrom_of_le (by omega)
  refine ⟨?_, fun _ member => member, ?_, fun _ member => Or.inl member, ?_, ?_⟩
  · intro s _
    rw [left, List.append_nil]
  · intro pos member
    rw [left] at member
    cases member
  · intro pos _ other member
    rw [left] at member
    cases member
  · constructor
    · intro clean pos member later _
      exact clean pos ((mem_after_iff split).mpr ⟨member, later⟩)
    · intro clean pos member
      obtain ⟨within, later⟩ := (mem_after_iff split).mp member
      have bounds := lt_of_mem_positionsFrom within
      exact clean pos within later (by omega)

/-- In the reserve region the loop goes on behind the reserve block, which may
lie further down than the bad one. -/
theorem jump_within {blockBad : Nat → Bool} {first reserve : Nat}
    {before after : List Nat}
    (split : positionsFrom g g.redirectStart g.bbmRedirEnd =
      before ++ first :: after)
    (unmarked : GoodUnmarked g blockBad)
    (found : reserveFor g blockBad g.redirTop = some reserve)
    (clean : ∀ pos ∈ before, blockBad pos = false)
    (marked : blockBad first = true) :
    ∃ skipped, Jump g blockBad g.redirectStart g.bbmRedirEnd first reserve
      after skipped := by
  obtain ⟨block, aboveFloor, rfl⟩ :
      ∃ block, g.redirFloor ≤ block ∧ first = g.blockPos block := by
    have member : first ∈ positionsFrom g g.redirectStart g.bbmRedirEnd := by
      rw [split]
      simp
    exact exists_blockPos g.blockPos_redirFloor.symm member
  obtain ⟨reserveAbove, reserveLe, good, skippedBad⟩ :=
    reserveFor_eq_some_iff.mp found
  have top := g.redirTop_succ
  have stop : g.bbmRedirEnd = g.blockPos g.blocks := by
    rw [g.bbmRedirEnd_eq, g.blockPos_eq, g.blocks_mul_erasesize]
  have rest := positionsFrom_after split
  have onChip : block < g.blocks := by
    have member : g.blockPos block ∈
        positionsFrom g g.redirectStart g.bbmRedirEnd := by
      rw [split]
      simp
    have bounds := lt_of_mem_positionsFrom member
    rw [stop, blockPos_lt_iff] at bounds
    exact bounds.2
  rw [blockPos_succ] at rest
  rcases lt_trichotomy block reserve with below | same | above
  · -- the blocks from the bad one up to the reserve block are passed over
    have reach : g.blockPos (block + 1) + (reserve - block) * g.erasesize =
        g.blockPos (reserve + 1) := by
      rw [g.blockPos_eq, g.blockPos_eq, ← Nat.add_mul]
      congr 1
      omega
    have cut := positionsFrom_append g (g.blockPos (block + 1)) g.bbmRedirEnd
      (reserve - block) (by
        rw [reach, stop, g.blockPos_eq, g.blockPos_eq]
        exact Nat.mul_le_mul_right _ (by omega))
    rw [reach, ← rest] at cut
    refine ⟨positionsFrom g (g.blockPos (block + 1)) (g.blockPos (reserve + 1)),
      ?_, ?_, ?_, ?_, ?_, ?_⟩
    · intro s _
      rw [cut, blockPos_succ]
    · intro pos member
      rw [cut]
      exact List.mem_append_left _ member
    · intro pos member
      rw [blockPos_succ] at member
      rw [cut]
      exact Or.inr (List.mem_append_right _ member)
    · intro pos member
      rw [cut, List.mem_append] at member
      rwa [blockPos_succ]
    · intro pos member other otherMember
      rw [blockPos_succ] at otherMember
      have low := (lt_of_mem_positionsFrom member).2
      obtain ⟨_, _, rfl⟩ := exists_blockPos rfl member
      obtain ⟨_, high, rfl⟩ := exists_blockPos rfl otherMember
      rw [blockPos_lt_iff] at low
      rw [g.blockIndex_blockPos, g.blockIndex_blockPos]
      omega
    · constructor
      · intro allGood pos member later early
        have behind := (mem_after_iff split).mpr ⟨member, later⟩
        rw [cut, List.mem_append] at behind
        apply allGood pos
        apply behind.resolve_right
        intro beyond
        have bounds := (lt_of_mem_positionsFrom beyond).1
        have next := blockPos_succ g reserve
        omega
      · intro allGood pos member
        have low := (lt_of_mem_positionsFrom member).2
        have behind : pos ∈ after := by
          rw [cut]
          exact List.mem_append_left _ member
        obtain ⟨within, later⟩ := (mem_after_iff split).mp behind
        obtain ⟨other, _, rfl⟩ := exists_blockPos rfl member
        rw [blockPos_lt_iff] at low
        by_cases last : other = reserve
        · rw [last]
          exact good
        · exact allGood _ within later ((blockPos_lt_iff g).mpr (by omega))
  · rw [same, good] at marked
    exact Bool.noConfusion marked
  · -- everything above the reserve block is bad, so the first one is next to it
    have next : block = reserve + 1 := by
      by_contra different
      have early : g.blockPos (reserve + 1) < g.blockPos block :=
        (blockPos_lt_iff g).mpr (by omega)
      have reach : g.redirectStart +
          (reserve + 1 - g.redirFloor) * g.erasesize =
            g.blockPos (reserve + 1) := by
        rw [← g.blockPos_redirFloor, g.blockPos_eq, g.blockPos_eq,
          ← Nat.add_mul]
        congr 1
        omega
      have cut := positionsFrom_append g g.redirectStart g.bbmRedirEnd
        (reserve + 1 - g.redirFloor) (by
          rw [reach, stop, g.blockPos_eq, g.blockPos_eq]
          exact Nat.mul_le_mul_right _ (by omega))
      rw [reach] at cut
      have member : g.blockPos (reserve + 1) ∈
          positionsFrom g g.redirectStart g.bbmRedirEnd := by
        have inside : g.blockPos (reserve + 1) < g.bbmRedirEnd := by
          rw [stop]
          exact (blockPos_lt_iff g).mpr (by omega)
        rw [cut, positionsFrom_of_lt inside]
        simp
      have bad := skippedBad (reserve + 1) (by omega) (by omega)
      rw [split, List.mem_append, List.mem_cons] at member
      cases member with
      | inl inBefore =>
          rw [clean _ inBefore] at bad
          exact Bool.noConfusion bad
      | inr other =>
          cases other with
          | inl same => omega
          | inr inAfter =>
              have later := ((mem_after_iff split).mp inAfter).2
              omega
    have onward :
        positionsFrom g (g.blockPos reserve + g.erasesize) g.bbmRedirEnd =
          g.blockPos block :: after := by
      have inside : g.blockPos block < g.bbmRedirEnd := by
        rw [stop]
        exact (blockPos_lt_iff g).mpr onChip
      rw [blockPos_succ, ← next, positionsFrom_of_lt inside, blockPos_succ, rest]
    refine ⟨[], ?_, ?_, ?_, ?_, ?_, ?_⟩
    · intro s redirected
      have inside : g.blockPos block < g.size := by
        rw [← g.bbmRedirEnd_eq, stop]
        exact (blockPos_lt_iff g).mpr onChip
      rw [onward, List.nil_append, visitAll, visitAll, List.foldl_cons,
        redirected.visit_settled unmarked inside
          (Or.inr (Finset.mem_singleton_self _))]
    · intro pos member
      cases member
    · intro pos member
      rwa [onward, List.mem_cons] at member
    · intro pos member
      rw [onward]
      exact Or.inr (List.mem_cons_of_mem _ member)
    · intro pos member
      cases member
    · constructor
      · intro _ pos _ later early
        have order := (blockPos_lt_iff g).mpr above
        omega
      · intro _ pos member
        cases member

end Gp2Firmware.Linux
