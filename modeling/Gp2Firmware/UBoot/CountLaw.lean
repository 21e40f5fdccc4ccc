import Gp2Firmware.Nand.BlockMap
import Gp2Firmware.UBoot.NandBase

/-!
# The bad-block count

`nand_bbm_info_load` finds the end of the map by counting, so
`bb_count_data + bb_count_redirect` has to be the number of flagged entries.
The counters move with every assignment, the flags only when an entry was not
flagged before.  The surplus of the counters over the flags therefore never
shrinks, and a run keeps the law exactly when none of its assignments adds to
it.
-/

namespace Gp2Firmware.UBoot

open Gp2Firmware.Nand

/-- A call of `nand_bbm_assign_block`: the map it finds, the answers of
`block_bad`, and the position it is given. -/
structure AssignSite where
  bbm : Bbm
  blockBad : Nat → Bool
  badpos : Nat

/-- The position given lies in a block that is not flagged yet, and the bad
reserve blocks passed over are other blocks, not flagged yet either.  Where
erase blocks are larger than the info region, block zero is written twice and
must not be given at all. -/
def AssignSite.Fresh (g : Geometry) (site : AssignSite) : Prop :=
  match reserveFor g site.blockBad site.bbm.assignIndex with
  | some reserve =>
      g.blockIndex site.badpos < g.blocks ∧
        site.bbm.flagged (g.blockIndex site.badpos) = false ∧
        (g.Aligned ∨ g.blockIndex site.badpos ≠ 0) ∧
        ∀ index, reserve < index → index ≤ site.bbm.assignIndex →
          site.bbm.flagged index = false ∧ index ≠ g.blockIndex site.badpos
  | none =>
      ∀ index, g.redirFloor < index → index ≤ site.bbm.assignIndex →
        site.bbm.flagged index = false

/-- The assignment that `NAND_BBM_ADJUST_CHECK` makes for an offset. -/
def adjustCheckSites (g : Geometry) (blockBad : Nat → Bool) (s : Bbm)
    (ofs : Nat) : List AssignSite :=
  if s.nandBbmCheck && blockBad (nandBbmAdjust g s ofs) then
    [⟨s, blockBad, nandBbmAdjust g s ofs⟩]
  else []

/-- The assignments of the loop of `nand_erase_nand`. -/
def eraseSites (g : Geometry) (chip : ChipBehaviour) :
    (left page : Nat) → Device → List AssignSite
  | 0, _, _ => []
  | left + 1, page, d =>
      adjustCheckSites g chip.blockBad d.bbm (page <<< g.pageShift) ++
        match eraseTurn g chip d page with
        | (some false, d) => eraseSites g chip left (page + g.pagesPerBlock) d
        | _ => []

/-- The assignments a call makes. -/
def assignSites (g : Geometry) (d : Device) : Operation → List AssignSite
  | .read .. => []
  | .write .. => []
  | .setCheck _ => []
  | .erase chip instr =>
      if instr.addr &&& (2 ^ g.physEraseShift - 1) ≠ 0 then []
      else if instr.len &&& (2 ^ g.physEraseShift - 1) ≠ 0 then []
      else if g.size < instr.len + instr.addr then []
      else if chip.writeProtected then []
      else
        eraseSites g chip (instr.len >>> g.physEraseShift)
          (instr.addr >>> g.pageShift) d
  | .blockIsbad chip ofs =>
      if g.size < ofs then [] else adjustCheckSites g chip.blockBad d.bbm ofs
  | .assignBlock chip badpos => [⟨d.bbm, chip.blockBad, badpos⟩]

/-- The assignments of a run. -/
def runSites (g : Geometry) (d : Device) : List Operation → List AssignSite
  | [] => []
  | op :: ops => assignSites g d op ++ runSites g (d.step g op) ops

/-- The counters give the number of flagged entries, and that is the number of
entries `nand_bbm_info_save` writes. -/
def CountLaw (g : Geometry) (s : Bbm) : Prop :=
  s.bbCountData + s.bbCountRedirect = (flaggedBlocks g s).card ∧
    s.bbCountData + s.bbCountRedirect = (infoMaps g s).length

/-- By how much the counters exceed the flags. -/
def excess (g : Geometry) (s : Bbm) : Int :=
  s.bbCountData + s.bbCountRedirect - (flaggedBlocks g s).card

/-- The excess, and one more where block zero is written twice. -/
def surplus (g : Geometry) (s : Bbm) : Int :=
  excess g s + if ¬ g.Aligned ∧ s.flagged 0 = true then 1 else 0

variable {g : Geometry}

/-! ### One assignment -/

private theorem flaggedBlocks_skipTo
    {s : Bbm} (cursorLe : s.assignIndex ≤ g.redirTop) (low : Nat) :
    flaggedBlocks g (s.skipTo low) =
      flaggedBlocks g s ∪ Finset.Ioc low s.assignIndex := by
  have top := g.redirTop_succ
  ext index
  simp only [mem_flaggedBlocks, Finset.mem_union, Finset.mem_Ioc,
    Bbm.flagged_skipTo, Bool.or_eq_true, decide_eq_true_eq]
  constructor
  · rintro ⟨inside, flagged | passed⟩
    · exact Or.inl ⟨inside, flagged⟩
    · exact Or.inr passed
  · rintro (⟨inside, flagged⟩ | passed)
    · exact ⟨inside, Or.inl flagged⟩
    · exact ⟨by omega, Or.inr passed⟩

private theorem flaggedBlocks_assigned
    {s : Bbm} (cursorLe : s.assignIndex ≤ g.redirTop) (bad reserve : Nat) :
    flaggedBlocks g (s.assigned bad reserve) =
      flaggedBlocks g s ∪
        ((if bad < g.blocks then {bad} else ∅) ∪
          Finset.Ioc reserve s.assignIndex) := by
  have top := g.redirTop_succ
  ext index
  simp only [mem_flaggedBlocks, Finset.mem_union, Finset.mem_Ioc,
    Bbm.flagged_assigned, Bool.or_eq_true, decide_eq_true_eq]
  constructor
  · rintro ⟨inside, (rfl | flagged) | passed⟩
    · rw [if_pos inside]
      exact Or.inr (Or.inl (Finset.mem_singleton_self _))
    · exact Or.inl ⟨inside, flagged⟩
    · exact Or.inr (Or.inr passed)
  · rintro (⟨inside, flagged⟩ | given | passed)
    · exact ⟨inside, Or.inl (Or.inr flagged)⟩
    · split at given
      · rename_i inside
        rw [Finset.mem_singleton] at given
        subst given
        exact ⟨inside, Or.inl (Or.inl rfl)⟩
      · exact absurd given (Finset.notMem_empty _)
    · exact ⟨by omega, Or.inr passed⟩

/-- A union is as large as its parts together at most, and exactly when they
are disjoint. -/
private theorem card_union_le_and_iff (kept added : Finset Nat) :
    (kept ∪ added).card ≤ kept.card + added.card ∧
      ((kept ∪ added).card = kept.card + added.card ↔ Disjoint kept added) :=
  ⟨Finset.card_union_le _ _, Finset.card_union_eq_card_add_card⟩

private theorem disjoint_Ioc_iff
    {s : Bbm} (cursorLe : s.assignIndex ≤ g.redirTop) (low : Nat) :
    Disjoint (flaggedBlocks g s) (Finset.Ioc low s.assignIndex) ↔
      ∀ index, low < index → index ≤ s.assignIndex →
        s.flagged index = false := by
  have top := g.redirTop_succ
  simp only [Finset.disjoint_right, Finset.mem_Ioc, mem_flaggedBlocks, not_and,
    Bool.not_eq_true]
  constructor
  · intro disjoint index above within
    exact disjoint ⟨above, within⟩ (by omega)
  · rintro clear index ⟨above, within⟩ -
    exact clear index above within

private theorem surplus_skipTo
    {s : Bbm} (cursorLe : s.assignIndex ≤ g.redirTop) (low : Nat) :
    excess g s ≤ excess g (s.skipTo low) ∧
      surplus g s ≤ surplus g (s.skipTo low) ∧
      (surplus g (s.skipTo low) = surplus g s ↔
        ∀ index, low < index → index ≤ s.assignIndex →
          s.flagged index = false) := by
  have zero : (s.skipTo low).flagged 0 = s.flagged 0 := by
    rw [Bbm.flagged_skipTo]
    simp
  obtain ⟨le, eqIff⟩ := card_union_le_and_iff (flaggedBlocks g s)
    (Finset.Ioc low s.assignIndex)
  rw [disjoint_Ioc_iff cursorLe] at eqIff
  rw [Nat.card_Ioc] at le eqIff
  have counted :
      (s.skipTo low).bbCountData + (s.skipTo low).bbCountRedirect =
        s.bbCountData + s.bbCountRedirect + (s.assignIndex - low) := by
    simp only [Bbm.skipTo]
    omega
  rw [← eqIff, surplus, surplus, excess, excess,
    flaggedBlocks_skipTo cursorLe, zero]
  refine ⟨by omega, by omega, ?_⟩
  omega

private theorem surplus_assigned
    {s : Bbm} (cursorLe : s.assignIndex ≤ g.redirTop) (bad reserve : Nat) :
    excess g s ≤ excess g (s.assigned bad reserve) ∧
      surplus g s ≤ surplus g (s.assigned bad reserve) ∧
      (surplus g (s.assigned bad reserve) = surplus g s ↔
        bad < g.blocks ∧ s.flagged bad = false ∧ (g.Aligned ∨ bad ≠ 0) ∧
          ∀ index, reserve < index → index ≤ s.assignIndex →
            s.flagged index = false ∧ index ≠ bad) := by
  have zero : (s.assigned bad reserve).flagged 0 =
      (decide (0 = bad) || s.flagged 0) := by
    rw [Bbm.flagged_assigned]
    simp
  have counted :
      (s.assigned bad reserve).bbCountData +
          (s.assigned bad reserve).bbCountRedirect =
        s.bbCountData + s.bbCountRedirect + 1 + (s.assignIndex - reserve) := by
    simp only [Bbm.assigned, Bbm.record, Bbm.skipTo]
    omega
  obtain ⟨passedLe, passedIff⟩ :=
    card_union_le_and_iff {bad} (Finset.Ioc reserve s.assignIndex)
  rw [Finset.card_singleton, Nat.card_Ioc, Finset.disjoint_singleton_left,
    Finset.mem_Ioc] at *
  have zeroLe :
      (if ¬ g.Aligned ∧ s.flagged 0 = true then 1 else 0 : Int) ≤
        if ¬ g.Aligned ∧ (decide (0 = bad) || s.flagged 0) = true then 1
        else 0 := by
    by_cases already : ¬ g.Aligned ∧ s.flagged 0 = true
    · rw [if_pos already, if_pos ⟨already.1, by rw [already.2, Bool.or_true]⟩]
    · rw [if_neg already]
      split
      · decide
      · decide
  have zeroIff (clear : s.flagged bad = false) :
      ((if ¬ g.Aligned ∧ (decide (0 = bad) || s.flagged 0) = true then 1
          else 0 : Int) =
        if ¬ g.Aligned ∧ s.flagged 0 = true then 1 else 0) ↔
        (g.Aligned ∨ bad ≠ 0) := by
    by_cases aligned : g.Aligned
    · simp [aligned]
    · by_cases first : bad = 0
      · subst first
        simp [aligned, clear]
      · simp [aligned, first, Ne.symm first]
  rw [surplus, surplus, excess, excess, flaggedBlocks_assigned cursorLe, zero]
  by_cases inside : bad < g.blocks
  · rw [if_pos inside]
    obtain ⟨le, eqIff⟩ := card_union_le_and_iff (flaggedBlocks g s)
      ({bad} ∪ Finset.Ioc reserve s.assignIndex)
    rw [Finset.disjoint_union_right, disjoint_Ioc_iff cursorLe,
      Finset.disjoint_singleton_right, mem_flaggedBlocks] at eqIff
    refine ⟨by omega, by omega, ?_⟩
    constructor
    · intro equal
      obtain ⟨notFlagged, passedClear⟩ := eqIff.mp (by omega)
      have notPassed := passedIff.mp (by omega)
      have clear : s.flagged bad = false :=
        Bool.eq_false_of_not_eq_true fun flagged =>
          notFlagged ⟨inside, flagged⟩
      refine ⟨inside, clear, (zeroIff clear).mp (by omega), ?_⟩
      intro index above within
      refine ⟨passedClear index above within, ?_⟩
      rintro rfl
      exact notPassed ⟨above, within⟩
    · rintro ⟨-, clear, first, passedClear⟩
      have union := eqIff.mpr
        ⟨fun flagged => by simp [clear] at flagged,
          fun index above within => (passedClear index above within).1⟩
      have passed := passedIff.mpr
        fun within => (passedClear bad within.1 within.2).2 rfl
      have zeroEq := (zeroIff clear).mpr first
      omega
  · rw [if_neg inside, Finset.empty_union]
    obtain ⟨le, -⟩ := card_union_le_and_iff (flaggedBlocks g s)
      (Finset.Ioc reserve s.assignIndex)
    rw [Nat.card_Ioc] at le
    refine ⟨by omega, by omega, ?_⟩
    constructor
    · intro equal
      omega
    · rintro ⟨within, -⟩
      exact absurd within inside

private theorem excess_setCheck (s : Bbm) (check : Bool) :
    excess g (s.setCheck check) = excess g s := rfl

private theorem surplus_setCheck (s : Bbm) (check : Bool) :
    surplus g (s.setCheck check) = surplus g s := rfl

private theorem fresh_of_none
    {s : Bbm} {blockBad : Nat → Bool} (badpos : Nat)
    (exhausted : reserveFor g blockBad s.assignIndex = none) :
    AssignSite.Fresh g ⟨s, blockBad, badpos⟩ ↔
      ∀ index, g.redirFloor < index → index ≤ s.assignIndex →
        s.flagged index = false := by
  simp only [AssignSite.Fresh, exhausted]

private theorem fresh_of_some
    {s : Bbm} {blockBad : Nat → Bool} {reserve : Nat} (badpos : Nat)
    (found : reserveFor g blockBad s.assignIndex = some reserve) :
    AssignSite.Fresh g ⟨s, blockBad, badpos⟩ ↔
      g.blockIndex badpos < g.blocks ∧
        s.flagged (g.blockIndex badpos) = false ∧
        (g.Aligned ∨ g.blockIndex badpos ≠ 0) ∧
        ∀ index, reserve < index → index ≤ s.assignIndex →
          s.flagged index = false ∧ index ≠ g.blockIndex badpos := by
  simp only [AssignSite.Fresh, found]

/-- An assignment never lowers the surplus, and leaves it alone exactly when
it is a fresh one. -/
theorem surplus_assignBlock
    {s : Bbm} (cursorLe : s.assignIndex ≤ g.redirTop)
    (blockBad : Nat → Bool) (badpos : Nat) :
    excess g s ≤ excess g (nandBbmAssignBlock g blockBad s badpos).2 ∧
      surplus g s ≤ surplus g (nandBbmAssignBlock g blockBad s badpos).2 ∧
      (surplus g (nandBbmAssignBlock g blockBad s badpos).2 = surplus g s ↔
        AssignSite.Fresh g ⟨s, blockBad, badpos⟩) := by
  cases found : reserveFor g blockBad s.assignIndex with
  | none =>
      rw [nandBbmAssignBlock_of_none found, fresh_of_none badpos found, excess_setCheck, surplus_setCheck]
      exact surplus_skipTo cursorLe g.redirFloor
  | some reserve =>
      rw [nandBbmAssignBlock_of_some found, fresh_of_some badpos found, excess_setCheck, surplus_setCheck]
      exact surplus_assigned cursorLe (g.blockIndex badpos) reserve

/-! ### One call, and a run -/

/-- A relation between the map before and after a piece of code and the
assignments it makes, which composes, and which single assignments meet.
`allowed` are the values that may be written to `nand_bbm_check`. -/
structure Composes (g : Geometry) (allowed : Bool → Prop)
    (relates : Bbm → Bbm → List AssignSite → Prop) : Prop where
  refl : ∀ s, relates s s []
  trans : ∀ {s t u first second},
    relates s t first → relates t u second → relates s u (first ++ second)
  setCheck : ∀ s value, allowed value → relates s (s.setCheck value) []
  assign : ∀ s, ReserveInv g s → ∀ blockBad badpos,
    relates s (nandBbmAssignBlock g blockBad s badpos).2 [⟨s, blockBad, badpos⟩]

section Composes

variable {allowed : Bool → Prop} {relates : Bbm → Bbm → List AssignSite → Prop}

theorem Composes.adjustCheck (composes : Composes g allowed relates)
    {s : Bbm} (inv : ReserveInv g s) (blockBad : Nat → Bool) (ofs : Nat) :
    relates s (nandBbmAdjustCheck g blockBad s ofs).2
      (adjustCheckSites g blockBad s ofs) := by
  rw [nandBbmAdjustCheck, adjustCheckSites]
  split
  · exact composes.assign s inv blockBad _
  · exact composes.refl s

theorem Composes.eraseLoop (composes : Composes g allowed relates)
    {chip : ChipBehaviour} {d : Device} (inv : ReserveInv g d.bbm)
    (left page : Nat) (instr : EraseInfo) :
    relates d.bbm (UBoot.eraseLoop g chip left page instr d).2.bbm
      (eraseSites g chip left page d) := by
  induction left generalizing page d with
  | zero => exact composes.refl _
  | succ left inductionHypothesis =>
      have turnInv := reserveInv_eraseTurn chip inv page
      have turnRelates := composes.adjustCheck inv chip.blockBad
        (page <<< g.pageShift)
      rw [← eraseTurn_bbm] at turnRelates
      rw [UBoot.eraseLoop, eraseSites]
      rcases turn : eraseTurn g chip d page with ⟨status, after⟩
      rw [turn] at turnInv turnRelates
      rcases status with _ | _ | _
      · rwa [List.append_nil]
      · exact composes.trans turnRelates
          (inductionHypothesis turnInv (page + g.pagesPerBlock))
      · rwa [List.append_nil]

theorem Composes.step (composes : Composes g allowed relates)
    {d : Device} (inv : ReserveInv g d.bbm) (op : Operation)
    (fits : ∀ value, op = .setCheck value → allowed value) :
    relates d.bbm (d.step g op).bbm (assignSites g d op) := by
  cases op with
  | read chip ofs len =>
      rw [Device.step, nandReadEcc_bbm]
      exact composes.refl _
  | write chip ofs len buf =>
      rw [Device.step, nandWriteEcc_bbm]
      exact composes.refl _
  | setCheck value => exact composes.setCheck d.bbm value (fits value rfl)
  | assignBlock chip badpos => exact composes.assign d.bbm inv chip.blockBad badpos
  | blockIsbad chip ofs =>
      rw [Device.step, assignSites]
      by_cases outside : g.size < ofs
      · rw [nandBlockIsbad, if_pos outside, if_pos outside]
        exact composes.refl _
      · rw [nandBlockIsbad_bbm d outside, if_neg outside]
        exact composes.adjustCheck inv _ _
  | erase chip instr =>
      rw [Device.step, assignSites, nandEraseNand]
      split
      · exact composes.refl _
      · split
        · exact composes.refl _
        · split
          · exact composes.refl _
          · split
            · exact composes.refl _
            · exact composes.eraseLoop inv _ _ _

theorem Composes.run (composes : Composes g allowed relates)
    {d : Device} (inv : ReserveInv g d.bbm) (ops : List Operation)
    (fits : ∀ value, .setCheck value ∈ ops → allowed value) :
    relates d.bbm (d.run g ops).bbm (runSites g d ops) := by
  induction ops generalizing d with
  | nil => exact composes.refl _
  | cons op ops inductionHypothesis =>
      have first : ∀ value, op = .setCheck value → allowed value :=
        fun value same => fits value (same ▸ List.mem_cons_self)
      exact composes.trans (composes.step inv op first)
        (inductionHypothesis (reserveInv_step inv op)
          fun value mem => fits value (List.mem_cons_of_mem _ mem))

end Composes

/-- What a piece of code does to the surplus, given the assignments it
makes. -/
def Drifts (g : Geometry) (s t : Bbm) (sites : List AssignSite) : Prop :=
  excess g s ≤ excess g t ∧
    surplus g s ≤ surplus g t ∧
    (surplus g t = surplus g s ↔ ∀ site ∈ sites, site.Fresh g)

theorem Drifts.refl (s : Bbm) : Drifts g s s [] :=
  ⟨le_refl _, le_refl _, by simp⟩

theorem Drifts.trans
    {s t u : Bbm} {first second : List AssignSite}
    (before : Drifts g s t first) (after : Drifts g t u second) :
    Drifts g s u (first ++ second) := by
  obtain ⟨beforeExcess, beforeLe, beforeIff⟩ := before
  obtain ⟨afterExcess, afterLe, afterIff⟩ := after
  refine ⟨le_trans beforeExcess afterExcess, le_trans beforeLe afterLe, ?_⟩
  rw [List.forall_mem_append, ← beforeIff, ← afterIff]
  omega

theorem composes_drifts (g : Geometry) : Composes g (fun _ => True) (Drifts g) where
  refl := Drifts.refl
  trans := Drifts.trans
  setCheck s _ _ := Drifts.refl s
  assign s inv blockBad badpos := by
    obtain ⟨excessLe, le, iff⟩ := surplus_assignBlock inv.cursor_le blockBad badpos
    exact ⟨excessLe, le, by rw [List.forall_mem_singleton]; exact iff⟩

theorem drifts_run
    {d : Device} (inv : ReserveInv g d.bbm) (ops : List Operation) :
    Drifts g d.bbm (d.run g ops).bbm (runSites g d ops) :=
  (composes_drifts g).run inv ops fun _ _ => trivial

theorem runSites_append (d : Device) (first second : List Operation) :
    runSites g d (first ++ second) =
      runSites g d first ++ runSites g (d.run g first) second := by
  induction first generalizing d with
  | nil => rfl
  | cons op ops inductionHypothesis =>
      rw [List.cons_append, runSites, runSites, inductionHypothesis,
        List.append_assoc]
      rfl

private theorem countLaw_iff_surplus {s : Bbm} (nonneg : 0 ≤ excess g s) :
    CountLaw g s ↔ surplus g s = 0 := by
  rw [CountLaw, infoMaps_length, surplus]
  rw [excess] at nonneg ⊢
  split <;> omega

private theorem excess_init (start : Bbm) :
    excess g (nandBbmInfoInit g start) = 0 := by
  have none : flaggedBlocks g (nandBbmInfoInit g start) = ∅ := by
    ext index
    rw [mem_flaggedBlocks]
    constructor
    · rintro ⟨inside, flagged⟩
      rw [nandBbmInfoInit_flagged g start inside] at flagged
      exact absurd flagged (by simp)
    · intro member
      exact absurd member (Finset.notMem_empty _)
  rw [excess, none]
  rfl

private theorem surplus_init (start : Bbm) :
    surplus g (nandBbmInfoInit g start) = 0 := by
  rw [surplus, excess_init, nandBbmInfoInit_flagged g start g.blocks_pos]
  simp

/-- In a run from a fresh map the count is right after every call exactly when
every assignment of the run is a fresh one. -/
theorem countLaw_iff_fresh
    (g : Geometry) (start : Device) (ops : List Operation) :
    (∀ before after, ops = before ++ after →
        CountLaw g ((start.infoInit g).run g before).bbm) ↔
      ∀ site ∈ runSites g (start.infoInit g) ops, site.Fresh g := by
  have inv := reserveInv_infoInit g start
  have excessZero : excess g (start.infoInit g).bbm = 0 := excess_init start.bbm
  have zero : surplus g (start.infoInit g).bbm = 0 := surplus_init start.bbm
  have law : ∀ calls, CountLaw g ((start.infoInit g).run g calls).bbm ↔
      ∀ site ∈ runSites g (start.infoInit g) calls, site.Fresh g := by
    intro calls
    obtain ⟨excessLe, -, iff⟩ := drifts_run inv calls
    rw [excessZero] at excessLe
    rw [countLaw_iff_surplus excessLe, ← iff, zero]
  constructor
  · intro always
    exact (law ops).mp (always ops [] (by simp))
  · rintro fresh before after rfl
    apply (law before).mpr
    intro site member
    apply fresh
    rw [runSites_append]
    exact List.mem_append_left _ member

/-- Block 5 goes bad and is erased, which redirects it to block 1023; block
1023 goes bad, and the two erases that follow both record a new redirect for
it. -/
def redirectedTwice : List Operation :=
  [.setCheck true,
    .erase (.withBad nand128MiB [5]) (.ofBlock nand128MiB 5 (by decide)),
    .erase (.withBad nand128MiB [5, 1023]) (.ofBlock nand128MiB 5 (by decide)),
    .erase (.withBad nand128MiB [5, 1023]) (.ofBlock nand128MiB 5 (by decide))]

theorem count_exceeds_flags :
    ¬ CountLaw nand128MiB
      ((Device.powerOn.infoInit nand128MiB).run nand128MiB redirectedTwice).bbm := by
  rw [CountLaw]
  decide +kernel

end Gp2Firmware.UBoot
