import Gp2Firmware.Nand.Geometry
import Gp2Firmware.Nand.BitmapEntry

/-!
# The bad-block map and `nand_bbm_assign_block`

The globals of `nand_bbm.c` that make up the map, `nand_bbm_info_init`, and
the loop of `nand_bbm_assign_block` that walks `assign_index` down through the
reserve blocks.  Both drivers have this loop word for word; they differ in
what they do once a reserve block is found.

`chip->block_bad` is a function of the offset it is asked about.  Each call of
`nand_bbm_assign_block` gets its own, since blocks go bad between calls.
-/

namespace Gp2Firmware.Nand

/-- The globals of `nand_bbm.c` that describe the map. -/
structure Bbm where
  nandBbmBitmap : Nat → Word
  assignIndex : Nat
  bbCountData : Nat
  bbCountRedirect : Nat
  bbmDirtyFlag : Nat
  nandBbmCheck : Bool

namespace Bbm

/-- The globals as the loader leaves them: zero, no bitmap allocated yet. -/
def boot : Bbm where
  nandBbmBitmap := fun _ => 0
  assignIndex := 0
  bbCountData := 0
  bbCountRedirect := 0
  bbmDirtyFlag := 0
  nandBbmCheck := false

/-- `nand_bbm_bitmap[index] & BBM_BB_MASK` -/
def flagged (s : Bbm) (index : Nat) : Bool :=
  isBad (s.nandBbmBitmap index)

/-- `nand_bbm_bitmap[index] & BBM_IDX_MASK` -/
def target (s : Bbm) (index : Nat) : Nat :=
  indexOf (s.nandBbmBitmap index)

/-- A write to `nand_bbm_check`. -/
def setCheck (s : Bbm) (value : Bool) : Bbm :=
  { s with nandBbmCheck := value }

variable (s : Bbm) (value : Bool)

@[simp]
theorem nandBbmBitmap_setCheck :
    (s.setCheck value).nandBbmBitmap = s.nandBbmBitmap := rfl

@[simp]
theorem assignIndex_setCheck :
    (s.setCheck value).assignIndex = s.assignIndex := rfl

@[simp]
theorem nandBbmCheck_setCheck : (s.setCheck value).nandBbmCheck = value := rfl

@[simp]
theorem flagged_setCheck (index : Nat) :
    (s.setCheck value).flagged index = s.flagged index := rfl

@[simp]
theorem target_setCheck (index : Nat) :
    (s.setCheck value).target index = s.target index := rfl

end Bbm

/-- `nand_bbm_info_init`.  The dirty flag, `nand_bbm_check` and the memory
behind the bitmap keep their values. -/
def nandBbmInfoInit (g : Geometry) (s : Bbm) : Bbm :=
  { s with
    nandBbmBitmap := fun index =>
      if index < g.blocks then BitVec.ofNat 32 index else s.nandBbmBitmap index
    assignIndex := g.redirTop
    bbCountData := 0
    bbCountRedirect := 0 }

/-- The `do … while(1)` loop of `nand_bbm_assign_block`.  Every turn but the
last lowers `assign_index`, so its value on entry bounds the number of turns;
at zero the exhaustion test holds.  The result is the position of the reserve
block found, or `none` for the exit that returns `badpos`. -/
def assignLoop (g : Geometry) (blockBad : Nat → Bool) (badpos : Nat) :
    Nat → Bbm → Option Nat × Bbm
  | 0, s => (none, s)
  | turns + 1, s =>
      if s.assignIndex ≤ g.redirFloor then
        (none, s)
      else if blockBad (g.blockPos s.assignIndex) = false then
        let withBad := Function.update s.nandBbmBitmap
          (g.blockIndex badpos) (badEntry s.assignIndex)
        (some (g.blockPos s.assignIndex),
          { s with
            nandBbmBitmap := Function.update withBad s.assignIndex
              (withBad s.assignIndex ||| bbmRedirMask)
            assignIndex := s.assignIndex - 1
            bbCountData := s.bbCountData + 1
            bbmDirtyFlag := s.bbmDirtyFlag + 1 })
      else
        assignLoop g blockBad badpos turns
          { s with
            nandBbmBitmap := Function.update s.nandBbmBitmap s.assignIndex
              (s.nandBbmBitmap s.assignIndex ||| bbmBbMask)
            assignIndex := s.assignIndex - 1
            bbCountRedirect := s.bbCountRedirect + 1 }

/-- The reserve block the loop settles on: the highest good one above the
floor, counting down from `assign_index`. -/
def reserveFor (g : Geometry) (blockBad : Nat → Bool) : Nat → Option Nat
  | 0 => none
  | index + 1 =>
      if index + 1 ≤ g.redirFloor then none
      else if blockBad (g.blockPos (index + 1)) = false then some (index + 1)
      else reserveFor g blockBad index

theorem reserveFor_eq_some_iff
    {g : Geometry} {blockBad : Nat → Bool} {top found : Nat} :
    reserveFor g blockBad top = some found ↔
      g.redirFloor < found ∧ found ≤ top ∧
        blockBad (g.blockPos found) = false ∧
        ∀ index, found < index → index ≤ top →
          blockBad (g.blockPos index) = true := by
  induction top with
  | zero =>
      simp only [reserveFor, reduceCtorEq, false_iff]
      rintro ⟨above, below, -, -⟩
      omega
  | succ top inductionHypothesis =>
      rw [reserveFor]
      by_cases low : top + 1 ≤ g.redirFloor
      · simp only [if_pos low, reduceCtorEq, false_iff]
        rintro ⟨above, below, -, -⟩
        omega
      · rw [if_neg low]
        by_cases good : blockBad (g.blockPos (top + 1)) = false
        · rw [if_pos good, Option.some.injEq]
          constructor
          · rintro rfl
            exact ⟨by omega, le_refl _, good, fun index above below => by omega⟩
          · rintro ⟨-, below, -, allBad⟩
            by_contra different
            have bad := allBad (top + 1) (by omega) (le_refl _)
            rw [good] at bad
            exact Bool.noConfusion bad
        · rw [if_neg good, inductionHypothesis]
          constructor
          · rintro ⟨above, below, foundGood, allBad⟩
            refine ⟨above, by omega, foundGood, fun index beyond within => ?_⟩
            by_cases last : index = top + 1
            · rw [last]
              exact Bool.eq_true_of_not_eq_false good
            · exact allBad index beyond (by omega)
          · rintro ⟨above, below, foundGood, allBad⟩
            have notLast : found ≠ top + 1 := by
              rintro rfl
              exact good foundGood
            exact ⟨above, by omega, foundGood,
              fun index beyond within => allBad index beyond (by omega)⟩

theorem reserveFor_eq_none_iff
    {g : Geometry} {blockBad : Nat → Bool} {top : Nat} :
    reserveFor g blockBad top = none ↔
      ∀ index, g.redirFloor < index → index ≤ top →
        blockBad (g.blockPos index) = true := by
  induction top with
  | zero =>
      simp only [reserveFor, true_iff]
      intro index above below
      omega
  | succ top inductionHypothesis =>
      rw [reserveFor]
      by_cases low : top + 1 ≤ g.redirFloor
      · simp only [if_pos low, true_iff]
        intro index above below
        omega
      · rw [if_neg low]
        by_cases good : blockBad (g.blockPos (top + 1)) = false
        · simp only [if_pos good, reduceCtorEq, false_iff]
          intro allBad
          have bad := allBad (top + 1) (by omega) (le_refl _)
          rw [good] at bad
          exact Bool.noConfusion bad
        · rw [if_neg good, inductionHypothesis]
          constructor
          · intro allBad index above below
            by_cases last : index = top + 1
            · rw [last]
              exact Bool.eq_true_of_not_eq_false good
            · exact allBad index above (by omega)
          · intro allBad index above below
            exact allBad index above (by omega)

namespace Bbm

/-- The map after the loop has passed over the bad reserve blocks above
`index`, down from `assign_index`. -/
def skipTo (s : Bbm) (index : Nat) : Bbm :=
  { s with
    nandBbmBitmap := fun passed =>
      if index < passed ∧ passed ≤ s.assignIndex then
        s.nandBbmBitmap passed ||| bbmBbMask
      else s.nandBbmBitmap passed
    assignIndex := min index s.assignIndex
    bbCountRedirect := s.bbCountRedirect + (s.assignIndex - index) }

/-- The map after `reserve` has been recorded for the block `bad`. -/
def record (s : Bbm) (bad reserve : Nat) : Bbm :=
  { s with
    nandBbmBitmap :=
      Function.update (Function.update s.nandBbmBitmap bad (badEntry reserve))
        reserve
        (Function.update s.nandBbmBitmap bad (badEntry reserve) reserve |||
          bbmRedirMask)
    assignIndex := reserve - 1
    bbCountData := s.bbCountData + 1
    bbmDirtyFlag := s.bbmDirtyFlag + 1 }

/-- A call that finds `reserve` for `bad`: skip down to it, then record it. -/
def assigned (s : Bbm) (bad reserve : Nat) : Bbm :=
  (s.skipTo reserve).record bad reserve

theorem skipTo_self {s : Bbm} {index : Nat} (low : s.assignIndex ≤ index) :
    s.skipTo index = s := by
  have none : ∀ passed, ¬ (index < passed ∧ passed ≤ s.assignIndex) := by
    rintro passed ⟨above, below⟩
    omega
  simp only [skipTo, none, if_false, Nat.min_eq_right low,
    Nat.sub_eq_zero_of_le low, Nat.add_zero]

/-- Passing over one more block first does not change where the skip ends. -/
theorem skipTo_step {s : Bbm} {index : Nat} (below : index < s.assignIndex) :
    ({ s with
        nandBbmBitmap := Function.update s.nandBbmBitmap s.assignIndex
          (s.nandBbmBitmap s.assignIndex ||| bbmBbMask)
        assignIndex := s.assignIndex - 1
        bbCountRedirect := s.bbCountRedirect + 1 } : Bbm).skipTo index =
      s.skipTo index := by
  simp only [skipTo, Bbm.mk.injEq, true_and, and_true]
  refine ⟨?_, by omega, by omega⟩
  funext passed
  by_cases here : passed = s.assignIndex
  · subst here
    have outside :
        ¬ (index < s.assignIndex ∧ s.assignIndex ≤ s.assignIndex - 1) := by
      omega
    rw [if_neg outside, if_pos ⟨below, le_refl _⟩, Function.update_self]
  · rw [Function.update_of_ne here]
    have same :
        (index < passed ∧ passed ≤ s.assignIndex - 1) ↔
          (index < passed ∧ passed ≤ s.assignIndex) := by
      omega
    simp only [same]

@[simp]
theorem nandBbmCheck_skipTo (s : Bbm) (index : Nat) :
    (s.skipTo index).nandBbmCheck = s.nandBbmCheck := rfl

@[simp]
theorem nandBbmCheck_assigned (s : Bbm) (bad reserve : Nat) :
    (s.assigned bad reserve).nandBbmCheck = s.nandBbmCheck := rfl

@[simp]
theorem target_skipTo (s : Bbm) (index other : Nat) :
    (s.skipTo index).target other = s.target other := by
  simp only [target, skipTo]
  split
  · exact indexOf_or_bbmBbMask _
  · rfl

theorem target_assigned
    (s : Bbm) (bad other : Nat) {reserve : Nat} (small : reserve < 2 ^ 28) :
    (s.assigned bad reserve).target other =
      if other = bad then reserve else s.target other := by
  have redirected :
      (s.assigned bad reserve).target other =
        indexOf (Function.update (s.skipTo reserve).nandBbmBitmap bad
          (badEntry reserve) other) := by
    simp only [target, assigned, record]
    by_cases here : other = reserve
    · subst here
      rw [Function.update_self, indexOf_or_bbmRedirMask]
    · rw [Function.update_of_ne here]
  rw [redirected]
  by_cases same : other = bad
  · subst same
    rw [Function.update_self, if_pos rfl, indexOf_badEntry small]
  · rw [Function.update_of_ne same, if_neg same]
    exact s.target_skipTo reserve other

theorem flagged_skipTo (s : Bbm) (index other : Nat) :
    (s.skipTo index).flagged other =
      (s.flagged other || decide (index < other ∧ other ≤ s.assignIndex)) := by
  simp only [flagged, skipTo]
  by_cases passed : index < other ∧ other ≤ s.assignIndex
  · simp [passed]
  · simp [passed]

theorem flagged_assigned (s : Bbm) (bad reserve other : Nat) :
    (s.assigned bad reserve).flagged other =
      (decide (other = bad) || s.flagged other ||
        decide (reserve < other ∧ other ≤ s.assignIndex)) := by
  have redirected :
      (s.assigned bad reserve).flagged other =
        isBad (Function.update (s.skipTo reserve).nandBbmBitmap bad
          (badEntry reserve) other) := by
    simp only [flagged, assigned, record]
    by_cases here : other = reserve
    · subst here
      rw [Function.update_self, isBad_or, isBad_bbmRedirMask, Bool.or_false]
    · rw [Function.update_of_ne here]
  rw [redirected]
  by_cases same : other = bad
  · subst same
    rw [Function.update_self, isBad_badEntry]
    simp
  · rw [Function.update_of_ne same]
    have skipped := s.flagged_skipTo reserve other
    rw [flagged] at skipped
    rw [skipped]
    simp [same]

end Bbm

/-- What the loop does, in one equation: it stops at the reserve block that
`reserveFor` names, or walks to the floor. -/
theorem assignLoop_eq
    (g : Geometry) (blockBad : Nat → Bool) (badpos : Nat) (s : Bbm) :
    assignLoop g blockBad badpos s.assignIndex s =
      match reserveFor g blockBad s.assignIndex with
      | some reserve =>
          (some (g.blockPos reserve), s.assigned (g.blockIndex badpos) reserve)
      | none => (none, s.skipTo g.redirFloor) := by
  obtain ⟨top, topEq⟩ : ∃ top, s.assignIndex = top := ⟨_, rfl⟩
  rw [topEq]
  induction top generalizing s with
  | zero =>
      rw [assignLoop, reserveFor, Bbm.skipTo_self (by omega)]
  | succ top inductionHypothesis =>
      rw [assignLoop, reserveFor, topEq]
      by_cases low : top + 1 ≤ g.redirFloor
      · rw [if_pos low, if_pos low, Bbm.skipTo_self (by omega)]
      · rw [if_neg low, if_neg low]
        by_cases good : blockBad (g.blockPos (top + 1)) = false
        · rw [if_pos good, if_pos good]
          simp only [Bbm.assigned, Bbm.skipTo_self (le_of_eq topEq), Bbm.record]
        · rw [if_neg good, if_neg good, ← topEq]
          rw [inductionHypothesis _ (by simp only [topEq]; omega)]
          cases found : reserveFor g blockBad top with
          | none =>
              have below : g.redirFloor < s.assignIndex := by omega
              simp only [Bbm.skipTo_step below]
          | some reserve =>
              have within := (reserveFor_eq_some_iff.mp found).2.1
              have below : reserve < s.assignIndex := by omega
              simp only [Bbm.assigned, Bbm.skipTo_step below]

/-- The part of `nand_bbm_assign_block` that the drivers share, without the
block copy the kernel adds: `nand_bbm_check` is cleared on entry and set again
only on the exit that found a reserve block. -/
def nandBbmAssignBlock
    (g : Geometry) (blockBad : Nat → Bool) (s : Bbm) (badpos : Nat) :
    Nat × Bbm :=
  match assignLoop g blockBad badpos s.assignIndex (s.setCheck false) with
  | (none, s) => (badpos, s)
  | (some pos, s) => (pos, s.setCheck true)

theorem nandBbmAssignBlock_eq
    (g : Geometry) (blockBad : Nat → Bool) (s : Bbm) (badpos : Nat) :
    nandBbmAssignBlock g blockBad s badpos =
      match reserveFor g blockBad s.assignIndex with
      | some reserve =>
          (g.blockPos reserve,
            (s.assigned (g.blockIndex badpos) reserve).setCheck true)
      | none => (badpos, (s.skipTo g.redirFloor).setCheck false) := by
  have loop := assignLoop_eq g blockBad badpos (s.setCheck false)
  rw [Bbm.assignIndex_setCheck] at loop
  rw [nandBbmAssignBlock, loop]
  cases reserveFor g blockBad s.assignIndex with
  | none => rfl
  | some reserve => rfl

theorem nandBbmAssignBlock_of_some
    {g : Geometry} {blockBad : Nat → Bool} {s : Bbm} {reserve : Nat}
    (found : reserveFor g blockBad s.assignIndex = some reserve) (badpos : Nat) :
    nandBbmAssignBlock g blockBad s badpos =
      (g.blockPos reserve,
        (s.assigned (g.blockIndex badpos) reserve).setCheck true) := by
  rw [nandBbmAssignBlock_eq, found]

theorem nandBbmAssignBlock_of_none
    {g : Geometry} {blockBad : Nat → Bool} {s : Bbm}
    (exhausted : reserveFor g blockBad s.assignIndex = none) (badpos : Nat) :
    nandBbmAssignBlock g blockBad s badpos =
      (badpos, (s.skipTo g.redirFloor).setCheck false) := by
  rw [nandBbmAssignBlock_eq, exhausted]

end Gp2Firmware.Nand
