import Gp2Firmware.Nand.BlockMap
import Gp2Firmware.Nand.Translation

/-!
# Visiting bad blocks with translation switched on

Once `nand_bbm_check` is set, asking whether a block is bad redirects it if it
is.  This module says what a walk over any list of positions does to the map
when the bad blocks are fixed and the reserve blocks suffice: exactly the bad
blocks on the list become redirected, each to a good reserve block.
-/

namespace Gp2Firmware.Nand

/-- The mark of a bad block is on its first page, and may be on others; the
pages of a good block have none. -/
def GoodUnmarked (g : Geometry) (blockBad : Nat → Bool) : Prop :=
  ∀ ofs, blockBad (g.blockPos (g.blockIndex ofs)) = false → blockBad ofs = false

/-- The bad blocks of the device. -/
def badBlocks (g : Geometry) (blockBad : Nat → Bool) : Finset Nat :=
  (Finset.range g.blocks).filter fun index => blockBad (g.blockPos index) = true

/-- The good blocks from which stand-ins can be taken while `assign_index` is
at `cursor`. -/
def goodReserves (g : Geometry) (blockBad : Nat → Bool) (cursor : Nat) :
    Finset Nat :=
  (Finset.Ioc g.redirFloor cursor).filter fun index =>
    blockBad (g.blockPos index) = false

/-- There is a good reserve block for every bad block of the device. -/
def ReservesSuffice (g : Geometry) (blockBad : Nat → Bool) : Prop :=
  (badBlocks g blockBad).card ≤ (goodReserves g blockBad g.redirTop).card

instance (g : Geometry) (blockBad : Nat → Bool) :
    Decidable (ReservesSuffice g blockBad) :=
  inferInstanceAs (Decidable (_ ≤ _))

/-- Asking about one position with translation switched on. -/
def visit (g : Geometry) (blockBad : Nat → Bool) (s : Bbm) (pos : Nat) : Bbm :=
  (nandBbmAdjustCheck g blockBad s pos).2

/-- Asking about several positions in turn. -/
def visitAll (g : Geometry) (blockBad : Nat → Bool) (s : Bbm)
    (positions : List Nat) : Bbm :=
  positions.foldl (visit g blockBad) s

/-- A block is flagged, and its redirect leads to a good reserve block. -/
def StoodIn (g : Geometry) (blockBad : Nat → Bool) (s : Bbm)
    (block : Nat) : Prop :=
  s.flagged block = true ∧ g.redirFloor < s.target block ∧
    s.target block ≤ g.redirTop ∧ blockBad (g.blockPos (s.target block)) = false

/-- The map while exactly the blocks in `done` have been redirected.  Reserve
blocks passed over are flagged too, but stand for themselves. -/
structure Redirected (g : Geometry) (blockBad : Nat → Bool) (s : Bbm)
    (done : Finset Nat) : Prop where
  check : s.nandBbmCheck = true
  cursor_le : s.assignIndex ≤ g.redirTop
  done_bad : done ⊆ badBlocks g blockBad
  enough : (goodReserves g blockBad g.redirTop).card ≤
    (goodReserves g blockBad s.assignIndex).card + done.card
  stoodIn : ∀ block ∈ done, StoodIn g blockBad s block
  itself : ∀ block, block < g.blocks → block ∉ done → s.target block = block
  passed : ∀ block, block < g.blocks → block ∉ done →
    s.flagged block = true → g.redirFloor < block

variable {g : Geometry} {blockBad : Nat → Bool}

theorem mem_badBlocks {index : Nat} :
    index ∈ badBlocks g blockBad ↔
      index < g.blocks ∧ blockBad (g.blockPos index) = true := by
  rw [badBlocks, Finset.mem_filter, Finset.mem_range]

theorem mem_goodReserves {cursor index : Nat} :
    index ∈ goodReserves g blockBad cursor ↔
      (g.redirFloor < index ∧ index ≤ cursor) ∧
        blockBad (g.blockPos index) = false := by
  rw [goodReserves, Finset.mem_filter, Finset.mem_Ioc]

/-- A marked position lies in a bad block. -/
theorem GoodUnmarked.bad (unmarked : GoodUnmarked g blockBad) {pos : Nat}
    (marked : blockBad pos = true) :
    blockBad (g.blockPos (g.blockIndex pos)) = true := by
  apply Bool.eq_true_of_not_eq_false
  intro good
  have clear := unmarked pos good
  rw [marked] at clear
  exact Bool.noConfusion clear

/-- Taking the highest good reserve block leaves one less. -/
theorem card_goodReserves_pred {cursor reserve : Nat}
    (found : reserveFor g blockBad cursor = some reserve) :
    (goodReserves g blockBad cursor).card =
      (goodReserves g blockBad (reserve - 1)).card + 1 := by
  obtain ⟨above, within, good, skipped⟩ := reserveFor_eq_some_iff.mp found
  have split : goodReserves g blockBad cursor =
      insert reserve (goodReserves g blockBad (reserve - 1)) := by
    ext index
    simp only [Finset.mem_insert, mem_goodReserves]
    constructor
    · intro member
      obtain ⟨⟨low, high⟩, indexGood⟩ := member
      by_cases beyond : reserve < index
      · have bad := skipped index beyond high
        rw [indexGood] at bad
        exact Bool.noConfusion bad
      · by_cases same : index = reserve
        · exact Or.inl same
        · exact Or.inr ⟨⟨low, by omega⟩, indexGood⟩
    · intro member
      cases member with
      | inl same =>
          rw [same]
          exact ⟨⟨above, within⟩, good⟩
      | inr lower =>
          obtain ⟨⟨low, high⟩, indexGood⟩ := lower
          exact ⟨⟨low, by omega⟩, indexGood⟩
  rw [split, Finset.card_insert_of_notMem]
  intro member
  have lower := (mem_goodReserves.mp member).1.2
  omega

/-- A reserve block is left for a bad block that has none yet. -/
theorem exists_reserve (suffice : ReservesSuffice g blockBad) {cursor block : Nat}
    {done : Finset Nat} (doneBad : done ⊆ badBlocks g blockBad)
    (enough : (goodReserves g blockBad g.redirTop).card ≤
      (goodReserves g blockBad cursor).card + done.card)
    (bad : block ∈ badBlocks g blockBad) (fresh : block ∉ done) :
    ∃ reserve, reserveFor g blockBad cursor = some reserve := by
  cases found : reserveFor g blockBad cursor with
  | some reserve => exact ⟨reserve, rfl⟩
  | none =>
      have empty : goodReserves g blockBad cursor = ∅ := by
        apply Finset.eq_empty_of_forall_notMem
        intro index member
        obtain ⟨⟨low, high⟩, good⟩ := mem_goodReserves.mp member
        have bad := reserveFor_eq_none_iff.mp found index low high
        rw [good] at bad
        exact Bool.noConfusion bad
      have smaller : done.card < (badBlocks g blockBad).card :=
        Finset.card_lt_card
          ⟨doneBad, fun all => fresh (all bad)⟩
      rw [empty, Finset.card_empty, Nat.zero_add] at enough
      rw [ReservesSuffice] at suffice
      omega

/-- Giving the block its stand-in keeps the description, for the first block
as well as for later ones. -/
theorem redirected_assigned
    {s : Bbm} {done : Finset Nat} {block reserve : Nat}
    (cursorLe : s.assignIndex ≤ g.redirTop)
    (doneBad : done ⊆ badBlocks g blockBad)
    (enough : (goodReserves g blockBad g.redirTop).card ≤
      (goodReserves g blockBad s.assignIndex).card + done.card)
    (stoodIn : ∀ block ∈ done, StoodIn g blockBad s block)
    (itself : ∀ block, block < g.blocks → block ∉ done → s.target block = block)
    (passed : ∀ block, block < g.blocks → block ∉ done →
      s.flagged block = true → g.redirFloor < block)
    (bad : block ∈ badBlocks g blockBad) (fresh : block ∉ done)
    (found : reserveFor g blockBad s.assignIndex = some reserve) :
    Redirected g blockBad ((s.assigned block reserve).setCheck true)
      (insert block done) := by
  obtain ⟨above, within, good, skipped⟩ := reserveFor_eq_some_iff.mp found
  have small := reserve_lt_pow cursorLe found
  have lowered :
      ((s.assigned block reserve).setCheck true).assignIndex = reserve - 1 := rfl
  refine ⟨rfl, by omega, ?_, ?_, ?_, ?_, ?_⟩
  · apply Finset.insert_subset bad doneBad
  · rw [lowered, Finset.card_insert_of_notMem fresh]
    have pred := card_goodReserves_pred found
    omega
  · intro other member
    simp only [StoodIn, Bbm.flagged_setCheck, Bbm.target_setCheck,
      Bbm.target_assigned _ _ _ small, Bbm.flagged_assigned]
    by_cases same : other = block
    · simp only [same, if_true, decide_true, Bool.true_or, true_and]
      exact ⟨above, by omega, good⟩
    · have old := stoodIn other (Finset.mem_of_mem_insert_of_ne member same)
      simp only [if_neg same, old.1, Bool.or_true, Bool.true_or, true_and]
      exact old.2
  · intro other inside notDone
    rw [Finset.mem_insert, not_or] at notDone
    rw [Bbm.target_setCheck, Bbm.target_assigned _ _ _ small,
      if_neg notDone.1]
    exact itself other inside notDone.2
  · intro other inside notDone flagged
    rw [Finset.mem_insert, not_or] at notDone
    rw [Bbm.flagged_setCheck, Bbm.flagged_assigned, Bool.or_eq_true,
      Bool.or_eq_true, decide_eq_true_eq, decide_eq_true_eq] at flagged
    cases flagged with
    | inl earlier =>
        cases earlier with
        | inl same => exact absurd same notDone.1
        | inr flaggedBefore => exact passed other inside notDone.2 flaggedBefore
    | inr skippedNow => omega

namespace Redirected

variable {s : Bbm} {done : Finset Nat} {pos : Nat}

theorem translate_of_done
    (redirected : Redirected g blockBad s done)
    (settled : g.blockIndex pos ∈ done) :
    s.translate (g.blockIndex pos) = s.target (g.blockIndex pos) :=
  Bbm.translate_of_check redirected.check
    (redirected.stoodIn _ settled).1

/-- A block that has not been redirected is looked up as itself. -/
theorem translate_of_not_done
    (redirected : Redirected g blockBad s done) (inside : pos < g.size)
    (fresh : g.blockIndex pos ∉ done) :
    s.translate (g.blockIndex pos) = g.blockIndex pos := by
  have target :=
    redirected.itself _ (g.blockIndex_lt_blocks inside) fresh
  rw [Bbm.translate, target]
  split <;> rfl

theorem adjust_of_not_done
    (redirected : Redirected g blockBad s done) (inside : pos < g.size)
    (fresh : g.blockIndex pos ∉ done) :
    nandBbmAdjust g s pos = pos := by
  rw [nandBbmAdjust_eq, redirected.translate_of_not_done inside fresh,
    g.blockIndex_eq, Nat.div_add_mod']

/-- A position that is unmarked, or in a block already redirected, leads to an
unmarked one. -/
theorem adjusted_good
    (unmarked : GoodUnmarked g blockBad)
    (redirected : Redirected g blockBad s done) (inside : pos < g.size)
    (settled : blockBad pos = false ∨ g.blockIndex pos ∈ done) :
    blockBad (nandBbmAdjust g s pos) = false := by
  by_cases member : g.blockIndex pos ∈ done
  · apply unmarked
    rw [blockIndex_nandBbmAdjust, redirected.translate_of_done member]
    exact (redirected.stoodIn _ member).2.2.2
  · rw [redirected.adjust_of_not_done inside member]
    exact settled.resolve_right member

/-- Visiting such a position changes nothing, and it is found good. -/
theorem adjustCheck_settled
    (unmarked : GoodUnmarked g blockBad)
    (redirected : Redirected g blockBad s done) (inside : pos < g.size)
    (settled : blockBad pos = false ∨ g.blockIndex pos ∈ done) :
    nandBbmAdjustCheck g blockBad s pos = (nandBbmAdjust g s pos, s) :=
  nandBbmAdjustCheck_of_good
    fun _ => redirected.adjusted_good unmarked inside settled

theorem visit_settled
    (unmarked : GoodUnmarked g blockBad)
    (redirected : Redirected g blockBad s done) (inside : pos < g.size)
    (settled : blockBad pos = false ∨ g.blockIndex pos ∈ done) :
    visit g blockBad s pos = s := by
  rw [visit, redirected.adjustCheck_settled unmarked inside settled]

/-- Visiting a marked position whose block has no stand-in yet gives it one. -/
theorem adjustCheck_fresh
    (unmarked : GoodUnmarked g blockBad) (suffice : ReservesSuffice g blockBad)
    (redirected : Redirected g blockBad s done) (inside : pos < g.size)
    (marked : blockBad pos = true) (fresh : g.blockIndex pos ∉ done) :
    ∃ reserve, reserveFor g blockBad s.assignIndex = some reserve ∧
      nandBbmAdjustCheck g blockBad s pos =
        (g.blockPos reserve,
          (s.assigned (g.blockIndex pos) reserve).setCheck true) := by
  have bad : g.blockIndex pos ∈ badBlocks g blockBad :=
    mem_badBlocks.mpr ⟨g.blockIndex_lt_blocks inside, unmarked.bad marked⟩
  obtain ⟨reserve, found⟩ :=
    exists_reserve suffice redirected.done_bad redirected.enough bad fresh
  have adjusted := redirected.adjust_of_not_done inside fresh
  refine ⟨reserve, found, ?_⟩
  rw [nandBbmAdjustCheck_of_bad redirected.check (by rw [adjusted]; exact marked),
    adjusted, nandBbmAssignBlock_of_some found]

/-- The blocks redirected after a visit. -/
def doneAfter (g : Geometry) (blockBad : Nat → Bool) (done : Finset Nat)
    (pos : Nat) : Finset Nat :=
  if blockBad pos then insert (g.blockIndex pos) done else done

/-- One visit: the position is found good, and its block is redirected if it is
marked. -/
theorem visit_step
    (unmarked : GoodUnmarked g blockBad) (suffice : ReservesSuffice g blockBad)
    (redirected : Redirected g blockBad s done) (inside : pos < g.size) :
    blockBad (nandBbmAdjustCheck g blockBad s pos).1 = false ∧
      Redirected g blockBad (visit g blockBad s pos)
        (doneAfter g blockBad done pos) := by
  by_cases settled : blockBad pos = false ∨ g.blockIndex pos ∈ done
  · have unchanged : doneAfter g blockBad done pos = done := by
      rw [doneAfter]
      split
      · rename_i marked
        apply Finset.insert_eq_self.mpr
        apply settled.resolve_left
        rw [marked]
        exact Bool.noConfusion
      · rfl
    rw [unchanged, redirected.visit_settled unmarked inside settled,
      redirected.adjustCheck_settled unmarked inside settled]
    exact ⟨redirected.adjusted_good unmarked inside settled, redirected⟩
  · rw [not_or] at settled
    obtain ⟨notGood, fresh⟩ := settled
    have marked := Bool.eq_true_of_not_eq_false notGood
    obtain ⟨reserve, found, looked⟩ :=
      redirected.adjustCheck_fresh unmarked suffice inside marked fresh
    have bad : g.blockIndex pos ∈ badBlocks g blockBad :=
      mem_badBlocks.mpr ⟨g.blockIndex_lt_blocks inside, unmarked.bad marked⟩
    rw [visit, looked, doneAfter, if_pos marked]
    exact ⟨(reserveFor_eq_some_iff.mp found).2.2.1,
      redirected_assigned redirected.cursor_le redirected.done_bad
        redirected.enough redirected.stoodIn redirected.itself redirected.passed
        bad fresh found⟩

/-- A walk: exactly the blocks marked at a position of the walk are
redirected in addition. -/
theorem visitAll_run
    (unmarked : GoodUnmarked g blockBad) (suffice : ReservesSuffice g blockBad)
    (redirected : Redirected g blockBad s done) (positions : List Nat)
    (inside : ∀ pos ∈ positions, pos < g.size) :
    Redirected g blockBad (visitAll g blockBad s positions)
      (positions.foldl (doneAfter g blockBad) done) := by
  induction positions generalizing s done with
  | nil => exact redirected
  | cons pos rest inductionHypothesis =>
      rw [List.forall_mem_cons] at inside
      apply inductionHypothesis _ inside.2
      exact (redirected.visit_step unmarked suffice inside.1).2

/-- Positions where nothing is to be done can be left out at the front. -/
theorem visitAll_settled
    (unmarked : GoodUnmarked g blockBad)
    (redirected : Redirected g blockBad s done) (positions : List Nat)
    (inside : ∀ pos ∈ positions, pos < g.size)
    (settled : ∀ pos ∈ positions,
      blockBad pos = false ∨ g.blockIndex pos ∈ done) :
    visitAll g blockBad s positions = s := by
  induction positions with
  | nil => rfl
  | cons pos rest inductionHypothesis =>
      rw [List.forall_mem_cons] at inside settled
      rw [visitAll, List.foldl_cons,
        redirected.visit_settled unmarked inside.1 settled.1]
      exact inductionHypothesis inside.2 settled.2

end Redirected

theorem mem_foldl_doneAfter {positions : List Nat} {done : Finset Nat}
    {block : Nat} :
    block ∈ positions.foldl (Redirected.doneAfter g blockBad) done ↔
      block ∈ done ∨
        ∃ pos ∈ positions, blockBad pos = true ∧ g.blockIndex pos = block := by
  induction positions generalizing done with
  | nil => simp
  | cons pos rest inductionHypothesis =>
      rw [List.foldl_cons, inductionHypothesis, Redirected.doneAfter]
      by_cases marked : blockBad pos = true
      · rw [if_pos marked, Finset.mem_insert]
        simp only [List.exists_mem_cons_iff, marked, true_and]
        rw [@eq_comm _ block]
        tauto
      · rw [if_neg marked]
        simp only [List.exists_mem_cons_iff, marked, false_and, false_or,
          Bool.false_eq_true]

@[simp]
theorem visitAll_append (s : Bbm) (first second : List Nat) :
    visitAll g blockBad s (first ++ second) =
      visitAll g blockBad (visitAll g blockBad s first) second :=
  List.foldl_append

/-! ### The same map in two memories -/

/-- Two maps agree on everything that describes the blocks of the device. -/
structure SameMap (g : Geometry) (s t : Bbm) : Prop where
  bitmap : ∀ index, index < g.blocks →
    s.nandBbmBitmap index = t.nandBbmBitmap index
  assignIndex : s.assignIndex = t.assignIndex
  bbCountData : s.bbCountData = t.bbCountData
  bbCountRedirect : s.bbCountRedirect = t.bbCountRedirect

namespace SameMap

variable {s t : Bbm}

theorem flagged (same : SameMap g s t) {index : Nat} (inside : index < g.blocks) :
    s.flagged index = t.flagged index := by
  rw [Bbm.flagged, Bbm.flagged, same.bitmap index inside]

theorem target (same : SameMap g s t) {index : Nat} (inside : index < g.blocks) :
    s.target index = t.target index := by
  rw [Bbm.target, Bbm.target, same.bitmap index inside]

theorem setCheck (same : SameMap g s t) (first second : Bool) :
    SameMap g (s.setCheck first) (t.setCheck second) :=
  ⟨same.bitmap, same.assignIndex, same.bbCountData, same.bbCountRedirect⟩

theorem skipTo (same : SameMap g s t) (index : Nat) :
    SameMap g (s.skipTo index) (t.skipTo index) where
  bitmap passed inside := by
    simp only [Bbm.skipTo, same.assignIndex, same.bitmap passed inside]
  assignIndex := by simp only [Bbm.skipTo, same.assignIndex]
  bbCountData := same.bbCountData
  bbCountRedirect := by
    simp only [Bbm.skipTo, same.assignIndex, same.bbCountRedirect]

theorem assigned (same : SameMap g s t) (bad : Nat) {reserve : Nat}
    (inside : reserve < g.blocks) :
    SameMap g (s.assigned bad reserve) (t.assigned bad reserve) where
  bitmap index within := by
    have skipped := same.skipTo reserve
    have recorded : ∀ other, other < g.blocks →
        Function.update (s.skipTo reserve).nandBbmBitmap bad
            (badEntry reserve) other =
          Function.update (t.skipTo reserve).nandBbmBitmap bad
            (badEntry reserve) other := by
      intro other otherInside
      by_cases here : other = bad
      · rw [here, Function.update_self, Function.update_self]
      · rw [Function.update_of_ne here, Function.update_of_ne here]
        exact skipped.bitmap other otherInside
    simp only [Bbm.assigned, Bbm.record]
    by_cases here : index = reserve
    · rw [here, Function.update_self, Function.update_self,
        recorded reserve inside]
    · rw [Function.update_of_ne here, Function.update_of_ne here]
      exact recorded index within
  assignIndex := rfl
  bbCountData := congrArg (· + 1) same.bbCountData
  bbCountRedirect := (same.skipTo reserve).bbCountRedirect

theorem assignBlock (same : SameMap g s t) (cursorLe : t.assignIndex ≤ g.redirTop)
    (badpos : Nat) :
    SameMap g (nandBbmAssignBlock g blockBad s badpos).2
      (nandBbmAssignBlock g blockBad t badpos).2 := by
  rw [nandBbmAssignBlock_eq, nandBbmAssignBlock_eq, same.assignIndex]
  cases found : reserveFor g blockBad t.assignIndex with
  | none => exact (same.skipTo _).setCheck _ _
  | some reserve =>
      have within := (reserveFor_eq_some_iff.mp found).2.1
      have top := g.redirTop_succ
      exact (same.assigned _ (by omega)).setCheck _ _

theorem adjust (same : SameMap g s t)
    (check : s.nandBbmCheck = t.nandBbmCheck) {pos : Nat}
    (inside : pos < g.size) :
    nandBbmAdjust g s pos = nandBbmAdjust g t pos := by
  have block := g.blockIndex_lt_blocks inside
  rw [nandBbmAdjust, nandBbmAdjust, check, same.flagged block,
    same.target block]

theorem visit (same : SameMap g s t)
    (check : s.nandBbmCheck = t.nandBbmCheck)
    (cursorLe : t.assignIndex ≤ g.redirTop) {pos : Nat} (inside : pos < g.size) :
    SameMap g (visit g blockBad s pos) (visit g blockBad t pos) := by
  rw [Nand.visit, Nand.visit, nandBbmAdjustCheck, nandBbmAdjustCheck, check,
    same.adjust check inside]
  split
  · exact same.assignBlock cursorLe _
  · exact same

/-- A walk keeps two descriptions of the same map the same. -/
theorem visitAll
    (unmarked : GoodUnmarked g blockBad) (suffice : ReservesSuffice g blockBad)
    {done : Finset Nat} (first : Redirected g blockBad s done)
    (second : Redirected g blockBad t done) (same : SameMap g s t)
    (positions : List Nat) (inside : ∀ pos ∈ positions, pos < g.size) :
    SameMap g (visitAll g blockBad s positions)
      (visitAll g blockBad t positions) := by
  induction positions generalizing s t done with
  | nil => exact same
  | cons pos rest inductionHypothesis =>
      rw [List.forall_mem_cons] at inside
      apply inductionHypothesis
        (first.visit_step unmarked suffice inside.1).2
        (second.visit_step unmarked suffice inside.1).2
        _ inside.2
      exact same.visit (first.check.trans second.check.symm)
        second.cursor_le inside.1

theorem init (g : Geometry) (s t : Bbm) :
    SameMap g (nandBbmInfoInit g s) (nandBbmInfoInit g t) where
  bitmap index inside := by
    simp only [nandBbmInfoInit, if_pos inside]
  assignIndex := rfl
  bbCountData := rfl
  bbCountRedirect := rfl

end SameMap

end Gp2Firmware.Nand
