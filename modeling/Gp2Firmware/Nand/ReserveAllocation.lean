import Gp2Firmware.Lib.DescendingPool
import Gp2Firmware.Nand.AssignBlock

/-!
# Reserve blocks are handed out once

The redirects recorded in `nand_bbm_bitmap` are a descending pool: every call
of `nand_bbm_assign_block` hands out a reserve block below all earlier ones.
The result holds for any sequence of calls, with any positions and any
answers of `block_bad`, also when the reserve blocks run out.
-/

namespace Gp2Firmware.Nand

open Gp2Firmware.Lib

/-- One call of `nand_bbm_assign_block`: the position it is given and what
`block_bad` answers while it runs. -/
structure AssignCall where
  badpos : Nat
  blockBad : Nat → Bool

/-- The map after a sequence of calls, from any map. -/
def afterCalls (g : Geometry) (s : Bbm) (calls : List AssignCall) : Bbm :=
  calls.foldl
    (fun s call => (nandBbmAssignBlock g call.blockBad s call.badpos).2) s

@[simp]
theorem afterCalls_append
    (g : Geometry) (s : Bbm) (first second : List AssignCall) :
    afterCalls g s (first ++ second) =
      afterCalls g (afterCalls g s first) second :=
  List.foldl_append

@[simp]
theorem afterCalls_singleton (g : Geometry) (s : Bbm) (call : AssignCall) :
    afterCalls g s [call] =
      (nandBbmAssignBlock g call.blockBad s call.badpos).2 := rfl

/-- The redirect recorded for a block, if it leads to another block. -/
def Bbm.redirect (g : Geometry) (s : Bbm) (index : Nat) : Option Nat :=
  if index < g.blocks ∧ s.target index ≠ index then some (s.target index)
  else none

theorem Bbm.redirect_eq_some_iff
    {g : Geometry} {s : Bbm} {index reserve : Nat} :
    s.redirect g index = some reserve ↔
      index < g.blocks ∧ s.target index = reserve ∧ reserve ≠ index := by
  rw [Bbm.redirect]
  split
  · rename_i redirected
    rw [Option.some.injEq]
    constructor
    · rintro rfl
      exact ⟨redirected.1, rfl, redirected.2⟩
    · rintro ⟨-, equal, -⟩
      exact equal
  · rename_i notRedirected
    simp only [reduceCtorEq, false_iff]
    rintro ⟨inside, rfl, different⟩
    exact notRedirected ⟨inside, different⟩

/-- What every call keeps: the redirects are a descending pool whose cursor is
`assign_index`, and an entry that leads elsewhere is flagged. -/
structure ReserveInv (g : Geometry) (s : Bbm) : Prop where
  pool : HandedOut g.redirFloor g.redirTop s.assignIndex (s.redirect g)
  cursor_le : s.assignIndex ≤ g.redirTop
  flagged_of_moved : ∀ index, index < g.blocks →
    s.target index ≠ index → s.flagged index = true

theorem redirTop_lt_pow (g : Geometry) : g.redirTop < 2 ^ 28 := by
  have top := g.redirTop_succ
  have small := g.blocks_lt
  omega

theorem reserve_lt_pow {g : Geometry} {s : Bbm} {blockBad : Nat → Bool}
    {reserve : Nat} (cursorLe : s.assignIndex ≤ g.redirTop)
    (found : reserveFor g blockBad s.assignIndex = some reserve) :
    reserve < 2 ^ 28 := by
  have within := (reserveFor_eq_some_iff.mp found).2.1
  have top := redirTop_lt_pow g
  omega

theorem nandBbmInfoInit_target
    (g : Geometry) (s : Bbm) {index : Nat} (inside : index < g.blocks) :
    (nandBbmInfoInit g s).target index = index := by
  simp only [Bbm.target, nandBbmInfoInit, if_pos inside]
  exact indexOf_ofNat (lt_trans inside g.blocks_lt)

theorem nandBbmInfoInit_flagged
    (g : Geometry) (s : Bbm) {index : Nat} (inside : index < g.blocks) :
    (nandBbmInfoInit g s).flagged index = false := by
  simp only [Bbm.flagged, nandBbmInfoInit, if_pos inside]
  exact isBad_ofNat (lt_trans inside g.blocks_lt)

theorem reserveInv_init (g : Geometry) (s : Bbm) :
    ReserveInv g (nandBbmInfoInit g s) where
  pool := by
    have unused : (nandBbmInfoInit g s).redirect g = fun _ => none := by
      funext index
      rw [Bbm.redirect, if_neg]
      rintro ⟨inside, moved⟩
      exact moved (nandBbmInfoInit_target g s inside)
    rw [unused]
    exact HandedOut.empty
  cursor_le := le_refl _
  flagged_of_moved index inside moved :=
    absurd (nandBbmInfoInit_target g s inside) moved

/-- Only the redirect of the block given to the call changes. -/
theorem redirect_assigned
    {g : Geometry} {s : Bbm} {bad reserve : Nat} (small : reserve < 2 ^ 28)
    (inside : bad < g.blocks) :
    (s.assigned bad reserve).redirect g =
      Function.update (s.redirect g) bad
        (if reserve = bad then none else some reserve) := by
  funext index
  by_cases same : index = bad
  · subst same
    rw [Function.update_self, Bbm.redirect, s.target_assigned _ _ small,
      if_pos rfl]
    by_cases itself : reserve = index
    · rw [if_neg (fun moved => moved.2 itself), if_pos itself]
    · rw [if_pos ⟨inside, itself⟩, if_neg itself]
  · rw [Function.update_of_ne same, Bbm.redirect, Bbm.redirect,
      s.target_assigned _ _ small, if_neg same]

theorem redirect_assigned_outside
    {g : Geometry} {s : Bbm} {bad reserve : Nat} (small : reserve < 2 ^ 28)
    (outside : ¬ bad < g.blocks) :
    (s.assigned bad reserve).redirect g = s.redirect g := by
  funext index
  rw [Bbm.redirect, Bbm.redirect, s.target_assigned _ _ small]
  by_cases same : index = bad
  · subst same
    rw [if_neg (fun moved => outside moved.1),
      if_neg (fun moved => outside moved.1)]
  · rw [if_neg same]

theorem redirect_skipTo (g : Geometry) (s : Bbm) (index : Nat) :
    (s.skipTo index).redirect g = s.redirect g := by
  funext other
  rw [Bbm.redirect, Bbm.redirect, s.target_skipTo]

/-- Recording a reserve block at or below the cursor keeps the invariant. -/
theorem reserveInv_assigned
    {g : Geometry} {s : Bbm} (inv : ReserveInv g s) (bad : Nat)
    {reserve : Nat} (above : g.redirFloor < reserve)
    (within : reserve ≤ s.assignIndex) :
    ReserveInv g (s.assigned bad reserve) := by
  have cursorLe := inv.cursor_le
  have small : reserve < 2 ^ 28 := by
    have := redirTop_lt_pow g
    omega
  have lowered : (s.assigned bad reserve).assignIndex = reserve - 1 := rfl
  refine ⟨?_, by omega, ?_⟩
  · rw [lowered]
    by_cases inside : bad < g.blocks
    · rw [redirect_assigned small inside]
      by_cases itself : reserve = bad
      · rw [if_pos itself]
        exact (inv.pool.drop bad).pass (by omega)
      · rw [if_neg itself]
        exact inv.pool.give bad above within cursorLe (by omega)
    · rw [redirect_assigned_outside small inside]
      exact inv.pool.pass (by omega)
  · intro index inside moved
    rw [s.target_assigned _ _ small] at moved
    rw [s.flagged_assigned]
    by_cases same : index = bad
    · simp [same]
    · rw [if_neg same] at moved
      simp [inv.flagged_of_moved index inside moved]

theorem reserveInv_skipTo
    {g : Geometry} {s : Bbm} (inv : ReserveInv g s) (index : Nat) :
    ReserveInv g (s.skipTo index) := by
  have lowered : (s.skipTo index).assignIndex = min index s.assignIndex := rfl
  have cursorLe := inv.cursor_le
  refine ⟨?_, by omega, ?_⟩
  · rw [redirect_skipTo, lowered]
    exact inv.pool.pass (Nat.min_le_right _ _)
  · intro other inside moved
    rw [s.target_skipTo] at moved
    rw [s.flagged_skipTo, inv.flagged_of_moved other inside moved,
      Bool.true_or]

/-- `nand_bbm_check` and the dirty flag play no part in the invariant. -/
theorem reserveInv_setCheck
    {g : Geometry} {s : Bbm} (inv : ReserveInv g s) (check : Bool) :
    ReserveInv g (s.setCheck check) :=
  ⟨inv.pool, inv.cursor_le, inv.flagged_of_moved⟩

theorem reserveInv_assignBlock
    {g : Geometry} {s : Bbm} (inv : ReserveInv g s)
    (blockBad : Nat → Bool) (badpos : Nat) :
    ReserveInv g (nandBbmAssignBlock g blockBad s badpos).2 := by
  cases found : reserveFor g blockBad s.assignIndex with
  | none =>
      rw [nandBbmAssignBlock_of_none found]
      exact reserveInv_setCheck (reserveInv_skipTo inv _) _
  | some reserve =>
      obtain ⟨above, within, -, -⟩ := reserveFor_eq_some_iff.mp found
      rw [nandBbmAssignBlock_of_some found]
      exact reserveInv_setCheck (reserveInv_assigned inv _ above within) _

theorem reserveInv_afterCalls
    {g : Geometry} {s : Bbm} (inv : ReserveInv g s) (calls : List AssignCall) :
    ReserveInv g (afterCalls g s calls) :=
  List.foldlRecOn calls _ inv fun _ kept call _ =>
    reserveInv_assignBlock kept call.blockBad call.badpos

theorem assignIndex_assignBlock_le
    (g : Geometry) (blockBad : Nat → Bool) (s : Bbm) (badpos : Nat) :
    (nandBbmAssignBlock g blockBad s badpos).2.assignIndex ≤ s.assignIndex := by
  cases found : reserveFor g blockBad s.assignIndex with
  | none =>
      rw [nandBbmAssignBlock_of_none found]
      exact Nat.min_le_right _ _
  | some reserve =>
      have within := (reserveFor_eq_some_iff.mp found).2.1
      rw [nandBbmAssignBlock_of_some found]
      exact le_trans (Nat.sub_le reserve 1) within

theorem assignIndex_afterCalls_le
    (g : Geometry) (s : Bbm) (calls : List AssignCall) :
    (afterCalls g s calls).assignIndex ≤ s.assignIndex := by
  refine List.foldlRecOn calls _ (motive := fun t : Bbm => t.assignIndex ≤ s.assignIndex)
    (le_refl _) fun t kept call _ => ?_
  exact le_trans
    (assignIndex_assignBlock_le g call.blockBad t call.badpos) kept

/-- A redirect comes from the call that was given the block: at that call the
reserve block was the highest good one left. -/
theorem redirect_provenance
    {g : Geometry} {s : Bbm} (inv : ReserveInv g s)
    (fresh : ∀ index, index < g.blocks → s.target index = index)
    {index : Nat} (inside : index < g.blocks) (calls : List AssignCall)
    (moved : (afterCalls g s calls).target index ≠ index) :
    ∃ before call after, calls = before ++ call :: after ∧
      g.blockIndex call.badpos = index ∧
      reserveFor g call.blockBad (afterCalls g s before).assignIndex =
        some ((afterCalls g s calls).target index) := by
  induction calls using List.reverseRecOn with
  | nil =>
      exact absurd (fresh index inside) moved
  | append_singleton calls last inductionHypothesis =>
      rw [afterCalls_append, afterCalls_singleton] at moved ⊢
      have kept := reserveInv_afterCalls inv calls
      have earlier :
          (afterCalls g s calls).target index ≠ index →
            ∃ before call after, calls ++ [last] = before ++ call :: after ∧
              g.blockIndex call.badpos = index ∧
              reserveFor g call.blockBad (afterCalls g s before).assignIndex =
                some ((afterCalls g s calls).target index) := by
        intro movedBefore
        obtain ⟨before, call, after, shape, position, found⟩ :=
          inductionHypothesis movedBefore
        exact ⟨before, call, after ++ [last], by simp [shape], position, found⟩
      cases found : reserveFor g last.blockBad (afterCalls g s calls).assignIndex with
      | none =>
          rw [nandBbmAssignBlock_of_none found] at moved ⊢
          simp only [Bbm.target_setCheck, Bbm.target_skipTo] at moved ⊢
          exact earlier moved
      | some reserve =>
          have small := reserve_lt_pow kept.cursor_le found
          rw [nandBbmAssignBlock_of_some found] at moved ⊢
          simp only [Bbm.target_setCheck, Bbm.target_assigned _ _ _ small]
            at moved ⊢
          by_cases here : index = g.blockIndex last.badpos
          · rw [if_pos here]
            exact ⟨calls, last, [], rfl, here.symm, found⟩
          · rw [if_neg here] at moved ⊢
            exact earlier moved

/-- The allocation law of the reserve region, for every sequence of calls from
a freshly initialised map. -/
theorem reserveAllocation
    (g : Geometry) (start : Bbm) (calls : List AssignCall) :
    let s := afterCalls g (nandBbmInfoInit g start) calls
    (∀ first second, first < g.blocks → second < g.blocks → first ≠ second →
      s.target first ≠ first → s.target second ≠ second →
        s.target first ≠ s.target second) ∧
    (∀ index, index < g.blocks → s.target index ≠ index →
      g.redirFloor < s.target index ∧ s.target index ≤ g.redirTop ∧
      s.assignIndex < s.target index ∧
      ∃ before call after, calls = before ++ call :: after ∧
        g.blockIndex call.badpos = index ∧
        call.blockBad (g.blockPos (s.target index)) = false ∧
        (nandBbmAssignBlock g call.blockBad
          (afterCalls g (nandBbmInfoInit g start) before) call.badpos).1 =
            g.blockPos (s.target index)) ∧
    ∀ before after, calls = before ++ after →
      s.assignIndex ≤
        (afterCalls g (nandBbmInfoInit g start) before).assignIndex := by
  intro s
  have initial := reserveInv_init g start
  have inv : ReserveInv g s := reserveInv_afterCalls initial calls
  have redirected : ∀ index, index < g.blocks → s.target index ≠ index →
      s.redirect g index = some (s.target index) :=
    fun index inside moved =>
      Bbm.redirect_eq_some_iff.mpr ⟨inside, rfl, moved⟩
  refine ⟨?_, ?_, ?_⟩
  · intro first second firstInside secondInside different firstMoved secondMoved
      equal
    have firstHolds := redirected first firstInside firstMoved
    have secondHolds := redirected second secondInside secondMoved
    rw [← equal] at secondHolds
    exact different (inv.pool.injective firstHolds secondHolds)
  · intro index inside moved
    have holds := redirected index inside moved
    obtain ⟨before, call, after, shape, position, found⟩ :=
      redirect_provenance initial
        (fun index inside => nandBbmInfoInit_target g start inside)
        inside calls moved
    refine ⟨inv.pool.low_lt holds, inv.pool.le_high holds,
      inv.pool.cursor_lt holds, before, call, after, shape, position,
      (reserveFor_eq_some_iff.mp found).2.2.1, ?_⟩
    rw [nandBbmAssignBlock_of_some found]
  · rintro before after rfl
    change (afterCalls g (nandBbmInfoInit g start) (before ++ after)).assignIndex ≤ _
    rw [afterCalls_append]
    exact assignIndex_afterCalls_le g _ after

end Gp2Firmware.Nand
