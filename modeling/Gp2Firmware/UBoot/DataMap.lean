import Gp2Firmware.Nand.BlockMap

/-!
# The map of a device whose data blocks fail one by one

When every call of `nand_bbm_assign_block` is for another data block, the map
is determined by the redirects and by `assign_index`: data blocks are redirected
or untouched, and every reserve block above `assign_index` either stands in for
a data block or was bad and passed over.
-/

namespace Gp2Firmware.UBoot

open Gp2Firmware.Nand

/-- A block of the data region. -/
def DataBlock (g : Geometry) (block : Nat) : Prop :=
  bbmInfoSize ≤ g.blockPos block ∧ block < g.redirFloor

theorem DataBlock.pos {g : Geometry} {block : Nat} (data : DataBlock g block) :
    0 < block := by
  apply Nat.pos_of_ne_zero
  rintro rfl
  have behind := data.1
  rw [g.blockPos_eq, Nat.zero_mul] at behind
  exact absurd behind (by decide)

/-- The calls are for distinct data blocks. -/
structure DataCalls (g : Geometry) (calls : List AssignCall) : Prop where
  distinct : (calls.map fun call => g.blockIndex call.badpos).Nodup
  data : ∀ call ∈ calls, DataBlock g (g.blockIndex call.badpos)

/-- The blocks that are redirected. -/
def redirectedBlocks (g : Geometry) (s : Bbm) : Finset Nat :=
  (Finset.range g.blocks).filter fun block => (s.redirect g block).isSome

/-- The map after calls for the blocks `given`. -/
structure DataMap (g : Geometry) (s : Bbm) (given : List Nat) : Prop where
  inv : ReserveInv g s
  floor_le : g.redirFloor ≤ s.assignIndex
  onlyData : ∀ block target, s.redirect g block = some target →
    DataBlock g block ∧ block ∈ given
  redirected : ∀ block target, s.redirect g block = some target →
    s.nandBbmBitmap block = badEntry target
  untouched : ∀ block, block ≤ s.assignIndex → s.redirect g block = none →
    s.nandBbmBitmap block = BitVec.ofNat 32 block
  standIn : ∀ block target, s.redirect g block = some target →
    s.nandBbmBitmap target = BitVec.ofNat 32 target ||| bbmRedirMask
  passedOver : ∀ block, s.assignIndex < block → block ≤ g.redirTop →
    (∀ other, s.redirect g other ≠ some block) →
    s.nandBbmBitmap block = BitVec.ofNat 32 block ||| bbmBbMask
  counted : s.bbCountData + s.bbCountRedirect + s.assignIndex = g.redirTop
  countedData : s.bbCountData = (redirectedBlocks g s).card

variable {g : Geometry}

theorem dataMap_init (g : Geometry) (start : Bbm) :
    DataMap g (nandBbmInfoInit g start) [] := by
  have inv := reserveInv_init g start
  have top := g.redirTop_succ
  have noRedirect : ∀ block, (nandBbmInfoInit g start).redirect g block = none := by
    intro block
    rw [Bbm.redirect, if_neg]
    rintro ⟨inside, moved⟩
    exact moved (nandBbmInfoInit_target g start inside)
  have unused : redirectedBlocks g (nandBbmInfoInit g start) = ∅ := by
    rw [redirectedBlocks, Finset.filter_eq_empty_iff]
    intro block _
    rw [noRedirect]
    simp
  constructor
  · exact inv
  · exact Nat.le_of_lt g.redirFloor_lt_redirTop
  · intro block target found
    rw [noRedirect] at found
    exact absurd found (by simp)
  · intro block target found
    rw [noRedirect] at found
    exact absurd found (by simp)
  · intro block within _
    have inside : block < g.blocks := by
      have le : block ≤ g.redirTop := within
      omega
    simp only [nandBbmInfoInit, if_pos inside]
  · intro block target found
    rw [noRedirect] at found
    exact absurd found (by simp)
  · intro block above within _
    exact absurd (lt_of_lt_of_le above within) (lt_irrefl _)
  · exact Nat.zero_add _
  · rw [unused]
    rfl

/-- The entries after a reserve block has been recorded for another block. -/
private theorem nandBbmBitmap_assigned
    (s : Bbm) {bad reserve : Nat} (different : bad ≠ reserve) (block : Nat) :
    (s.assigned bad reserve).nandBbmBitmap block =
      if block = bad then badEntry reserve
      else if block = reserve then s.nandBbmBitmap reserve ||| bbmRedirMask
      else if reserve < block ∧ block ≤ s.assignIndex then
        s.nandBbmBitmap block ||| bbmBbMask
      else s.nandBbmBitmap block := by
  simp only [Bbm.assigned, Bbm.record, Bbm.skipTo]
  by_cases here : block = reserve
  · subst here
    rw [Function.update_self, Function.update_of_ne (Ne.symm different),
      if_neg (Ne.symm different), if_pos rfl, if_neg (by omega)]
  · rw [Function.update_of_ne here, if_neg here]
    by_cases same : block = bad
    · subst same
      rw [Function.update_self, if_pos rfl]
    · rw [Function.update_of_ne same, if_neg same]

private theorem dataMap_exhausted
    {s : Bbm} {given : List Nat} (map : DataMap g s given) (block : Nat) :
    DataMap g ((s.skipTo g.redirFloor).setCheck false) (block :: given) := by
  have floorLe := map.floor_le
  have cursor : ((s.skipTo g.redirFloor).setCheck false).assignIndex =
      g.redirFloor := Nat.min_eq_left floorLe
  have redirect : ((s.skipTo g.redirFloor).setCheck false).redirect g =
      s.redirect g := redirect_skipTo g s g.redirFloor
  have entry : ∀ other,
      ((s.skipTo g.redirFloor).setCheck false).nandBbmBitmap other =
        if g.redirFloor < other ∧ other ≤ s.assignIndex then
          s.nandBbmBitmap other ||| bbmBbMask
        else s.nandBbmBitmap other := fun _ => rfl
  constructor
  · exact reserveInv_setCheck (reserveInv_skipTo map.inv _) _
  · rw [cursor]
  · intro other target found
    rw [redirect] at found
    obtain ⟨data, member⟩ := map.onlyData other target found
    exact ⟨data, List.mem_cons_of_mem _ member⟩
  · intro other target found
    rw [redirect] at found
    have low := (map.onlyData other target found).1.2
    rw [entry, if_neg (by omega)]
    exact map.redirected other target found
  · intro other within free
    rw [redirect] at free
    rw [cursor] at within
    rw [entry, if_neg (by omega)]
    exact map.untouched other (by omega) free
  · intro other target found
    rw [redirect] at found
    have above := map.inv.pool.cursor_lt found
    rw [entry, if_neg (by omega)]
    exact map.standIn other target found
  · intro other above within unclaimed
    rw [redirect] at unclaimed
    rw [cursor] at above
    rw [entry]
    by_cases free : other ≤ s.assignIndex
    · have notRedirected : s.redirect g other = none := by
        cases found : s.redirect g other with
        | none => rfl
        | some target =>
            have low := (map.onlyData other target found).1.2
            omega
      rw [if_pos ⟨above, free⟩, map.untouched other free notRedirected]
    · rw [if_neg (by omega)]
      exact map.passedOver other (by omega) within unclaimed
  · have counted := map.counted
    rw [cursor]
    change s.bbCountData + (s.bbCountRedirect + (s.assignIndex - g.redirFloor)) +
      g.redirFloor = g.redirTop
    omega
  · rw [redirectedBlocks, redirect]
    exact map.countedData

private theorem dataMap_assigned
    {s : Bbm} {given : List Nat} (map : DataMap g s given) {block : Nat}
    (data : DataBlock g block) (new : block ∉ given) {reserve : Nat}
    (above : g.redirFloor < reserve) (within : reserve ≤ s.assignIndex) :
    DataMap g ((s.assigned block reserve).setCheck true) (block :: given) := by
  have low := data.2
  have cursorLe := map.inv.cursor_le
  have top := g.redirTop_succ
  have small : reserve < 2 ^ 28 := by
    have := redirTop_lt_pow g
    omega
  have fresh : s.redirect g block = none := by
    cases found : s.redirect g block with
    | none => rfl
    | some target => exact absurd (map.onlyData block target found).2 new
  have reserveFree : s.redirect g reserve = none := by
    cases found : s.redirect g reserve with
    | none => rfl
    | some target =>
        have := (map.onlyData reserve target found).1.2
        omega
  have cursor : ((s.assigned block reserve).setCheck true).assignIndex =
      reserve - 1 := rfl
  have redirect : ((s.assigned block reserve).setCheck true).redirect g =
      Function.update (s.redirect g) block (some reserve) := by
    have recorded := redirect_assigned (g := g) (s := s) small
      (show block < g.blocks by omega)
    rw [if_neg (by omega)] at recorded
    exact recorded
  have entry : ∀ other,
      ((s.assigned block reserve).setCheck true).nandBbmBitmap other =
        if other = block then badEntry reserve
        else if other = reserve then s.nandBbmBitmap reserve ||| bbmRedirMask
        else if reserve < other ∧ other ≤ s.assignIndex then
          s.nandBbmBitmap other ||| bbmBbMask
        else s.nandBbmBitmap other :=
    nandBbmBitmap_assigned s (by omega)
  -- a redirect is the new one or one from before
  have eitherOne : ∀ {other target},
      Function.update (s.redirect g) block (some reserve) other = some target →
        (other = block ∧ target = reserve) ∨
          (other ≠ block ∧ s.redirect g other = some target) := by
    intro other target found
    by_cases same : other = block
    · subst same
      rw [Function.update_self, Option.some.injEq] at found
      exact Or.inl ⟨rfl, found.symm⟩
    · rw [Function.update_of_ne same] at found
      exact Or.inr ⟨same, found⟩
  constructor
  · exact reserveInv_setCheck (reserveInv_assigned map.inv _ above within) _
  · rw [cursor]
    omega
  · intro other target found
    rw [redirect] at found
    rcases eitherOne found with ⟨rfl, rfl⟩ | ⟨-, old⟩
    · exact ⟨data, List.mem_cons_self⟩
    · obtain ⟨dataOther, member⟩ := map.onlyData other target old
      exact ⟨dataOther, List.mem_cons_of_mem _ member⟩
  · intro other target found
    rw [redirect] at found
    rw [entry]
    rcases eitherOne found with ⟨rfl, rfl⟩ | ⟨different, old⟩
    · rw [if_pos rfl]
    · have lowOther := (map.onlyData other target old).1.2
      rw [if_neg different, if_neg (by omega), if_neg (by omega)]
      exact map.redirected other target old
  · intro other below free
    rw [redirect] at free
    rw [cursor] at below
    have different : other ≠ block := by
      rintro rfl
      rw [Function.update_self] at free
      exact absurd free (by simp)
    rw [Function.update_of_ne different] at free
    rw [entry, if_neg different, if_neg (by omega), if_neg (by omega)]
    exact map.untouched other (by omega) free
  · intro other target found
    rw [redirect] at found
    rw [entry]
    rcases eitherOne found with ⟨rfl, rfl⟩ | ⟨-, old⟩
    · rw [if_neg (by omega), if_pos rfl,
        map.untouched target within reserveFree]
    · have higher := map.inv.pool.cursor_lt old
      have reserved := map.inv.pool.low_lt old
      rw [if_neg (by omega), if_neg (by omega), if_neg (by omega)]
      exact map.standIn other target old
  · intro other higher inRegion unclaimed
    rw [redirect] at unclaimed
    rw [cursor] at higher
    have notReserve : other ≠ reserve := by
      rintro rfl
      exact unclaimed block (Function.update_self ..)
    rw [entry, if_neg (by omega), if_neg notReserve]
    by_cases passed : other ≤ s.assignIndex
    · have notRedirected : s.redirect g other = none := by
        cases found : s.redirect g other with
        | none => rfl
        | some target =>
            have := (map.onlyData other target found).1.2
            omega
      rw [if_pos ⟨by omega, passed⟩, map.untouched other passed notRedirected]
    · rw [if_neg (by omega)]
      apply map.passedOver other (by omega) inRegion
      intro holder found
      apply unclaimed holder
      rw [Function.update_of_ne]
      · exact found
      · rintro rfl
        rw [fresh] at found
        exact absurd found (by simp)
  · have counted := map.counted
    rw [cursor]
    change s.bbCountData + 1 + (s.bbCountRedirect + (s.assignIndex - reserve)) +
      (reserve - 1) = g.redirTop
    omega
  · have grown :
        redirectedBlocks g ((s.assigned block reserve).setCheck true) =
          insert block (redirectedBlocks g s) := by
      rw [redirectedBlocks, redirect]
      ext other
      simp only [redirectedBlocks, Finset.mem_filter, Finset.mem_range,
        Finset.mem_insert]
      by_cases same : other = block
      · subst same
        rw [Function.update_self]
        simp
        omega
      · rw [Function.update_of_ne same]
        simp [same]
    have outside : block ∉ redirectedBlocks g s := by
      rw [redirectedBlocks, Finset.mem_filter, fresh]
      simp
    rw [grown, Finset.card_insert_of_notMem outside, ← map.countedData]
    rfl

theorem dataMap_assignBlock
    {s : Bbm} {given : List Nat} (map : DataMap g s given) {call : AssignCall}
    (data : DataBlock g (g.blockIndex call.badpos))
    (new : g.blockIndex call.badpos ∉ given) :
    DataMap g (nandBbmAssignBlock g call.blockBad s call.badpos).2
      (g.blockIndex call.badpos :: given) := by
  cases found : reserveFor g call.blockBad s.assignIndex with
  | none =>
      rw [nandBbmAssignBlock_of_none found]
      exact dataMap_exhausted map _
  | some reserve =>
      obtain ⟨above, within, -, -⟩ := reserveFor_eq_some_iff.mp found
      rw [nandBbmAssignBlock_of_some found]
      exact dataMap_assigned map data new above within

theorem dataMap_afterCalls
    {s : Bbm} {given : List Nat} (map : DataMap g s given)
    {calls : List AssignCall} (data : DataCalls g calls)
    (new : ∀ call ∈ calls, g.blockIndex call.badpos ∉ given) :
    ∃ given, DataMap g (afterCalls g s calls) given := by
  induction calls generalizing s given with
  | nil => exact ⟨given, map⟩
  | cons call calls inductionHypothesis =>
      obtain ⟨distinct, dataBlocks⟩ := data
      rw [List.map_cons, List.nodup_cons] at distinct
      have first := dataMap_assignBlock map
        (dataBlocks call List.mem_cons_self) (new call List.mem_cons_self)
      apply inductionHypothesis first
      · exact ⟨distinct.2, fun other member =>
          dataBlocks other (List.mem_cons_of_mem _ member)⟩
      · intro other member
        rw [List.mem_cons, not_or]
        refine ⟨fun same => distinct.1 ?_,
          new other (List.mem_cons_of_mem _ member)⟩
        rw [← same]
        exact List.mem_map_of_mem member

/-! ### Reading the map -/

namespace DataMap

variable {s : Bbm} {given : List Nat} (map : DataMap g s given)

include map

theorem flagged_of_redirect
    {block target : Nat} (found : s.redirect g block = some target) :
    s.flagged block = true := by
  rw [Bbm.flagged, map.redirected block target found, isBad_badEntry]

/-- Below `assign_index` only redirected blocks are flagged. -/
theorem redirect_of_flagged
    {block : Nat} (below : block ≤ s.assignIndex)
    (flagged : s.flagged block = true) :
    s.redirect g block = some (s.target block) := by
  have top := g.redirTop_succ
  have cursorLe := map.inv.cursor_le
  cases found : s.redirect g block with
  | some target =>
      rw [(Bbm.redirect_eq_some_iff.mp found).2.1]
  | none =>
      rw [Bbm.flagged, map.untouched block below found,
        isBad_ofNat (by have := g.blocks_lt; omega)] at flagged
      exact absurd flagged (by simp)

theorem not_flagged_zero : s.flagged 0 = false := by
  apply Bool.eq_false_of_not_eq_true
  intro flagged
  have found := map.redirect_of_flagged (Nat.zero_le _) flagged
  exact absurd (map.onlyData 0 _ found).1.pos (lt_irrefl 0)

/-- A reserve block that has the redirect flag stands in for a data block. -/
theorem standIn_of_isRedirect
    {block : Nat} (above : s.assignIndex < block)
    (inRegion : block ≤ g.redirTop)
    (redirect : isRedirect (s.nandBbmBitmap block) = true) :
    ∃ other, s.redirect g other = some block := by
  by_contra unclaimed
  rw [not_exists] at unclaimed
  have small : block < 2 ^ 28 := by
    have := redirTop_lt_pow g
    omega
  rw [map.passedOver block above inRegion unclaimed, isRedirect_or,
    isRedirect_ofNat small, isRedirect_bbmBbMask] at redirect
  exact absurd redirect (by simp)

end DataMap

end Gp2Firmware.UBoot
