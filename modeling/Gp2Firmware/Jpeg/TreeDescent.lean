import Gp2Firmware.Jpeg.TreeCapacity

/-!
# The way down a tree

Whatever codes a table has, also more than there is room for: as long as its tree is not left
while it is made, each pair of it is entered from pairs that were taken before, so that the way
through the tree ends.
-/

namespace Gp2Firmware.Jpeg.HuffmanTable

open Gp2Firmware.Lib Gp2Firmware.Jpeg.BitReader

section Descent

/-- An entry for a pair that has been taken. -/
def Taken (next entry : Int) : Prop :=
  entry < 0 → next < entry ∧ entry % 2 = 1

/-- Each pair is entered from those that were taken before it. -/
structure Descends (s : HuffTables × Int) : Prop where
  odd : s.2 % 2 = 1
  used : -513 ≤ s.2
  negative : s.2 < 0
  roots : ∀ index, Taken s.2 (s.1.lookUp index)
  nodes : ∀ index, Taken s.2 (s.1.tree index)
  later : ∀ index, s.1.tree index < 0 → s.1.tree index < -(2 * ((index / 2 : Nat) : Int) + 1)

variable {next entry symbol currententry newNext : Int} {code : U16} {turns place : Nat}
  {entries tree newTree : Nat → Int}

theorem taken_update (all : ∀ index, Taken next (entries index)) (here : Taken next entry)
    (index : Nat) : Taken next (Function.update entries place entry index) := by
  rw [Function.update_apply]
  split
  · exact here
  · exact all index

theorem Taken.more (taken : Taken next entry) : Taken (next - 2) entry := by
  intro negative
  obtain ⟨above, odd⟩ := taken negative
  exact ⟨by omega, odd⟩

theorem taken_symbol (positive : 0 ≤ symbol) : Taken next symbol :=
  fun negative => absurd negative (by omega)

theorem taken_fillLookUp (positive : 0 ≤ symbol) {count start : Nat}
    (all : ∀ index, Taken next (entries index)) (index : Nat) :
    Taken next (fillLookUp symbol count start entries index) := by
  induction count generalizing start entries with
  | zero => exact all index
  | succ count inductionHypothesis =>
      exact inductionHypothesis (taken_update all (taken_symbol positive))

theorem pair_of_treeIndex {index : Nat} (taken : Taken next currententry)
    (nonzero : currententry ≠ 0) (found : treeIndex currententry code = some index) :
    currententry = -(2 * ((index / 2 : Nat) : Int) + 1) := by
  rw [treeIndex] at found
  rw [Taken] at taken
  by_cases zero : code &&& (0x8000 : U16) = 0
  · simp only [if_pos zero, Option.ite_none_right_eq_some, Option.some.injEq] at found
    omega
  · simp only [if_neg zero, Option.ite_none_right_eq_some, Option.some.injEq] at found
    omega

/-- The tree with another entry. -/
theorem later_update {index : Nat}
    (later : ∀ index, tree index < 0 → tree index < -(2 * ((index / 2 : Nat) : Int) + 1))
    (here : entry < 0 → entry < -(2 * ((place / 2 : Nat) : Int) + 1))
    (negative : Function.update tree place entry index < 0) :
    Function.update tree place entry index < -(2 * ((index / 2 : Nat) : Int) + 1) := by
  rw [Function.update_apply] at negative ⊢
  split at negative
  · rename_i same
    subst same
    rw [if_pos rfl]
    exact here negative
  · rename_i other
    rw [if_neg other]
    exact later index negative

theorem descends_insertCode (positive : 0 ≤ symbol) (odd : next % 2 = 1) (negative : next < 0)
    (nodes : ∀ index, Taken next (tree index))
    (later : ∀ index, tree index < 0 → tree index < -(2 * ((index / 2 : Nat) : Int) + 1))
    (taken : Taken next currententry) (nonzero : currententry ≠ 0)
    (inserted : insertCode symbol turns code currententry (tree, next) = some (newTree, newNext)) :
    newNext % 2 = 1 ∧ newNext ≤ next ∧ (∀ index, Taken newNext (newTree index)) ∧
      ∀ index, newTree index < 0 → newTree index < -(2 * ((index / 2 : Nat) : Int) + 1) := by
  induction turns generalizing code currententry next tree with
  | zero =>
      simp only [insertCode, Option.bind_eq_bind, Option.bind_eq_some_iff] at inserted
      obtain ⟨index, -, put⟩ := inserted
      cases put
      exact ⟨odd, le_rfl, taken_update nodes (taken_symbol positive),
        fun _ => later_update later fun below => absurd below (by omega)⟩
  | succ turns inductionHypothesis =>
      simp only [insertCode, Option.bind_eq_bind, Option.bind_eq_some_iff] at inserted
      obtain ⟨index, found, goes⟩ := inserted
      have pair := pair_of_treeIndex taken nonzero found
      split at goes
      · have below := taken (by omega)
        have newTaken : Taken (next - 2) next := fun _ => ⟨by omega, odd⟩
        obtain ⟨oddThen, less, nodesThen, laterThen⟩ := inductionHypothesis (by omega) (by omega)
          (taken_update (fun index => (nodes index).more) newTaken)
          (fun _ => later_update later fun _ => by omega) newTaken (by omega) goes
        exact ⟨oddThen, by omega, nodesThen, laterThen⟩
      · rename_i full
        exact inductionHypothesis odd negative nodes later (nodes index) full goes

theorem Taken.below {other : Int} (taken : Taken next entry) (less : other ≤ next) :
    Taken other entry := by
  intro negative
  obtain ⟨above, odd⟩ := taken negative
  exact ⟨by omega, odd⟩

theorem descends_putCode {huffVal : U8} {codeSize : Nat} {s after : HuffTables × Int}
    (descends : Descends s) (put : putCode huffVal code codeSize s = some after) :
    Descends after := by
  have used := next_of_putCode descends.odd descends.used put
  have positive : (0 : Int) ≤ huffVal.toNat := by omega
  have odd := descends.odd
  have negative := descends.negative
  rw [putCode] at put
  dsimp only at put
  split at put
  · cases put
    exact ⟨odd, used, negative, taken_fillLookUp positive descends.roots, descends.nodes,
      descends.later⟩
  · simp only [Option.map_eq_some_iff] at put
    obtain ⟨⟨newTree, newNext⟩, inserted, same⟩ := put
    cases same
    dsimp only at used ⊢
    split at inserted
    · rename_i free
      have newTaken : Taken (s.2 - 2) s.2 := fun _ => ⟨by omega, odd⟩
      obtain ⟨oddThen, less, nodes, later⟩ := descends_insertCode positive (by omega) (by omega)
        (fun index => (descends.nodes index).more) descends.later newTaken (by omega) inserted
      refine ⟨oddThen, used, by dsimp only; omega, ?_, nodes, later⟩
      dsimp only
      rw [if_pos free]
      exact fun index => (taken_update (fun index => (descends.roots index).more) newTaken
        index).below less
    · rename_i full
      obtain ⟨oddThen, less, nodes, later⟩ := descends_insertCode positive odd negative
        descends.nodes descends.later (descends.roots _) full inserted
      refine ⟨oddThen, used, by dsimp only; omega, ?_, nodes, later⟩
      dsimp only
      rw [if_neg full]
      exact fun index => (descends.roots index).below less

theorem descends_makeTables {huffVal : Nat → U8} {huffsize : Nat → Nat} {huffcode : Nat → U16}
    {lastp : Nat} {after : HuffTables × Int}
    (made : makeTables huffVal huffsize huffcode lastp = some after) : Descends after := by
  rw [makeTables] at made
  induction lastp generalizing after with
  | zero =>
      cases made
      exact ⟨by decide, by decide, by decide, fun _ => taken_symbol le_rfl,
        fun _ => taken_symbol le_rfl, fun _ below => absurd below (lt_irrefl (0 : Int))⟩
  | succ lastp inductionHypothesis =>
      obtain ⟨before, madeBefore, put⟩ := foldlM_range_succ.mp made
      exact descends_putCode (inductionHypothesis madeBefore) put

variable {wait : Wait} {s : HuffTables × Int} {r : Reader}

/-- The way goes to pairs that were taken later and later. -/
theorem run_huffTurn_ends (descends : Descends s) (below : entry < 0) (taken : Taken s.2 entry)
    (enough : (entry - s.2).toNat ≤ turns) :
    ∃ result, Loop.run (huffTurn wait s.1) turns (entry, r) = some result := by
  induction turns generalizing entry r with
  | zero =>
      have above := (taken below).1
      omega
  | succ turns inductionHypothesis =>
      obtain ⟨above, odd⟩ := taken below
      cases turn : huffTurn wait s.1 (entry, r) with
      | inr result => exact ⟨result, Loop.run_of_leaves turn turns⟩
      | inl next =>
          obtain ⟨symbol, after⟩ := next
          rw [Loop.run_of_goes turn]
          have bit : (getBits2 wait 1 r).1.toNat < 2 := by
            have small : window r < 2 ^ 16 := Nat.mod_lt _ (by decide)
            rw [getBits2_toNat (by decide)]
            omega
          rw [huffTurn] at turn
          dsimp only at turn
          split at turn
          · rename_i negative
            cases turn
            have later := descends.later _ negative
            exact inductionHypothesis negative (descends.nodes _) (by omega)
          · cases turn

theorem huffDecode_ends (descends : Descends s) :
    ∃ result, huffDecode wait s.1 r = some result := by
  rw [huffDecode]
  split
  · rename_i below
    have taken := descends.roots ((r.bitBuf >>> 8) &&& 0xFF).toNat
    have used := descends.used
    exact run_huffTurn_ends descends below taken (by omega)
  · exact ⟨_, rfl⟩

end Descent

end Gp2Firmware.Jpeg.HuffmanTable
