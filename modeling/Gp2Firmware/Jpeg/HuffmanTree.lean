import Mathlib.Tactic.Ring
import Gp2Firmware.Jpeg.HuffmanTable

/-!
# Decoding with the Huffman tables

The look-up table and the tree hold, for some first bits of a window, the symbol
of the code word that these bits end, a link to the pair of entries for one bit
more where they are inside of longer code words, or zero.  A list of these first
bits, in the order in which their pairs were taken, says which pair belongs to
which of them.
-/

namespace Gp2Firmware.Jpeg.HuffmanTable

open Gp2Firmware.Lib Gp2Firmware.Lib.CanonicalCode Gp2Firmware.Jpeg.BitReader

section Tree

variable (sizes symbols : Nat → Nat)

/-- The entry for some first bits, while the codes before one are in the tables. -/
inductive Cell (nodes : List (Nat × Nat)) (placed : Nat) (key : Nat × Nat) : Int → Prop where
  | node {k : Nat} : nodes[k]? = some key → Cell nodes placed key (-(2 * k + 1))
  | symbol {q : Nat} : q < placed → Ends sizes q key → Cell nodes placed key (symbols q)
  | empty : key ∉ nodes → (∀ q < placed, ¬ Ends sizes q key) → Cell nodes placed key 0

/-- The tables with the codes before `placed`, and pairs for bits inside of the codes
before `reached`. -/
structure Linked (placed reached : Nat) (nodes : List (Nat × Nat)) (lookUp tree : Nat → Int)
    (next : Int) : Prop where
  next_eq : next = -(2 * nodes.length + 1)
  look : ∀ value < 256, Cell sizes symbols nodes placed (8, value) (lookUp value)
  pair : ∀ k size value, nodes[k]? = some (size, value) → ∀ bit < 2,
    Cell sizes symbols nodes placed (size + 1, 2 * value + bit) (tree (2 * k + (1 - bit)))
  fresh : ∀ index, 2 * nodes.length ≤ index → tree index = 0
  nodup : nodes.Nodup
  inner : ∀ key ∈ nodes, 8 ≤ key.1 ∧ ∃ q < reached, Inner 16 sizes q key
  closed : ∀ size value bit, 8 ≤ size → bit < 2 → (size + 1, 2 * value + bit) ∈ nodes →
    (size, value) ∈ nodes
  complete : ∀ q < placed, ∀ size, 8 ≤ size → size < sizes q →
    (size, pre 16 size (start 16 sizes q)) ∈ nodes

variable {sizes symbols} {total placed reached : Nat} {nodes : List (Nat × Nat)}
  {lookUp tree : Nat → Int} {next value : Int} {key new : Nat × Nat}

theorem Cell.append (cell : Cell sizes symbols nodes placed key value) (other : key ≠ new) :
    Cell sizes symbols (nodes ++ [new]) placed key value := by
  cases cell with
  | node at_ =>
      apply Cell.node
      rw [List.getElem?_append_left]
      · exact at_
      · exact (List.getElem?_eq_some_iff.mp at_).1
  | symbol earlier ends => exact .symbol earlier ends
  | empty absent none =>
      refine .empty ?_ none
      simp [absent, other]

theorem Cell.place (cell : Cell sizes symbols nodes placed key value)
    (other : ¬ Ends sizes placed key) :
    Cell sizes symbols nodes (placed + 1) key value := by
  cases cell with
  | node at_ => exact .node at_
  | symbol earlier ends => exact .symbol (by omega) ends
  | empty absent none =>
      refine .empty absent ?_
      intro q earlier
      rcases Nat.lt_succ_iff_lt_or_eq.mp earlier with less | rfl
      · exact none q less
      · exact other

theorem Linked.mono {more : Nat}
    (linked : Linked sizes symbols placed reached nodes lookUp tree next) (le : reached ≤ more) :
    Linked sizes symbols placed more nodes lookUp tree next :=
  { linked with
    inner := by
      intro key member
      obtain ⟨atLeast, q, less, inner⟩ := linked.inner key member
      exact ⟨atLeast, q, by omega, inner⟩ }

theorem linked_nil : Linked sizes symbols 0 0 [] (fun _ => 0) (fun _ => 0) (-1) where
  next_eq := rfl
  look := fun _ _ => .empty (by simp) (by simp)
  pair := by simp
  fresh := fun _ _ => rfl
  nodup := List.nodup_nil
  inner := by simp
  closed := by simp
  complete := by simp

section Extend

variable (ascending : Ascending 16 sizes total) (placedFew : placed ≤ total)
  (reachedFew : reached ≤ total)
  (linked : Linked sizes symbols placed reached nodes lookUp tree next)

include ascending placedFew reachedFew linked

/-- One more pair of entries. -/
theorem Linked.extend {newLookUp newTree : Nat → Int}
    (atLeast : 8 ≤ new.1) (absent : new ∉ nodes) {p : Nat} (less : p < reached)
    (inner : Inner 16 sizes p new)
    (parent : ∀ size value bit, 8 ≤ size → bit < 2 → new = (size + 1, 2 * value + bit) →
      (size, value) ∈ nodes)
    (lookUp_eq : ∀ value < 256, newLookUp value = if new = (8, value) then next else lookUp value)
    (tree_eq : ∀ k size value, nodes[k]? = some (size, value) → ∀ bit < 2,
      newTree (2 * k + (1 - bit)) =
        if new = (size + 1, 2 * value + bit) then next else tree (2 * k + (1 - bit)))
    (fresh_eq : ∀ index, 2 * nodes.length ≤ index → newTree index = 0) :
    Linked sizes symbols placed reached (nodes ++ [new]) newLookUp newTree (next - 2) := by
  have here : Cell sizes symbols (nodes ++ [new]) placed new next := by
    rw [linked.next_eq]
    exact .node (by simp)
  refine ⟨?_, ?_, ?_, ?_, ?_, ?_, ?_, ?_⟩
  · rw [linked.next_eq, List.length_append]
    push_cast
    simp only [List.length_cons, List.length_nil]
    ring
  · intro value small
    rw [lookUp_eq value small]
    split
    · rename_i same
      rw [← same]
      exact here
    · rename_i other
      exact (linked.look value small).append (Ne.symm other)
  · intro k size value at_ bit isBit
    rcases Nat.lt_or_ge k nodes.length with old | last
    · rw [List.getElem?_append_left old] at at_
      rw [tree_eq k size value at_ bit isBit]
      split
      · rename_i same
        rw [← same]
        exact here
      · rename_i other
        exact (linked.pair k size value at_ bit isBit).append (Ne.symm other)
    · -- the entries of the new pair are empty, as no code is known to go on from it
      have same : new = (size, value) := by
        rw [List.getElem?_append_right last] at at_
        exact (List.mem_singleton.mp (List.mem_of_getElem? at_)).symm
      subst same
      rw [fresh_eq _ (by omega)]
      apply Cell.empty
      · intro member
        rcases List.mem_append.mp member with old | last
        · exact absent (linked.closed size value bit atLeast isBit old)
        · simp at last
      · intro q earlier ends
        rcases Nat.lt_or_ge size (sizes q) with long | short
        · have exact_ : sizes q = size + 1 := by
            have := ends.1
            simp only at this
            omega
          have fits := ascending.fits q (by omega)
          apply absent
          have member := linked.complete q earlier size atLeast long
          have value_eq : pre 16 size (start 16 sizes q) = value := by
            have := ends.2
            simp only [exact_, Nat.sub_self, pow_zero, Nat.div_one] at this
            rw [← @pre_pre 16 size (size + 1) _ (by omega) (by omega), ← exact_,
              ascending.pre_start (by omega), ← this, exact_, Nat.add_sub_cancel_left]
            omega
          rwa [value_eq] at member
        · exact inner.not_ends ascending (by omega) (by omega) (ends.parent isBit short)
  · intro index behind
    rw [List.length_append, List.length_singleton] at behind
    exact fresh_eq index (by omega)
  · rw [List.nodup_append]
    refine ⟨linked.nodup, List.nodup_singleton _, ?_⟩
    intro old member last inLast same
    rw [List.mem_singleton.mp inLast] at same
    exact absent (same ▸ member)
  · intro key member
    rcases List.mem_append.mp member with old | last
    · exact linked.inner key old
    · rw [List.mem_singleton.mp last]
      exact ⟨atLeast, p, less, inner⟩
  · intro size value bit least isBit member
    rw [List.mem_append]
    left
    rcases List.mem_append.mp member with old | last
    · exact linked.closed size value bit least isBit old
    · exact parent size value bit least isBit (List.mem_singleton.mp last).symm
  · intro q earlier size least inside
    exact List.mem_append_left _ (linked.complete q earlier size least inside)

/-- A pair for the first eight bits of a long code. -/
theorem Linked.addRoot {p : Nat} (less : p < reached) {value : Nat}
    (inner : Inner 16 sizes p (8, value)) (absent : (8, value) ∉ nodes) :
    Linked sizes symbols placed reached (nodes ++ [(8, value)])
      (Function.update lookUp value next) tree (next - 2) := by
  apply linked.extend ascending placedFew reachedFew le_rfl absent less inner
  · intro size value bit atLeast isBit same
    simp only [Prod.mk.injEq] at same
    omega
  · intro other _
    by_cases here : other = value
    · simp [here]
    · rw [Function.update_of_ne here, if_neg]
      intro same
      exact here (Prod.mk.inj same).2.symm
  · intro k size other at_ bit isBit
    have atLeast := (linked.inner _ (List.mem_of_getElem? at_)).1
    rw [if_neg]
    intro same
    simp only [Prod.mk.injEq] at same atLeast
    omega
  · exact linked.fresh

omit ascending placedFew reachedFew in
/-- The entries of a pair belong to different bits, and no others belong to them. -/
theorem Linked.entry_unique {k other size value otherSize otherValue bit otherBit : Nat}
    (at_ : nodes[k]? = some (size, value)) (isBit : bit < 2)
    (there : nodes[other]? = some (otherSize, otherValue)) (otherIsBit : otherBit < 2) :
    (size + 1, 2 * value + bit) = (otherSize + 1, 2 * otherValue + otherBit) ↔
      2 * k + (1 - bit) = 2 * other + (1 - otherBit) := by
  constructor
  · intro same
    simp only [Prod.mk.injEq] at same
    obtain ⟨rfl, rfl, rfl⟩ : size = otherSize ∧ value = otherValue ∧ bit = otherBit := by omega
    have inside := (List.getElem?_eq_some_iff.mp at_).1
    rw [(List.getElem?_inj inside linked.nodup).mp (at_.trans there.symm)]
  · intro same
    obtain ⟨rfl, rfl⟩ : k = other ∧ bit = otherBit := by omega
    rw [at_] at there
    cases there
    rfl

/-- A pair behind an entry of the tree. -/
theorem Linked.addNode {p k size value bit : Nat} (less : p < reached)
    (at_ : nodes[k]? = some (size, value)) (isBit : bit < 2)
    (inner : Inner 16 sizes p (size + 1, 2 * value + bit))
    (absent : (size + 1, 2 * value + bit) ∉ nodes) :
    Linked sizes symbols placed reached (nodes ++ [(size + 1, 2 * value + bit)]) lookUp
      (Function.update tree (2 * k + (1 - bit)) next) (next - 2) := by
  have member := List.mem_of_getElem? at_
  have inside := (List.getElem?_eq_some_iff.mp at_).1
  have atLeast := (linked.inner _ member).1
  simp only at atLeast
  apply linked.extend ascending placedFew reachedFew (by simp only; omega) absent less inner
  · intro otherSize otherValue otherBit _ otherIsBit same
    simp only [Prod.mk.injEq] at same
    obtain ⟨rfl, rfl⟩ : size = otherSize ∧ value = otherValue := by omega
    exact member
  · intro other _
    rw [if_neg]
    intro same
    simp only [Prod.mk.injEq] at same
    omega
  · intro other otherSize otherValue there otherBit otherIsBit
    rw [Function.update_apply]
    congr 1
    rw [linked.entry_unique at_ isBit there otherIsBit]
    exact propext eq_comm
  · intro index behind
    rw [Function.update_of_ne (by omega)]
    exact linked.fresh index behind

end Extend

section Place

variable (ascending : Ascending 16 sizes total) (inside : placed < total)

include ascending inside

section LongCode

variable (linked : Linked sizes symbols placed (placed + 1) nodes lookUp tree next)

include linked

/-- The bits of an entry of the tree do not go on behind the end of the placed code. -/
theorem Linked.size_of_ends {k size value bit : Nat} (at_ : nodes[k]? = some (size, value))
    (isBit : bit < 2) (ends : Ends sizes placed (size + 1, 2 * value + bit)) :
    sizes placed = size + 1 ∧ word sizes placed = 2 * value + bit := by
  obtain ⟨-, q, less, inner⟩ := linked.inner _ (List.mem_of_getElem? at_)
  have last : sizes placed = size + 1 := by
    by_contra earlier
    have le := ends.1
    simp only at le
    exact inner.not_ends ascending (by omega) inside (ends.parent isBit (by omega))
  refine ⟨last, ?_⟩
  have same := ends.2
  simp only [last, Nat.sub_self, pow_zero, Nat.div_one] at same
  exact same.symm

/-- The symbol of a long code at its place. -/
theorem Linked.putSymbol {k size value bit : Nat} (at_ : nodes[k]? = some (size, value))
    (isBit : bit < 2) (last : sizes placed = size + 1)
    (value_eq : word sizes placed = 2 * value + bit)
    (path : ∀ fewer, 8 ≤ fewer → fewer < sizes placed →
      (fewer, pre 16 fewer (start 16 sizes placed)) ∈ nodes) :
    Linked sizes symbols (placed + 1) (placed + 1) nodes lookUp
      (Function.update tree (2 * k + (1 - bit)) (symbols placed)) next := by
  have atLeast := (linked.inner _ (List.mem_of_getElem? at_)).1
  have inList := (List.getElem?_eq_some_iff.mp at_).1
  simp only at atLeast
  refine { linked with look := ?_, pair := ?_, fresh := ?_, complete := ?_ }
  · intro other small
    apply (linked.look other small).place
    intro ends
    have := ends.1
    simp only at this
    omega
  · intro other otherSize otherValue there otherBit otherIsBit
    rw [Function.update_apply]
    split
    · rename_i same
      rw [(linked.entry_unique there otherIsBit at_ isBit).mpr same]
      refine .symbol (Nat.lt_succ_self _) ⟨last.le, ?_⟩
      simp only [last, Nat.sub_self, pow_zero, Nat.div_one, value_eq]
    · rename_i different
      apply (linked.pair other otherSize otherValue there otherBit otherIsBit).place
      intro ends
      obtain ⟨sameSize, sameValue⟩ :=
        linked.size_of_ends ascending inside there otherIsBit ends
      apply different
      rw [← linked.entry_unique there otherIsBit at_ isBit]
      simp only [Prod.mk.injEq]
      omega
  · intro index behind
    rw [Function.update_of_ne (by omega)]
    exact linked.fresh index behind
  · intro q earlier fewer least less
    rcases Nat.lt_succ_iff_lt_or_eq.mp earlier with before | rfl
    · exact linked.complete q before fewer least less
    · exact path fewer least less

end LongCode

/-- The symbol of a short code for all bits behind it. -/
theorem Linked.fill (short : sizes placed ≤ 8)
    (linked : Linked sizes symbols placed placed nodes lookUp tree next)
    {newLookUp : Nat → Int}
    (lookUp_eq : ∀ value < 256, newLookUp value =
      if value / 2 ^ (8 - sizes placed) = word sizes placed then (symbols placed : Int)
      else lookUp value) :
    Linked sizes symbols (placed + 1) (placed + 1) nodes newLookUp tree next := by
  refine { linked.mono (Nat.le_succ placed) with look := ?_, pair := ?_, complete := ?_ }
  · intro value small
    rw [lookUp_eq value small]
    split
    · rename_i here
      exact .symbol (Nat.lt_succ_self _) ⟨short, here⟩
    · rename_i other
      apply (linked.look value small).place
      intro ends
      exact other ends.2
  · intro k size value at_ bit isBit
    apply (linked.pair k size value at_ bit isBit).place
    intro ends
    have atLeast := (linked.inner _ (List.mem_of_getElem? at_)).1
    have last := ((linked.mono (Nat.le_succ placed)).size_of_ends ascending inside at_ isBit ends).1
    simp only at atLeast
    omega
  · intro q earlier size least less
    rcases Nat.lt_succ_iff_lt_or_eq.mp earlier with before | rfl
    · exact linked.complete q before size least less
    · omega

end Place

end Tree

section Insert

theorem top_bit {window size : Nat} (inside : size < 16) :
    BitVec.ofNat 16 window <<< size &&& (0x8000 : U16) = 0 ↔
      window / 2 ^ (16 - size - 1) % 2 = 0 := by
  have bit : (BitVec.ofNat 16 window <<< size : U16).getLsbD 15 =
      window.testBit (16 - size - 1) := by
    rw [BitVec.getLsbD_shiftLeft, BitVec.getLsbD_ofNat]
    have small : 15 - size < 16 := by omega
    simp [show ¬ 15 < size by omega, small, show 16 - size - 1 = 15 - size by omega]
  rw [show (0x8000 : U16) = BitVec.twoPow 16 15 from rfl, BitVec.and_twoPow, bit,
    ← Nat.toNat_testBit]
  cases window.testBit (16 - size - 1) <;> decide

/-- The entry of a pair for the next bit of a window. -/
theorem treeIndex_eq {k window size index : Nat} (inside : size < 16)
    (found : treeIndex (-(2 * k + 1)) (BitVec.ofNat 16 window <<< size) = some index) :
    index = 2 * k + (1 - window / 2 ^ (16 - size - 1) % 2) := by
  have isBit := Nat.mod_lt (window / 2 ^ (16 - size - 1)) (show 0 < 2 by decide)
  have entry : -(if window / 2 ^ (16 - size - 1) % 2 = 0 then -(2 * (k : Int) + 1) - 1
      else -(2 * (k : Int) + 1)) - 1 =
      ((2 * k + (1 - window / 2 ^ (16 - size - 1) % 2) : Nat) : Int) := by
    split
    · omega
    · omega
  simp only [treeIndex, top_bit inside, entry, Int.toNat_natCast] at found
  split at found
  · exact (Option.some.inj found).symm
  · exact absurd found (by simp)

variable {sizes symbols : Nat → Nat} {total placed : Nat} {nodes : List (Nat × Nat)}
  {lookUp tree newTree : Nat → Int} {next newNext value : Int} {key : Nat × Nat}

/-- Bits inside of a code have an entry of their own or none. -/
theorem Cell.of_inner {q : Nat} (ascending : Ascending 16 sizes total) (few : placed ≤ total)
    (inside : q < total) (inner : Inner 16 sizes q key)
    (cell : Cell sizes symbols nodes placed key value) :
    (∃ k : Nat, nodes[k]? = some key ∧ value = -(2 * k + 1)) ∨ (value = 0 ∧ key ∉ nodes) := by
  cases cell with
  | @node k at_ => exact .inl ⟨k, at_, rfl⟩
  | symbol earlier ends => exact absurd ends (inner.not_ends ascending inside (by omega))
  | empty absent _ => exact .inr ⟨rfl, absent⟩

section Way

variable (ascending : Ascending 16 sizes total) (inside : placed < total) {turns size k : Nat}
  (linked : Linked sizes symbols placed (placed + 1) nodes lookUp tree next)
  (at_ : nodes[k]? = some (size, pre 16 size (start 16 sizes placed)))
  (path : ∀ fewer, 8 ≤ fewer → fewer ≤ size →
    (fewer, pre 16 fewer (start 16 sizes placed)) ∈ nodes)

include ascending inside linked at_ path

/-- A turn from the pair for some first bits of a long code to the pair for one bit more. -/
theorem Linked.onward {symbol : Int} {index : Nat} (more : size + 1 < sizes placed)
    (found : treeIndex (-(2 * k + 1)) (BitVec.ofNat 16 (start 16 sizes placed) <<< size) =
      some index) :
    ∃ (newNodes : List (Nat × Nat)) (other : Nat) (newTree : Nat → Int) (newNext : Int),
      Linked sizes symbols placed (placed + 1) newNodes lookUp newTree newNext ∧
      newNodes[other]? = some (size + 1, pre 16 (size + 1) (start 16 sizes placed)) ∧
      (∀ fewer, 8 ≤ fewer → fewer ≤ size + 1 →
        (fewer, pre 16 fewer (start 16 sizes placed)) ∈ newNodes) ∧
      insertCode symbol (turns + 1) (BitVec.ofNat 16 (start 16 sizes placed) <<< size)
          (-(2 * k + 1)) (tree, next) =
        insertCode symbol turns (BitVec.ofNat 16 (start 16 sizes placed) <<< (size + 1))
          (-(2 * other + 1)) (newTree, newNext) := by
  have fits := ascending.fits _ inside
  have isBit := Nat.mod_lt (start 16 sizes placed / 2 ^ (16 - size - 1)) (show 0 < 2 by decide)
  have longer := @pre_succ 16 size (start 16 sizes placed) (by omega)
  have place := treeIndex_eq (by omega) found
  have inner : Inner 16 sizes placed (size + 1, pre 16 (size + 1) (start 16 sizes placed)) :=
    ⟨more, rfl⟩
  have cell := linked.pair k _ _ at_ _ isBit
  rw [← longer, ← place] at cell
  have onward : BitVec.ofNat 16 (start 16 sizes placed) <<< size <<< 1 =
      BitVec.ofNat 16 (start 16 sizes placed) <<< (size + 1) :=
    (BitVec.shiftLeft_add _ _ _).symm
  have longPath : ∀ kept, nodes ⊆ kept →
      (size + 1, pre 16 (size + 1) (start 16 sizes placed)) ∈ kept →
      ∀ fewer, 8 ≤ fewer → fewer ≤ size + 1 →
        (fewer, pre 16 fewer (start 16 sizes placed)) ∈ kept := by
    intro kept subset member fewer least le
    rcases Nat.lt_or_ge size fewer with last | earlier
    · rw [show fewer = size + 1 by omega]
      exact member
    · exact subset (path fewer least earlier)
  rcases cell.of_inner ascending inside.le inside inner with ⟨other, there, entry⟩ | ⟨zero, absent⟩
  · refine ⟨nodes, other, tree, next, linked, there,
      longPath nodes (List.Subset.refl _) (List.mem_of_getElem? there), ?_⟩
    rw [insertCode, found, onward]
    simp only [Option.bind_eq_bind, Option.bind_some]
    rw [if_neg (by omega), entry]
  · have grown := linked.addNode ascending inside.le inside (Nat.lt_succ_self _) at_ isBit
      (longer ▸ inner) (longer ▸ absent)
    rw [← longer, ← place] at grown
    refine ⟨_, nodes.length, _, _, grown, by simp,
      longPath _ (List.subset_append_left _ _) (by simp), ?_⟩
    rw [insertCode, found, onward]
    simp only [Option.bind_eq_bind, Option.bind_some]
    rw [if_pos zero, linked.next_eq]

/-- The way of a long code through the tree from a pair on. -/
theorem insertCode_linked (rest : size + 1 + turns = sizes placed)
    (inserted : insertCode (symbols placed) turns
      (BitVec.ofNat 16 (start 16 sizes placed) <<< size) (-(2 * k + 1)) (tree, next) =
        some (newTree, newNext)) :
    ∃ newNodes, Linked sizes symbols (placed + 1) (placed + 1) newNodes lookUp newTree newNext := by
  have fits := ascending.fits _ inside
  induction turns generalizing size k nodes tree next with
  | zero =>
      simp only [insertCode, Option.bind_eq_bind, Option.bind_eq_some_iff] at inserted
      obtain ⟨index, found, put⟩ := inserted
      have place := treeIndex_eq (by omega) found
      have isBit := Nat.mod_lt (start 16 sizes placed / 2 ^ (16 - size - 1))
        (show 0 < 2 by decide)
      cases put
      subst place
      refine ⟨nodes, linked.putSymbol ascending inside at_ isBit rest.symm ?_ ?_⟩
      · rw [← pre_succ (show size < 16 by omega), show size + 1 = sizes placed from rest,
          ascending.pre_start inside]
      · intro fewer least less
        exact path fewer least (by omega)
  | succ turns inductionHypothesis =>
      have turn := inserted
      rw [insertCode] at turn
      obtain ⟨index, found, -⟩ := Option.bind_eq_some_iff.mp turn
      obtain ⟨newNodes, other, grown, free, stillLinked, there, longPath, goes⟩ :=
        linked.onward ascending inside at_ path (by omega) found
      rw [goes] at inserted
      exact inductionHypothesis stillLinked there longPath (by omega) inserted

end Way

theorem fillLookUp_eq {symbol : Int} {count code value : Nat} :
    fillLookUp symbol count code lookUp value =
      if code ≤ value ∧ value < code + count then symbol else lookUp value := by
  induction count generalizing code lookUp with
  | zero =>
      rw [fillLookUp, if_neg (by omega)]
  | succ count inductionHypothesis =>
      rw [fillLookUp, inductionHypothesis, Function.update_apply]
      by_cases first : value = code
      · rw [if_neg (by omega), if_pos first, if_pos (by omega)]
      · rw [if_neg first]
        congr 1
        simp only [eq_iff_iff]
        omega

variable {s newTables : HuffTables × Int} {huffVal : Nat → U8} {code : U16}

section Arithmetic

variable (coded : Coded sizes total) (inside : placed < total)
  (code_eq : code.toNat = word sizes placed)

include coded inside code_eq

theorem short_range (short : sizes placed ≤ 8) {value : Nat} :
    ((code <<< (8 - sizes placed)).toNat ≤ value ∧
      value < (code <<< (8 - sizes placed)).toNat + 2 ^ (8 - sizes placed)) ↔
      value / 2 ^ (8 - sizes placed) = word sizes placed := by
  have positive := Nat.two_pow_pos (8 - sizes placed)
  have below := Nat.mul_lt_mul_of_pos_right (coded.word_lt inside) positive
  rw [← pow_add, show sizes placed + (8 - sizes placed) = 8 by omega] at below
  have shifted : (code <<< (8 - sizes placed)).toNat =
      word sizes placed * 2 ^ (8 - sizes placed) := by
    rw [BitVec.toNat_shiftLeft, Nat.shiftLeft_eq, code_eq, Nat.mod_eq_of_lt (by omega)]
  rw [shifted, Nat.div_eq_iff positive]
  omega

theorem subtree_eq (long : 8 < sizes placed) :
    (code >>> (sizes placed - 8) &&& (0xFF : U16)).toNat = pre 16 8 (start 16 sizes placed) := by
  have below := coded.start_lt inside
  rw [BitVec.toNat_and, BitVec.toNat_ushiftRight, Nat.shiftRight_eq_div_pow, code_eq,
    ← coded.ascending.pre_start inside, pre_pre long.le (coded.ascending.fits _ inside),
    show (0xFF : U16).toNat = 2 ^ 8 - 1 by decide, Nat.and_two_pow_sub_one_eq_mod]
  apply Nat.mod_eq_of_lt
  rw [pre]
  omega

theorem long_code (long : 8 < sizes placed) :
    code <<< (16 - (sizes placed - 8)) = BitVec.ofNat 16 (start 16 sizes placed) <<< 8 := by
  have fits := coded.ascending.fits _ inside
  apply BitVec.eq_of_toNat_eq
  rw [BitVec.toNat_shiftLeft, BitVec.toNat_shiftLeft, Nat.shiftLeft_eq, Nat.shiftLeft_eq, code_eq,
    BitVec.toNat_ofNat, Nat.mod_eq_of_lt (coded.start_lt inside),
    ← coded.ascending.word_mul inside, Nat.mul_assoc, ← pow_add]
  congr 3
  omega

end Arithmetic

/-- One code more in the tables. -/
theorem putCode_linked (coded : Coded sizes total) (inside : placed < total)
    (linked : Linked sizes (fun p => (huffVal p).toNat) placed placed nodes
      s.1.lookUp s.1.tree s.2)
    (code_eq : code.toNat = word sizes placed)
    (put : putCode (huffVal placed) code (sizes placed) s = some newTables) :
    (∃ newNodes, Linked sizes (fun p => (huffVal p).toNat) (placed + 1) (placed + 1) newNodes
      newTables.1.lookUp newTables.1.tree newTables.2) ∧
    newTables.1.codeSize =
      Function.update s.1.codeSize (huffVal placed).toNat (sizes placed) := by
  have ascending := coded.ascending
  rw [putCode] at put
  simp only at put
  split at put
  · rename_i short
    cases put
    refine ⟨⟨nodes, ?_⟩, rfl⟩
    apply linked.fill ascending inside short
    intro value small
    simp only [fillLookUp_eq, short_range coded inside code_eq short]
  · rename_i short
    have long : 8 < sizes placed := by omega
    have grown := linked.mono (Nat.le_succ placed)
    have inner : Inner 16 sizes placed (8, pre 16 8 (start 16 sizes placed)) := ⟨long, rfl⟩
    have below := coded.start_lt inside
    have small : pre 16 8 (start 16 sizes placed) < 256 := by
      rw [pre]
      omega
    rw [subtree_eq coded inside code_eq long, long_code coded inside code_eq long] at put
    simp only [Option.map_eq_some_iff] at put
    obtain ⟨⟨newTree, newNext⟩, inserted, tables_eq⟩ := put
    cases tables_eq
    refine ⟨?_, rfl⟩
    simp only
    rcases (linked.look _ small).of_inner ascending inside.le inside inner with
      ⟨k, at_, entry⟩ | ⟨zero, absent⟩
    · rw [if_neg (by omega), entry] at inserted
      simp only [if_neg (show ¬ s.1.lookUp (pre 16 8 (start 16 sizes placed)) = 0 by omega)]
      apply insertCode_linked ascending inside grown at_ ?_ (by omega) inserted
      intro fewer least most
      rw [show fewer = 8 by omega]
      exact List.mem_of_getElem? at_
    · simp only [if_pos zero] at inserted ⊢
      have rooted := grown.addRoot ascending inside.le inside (Nat.lt_succ_self _) inner absent
      rw [linked.next_eq] at inserted rooted
      rw [linked.next_eq]
      apply insertCode_linked ascending inside rooted (by simp) ?_ (by omega) inserted
      intro fewer least most
      rw [show fewer = 8 by omega]
      simp

section Codes

variable {huffcode : Nat → U16} (coded : Coded sizes total)
  (codes : ∀ q < total, (huffcode q).toNat = word sizes q)

include coded codes

/-- The tables with the first codes in them. -/
theorem putCodes_linked {count : Nat} (le : count ≤ total)
    (made : (List.range count).foldlM
      (fun s p => putCode (huffVal p) (huffcode p) (sizes p) s)
      (⟨fun _ => 0, fun _ => 0, fun _ => 0⟩, -1) = some newTables) :
    ∃ nodes, Linked sizes (fun p => (huffVal p).toNat) count count nodes
      newTables.1.lookUp newTables.1.tree newTables.2 := by
  induction count generalizing newTables with
  | zero =>
      cases made
      exact ⟨[], linked_nil⟩
  | succ count inductionHypothesis =>
      obtain ⟨before, madeBefore, put⟩ := foldlM_range_succ.mp made
      obtain ⟨nodes, linked⟩ := inductionHypothesis (by omega) madeBefore
      exact (putCode_linked coded le linked (codes count le) put).1

/-- The tables with all codes in them. -/
theorem makeTables_linked
    (distinct : ∀ p < total, ∀ q < total, huffVal p = huffVal q → p = q)
    (made : makeTables huffVal sizes huffcode total = some newTables) :
    (∃ nodes, Linked sizes (fun p => (huffVal p).toNat) total total nodes
      newTables.1.lookUp newTables.1.tree newTables.2) ∧
    ∀ p < total, newTables.1.codeSize (huffVal p).toNat = sizes p := by
  refine ⟨putCodes_linked coded codes le_rfl made, ?_⟩
  have steps : ∀ count ≤ total, ∀ tables,
      (List.range count).foldlM (fun s p => putCode (huffVal p) (huffcode p) (sizes p) s)
        (⟨fun _ => 0, fun _ => 0, fun _ => 0⟩, -1) = some tables →
      ∀ p < count, tables.1.codeSize (huffVal p).toNat = sizes p := by
    intro count le
    induction count with
    | zero => simp
    | succ count inductionHypothesis =>
        intro tables made
        obtain ⟨before, madeBefore, put⟩ := foldlM_range_succ.mp made
        obtain ⟨nodes, linked⟩ := putCodes_linked coded codes (by omega) madeBefore
        have known := inductionHypothesis (by omega) before madeBefore
        have codeSize := (putCode_linked coded le linked (codes count le) put).2
        intro p less
        rw [codeSize, Function.update_apply]
        split
        · rename_i same
          rw [distinct p (by omega) count le (BitVec.eq_of_toNat_eq same)]
        · rename_i different
          apply known p
          by_contra last
          rw [show p = count by omega] at different
          exact different rfl
  exact steps total le_rfl newTables made

end Codes

end Insert

section Decoding

variable {sizes symbols : Nat → Nat} {total p : Nat} {nodes : List (Nat × Nat)}
  {ph : HuffTables} {next value : Int} {key : Nat × Nat} {wait : Wait} {r : Reader}

/-- The entry for bits that a code is at the front of. -/
theorem Linked.value_of_ends (coded : Coded sizes total)
    (linked : Linked sizes symbols total total nodes ph.lookUp ph.tree next)
    (inside : p < total) (fits : key.1 ≤ 16) (ends : Ends sizes p key)
    (cell : Cell sizes symbols nodes total key value) : value = symbols p := by
  have ascending := coded.ascending
  cases cell with
  | node at_ =>
      obtain ⟨-, q, less, inner⟩ := linked.inner key (List.mem_of_getElem? at_)
      exact absurd ends (inner.not_ends ascending less inside)
  | symbol less there => rw [ends.unique ascending fits inside less there]
  | empty _ none => exact absurd ends (none p inside)

variable (coded : Coded sizes total)
  (linked : Linked sizes symbols total total nodes ph.lookUp ph.tree next)
  (inside : p < total)
  (here : pre 16 (sizes p) (window r) = word sizes p)

include coded linked inside here

/-- The entry for bits inside of the code that the window starts with. -/
theorem Linked.value_of_inner {size : Nat} (atLeast : 8 ≤ size) (less : size < sizes p)
    (cell : Cell sizes symbols nodes total (size, pre 16 size (window r)) value) :
    ∃ k : Nat, nodes[k]? = some (size, pre 16 size (window r)) ∧ value = -(2 * k + 1) := by
  have ascending := coded.ascending
  have same := pre_eq_of_pre_eq less.le (here.trans (ascending.pre_start inside).symm)
  have member := linked.complete p inside size atLeast less
  rw [← same] at member
  rcases cell.of_inner ascending le_rfl inside ⟨less, same.symm⟩ with found | ⟨-, absent⟩
  · exact found
  · exact absurd member absent

variable (outside : Outside wait) (least : 1 ≤ r.bitsLeft) (most : r.bitsLeft ≤ 16)

include outside least most

/-- The way of a long code through the tree. -/
theorem run_huffTurn {turns size k : Nat} (less : size < sizes p) (atLeast : 8 ≤ size)
    (at_ : nodes[k]? = some (size, pre 16 size (window r))) (enough : sizes p - size ≤ turns) :
    Loop.run (huffTurn wait ph) turns (-(2 * k + 1), (getBits2 wait size r).2) =
      some ((symbols p : Int), (getBits2 wait (sizes p) r).2) := by
  have fits := coded.ascending.fits p inside
  induction turns generalizing size k with
  | zero => omega
  | succ turns inductionHypothesis =>
      have inWord : size < 16 := by omega
      have isBit := Nat.mod_lt (window r / 2 ^ (16 - size - 1)) (show 0 < 2 by decide)
      have cell := linked.pair k _ _ at_ _ isBit
      rw [← pre_succ inWord] at cell
      have entry : ((-(-(2 * k + 1)) - 1 : Int) +
          (1 - ((getBits2 wait 1 (getBits2 wait size r).2).1.toNat : Int))).toNat =
          2 * k + (1 - window r / 2 ^ (16 - size - 1) % 2) := by
        rw [outside.next_bit least most inWord]
        omega
      by_cases last : sizes p = size + 1
      · have ends : Ends sizes p (size + 1, pre 16 (size + 1) (window r)) := by
          rw [ends_pre (by omega)]
          exact ⟨last.le, here⟩
        have value_eq := linked.value_of_ends coded inside (by simp only; omega) ends cell
        apply Loop.run_of_leaves
        simp only [huffTurn, entry, value_eq, outside.getBits2_succ least most inWord, last]
        rw [if_neg (by omega)]
      · obtain ⟨other, there, value_eq⟩ :=
          linked.value_of_inner coded inside here (by omega) (show size + 1 < sizes p by omega) cell
        have goes : huffTurn wait ph (-(2 * k + 1), (getBits2 wait size r).2) =
            .inl (-(2 * other + 1), (getBits2 wait (size + 1) r).2) := by
          simp only [huffTurn, entry, value_eq, outside.getBits2_succ least most inWord]
          rw [if_pos (by omega)]
        rw [Loop.run_of_goes goes]
        exact inductionHypothesis (by omega) (by omega) there (by omega)

/-- The symbol of the code that the window starts with; how many bits are taken for a short
one is looked up by its symbol. -/
theorem huffDecode_reads :
    huffDecode wait ph r = some ((symbols p : Int),
      (getBits2 wait (if 8 < sizes p then sizes p else ph.codeSize (symbols p)) r).2) := by
  have fits := coded.ascending.fits p inside
  have index : ((r.bitBuf >>> 8) &&& (0xFF : U32)).toNat = pre 16 8 (window r) := by
    rw [pre, ← @getBits2_toNat wait r 8 (by omega), getBits2_value]
    rfl
  have small : pre 16 8 (window r) < 256 := by
    have := @Nat.mod_lt r.bitBuf.toNat (2 ^ 16) (by decide)
    rw [pre, window]
    omega
  have cell := linked.look _ small
  simp only [huffDecode, index]
  rcases Nat.lt_or_ge 8 (sizes p) with long | short
  · obtain ⟨k, at_, value_eq⟩ := linked.value_of_inner coded inside here le_rfl long cell
    rw [if_pos (by omega), if_pos long, value_eq]
    exact run_huffTurn coded linked inside here outside least most long le_rfl at_ (by omega)
  · have ends : Ends sizes p (8, pre 16 8 (window r)) := by
      rw [ends_pre (by omega)]
      exact ⟨short, here⟩
    have value_eq := linked.value_of_ends coded inside (by simp only; omega) ends cell
    rw [if_neg (by omega), if_neg (by omega), value_eq, Int.toNat_natCast]

theorem huffDecode_eq (codeSize : ph.codeSize (symbols p) = sizes p) :
    huffDecode wait ph r = some ((symbols p : Int), (getBits2 wait (sizes p) r).2) := by
  rw [huffDecode_reads coded linked inside here outside least most, codeSize, ite_self]

end Decoding

section Main

variable {huffNum huffVal : Nat → U8} {info made : HuffInfo} {hs tables : HuffTables}
  {wait : Wait} {r : Reader} {p : Nat}

/-- The code counts of a table that a decoder can use. -/
theorem coded_of_kraft (kraft : kraftUpTo huffNum 16 ≤ 2 ^ 16)
    (few : codesUpTo huffNum 16 ≤ 255) :
    Coded (sizesUpTo huffNum 16) (codesUpTo huffNum 16) where
  ascending := sizes_ascending
  positive := fun _ => sizes_positive
  ended := fun _ => sizesUpTo_of_le
  kraft := by
    rw [start_codesUpTo le_rfl]
    exact kraft
  few := few

/-- For a table with a code for each symbol, the decoder finds the symbol of the code
that comes next and takes just its bits, and the description for the hardware gives the
same symbol and size. -/
theorem huffDecode_makeHuffTable (kraft : kraftUpTo huffNum 16 ≤ 2 ^ 16)
    (few : codesUpTo huffNum 16 ≤ 255)
    (distinct : ∀ p < codesUpTo huffNum 16, ∀ q < codesUpTo huffNum 16,
      huffVal p = huffVal q → p = q)
    (succeeds : makeHuffTable true (info.load huffNum huffVal) hs = some (made, tables))
    (outside : Outside wait) (least : 1 ≤ r.bitsLeft) (most : r.bitsLeft ≤ 16)
    (inside : p < codesUpTo huffNum 16)
    (next : (getBits2 wait (sizesUpTo huffNum 16 p) r).1.toNat = word (sizesUpTo huffNum 16) p) :
    huffDecode wait tables r =
        some (((huffVal p).toNat : Int), (getBits2 wait (sizesUpTo huffNum 16 p) r).2) ∧
      hardwareDecode made (getBits2 wait 16 r).1.toNat =
        some ((huffVal p).toNat, sizesUpTo huffNum 16 p) := by
  have coded := coded_of_kraft kraft few
  have fits := coded.ascending.fits p inside
  have here : pre 16 (sizesUpTo huffNum 16 p) (window r) = word (sizesUpTo huffNum 16) p := by
    rw [pre, ← @getBits2_toNat wait r _ fits, next]
  have ended : Function.update (sizesUpTo huffNum 16) (codesUpTo huffNum 16) 0 =
      sizesUpTo huffNum 16 := by
    rw [← sizesUpTo_of_le (le_refl (codesUpTo huffNum 16)), Function.update_eq_self]
  obtain ⟨huffcode, makes, codes, -⟩ := makeCodes_eq coded
  simp only [makeHuffTable, HuffInfo.load, makeSizes_eq few, ended, makes, Option.bind_eq_bind,
    Option.bind_some, if_true, Option.bind_eq_some_iff] at succeeds
  obtain ⟨⟨newTables, last⟩, filled, made_eq⟩ := succeeds
  cases made_eq
  obtain ⟨⟨nodes, linked⟩, codeSize⟩ := makeTables_linked coded codes distinct filled
  constructor
  · exact huffDecode_eq coded linked inside here outside least most (codeSize p inside)
  · rw [getBits2_toNat le_rfl, Nat.sub_self, pow_zero, Nat.div_one]
    apply Described.hardwareDecode coded ?_ inside here
    apply @described_of huffNum huffVal huffcode _ coded ?_ ?_ ?_ ?_ codes
    all_goals simp only [implies_true]

/-- A code of eight bits and two of nine bits, which need a pair of the tree. -/
def sampleNum (size : Nat) : U8 :=
  if size = 8 then 1 else if size = 9 then 2 else 0

def sampleVal (p : Nat) : U8 :=
  BitVec.ofNat 8 (p + 5)

def sampleTables : Option (HuffInfo × HuffTables) :=
  makeHuffTable true
    (HuffInfo.load sampleNum sampleVal
      ⟨false, fun _ => 0, fun _ => 0, fun _ => 0, fun _ => 0⟩)
    ⟨fun _ => 0, fun _ => 0, fun _ => 0⟩

/-- A reader in front of the second code of nine bits. -/
def sampleRegister : Reader :=
  { sampleReader with bitBuf := 0x0180, bitsLeft := 16 }

theorem sampleTables_isSome : sampleTables.isSome = true := by decide +kernel

theorem huffDecode_makeHuffTable_sample :
    huffDecode id (sampleTables.get sampleTables_isSome).2 sampleRegister =
        some (7, (getBits2 id 9 sampleRegister).2) ∧
      hardwareDecode (sampleTables.get sampleTables_isSome).1
        (getBits2 id 16 sampleRegister).1.toNat = some (7, 9) :=
  @huffDecode_makeHuffTable sampleNum sampleVal _ _ _ _ id sampleRegister 2
    (by decide) (by decide) (by decide) (Option.some_get sampleTables_isSome).symm
    (fun _ _ _ => rfl) (by decide) (by decide) (by decide) (by decide +kernel)

end Main

end Gp2Firmware.Jpeg.HuffmanTable
