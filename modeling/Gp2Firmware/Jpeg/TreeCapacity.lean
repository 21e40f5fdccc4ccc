import Mathlib.Algebra.BigOperators.Group.Finset.Basic
import Gp2Firmware.Jpeg.HuffmanTree

/-!
# The room in the tree of a Huffman table

`s16Tree` has 512 elements, two for each of the first bits of which a longer code begins,
from eight bits on.  Whether a table of codes fits follows from its counts alone.
-/

namespace Gp2Firmware.Jpeg.HuffmanTable

open Gp2Firmware.Lib Gp2Firmware.Lib.CanonicalCode Gp2Firmware.Jpeg.BitReader

/-- The pairs for a number of first bits: the codes behind those of up to so many bits are
rounded up to whole rooms. -/
def pairsAt (huffNum : Nat → U8) (depth : Nat) : Nat :=
  (kraftUpTo huffNum 16 - kraftUpTo huffNum depth + 2 ^ (16 - depth) - 1) / 2 ^ (16 - depth)

/-- The pairs for 8 up to 15 first bits. -/
def pairs (huffNum : Nat → U8) : Nat :=
  ∑ depth ∈ Finset.Ico 8 16, pairsAt huffNum depth

/-- Where `MDrv_JPEG_make_huff_table` comes to the tree, it uses only its elements. -/
def TreeFits (progressive : Bool) (huffNum huffVal : Nat → U8) : Prop :=
  ∀ huffsize lastp huffcode, makeSizes huffNum = some (huffsize, lastp) →
    makeCodes (Function.update huffsize lastp 0) = some huffcode → progressive = true →
      (makeTables huffVal (Function.update huffsize lastp 0) huffcode lastp).isSome = true

section Counting

variable {huffNum : Nat → U8}

theorem kraftUpTo_le_of_le {fewer more : Nat} (le : fewer ≤ more) :
    kraftUpTo huffNum fewer ≤ kraftUpTo huffNum more := by
  induction le with
  | refl => exact le_rfl
  | step _ inductionHypothesis => exact inductionHypothesis.trans (Nat.le_add_right _ _)

theorem sizes_le {depth q : Nat} (fits : depth ≤ 16) (less : q < codesUpTo huffNum depth) :
    sizesUpTo huffNum 16 q ≤ depth := by
  obtain ⟨size, below, above, upTo⟩ := exists_size less
  rw [sizesUpTo_eq (by omega) above upTo]
  omega

theorem lt_sizes {depth q : Nat} (behind : codesUpTo huffNum depth ≤ q)
    (less : q < codesUpTo huffNum 16) : depth < sizesUpTo huffNum 16 q := by
  obtain ⟨size, below, above, upTo⟩ := exists_size less
  rw [sizesUpTo_eq (by omega) above upTo]
  by_contra few
  have := @codesUpTo_le_of_le huffNum (size + 1) depth (by omega)
  omega

/-- The first bits of longer codes, for a number of bits. -/
def innerAt (huffNum : Nat → U8) (depth : Nat) : Finset (Nat × Nat) :=
  (Finset.Ico (kraftUpTo huffNum depth / 2 ^ (16 - depth))
    ((kraftUpTo huffNum 16 + 2 ^ (16 - depth) - 1) / 2 ^ (16 - depth))).image
      fun value => (depth, value)

/-- All first bits that have a pair. -/
def innerKeys (huffNum : Nat → U8) : Finset (Nat × Nat) :=
  (Finset.Ico 8 16).biUnion (innerAt huffNum)

theorem dvd_kraftUpTo {depth : Nat} (fits : depth ≤ 16) :
    2 ^ (16 - depth) ∣ kraftUpTo huffNum depth := by
  rw [← start_codesUpTo fits]
  exact two_pow_dvd_start fun q less => sizes_le fits less

theorem mem_innerAt {depth : Nat} (fits : depth ≤ 16) {key : Nat × Nat} :
    key ∈ innerAt huffNum depth ↔ key.1 = depth ∧
      ∃ q < codesUpTo huffNum 16, Inner 16 (sizesUpTo huffNum 16) q key := by
  obtain ⟨size, value⟩ := key
  have room := Nat.two_pow_pos (16 - depth)
  have range := @Ascending.exists_inner_iff 16 _ _ (codesUpTo huffNum depth)
    (@sizes_ascending huffNum) depth value fits (fun q => sizes_le fits) (fun q => lt_sizes)
  obtain ⟨first, same⟩ := @dvd_kraftUpTo huffNum depth fits
  have least : kraftUpTo huffNum depth / 2 ^ (16 - depth) = first := by
    rw [same, Nat.mul_div_cancel_left _ room]
  have above : kraftUpTo huffNum depth ≤ value * 2 ^ (16 - depth) ↔ first ≤ value := by
    rw [same, Nat.mul_comm]
    exact Nat.mul_le_mul_right_iff room
  have below : value < (kraftUpTo huffNum 16 + 2 ^ (16 - depth) - 1) / 2 ^ (16 - depth) ↔
      value * 2 ^ (16 - depth) < kraftUpTo huffNum 16 := by
    rw [← Nat.succ_le_iff, Nat.le_div_iff_mul_le room, Nat.succ_mul]
    omega
  rw [start_codesUpTo fits, start_codesUpTo le_rfl, above, ← below] at range
  rw [innerAt, Finset.mem_image, least]
  constructor
  · intro ⟨other, inside, equal⟩
    obtain ⟨rfl, rfl⟩ := Prod.mk.inj equal
    exact ⟨rfl, range.mpr (Finset.mem_Ico.mp inside)⟩
  · intro ⟨sameSize, inner⟩
    dsimp only at sameSize
    subst sameSize
    exact ⟨value, Finset.mem_Ico.mpr (range.mp inner), rfl⟩

theorem card_innerAt {depth : Nat} (fits : depth ≤ 16) :
    (innerAt huffNum depth).card = pairsAt huffNum depth := by
  have room := Nat.two_pow_pos (16 - depth)
  have more := @kraftUpTo_le_of_le huffNum depth 16 fits
  obtain ⟨first, same⟩ := @dvd_kraftUpTo huffNum depth fits
  rw [innerAt, Finset.card_image_of_injective _ (Prod.mk_right_injective depth), Nat.card_Ico,
    pairsAt, same, Nat.mul_div_cancel_left _ room]
  rw [same] at more
  have behind : kraftUpTo huffNum 16 + 2 ^ (16 - depth) - 1 =
      kraftUpTo huffNum 16 - 2 ^ (16 - depth) * first + 2 ^ (16 - depth) - 1 +
        2 ^ (16 - depth) * first := by
    omega
  rw [behind, Nat.add_mul_div_left _ _ room, Nat.add_sub_cancel]

theorem card_innerKeys : (innerKeys huffNum).card = pairs huffNum := by
  rw [innerKeys, Finset.card_biUnion, pairs]
  · refine Finset.sum_congr rfl fun depth inside => ?_
    rw [Finset.mem_Ico] at inside
    exact card_innerAt (by omega)
  · intro depth inside other otherInside different
    rw [Finset.mem_coe, Finset.mem_Ico] at inside otherInside
    refine Finset.disjoint_left.mpr fun key here there => different ?_
    rw [← ((mem_innerAt (by omega)).mp here).1, ((mem_innerAt (by omega)).mp there).1]

theorem mem_innerKeys {key : Nat × Nat} :
    key ∈ innerKeys huffNum ↔ 8 ≤ key.1 ∧
      ∃ q < codesUpTo huffNum 16, Inner 16 (sizesUpTo huffNum 16) q key := by
  rw [innerKeys, Finset.mem_biUnion]
  constructor
  · intro ⟨depth, inside, here⟩
    rw [Finset.mem_Ico] at inside
    obtain ⟨same, inner⟩ := (mem_innerAt (by omega)).mp here
    exact ⟨by omega, inner⟩
  · intro ⟨least, q, less, inner⟩
    have fits := (@sizes_ascending huffNum).fits q less
    have longer := inner.1
    refine ⟨key.1, Finset.mem_Ico.mpr ⟨least, by omega⟩, ?_⟩
    exact (mem_innerAt (by omega)).mpr ⟨rfl, q, less, inner⟩

end Counting

section Nodes

variable {huffNum : Nat → U8} {symbols : Nat → Nat} {placed reached : Nat}
  {nodes : List (Nat × Nat)} {lookUp tree : Nat → Int} {next : Int}

/-- No more pairs are taken than there are first bits of longer codes. -/
theorem Linked.length_le (reachedFew : reached ≤ codesUpTo huffNum 16)
    (linked : Linked (sizesUpTo huffNum 16) symbols placed reached nodes lookUp tree next) :
    nodes.length ≤ pairs huffNum := by
  rw [← card_innerKeys, ← List.toFinset_card_of_nodup linked.nodup]
  refine Finset.card_le_card fun key member => ?_
  obtain ⟨least, q, less, inner⟩ := linked.inner key (List.mem_toFinset.mp member)
  exact mem_innerKeys.mpr ⟨least, q, by omega, inner⟩

/-- In the finished tables every one of them has a pair. -/
theorem Linked.length_eq
    (linked : Linked (sizesUpTo huffNum 16) symbols (codesUpTo huffNum 16)
      (codesUpTo huffNum 16) nodes lookUp tree next) :
    nodes.length = pairs huffNum := by
  refine Nat.le_antisymm (linked.length_le le_rfl) ?_
  rw [← card_innerKeys, ← List.toFinset_card_of_nodup linked.nodup]
  refine Finset.card_le_card fun key member => ?_
  obtain ⟨least, q, less, longer, here⟩ := mem_innerKeys.mp member
  have known := linked.complete q less key.1 least longer
  rw [here] at known
  exact List.mem_toFinset.mpr known

end Nodes

section Room

variable {symbol : Int} {turns : Nat} {code : U16} {currententry next newNext : Int}
  {tree newTree : Nat → Int}

theorem le_of_treeIndex {index : Nat} (found : treeIndex currententry code = some index) :
    -512 ≤ currententry := by
  by_cases zero : code &&& (0x8000 : U16) = 0
  · simp only [treeIndex, if_pos zero, Option.ite_none_right_eq_some] at found
    omega
  · simp only [treeIndex, if_neg zero, Option.ite_none_right_eq_some] at found
    omega

/-- The pair taken last is in the tree when a way through the tree ends: the bits behind it
have gone through its entries. -/
theorem next_of_insertCode (odd : next % 2 = 1)
    (used : -513 ≤ next ∨ currententry = next + 2)
    (inserted : insertCode symbol turns code currententry (tree, next) =
      some (newTree, newNext)) : -513 ≤ newNext := by
  induction turns generalizing code currententry next tree with
  | zero =>
      simp only [insertCode, Option.bind_eq_bind, Option.bind_eq_some_iff] at inserted
      obtain ⟨index, found, put⟩ := inserted
      have inTree := le_of_treeIndex found
      cases put
      omega
  | succ turns inductionHypothesis =>
      simp only [insertCode, Option.bind_eq_bind, Option.bind_eq_some_iff] at inserted
      obtain ⟨index, found, goes⟩ := inserted
      have inTree := le_of_treeIndex found
      split at goes
      · exact inductionHypothesis (by omega) (by omega) goes
      · exact inductionHypothesis odd (by omega) goes

theorem next_of_putCode {huffVal : U8} {codeSize : Nat} {s newTables : HuffTables × Int}
    (odd : s.2 % 2 = 1) (used : -513 ≤ s.2)
    (put : putCode huffVal code codeSize s = some newTables) : -513 ≤ newTables.2 := by
  rw [putCode] at put
  dsimp only at put
  split at put
  · cases put
    exact used
  · simp only [Option.map_eq_some_iff] at put
    obtain ⟨⟨grown, last⟩, inserted, tables_eq⟩ := put
    cases tables_eq
    dsimp only
    split at inserted
    · exact next_of_insertCode (by omega) (by omega) inserted
    · exact next_of_insertCode odd (by omega) inserted

theorem treeIndex_isSome {k : Nat} (small : k < 256) :
    (treeIndex (-(2 * k + 1)) code).isSome = true := by
  by_cases zero : code &&& (0x8000 : U16) = 0
  · simp only [treeIndex, if_pos zero, Option.isSome_ite]
    omega
  · simp only [treeIndex, if_neg zero, Option.isSome_ite]
    omega

end Room

section Fits

variable {sizes symbols : Nat → Nat} {total placed : Nat} {nodes : List (Nat × Nat)}
  {lookUp tree : Nat → Int} {next : Int}

/-- A way through the tree stays in it as long as no more than 256 pairs can be taken. -/
theorem insertCode_isSome (ascending : Ascending 16 sizes total) (inside : placed < total)
    (room : ∀ nodes lookUp tree next,
      Linked sizes symbols placed (placed + 1) nodes lookUp tree next → nodes.length ≤ 256)
    {turns size k : Nat}
    (linked : Linked sizes symbols placed (placed + 1) nodes lookUp tree next)
    (at_ : nodes[k]? = some (size, pre 16 size (start 16 sizes placed)))
    (path : ∀ fewer, 8 ≤ fewer → fewer ≤ size →
      (fewer, pre 16 fewer (start 16 sizes placed)) ∈ nodes)
    (rest : size + 1 + turns = sizes placed) :
    (insertCode (symbols placed) turns
      (BitVec.ofNat 16 (start 16 sizes placed) <<< size) (-(2 * k + 1))
      (tree, next)).isSome = true := by
  induction turns generalizing size k nodes tree next with
  | zero =>
      have few := room _ _ _ _ linked
      have within := (List.getElem?_eq_some_iff.mp at_).1
      have small : k < 256 := by omega
      obtain ⟨index, found⟩ := Option.isSome_iff_exists.mp (treeIndex_isSome small)
      rw [insertCode, found]
      rfl
  | succ turns inductionHypothesis =>
      have few := room _ _ _ _ linked
      have within := (List.getElem?_eq_some_iff.mp at_).1
      have small : k < 256 := by omega
      obtain ⟨index, found⟩ := Option.isSome_iff_exists.mp (treeIndex_isSome small)
      obtain ⟨newNodes, other, grown, free, stillLinked, there, longPath, goes⟩ :=
        linked.onward ascending inside at_ path (by omega) found
      rw [goes]
      exact inductionHypothesis stillLinked there longPath (by omega)

theorem putCode_isSome {s : HuffTables × Int} {huffVal : Nat → U8} {code : U16}
    (coded : Coded sizes total) (inside : placed < total)
    (room : ∀ nodes lookUp tree next,
      Linked sizes (fun p => (huffVal p).toNat) placed (placed + 1) nodes lookUp tree next →
        nodes.length ≤ 256)
    (linked : Linked sizes (fun p => (huffVal p).toNat) placed placed nodes
      s.1.lookUp s.1.tree s.2)
    (code_eq : code.toNat = word sizes placed) :
    (putCode (huffVal placed) code (sizes placed) s).isSome = true := by
  have ascending := coded.ascending
  rw [putCode]
  dsimp only
  split
  · rfl
  · rename_i short
    have long : 8 < sizes placed := by omega
    have grown := linked.mono (Nat.le_succ placed)
    have inner : Inner 16 sizes placed (8, pre 16 8 (start 16 sizes placed)) := ⟨long, rfl⟩
    have below := coded.start_lt inside
    have small : pre 16 8 (start 16 sizes placed) < 256 := by
      rw [pre]
      omega
    rw [subtree_eq coded inside code_eq long, long_code coded inside code_eq long,
      Option.isSome_map]
    rcases (linked.look _ small).of_inner ascending inside.le inside inner with
      ⟨k, at_, entry⟩ | ⟨zero, absent⟩
    · rw [if_neg (by omega), entry]
      apply insertCode_isSome ascending inside room grown at_ ?_ (by omega)
      intro fewer least most
      rw [show fewer = 8 by omega]
      exact List.mem_of_getElem? at_
    · rw [if_pos zero]
      have rooted := grown.addRoot ascending inside.le inside (Nat.lt_succ_self _) inner absent
      rw [linked.next_eq] at rooted ⊢
      apply insertCode_isSome ascending inside room rooted (by simp) ?_ (by omega)
      intro fewer least most
      rw [show fewer = 8 by omega]
      simp

end Fits

section Tables

variable {huffNum huffVal : Nat → U8} {huffcode : Nat → U16}
  (coded : Coded (sizesUpTo huffNum 16) (codesUpTo huffNum 16))
  (codes : ∀ q < codesUpTo huffNum 16, (huffcode q).toNat = word (sizesUpTo huffNum 16) q)

include coded codes

theorem next_of_putCodes {count : Nat} {newTables : HuffTables × Int}
    (le : count ≤ codesUpTo huffNum 16)
    (made : (List.range count).foldlM
      (fun s p => putCode (huffVal p) (huffcode p) (sizesUpTo huffNum 16 p) s)
      (⟨fun _ => 0, fun _ => 0, fun _ => 0⟩, -1) = some newTables) : -513 ≤ newTables.2 := by
  induction count generalizing newTables with
  | zero =>
      cases made
      decide
  | succ count inductionHypothesis =>
      obtain ⟨before, madeBefore, put⟩ := foldlM_range_succ.mp made
      obtain ⟨nodes, linked⟩ := putCodes_linked coded codes (by omega) madeBefore
      have odd : before.2 % 2 = 1 := by
        rw [linked.next_eq]
        omega
      exact next_of_putCode odd (inductionHypothesis (by omega) madeBefore) put

/-- The tables take just as many pairs as there are first bits of longer codes. -/
theorem makeTables_isSome_iff :
    (makeTables huffVal (sizesUpTo huffNum 16) huffcode (codesUpTo huffNum 16)).isSome = true ↔
      pairs huffNum ≤ 256 := by
  constructor
  · intro fits
    obtain ⟨newTables, made⟩ := Option.isSome_iff_exists.mp fits
    obtain ⟨nodes, linked⟩ := putCodes_linked coded codes le_rfl made
    have taken := next_of_putCodes coded codes le_rfl made
    rw [linked.next_eq] at taken
    rw [← linked.length_eq]
    omega
  · intro room
    have steps : ∀ count ≤ codesUpTo huffNum 16, ((List.range count).foldlM
        (fun s p => putCode (huffVal p) (huffcode p) (sizesUpTo huffNum 16 p) s)
        (⟨fun _ => 0, fun _ => 0, fun _ => 0⟩, -1)).isSome = true := by
      intro count le
      induction count with
      | zero => rfl
      | succ count inductionHypothesis =>
          obtain ⟨before, made⟩ := Option.isSome_iff_exists.mp (inductionHypothesis (by omega))
          obtain ⟨nodes, linked⟩ := putCodes_linked coded codes (by omega) made
          rw [List.range_succ, List.foldlM_append, made]
          simp only [Option.bind_eq_bind, Option.bind_some, List.foldlM_cons, List.foldlM_nil,
            Option.pure_def, Option.bind_fun_some]
          apply putCode_isSome coded le ?_ linked (codes count le)
          intro nodes lookUp tree next linked
          exact (linked.length_le le).trans room
    exact steps _ le_rfl

end Tables

section Main

variable {progressive : Bool} {huffNum huffVal : Nat → U8}

/-- What the loops in front of the tables leave. -/
theorem exists_codes (kraft : kraftUpTo huffNum 16 ≤ 2 ^ 16)
    (few : codesUpTo huffNum 16 ≤ 255) :
    ∃ huffcode, makeCodes (Function.update (sizesUpTo huffNum 16) (codesUpTo huffNum 16) 0) =
        some huffcode ∧
      ((makeTables huffVal (Function.update (sizesUpTo huffNum 16) (codesUpTo huffNum 16) 0)
        huffcode (codesUpTo huffNum 16)).isSome = true ↔ pairs huffNum ≤ 256) := by
  have coded := coded_of_kraft kraft few
  have ended : Function.update (sizesUpTo huffNum 16) (codesUpTo huffNum 16) 0 =
      sizesUpTo huffNum 16 := by
    rw [← sizesUpTo_of_le (le_refl (codesUpTo huffNum 16)), Function.update_eq_self]
  obtain ⟨huffcode, makes, codes, -⟩ := makeCodes_eq coded
  rw [ended]
  exact ⟨huffcode, makes, makeTables_isSome_iff coded codes⟩

/-- The codes of a table fit into `s16Tree` just if they need 256 pairs at most. -/
theorem treeFits_iff (kraft : kraftUpTo huffNum 16 ≤ 2 ^ 16)
    (few : codesUpTo huffNum 16 ≤ 255) :
    TreeFits progressive huffNum huffVal ↔ (progressive = true → pairs huffNum ≤ 256) := by
  obtain ⟨huffcode, makes, room⟩ := @exists_codes huffNum huffVal kraft few
  rw [← room]
  constructor
  · intro fits
    exact fits _ _ huffcode (makeSizes_eq few) makes
  · intro fits huffsize lastp otherCodes sized given
    rw [makeSizes_eq few] at sized
    cases sized
    rw [makes] at given
    cases given
    exact fits

theorem treeFits_sampleNum : TreeFits true sampleNum sampleVal :=
  (@treeFits_iff true sampleNum sampleVal (by decide) (by decide)).mpr fun _ => by decide

/-- A code of 14 bits and 253 codes of 16 bits. -/
def longNum (size : Nat) : U8 :=
  if size = 14 then 1 else if size = 16 then 253 else 0

/-- These need 260 pairs. -/
theorem leaves_tree : kraftUpTo longNum 16 ≤ 2 ^ 16 ∧ codesUpTo longNum 16 ≤ 255 ∧
    ¬ TreeFits true longNum sampleVal := by
  have kraft : kraftUpTo longNum 16 ≤ 2 ^ 16 := by decide
  have few : codesUpTo longNum 16 ≤ 255 := by decide
  refine ⟨kraft, few, ?_⟩
  intro fits
  obtain ⟨huffcode, makes, room⟩ := @exists_codes longNum sampleVal kraft few
  have most := room.mp (fits _ _ huffcode (makeSizes_eq few) makes rfl)
  exact absurd most (by decide)

end Main

end Gp2Firmware.Jpeg.HuffmanTable
