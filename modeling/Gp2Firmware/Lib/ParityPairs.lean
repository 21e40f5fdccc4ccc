import Mathlib.Algebra.Order.BigOperators.Group.Finset
import Mathlib.Data.Fintype.Card

/-!
# Pairs of parities

The places of a word are named by bits.  For each bit two parities of the word are kept: of
the places that have the bit, and of those that do not.  The parities in which two words
differ are a syndrome; a place of the word that is flipped, or a parity, leaves its own one.
One flip is told from two, and located, from three bits on.
-/

namespace Gp2Firmware.Lib.ParityPairs

variable {ι : Type*}

/-- For each bit of a name, the parity with it and the parity without. -/
abbrev Syndrome (ι : Type*) := ι → Bool × Bool

/-- What is flipped: a place of the word, or a parity. -/
inductive Flip (ι : Type*)
  | place (name : ι → Bool)
  | parity (bit : ι) (side : Bool)

def AllDiffer (s : Syndrome ι) : Prop :=
  ∀ bit, (s bit).1 ≠ (s bit).2

def add (s t : Syndrome ι) : Syndrome ι :=
  fun bit => ((s bit).1 ^^ (t bit).1, (s bit).2 ^^ (t bit).2)

def pairWeight (pair : Bool × Bool) : Nat :=
  pair.1.toNat + pair.2.toNat

/-- The number of parities that are set. -/
def weight [Fintype ι] (s : Syndrome ι) : Nat :=
  ∑ bit, pairWeight (s bit)

def Flip.syndrome [DecidableEq ι] : Flip ι → Syndrome ι
  | .place name => fun bit => (name bit, !name bit)
  | .parity bit side => fun other => if other = bit then (side, !side) else (false, false)

section OneFlip

variable [DecidableEq ι]

theorem allDiffer_place (name : ι → Bool) : AllDiffer (Flip.place name).syndrome := by
  intro bit
  simp only [Flip.syndrome, ne_eq, Bool.eq_not_self, not_false_eq_true]

theorem syndrome_parity_self (bit : ι) (side : Bool) :
    (Flip.parity bit side).syndrome bit = (side, !side) :=
  if_pos rfl

theorem syndrome_parity_of_ne {bit other : ι} (differ : other ≠ bit) (side : Bool) :
    (Flip.parity bit side).syndrome other = (false, false) :=
  if_neg differ

end OneFlip

theorem add_comm (s t : Syndrome ι) : add s t = add t s := by
  funext bit
  simp only [add, Bool.xor_comm]

section Weight

variable [Fintype ι] {s : Syndrome ι}

theorem pairWeight_le (bit : ι) : pairWeight (s bit) ≤ weight s :=
  Finset.single_le_sum (fun bit _ => Nat.zero_le (pairWeight (s bit))) (Finset.mem_univ bit)

theorem one_le_of_differ {pair : Bool × Bool} (differ : pair.1 ≠ pair.2) :
    1 ≤ pairWeight pair := by
  obtain ⟨first, second⟩ := pair
  cases first <;> cases second <;> simp [pairWeight] at differ ⊢

/-- Two pairs that are not empty. -/
theorem two_le_weight {first second : ι} (differ : first ≠ second)
    (one : (s first).1 ≠ (s first).2) (other : (s second).1 ≠ (s second).2) :
    2 ≤ weight s := by
  have both : pairWeight (s first) + pairWeight (s second) ≤ weight s :=
    Finset.add_le_sum (fun bit _ => Nat.zero_le (pairWeight (s bit))) (Finset.mem_univ first)
      (Finset.mem_univ second) differ
  have here := one_le_of_differ one
  have there := one_le_of_differ other
  exact Nat.le_trans (Nat.add_le_add here there) both

/-- Neither one flipped place nor one flipped parity looks so. -/
structure Many (s : Syndrome ι) : Prop where
  notAll : ¬ AllDiffer s
  two : 2 ≤ weight s

theorem many_of_both {bit : ι} (both : s bit = (true, true)) : Many s := by
  refine ⟨fun all => all bit (by rw [both]), ?_⟩
  have pair := @pairWeight_le ι _ s bit
  rw [both] at pair
  exact pair

theorem exists_third (three : 3 ≤ Fintype.card ι) (first second : ι) :
    ∃ third, third ≠ first ∧ third ≠ second := by
  classical
  have few : ({first, second} : Finset ι).card < (Finset.univ : Finset ι).card :=
    Nat.lt_of_le_of_lt Finset.card_le_two three
  obtain ⟨third, -, outside⟩ := Finset.exists_mem_notMem_of_card_lt_card few
  rw [Finset.mem_insert, Finset.mem_singleton, not_or] at outside
  exact ⟨third, outside⟩

end Weight

section TwoFlips

variable [Fintype ι] [DecidableEq ι]

theorem many_of_places {first second : ι → Bool} (differ : first ≠ second) :
    Many (add (Flip.place first).syndrome (Flip.place second).syndrome) := by
  obtain ⟨bit, here⟩ := Function.ne_iff.mp differ
  have other : second bit = !first bit := Bool.eq_not.mpr (Ne.symm here)
  apply @many_of_both ι _ _ bit
  simp only [add, Flip.syndrome, other, Bool.not_not, Bool.bne_not_self, Bool.not_bne_self]

theorem many_of_place_parity (three : 3 ≤ Fintype.card ι) (name : ι → Bool) (bit : ι)
    (side : Bool) :
    Many (add (Flip.place name).syndrome (Flip.parity bit side).syndrome) := by
  have apart : ∀ other, other ≠ bit →
      (add (Flip.place name).syndrome (Flip.parity bit side).syndrome other).1 ≠
        (add (Flip.place name).syndrome (Flip.parity bit side).syndrome other).2 := by
    intro other differ
    rw [add, syndrome_parity_of_ne differ]
    simpa only [Bool.xor_false] using allDiffer_place name other
  obtain ⟨first, firstDiffers, -⟩ := exists_third three bit bit
  obtain ⟨second, secondDiffers, differ⟩ := exists_third three bit first
  refine ⟨fun all => all bit ?_, two_le_weight differ.symm (apart first firstDiffers)
    (apart second secondDiffers)⟩
  rw [add, syndrome_parity_self, Flip.syndrome]
  dsimp only
  cases name bit <;> cases side <;> rfl

theorem many_of_parities (three : 3 ≤ Fintype.card ι) {first second : ι} {side other : Bool}
    (differ : ¬ (first = second ∧ side = other)) :
    Many (add (Flip.parity first side).syndrome (Flip.parity second other).syndrome) := by
  by_cases same : first = second
  · subst same
    have otherSide : other = !side := Bool.eq_not.mpr fun equal => differ ⟨rfl, equal.symm⟩
    apply @many_of_both ι _ _ first
    rw [add, syndrome_parity_self, syndrome_parity_self, otherSide]
    cases side <;> rfl
  · obtain ⟨third, notFirst, notSecond⟩ := exists_third three first second
    refine ⟨fun all => all third ?_, @two_le_weight ι _ _ first second same ?_ ?_⟩
    · rw [add, syndrome_parity_of_ne notFirst, syndrome_parity_of_ne notSecond]
    · rw [add, syndrome_parity_self, syndrome_parity_of_ne same]
      cases side <;> decide
    · rw [add, syndrome_parity_self, syndrome_parity_of_ne (Ne.symm same)]
      cases other <;> decide

/-- Two flips are never taken for one. -/
theorem many_of_two (three : 3 ≤ Fintype.card ι) {first second : Flip ι}
    (differ : first ≠ second) : Many (add first.syndrome second.syndrome) := by
  cases first with
  | place name =>
      cases second with
      | place other =>
          exact many_of_places fun same => differ (congrArg Flip.place same)
      | parity bit side => exact many_of_place_parity three name bit side
  | parity bit side =>
      cases second with
      | place name =>
          rw [add_comm]
          exact many_of_place_parity three name bit side
      | parity other otherSide =>
          apply many_of_parities three
          rintro ⟨rfl, rfl⟩
          exact differ rfl

end TwoFlips

end Gp2Firmware.Lib.ParityPairs
