import Mathlib.Data.List.Basic
import Mathlib.Tactic.Common

/-!
# Back references

A text is stored as phrases: some literal items, and the distance and the length of a part
of the text that is repeated behind them.  The repeated part is copied item by item, so that
it may run into its own copy.  A text that `Parses` into phrases is what they `expand` to.
-/

namespace Gp2Firmware.Lib.BackReference

variable {α : Type*}

/-- A part of a memory. -/
def slice (memory : Nat → α) (start count : Nat) : List α :=
  (List.range count).map fun i => memory (start + i)

section Slice

variable {memory : Nat → α} {start : Nat}

@[simp] theorem length_slice (count : Nat) : (slice memory start count).length = count := by
  rw [slice, List.length_map, List.length_range]

@[simp] theorem slice_zero : slice memory start 0 = [] :=
  rfl

theorem getElem?_slice {count i : Nat} (inside : i < count) :
    (slice memory start count)[i]? = some (memory (start + i)) := by
  rw [slice, List.getElem?_map, List.getElem?_range inside, Option.map_some]

theorem slice_succ (count : Nat) :
    slice memory start (count + 1) = slice memory start count ++ [memory (start + count)] := by
  rw [slice, List.range_succ, List.map_append]
  rfl

/-- Two parts that lie one behind the other. -/
theorem slice_append (first second : Nat) :
    slice memory start first ++ slice memory (start + first) second =
      slice memory start (first + second) := by
  induction second with
  | zero => rw [slice_zero, List.append_nil, Nat.add_zero]
  | succ second inductionHypothesis =>
      rw [slice_succ, ← List.append_assoc, inductionHypothesis, ← Nat.add_assoc, slice_succ,
        Nat.add_assoc]

/-- A list of items lies in a memory. -/
def Holds (memory : Nat → α) (start : Nat) (items : List α) : Prop :=
  slice memory start items.length = items

theorem holds_nil : Holds memory start [] :=
  rfl

theorem holds_append {first second : List α} :
    Holds memory start (first ++ second) ↔
      Holds memory start first ∧ Holds memory (start + first.length) second := by
  rw [Holds, List.length_append, ← slice_append]
  constructor
  · intro same
    exact List.append_inj same (length_slice first.length)
  · rintro ⟨here, behind⟩
    rw [here, behind]

theorem holds_cons {item : α} {rest : List α} :
    Holds memory start (item :: rest) ↔ memory start = item ∧ Holds memory (start + 1) rest := by
  rw [← List.singleton_append, holds_append, List.length_singleton]
  refine and_congr_left fun _ => ?_
  rw [Holds, List.length_singleton, slice_succ, slice_zero, Nat.add_zero, List.nil_append,
    List.singleton_inj]

/-- A list of items as a memory. -/
theorem holds_getD (items : List α) (item : α) :
    Holds (fun i => items.getD i item) 0 items := by
  rw [Holds]
  apply List.ext_getElem
  · exact length_slice items.length
  · intro i _ inside
    simp only [slice, List.getElem_map, List.getElem_range, Nat.zero_add,
      List.getD_eq_getElem?_getD, List.getElem?_eq_getElem inside, Option.getD_some]

end Slice

/-- Items that stand some distance before the end are put behind it, one after the other. -/
def copyBack (distance : Nat) : Nat → List α → Option (List α)
  | 0, out => some out
  | count + 1, out =>
      if distance = 0 ∨ out.length < distance then none
      else (out[out.length - distance]?).bind fun item => copyBack distance count (out ++ [item])

/-- From a place on, a memory repeats what lies a distance before. -/
structure Repeats (memory : Nat → α) (start distance count : Nat) : Prop where
  positive : 0 < distance
  inside : distance ≤ start
  same : ∀ i < count, memory (start + i) = memory (start + i - distance)

/-- A copy restores what is repeated. -/
theorem copyBack_slice {memory : Nat → α} {start distance count : Nat}
    (repeats : Repeats memory start distance count) :
    copyBack distance count (slice memory 0 start) = some (slice memory 0 (start + count)) := by
  obtain ⟨positive, inside, same⟩ := repeats
  induction count generalizing start with
  | zero => rw [copyBack, Nat.add_zero]
  | succ count inductionHypothesis =>
      have first := same 0 (Nat.zero_lt_succ count)
      rw [Nat.add_zero] at first
      have rest : ∀ i < count, memory (start + 1 + i) = memory (start + 1 + i - distance) := by
        intro i before
        rw [Nat.add_assoc, Nat.add_comm 1 i]
        exact same (i + 1) (Nat.succ_lt_succ before)
      rw [copyBack, if_neg (by rw [length_slice]; omega), length_slice,
        getElem?_slice (by omega), Option.bind_some, Nat.zero_add, ← first]
      have grown := @slice_succ α memory 0 start
      rw [Nat.zero_add] at grown
      rw [← grown, inductionHypothesis (by omega) rest, Nat.add_right_comm, Nat.add_assoc]

/-- Literal items, and a repetition behind them. -/
structure Phrase (α : Type*) where
  literals : List α
  distance : Nat
  count : Nat

def Phrase.append (phrase : Phrase α) (out : List α) : Option (List α) :=
  copyBack phrase.distance phrase.count (out ++ phrase.literals)

def expand (phrases : List (Phrase α)) (out : List α) : Option (List α) :=
  phrases.foldlM (fun out phrase => phrase.append out) out

theorem expand_cons (phrase : Phrase α) (rest : List (Phrase α)) (out : List α) :
    expand (phrase :: rest) out = (phrase.append out).bind (expand rest) := by
  rw [expand, List.foldlM_cons]
  rfl

/-- The first items of a memory are these phrases. -/
inductive Parses (memory : Nat → α) : List (Phrase α) → Nat → Prop
  | nil : Parses memory [] 0
  | snoc {phrases : List (Phrase α)} {start : Nat} {run distance count : Nat}
      (before : Parses memory phrases start)
      (repeats : Repeats memory (start + run) distance count) :
      Parses memory (phrases ++ [⟨slice memory start run, distance, count⟩])
        (start + run + count)

theorem Parses.expand {memory : Nat → α} {phrases : List (Phrase α)} {stop : Nat}
    (parses : Parses memory phrases stop) : expand phrases [] = some (slice memory 0 stop) := by
  induction parses with
  | nil => rfl
  | @snoc phrases start run distance count before repeats inductionHypothesis =>
      have run_behind := @slice_append α memory 0 start run
      rw [Nat.zero_add] at run_behind
      rw [BackReference.expand] at inductionHypothesis ⊢
      rw [List.foldlM_append, inductionHypothesis]
      simp only [Option.bind_eq_bind, Option.bind_some, List.foldlM_cons, List.foldlM_nil,
        Phrase.append]
      rw [run_behind, copyBack_slice repeats]
      rfl

end Gp2Firmware.Lib.BackReference
