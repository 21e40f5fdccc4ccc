import Mathlib.Data.Nat.ModEq
import Mathlib.Logic.Function.Basic
import Mathlib.Tactic.Common

/-!
# A memory that is written page by page

A device stores the bytes of a write one after the other and counts their address within
a page: behind the last place of the page comes its first.  A write that ends inside the
page is a copy to a range, and copies to adjacent ranges are one copy.
-/

namespace Gp2Firmware.Lib

variable {Value : Type*}

/-- A memory after a copy to a range. -/
def copyRange (memory : Nat → Value) (start len : Nat) (source : Nat → Value) :
    Nat → Value :=
  fun address =>
    if start ≤ address ∧ address < start + len then source (address - start)
    else memory address

/-- The address behind an address, within its page. -/
def nextInPage (page address : Nat) : Nat :=
  address / page * page + (address + 1) % page

/-- A memory after a write of some values at an address. -/
def pageWrite (page : Nat) (memory : Nat → Value) (address : Nat) :
    List Value → Nat → Value
  | [] => memory
  | value :: values =>
      pageWrite page (Function.update memory address value) (nextInPage page address) values

variable {memory source : Nat → Value} {start len page address : Nat}

theorem copyRange_zero : copyRange memory start 0 source = memory := by
  funext address
  exact if_neg (by omega)

theorem copyRange_one :
    copyRange memory start 1 source = Function.update memory start (source 0) := by
  funext address
  rw [copyRange, Function.update_apply]
  by_cases here : address = start
  · rw [if_pos ⟨by omega, by omega⟩, if_pos here, here, Nat.sub_self]
  · rw [if_neg (by omega), if_neg here]

theorem copyRange_outside (outside : ¬ (start ≤ address ∧ address < start + len)) :
    copyRange memory start len source address = memory address :=
  if_neg outside

theorem copyRange_inside (below : address < len) :
    copyRange memory start len source (start + address) = source address := by
  rw [copyRange, if_pos ⟨by omega, by omega⟩, Nat.add_sub_cancel_left]

/-- Copies to adjacent ranges are one copy. -/
theorem copyRange_append (more : Nat) :
    copyRange (copyRange memory start len source) (start + len) more
        (fun i => source (len + i)) =
      copyRange memory start (len + more) source := by
  funext address
  unfold copyRange
  by_cases second : start + len ≤ address ∧ address < start + len + more
  · rw [if_pos second, if_pos ⟨by omega, by omega⟩]
    exact congrArg source (by omega)
  · rw [if_neg second]
    by_cases first : start ≤ address ∧ address < start + len
    · rw [if_pos first, if_pos ⟨by omega, by omega⟩]
    · rw [if_neg first, if_neg (by omega)]

theorem add_one_mod_page (inside : address % page + 1 < page) :
    (address + 1) % page = address % page + 1 := by
  have one : 1 % page = 1 := Nat.mod_eq_of_lt (by omega)
  rw [Nat.add_mod_of_add_mod_lt (by rwa [one]), one]

theorem nextInPage_of_lt (inside : address % page + 1 < page) :
    nextInPage page address = address + 1 := by
  rw [nextInPage, add_one_mod_page inside, ← Nat.add_assoc, Nat.div_add_mod']

/-- A write that ends inside its page is a copy to a range. -/
theorem pageWrite_of_fits (fits : address % page + len ≤ page) :
    pageWrite page memory address ((List.range len).map source) =
      copyRange memory address len source := by
  induction len generalizing memory address source with
  | zero => exact copyRange_zero.symm
  | succ len inductionHypothesis =>
      rw [List.range_succ_eq_map, List.map_cons, List.map_map, pageWrite, ← copyRange_one,
        Nat.add_comm len 1, ← copyRange_append len]
      rcases Nat.eq_zero_or_pos len with rfl | more
      · exact copyRange_zero.symm
      · have inside : address % page + 1 < page := by omega
        have rest : (address + 1) % page + len ≤ page := by
          rw [add_one_mod_page inside]
          omega
        rw [nextInPage_of_lt inside, inductionHypothesis rest]
        exact congrArg _ (funext fun i => congrArg source (Nat.add_comm i 1))

end Gp2Firmware.Lib
