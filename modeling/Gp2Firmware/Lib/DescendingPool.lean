import Mathlib.Tactic
import Mathlib.Logic.Function.Basic

/-!
# Handing out numbered items from the top of a range

A pool holds the numbers above `low` up to `high`.  A cursor moves down
through it; items are handed to keys at the cursor or passed over, and the
cursor never returns.  `HandedOut` is the invariant of such a pool.
-/

namespace Gp2Firmware.Lib

variable {κ : Type*}

/-- The items held by the keys came from above the cursor, and no two keys
hold the same one. -/
structure HandedOut
    (low high cursor : Nat) (held : κ → Option Nat) : Prop where
  cursor_lt : ∀ {key item}, held key = some item → cursor < item
  low_lt : ∀ {key item}, held key = some item → low < item
  le_high : ∀ {key item}, held key = some item → item ≤ high
  injective : ∀ {first second item},
    held first = some item → held second = some item → first = second

namespace HandedOut

variable {low high cursor : Nat} {held : κ → Option Nat}

theorem empty : HandedOut low high cursor (fun _ : κ => none) := by
  constructor <;> simp

/-- Passing over items only lowers the cursor. -/
theorem pass (pool : HandedOut low high cursor held)
    {lower : Nat} (le : lower ≤ cursor) :
    HandedOut low high lower held where
  cursor_lt holds := Nat.lt_of_le_of_lt le (pool.cursor_lt holds)
  low_lt := pool.low_lt
  le_high := pool.le_high
  injective := pool.injective

variable [DecidableEq κ]

/-- A key that gives up its item keeps the invariant. -/
theorem drop (pool : HandedOut low high cursor held) (key : κ) :
    HandedOut low high cursor (Function.update held key none) := by
  have remaining : ∀ {other item},
      Function.update held key none other = some item →
        held other = some item := by
    intro other item holds
    by_cases same : other = key
    · subst same
      rw [Function.update_self] at holds
      exact absurd holds (by simp)
    · rwa [Function.update_of_ne same] at holds
  exact
    { cursor_lt := fun holds => pool.cursor_lt (remaining holds)
      low_lt := fun holds => pool.low_lt (remaining holds)
      le_high := fun holds => pool.le_high (remaining holds)
      injective := fun first second =>
        pool.injective (remaining first) (remaining second) }

/-- Handing out an item at or below the cursor, and moving the cursor below
it. -/
theorem give (pool : HandedOut low high cursor held) (key : κ)
    {item lower : Nat} (aboveLow : low < item) (atCursor : item ≤ cursor)
    (inPool : cursor ≤ high) (below : lower < item) :
    HandedOut low high lower (Function.update held key (some item)) := by
  have holder : ∀ {other given},
      Function.update held key (some item) other = some given →
        (other = key ∧ given = item) ∨
          (other ≠ key ∧ held other = some given) := by
    intro other given holds
    by_cases same : other = key
    · subst same
      rw [Function.update_self, Option.some.injEq] at holds
      exact Or.inl ⟨rfl, holds.symm⟩
    · rw [Function.update_of_ne same] at holds
      exact Or.inr ⟨same, holds⟩
  constructor
  · intro other given holds
    rcases holder holds with ⟨-, rfl⟩ | ⟨-, old⟩
    · exact below
    · have := pool.cursor_lt old
      omega
  · intro other given holds
    rcases holder holds with ⟨-, rfl⟩ | ⟨-, old⟩
    · exact aboveLow
    · exact pool.low_lt old
  · intro other given holds
    rcases holder holds with ⟨-, rfl⟩ | ⟨-, old⟩
    · omega
    · exact pool.le_high old
  · intro first second given firstHolds secondHolds
    -- an item given now is at or below the cursor, an older one above it
    rcases holder firstHolds with ⟨rfl, rfl⟩ | ⟨-, firstOld⟩ <;>
      rcases holder secondHolds with ⟨rfl, givenEq⟩ | ⟨-, secondOld⟩
    · rfl
    · have := pool.cursor_lt secondOld
      omega
    · have := pool.cursor_lt firstOld
      omega
    · exact pool.injective firstOld secondOld

end HandedOut

end Gp2Firmware.Lib
