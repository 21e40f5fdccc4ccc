import Mathlib.Order.Lattice
import Mathlib.Order.BoundedOrder.Lattice
import Mathlib.Order.Disjoint

/-!
# Memory whose bits can only be cleared

Flash memory is erased to all ones and then programmed: a program can clear
bits and never sets one.  Contents are elements of a distributive lattice
ordered bitwise, the erased content is its top, and programming is the meet
with the requested content.
-/

namespace Gp2Firmware.Lib

variable {α : Type*} [DistribLattice α]

/-- Programming clears the bits that the request has clear. -/
def program (old request : α) : α := old ⊓ request

/-- A program that fails half way leaves the bits of `stuck` as they were. -/
def programPartly (old request stuck : α) : α := old ⊓ (request ⊔ stuck)

/-- A request that only clears bits still set is stored as it is. -/
theorem program_eq_request {old request : α} (clearing : request ≤ old) :
    program old request = request :=
  inf_eq_right.mpr clearing

/-- Only such a request is. -/
theorem program_eq_request_iff {old request : α} :
    program old request = request ↔ request ≤ old :=
  inf_eq_right

theorem program_top [OrderTop α] (request : α) :
    program ⊤ request = request :=
  program_eq_request le_top

/-- Whatever lies between the old content and the fully programmed one is left
by some partial program. -/
theorem exists_programPartly
    {old request left : α} (lower : program old request ≤ left)
    (upper : left ≤ old) :
    ∃ stuck, programPartly old request stuck = left := by
  refine ⟨left, ?_⟩
  have requested : old ⊓ request ≤ left := lower
  rw [programPartly, inf_sup_left, inf_eq_right.mpr upper,
    sup_eq_right.mpr requested]

/-- Nothing shows of a failed program once the request has been repeated. -/
theorem program_programPartly (old request stuck : α) :
    program (programPartly old request stuck) request = program old request := by
  rw [program, programPartly, inf_assoc, inf_comm (request ⊔ stuck), inf_sup_self, program]

end Gp2Firmware.Lib
