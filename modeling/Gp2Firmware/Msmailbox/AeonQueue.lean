import Gp2Firmware.Lib.IndexRing
import Gp2Firmware.Lib.Run
import Gp2Firmware.Msmailbox.Registers

/-!
# The queue of mails from the coprocessor

`callback_receive_mail_int` takes a slot from `opMBPutAddr`, which moves
`u32PutAdr` behind it, and then lets `hal_opReceive` copy the registers into the
slot, while a consumer in user space reads the slots from `u32GetAdr` on.
-/

namespace Gp2Firmware.Msmailbox

open Lib

/-- `MSMAILBOX_PAGES` -/
def msmailboxPages : Nat := 8

/-- `u32MaxMUnit` after `opMBInit` with pages of 4096 bytes and mails of 16. -/
def u32MaxMUnit : Nat := msmailboxPages * 4096 / 16 - 4 - 1

/-- The queue, the registers of the coprocessor, and the copy that is under way
with its slot and the number of words that it has copied.  `arrived` are the
mails for which the callback has run, `received` those whose copy is complete. -/
structure AeonQueue where
  regs : Mail
  slots : Nat → Mail
  u32GetAdr : Nat
  u32PutAdr : Nat
  copying : Option (Nat × Nat)
  halted : Bool
  arrived : List Mail
  received : List Mail
  reads : List Mail

inductive AeonStep where
  | arrive (mail : Mail)
  | copy
  | read

/-- The index behind a slot, in `opMBPutAddr` and for the consumer. -/
def nextUnit (u32Adr : Nat) : Nat :=
  if u32Adr + 1 ≥ u32MaxMUnit then 0 else u32Adr + 1

namespace AeonQueue

/-- After `opMBInit`, which leaves the slots as they were. -/
def init (slots : Nat → Mail) : AeonQueue where
  regs := fun _ => 0
  slots := slots
  u32GetAdr := 0
  u32PutAdr := 0
  copying := none
  halted := false
  arrived := []
  received := []
  reads := []

/-- `callback_receive_mail_int` up to the copy: `opMBPutAddr`, `_BUSY_S`, and the
assertion for a mail that asks for an instant answer. -/
def arrive (s : AeonQueue) (mail : Mail) : AeonQueue :=
  { s with
    regs := mail.busyS
    u32PutAdr := nextUnit s.u32PutAdr
    arrived := s.arrived ++ [mail.busyS]
    halted := mail.busyS.instant || mail.busyS.readback
    copying :=
      if mail.busyS.instant || mail.busyS.readback then none
      else some (s.u32PutAdr, 0) }

/-- The next word of the copy, or its end with `_BUSY_C` and `_FIRE_C`. -/
def copyStep (s : AeonQueue) : AeonQueue :=
  match s.copying with
  | none => s
  | some (slot, u32Ind) =>
      if small : u32Ind < 8 then
        { s with
          slots := Function.update s.slots slot
            (Function.update (s.slots slot) ⟨u32Ind, small⟩ (s.regs ⟨u32Ind, small⟩))
          copying := some (slot, u32Ind + 1) }
      else
        { s with
          regs := s.regs.busyC.fireC
          copying := none
          received := s.received ++ [s.regs] }

/-- The consumer reads a slot and moves on. -/
def read (s : AeonQueue) : AeonQueue :=
  if s.u32GetAdr ≠ s.u32PutAdr then
    { s with
      reads := s.reads ++ [s.slots s.u32GetAdr]
      u32GetAdr := nextUnit s.u32GetAdr }
  else s

/-- The callback runs in a tasklet and does not interrupt itself. -/
def after (s : AeonQueue) : AeonStep → AeonQueue
  | .arrive mail => if s.copying = none ∧ s.halted = false then s.arrive mail else s
  | .copy => s.copyStep
  | .read => s.read

/-- The slots from `u32GetAdr` up to `u32PutAdr`. -/
def unread (s : AeonQueue) : List Nat :=
  IndexRing.cells u32MaxMUnit s.u32GetAdr s.u32PutAdr

/-- The slots as they are once the copy that is under way is complete. -/
def finished (s : AeonQueue) : Nat → Mail :=
  match s.copying with
  | none => s.slots
  | some (slot, _) => Function.update s.slots slot s.regs

/-- What was read, and the slots up to `u32PutAdr` as they are, are the mails that
were received completely. -/
def SlotsReceived (s : AeonQueue) : Prop :=
  s.reads ++ s.unread.map s.slots = s.received

/-- What was read, and what will be in the slots up to `u32PutAdr`, are the mails
that have arrived. -/
def ReadsArrived (s : AeonQueue) : Prop :=
  s.halted = false ∧ s.reads ++ s.unread.map s.finished = s.arrived

/-- A mail arrives while a slot is free and asks for no instant answer, and the
consumer reads the slot that is being filled only when the words still to be
copied are there already. -/
def ReadsFilled (s : AeonQueue) : AeonStep → Prop
  | .arrive mail => s.copying = none →
      nextUnit s.u32PutAdr ≠ s.u32GetAdr ∧ mail.instant = false ∧ mail.readback = false
  | .copy => True
  | .read => ∀ u32Ind, s.copying = some (s.u32GetAdr, u32Ind) →
      s.u32GetAdr ≠ s.u32PutAdr →
        ∀ k : Fin 8, u32Ind ≤ k → s.slots s.u32GetAdr k = s.regs k

end AeonQueue

theorem nextUnit_eq {u32Adr : Nat} (small : u32Adr < u32MaxMUnit) :
    nextUnit u32Adr = (u32Adr + 1) % u32MaxMUnit := by
  rw [nextUnit, IndexRing.next_eq small]
  by_cases last : u32Adr + 1 = u32MaxMUnit
  · rw [if_pos last.ge, if_pos last]
  · rw [if_neg (by omega), if_neg last]

namespace AeonQueue

variable {s : AeonQueue}

/-- What every run keeps whose reads are the mails that have arrived. -/
structure Filling (s : AeonQueue) : Prop where
  getLt : s.u32GetAdr < u32MaxMUnit
  putLt : s.u32PutAdr < u32MaxMUnit
  copied : ∀ slot u32Ind, s.copying = some (slot, u32Ind) →
    ∀ k : Fin 8, k < u32Ind → s.slots slot k = s.regs k
  reads : s.ReadsArrived

namespace Filling

theorem nextPutLt (filling : Filling s) : nextUnit s.u32PutAdr < u32MaxMUnit := by
  rw [nextUnit_eq filling.putLt]
  exact Nat.mod_lt _ (by decide)

/-- With a free slot an arrival puts one more slot behind those to be read. -/
theorem unread_arrive (filling : Filling s) (mail : Mail)
    (free : nextUnit s.u32PutAdr ≠ s.u32GetAdr) :
    (s.arrive mail).unread = s.unread ++ [s.u32PutAdr] := by
  have room : IndexRing.used u32MaxMUnit s.u32GetAdr s.u32PutAdr + 1 < u32MaxMUnit := by
    by_contra full
    have below : IndexRing.used u32MaxMUnit s.u32GetAdr s.u32PutAdr < u32MaxMUnit :=
      IndexRing.used_lt (by decide)
    refine free ((nextUnit_eq filling.putLt).trans ?_)
    exact IndexRing.used_push_full filling.getLt filling.putLt (by omega)
  change IndexRing.cells u32MaxMUnit s.u32GetAdr (nextUnit s.u32PutAdr) = _
  rw [nextUnit_eq filling.putLt]
  exact IndexRing.cells_push filling.getLt filling.putLt room

theorem unread_arrive_full (filling : Filling s) (mail : Mail)
    (full : nextUnit s.u32PutAdr = s.u32GetAdr) : (s.arrive mail).unread = [] := by
  change IndexRing.cells u32MaxMUnit s.u32GetAdr (nextUnit s.u32PutAdr) = _
  rw [full]
  exact IndexRing.cells_of_eq filling.getLt

theorem put_not_mem_unread (filling : Filling s) : s.u32PutAdr ∉ s.unread :=
  IndexRing.write_not_mem_cells filling.getLt filling.putLt

theorem arrive_iff (filling : Filling s) (idle : s.copying = none) (mail : Mail) :
    (s.arrive mail).ReadsArrived ↔
      nextUnit s.u32PutAdr ≠ s.u32GetAdr ∧ mail.instant = false ∧
        mail.readback = false := by
  obtain ⟨running, reads⟩ := filling.reads
  have slots : s.finished = s.slots := by rw [finished, idle]
  rw [slots] at reads
  constructor
  · rintro ⟨awake, whole⟩
    have quiet : (mail.busyS.instant || mail.busyS.readback) = false := awake
    rw [Mail.instant_busyS, Mail.readback_busyS, Bool.or_eq_false_iff] at quiet
    refine ⟨fun full => ?_, quiet⟩
    rw [filling.unread_arrive_full mail full] at whole
    have lengths := congrArg List.length whole
    have before := congrArg List.length reads
    simp only [arrive, List.map_nil, List.append_nil, List.length_append,
      List.length_singleton] at lengths before
    omega
  · rintro ⟨free, quiet⟩
    have quiet : (mail.busyS.instant || mail.busyS.readback) = false := by
      rwa [Mail.instant_busyS, Mail.readback_busyS, Bool.or_eq_false_iff]
    have slots : (s.arrive mail).finished =
        Function.update s.slots s.u32PutAdr mail.busyS := by
      simp only [finished, arrive, quiet, Bool.false_eq_true, if_false]
    have kept : ∀ slot ∈ s.unread,
        Function.update s.slots s.u32PutAdr mail.busyS slot = s.slots slot := by
      intro slot member
      apply Function.update_of_ne
      rintro rfl
      exact filling.put_not_mem_unread member
    refine ⟨quiet, ?_⟩
    rw [filling.unread_arrive mail free, slots, List.map_append, ← List.append_assoc,
      List.map_congr_left kept]
    change s.reads ++ s.unread.map s.slots ++ _ = s.arrived ++ [mail.busyS]
    rw [reads, List.map_singleton, Function.update_self]

theorem arrive (filling : Filling s) (mail : Mail)
    (reads : (s.arrive mail).ReadsArrived) : Filling (s.arrive mail) where
  getLt := filling.getLt
  putLt := filling.nextPutLt
  copied := by
    intro slot u32Ind copying k small
    simp only [AeonQueue.arrive] at copying
    split_ifs at copying
    cases copying
    exact absurd small (Nat.not_lt_zero _)
  reads := reads

theorem copyStep (filling : Filling s) : Filling s.copyStep := by
  unfold AeonQueue.copyStep
  obtain ⟨running, reads⟩ := filling.reads
  cases copying : s.copying with
  | none => exact filling
  | some copy =>
      obtain ⟨slot, u32Ind⟩ := copy
      have copied := filling.copied slot u32Ind copying
      rw [finished, copying] at reads
      dsimp only
      split_ifs with small
      · refine ⟨filling.getLt, filling.putLt, ?_, running, ?_⟩
        · intro other ind same k before
          cases same
          simp only [Function.update_self]
          by_cases here : k = ⟨u32Ind, small⟩
          · rw [here, Function.update_self]
          · rw [Function.update_of_ne here]
            refine copied k ?_
            have apart : k.val ≠ u32Ind := fun equal => here (Fin.ext equal)
            omega
        · change s.reads ++ s.unread.map (Function.update (Function.update s.slots slot _)
            slot s.regs) = s.arrived
          rw [Function.update_idem]
          exact reads
      · refine ⟨filling.getLt, filling.putLt, fun _ _ same => (by cases same), running, ?_⟩
        have whole : s.slots slot = s.regs := funext fun k => copied k (by omega)
        dsimp only at reads
        rw [← whole, Function.update_eq_self] at reads
        exact reads

/-- A read takes the first of the slots to be read. -/
theorem unread_read (filling : Filling s) (some : s.u32GetAdr ≠ s.u32PutAdr) :
    s.unread = s.u32GetAdr :: s.read.unread := by
  have moved : s.read.unread =
      IndexRing.cells u32MaxMUnit (nextUnit s.u32GetAdr) s.u32PutAdr := by
    rw [AeonQueue.read, if_pos some]
    rfl
  rw [moved, nextUnit_eq filling.getLt]
  exact IndexRing.cells_pop filling.getLt filling.putLt some

theorem read_iff (filling : Filling s) (some : s.u32GetAdr ≠ s.u32PutAdr) :
    s.read.ReadsArrived ↔ s.slots s.u32GetAdr = s.finished s.u32GetAdr := by
  obtain ⟨running, reads⟩ := filling.reads
  rw [filling.unread_read some, List.map_cons] at reads
  have after : s.read.ReadsArrived ↔ s.halted = false ∧
      s.reads ++ [s.slots s.u32GetAdr] ++ s.read.unread.map s.finished = s.arrived := by
    rw [ReadsArrived]
    generalize s.read.unread = later
    rw [AeonQueue.read, if_pos some]
    rfl
  rw [after, ← reads, List.append_assoc, List.append_cancel_left_eq,
    List.singleton_append, List.cons.injEq]
  exact ⟨fun law => law.2.1, fun same => ⟨running, same, rfl⟩⟩

/-- What the slot to be read lacks is what is still to be copied. -/
theorem slot_iff (filling : Filling s) :
    s.slots s.u32GetAdr = s.finished s.u32GetAdr ↔
      ∀ u32Ind, s.copying = some (s.u32GetAdr, u32Ind) →
        ∀ k : Fin 8, u32Ind ≤ k → s.slots s.u32GetAdr k = s.regs k := by
  rw [finished]
  cases copying : s.copying with
  | none => exact iff_of_true rfl fun _ same => by cases same
  | some copy =>
      obtain ⟨slot, u32Ind⟩ := copy
      by_cases here : s.u32GetAdr = slot
      · subst here
        simp only [Function.update_self]
        constructor
        · intro same ind equal k _
          rw [same]
        · intro rest
          funext k
          by_cases before : k < u32Ind
          · exact filling.copied _ u32Ind copying k before
          · exact rest u32Ind rfl k (by omega)
      · simp only [Function.update_of_ne here]
        refine iff_of_true trivial fun ind same => ?_
        cases same
        exact absurd rfl here

theorem read (filling : Filling s) (reads : s.read.ReadsArrived) : Filling s.read := by
  by_cases some : s.u32GetAdr = s.u32PutAdr
  · rwa [AeonQueue.read, if_neg (not_not.mpr some)]
  have getLt : nextUnit s.u32GetAdr < u32MaxMUnit := by
    rw [nextUnit_eq filling.getLt]
    exact Nat.mod_lt _ (by decide)
  rw [AeonQueue.read, if_pos some] at reads ⊢
  exact ⟨getLt, filling.putLt, filling.copied, reads⟩

theorem after_iff (filling : Filling s) (step : AeonStep) :
    (s.after step).ReadsArrived ↔ s.ReadsFilled step := by
  cases step with
  | arrive mail =>
      rw [after, ReadsFilled]
      by_cases idle : s.copying = none
      · rw [if_pos ⟨idle, filling.reads.1⟩, filling.arrive_iff idle]
        exact ⟨fun met _ => met, fun met => met idle⟩
      · rw [if_neg fun both => idle both.1]
        exact iff_of_true filling.reads fun free => absurd free idle
  | copy => exact iff_of_true filling.copyStep.reads trivial
  | read =>
      rw [after, ReadsFilled]
      by_cases some : s.u32GetAdr = s.u32PutAdr
      · rw [AeonQueue.read, if_neg (not_not.mpr some)]
        exact iff_of_true filling.reads fun _ _ different => absurd some different
      · rw [filling.read_iff some, filling.slot_iff]
        exact ⟨fun met ind copying _ => met ind copying,
          fun met ind copying => met ind copying some⟩

theorem after (filling : Filling s) (step : AeonStep)
    (reads : (s.after step).ReadsArrived) : Filling (s.after step) := by
  cases step with
  | arrive mail =>
      rw [AeonQueue.after] at reads ⊢
      split_ifs at reads ⊢
      · exact filling.arrive mail reads
      · exact filling
  | copy => exact filling.copyStep
  | read => exact filling.read reads

end Filling

/-- No slot is to be read while the indexes are equal. -/
theorem unread_of_eq (small : s.u32PutAdr < u32MaxMUnit)
    (same : s.u32GetAdr = s.u32PutAdr) : s.unread = [] := by
  rw [unread, same]
  exact IndexRing.cells_of_eq small

theorem zero_lt_maxMUnit : 0 < u32MaxMUnit := by decide

theorem filling_init (slots : Nat → Mail) : Filling (init slots) := by
  refine ⟨zero_lt_maxMUnit, zero_lt_maxMUnit, fun _ _ copying => (by cases copying), ?_⟩
  refine ⟨rfl, ?_⟩
  rw [unread_of_eq zero_lt_maxMUnit rfl]
  rfl

/-- Before the first mail arrives. -/
structure Untouched (s : AeonQueue) : Prop where
  filling : Filling s
  empty : s.u32GetAdr = s.u32PutAdr
  idle : s.copying = none
  received : s.received = []
  reads : s.reads = []

namespace Untouched

theorem slotsReceived (untouched : Untouched s) : s.SlotsReceived := by
  rw [SlotsReceived, unread_of_eq untouched.filling.putLt untouched.empty,
    untouched.reads, untouched.received]
  rfl

theorem after_eq (untouched : Untouched s) {step : AeonStep}
    (other : ∀ mail, step ≠ .arrive mail) : s.after step = s := by
  cases step with
  | arrive mail => exact absurd rfl (other mail)
  | copy => rw [after, copyStep, untouched.idle]
  | read => exact if_neg (not_not.mpr untouched.empty)

/-- The slot of a mail is among those to be read before it is filled. -/
theorem not_slotsReceived (untouched : Untouched s) (mail : Mail)
    (free : nextUnit s.u32PutAdr ≠ s.u32GetAdr) : ¬ (s.arrive mail).SlotsReceived := by
  intro law
  rw [SlotsReceived, untouched.filling.unread_arrive mail free] at law
  have lengths := congrArg List.length law
  have none : (s.arrive mail).received = [] := untouched.received
  simp [none] at lengths

theorem laws_after_iff (untouched : Untouched s) (step : AeonStep) :
    (s.after step).SlotsReceived ∧ (s.after step).ReadsArrived ↔
      ∀ mail, step ≠ .arrive mail := by
  constructor
  · rintro ⟨slots, reads⟩ mail rfl
    rw [after, if_pos ⟨untouched.idle, untouched.filling.reads.1⟩] at slots reads
    have free := ((untouched.filling.arrive_iff untouched.idle mail).mp reads).1
    exact untouched.not_slotsReceived mail free slots
  · intro other
    rw [untouched.after_eq other]
    exact ⟨untouched.slotsReceived, untouched.filling.reads⟩

end Untouched

/-- For every scheduling, the mails read are the mails that have arrived if and only
if each arrives while a slot is free and no slot is read before it is filled; and
the slots up to `u32PutAdr` hold complete mails throughout if and only if none
arrives, because its slot is published before it is filled. -/
theorem queue_iff (slots : Nat → Mail) (steps : List AeonStep) :
    (Run.Meets after (fun s step => (s.after step).SlotsReceived ∧
        (s.after step).ReadsArrived) (init slots) steps ↔
      Run.Meets after (fun _ step => ∀ mail, step ≠ .arrive mail) (init slots) steps) ∧
    (Run.Meets after (fun s step => (s.after step).ReadsArrived) (init slots) steps ↔
      Run.Meets after ReadsFilled (init slots) steps) := by
  refine ⟨?_, ?_⟩
  · refine Run.meets_congr (fun s step untouched => untouched.laws_after_iff step) ?_
      (⟨filling_init slots, rfl, rfl, rfl, rfl⟩ : Untouched (init slots))
    intro s step untouched laws
    rwa [untouched.after_eq ((untouched.laws_after_iff step).mp laws)]
  · exact Run.meets_congr (fun s step filling => filling.after_iff step)
      (fun s step filling reads => filling.after step reads) (filling_init slots)

/-- The consumer reads a slot before it is filled. -/
theorem slot_read_unfilled :
    ¬ ∀ (slots : Nat → Mail) (steps : List AeonStep),
      Run.Meets after (fun s step => (s.after step).SlotsReceived ∧
        (s.after step).ReadsArrived) (init slots) steps := by
  intro always
  have run := always (fun _ _ => 0) [.arrive (fun _ => 0x1100), .read]
  have reads := run.2.1.2.2
  rw [unread_of_eq (by decide) (by decide)] at reads
  have first := congrArg List.head? reads
  have word := congrArg (Option.map fun mail => mail 1) first
  revert word
  decide

end AeonQueue

end Gp2Firmware.Msmailbox
