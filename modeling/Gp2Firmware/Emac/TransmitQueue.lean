import Mathlib.Data.BitVec
import Gp2Firmware.Lib.Run

/-!
# The transmit queue of the EMAC driver

`mdrv_emac.c` as built with `SOFTWARE_DESCRIPTOR` and `INT_DELAY`: the interrupt
enables and the queue of the network device over hardware initialisation, open,
close, transmit and interrupts.
-/

namespace Gp2Firmware.Emac

abbrev U32 := BitVec 32

def intDone : U32 := 0x001
def intRcom : U32 := 0x002
def intRbna : U32 := 0x004
def intTund : U32 := 0x010
def intRtry : U32 := 0x020
def intTcom : U32 := 0x080
def intRovr : U32 := 0x400
def intHresp : U32 := 0x800

/-- A frame given to the MAC: what is written to `TAR` and `TCR`. -/
structure Frame where
  tar : U32
  tcr : U32

/-- The mask register, the network device, and the variables of the driver.
`pending` are the frames given to the MAC since the last open that it has not
reported complete, oldest first. -/
structure EmacDev where
  imr : U32
  isOpen : Bool
  queueStopped : Bool
  txpkt : U32
  skbLength : U32
  retxCount : BitVec 8
  xReceiveNum : U32
  flagRBNA : Bool
  pending : List Frame

/-- `MHal_EMAC_Write_IER`: a bit that is set in the mask register disables. -/
def EmacDev.writeIer (s : EmacDev) (xval : U32) : EmacDev := { s with imr := s.imr &&& ~~~xval }

/-- `MHal_EMAC_Write_IDR` -/
def EmacDev.writeIdr (s : EmacDev) (xval : U32) : EmacDev := { s with imr := s.imr ||| xval }

/-- `MHal_EMAC_Write_TAR` and `MHal_EMAC_Write_TCR` with the stored frame. -/
def EmacDev.giveFrame (s : EmacDev) : EmacDev :=
  { s with pending := s.pending ++ [⟨s.txpkt, s.skbLength⟩] }

/-- The enables of `MDev_EMAC_HW_init`. -/
def hwInit (s : EmacDev) : EmacDev := s.writeIer 0x000004B5

/-- `MDev_EMAC_open`, by whether `is_valid_ether_addr` accepts the address. -/
def emacOpen (s : EmacDev) (validAddr : Bool) : EmacDev :=
  if validAddr = false then s
  else { s with isOpen := true, queueStopped := false, pending := [] }

/-- The interrupts that `MDev_EMAC_close` disables. -/
def closeMask : U32 :=
  intRcom ||| intRbna ||| intTund ||| intRtry ||| intTcom ||| intRovr ||| intHresp

/-- `MDev_EMAC_close` -/
def emacClose (s : EmacDev) : EmacDev :=
  { s.writeIdr closeMask with isOpen := false, queueStopped := true }

/-- `MDev_EMAC_tx`: the status it returns.  `txBase` is
`TX_SKB_BASE + RAM_ADDR_BASE` and `tsr` the transmit status register. -/
def emacTx (s : EmacDev) (txBase skbLen tsr : U32) : Nat × EmacDev :=
  if tsr &&& 0x10 ≠ 0 then
    (0, ({ s with queueStopped := true, txpkt := txBase, skbLength := skbLen }).giveFrame)
  else (1, { s with txpkt := txBase })

/-- `MDev_EMAC_retry` -/
def emacRetry (s : EmacDev) : EmacDev :=
  { s.giveFrame with retxCount := s.retxCount + 1 }

/-- `MDev_EMAC_rx`, by the number of frames whose descriptors are done. -/
def emacRx (s : EmacDev) : Nat → EmacDev
  | 0 => { s with xReceiveNum := 0, flagRBNA := false }
  | ready + 1 =>
      if s.flagRBNA = false then
        if s.xReceiveNum - 1 = 0 then { s with xReceiveNum := 0 }
        else emacRx { s with xReceiveNum := s.xReceiveNum - 1 } ready
      else emacRx s ready

/-- The part of `MDev_EMAC_interrupt` for `EMAC_INT_TCOM`: whether it leaves the
handler, after a retry. -/
def transmitComplete (s : EmacDev) (intstatus : U32) : Bool × EmacDev :=
  if intstatus &&& (intTund ||| intRtry) ≠ 0 then
    if intstatus &&& intTund ≠ 0 ∧ s.retxCount < 5 then
      (true, { emacRetry s with retxCount := (emacRetry s).retxCount + 1 })
    else (false, { s with queueStopped := false })
  else (false, { s with retxCount := 0, queueStopped := false })

/-- What the handler reads in one turn of its loop: the status register, the
number of received frames should it call `MDev_EMAC_rx`, and how many frames the
MAC reports complete should it report `TCOM`. -/
structure Reading where
  isr : U32
  ready : Nat
  completes : Nat

/-- `EMAC_INT_RBNA` -/
def noteRbna (s : EmacDev) (intstatus : U32) : EmacDev :=
  if intstatus &&& intRbna ≠ 0 then { s with flagRBNA := true } else s

/-- The body of the loop of `MDev_EMAC_interrupt` up to the received frames. -/
def transmitPart (s : EmacDev) (intstatus : U32) : Bool × EmacDev :=
  if intstatus &&& intTcom ≠ 0 then
    transmitComplete (noteRbna s intstatus) intstatus
  else (false, noteRbna s intstatus)

/-- The body of the loop of `MDev_EMAC_interrupt`. -/
def interruptTurn (s : EmacDev) (intstatus : U32) (xReceiveFlag : Bool)
    (ready : Nat) : Bool × EmacDev :=
  if (transmitPart s intstatus).1 then transmitPart s intstatus
  else if xReceiveFlag ∨ intstatus &&& intRbna ≠ 0 ∨
      (transmitPart s intstatus).2.xReceiveNum ≠ 0 then
    (false, emacRx (transmitPart s intstatus).2 ready)
  else transmitPart s intstatus

/-- The frames that a reading of the status reports complete. -/
def reported (s : EmacDev) (intstatus : U32) (completes : Nat) : EmacDev :=
  if intstatus &&& intTcom ≠ 0 then { s with pending := s.pending.drop completes }
  else s

/-- The loop from its second turn on: it goes on while the status register shows
an interrupt that is enabled. -/
def interruptLoop (s : EmacDev) : List Reading → EmacDev
  | [] => s
  | reading :: rest =>
      let intstatus := reading.isr &&& ~~~s.imr
      if intstatus = 0 then s
      else
        let turn :=
          interruptTurn (reported s intstatus reading.completes) intstatus false
            reading.ready
        if turn.1 then turn.2 else interruptLoop turn.2 rest

/-- The variables that `MDev_EMAC_interrupt` sets before its loop. -/
def interruptStart (s : EmacDev) (offset : U32) : EmacDev :=
  { s with xReceiveNum := s.xReceiveNum + (offset &&& 0xFF), flagRBNA := false }

/-- `MDev_EMAC_interrupt`, by the value of `JULIAN_0108`.  Where that announces
received frames, the first turn of the loop does not read the status register. -/
def emacInterrupt (s : EmacDev) (offset : U32) (ready : Nat) (readings : List Reading) :
    EmacDev :=
  let start := interruptStart s offset
  let xReceiveFlag := decide (offset &&& 0x8000 ≠ 0)
  if xReceiveFlag ∨ start.xReceiveNum ≠ 0 then
    interruptLoop (interruptTurn start 0 xReceiveFlag ready).2 readings
  else interruptLoop start readings

/-! ### Runs -/

/-- The driver, and whether `MDev_EMAC_close` has run since the hardware
initialisation. -/
structure Session where
  emac : EmacDev
  closed : Bool

inductive Call where
  | openDev (validAddr : Bool)
  | closeDev
  | tx (txBase skbLen tsr : U32)
  | interrupt (offset : U32) (ready : Nat) (readings : List Reading)

def Session.after (s : Session) : Call → Session
  | .openDev validAddr => { s with emac := emacOpen s.emac validAddr }
  | .closeDev => ⟨emacClose s.emac, true⟩
  | .tx txBase skbLen tsr => { s with emac := (emacTx s.emac txBase skbLen tsr).2 }
  | .interrupt offset ready readings =>
      { s with emac := emacInterrupt s.emac offset ready readings }

/-- After `MDev_EMAC_HW_init`, with the device not yet open. -/
def Session.init (s : EmacDev) : Session := ⟨{ hwInit s with isOpen := false }, false⟩

/-- The interrupts that an open device needs. -/
def neededInts : U32 := intRbna ||| intTund ||| intRtry ||| intTcom ||| intRovr

/-- An open device has its interrupts enabled, and if its queue is stopped then
a frame given to the MAC since the last open is not yet reported complete. -/
structure QueueLaw (s : EmacDev) : Prop where
  enabled : s.isOpen = true → s.imr &&& neededInts = 0
  waits : s.isOpen = true → s.queueStopped = true → s.pending ≠ []

/-- The device is not opened again after it was closed. -/
def NotReopened (s : Session) : Call → Prop
  | .openDev validAddr => validAddr = true → s.closed = false
  | .closeDev => True
  | .tx _ _ _ => True
  | .interrupt _ _ _ => True

/-! ### What the interrupt handler leaves -/

variable {s : EmacDev} {intstatus : U32}

/-- A stopped queue waits for a frame. -/
def Waits (s : EmacDev) : Prop := s.queueStopped = true → s.pending ≠ []

/-- The part of the state that the interrupt handler leaves. -/
def SameDevice (s next : EmacDev) : Prop :=
  next.imr = s.imr ∧ next.isOpen = s.isOpen

theorem SameDevice.trans {first second third : EmacDev}
    (before : SameDevice first second) (after : SameDevice second third) :
    SameDevice first third :=
  ⟨after.1.trans before.1, after.2.trans before.2⟩

/-- Receiving changes nothing that the transmit side reads. -/
theorem emacRx_spec (s : EmacDev) (ready : Nat) :
    SameDevice s (emacRx s ready) ∧ (Waits (emacRx s ready) ↔ Waits s) := by
  induction ready generalizing s with
  | zero => exact ⟨⟨rfl, rfl⟩, Iff.rfl⟩
  | succ ready inductionHypothesis =>
      rw [emacRx]
      split_ifs
      · exact ⟨⟨rfl, rfl⟩, Iff.rfl⟩
      · exact inductionHypothesis _
      · exact inductionHypothesis _

/-- After `TCOM` the queue is awake, or a frame is given to the MAC again. -/
theorem transmitComplete_spec (s : EmacDev) (intstatus : U32) :
    SameDevice s (transmitComplete s intstatus).2 ∧
      Waits (transmitComplete s intstatus).2 := by
  unfold transmitComplete
  split_ifs
  · exact ⟨⟨rfl, rfl⟩, fun _ => List.append_ne_nil_of_right_ne_nil _ (List.cons_ne_nil _ _)⟩
  · exact ⟨⟨rfl, rfl⟩, fun stopped => absurd stopped Bool.false_ne_true⟩
  · exact ⟨⟨rfl, rfl⟩, fun stopped => absurd stopped Bool.false_ne_true⟩

theorem noteRbna_spec (s : EmacDev) (intstatus : U32) :
    SameDevice s (noteRbna s intstatus) ∧ (Waits (noteRbna s intstatus) ↔ Waits s) := by
  unfold noteRbna
  split_ifs
  · exact ⟨⟨rfl, rfl⟩, Iff.rfl⟩
  · exact ⟨⟨rfl, rfl⟩, Iff.rfl⟩

theorem transmitPart_spec (s : EmacDev) (intstatus : U32) :
    SameDevice s (transmitPart s intstatus).2 ∧
      ((intstatus &&& intTcom = 0 → Waits s) → Waits (transmitPart s intstatus).2) := by
  obtain ⟨noted, quiet⟩ := noteRbna_spec s intstatus
  unfold transmitPart
  split_ifs with tcom
  · obtain ⟨same, awake⟩ := transmitComplete_spec (noteRbna s intstatus) intstatus
    exact ⟨noted.trans same, fun _ => awake⟩
  · exact ⟨noted, fun waits => quiet.mpr (waits (not_not.mp tcom))⟩

theorem interruptTurn_spec (s : EmacDev) (intstatus : U32) (xReceiveFlag : Bool)
    (ready : Nat) :
    SameDevice s (interruptTurn s intstatus xReceiveFlag ready).2 ∧
      ((intstatus &&& intTcom = 0 → Waits s) →
        Waits (interruptTurn s intstatus xReceiveFlag ready).2) := by
  obtain ⟨same, awake⟩ := transmitPart_spec s intstatus
  obtain ⟨received, unmoved⟩ := emacRx_spec (transmitPart s intstatus).2 ready
  unfold interruptTurn
  split_ifs
  · exact ⟨same, awake⟩
  · exact ⟨same.trans received, fun waits => unmoved.mpr (awake waits)⟩
  · exact ⟨same, awake⟩

theorem reported_spec (s : EmacDev) (intstatus : U32) (completes : Nat) :
    SameDevice s (reported s intstatus completes) ∧
      (intstatus &&& intTcom = 0 → reported s intstatus completes = s) := by
  unfold reported
  split_ifs with tcom
  · exact ⟨⟨rfl, rfl⟩, fun none => absurd none tcom⟩
  · exact ⟨⟨rfl, rfl⟩, fun _ => rfl⟩

theorem interruptLoop_spec (s : EmacDev) (readings : List Reading) :
    SameDevice s (interruptLoop s readings) ∧
      (Waits s → Waits (interruptLoop s readings)) := by
  induction readings generalizing s with
  | nil => exact ⟨⟨rfl, rfl⟩, id⟩
  | cons reading rest inductionHypothesis =>
      simp only [interruptLoop]
      obtain ⟨told, quiet⟩ :=
        reported_spec s (reading.isr &&& ~~~s.imr) reading.completes
      obtain ⟨same, awake⟩ :=
        interruptTurn_spec (reported s (reading.isr &&& ~~~s.imr) reading.completes)
          (reading.isr &&& ~~~s.imr) false reading.ready
      have woken := fun waits : Waits s => awake fun none => (quiet none).symm ▸ waits
      split_ifs
      · exact ⟨⟨rfl, rfl⟩, id⟩
      · exact ⟨told.trans same, woken⟩
      · obtain ⟨later, laterAwake⟩ := inductionHypothesis _
        exact ⟨(told.trans same).trans later, fun waits => laterAwake (woken waits)⟩

theorem emacInterrupt_spec (s : EmacDev) (offset : U32) (ready : Nat)
    (readings : List Reading) :
    SameDevice s (emacInterrupt s offset ready readings) ∧
      (Waits s → Waits (emacInterrupt s offset ready readings)) := by
  have start : SameDevice s (interruptStart s offset) := ⟨rfl, rfl⟩
  simp only [emacInterrupt]
  split_ifs
  · obtain ⟨same, awake⟩ := interruptTurn_spec (interruptStart s offset) 0
      (decide (offset &&& 0x8000 ≠ 0)) ready
    obtain ⟨later, laterAwake⟩ := interruptLoop_spec
      (interruptTurn (interruptStart s offset) 0 (decide (offset &&& 0x8000 ≠ 0))
        ready).2 readings
    exact ⟨(start.trans same).trans later,
      fun waits => laterAwake (awake fun _ => waits)⟩
  · obtain ⟨later, laterAwake⟩ := interruptLoop_spec (interruptStart s offset) readings
    exact ⟨start.trans later, laterAwake⟩

/-! ### The invariant of the runs -/

/-- The interrupts are enabled exactly while the device was not closed, and a
stopped queue of an open device waits for a frame. -/
structure Driven (c : Session) : Prop where
  enabled : c.emac.imr &&& neededInts = 0 ↔ c.closed = false
  waits : c.emac.isOpen = true → Waits c.emac

theorem enabled_writeIer (imr : U32) : (imr &&& ~~~0x000004B5) &&& neededInts = 0 := by
  have covered : ~~~(0x000004B5 : U32) &&& neededInts = 0 := by decide
  rw [BitVec.and_assoc, covered]
  exact BitVec.and_zero

theorem disabled_writeIdr (imr : U32) : (imr ||| closeMask) &&& neededInts ≠ 0 := by
  intro none
  have bit := congrArg (fun word => BitVec.getLsbD word 2) none
  simp [closeMask, neededInts, intRcom, intRbna, intTund, intRtry, intTcom, intRovr,
    intHresp] at bit

theorem driven_init (s : EmacDev) : Driven (.init s) where
  enabled := iff_of_true (enabled_writeIer s.imr) rfl
  waits := fun opened => absurd opened Bool.false_ne_true

theorem Driven.after {c : Session} (driven : Driven c) (call : Call) :
    Driven (c.after call) := by
  cases call with
  | openDev validAddr =>
      cases validAddr with
      | false => exact driven
      | true => exact ⟨driven.enabled, fun _ stopped => absurd stopped Bool.false_ne_true⟩
  | closeDev =>
      exact ⟨iff_of_false (disabled_writeIdr c.emac.imr) Bool.true_eq_false.mp,
        fun opened => absurd opened Bool.false_ne_true⟩
  | tx txBase skbLen tsr =>
      simp only [Session.after, emacTx]
      split_ifs
      · exact ⟨driven.enabled, fun _ _ =>
          List.append_ne_nil_of_right_ne_nil _ (List.cons_ne_nil _ _)⟩
      · exact ⟨driven.enabled, driven.waits⟩
  | interrupt offset ready readings =>
      obtain ⟨⟨imr, opened⟩, awake⟩ :=
        emacInterrupt_spec c.emac offset ready readings
      constructor
      · simpa only [Session.after, imr] using driven.enabled
      · intro nowOpen
        exact awake (driven.waits (opened.symm.trans nowOpen))

/-- While the device is open, the invariant says that it was not closed before. -/
theorem queueLaw_iff {c : Session} (driven : Driven c) :
    QueueLaw c.emac ↔ (c.emac.isOpen = true → c.closed = false) :=
  ⟨fun law opened => driven.enabled.mp (law.enabled opened),
    fun fresh => ⟨fun opened => driven.enabled.mpr (fresh opened), driven.waits⟩⟩

/-- A device that is open was not closed. -/
structure Fresh (c : Session) : Prop extends Driven c where
  fresh : c.emac.isOpen = true → c.closed = false

theorem fresh_init (s : EmacDev) : Fresh (.init s) :=
  ⟨driven_init s, fun _ => rfl⟩

theorem Fresh.law_after_iff {c : Session} (fresh : Fresh c) (call : Call) :
    QueueLaw (c.after call).emac ↔ NotReopened c call := by
  rw [queueLaw_iff (fresh.toDriven.after call)]
  cases call with
  | openDev validAddr =>
      cases validAddr with
      | false => exact iff_of_true fresh.fresh fun valid => absurd valid Bool.false_ne_true
      | true => exact ⟨fun law _ => law rfl, fun kept _ => kept rfl⟩
  | closeDev =>
      exact iff_of_true (fun opened => absurd opened Bool.false_ne_true) trivial
  | tx txBase skbLen tsr =>
      refine iff_of_true (fun opened => ?_) trivial
      simp only [Session.after, emacTx] at opened
      split_ifs at opened
      · exact fresh.fresh opened
      · exact fresh.fresh opened
  | interrupt offset ready readings =>
      refine iff_of_true (fun opened => ?_) trivial
      exact fresh.fresh
        ((emacInterrupt_spec c.emac offset ready readings).1.2.symm.trans opened)

theorem Fresh.after {c : Session} (fresh : Fresh c) (call : Call)
    (law : QueueLaw (c.after call).emac) : Fresh (c.after call) :=
  ⟨fresh.toDriven.after call, (queueLaw_iff (fresh.toDriven.after call)).mp law⟩

/-- From the hardware initialisation on, the queue law holds after all calls of a
run if and only if no call opens the device after it was closed. -/
theorem transmitQueue_iff (s : EmacDev) (calls : List Call) :
    Run.Meets Session.after (fun c call => QueueLaw (c.after call).emac) (.init s)
        calls ↔
      Run.Meets Session.after NotReopened (.init s) calls :=
  Run.meets_congr (fun _ call fresh => Fresh.law_after_iff fresh call)
    (fun _ call fresh law => Fresh.after fresh call law) (fresh_init s)

/-- The second open enables nothing. -/
theorem reopened_disabled :
    ¬ ∀ (s : EmacDev) (calls : List Call),
      Run.Meets Session.after (fun c call => QueueLaw (c.after call).emac) (.init s)
        calls := by
  intro always
  have run := always ⟨0, false, false, 0, 0, 0, 0, false, []⟩
    [.openDev true, .closeDev, .openDev true]
  have enabled := run.2.2.1.enabled rfl
  revert enabled
  decide

end Gp2Firmware.Emac
