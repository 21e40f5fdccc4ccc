import Mathlib.Logic.Function.Basic
import Mathlib.Data.List.Nodup
import Gp2Firmware.Lib.Run
import Gp2Firmware.Lib.WordBits
import Gp2Firmware.Tsp.Packet
import Mathlib.Algebra.Group.Nat.Defs

/-!
# Events of the TSP interrupt

`MDrv_TSP_Isr` of `mdrv_tsp.c` turns status bits of the hardware into bits of
`_u32TspEvent`, and `MDrv_TSP_IO_Signal` copies and clears that word for a caller.
Both run statement by statement, with any number of callers.
-/

namespace Gp2Firmware.Tsp

/-- The status bits that `MDrv_TSP_Isr` looks at. -/
inductive Source where
  | pvrTail0
  | pvrMid0
  | swInt
  deriving DecidableEq

namespace Source

/-- `TSP_HWINT_TSP_PVR_TAIL0_STATUS`, `TSP_HWINT_TSP_PVR_MID0_STATUS`,
`TSP_HWINT_TSP_SW_INT_STATUS` -/
def status : Source → BitVec 16
  | pvrTail0 => 0x0100
  | pvrMid0 => 0x0200
  | swInt => 0x2000

/-- `TSP_TASK_EVENT_PVR0_RDY`, `TSP_TASK_EVENT_PVR0_MID`, `TSP_TASK_EVENT_SECTION` -/
def event : Source → U32
  | pvrTail0 => 0x00000002
  | pvrMid0 => 0x00000008
  | swInt => 0x00000001

end Source

/-- `HAS_FLAG` -/
def hasFlag {w : Nat} (flag bit : BitVec w) : Bool := flag &&& bit != 0

/-- `TSP_HWINT_ALL` -/
def tspHwintAll : BitVec 16 := 0x0100 ||| 0x0100 ||| 0x0200 ||| 0x0200 ||| 0x2000

/-- The next statement of `MDrv_TSP_Isr`, with its `u16HwInt`. -/
inductive Isr where
  | idle
  | test (src : Source) (u16HwInt : BitVec 16)
  | clearSw (u16HwInt : BitVec 16)
  | clearHw (u16HwInt : BitVec 16)
  deriving DecidableEq

/-- What a call of `MDrv_TSP_IO_Signal` has copied.  `sets` says for each event
how often it had been set by then. -/
structure Signal where
  u32Event : U32
  u32EventSecRdy : U32
  u32EventSecOvf : U32
  sets : Source → Nat

/-- How far a call of `MDrv_TSP_IO_Signal` is. -/
inductive SignalCall where
  | idle
  | event (signal : Signal)
  | secRdy (signal : Signal)
  | secOvf (signal : Signal)
  | cleared (signal : Signal)

def SignalCall.signal : SignalCall → Option Signal
  | idle => none
  | event signal => some signal
  | secRdy signal => some signal
  | secOvf signal => some signal
  | cleared signal => some signal

/-- The registers and words of the handler and of the calls.  `unserved` are the
status bits that have risen and not been turned into their event since, `sets`
counts how often an event was set that was not set already, and `returned` lists
the events that calls have returned, numbered so. -/
structure TspEvents (Context : Type*) where
  hwInt : BitVec 16
  isr : Isr
  u32TspEvent : U32
  u32TspSecRdy : U32
  u32TspSecOvf : U32
  calls : Context → SignalCall
  unserved : Source → Bool
  sets : Source → Nat
  returned : List (Source × Nat)

inductive EventStep (Context : Type*) where
  | rise (src : Source)
  | isr
  | signal (c : Context)

variable {Context : Type*}

namespace TspEvents

/-- After `_mod_tsp_open`. -/
def init : TspEvents Context where
  hwInt := 0
  isr := .idle
  u32TspEvent := 0
  u32TspSecRdy := 0
  u32TspSecOvf := 0
  calls := fun _ => .idle
  unserved := fun _ => false
  sets := fun _ => 0
  returned := []

/-- A status bit rises. -/
def rise (s : TspEvents Context) (src : Source) : TspEvents Context :=
  if hasFlag s.hwInt src.status then s
  else
    { s with
      hwInt := s.hwInt ||| src.status
      unserved := Function.update s.unserved src true }

/-- `_SetEvent` -/
def setEvent (s : TspEvents Context) (src : Source) : TspEvents Context :=
  { s with
    u32TspEvent := s.u32TspEvent ||| src.event
    unserved := Function.update s.unserved src false
    sets :=
      if hasFlag s.u32TspEvent src.event then s.sets
      else Function.update s.sets src (s.sets src + 1) }

/-- The statement behind a test. -/
def behind (src : Source) (u16HwInt : BitVec 16) : Isr :=
  match src with
  | .pvrTail0 => .test .pvrMid0 u16HwInt
  | .pvrMid0 => .test .swInt u16HwInt
  | .swInt => .clearSw u16HwInt

/-- The next statement of `MDrv_TSP_Isr`. -/
def isrStep (s : TspEvents Context) : TspEvents Context :=
  match s.isr with
  | .idle => { s with isr := .test .pvrTail0 s.hwInt }
  | .test src u16HwInt =>
      if hasFlag u16HwInt src.status then
        { s.setEvent src with isr := behind src u16HwInt }
      else { s with isr := behind src u16HwInt }
  | .clearSw u16HwInt => { s with isr := .clearHw u16HwInt }
  | .clearHw _ => { s with hwInt := s.hwInt &&& ~~~tspHwintAll, isr := .idle }

/-- The events of a call, numbered. -/
def events (signal : Signal) : List (Source × Nat) :=
  ([.pvrTail0, .pvrMid0, .swInt].filter fun src => hasFlag signal.u32Event src.event).map
    fun src => (src, signal.sets src)

variable [DecidableEq Context]

def setCall (s : TspEvents Context) (c : Context) (call : SignalCall) :
    TspEvents Context :=
  { s with calls := Function.update s.calls c call }

/-- The next statement of a call of `MDrv_TSP_IO_Signal`.  From `disable_irq` to
`enable_irq` the handler does not run. -/
def signalStep (s : TspEvents Context) (c : Context) : TspEvents Context :=
  match s.calls c with
  | .idle => s.setCall c (.event ⟨s.u32TspEvent, 0, 0, s.sets⟩)
  | .event signal =>
      s.setCall c (.secRdy { signal with u32EventSecRdy := s.u32TspSecRdy })
  | .secRdy signal =>
      s.setCall c (.secOvf { signal with u32EventSecOvf := s.u32TspSecOvf })
  | .secOvf signal =>
      if s.isr = .idle then
        { s.setCall c (.cleared signal) with
          u32TspEvent := 0
          u32TspSecRdy := 0
          u32TspSecOvf := 0 }
      else s
  | .cleared signal =>
      { s.setCall c .idle with returned := s.returned ++ events signal }

def after (s : TspEvents Context) : EventStep Context → TspEvents Context
  | .rise src => s.rise src
  | .isr => s.isrStep
  | .signal c => s.signalStep c

omit [DecidableEq Context]

/-- A call that has not returned holds an event with its number. -/
def Held (s : TspEvents Context) (src : Source) (number : Nat) : Prop :=
  ∃ c signal, (s.calls c).signal = some signal ∧
    hasFlag signal.u32Event src.event = true ∧ signal.sets src = number

end TspEvents

/-- A status bit that was not turned into its event is still there for the
handler; each event that was set is in the word or was copied by a call that will
return it, or has returned it; and none is returned twice. -/
structure EventLaw (s : TspEvents Context) : Prop where
  served : ∀ src, s.unserved src = true → hasFlag s.hwInt src.status = true
  kept : ∀ src number, 0 < number → number ≤ s.sets src →
    (src, number) ∈ s.returned ∨
      (hasFlag s.u32TspEvent src.event = true ∧ number = s.sets src) ∨ s.Held src number
  once : s.returned.Nodup

/-- The handler clears only status bits that it has read; a call clears only events
that were copied since they were set; and it returns only events that no other call
has copied with it and returned. -/
def ClearsCopied (s : TspEvents Context) : EventStep Context → Prop
  | .rise _ => True
  | .isr => ∀ u16HwInt, s.isr = .clearHw u16HwInt → ∀ src : Source,
      hasFlag s.hwInt src.status = true → hasFlag u16HwInt src.status = true
  | .signal c =>
      (∀ signal, s.calls c = .secOvf signal → s.isr = .idle → ∀ src : Source,
        hasFlag s.u32TspEvent src.event = true →
          (src, s.sets src) ∈ s.returned ∨ s.Held src (s.sets src)) ∧
      (∀ signal, s.calls c = .cleared signal → ∀ src : Source,
        hasFlag signal.u32Event src.event = true →
          (src, signal.sets src) ∉ s.returned)

/-! ### Flags -/

namespace Source

def statusBit : Source → Fin 16
  | pvrTail0 => ⟨8, by decide⟩
  | pvrMid0 => ⟨9, by decide⟩
  | swInt => ⟨13, by decide⟩

def eventBit : Source → Fin 32
  | pvrTail0 => 1
  | pvrMid0 => 3
  | swInt => 0

theorem status_eq (src : Source) : src.status = 1#16 <<< src.statusBit.val := by
  cases src <;> rfl

theorem event_eq (src : Source) : src.event = 1#32 <<< src.eventBit.val := by
  cases src <;> rfl

theorem statusBit_inj {src other : Source} :
    other.statusBit = src.statusBit ↔ other = src := by
  cases src <;> cases other <;> decide

theorem eventBit_inj {src other : Source} :
    other.eventBit = src.eventBit ↔ other = src := by
  cases src <;> cases other <;> decide

end Source

theorem hasFlag_bit {w : Nat} (word : BitVec w) (bit : Fin w) :
    hasFlag word (1#w <<< bit.val) = word.getLsbD bit := by
  rw [hasFlag, Bool.eq_iff_iff, bne_iff_ne]
  exact Lib.and_bit_ne_zero word bit

theorem hasFlag_or_status (word : BitVec 16) (src other : Source) :
    hasFlag (word ||| src.status) other.status =
      (hasFlag word other.status || decide (other = src)) := by
  rw [src.status_eq, other.status_eq, hasFlag_bit, hasFlag_bit, Lib.getLsbD_or_bit]
  simp only [Source.statusBit_inj]

theorem hasFlag_or_event (word : U32) (src other : Source) :
    hasFlag (word ||| src.event) other.event =
      (hasFlag word other.event || decide (other = src)) := by
  rw [src.event_eq, other.event_eq, hasFlag_bit, hasFlag_bit, Lib.getLsbD_or_bit]
  simp only [Source.eventBit_inj]

theorem hasFlag_zero {w : Nat} (bit : BitVec w) : hasFlag 0 bit = false := by
  simp [hasFlag]

/-- `MHal_TSP_Int_ClearHw` clears the status bits of the handler. -/
theorem hasFlag_clear (word : BitVec 16) (src : Source) :
    hasFlag (word &&& ~~~tspHwintAll) src.status = false := by
  have none : ~~~tspHwintAll &&& src.status = 0 := by cases src <;> decide
  rw [hasFlag, BitVec.and_assoc, none]
  simp

/-! ### The invariant of the runs -/

namespace Isr

/-- `u16HwInt` -/
def word : Isr → Option (BitVec 16)
  | idle => none
  | test _ u16HwInt => some u16HwInt
  | clearSw u16HwInt => some u16HwInt
  | clearHw u16HwInt => some u16HwInt

/-- The test of a status bit is behind the handler. -/
def Passed : Isr → Source → Prop
  | idle, _ => False
  | test .pvrTail0 _, _ => False
  | test .pvrMid0 _, other => other = .pvrTail0
  | test .swInt _, other => other ≠ .swInt
  | clearSw _, _ => True
  | clearHw _, _ => True

end Isr

open TspEvents in
theorem passed_behind {src other : Source} {u16HwInt : BitVec 16} :
    (behind src u16HwInt).Passed other →
      (Isr.test src u16HwInt).Passed other ∨ other = src := by
  cases src <;> cases other <;> simp [behind, Isr.Passed]

open TspEvents in
theorem word_behind {src : Source} {u16HwInt : BitVec 16} :
    (behind src u16HwInt).word = some u16HwInt := by
  cases src <;> rfl

open TspEvents in
theorem behind_ne_idle {src : Source} {u16HwInt : BitVec 16} :
    behind src u16HwInt ≠ .idle := by
  cases src <;> simp [behind]

/-- The law does not depend on where the handler is. -/
theorem EventLaw.goTo {s : TspEvents Context} (law : EventLaw s) (isr : Isr) :
    EventLaw { s with isr := isr } :=
  ⟨law.served, law.kept, law.once⟩

/-- What every run keeps that keeps the law. -/
structure Reporting (s : TspEvents Context) : Prop where
  law : EventLaw s
  idle : s.isr = .idle → ∀ src : Source,
    hasFlag s.hwInt src.status = true → s.unserved src = true
  read : ∀ u16HwInt, s.isr.word = some u16HwInt → ∀ src : Source,
    hasFlag u16HwInt src.status = true → hasFlag s.hwInt src.status = true
  fresh : ∀ u16HwInt, s.isr.word = some u16HwInt → ∀ src : Source,
    hasFlag s.hwInt src.status = true → hasFlag u16HwInt src.status = false →
      s.unserved src = true
  passed : ∀ u16HwInt, s.isr.word = some u16HwInt → ∀ src, s.isr.Passed src →
    hasFlag u16HwInt src.status = true → s.unserved src = false
  counted : ∀ src, hasFlag s.u32TspEvent src.event = true → 0 < s.sets src

namespace Reporting

open TspEvents

variable {s : TspEvents Context}

theorem rise (reporting : Reporting s) (src : Source) : Reporting (s.rise src) := by
  unfold TspEvents.rise
  split_ifs with latched
  · exact reporting
  obtain ⟨⟨served, kept, once⟩, idle, read, fresh, passed, counted⟩ := reporting
  have lit : ∀ other : Source, hasFlag (s.hwInt ||| src.status) other.status = true ↔
      hasFlag s.hwInt other.status = true ∨ other = src := by
    intro other
    rw [hasFlag_or_status, Bool.or_eq_true, decide_eq_true_iff]
  have waits : ∀ other, Function.update s.unserved src true other = true ↔
      s.unserved other = true ∨ other = src := by
    intro other
    by_cases here : other = src
    · simp [here]
    · simp [here]
  refine ⟨⟨?_, kept, once⟩, ?_, ?_, ?_, ?_, counted⟩
  · intro other unserved
    exact (lit other).mpr (((waits other).mp unserved).imp_left (served other))
  · intro isIdle other set
    exact (waits other).mpr (((lit other).mp set).imp_left (idle isIdle other))
  · intro u16HwInt word other set
    exact (lit other).mpr (Or.inl (read u16HwInt word other set))
  · intro u16HwInt word other set unread
    exact (waits other).mpr (((lit other).mp set).imp_left fun before =>
      fresh u16HwInt word other before unread)
  · intro u16HwInt word other behind set
    have apart : other ≠ src := by
      rintro rfl
      exact latched (read u16HwInt word other set)
    exact (Function.update_of_ne apart _ _).trans
      (passed u16HwInt word other behind set)

/-- Setting an event that the handler has read. -/
theorem kept_setEvent (law : EventLaw s) (src : Source) :
    ∀ other number, 0 < number → number ≤ (s.setEvent src).sets other →
      (other, number) ∈ s.returned ∨
        (hasFlag (s.setEvent src).u32TspEvent other.event = true ∧
          number = (s.setEvent src).sets other) ∨ s.Held other number := by
  intro other number positive below
  change _ ∨ (hasFlag (s.u32TspEvent ||| src.event) other.event = true ∧ _) ∨ _
  rw [hasFlag_or_event]
  unfold setEvent at below ⊢
  dsimp only at below ⊢
  by_cases set : hasFlag s.u32TspEvent src.event = true
  · rw [if_pos set] at below ⊢
    rcases law.kept other number positive below with back | ⟨lit, last⟩ | held
    · exact Or.inl back
    · exact Or.inr (Or.inl ⟨by simp [lit], last⟩)
    · exact Or.inr (Or.inr held)
  · rw [if_neg set] at below ⊢
    by_cases here : other = src
    · subst here
      rw [Function.update_self] at below ⊢
      by_cases new : number = s.sets other + 1
      · exact Or.inr (Or.inl ⟨by simp, new⟩)
      · rcases law.kept other number positive (by omega) with back | ⟨lit, _⟩ | held
        · exact Or.inl back
        · exact absurd lit set
        · exact Or.inr (Or.inr held)
    · rw [Function.update_of_ne here] at below ⊢
      rcases law.kept other number positive below with back | ⟨lit, last⟩ | held
      · exact Or.inl back
      · exact Or.inr (Or.inl ⟨by simp [lit], last⟩)
      · exact Or.inr (Or.inr held)

theorem served_setEvent (law : EventLaw s) (src : Source) :
    ∀ other, (s.setEvent src).unserved other = true →
      hasFlag s.hwInt other.status = true := by
  intro other unserved
  change Function.update s.unserved src false other = true at unserved
  by_cases here : other = src
  · rw [here, Function.update_self] at unserved
    cases unserved
  · rw [Function.update_of_ne here] at unserved
    exact law.served other unserved

theorem counted_setEvent (reporting : Reporting s) (src : Source) :
    ∀ other : Source, hasFlag (s.setEvent src).u32TspEvent other.event = true →
      0 < (s.setEvent src).sets other := by
  intro other lit
  change hasFlag (s.u32TspEvent ||| src.event) other.event = true at lit
  rw [hasFlag_or_event, Bool.or_eq_true, decide_eq_true_iff] at lit
  unfold setEvent
  dsimp only
  split_ifs with set
  · rcases lit with before | rfl
    · exact reporting.counted other before
    · exact reporting.counted other set
  · by_cases here : other = src
    · rw [here, Function.update_self]
      exact Nat.succ_pos _
    · rw [Function.update_of_ne here]
      exact reporting.counted other (lit.resolve_right here)

/-- A test whose status bit was read. -/
theorem test_set (reporting : Reporting s) {src : Source} {u16HwInt : BitVec 16}
    (isr : s.isr = .test src u16HwInt) (flag : hasFlag u16HwInt src.status = true) :
    Reporting { s.setEvent src with isr := behind src u16HwInt } := by
  have word : s.isr.word = some u16HwInt := by rw [isr]; rfl
  refine ⟨⟨served_setEvent reporting.law src, kept_setEvent reporting.law src,
    reporting.law.once⟩, fun none => absurd none behind_ne_idle, ?_, ?_, ?_,
    counted_setEvent reporting src⟩
  · intro hw same
    obtain rfl : u16HwInt = hw := Option.some_inj.mp (word_behind.symm.trans same)
    exact reporting.read u16HwInt word
  · intro hw same other lit unread
    obtain rfl : u16HwInt = hw := Option.some_inj.mp (word_behind.symm.trans same)
    have apart : other ≠ src := by
      rintro rfl
      exact absurd (flag.symm.trans unread) (by decide)
    exact (Function.update_of_ne apart _ _).trans
      (reporting.fresh u16HwInt word other lit unread)
  · intro hw same other after lit
    obtain rfl : u16HwInt = hw := Option.some_inj.mp (word_behind.symm.trans same)
    change Function.update s.unserved src false other = false
    by_cases here : other = src
    · rw [here, Function.update_self]
    · rw [Function.update_of_ne here]
      refine reporting.passed u16HwInt word other ?_ lit
      rw [isr]
      exact (passed_behind after).resolve_right here

/-- A test whose status bit was not read. -/
theorem test_clear (reporting : Reporting s) {src : Source} {u16HwInt : BitVec 16}
    (isr : s.isr = .test src u16HwInt) (flag : ¬ hasFlag u16HwInt src.status = true) :
    Reporting { s with isr := behind src u16HwInt } := by
  have word : s.isr.word = some u16HwInt := by rw [isr]; rfl
  refine ⟨reporting.law.goTo _, fun none => absurd none behind_ne_idle, ?_, ?_, ?_,
    reporting.counted⟩
  · intro hw same
    obtain rfl : u16HwInt = hw := Option.some_inj.mp (word_behind.symm.trans same)
    exact reporting.read u16HwInt word
  · intro hw same
    obtain rfl : u16HwInt = hw := Option.some_inj.mp (word_behind.symm.trans same)
    exact reporting.fresh u16HwInt word
  · intro hw same other after lit
    obtain rfl : u16HwInt = hw := Option.some_inj.mp (word_behind.symm.trans same)
    refine reporting.passed u16HwInt word other ?_ lit
    rw [isr]
    refine (passed_behind after).resolve_right ?_
    rintro rfl
    exact flag lit

theorem test (reporting : Reporting s) {src : Source} {u16HwInt : BitVec 16}
    (isr : s.isr = .test src u16HwInt) : Reporting s.isrStep := by
  rw [isrStep, isr]
  dsimp only
  split_ifs with flag
  · exact reporting.test_set isr flag
  · exact reporting.test_clear isr flag

theorem enter (reporting : Reporting s) (isr : s.isr = .idle) :
    Reporting s.isrStep := by
  have step : s.isrStep = { s with isr := .test .pvrTail0 s.hwInt } := by
    rw [isrStep, isr]
  rw [step]
  refine ⟨reporting.law.goTo _, fun none => (by cases none), ?_, ?_,
    fun _ _ _ none => none.elim, reporting.counted⟩
  · rintro _ ⟨⟩ src lit
    exact lit
  · rintro _ ⟨⟩ src lit unread
    exact absurd (lit.symm.trans unread) (by decide)

theorem clearSw (reporting : Reporting s) {u16HwInt : BitVec 16}
    (isr : s.isr = .clearSw u16HwInt) : Reporting s.isrStep := by
  have step : s.isrStep = { s with isr := .clearHw u16HwInt } := by
    rw [isrStep, isr]
  obtain ⟨law, idle, read, fresh, passed, counted⟩ := reporting
  rw [step]
  rw [isr] at read fresh passed
  exact ⟨law.goTo _, fun none => (by cases none), read, fresh, passed, counted⟩

theorem isrStep_clearHw {u16HwInt : BitVec 16} (isr : s.isr = .clearHw u16HwInt) :
    s.isrStep = { s with hwInt := s.hwInt &&& ~~~tspHwintAll, isr := .idle } := by
  rw [isrStep, isr]

theorem clearHw_iff (reporting : Reporting s) {u16HwInt : BitVec 16}
    (isr : s.isr = .clearHw u16HwInt) :
    EventLaw s.isrStep ↔ ∀ src : Source,
      hasFlag s.hwInt src.status = true → hasFlag u16HwInt src.status = true := by
  have word : s.isr.word = some u16HwInt := by rw [isr]; rfl
  have all : ∀ src, s.isr.Passed src := fun src => by rw [isr]; trivial
  obtain ⟨law, idle, read, fresh, passed, counted⟩ := reporting
  rw [isrStep_clearHw isr]
  constructor
  · intro after src lit
    by_contra unread
    have lost := after.served src (fresh u16HwInt word src lit (by simpa using unread))
    rw [hasFlag_clear] at lost
    cases lost
  · intro known
    refine ⟨?_, law.kept, law.once⟩
    intro src unserved
    have lit := law.served src unserved
    rw [passed u16HwInt word src (all src) (known src lit)] at unserved
    cases unserved

theorem clearHw (reporting : Reporting s) {u16HwInt : BitVec 16}
    (isr : s.isr = .clearHw u16HwInt) (law : EventLaw s.isrStep) :
    Reporting s.isrStep := by
  rw [isrStep_clearHw isr] at law ⊢
  refine ⟨law, ?_, fun _ none => (by cases none), fun _ none => (by cases none),
    fun _ none => (by cases none), reporting.counted⟩
  intro _ src lit
  exact absurd ((hasFlag_clear s.hwInt src).symm.trans lit) (by decide)

theorem isr_iff (reporting : Reporting s) :
    EventLaw s.isrStep ↔ ClearsCopied s .isr := by
  rw [ClearsCopied]
  cases isr : s.isr with
  | idle => exact iff_of_true (reporting.enter isr).law fun _ same => by cases same
  | test src u16HwInt =>
      exact iff_of_true (reporting.test isr).law fun _ same => by cases same
  | clearSw u16HwInt =>
      exact iff_of_true (reporting.clearSw isr).law fun _ same => by cases same
  | clearHw u16HwInt =>
      rw [reporting.clearHw_iff isr]
      simp only [Isr.clearHw.injEq, forall_eq']

theorem isrStep (reporting : Reporting s) (law : EventLaw s.isrStep) :
    Reporting s.isrStep := by
  cases isr : s.isr with
  | idle => exact reporting.enter isr
  | test src u16HwInt => exact reporting.test isr
  | clearSw u16HwInt => exact reporting.clearSw isr
  | clearHw u16HwInt => exact reporting.clearHw isr law

/-! The statements of a call. -/

theorem mem_events {signal : Signal} {src : Source} {number : Nat} :
    (src, number) ∈ events signal ↔
      hasFlag signal.u32Event src.event = true ∧ signal.sets src = number := by
  rw [events, List.mem_map]
  constructor
  · rintro ⟨other, member, same⟩
    cases same
    exact ⟨(List.mem_filter.mp member).2, rfl⟩
  · rintro ⟨lit, rfl⟩
    refine ⟨src, List.mem_filter.mpr ⟨?_, lit⟩, rfl⟩
    cases src <;> simp

theorem nodup_events (signal : Signal) : (events signal).Nodup := by
  refine List.Nodup.map_on ?_ (List.Nodup.filter _ (by decide))
  intro src _ other _ same
  exact congrArg Prod.fst same

variable [DecidableEq Context]

theorem calls_setCall_self {c : Context} {call : SignalCall} :
    (s.setCall c call).calls c = call :=
  Function.update_self _ _ _

theorem calls_setCall_of_ne {c d : Context} {call : SignalCall} (apart : d ≠ c) :
    (s.setCall c call).calls d = s.calls d :=
  Function.update_of_ne apart _ _

/-- A call that goes on with what it has copied of the events. -/
theorem held_setCall {c : Context} {call : SignalCall}
    (carries : ∀ signal, (s.calls c).signal = some signal →
      ∃ next, call.signal = some next ∧ next.u32Event = signal.u32Event ∧
        next.sets = signal.sets)
    {src : Source} {number : Nat} (held : s.Held src number) :
    (s.setCall c call).Held src number := by
  obtain ⟨d, signal, copied, lit, same⟩ := held
  by_cases here : d = c
  · subst here
    obtain ⟨next, copies, event, sets⟩ := carries signal copied
    refine ⟨d, next, ?_, by rwa [event], by rwa [sets]⟩
    rw [calls_setCall_self]
    exact copies
  · refine ⟨d, signal, ?_, lit, same⟩
    rw [calls_setCall_of_ne here]
    exact copied

/-- A statement that only moves a call on. -/
theorem setCall (reporting : Reporting s) {c : Context} {call : SignalCall}
    (carries : ∀ signal, (s.calls c).signal = some signal →
      ∃ next, call.signal = some next ∧ next.u32Event = signal.u32Event ∧
        next.sets = signal.sets) :
    Reporting (s.setCall c call) := by
  obtain ⟨⟨served, kept, once⟩, idle, read, fresh, passed, counted⟩ := reporting
  refine ⟨⟨served, ?_, once⟩, idle, read, fresh, passed, counted⟩
  intro src number positive below
  exact (kept src number positive below).imp_right
    (Or.imp_right (held_setCall carries))

theorem signal_idle (reporting : Reporting s) {c : Context} (call : s.calls c = .idle) :
    Reporting (s.signalStep c) := by
  rw [signalStep, call]
  refine reporting.setCall fun signal copied => ?_
  rw [call] at copied
  cases copied

theorem signal_event (reporting : Reporting s) {c : Context} {signal : Signal}
    (call : s.calls c = .event signal) : Reporting (s.signalStep c) := by
  rw [signalStep, call]
  refine reporting.setCall fun other copied => ?_
  rw [call] at copied
  cases copied
  exact ⟨_, rfl, rfl, rfl⟩

theorem signal_secRdy (reporting : Reporting s) {c : Context} {signal : Signal}
    (call : s.calls c = .secRdy signal) : Reporting (s.signalStep c) := by
  rw [signalStep, call]
  refine reporting.setCall fun other copied => ?_
  rw [call] at copied
  cases copied
  exact ⟨_, rfl, rfl, rfl⟩

/-- The words cleared between `disable_irq` and `enable_irq`. -/
theorem signalStep_clear {c : Context} {signal : Signal}
    (call : s.calls c = .secOvf signal) (idle : s.isr = .idle) :
    s.signalStep c = { s.setCall c (.cleared signal) with
      u32TspEvent := 0
      u32TspSecRdy := 0
      u32TspSecOvf := 0 } := by
  rw [signalStep, call]
  exact if_pos idle

theorem signalStep_busy {c : Context} {signal : Signal}
    (call : s.calls c = .secOvf signal) (busy : s.isr ≠ .idle) : s.signalStep c = s := by
  rw [signalStep, call]
  exact if_neg busy

theorem held_clear_iff {c : Context} {signal : Signal}
    (call : s.calls c = .secOvf signal) {src : Source} {number : Nat} :
    (s.setCall c (.cleared signal)).Held src number ↔ s.Held src number := by
  constructor
  · rintro ⟨d, other, copied, lit, same⟩
    refine ⟨d, other, ?_, lit, same⟩
    by_cases here : d = c
    · subst here
      rw [calls_setCall_self] at copied
      rw [call]
      exact copied
    · rwa [calls_setCall_of_ne here] at copied
  · refine held_setCall fun other copied => ?_
    rw [call] at copied
    cases copied
    exact ⟨_, rfl, rfl, rfl⟩

theorem clear_iff (reporting : Reporting s) {c : Context} {signal : Signal}
    (call : s.calls c = .secOvf signal) (idle : s.isr = .idle) :
    EventLaw (s.signalStep c) ↔ ∀ src : Source,
      hasFlag s.u32TspEvent src.event = true →
        (src, s.sets src) ∈ s.returned ∨ s.Held src (s.sets src) := by
  rw [signalStep_clear call idle]
  constructor
  · intro law src lit
    rcases law.kept src (s.sets src) (reporting.counted src lit) le_rfl with
      back | ⟨word, _⟩ | held
    · exact Or.inl back
    · exact absurd ((hasFlag_zero _).symm.trans word) (by decide)
    · exact Or.inr ((held_clear_iff call).mp held)
  · intro copied
    refine ⟨reporting.law.served, ?_, reporting.law.once⟩
    intro src number positive below
    rcases reporting.law.kept src number positive below with back | ⟨lit, rfl⟩ | held
    · exact Or.inl back
    · exact (copied src lit).imp_right fun held => Or.inr ((held_clear_iff call).mpr held)
    · exact Or.inr (Or.inr ((held_clear_iff call).mpr held))

theorem clear (reporting : Reporting s) {c : Context} {signal : Signal}
    (call : s.calls c = .secOvf signal) (idle : s.isr = .idle)
    (law : EventLaw (s.signalStep c)) : Reporting (s.signalStep c) := by
  rw [signalStep_clear call idle] at law ⊢
  refine ⟨law, reporting.idle, reporting.read, reporting.fresh, reporting.passed, ?_⟩
  intro src lit
  exact absurd ((hasFlag_zero _).symm.trans lit) (by decide)

/-- What a call held that returns is returned. -/
theorem kept_return (reporting : Reporting s) {c : Context} {signal : Signal}
    (call : s.calls c = .cleared signal) :
    ∀ src number, 0 < number → number ≤ s.sets src →
      (src, number) ∈ s.returned ++ events signal ∨
        (hasFlag s.u32TspEvent src.event = true ∧ number = s.sets src) ∨
          (s.setCall c .idle).Held src number := by
  intro src number positive below
  rcases reporting.law.kept src number positive below with
    back | word | ⟨d, other, copied, lit, same⟩
  · exact Or.inl (List.mem_append_left _ back)
  · exact Or.inr (Or.inl word)
  · by_cases here : d = c
    · subst here
      rw [call] at copied
      cases copied
      exact Or.inl (List.mem_append_right _ (mem_events.mpr ⟨lit, same⟩))
    · refine Or.inr (Or.inr ⟨d, other, ?_, lit, same⟩)
      rw [calls_setCall_of_ne here]
      exact copied

theorem return_iff (reporting : Reporting s) {c : Context} {signal : Signal}
    (call : s.calls c = .cleared signal) :
    EventLaw (s.signalStep c) ↔ ∀ src : Source,
      hasFlag signal.u32Event src.event = true →
        (src, signal.sets src) ∉ s.returned := by
  rw [signalStep, call]
  constructor
  · intro law src lit back
    have apart := (List.nodup_append.mp law.once).2.2
    exact apart _ back _ (mem_events.mpr ⟨lit, rfl⟩) rfl
  · intro fresh
    refine ⟨reporting.law.served, reporting.kept_return call, ?_⟩
    refine List.nodup_append.mpr ⟨reporting.law.once, nodup_events signal, ?_⟩
    rintro ⟨src, number⟩ back _ member rfl
    obtain ⟨lit, rfl⟩ := mem_events.mp member
    exact fresh src lit back

theorem returns (reporting : Reporting s) {c : Context} {signal : Signal}
    (call : s.calls c = .cleared signal) (law : EventLaw (s.signalStep c)) :
    Reporting (s.signalStep c) := by
  rw [signalStep, call] at law ⊢
  exact ⟨law, reporting.idle, reporting.read, reporting.fresh, reporting.passed,
    reporting.counted⟩

theorem signal_iff (reporting : Reporting s) (c : Context) :
    EventLaw (s.signalStep c) ↔ ClearsCopied s (.signal c) := by
  rw [ClearsCopied]
  cases call : s.calls c with
  | idle =>
      refine iff_of_true (reporting.signal_idle call).law ⟨?_, ?_⟩ <;>
        exact fun _ same => by cases same
  | event signal =>
      refine iff_of_true (reporting.signal_event call).law ⟨?_, ?_⟩ <;>
        exact fun _ same => by cases same
  | secRdy signal =>
      refine iff_of_true (reporting.signal_secRdy call).law ⟨?_, ?_⟩ <;>
        exact fun _ same => by cases same
  | secOvf signal =>
      by_cases idle : s.isr = .idle
      · rw [reporting.clear_iff call idle]
        constructor
        · exact fun copied => ⟨fun _ _ _ => copied, fun _ same => by cases same⟩
        · exact fun both => both.1 signal rfl idle
      · rw [signalStep_busy call idle]
        exact iff_of_true reporting.law
          ⟨fun _ _ free => absurd free idle, fun _ same => by cases same⟩
  | cleared signal =>
      rw [reporting.return_iff call]
      constructor
      · intro fresh
        refine ⟨fun _ same => (by cases same), fun other same => ?_⟩
        cases same
        exact fresh
      · exact fun both => both.2 signal rfl

theorem signal (reporting : Reporting s) {c : Context}
    (law : EventLaw (s.signalStep c)) : Reporting (s.signalStep c) := by
  cases call : s.calls c with
  | idle => exact reporting.signal_idle call
  | event signal => exact reporting.signal_event call
  | secRdy signal => exact reporting.signal_secRdy call
  | secOvf signal =>
      by_cases idle : s.isr = .idle
      · exact reporting.clear call idle law
      · rw [signalStep_busy call idle]
        exact reporting
  | cleared signal => exact reporting.returns call law

theorem after_iff (reporting : Reporting s) (step : EventStep Context) :
    EventLaw (s.after step) ↔ ClearsCopied s step := by
  cases step with
  | rise src => exact iff_of_true (reporting.rise src).law trivial
  | isr => exact reporting.isr_iff
  | signal c => exact reporting.signal_iff c

theorem after (reporting : Reporting s) (step : EventStep Context)
    (law : EventLaw (s.after step)) : Reporting (s.after step) := by
  cases step with
  | rise src => exact reporting.rise src
  | isr => exact reporting.isrStep law
  | signal c => exact reporting.signal law

end Reporting

theorem reporting_init : Reporting (.init : TspEvents Context) where
  law := ⟨fun _ none => (by cases none), fun _ _ positive below => (by
    exact absurd (positive.trans_le below) (lt_irrefl 0)), List.nodup_nil⟩
  idle := fun _ src lit => absurd ((hasFlag_zero _).symm.trans lit) (by decide)
  read := fun _ none => by cases none
  fresh := fun _ none => by cases none
  passed := fun _ none => by cases none
  counted := fun _ lit => absurd ((hasFlag_zero _).symm.trans lit) (by decide)

variable [DecidableEq Context]

/-- For every interleaving of the handler, of rising status bits and of calls, each
event is reported once if and only if the handler and the calls clear only what
was read and copied. -/
theorem events_iff (steps : List (EventStep Context)) :
    Run.Meets TspEvents.after (fun s step => EventLaw (s.after step)) .init steps ↔
      Run.Meets TspEvents.after ClearsCopied .init steps :=
  Run.meets_congr (fun _ step reporting => Reporting.after_iff reporting step)
    (fun _ step reporting law => reporting.after step law) reporting_init

/-- An event that the handler sets between the copy of a call and its clearing is
lost. -/
theorem event_lost :
    ¬ ∀ (Context : Type) (_ : DecidableEq Context) (steps : List (EventStep Context)),
      Run.Meets TspEvents.after (fun s step => EventLaw (s.after step)) .init
        steps := by
  intro always
  have run := always Unit inferInstance
    ([.signal (), .signal (), .signal (), .rise .pvrTail0] ++ List.replicate 6 .isr ++
      [.signal (), .signal ()])
  have law := ((Run.meets_append.mp run).2).2.1
  rcases law.kept .pvrTail0 1 (by decide) (by decide) with back | word | held
  · revert back
    decide
  · revert word
    decide
  · obtain ⟨c, signal, copied, -⟩ := held
    cases copied

end Gp2Firmware.Tsp
