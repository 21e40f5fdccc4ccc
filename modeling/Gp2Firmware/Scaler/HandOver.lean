import Mathlib.Data.Fintype.Option
import Mathlib.Logic.Function.Basic
import Gp2Firmware.Lib.Run
import Gp2Firmware.Scaler.ModeTable

/-!
# The hand-over of the detection thread

`MDrv_SC_SetInputSource` and `MDrv_SC_Thread` of `mdrv_scaler.c`, with
`MDrv_SC_PCMode_Stop`, `MDrv_SC_PCMode_Start` and `MDrv_SC_PCMode_Thread` of
`mdrv_scaler_pcmode.c` and their HDMI counterparts of `mdrv_hdmi.c`, one assignment or
test at a time.  `u8ThreadCtrl` and the events only wake the thread up earlier.
-/

namespace Gp2Firmware.Scaler

/-- `Use_HDMI_Source` -/
def InputSource.isHdmi (src : InputSource) : Bool :=
  src = .hdmiA ∨ src = .hdmiB ∨ src = .hdmiC ∨ src = .hdmiD

/-- The two inner loops, as `u8ThreadMode` numbers them from 1. -/
inductive DetectMode where
  | pc
  | hdmi
  deriving DecidableEq

instance : Fintype DetectMode where
  elems := {.pc, .hdmi}
  complete m := by cases m <;> decide

/-- The mode that `MDrv_SC_SetInputSource` starts. -/
def detectMode (src : InputSource) : Option DetectMode :=
  if src.isVga ∨ src.isYPbPr then some .pc
  else if src.isHdmi then some .hdmi
  else none

/-- The bits of `SC_SRC_STATE_e` that the hand-over uses. -/
inductive SrcState where
  | pcmodeStop
  | hdmiStop
  | pcmode
  | hdmi
  deriving DecidableEq

namespace DetectMode

/-- The bit that the inner loop sets when it has been left. -/
def stopState : DetectMode → SrcState
  | .pc => .pcmodeStop
  | .hdmi => .hdmiStop

/-- The bit that says that the mode has been started. -/
def srcState : DetectMode → SrcState
  | .pc => .pcmode
  | .hdmi => .hdmi

theorem srcState_ne_stopState (m n : DetectMode) : m.srcState ≠ n.stopState := by
  cases m <;> cases n <;> decide

theorem stopState_injective : Function.Injective stopState := by
  decide

theorem srcState_injective : Function.Injective srcState := by
  decide

end DetectMode

/-- The bits of `SC_THREAD_CTRL_e`. -/
structure ThreadCtrl where
  terminate : Bool
  fastStateChange : Bool
  deriving DecidableEq

/-- Where the thread is: its next assignment, test or wait.  Those with a mode are in
the inner loop of that mode. -/
inductive ThreadAt where
  | wait
  | testPc
  | testHdmi
  | ctrlNone (m : DetectMode)
  | ctrlFast (m : DetectMode)
  | innerWait (m : DetectMode)
  | testCtrl (m : DetectMode)
  | testFast (m : DetectMode)
  | clearFast (m : DetectMode)
  | testTerminate (m : DetectMode)
  | handle (m : DetectMode)
  | leave (m : DetectMode)
  deriving DecidableEq

/-- The loop that the thread has entered, its request reset, and not reported left. -/
def ThreadAt.loop : ThreadAt → Option DetectMode
  | .wait | .testPc | .testHdmi | .ctrlNone _ => none
  | .ctrlFast m | .innerWait m | .testCtrl m | .testFast m | .clearFast m
  | .testTerminate m | .handle m | .leave m => some m

/-- Where a call of `MDrv_SC_SetInputSource` is, on its way to the mode `next`. -/
inductive CallerAt where
  | idle
  | testPc (next : Option DetectMode)
  | testHdmi (next : Option DetectMode)
  | threadMode (m : DetectMode) (next : Option DetectMode)
  | terminate (m : DetectMode) (next : Option DetectMode)
  | poll (m : DetectMode) (next : Option DetectMode) (index : Nat)
  | clearStop (m : DetectMode) (next : Option DetectMode)
  | clearState (m : DetectMode) (next : Option DetectMode)
  | start (next : Option DetectMode)
  | setState (next : Option DetectMode)
  deriving DecidableEq

/-- The loop that the call is about to ask to leave. -/
def CallerAt.asks : CallerAt → Option DetectMode
  | .terminate m _ => some m
  | _ => none

/-- A Stop has asked, and has not returned. -/
def CallerAt.waits : CallerAt → Bool
  | .poll _ _ _ | .clearStop _ _ => true
  | _ => false

/-- The source and the two parties.  The last four fields record the run: how many
loops have been entered, which of them the running Stop asked to leave, which of them
set a STOP bit last, and what the last completed call switched to. -/
structure HandOver where
  u8ThreadMode : Option DetectMode
  u16Ctrl : ThreadCtrl
  u32SrcState : SrcState → Bool
  thread : ThreadAt
  caller : CallerAt
  loops : Nat
  asked : Option Nat
  stoppedBy : DetectMode → Nat
  switched : Option DetectMode

/-- `interrupted` is what a wait returns when a signal ended it. -/
inductive HandOverStep where
  | thread (interrupted : Bool)
  | caller
  | call (inputSrc : InputSource)

namespace HandOver

/-- `_MAX_CHECK_TERM / _CHECK_SLEEP_TERM` -/
def maxPolls : Nat := 1000 / 10

def init : HandOver where
  u8ThreadMode := none
  u16Ctrl := ⟨false, false⟩
  u32SrcState := fun _ => false
  thread := .wait
  caller := .idle
  loops := 0
  asked := none
  stoppedBy := fun _ => 0
  switched := none

/-- The next statement of `MDrv_SC_Thread`. -/
def threadStep (s : HandOver) (interrupted : Bool) : HandOver :=
  match s.thread with
  | .wait => { s with thread := if interrupted then .wait else .testPc }
  | .testPc =>
      { s with thread := if s.u8ThreadMode = some .pc then .ctrlNone .pc else .testHdmi }
  | .testHdmi =>
      { s with thread := if s.u8ThreadMode = some .hdmi then .ctrlNone .hdmi else .wait }
  | .ctrlNone m =>
      { s with u16Ctrl := ⟨false, false⟩, loops := s.loops + 1, thread := .ctrlFast m }
  | .ctrlFast m =>
      { s with u16Ctrl := ⟨s.u16Ctrl.terminate, true⟩, thread := .innerWait m }
  | .innerWait m => { s with thread := if interrupted then .leave m else .testCtrl m }
  | .testCtrl m =>
      { s with thread := if s.u16Ctrl = ⟨false, false⟩ then .handle m else .testFast m }
  | .testFast m =>
      { s with
        thread := if s.u16Ctrl.fastStateChange then .clearFast m else .testTerminate m }
  | .clearFast m =>
      { s with u16Ctrl := ⟨s.u16Ctrl.terminate, false⟩, thread := .testTerminate m }
  | .testTerminate m =>
      { s with thread := if s.u16Ctrl.terminate then .leave m else .handle m }
  | .handle m => { s with thread := .innerWait m }
  | .leave m =>
      { s with
        u32SrcState := Function.update s.u32SrcState m.stopState true
        stoppedBy := Function.update s.stoppedBy m s.loops
        thread := .wait }

/-- The next statement of `MDrv_SC_SetInputSource`. -/
def callerStep (s : HandOver) : HandOver :=
  match s.caller with
  | .idle => s
  | .testPc next =>
      { s with
        caller := if s.u32SrcState .pcmode then .threadMode .pc next else .testHdmi next }
  | .testHdmi next =>
      { s with
        caller := if s.u32SrcState .hdmi then .threadMode .hdmi next else .start next }
  | .threadMode m next => { s with u8ThreadMode := none, caller := .terminate m next }
  | .terminate m next =>
      { s with
        u16Ctrl := ⟨true, false⟩
        asked := s.thread.loop.map fun _ => s.loops
        caller := .poll m next 0 }
  | .poll m next index =>
      { s with
        caller :=
          if index < maxPolls ∧ s.u32SrcState m.stopState = false then
            .poll m next (index + 1)
          else .clearStop m next }
  | .clearStop m next =>
      { s with
        u32SrcState := Function.update s.u32SrcState m.stopState false
        caller := .clearState m next }
  | .clearState m next =>
      { s with
        u32SrcState := Function.update s.u32SrcState m.srcState false
        caller := .start next }
  | .start none => { s with caller := .setState none }
  | .start (some m) => { s with u8ThreadMode := some m, caller := .setState (some m) }
  | .setState none => { s with caller := .idle, switched := none }
  | .setState (some m) =>
      { s with
        u32SrcState := Function.update s.u32SrcState m.srcState true
        caller := .idle
        switched := some m }

/-- One call follows the other. -/
def after (s : HandOver) : HandOverStep → HandOver
  | .thread interrupted => s.threadStep interrupted
  | .caller => s.callerStep
  | .call inputSrc =>
      if s.caller = .idle then { s with caller := .testPc (detectMode inputSrc) } else s

/-- A Stop that returns leaves no inner loop behind without its request. -/
def Returns (s : HandOver) : HandOverStep → Prop
  | .caller => ∀ m next, s.caller = .clearStop m next → s.thread.loop ≠ none →
      s.u16Ctrl.terminate = true
  | _ => True

/-- A STOP bit that a poll sees was set by the loop that this Stop asked to leave. -/
def Observes (s : HandOver) : HandOverStep → Prop
  | .caller => ∀ m next index, s.caller = .poll m next index → index < maxPolls →
      s.u32SrcState m.stopState = true → s.asked = some (s.stoppedBy m)
  | _ => True

/-- A loop handles a state of a mode that has been started, or its request is pending. -/
def Handles (s : HandOver) : Prop :=
  ∀ m, s.thread = .handle m →
    s.switched = some m ∨ s.caller = .setState (some m) ∨ s.u16Ctrl.terminate = true

def Law (s : HandOver) (step : HandOverStep) : Prop :=
  s.Returns step ∧ s.Observes step ∧ (s.after step).Handles

/-- The thread resets the request word only while its mode is on, or before the
request, and a Stop asks while the STOP bit of its mode is clear. -/
def InTime (s : HandOver) : HandOverStep → Prop
  | .thread _ => ∀ m, s.thread = .ctrlNone m →
      s.u8ThreadMode = some m ∨ s.caller.asks = some m
  | .caller => ∀ m, s.caller.asks = some m → s.u32SrcState m.stopState = false
  | .call _ => True

/-- The bits name the mode that has been started. -/
def Marks (u32SrcState : SrcState → Bool) (started : Option DetectMode) : Prop :=
  ∀ m, u32SrcState m.srcState = true ↔ started = some m

theorem Marks.update_stopState {u32SrcState : SrcState → Bool}
    {started : Option DetectMode} (marks : Marks u32SrcState started) (m : DetectMode)
    (value : Bool) : Marks (Function.update u32SrcState m.stopState value) started := by
  intro n
  rw [Function.update_of_ne (DetectMode.srcState_ne_stopState n m)]
  exact marks n

/-- A mode is started or stopped. -/
theorem Marks.update_srcState {u32SrcState : SrcState → Bool} {before after : Option DetectMode}
    (marks : Marks u32SrcState before) {m : DetectMode} {value : Bool}
    (here : value = true ↔ after = some m)
    (others : ∀ n ≠ m, before = some n ↔ after = some n) :
    Marks (Function.update u32SrcState m.srcState value) after := by
  intro n
  by_cases same : n = m
  · rw [same, Function.update_self]
    exact here
  · have other : n.srcState ≠ m.srcState :=
      fun equal => same (DetectMode.srcState_injective equal)
    rw [Function.update_of_ne other, marks n]
    exact others n same

theorem Marks.clear {u32SrcState : SrcState → Bool} {m : DetectMode}
    (marks : Marks u32SrcState (some m)) :
    Marks (Function.update u32SrcState m.srcState false) none :=
  marks.update_srcState (by simp) fun n other => by simp [Ne.symm other]

theorem Marks.set {u32SrcState : SrcState → Bool} (marks : Marks u32SrcState none)
    (m : DetectMode) :
    Marks (Function.update u32SrcState m.srcState true) (some m) :=
  marks.update_srcState (by simp) fun n other => by simp [Ne.symm other]

/-- What a call of `MDrv_SC_SetInputSource` knows where it is. -/
def Knows (caller : CallerAt) (marks : Option DetectMode → Prop)
    (u8ThreadMode switched : Option DetectMode) : Prop :=
  match caller with
  | .idle | .testPc _ => marks switched ∧ u8ThreadMode = switched
  | .testHdmi _ => marks switched ∧ u8ThreadMode = switched ∧ switched ≠ some .pc
  | .threadMode m _ => marks switched ∧ u8ThreadMode = switched ∧ switched = some m
  | .terminate m _ | .poll m _ _ | .clearStop m _ | .clearState m _ =>
      marks switched ∧ u8ThreadMode = none ∧ switched = some m
  | .start _ => marks none ∧ u8ThreadMode = none
  | .setState next => marks none ∧ u8ThreadMode = next

/-- The invariant of the runs in time. -/
structure InHand (s : HandOver) : Prop where
  knows : Knows s.caller (Marks s.u32SrcState) s.u8ThreadMode s.switched
  wanted : ∀ m, s.thread.loop = some m →
    s.u16Ctrl.terminate = true ∨ s.u8ThreadMode = some m ∨ s.caller.asks = some m
  requested : s.caller.waits = true → s.u16Ctrl.terminate = true
  entered : ∀ m next index, s.caller = .poll m next index → s.thread.loop ≠ none →
    s.asked = some s.loops
  answered : ∀ m next index, s.caller = .poll m next index →
    s.u32SrcState m.stopState = true → s.asked = some (s.stoppedBy m)

/-- What a statement of the thread does to the hand-over. -/
theorem threadStep_cases (s : HandOver) (interrupted : Bool) :
    (∃ next, s.threadStep interrupted = { s with thread := next } ∧ next.loop = none) ∨
    (∃ m, s.thread = .ctrlNone m ∧ s.threadStep interrupted =
      { s with u16Ctrl := ⟨false, false⟩, loops := s.loops + 1, thread := .ctrlFast m }) ∨
    (∃ m next fast, s.thread.loop = some m ∧ next.loop = some m ∧
      s.threadStep interrupted =
        { s with u16Ctrl := ⟨s.u16Ctrl.terminate, fast⟩, thread := next }) ∨
    (∃ m, s.thread = .leave m ∧ s.threadStep interrupted =
      { s with
        u32SrcState := Function.update s.u32SrcState m.stopState true
        stoppedBy := Function.update s.stoppedBy m s.loops
        thread := .wait }) := by
  unfold threadStep
  cases s.thread with
  | wait | testPc | testHdmi => exact Or.inl ⟨_, rfl, by split_ifs <;> rfl⟩
  | ctrlNone m => exact Or.inr (Or.inl ⟨m, rfl, rfl⟩)
  | ctrlFast m => exact Or.inr (Or.inr (Or.inl ⟨m, _, true, rfl, rfl, rfl⟩))
  | leave m => exact Or.inr (Or.inr (Or.inr ⟨m, rfl, rfl⟩))
  | clearFast m => exact Or.inr (Or.inr (Or.inl ⟨m, _, false, rfl, rfl, rfl⟩))
  | innerWait m | testCtrl m | testFast m | testTerminate m | handle m =>
      refine Or.inr (Or.inr (Or.inl ⟨m, _, s.u16Ctrl.fastStateChange, rfl, ?_, rfl⟩))
      first
        | rfl
        | (split_ifs <;> rfl)

namespace InHand

variable {s : HandOver}

theorem thread_outside (inHand : InHand s) {next : ThreadAt} (outside : next.loop = none) :
    InHand { s with thread := next } where
  knows := inHand.knows
  wanted := fun m inside => by
    rw [show next.loop = some m from inside] at outside
    cases outside
  requested := inHand.requested
  entered := fun _ _ _ _ inside => absurd outside inside
  answered := inHand.answered

/-- No loop is entered while a Stop waits. -/
theorem not_waits (inHand : InHand s) {m : DetectMode}
    (inTime : s.u8ThreadMode = some m ∨ s.caller.asks = some m) :
    s.caller.waits = false := by
  have knows := inHand.knows
  cases caller : s.caller with
  | poll n next index =>
      rw [caller] at knows inTime
      rw [knows.2.1] at inTime
      rcases inTime with started | asks
      · cases started
      · cases asks
  | clearStop n next =>
      rw [caller] at knows inTime
      rw [knows.2.1] at inTime
      rcases inTime with started | asks
      · cases started
      · cases asks
  | _ => rfl

theorem thread_enter (inHand : InHand s) {m : DetectMode}
    (inTime : s.u8ThreadMode = some m ∨ s.caller.asks = some m) :
    InHand { s with
      u16Ctrl := ⟨false, false⟩, loops := s.loops + 1, thread := .ctrlFast m } where
  knows := inHand.knows
  wanted := fun n inside => by
    cases inside
    exact Or.inr inTime
  requested := fun waits => by
    rw [inHand.not_waits inTime] at waits
    cases waits
  entered := fun _ _ index caller _ => by
    have waits := inHand.not_waits inTime
    rw [show s.caller = _ from caller] at waits
    cases waits
  answered := inHand.answered

theorem thread_inside (inHand : InHand s) {m : DetectMode} {next : ThreadAt} {fast : Bool}
    (inside : s.thread.loop = some m) (still : next.loop = some m) :
    InHand { s with u16Ctrl := ⟨s.u16Ctrl.terminate, fast⟩, thread := next } where
  knows := inHand.knows
  wanted := fun n there => by
    rw [show next.loop = some n from there] at still
    cases still
    exact inHand.wanted m inside
  requested := inHand.requested
  entered := fun m next index caller _ =>
    inHand.entered m next index caller (by rw [inside]; exact Option.some_ne_none _)
  answered := inHand.answered

theorem thread_leave (inHand : InHand s) {m : DetectMode} (leaves : s.thread = .leave m) :
    InHand { s with
      u32SrcState := Function.update s.u32SrcState m.stopState true
      stoppedBy := Function.update s.stoppedBy m s.loops
      thread := .wait } where
  knows := by
    have knows := inHand.knows
    change Knows s.caller _ s.u8ThreadMode s.switched
    revert knows
    unfold Knows
    cases s.caller <;> exact fun knows => ⟨knows.1.update_stopState m true, knows.2⟩
  wanted := fun n inside => by cases inside
  requested := inHand.requested
  entered := fun _ _ _ _ inside => absurd rfl inside
  answered := fun n next index caller stop => by
    have asked := inHand.entered n next index caller (by
      rw [leaves]
      exact Option.some_ne_none m)
    change s.asked = some (Function.update s.stoppedBy m s.loops n)
    by_cases same : n = m
    · rw [same, Function.update_self]
      exact asked
    · have other : n.stopState ≠ m.stopState :=
        fun equal => same (DetectMode.stopState_injective equal)
      rw [Function.update_of_ne same]
      refine inHand.answered n next index caller ?_
      rwa [← Function.update_of_ne other true s.u32SrcState]

theorem threadStep (inHand : InHand s) (interrupted : Bool)
    (inTime : s.InTime (.thread interrupted)) : InHand (s.threadStep interrupted) := by
  rcases s.threadStep_cases interrupted with ⟨next, step, outside⟩ | ⟨m, enters, step⟩ |
    ⟨m, next, fast, inside, still, step⟩ | ⟨m, leaves, step⟩
  · rw [step]
    exact inHand.thread_outside outside
  · rw [step]
    exact inHand.thread_enter (inTime m enters)
  · rw [step]
    exact inHand.thread_inside inside still
  · rw [step]
    exact inHand.thread_leave leaves

/-- A call that does not wait for a loop. -/
theorem of_not_waits {t : HandOver}
    (knows : Knows t.caller (Marks t.u32SrcState) t.u8ThreadMode t.switched)
    (wanted : ∀ m, t.thread.loop = some m →
      t.u16Ctrl.terminate = true ∨ t.u8ThreadMode = some m ∨ t.caller.asks = some m)
    (waits : t.caller.waits = false) : InHand t where
  knows := knows
  wanted := wanted
  requested := fun waiting => by
    rw [waits] at waiting
    cases waiting
  entered := fun _ _ _ caller _ => by
    rw [caller] at waits
    cases waits
  answered := fun _ _ _ caller _ => by
    rw [caller] at waits
    cases waits

/-- A loop is wanted, or its request is pending, when no request is due. -/
theorem wanted_of_asks (inHand : InHand s) (asks : s.caller.asks = none) (m : DetectMode)
    (inside : s.thread.loop = some m) :
    s.u16Ctrl.terminate = true ∨ s.u8ThreadMode = some m := by
  rcases inHand.wanted m inside with pending | started | due
  · exact Or.inl pending
  · exact Or.inr started
  · rw [asks] at due
    cases due

theorem caller_testPc (inHand : InHand s) {next : Option DetectMode}
    (caller : s.caller = .testPc next) :
    InHand { s with
      caller := if s.u32SrcState .pcmode then .threadMode .pc next else .testHdmi next } := by
  have knows := inHand.knows
  rw [caller] at knows
  have wanted := inHand.wanted_of_asks (by rw [caller]; rfl)
  split_ifs with mark
  · have started := (knows.1 .pc).mp mark
    exact of_not_waits ⟨knows.1, knows.2, started⟩
      (fun m inside => (wanted m inside).imp_right Or.inl) rfl
  · have other : s.switched ≠ some .pc := fun started => mark ((knows.1 .pc).mpr started)
    exact of_not_waits ⟨knows.1, knows.2, other⟩
      (fun m inside => (wanted m inside).imp_right Or.inl) rfl

theorem caller_testHdmi (inHand : InHand s) {next : Option DetectMode}
    (caller : s.caller = .testHdmi next) :
    InHand { s with
      caller := if s.u32SrcState .hdmi then .threadMode .hdmi next else .start next } := by
  have knows := inHand.knows
  rw [caller] at knows
  obtain ⟨marks, mode, notPc⟩ := knows
  have wanted := inHand.wanted_of_asks (by rw [caller]; rfl)
  split_ifs with mark
  · have started := (marks .hdmi).mp mark
    exact of_not_waits ⟨marks, mode, started⟩
      (fun m inside => (wanted m inside).imp_right Or.inl) rfl
  · have off : s.switched = none := by
      cases started : s.switched with
      | none => rfl
      | some m =>
          cases m with
          | pc => exact absurd started notPc
          | hdmi => exact absurd ((marks .hdmi).mpr started) mark
    rw [off] at marks mode
    exact of_not_waits ⟨marks, mode⟩
      (fun m inside => (wanted m inside).imp_right Or.inl) rfl

theorem caller_threadMode (inHand : InHand s) {m : DetectMode} {next : Option DetectMode}
    (caller : s.caller = .threadMode m next) :
    InHand { s with u8ThreadMode := none, caller := .terminate m next } := by
  have knows := inHand.knows
  rw [caller] at knows
  obtain ⟨marks, mode, started⟩ := knows
  refine of_not_waits ⟨marks, rfl, started⟩ (fun n inside => ?_) rfl
  rcases inHand.wanted_of_asks (by rw [caller]; rfl) n inside with pending | on_
  · exact Or.inl pending
  · rw [mode, started] at on_
    exact Or.inr (Or.inr on_)

theorem caller_terminate (inHand : InHand s) {m : DetectMode} {next : Option DetectMode}
    (caller : s.caller = .terminate m next) (clear : s.u32SrcState m.stopState = false) :
    InHand { s with
      u16Ctrl := ⟨true, false⟩
      asked := s.thread.loop.map fun _ => s.loops
      caller := .poll m next 0 } where
  knows := by
    have knows := inHand.knows
    rw [caller] at knows
    exact knows
  wanted := fun _ _ => Or.inl rfl
  requested := fun _ => rfl
  entered := fun _ _ _ _ inside => by
    obtain ⟨n, loop⟩ := Option.ne_none_iff_exists'.mp inside
    exact congrArg (Option.map fun _ => s.loops) loop
  answered := fun n _ _ polls stop => by
    cases polls
    rw [clear] at stop
    cases stop

/-- A Stop goes on waiting, or stops waiting. -/
theorem caller_poll (inHand : InHand s) {m : DetectMode} {next : Option DetectMode}
    {index : Nat} (caller : s.caller = .poll m next index) {to_ : CallerAt}
    (goes : to_ = .poll m next (index + 1) ∨ to_ = .clearStop m next) :
    InHand { s with caller := to_ } := by
  have knows := inHand.knows
  rw [caller] at knows
  have pending := inHand.requested (by rw [caller]; rfl)
  rcases goes with rfl | rfl
  · refine ⟨knows, fun _ _ => Or.inl pending, fun _ => pending, ?_, ?_⟩
    · rintro n last i ⟨⟩ inside
      exact inHand.entered m next index caller inside
    · rintro n last i ⟨⟩ stop
      exact inHand.answered m next index caller stop
  · refine ⟨knows, fun _ _ => Or.inl pending, fun _ => pending, ?_, ?_⟩
    · rintro n last i ⟨⟩
    · rintro n last i ⟨⟩

theorem caller_clearStop (inHand : InHand s) {m : DetectMode} {next : Option DetectMode}
    (caller : s.caller = .clearStop m next) :
    InHand { s with
      u32SrcState := Function.update s.u32SrcState m.stopState false
      caller := .clearState m next } := by
  have knows := inHand.knows
  rw [caller] at knows
  have pending := inHand.requested (by rw [caller]; rfl)
  exact of_not_waits ⟨knows.1.update_stopState m false, knows.2⟩ (fun _ _ => Or.inl pending)
    rfl

theorem caller_clearState (inHand : InHand s) {m : DetectMode} {next : Option DetectMode}
    (caller : s.caller = .clearState m next) :
    InHand { s with
      u32SrcState := Function.update s.u32SrcState m.srcState false
      caller := .start next } := by
  have knows := inHand.knows
  rw [caller] at knows
  obtain ⟨marks, mode, started⟩ := knows
  rw [started] at marks
  have wanted := inHand.wanted_of_asks (by rw [caller]; rfl)
  exact of_not_waits ⟨marks.clear, mode⟩
    (fun n inside => (wanted n inside).imp_right Or.inl) rfl

theorem caller_start (inHand : InHand s) {next mode : Option DetectMode}
    (caller : s.caller = .start next) (set : mode = next) :
    InHand { s with u8ThreadMode := mode, caller := .setState next } := by
  have knows := inHand.knows
  rw [caller] at knows
  obtain ⟨marks, off⟩ := knows
  refine of_not_waits ⟨marks, set⟩ (fun n inside => ?_) rfl
  rcases inHand.wanted_of_asks (by rw [caller]; rfl) n inside with pending | started
  · exact Or.inl pending
  · rw [off] at started
    cases started

theorem caller_setState (inHand : InHand s) {next : Option DetectMode}
    (caller : s.caller = .setState next) {u32SrcState : SrcState → Bool}
    (marks : Marks u32SrcState next) :
    InHand { s with u32SrcState := u32SrcState, caller := .idle, switched := next } := by
  have knows := inHand.knows
  rw [caller] at knows
  have wanted := inHand.wanted_of_asks (by rw [caller]; rfl)
  exact of_not_waits ⟨marks, knows.2⟩
    (fun n inside => (wanted n inside).imp_right Or.inl) rfl

theorem callerStep (inHand : InHand s) (inTime : s.InTime .caller) :
    InHand s.callerStep := by
  have knows := inHand.knows
  unfold HandOver.callerStep
  cases caller : s.caller with
  | idle => exact inHand
  | testPc next => exact inHand.caller_testPc caller
  | testHdmi next => exact inHand.caller_testHdmi caller
  | threadMode m next => exact inHand.caller_threadMode caller
  | terminate m next =>
      exact inHand.caller_terminate caller (inTime m (by rw [caller]; rfl))
  | poll m next index =>
      refine inHand.caller_poll caller ?_
      split_ifs
      · exact Or.inl rfl
      · exact Or.inr rfl
  | clearStop m next => exact inHand.caller_clearStop caller
  | clearState m next => exact inHand.caller_clearState caller
  | start next =>
      rw [caller] at knows
      cases next with
      | none => exact inHand.caller_start caller knows.2
      | some m => exact inHand.caller_start caller rfl
  | setState next =>
      rw [caller] at knows
      cases next with
      | none => exact inHand.caller_setState caller knows.1
      | some m => exact inHand.caller_setState caller (knows.1.set m)

theorem call (inHand : InHand s) (inputSrc : InputSource) :
    InHand (s.after (.call inputSrc)) := by
  unfold HandOver.after
  split_ifs with idle
  · have knows := inHand.knows
    rw [idle] at knows
    have wanted := inHand.wanted_of_asks (by rw [idle]; rfl)
    exact of_not_waits knows (fun n inside => (wanted n inside).imp_right Or.inl) rfl
  · exact inHand

theorem after (inHand : InHand s) (step : HandOverStep) (inTime : s.InTime step) :
    InHand (s.after step) := by
  cases step with
  | thread interrupted => exact inHand.threadStep interrupted inTime
  | caller => exact inHand.callerStep inTime
  | call inputSrc => exact inHand.call inputSrc

theorem handles (inHand : InHand s) : s.Handles := by
  intro m handles
  have knows := inHand.knows
  rcases inHand.wanted m (by rw [handles]; rfl) with pending | started | asks
  · exact Or.inr (Or.inr pending)
  · rw [started] at knows
    cases caller : s.caller with
    | idle | testPc _ =>
        rw [caller] at knows
        exact Or.inl knows.2.symm
    | testHdmi _ | threadMode _ _ =>
        rw [caller] at knows
        exact Or.inl knows.2.1.symm
    | terminate _ _ | poll _ _ _ | clearStop _ _ | clearState _ _ =>
        rw [caller] at knows
        cases knows.2.1
    | start _ =>
        rw [caller] at knows
        cases knows.2
    | setState next =>
        rw [caller] at knows
        exact Or.inr (Or.inl (congrArg CallerAt.setState knows.2.symm))
  · cases caller : s.caller with
    | terminate n next =>
        rw [caller] at knows asks
        cases asks
        exact Or.inl knows.2.2
    | _ =>
        rw [caller] at asks
        cases asks

theorem law (inHand : InHand s) (step : HandOverStep) (inTime : s.InTime step) :
    s.Law step := by
  refine ⟨?_, ?_, (inHand.after step inTime).handles⟩
  · cases step with
    | caller =>
        intro _ _ caller _
        exact inHand.requested (by rw [caller]; rfl)
    | _ => trivial
  · cases step with
    | caller =>
        intro m next index caller _ stop
        exact inHand.answered m next index caller stop
    | _ => trivial

end InHand

theorem inHand_init : InHand init where
  knows := ⟨fun m => iff_of_false Bool.false_ne_true (Option.some_ne_none m).symm, rfl⟩
  wanted := fun _ inside => by cases inside
  requested := fun waits => by cases waits
  entered := fun _ _ _ caller => by cases caller
  answered := fun _ _ _ caller => by cases caller

/-- In every run in time, a Stop leaves no inner loop behind without its request and
sees the answer of the loop it asked, and no loop handles a state of a mode that has
been switched off while no request is pending. -/
theorem law_of_inTime (steps : List HandOverStep)
    (inTime : Run.Meets after InTime init steps) : Run.Meets after Law init steps :=
  inTime.imp (fun _ step inHand inTime => InHand.law inHand step inTime)
    (fun _ step inHand inTime => InHand.after inHand step inTime) inHand_init

instance (s : HandOver) : ∀ step, Decidable (s.InTime step)
  | .thread _ => inferInstanceAs (Decidable (∀ _ : DetectMode, _ → _ ∨ _))
  | .caller => inferInstanceAs (Decidable (∀ _ : DetectMode, _ → _))
  | .call _ => .isTrue trivial

/-- From VGA to HDMI while the PC mode loop handles a state, with time for the loop to
leave. -/
def toHdmi : List HandOverStep :=
  .call .vga :: List.replicate 4 .caller ++ List.replicate 9 (.thread false) ++
    .call .hdmiA :: List.replicate 3 .caller ++ List.replicate 7 (.thread false) ++
      List.replicate 7 .caller

theorem law_of_toHdmi : Run.Meets after Law init toHdmi :=
  law_of_inTime toHdmi (by decide +kernel)

/-- From VGA to DTV.  The thread has read the mode when the Stop asks, enters the loop
and resets the request. -/
def toDtv : List HandOverStep :=
  .call .vga :: List.replicate 4 .caller ++ List.replicate 2 (.thread false) ++
    .call .dtv :: List.replicate 3 .caller ++ List.replicate 7 (.thread false) ++
      List.replicate 104 .caller

/-- The PC mode loop goes on after the switch to DTV. -/
theorem left_behind : ¬ ∀ steps : List HandOverStep, Run.Meets after Law init steps := by
  intro always
  have run := always (toDtv ++ [.caller])
  have handles := (Run.meets_append.mp run).2.1.2.2
  have inside : ((toDtv.foldl after init).after .caller).thread = .handle .pc := by
    decide +kernel
  have wanted := handles .pc inside
  revert wanted
  decide +kernel

end HandOver

end Gp2Firmware.Scaler
