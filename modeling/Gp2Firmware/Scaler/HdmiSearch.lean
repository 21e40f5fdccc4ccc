import Gp2Firmware.Scaler.PcMode

/-!
# The search mode of the HDMI thread

The state machine of `MDrv_HDMI_Thread` of `mdrv_hdmi.c`, with `HDMI_THREAD_SPEED_UP`,
and the decision of `MDrv_HDMI_SearchModeHandler` whether the timing is supported.
-/

namespace Gp2Firmware.Scaler

/-- `SC_HDMI_STATE_e` -/
inductive HdmiState where
  | init
  | debounce
  | timingChange
  | syncDetect
  | checkMode
  | searchMode
  | controlPacket
  | stableCheck
  deriving DecidableEq

/-- The fields `u16Input_HDE_Start`, `u16Input_VDE_Start`, `u8Input_SyncStatus`,
`u16Input_HPeriod`, `u16Input_VTotal`, `u16Input_HDE` and `u16Input_VDE`. -/
structure HdmiTiming where
  u16HDEStart : U16
  u16VDEStart : U16
  u8SyncStatus : U8
  u16HPeriod : U16
  u16VTotal : U16
  u16HDE : U16
  u16VDE : U16
  deriving DecidableEq

namespace HdmiTiming

/-- The frequencies of a timing, that of the fields doubled for an interlaced one. -/
def hFreq (t : HdmiTiming) : U16 := calculateHFreqX10 t.u16HPeriod

def vFreq (t : HdmiTiming) : U16 :=
  if t.u8SyncStatus &&& interlaceBit ≠ 0 then calculateVFreqX10 t.hFreq t.u16VTotal * 2
  else calculateVFreqX10 t.hFreq t.u16VTotal

end HdmiTiming

/-- The registers of a timing, as they are when each of them is read. -/
structure HdmiReading extends Readings where
  u16HDEStart : U16
  u16VDEStart : U16
  u16HDE : U16
  u16VDE : U16

/-- `SC_HDMI_CHECK_MASK` -/
def hdmiCheckMask : U8 := syncLoss ||| interlaceBit

def HdmiReading.timing (r : HdmiReading) : HdmiTiming where
  u16HDEStart := r.u16HDEStart
  u16VDEStart := r.u16VDEStart
  u8SyncStatus := getInputSyncStatus r.toReadings &&& hdmiCheckMask
  u16HPeriod := r.u16HPeriod
  u16VTotal := r.u16VTotal
  u16HDE := r.u16HDE
  u16VDE := r.u16VDE

/-- What one turn of the thread reads: `MHal_HDMI_GetModeRPT`, the registers of the timing
twice, `MHal_HDMI_DVISyncLoss`, and those of the packets. -/
structure HdmiTurn where
  modeRPT : Bool
  first : HdmiReading
  again : HdmiReading
  dviSyncLoss : Bool
  hdmist1 : U16
  isAVMUTE : Bool
  isChecksumOrBCHParityErr : Bool

/-- The fields of `SC_SOURCE_INFO_t` that the thread works on, and its static variables.
The last three fields record the stay in the search mode: the reading of the call before,
how many readings were not equal to the one before, and how many were equal to it outside
of the HDMI mode. -/
structure HdmiThread where
  u8ThreadState : HdmiState
  u8Debounce : U8
  u8PreSyncStatus : U8
  u8SearchModeCnt : U8
  u8ScResetCnt : U8
  u8NoPacketCnt : U8
  bAVMuteStatus : Bool
  input : HdmiTiming
  u16InputHFreq : U16
  u16InputVFreq : U16
  bHDMIMode : Bool
  bIsSupportMode : Bool
  before : Option HdmiTiming
  unequal : Nat
  dviEqual : Nat

/-- `restart` ends the thread and starts it again. -/
inductive HdmiStep where
  | turn (t : HdmiTurn)
  | restart

namespace HdmiThread

/-- Before the thread is first started, with the source as it happens to be. -/
def start (input : HdmiTiming) (u16InputHFreq u16InputVFreq : U16)
    (bHDMIMode bIsSupportMode : Bool) : HdmiThread where
  u8ThreadState := .init
  u8Debounce := 0
  u8PreSyncStatus := 0
  u8SearchModeCnt := 0
  u8ScResetCnt := 0
  u8NoPacketCnt := 0
  bAVMuteStatus := false
  input := input
  u16InputHFreq := u16InputHFreq
  u16InputVFreq := u16InputVFreq
  bHDMIMode := bHDMIMode
  bIsSupportMode := bIsSupportMode
  before := none
  unequal := 0
  dviEqual := 0

/-- `MDrv_TimingDataInit` and `MDrv_HDMI_InitVariables` -/
def dataInit (s : HdmiThread) : HdmiThread :=
  { s with
    input := ⟨0, 0, s.input.u8SyncStatus, 0, 0, 0, 0⟩
    u16InputHFreq := 0
    u16InputVFreq := 0
    bHDMIMode := false
    bIsSupportMode := false }

/-- The cases `SC_HDMI_INIT_STATE` and `SC_HDMI_TIMING_CHANGE_STATE`. -/
def initHandler (s : HdmiThread) : HdmiThread :=
  { s.dataInit with u8ThreadState := .debounce }

/-- `u8Debounce` after the comparison of `MDrv_HDMI_Debounce`. -/
def debounceCount (s : HdmiThread) (t : HdmiTurn) : U8 :=
  if t.first.timing.u8SyncStatus = s.u8PreSyncStatus then s.u8Debounce + 1 else 0

/-- The case `SC_HDMI_DEBOUNCE_STATE`, with `MDrv_HDMI_Debounce`. -/
def debounceHandler (s : HdmiThread) (t : HdmiTurn) : HdmiThread :=
  if s.debounceCount t > 7 then
    { s with
      u8Debounce := 0
      u8ThreadState := .syncDetect
      u8SearchModeCnt := 0
      u8ScResetCnt := 0 }
  else
    { s with
      u8Debounce := s.debounceCount t
      u8PreSyncStatus := t.first.timing.u8SyncStatus
      u8ThreadState := .debounce
      u8SearchModeCnt := 0
      u8ScResetCnt := 0 }

/-- `MDrv_HDMI_SyncDetectHandler` -/
def syncDetectHandler (s : HdmiThread) (t : HdmiTurn) : HdmiThread :=
  let u8SyncStatus :=
    if t.dviSyncLoss then t.first.timing.u8SyncStatus ||| syncLoss
    else t.first.timing.u8SyncStatus
  { s with
    input := { s.input with u8SyncStatus := u8SyncStatus }
    u8ThreadState := if u8SyncStatus &&& syncLoss ≠ 0 then .debounce else .checkMode }

/-- `MDrv_HDMI_CheckModeHandler` -/
def checkModeHandler (s : HdmiThread) (t : HdmiTurn) : HdmiThread :=
  { s with
    bHDMIMode := t.modeRPT
    bAVMuteStatus := false
    u8NoPacketCnt := 0
    u8ThreadState := .searchMode }

/-- The limits of the mode. -/
def inLimits (bHDMIMode : Bool) (hFreq vFreq vTotal hde vde : U16) : Bool :=
  ¬ (hFreq > (if bHDMIMode then 770 else 840) ∨ hFreq < 140 ∨
    vFreq > 770 ∨ vFreq < 230 ∨
    vTotal > (if bHDMIMode then 1300 else 1250) ∨ vTotal < 250 ∨
    hde > 1930 ∨ vde > 1210)

/-- The end of `MDrv_HDMI_SearchModeHandler`, for the timing read again. -/
def decided (s : HdmiThread) : HdmiThread :=
  if inLimits s.bHDMIMode s.u16InputHFreq s.u16InputVFreq s.input.u16VTotal s.input.u16HDE
      s.input.u16VDE then
    { s with
      bIsSupportMode := true
      u8ThreadState := if s.bHDMIMode then .controlPacket else .stableCheck }
  else
    { s with bIsSupportMode := false, u8ThreadState := .stableCheck }

/-- `MDrv_HDMI_SearchModeHandler`: the frequencies are those of the stored timing, and
each field of the timing that differs is stored. -/
def searchModeHandler (s : HdmiThread) (t : HdmiTurn) : HdmiThread :=
  let searched :=
    { s with
      u16InputHFreq := s.input.hFreq
      u16InputVFreq := s.input.vFreq
      input := t.first.timing }
  if t.first.timing ≠ s.input then
    if s.u8SearchModeCnt > 10 then
      { searched with input := t.again.timing, u8SearchModeCnt := 0 }.decided
    else { searched with u8SearchModeCnt := s.u8SearchModeCnt + 1 }
  else if t.modeRPT then { searched with input := t.again.timing }.decided
  else if s.u8SearchModeCnt > 5 then
    { searched with input := t.again.timing, u8SearchModeCnt := 0 }.decided
  else { searched with u8SearchModeCnt := s.u8SearchModeCnt + 1 }

/-- `MDrv_HDMI_ControlPacketHandler`, with the handlers it calls. -/
def controlPacketHandler (s : HdmiThread) (t : HdmiTurn) : HdmiThread :=
  let noted :=
    if t.hdmist1 &&& 0x10 ≠ 0 then { s with bAVMuteStatus := t.isAVMUTE }
    else if s.u8NoPacketCnt + 1 > 30 then { s with bAVMuteStatus := false, u8NoPacketCnt := 0 }
    else { s with u8NoPacketCnt := s.u8NoPacketCnt + 1 }
  { noted with
    u8ThreadState :=
      if noted.bAVMuteStatus then .stableCheck
      else if t.hdmist1 &&& 0x08 ≠ 0 ∨ t.hdmist1 &&& 0x100 ≠ 0 then .stableCheck
      else if t.isChecksumOrBCHParityErr then .controlPacket
      else .stableCheck }

/-- The comparisons of `MDrv_HDMI_StableCheckHandler`, with the field that the first of
them that fails stores. -/
def timingChanged (s : HdmiThread) (t : HdmiTurn) : Option HdmiThread :=
  if s.bHDMIMode ≠ t.modeRPT then some { s with bHDMIMode := t.modeRPT }
  else if t.first.timing.u8SyncStatus ≠ s.input.u8SyncStatus then
    some { s with input := { s.input with u8SyncStatus := t.first.timing.u8SyncStatus } }
  else if subtractAbs t.first.u16HPeriod s.input.u16HPeriod > 10 then
    some { s with input := { s.input with u16HPeriod := t.first.u16HPeriod } }
  else if subtractAbs t.first.u16VTotal s.input.u16VTotal > 10 then
    some { s with input := { s.input with u16VTotal := t.first.u16VTotal } }
  else if subtractAbs t.first.u16HDE s.input.u16HDE > 0 then
    some { s with input := { s.input with u16HDE := t.first.u16HDE } }
  else if subtractAbs t.first.u16VDE s.input.u16VDE > 0 then
    some { s with input := { s.input with u16VDE := t.first.u16VDE } }
  else none

/-- The frequencies of `MDrv_HDMI_UpdateTimingInfo`. -/
def updateTimingInfo (s : HdmiThread) : HdmiThread :=
  { s with u16InputHFreq := s.input.hFreq, u16InputVFreq := s.input.vFreq }

/-- `MDrv_HDMI_StableCheckHandler` -/
def stableCheckHandler (s : HdmiThread) (t : HdmiTurn) : HdmiThread :=
  match s.timingChanged t with
  | some changed => { changed with u8ThreadState := .timingChange }
  | none =>
      let u8ScResetCnt :=
        if t.first.timing.u8SyncStatus &&& syncLoss ≠ 0 then s.u8ScResetCnt + 1
        else s.u8ScResetCnt
      if u8ScResetCnt > 5 then
        { s with u8ScResetCnt := 0, u8ThreadState := .timingChange }
      else
        let updated :=
          if s.bAVMuteStatus then { s with u8ScResetCnt := u8ScResetCnt }
          else { s with u8ScResetCnt := u8ScResetCnt }.updateTimingInfo
        { updated with
          u8ThreadState :=
            if s.bHDMIMode ∧ s.bIsSupportMode then .controlPacket else .stableCheck }

/-- A call of the search mode in the record of the stay. -/
def recorded (s : HdmiThread) (t : HdmiTurn) : HdmiThread :=
  { s with
    before := some t.first.timing
    unequal := if s.before = some t.first.timing then s.unequal else s.unequal + 1
    dviEqual :=
      if s.before = some t.first.timing ∧ t.modeRPT = false then s.dviEqual + 1
      else s.dviEqual }

/-- No stay in the search mode. -/
def outside (s : HdmiThread) : HdmiThread :=
  { s with before := none, unequal := 0, dviEqual := 0 }

/-- One turn of the loop of `MDrv_HDMI_Thread`. -/
def turn (s : HdmiThread) (t : HdmiTurn) : HdmiThread :=
  match s.u8ThreadState with
  | .init | .timingChange => s.outside.initHandler
  | .debounce => s.outside.debounceHandler t
  | .syncDetect => s.outside.syncDetectHandler t
  | .checkMode => s.outside.checkModeHandler t
  | .searchMode => (s.recorded t).searchModeHandler t
  | .controlPacket => s.outside.controlPacketHandler t
  | .stableCheck => s.outside.stableCheckHandler t

def after (s : HdmiThread) : HdmiStep → HdmiThread
  | .turn t => s.turn t
  | .restart => { s with u8ThreadState := .init }

/-! ### The law -/

/-- The stored timing is supported as it is marked, with the frequencies stored. -/
structure Decides (s : HdmiThread) : Prop where
  support : s.bIsSupportMode = true ↔
    inLimits s.bHDMIMode s.input.hFreq s.input.vFreq s.input.u16VTotal s.input.u16HDE
      s.input.u16VDE = true
  hFreq : s.u16InputHFreq = s.input.hFreq
  vFreq : s.u16InputVFreq = s.input.vFreq

/-- A turn that leaves the search mode decides on the stored timing, and its reading is
equal to the one before or more than ten readings of the stay were not. -/
def Law (s : HdmiThread) : HdmiStep → Prop
  | .turn t => s.u8ThreadState = .searchMode → (s.turn t).u8ThreadState ≠ .searchMode →
      (s.turn t).Decides ∧ (s.before = some t.first.timing ∨ 10 < (s.turn t).unequal)
  | .restart => True

/-- The calls of the search mode that decide. -/
def Leaves (s : HdmiThread) (t : HdmiTurn) : Prop :=
  s.u8ThreadState = .searchMode ∧
    if t.first.timing = s.input then t.modeRPT = true ∨ s.u8SearchModeCnt > 5
    else s.u8SearchModeCnt > 10

/-- A call that decides has one before it in its stay; the timing it reads again has the
frequencies of the reading before; and if its own reading is a different one, then at most
one call of the stay was outside of the HDMI mode with a reading equal to the one before. -/
def Settled (s : HdmiThread) : HdmiStep → Prop
  | .turn t => s.Leaves t → ∃ before, s.before = some before ∧
      t.again.timing.hFreq = before.hFreq ∧ t.again.timing.vFreq = before.vFreq ∧
      (t.first.timing ≠ before → s.dviEqual ≤ 1)
  | .restart => True

/-- What the counter has counted. -/
structure Counted (s : HdmiThread) : Prop where
  entered : s.u8ThreadState = .syncDetect ∨ s.u8ThreadState = .checkMode →
    s.u8SearchModeCnt = 0
  counter : s.u8ThreadState = .searchMode →
    s.u8SearchModeCnt.toNat = s.unequal + s.dviEqual ∧ s.u8SearchModeCnt.toNat ≤ 11
  stored : s.u8ThreadState = .searchMode → ∀ before ∈ s.before, s.input = before
  first : s.u8ThreadState = .searchMode → s.before = none → s.unequal + s.dviEqual = 0

variable {s : HdmiThread} {t : HdmiTurn}

section Decided

@[simp]
theorem decided_input : s.decided.input = s.input := by
  unfold decided
  split <;> simp

@[simp]
theorem decided_unequal : s.decided.unequal = s.unequal := by
  unfold decided
  split <;> simp

theorem decided_state :
    s.decided.u8ThreadState = .controlPacket ∨ s.decided.u8ThreadState = .stableCheck := by
  unfold decided
  split
  · dsimp only
    split <;> simp
  · simp

/-- The decision is one on the stored timing if it has the stored frequencies. -/
theorem decides_decided_iff :
    s.decided.Decides ↔ s.u16InputHFreq = s.input.hFreq ∧ s.u16InputVFreq = s.input.vFreq := by
  have fields : s.decided.u16InputHFreq = s.u16InputHFreq ∧
      s.decided.u16InputVFreq = s.u16InputVFreq ∧ s.decided.bHDMIMode = s.bHDMIMode ∧
      s.decided.bIsSupportMode = inLimits s.bHDMIMode s.u16InputHFreq s.u16InputVFreq
        s.input.u16VTotal s.input.u16HDE s.input.u16VDE := by
    unfold decided
    split <;> simp_all
  obtain ⟨hFreq, vFreq, mode, support⟩ := fields
  constructor
  · intro decides
    have same := And.intro decides.hFreq decides.vFreq
    rwa [hFreq, vFreq, decided_input] at same
  · intro ⟨sameH, sameV⟩
    constructor
    · rw [support, mode, decided_input, sameH, sameV]
    · rw [hFreq, decided_input, sameH]
    · rw [vFreq, decided_input, sameV]

end Decided

section SearchMode

/-- A call of the search mode, up to the counter. -/
theorem turn_of_leaves (leaves : s.Leaves t) :
    ∃ u8SearchModeCnt, s.turn t =
      { s.recorded t with
        u16InputHFreq := s.input.hFreq
        u16InputVFreq := s.input.vFreq
        input := t.again.timing
        u8SearchModeCnt := u8SearchModeCnt }.decided := by
  obtain ⟨search, decides⟩ := leaves
  unfold turn searchModeHandler
  simp only [search, recorded]
  by_cases same : t.first.timing = s.input
  · rw [if_pos same] at decides
    rw [if_neg (not_not.mpr same)]
    by_cases mode : t.modeRPT = true
    · rw [if_pos mode]
      exact ⟨s.u8SearchModeCnt, by simp⟩
    · rw [if_neg mode, if_pos (decides.resolve_left mode)]
      exact ⟨0, by simp⟩
  · rw [if_neg same] at decides
    rw [if_pos same, if_pos decides]
    exact ⟨0, by simp⟩

theorem turn_of_stays (search : s.u8ThreadState = .searchMode) (stays : ¬ s.Leaves t) :
    s.turn t =
      { s.recorded t with
        u16InputHFreq := s.input.hFreq
        u16InputVFreq := s.input.vFreq
        input := t.first.timing
        u8SearchModeCnt := s.u8SearchModeCnt + 1 } := by
  have stays := fun decides => stays ⟨search, decides⟩
  unfold turn searchModeHandler
  simp only [search, recorded]
  by_cases same : t.first.timing = s.input
  · rw [if_pos same] at stays
    rw [if_neg (not_not.mpr same), if_neg (fun mode => stays (Or.inl mode)),
      if_neg (fun late => stays (Or.inr late))]
  · rw [if_neg same] at stays
    rw [if_pos same, if_neg stays]

theorem turn_leaves_iff (search : s.u8ThreadState = .searchMode) :
    (s.turn t).u8ThreadState ≠ .searchMode ↔ s.Leaves t := by
  by_cases leaves : s.Leaves t
  · obtain ⟨count, left⟩ := turn_of_leaves leaves
    rw [left]
    obtain packet | stable := decided_state
    · exact iff_of_true (by rw [packet]; simp) leaves
    · exact iff_of_true (by rw [stable]; simp) leaves
  · rw [turn_of_stays search leaves]
    simp [recorded, search, leaves]

end SearchMode

theorem law_of_leaves (leaves : s.Leaves t) :
    s.Law (.turn t) ↔
      (s.input.hFreq = t.again.timing.hFreq ∧ s.input.vFreq = t.again.timing.vFreq) ∧
        (s.before = some t.first.timing ∨ 10 < (s.recorded t).unequal) := by
  obtain ⟨count, left⟩ := turn_of_leaves leaves
  have gone := (turn_leaves_iff leaves.1).mpr leaves
  have same : s.Law (.turn t) ↔ (s.turn t).Decides ∧
      (s.before = some t.first.timing ∨ 10 < (s.turn t).unequal) :=
    ⟨fun law => law leaves.1 gone, fun met _ _ => met⟩
  rw [same, left, decides_decided_iff, decided_unequal]

theorem law_of_stays (stays : ¬ s.Leaves t) : s.Law (.turn t) := fun search gone =>
  absurd ((turn_leaves_iff search).mp gone) stays

/-- The law of one step is the condition on its readings. -/
theorem law_iff_settled (counted : s.Counted) (step : HdmiStep) :
    s.Law step ↔ s.Settled step := by
  cases step with
  | restart => simp [Law, Settled]
  | turn t =>
      by_cases leaves : s.Leaves t
      · rw [law_of_leaves leaves]
        simp only [Settled, leaves, true_implies]
        have search := leaves.1
        cases noted : s.before with
        | none =>
            have first := counted.first search noted
            simp only [recorded, noted]
            simp
            omega
        | some previous =>
            have stored := counted.stored search previous noted
            obtain ⟨counter, limit⟩ := counted.counter search
            simp only [Option.some.injEq, exists_eq_left', stored, recorded, noted]
            by_cases equal : previous = t.first.timing
            · simp [equal, eq_comm]
            · have late := leaves.2
              rw [stored, if_neg (Ne.symm equal)] at late
              have late : 10 < s.u8SearchModeCnt.toNat := late
              rw [if_neg equal, or_iff_right equal]
              have count : 10 < s.unequal + 1 ↔ s.dviEqual ≤ 1 := by
                omega
              rw [count]
              simp only [ne_eq, Ne.symm equal, not_false_eq_true, true_implies, eq_comm,
                and_assoc]
      · simp only [Settled, leaves, false_implies, iff_true]
        exact law_of_stays leaves

section Counting

/-- The counter matters between the debouncing and the decision only. -/
theorem Counted.of_elsewhere (elsewhere : s.u8ThreadState ≠ .syncDetect ∧
    s.u8ThreadState ≠ .checkMode ∧ s.u8ThreadState ≠ .searchMode) : s.Counted := by
  constructor <;> simp [elsewhere]

theorem counted_debounceHandler : (s.debounceHandler t).Counted := by
  unfold debounceHandler
  split
  · constructor <;> simp
  · exact Counted.of_elsewhere (by simp)

theorem counted_syncDetectHandler (reset : s.u8SearchModeCnt = 0) :
    (s.syncDetectHandler t).Counted := by
  unfold syncDetectHandler
  dsimp only
  split <;> split <;> constructor <;> simp [reset]

theorem counted_checkModeHandler (reset : s.u8SearchModeCnt = 0) :
    (s.outside.checkModeHandler t).Counted := by
  constructor <;> simp [checkModeHandler, outside, reset]

theorem counted_controlPacketHandler : (s.controlPacketHandler t).Counted := by
  apply Counted.of_elsewhere
  unfold controlPacketHandler
  dsimp only
  split_ifs <;> simp

theorem counted_stableCheckHandler : (s.stableCheckHandler t).Counted := by
  apply Counted.of_elsewhere
  unfold stableCheckHandler
  cases s.timingChanged t with
  | some changed => simp
  | none =>
      dsimp only
      split_ifs <;> simp

theorem counted_searchMode (counted : s.Counted) (search : s.u8ThreadState = .searchMode) :
    (s.turn t).Counted := by
  by_cases leaves : s.Leaves t
  · obtain ⟨count, left⟩ := turn_of_leaves leaves
    rw [left]
    apply Counted.of_elsewhere
    obtain packet | stable := decided_state
    · rw [packet]
      simp
    · rw [stable]
      simp
  · rw [turn_of_stays search leaves]
    obtain ⟨counter, limit⟩ := counted.counter search
    have stays : ¬ (if t.first.timing = s.input then t.modeRPT = true ∨ s.u8SearchModeCnt > 5
        else s.u8SearchModeCnt > 10) :=
      fun decides => leaves ⟨search, decides⟩
    constructor
    · simp [recorded, search]
    · intro _
      simp only [recorded]
      by_cases noted : s.before = some t.first.timing
      · have same := counted.stored search _ noted
        rw [same, if_pos rfl, not_or, Bool.not_eq_true] at stays
        rw [if_pos noted, if_pos ⟨noted, stays.1⟩]
        bv_omega
      · rw [if_neg noted, if_neg fun both => noted both.1]
        split at stays <;> bv_omega
    · simp [recorded]
    · simp [recorded]

theorem counted_after (counted : s.Counted) (step : HdmiStep) : (s.after step).Counted := by
  cases step with
  | restart => exact Counted.of_elsewhere (by simp [after])
  | turn t =>
      cases state : s.u8ThreadState with
      | searchMode => exact counted_searchMode counted state
      | init | timingChange =>
          simp only [after, turn, state]
          exact Counted.of_elsewhere (by simp [initHandler])
      | debounce =>
          simp only [after, turn, state]
          exact counted_debounceHandler
      | syncDetect =>
          simp only [after, turn, state]
          exact counted_syncDetectHandler (counted.entered (Or.inl state))
      | checkMode =>
          simp only [after, turn, state]
          exact counted_checkModeHandler (counted.entered (Or.inr state))
      | controlPacket =>
          simp only [after, turn, state]
          exact counted_controlPacketHandler
      | stableCheck =>
          simp only [after, turn, state]
          exact counted_stableCheckHandler

end Counting

/-- Every decision fits the stored timing exactly when every call that decides has read the
frequencies it has stored, and follows a call of its stay with the same reading or at most
one equal reading outside of the HDMI mode. -/
theorem decisions_iff (input : HdmiTiming) (u16InputHFreq u16InputVFreq : U16)
    (bHDMIMode bIsSupportMode : Bool) (steps : List HdmiStep) :
    Run.Meets after Law (start input u16InputHFreq u16InputVFreq bHDMIMode bIsSupportMode)
        steps ↔
      Run.Meets after Settled
        (start input u16InputHFreq u16InputVFreq bHDMIMode bIsSupportMode) steps :=
  Run.meets_congr (fun _ step counted => law_iff_settled counted step)
    (fun _ step counted _ => counted_after counted step)
    (Counted.of_elsewhere (by simp [start]))

/-- 1920x1080 at 60 Hz. -/
def reading1080p : HdmiReading where
  u16HPeriod := 178
  u16VTotal := 1125
  u16SyncHPeriod := 178
  u16SyncVTotal := 1125
  u16DetectStatus := 0
  u16HDEStart := 192
  u16VDEStart := 41
  u16HDE := 1920
  u16VDE := 1080

/-- A turn in HDMI mode whose second reading is another one. -/
def turn1080p (again : HdmiReading) : HdmiStep :=
  .turn ⟨true, reading1080p, again, false, 0, false, false⟩

/-- The lines get shorter between the two readings of the call that decides: the stored
timing of 120 kHz is marked as supported. -/
theorem shorterLines_supported :
    ¬ Run.Meets after Law (start ⟨0, 0, 0, 0, 0, 0, 0⟩ 0 0 false false)
      (List.replicate 12 (turn1080p reading1080p) ++
        [turn1080p { reading1080p with u16HPeriod := 100 }]) := by
  intro meets
  have decides := ((Run.meets_append.mp meets).2.1 (by decide +kernel) (by decide +kernel)).1
  exact absurd decides.hFreq (by decide +kernel)

end HdmiThread

end Gp2Firmware.Scaler
