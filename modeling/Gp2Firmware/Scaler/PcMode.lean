import Mathlib.Logic.Function.Basic
import Gp2Firmware.Lib.Run
import Gp2Firmware.Scaler.ModeTable

/-!
# The PC mode thread and the mode table

The state machine of `MDrv_SC_PCMode_Thread` of `mdrv_scaler_pcmode.c`, with
`MDrv_SC_PCMode_SetModeTable` and `MDrv_SC_PCMode_SetResolutionIndex` between its
steps.
-/

namespace Gp2Firmware.Scaler

/-- `SC_PCMODE_STATE_e` -/
inductive PcModeState where
  | init
  | debounce
  | timingChange
  | syncDetect
  | searchMode
  | resolutionChange
  | supported
  | unsupported
  | stableCheck
  deriving DecidableEq

/-- The events that the thread raises. -/
inductive ScEvent where
  | timingChange
  | pcmodeSupported
  | pcmodeUnsupported
  deriving DecidableEq

/-- What `MDrv_SC_UpdateTimingInfo` tells the application. -/
structure ScTiming where
  u16HFreq : U16
  u16VFreq : U16
  u16HPeriod : U16
  u16VTotal : U16
  u16HStart : U16
  u16VStart : U16
  u16HCapSize : U16
  u16VCapSize : U16
  u8SyncStatus : U8
  u8Phase : U8

/-- The fields of `SC_SOURCE_INFO_t` that the thread works on. -/
structure SourceInfo where
  srcType : InputSource
  u8InputSyncStatus : U8
  u16InputHPeriod : U16
  u16InputVTotal : U16
  u16InputHFreq : U16
  u16InputVFreq : U16
  u8ModeIdx : U8
  bIsSupportMode : Bool
  modesetting : ModeSetting
  timing : ScTiming

/-- The registers that one turn of the thread reads: the first two by a handler, the
others by `MDrv_SC_IP1_GetInputSyncStatus`. -/
structure Readings where
  u16HPeriod : U16
  u16VTotal : U16
  u16SyncHPeriod : U16
  u16SyncVTotal : U16
  u16DetectStatus : U16

/-- What memory holds behind `astStandardModeResolution`, and where a pointer to a
table leads that is not live. -/
structure Memory where
  behind : U8 → U16 × U16
  stale : Nat → ModeEntry

/-- A table whose number of entries fits `u8TableCount`. -/
structure ModeTable where
  entries : List ModeEntry
  small : entries.length < 256

/-- The source, the thread with its static variables, and the tables: those that
`kmalloc` has given and `kfree` not taken back, and the two pointers.  `events` are
the events raised so far, the last one first. -/
structure PcMode where
  src : SourceInfo
  u8ThreadState : PcModeState
  u8Debounce : U8
  u8PreSyncStatus : U8
  u16SavedResolutionIndex : U16
  sysValPCResolution : U16
  tables : Nat → Option ModeTable
  allocated : Nat
  modeTablePtr : Option Nat
  gModeTablePtr : Option Nat
  gModeTableSize : Nat
  events : List ScEvent

inductive PcModeStep where
  | thread (readings : Readings) (memory : Memory)
  | setModeTable (table : ModeTable) (kmalloc : Bool)
  | setResolutionIndex (value : U16)

def syncLoss : U8 := 0x04 ||| 0x08
def interlaceBit : U8 := 0x10

/-- `MDrv_SC_IP1_GetInputSyncStatus` -/
def getInputSyncStatus (r : Readings) : U8 :=
  (if r.u16SyncHPeriod < 10 then 0x04 else 0) ||| (if r.u16SyncVTotal < 200 then 0x08 else 0) |||
    (if r.u16DetectStatus &&& 0x0100 ≠ 0 then 0x01 else 0) |||
      (if r.u16DetectStatus &&& 0x0200 ≠ 0 then 0x02 else 0) |||
        (if r.u16DetectStatus &&& 0x0800 ≠ 0 then interlaceBit else 0)

/-- `MDrv_SC_CalculateHFreqX10` -/
def calculateHFreqX10 (wHPeriod : U16) : U16 :=
  if wHPeriod ≠ 0 then
    BitVec.ofNat 16 ((12000000 + wHPeriod.toNat / 2) / wHPeriod.toNat / 100)
  else 1

/-- `MDrv_SC_CalculateVFreqX10` -/
def calculateVFreqX10 (wHFreq wVTotal : U16) : U16 :=
  if wHFreq > 0 ∧ wVTotal > 0 then
    BitVec.ofNat 16 ((wHFreq.toNat * 1000 + wVTotal.toNat / 2) / wVTotal.toNat)
  else 0

namespace SourceInfo

/-- `MDrv_TimingDataInit` -/
def timingDataInit (src : SourceInfo) : SourceInfo :=
  { src with
    bIsSupportMode := false
    u16InputHFreq := 0
    u16InputVFreq := 0
    u16InputHPeriod := 0
    u16InputVTotal := 0
    u8ModeIdx := 0xFF
    timing := ⟨0, 0, 0, 0, 0, 0, 0, 0, 0, 0⟩ }

/-- The signal as the handlers pass it to `MDrv_SC_PCMode_MatchMode`. -/
def measured (src : SourceInfo) : Measured :=
  ⟨src.u16InputHFreq, src.u16InputVFreq, src.u16InputVTotal, src.u8InputSyncStatus⟩

/-- The measurement of `MDrv_SC_PCMode_SearchModeHandler`. -/
def measure (src : SourceInfo) (r : Readings) : SourceInfo :=
  { src with
    u16InputHPeriod := r.u16HPeriod
    u16InputVTotal := r.u16VTotal
    u16InputHFreq := calculateHFreqX10 r.u16HPeriod
    u16InputVFreq :=
      if getInputSyncStatus r &&& interlaceBit ≠ 0 then
        calculateVFreqX10 (calculateHFreqX10 r.u16HPeriod) r.u16VTotal * 2
      else calculateVFreqX10 (calculateHFreqX10 r.u16HPeriod) r.u16VTotal
    u8InputSyncStatus := getInputSyncStatus r }

/-- The limits of the sync range. -/
def outOfRange (src : SourceInfo) : Bool :=
  if src.srcType.isVga then
    src.u16InputHFreq > 840 ∨ src.u16InputHFreq < 270 ∨
      src.u16InputVFreq > 770 ∨ src.u16InputVFreq < 470 ∨
        src.u16InputVTotal > 1250 ∨ src.u16InputVTotal < 415 ∨
          src.u8InputSyncStatus &&& interlaceBit ≠ 0
  else
    src.u16InputHFreq > 700 ∨ src.u16InputHFreq < 140 ∨
      src.u16InputVFreq > 770 ∨ src.u16InputVFreq < 230 ∨
        src.u16InputVTotal > 1300 ∨ src.u16InputVTotal < 250

/-- `MDrv_SC_PCMode_StableSyncCheckHandler` finds the signal unchanged. -/
def unchanged (src : SourceInfo) (r : Readings) : Bool :=
  getInputSyncStatus r = src.u8InputSyncStatus ∧
    subtractAbs r.u16HPeriod src.u16InputHPeriod ≤ 10 ∧
      subtractAbs r.u16VTotal src.u16InputVTotal ≤ 10

/-- `MDrv_SC_UpdateTimingInfo`, with the entry at `u8ModeIdx`. -/
def updateTimingInfo (src : SourceInfo) (behind : U8 → U16 × U16) (entry : ModeEntry) :
    SourceInfo :=
  { src with
    timing :=
      if src.bIsSupportMode then
        { u16HFreq := src.u16InputHFreq
          u16VFreq := src.u16InputVFreq
          u16HPeriod := src.modesetting.u16HorizontalTotal
          u16VTotal := src.modesetting.u16VerticalTotal
          u16HStart := src.modesetting.u16HorizontalStart
          u16VStart := src.modesetting.u16VerticalStart
          u16HCapSize := (displaySize behind entry.u8ResIdx).1
          u16VCapSize := (displaySize behind entry.u8ResIdx).2
          u8SyncStatus := src.u8InputSyncStatus
          u8Phase := src.modesetting.u8Phase }
      else
        { u16HFreq := src.u16InputHFreq
          u16VFreq := src.u16InputVFreq
          u16HPeriod := 0
          u16VTotal := 0
          u16HStart := 0
          u16VStart := 0
          u16HCapSize := 0xffe
          u16VCapSize := 0xffe
          u8SyncStatus := 0
          u8Phase := 0 } }

end SourceInfo

namespace PcMode

/-- Before the first table is set, with the source as it happens to be. -/
def init (src : SourceInfo) (saved sysVal : U16) : PcMode where
  src := src
  u8ThreadState := .init
  u8Debounce := 0
  u8PreSyncStatus := 0
  u16SavedResolutionIndex := saved
  sysValPCResolution := sysVal
  tables := fun _ => none
  allocated := 0
  modeTablePtr := none
  gModeTablePtr := none
  gModeTableSize := 0
  events := []

/-- The table that `g_ModeTablePtr` refers to, if it is live. -/
def liveTable (s : PcMode) : Option ModeTable := s.gModeTablePtr.bind s.tables

/-- `g_ModeTablePtr[i]` -/
def entry (s : PcMode) (stale : Nat → ModeEntry) (i : Nat) : ModeEntry :=
  match s.liveTable with
  | some table => table.entries.getD i (stale i)
  | none => stale i

/-- `MDrv_SC_PCMode_MatchMode` with the fields it changes. -/
def matched (s : PcMode) (memory : Memory) (src : SourceInfo) : U8 × ModeSetting :=
  matchMode memory.behind src.srcType s.sysValPCResolution src.modesetting src.measured
    (s.entry memory.stale) s.gModeTableSize

def goTo (s : PcMode) (state : PcModeState) (src : SourceInfo) : PcMode :=
  { s with u8ThreadState := state, src := src }

/-- `MDrv_SC_WakeupEvent` -/
def raise (s : PcMode) (event : ScEvent) : PcMode := { s with events := event :: s.events }

/-- `MDrv_SC_PCMode_Debounce` -/
def debounceHandler (s : PcMode) (r : Readings) : PcMode :=
  if (if getInputSyncStatus r = s.u8PreSyncStatus then s.u8Debounce + 1 else 0) > 3 then
    { s with u8Debounce := 0, u8ThreadState := .syncDetect }
  else
    { s with
      u8Debounce :=
        if getInputSyncStatus r = s.u8PreSyncStatus then s.u8Debounce + 1 else 0
      u8PreSyncStatus := getInputSyncStatus r
      u8ThreadState := .debounce }

/-- The case `SC_PCMODE_TIMING_CHANGE_STATE`. -/
def timingChangeHandler (s : PcMode) : PcMode :=
  if s.u16SavedResolutionIndex ≠ s.sysValPCResolution then
    { s.goTo .timingChange s.src.timingDataInit with
      u16SavedResolutionIndex := s.sysValPCResolution }
  else (s.raise .timingChange).goTo .syncDetect s.src.timingDataInit

/-- `MDrv_SC_PCMode_SyncDetectHandler` -/
def syncDetectHandler (s : PcMode) (r : Readings) : PcMode :=
  if getInputSyncStatus r &&& syncLoss ≠ 0 then
    s.goTo .syncDetect
      { s.src with u8InputSyncStatus := getInputSyncStatus r }.timingDataInit
  else s.goTo .searchMode { s.src with u8InputSyncStatus := getInputSyncStatus r }

/-- The end of `MDrv_SC_PCMode_SearchModeHandler`. -/
def searchMatch (s : PcMode) (memory : Memory) (src : SourceInfo) : PcMode :=
  if (s.matched memory src).1 = 0xFF then
    s.goTo .unsupported
      { src with
        u8ModeIdx := (s.matched memory src).1
        modesetting := (s.matched memory src).2
        bIsSupportMode := false }
  else
    s.goTo .supported
      { src with
        u8ModeIdx := (s.matched memory src).1
        modesetting := (s.matched memory src).2
        bIsSupportMode := true }

/-- `MDrv_SC_PCMode_SearchModeHandler` -/
def searchModeHandler (s : PcMode) (r : Readings) (memory : Memory) : PcMode :=
  if getInputSyncStatus r &&& syncLoss ≠ 0 then
    s.goTo .syncDetect (s.src.measure r).timingDataInit
  else if (s.src.measure r).outOfRange then
    s.goTo .unsupported { s.src.measure r with u8ModeIdx := 0xFF, bIsSupportMode := false }
  else s.searchMatch memory (s.src.measure r)

/-- `MDrv_SC_PCMode_ResolutionChangeHandler` -/
def resolutionChangeHandler (s : PcMode) (memory : Memory) : PcMode :=
  if (s.matched memory s.src).1 = 0xFF then
    s.goTo .unsupported
      { s.src with
        u8ModeIdx := (s.matched memory s.src).1
        modesetting := (s.matched memory s.src).2 }
  else
    s.goTo .supported
      { s.src with
        u8ModeIdx := (s.matched memory s.src).1
        modesetting := (s.matched memory s.src).2 }

/-- The case `SC_PCMODE_STABLE_CHECK_STATE`, with
`MDrv_SC_PCMode_StableSyncCheckHandler`. -/
def stableCheckHandler (s : PcMode) (r : Readings) (memory : Memory) : PcMode :=
  if s.u16SavedResolutionIndex ≠ s.sysValPCResolution then
    { s with
      u8ThreadState := .resolutionChange
      u16SavedResolutionIndex := s.sysValPCResolution }
  else if s.src.unchanged r then
    s.goTo .stableCheck
      (s.src.updateTimingInfo memory.behind
        (s.entry memory.stale s.src.u8ModeIdx.toNat))
  else
    s.goTo .timingChange
      { s.src with u8InputSyncStatus := getInputSyncStatus r, u8ModeIdx := 0xFF }

/-- One turn of the loop of `MDrv_SC_PCMode_Thread`. -/
def threadStep (s : PcMode) (r : Readings) (memory : Memory) : PcMode :=
  match s.u8ThreadState with
  | .init => s.goTo .debounce s.src.timingDataInit
  | .debounce => s.debounceHandler r
  | .timingChange => s.timingChangeHandler
  | .syncDetect => s.syncDetectHandler r
  | .searchMode => s.searchModeHandler r memory
  | .resolutionChange => s.resolutionChangeHandler memory
  | .supported => (s.raise .pcmodeSupported).goTo .stableCheck s.src
  | .unsupported => (s.raise .pcmodeUnsupported).goTo .stableCheck s.src
  | .stableCheck => s.stableCheckHandler r memory

/-- `kfree` -/
def freed (s : PcMode) : Nat → Option ModeTable :=
  match s.modeTablePtr with
  | none => s.tables
  | some pointer => Function.update s.tables pointer none

/-- `MDrv_SC_PCMode_SetModeTable`, for a `kmalloc` that succeeds or fails. -/
def setModeTable (s : PcMode) (table : ModeTable) (kmalloc : Bool) : PcMode :=
  if kmalloc then
    { s with
      tables := Function.update s.freed s.allocated (some table)
      allocated := s.allocated + 1
      modeTablePtr := some s.allocated
      gModeTablePtr := some s.allocated
      gModeTableSize := table.entries.length }
  else { s with tables := s.freed, modeTablePtr := none }

def after (s : PcMode) : PcModeStep → PcMode
  | .thread r memory => s.threadStep r memory
  | .setModeTable table kmalloc => s.setModeTable table kmalloc
  | .setResolutionIndex value => { s with sysValPCResolution := value }

/-! ### The law -/

/-- The last of the two events about the mode. -/
def lastRaised (s : PcMode) : Option ScEvent := s.events.find? (· ≠ .timingChange)

/-- `MDrv_SC_UpdateTimingInfo` indexes the table in this turn. -/
def Indexes (s : PcMode) (r : Readings) : Prop :=
  s.u8ThreadState = .stableCheck ∧ s.u16SavedResolutionIndex = s.sysValPCResolution ∧
    s.src.unchanged r = true ∧ s.src.bIsSupportMode = true

/-- `g_ModeTablePtr` refers to a live table with an entry at `u8ModeIdx`. -/
def Inside (s : PcMode) : Prop :=
  ∃ table, s.liveTable = some table ∧ s.src.u8ModeIdx.toNat < table.entries.length

/-- In the stable state the event, the flag and the index say the same. -/
def Consistent (s : PcMode) : Prop :=
  s.u8ThreadState = .stableCheck →
    (s.lastRaised = some .pcmodeSupported ↔ s.src.bIsSupportMode = true) ∧
      (s.src.bIsSupportMode = true ↔ s.src.u8ModeIdx ≠ 0xFF)

/-- The table is indexed only inside, and the state after the step is consistent. -/
def Law (s : PcMode) (step : PcModeStep) : Prop :=
  (∀ r memory, step = .thread r memory → s.Indexes r → s.Inside) ∧
    (s.after step).Consistent

/-- An index that the application may be told of, or that it has been told of. -/
def InUse (s : PcMode) : Prop :=
  (s.u8ThreadState = .supported ∨ s.u8ThreadState = .stableCheck) ∧
    s.src.bIsSupportMode = true

/-- No entry that fits the signal is redirected behind the end of the table. -/
def Redirects (s : PcMode) (memory : Memory) (src : SourceInfo) : Prop :=
  FixedInside src.srcType s.sysValPCResolution src.measured (s.entry memory.stale)
    s.gModeTableSize

/-- A table is replaced by one that has the index in use, and `kmalloc` fails only
before there are entries; a signal is matched only with entries that are not
redirected behind the end of the table; and a new resolution is taken up while the
table has a mode for the signal just when the signal is marked as supported. -/
def Keeps (s : PcMode) : PcModeStep → Prop
  | .thread r memory =>
      (s.u8ThreadState = .searchMode → getInputSyncStatus r &&& syncLoss = 0 →
        (s.src.measure r).outOfRange = false → s.Redirects memory (s.src.measure r)) ∧
      (s.u8ThreadState = .resolutionChange → s.Redirects memory s.src ∧
        (HasMode memory.behind s.src.srcType s.src.measured (s.entry memory.stale)
          s.gModeTableSize ↔ s.src.bIsSupportMode = true))
  | .setModeTable table kmalloc =>
      (kmalloc = true ∨ s.gModeTableSize = 0) ∧
        (s.InUse → s.src.u8ModeIdx.toNat < table.entries.length)
  | .setResolutionIndex _ => True

/-! ### The invariant of the runs -/

/-- What every run keeps whose steps keep the index inside. -/
structure Keeping (s : PcMode) : Prop where
  live : s.gModeTableSize = 0 ∨
    ∃ table, s.liveTable = some table ∧ table.entries.length = s.gModeTableSize
  small : s.gModeTableSize < 256
  inUse : s.InUse → s.src.u8ModeIdx.toNat < s.gModeTableSize
  supported : s.u8ThreadState = .supported →
    s.src.bIsSupportMode = true ∧ s.src.u8ModeIdx ≠ 0xFF
  unsupported : s.u8ThreadState = .unsupported →
    s.src.bIsSupportMode = false ∧ s.src.u8ModeIdx = 0xFF
  consistent : s.Consistent

/-- The thread is neither told of an index nor about to tell of one. -/
def Searching (state : PcModeState) : Prop :=
  state ≠ .supported ∧ state ≠ .unsupported ∧ state ≠ .stableCheck

namespace Keeping

variable {s : PcMode}

/-- A step that keeps the tables and leaves the thread searching. -/
theorem search (keeping : Keeping s) {t : PcMode} (table : t.liveTable = s.liveTable)
    (size : t.gModeTableSize = s.gModeTableSize) (searching : Searching t.u8ThreadState) :
    Keeping t where
  live := by rw [table, size]; exact keeping.live
  small := by rw [size]; exact keeping.small
  inUse := fun inUse => (inUse.1.elim searching.1 searching.2.2).elim
  supported := fun state => absurd state searching.1
  unsupported := fun state => absurd state searching.2.1
  consistent := fun state => absurd state searching.2.2

theorem inside (keeping : Keeping s) (inUse : s.InUse) : s.Inside := by
  have below := keeping.inUse inUse
  rcases keeping.live with empty | ⟨table, live, length⟩
  · rw [empty] at below
    exact absurd below (Nat.not_lt_zero _)
  · exact ⟨table, live, by rwa [length]⟩

/-- A signal without a mode. -/
theorem toUnsupported (keeping : Keeping s) {src : SourceInfo}
    (flag : src.bIsSupportMode = false) (index : src.u8ModeIdx = 0xFF) :
    Keeping (s.goTo .unsupported src) where
  live := keeping.live
  small := keeping.small
  inUse := fun inUse => by rcases inUse.1 with state | state <;> cases state
  supported := fun state => by cases state
  unsupported := fun _ => ⟨flag, index⟩
  consistent := fun state => by cases state

/-- A signal with a mode of the table. -/
theorem toSupported (keeping : Keeping s) {src : SourceInfo}
    (flag : src.bIsSupportMode = true) (index : src.u8ModeIdx ≠ 0xFF)
    (below : src.u8ModeIdx.toNat < s.gModeTableSize) : Keeping (s.goTo .supported src) where
  live := keeping.live
  small := keeping.small
  inUse := fun _ => below
  supported := fun _ => ⟨flag, index⟩
  unsupported := fun state => by cases state
  consistent := fun state => by cases state

theorem debounceHandler (keeping : Keeping s) (r : Readings) :
    Keeping (s.debounceHandler r) := by
  unfold PcMode.debounceHandler
  generalize (if getInputSyncStatus r = s.u8PreSyncStatus then s.u8Debounce + 1 else 0) = debounce
  split_ifs
  · exact keeping.search rfl rfl (by simp [Searching])
  · exact keeping.search rfl rfl (by simp [Searching])

theorem timingChangeHandler (keeping : Keeping s) : Keeping s.timingChangeHandler := by
  unfold PcMode.timingChangeHandler
  split_ifs
  · exact keeping.search rfl rfl (by simp [Searching, goTo])
  · exact keeping.search rfl rfl (by simp [Searching, goTo])

theorem syncDetectHandler (keeping : Keeping s) (r : Readings) :
    Keeping (s.syncDetectHandler r) := by
  unfold PcMode.syncDetectHandler
  split_ifs
  · exact keeping.search rfl rfl (by simp [Searching, goTo])
  · exact keeping.search rfl rfl (by simp [Searching, goTo])

theorem searchModeHandler (keeping : Keeping s) (r : Readings) (memory : Memory)
    (redirects : getInputSyncStatus r &&& syncLoss = 0 →
      (s.src.measure r).outOfRange = false → s.Redirects memory (s.src.measure r)) :
    Keeping (s.searchModeHandler r memory) := by
  unfold PcMode.searchModeHandler
  split_ifs with loss range
  · exact keeping.search rfl rfl (by simp [Searching, goTo])
  · exact keeping.toUnsupported rfl rfl
  · have inside := redirects (not_not.mp loss) (by simpa using range)
    unfold searchMatch
    split_ifs with found
    · exact keeping.toUnsupported rfl found
    · exact keeping.toSupported rfl found (matchMode_lt keeping.small inside found)

theorem resolutionChangeHandler (keeping : Keeping s) (memory : Memory)
    (redirects : s.Redirects memory s.src)
    (marked : HasMode memory.behind s.src.srcType s.src.measured (s.entry memory.stale)
      s.gModeTableSize ↔ s.src.bIsSupportMode = true) :
    Keeping (s.resolutionChangeHandler memory) := by
  have hasMode : (s.matched memory s.src).1 ≠ 0xFF ↔ s.src.bIsSupportMode = true :=
    (matchMode_ne_ff_iff keeping.small).trans marked
  unfold PcMode.resolutionChangeHandler
  split_ifs with found
  · refine keeping.toUnsupported ?_ found
    cases flag : s.src.bIsSupportMode with
    | false => rfl
    | true => exact absurd found (hasMode.mpr flag)
  · exact keeping.toSupported (hasMode.mp found) found
      (matchMode_lt keeping.small redirects found)

theorem raiseSupported (keeping : Keeping s) (state : s.u8ThreadState = .supported) :
    Keeping ((s.raise .pcmodeSupported).goTo .stableCheck s.src) where
  live := keeping.live
  small := keeping.small
  inUse := fun inUse => keeping.inUse ⟨Or.inl state, inUse.2⟩
  supported := fun state => by cases state
  unsupported := fun state => by cases state
  consistent := fun _ =>
    ⟨iff_of_true rfl (keeping.supported state).1,
      iff_of_true (keeping.supported state).1 (keeping.supported state).2⟩

theorem raiseUnsupported (keeping : Keeping s) (state : s.u8ThreadState = .unsupported) :
    Keeping ((s.raise .pcmodeUnsupported).goTo .stableCheck s.src) := by
  obtain ⟨flag, index⟩ := keeping.unsupported state
  have clear : ¬ s.src.bIsSupportMode = true := by simp [flag]
  refine ⟨keeping.live, keeping.small, fun inUse => absurd inUse.2 clear,
    fun state => (by cases state), fun state => (by cases state), fun _ => ⟨?_, ?_⟩⟩
  · refine iff_of_false (fun last => ?_) clear
    cases last
  · exact iff_of_false clear (not_not.mpr index)

theorem stableCheckHandler (keeping : Keeping s) (state : s.u8ThreadState = .stableCheck)
    (r : Readings) (memory : Memory) : Keeping (s.stableCheckHandler r memory) := by
  unfold PcMode.stableCheckHandler
  split_ifs
  · exact keeping.search rfl rfl (by simp [Searching])
  · exact ⟨keeping.live, keeping.small,
      fun inUse => keeping.inUse ⟨Or.inr state, inUse.2⟩, fun other => (by cases other),
      fun other => (by cases other), fun _ => keeping.consistent state⟩
  · exact keeping.search rfl rfl (by simp [Searching, goTo])

theorem threadStep (keeping : Keeping s) (r : Readings) (memory : Memory)
    (keeps : s.Keeps (.thread r memory)) : Keeping (s.threadStep r memory) := by
  unfold PcMode.threadStep
  cases state : s.u8ThreadState with
  | init => exact keeping.search rfl rfl (by simp [Searching, goTo])
  | debounce => exact keeping.debounceHandler r
  | timingChange => exact keeping.timingChangeHandler
  | syncDetect => exact keeping.syncDetectHandler r
  | searchMode => exact keeping.searchModeHandler r memory (keeps.1 state)
  | resolutionChange =>
      obtain ⟨redirects, marked⟩ := keeps.2 state
      exact keeping.resolutionChangeHandler memory redirects marked
  | supported => exact keeping.raiseSupported state
  | unsupported => exact keeping.raiseUnsupported state
  | stableCheck => exact keeping.stableCheckHandler state r memory

theorem setModeTable (keeping : Keeping s) (table : ModeTable) (kmalloc : Bool)
    (keeps : s.Keeps (.setModeTable table kmalloc)) :
    Keeping (s.setModeTable table kmalloc) := by
  unfold PcMode.setModeTable
  split_ifs with given
  · refine ⟨Or.inr ⟨table, ?_, rfl⟩, table.small, keeps.2, keeping.supported,
      keeping.unsupported, keeping.consistent⟩
    exact Function.update_self _ _ _
  · exact ⟨Or.inl (keeps.1.resolve_left given), keeping.small, keeping.inUse,
      keeping.supported, keeping.unsupported, keeping.consistent⟩

theorem after (keeping : Keeping s) (step : PcModeStep) (keeps : s.Keeps step) :
    Keeping (s.after step) := by
  cases step with
  | thread r memory => exact keeping.threadStep r memory keeps
  | setModeTable table kmalloc => exact keeping.setModeTable table kmalloc keeps
  | setResolutionIndex value =>
      exact ⟨keeping.live, keeping.small, keeping.inUse, keeping.supported,
        keeping.unsupported, keeping.consistent⟩

theorem law (keeping : Keeping s) (step : PcModeStep) (keeps : s.Keeps step) :
    s.Law step := by
  refine ⟨fun r memory _ indexes => ?_, (keeping.after step keeps).consistent⟩
  exact keeping.inside ⟨Or.inr indexes.1, indexes.2.2.2⟩

end Keeping

theorem keeping_init (src : SourceInfo) (saved sysVal : U16) :
    Keeping (init src saved sysVal) where
  live := Or.inl rfl
  small := Nat.zero_lt_succ 255
  inUse := fun inUse => by rcases inUse.1 with state | state <;> cases state
  supported := fun state => by cases state
  unsupported := fun state => by cases state
  consistent := fun state => by cases state

/-- In every run whose steps keep the index inside the table, the table is indexed
only inside, and in the stable state the event, the flag and the index say the
same. -/
theorem law_of_keeps (src : SourceInfo) (saved sysVal : U16) (steps : List PcModeStep)
    (keeps : Run.Meets after Keeps (init src saved sysVal) steps) :
    Run.Meets after Law (init src saved sysVal) steps :=
  keeps.imp (fun _ step keeping keeps => Keeping.law keeping step keeps)
    (fun _ step keeping keeps => Keeping.after keeping step keeps)
    (keeping_init src saved sysVal)

instance (s : PcMode) : Decidable s.InUse := inferInstanceAs (Decidable (_ ∧ _))

instance (s : PcMode) (memory : Memory) (src : SourceInfo) :
    Decidable (s.Redirects memory src) :=
  inferInstanceAs (Decidable (∀ i < s.gModeTableSize, _ → ∀ setting ∈ redirected _ _, _))

instance (s : PcMode) (r : Readings) (memory : Memory) :
    Decidable (s.Keeps (.thread r memory)) :=
  inferInstanceAs (Decidable ((_ → _ → _ → s.Redirects _ _) ∧
    (_ → s.Redirects _ _ ∧ ((∃ i < s.gModeTableSize, _ ∨ _) ↔ _))))

instance (s : PcMode) : ∀ step, Decidable (s.Keeps step)
  | .thread _ _ => inferInstance
  | .setModeTable _ _ => inferInstanceAs (Decidable ((_ ∨ _) ∧ (_ → _)))
  | .setResolutionIndex _ => .isTrue trivial

/-- A source of type VGA before its first signal. -/
def vgaSource : SourceInfo where
  srcType := .vga
  u8InputSyncStatus := 0
  u16InputHPeriod := 0
  u16InputVTotal := 0
  u16InputHFreq := 0
  u16InputVFreq := 0
  u8ModeIdx := 0xFF
  bIsSupportMode := false
  modesetting := ⟨0, 0, 0, 0, 0, 0, 0, 0⟩
  timing := ⟨0, 0, 0, 0, 0, 0, 0, 0, 0, 0⟩

/-- A table with one mode of 800x600. -/
def oneMode (u16HFreq u16VFreq u16VTotal : U16) : ModeTable :=
  ⟨[⟨4, u16HFreq, u16VFreq, 0, 0, 1000, u16VTotal, 10, 0, 0⟩], by simp⟩

/-- A turn of the thread while the registers keep their values. -/
def turn (u16HPeriod u16VTotal : U16) : PcModeStep :=
  .thread ⟨u16HPeriod, u16VTotal, u16HPeriod, u16VTotal, 0⟩
    ⟨fun _ => (0, 0), fun _ => ⟨0, 0, 0, 0, 0, 0, 0, 0, 0, 0⟩⟩

theorem law_of_one_mode :
    Run.Meets after Law (init vgaSource 0 0)
      (.setModeTable (oneMode 600 600 1000) true :: List.replicate 9 (turn 200 1000)) :=
  law_of_keeps vgaSource 0 0 _ (by decide +kernel)

/-- After a change of the resolution a signal that was out of range is announced as
supported, and not marked so. -/
theorem announced_unmarked :
    ¬ ∀ (src : SourceInfo) (saved sysVal : U16) (steps : List PcModeStep),
      Run.Meets after Law (init src saved sysVal) steps := by
  intro always
  have run := always vgaSource 0 0
    (.setModeTable (oneMode 902 722 1250) true ::
      (List.replicate 8 (turn 133 1250) ++
        [.setResolutionIndex 1, turn 133 1250, turn 133 1250, turn 133 1250]))
  have last := ((Run.meets_append.mp run.2).2).2.2.2.1
  obtain ⟨said, _⟩ := last.2 (by decide +kernel)
  revert said
  decide +kernel

end PcMode

end Gp2Firmware.Scaler
