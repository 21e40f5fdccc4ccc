import Gp2Firmware.Lib.Run
import Gp2Firmware.Vd.CriticalSection
import Mathlib.Algebra.Group.Nat.Defs

/-!
# The source and the sync of the video decoder

`MDrv_VD_SetVideoSource` and `MDrv_VD_IsSyncDetected` of `mdrv_vd_states_thread.c`, one
after the other in any order.
-/

namespace Gp2Firmware.Vd

/-- The variables of the two functions.  `inputs` have been given to `MHal_VD_SetInput`,
newest first, and `requests` to `MDrv_VD_SetVideoSource`; `recent` are the readings since
the source was changed, newest first, and `decided` says that one of them has set
`E_SYNC_LOCK` or cleared it. -/
structure Selector where
  aVideoSource : U32
  aVideoStandard : U32
  aScart1SrcType : U32
  u32NoSyncCounter : U32
  syncLock : Bool
  syncChanged : Bool
  inputs : List U32
  requests : List U32
  recent : List Bool
  decided : Bool

inductive SelectorEvent where
  | setVideoSource (etVideoSource : U32)
  | isSyncDetected (detected : Bool)

namespace Selector

/-- `E_SCART_SRC_TYPE_UNKNOWN` -/
def scartSrcTypeUnknown : U32 := 0

/-- After `MDrv_VD_Init`. -/
def init : Selector where
  aVideoSource := videoSourceInvalid
  aVideoStandard := notStandard
  aScart1SrcType := scartSrcTypeUnknown
  u32NoSyncCounter := 10
  syncLock := false
  syncChanged := false
  inputs := []
  requests := []
  recent := []
  decided := false

/-- `MHal_VD_SetInput` -/
def setInput (s : Selector) (input : U32) : Selector :=
  { s with inputs := input :: s.inputs }

def request (s : Selector) (etVideoSource : U32) : Selector :=
  { s with requests := etVideoSource :: s.requests }

def setVideoSource (s : Selector) (etVideoSource : U32) : Selector :=
  if etVideoSource = s.aVideoSource then
    s.request etVideoSource
  else if etVideoSource ∈ videoSources then
    { (s.setInput etVideoSource).request etVideoSource with
      aVideoSource := etVideoSource
      aVideoStandard := notStandard
      u32NoSyncCounter := 10
      aScart1SrcType := scartSrcTypeUnknown
      recent := []
      decided := false }
  else
    (s.setInput videoSourceInvalid).request etVideoSource

/-- What `IOCTL_VD_GET_CURRENT_VIDEO_SOURCE` reports. -/
def getCurrentVideoSource (s : Selector) : U32 := s.aVideoSource

/-- The call sets `E_SYNC_CHANGED`. -/
def Raises (s : Selector) (detected : Bool) : Prop :=
  Driver.syncCounter s.u32NoSyncCounter detected = if detected then Vd.syncLock else syncLost

instance (s : Selector) (detected : Bool) : Decidable (s.Raises detected) :=
  inferInstanceAs (Decidable (_ = _))

def isSyncDetected (s : Selector) (detected : Bool) : Selector :=
  if s.Raises detected then
    { s with
      u32NoSyncCounter := if detected then 0 else syncLimit
      syncChanged := true
      syncLock := detected
      recent := detected :: s.recent
      decided := true }
  else
    { s with
      u32NoSyncCounter := Driver.syncCounter s.u32NoSyncCounter detected
      recent := detected :: s.recent }

def after (s : Selector) : SelectorEvent → Selector
  | .setVideoSource etVideoSource => s.setVideoSource etVideoSource
  | .isSyncDetected detected => s.isSyncDetected detected

end Selector

/-! ### The source -/

namespace Selector

variable {s : Selector}

/-- The input for a request. -/
def wanted (etVideoSource : U32) : U32 :=
  if etVideoSource ∈ videoSources then etVideoSource else videoSourceInvalid

/-- None of the supported sources was requested. -/
def NoneSupported (s : Selector) : Prop :=
  ∀ source ∈ s.requests, source ∉ videoSources

/-- The source that was requested is the input, and is reported. -/
def Selects (s : Selector) : SelectorEvent → Prop
  | .setVideoSource etVideoSource =>
      ((s.setVideoSource etVideoSource).inputs.head? = some (wanted etVideoSource) ∨
          (s.setVideoSource etVideoSource).inputs = [] ∧
            (s.setVideoSource etVideoSource).NoneSupported) ∧
        (s.setVideoSource etVideoSource).getCurrentVideoSource = wanted etVideoSource
  | .isSyncDetected _ => True

/-- No source that is not supported is requested behind one that is. -/
def InOrder (s : Selector) : SelectorEvent → Prop
  | .setVideoSource etVideoSource => etVideoSource ∈ videoSources ∨ s.NoneSupported
  | .isSyncDetected _ => True

/-- What there is between two requests in order. -/
def Settled (s : Selector) : Prop :=
  s.NoneSupported ∧ s.aVideoSource = videoSourceInvalid ∧
      (s.inputs = [] ∨ s.inputs.head? = some videoSourceInvalid) ∨
    ¬ s.NoneSupported ∧ s.aVideoSource ∈ videoSources ∧ s.inputs.head? = some s.aVideoSource

theorem invalid_not_mem : videoSourceInvalid ∉ videoSources := by
  decide

theorem noneSupported_request {etVideoSource : U32} {requests : List U32}
    (requested : s.requests = etVideoSource :: requests) :
    s.NoneSupported ↔
      etVideoSource ∉ videoSources ∧ ∀ source ∈ requests, source ∉ videoSources := by
  rw [NoneSupported, requested, List.forall_mem_cons]

theorem requests_setVideoSource (etVideoSource : U32) :
    (s.setVideoSource etVideoSource).requests = etVideoSource :: s.requests := by
  rw [setVideoSource]
  split
  · rfl
  · split
    · rfl
    · rfl

/-- A supported source is selected from wherever it is requested. -/
theorem settled_of_supported {etVideoSource : U32} (settled : s.Settled)
    (supported : etVideoSource ∈ videoSources) :
    (s.setVideoSource etVideoSource).aVideoSource = etVideoSource ∧
      (s.setVideoSource etVideoSource).inputs.head? = some etVideoSource := by
  rw [setVideoSource]
  by_cases same : etVideoSource = s.aVideoSource
  · rw [if_pos same]
    rcases settled with ⟨-, invalid, -⟩ | ⟨-, -, input⟩
    · exact absurd (same.trans invalid ▸ supported) invalid_not_mem
    · exact ⟨same.symm, same ▸ input⟩
  · rw [if_neg same, if_pos supported]
    exact ⟨rfl, rfl⟩

/-- Another source leaves what is reported as it was. -/
theorem aVideoSource_of_unsupported {etVideoSource : U32}
    (unsupported : etVideoSource ∉ videoSources) :
    (s.setVideoSource etVideoSource).aVideoSource = s.aVideoSource := by
  rw [setVideoSource, if_neg unsupported]
  split
  · rfl
  · rfl

theorem inputs_of_unsupported {etVideoSource : U32}
    (unsupported : etVideoSource ∉ videoSources) :
    etVideoSource = s.aVideoSource ∧
        (s.setVideoSource etVideoSource).inputs = s.inputs ∨
      (s.setVideoSource etVideoSource).inputs = videoSourceInvalid :: s.inputs := by
  rw [setVideoSource, if_neg unsupported]
  split
  · rename_i same
    exact .inl ⟨same, rfl⟩
  · exact .inr rfl

theorem selects_iff_inOrder (settled : s.Settled) (event : SelectorEvent) :
    s.Selects event ↔ s.InOrder event := by
  cases event with
  | isSyncDetected detected => exact Iff.rfl
  | setVideoSource etVideoSource =>
      rw [Selects, InOrder, getCurrentVideoSource, wanted]
      by_cases supported : etVideoSource ∈ videoSources
      · obtain ⟨source, input⟩ := settled_of_supported settled supported
        rw [if_pos supported]
        exact iff_of_true ⟨.inl input, source⟩ (.inl supported)
      · rw [if_neg supported, aVideoSource_of_unsupported supported, or_iff_right supported]
        rcases settled with ⟨none, invalid, given⟩ | ⟨found, source, -⟩
        · refine iff_of_true ⟨?_, invalid⟩ none
          rcases @inputs_of_unsupported s _ supported with ⟨-, inputs⟩ | inputs
          · rw [inputs]
            rcases given with nothing | last
            · right
              refine ⟨nothing, ?_⟩
              exact (noneSupported_request (requests_setVideoSource _)).mpr ⟨supported, none⟩
            · exact .inl last
          · rw [inputs]
            exact .inl rfl
        · refine iff_of_false ?_ found
          rintro ⟨-, invalid⟩
          exact invalid_not_mem (invalid ▸ source)

theorem settled_after (settled : s.Settled) (event : SelectorEvent) (inOrder : s.InOrder event) :
    (s.after event).Settled := by
  cases event with
  | isSyncDetected detected =>
      rw [after, isSyncDetected]
      split
      · exact settled
      · exact settled
  | setVideoSource etVideoSource =>
      rw [after]
      have requested := @requests_setVideoSource s etVideoSource
      by_cases supported : etVideoSource ∈ videoSources
      · obtain ⟨source, input⟩ := settled_of_supported settled supported
        right
        rw [noneSupported_request requested, source]
        exact ⟨fun none => none.1 supported, supported, input⟩
      · have none := inOrder.resolve_left supported
        rcases settled with ⟨-, invalid, given⟩ | ⟨found, -, -⟩
        · left
          rw [noneSupported_request requested, aVideoSource_of_unsupported supported]
          refine ⟨⟨supported, none⟩, invalid, ?_⟩
          rcases @inputs_of_unsupported s _ supported with ⟨-, inputs⟩ | inputs
          · rwa [inputs]
          · exact .inr (congrArg List.head? inputs)
        · exact absurd none found

theorem settled_init : init.Settled := by
  left
  refine ⟨?_, rfl, .inl rfl⟩
  intro source member
  cases member

/-- The requested source is selected in a run if and only if its requests are in order. -/
theorem selects_iff (events : List SelectorEvent) :
    Run.Meets after Selects init events ↔ Run.Meets after InOrder init events := by
  apply @Run.meets_congr _ _ _ _ _ Settled
  · exact fun s event settled => selects_iff_inOrder settled event
  · intro s event settled selects
    exact settled_after settled event ((selects_iff_inOrder settled event).mp selects)
  · exact settled_init

/-- A source that is not supported behind one that is: the input is invalid, and the source
before is reported. -/
theorem source_not_selected :
    ¬ ∀ events : List SelectorEvent, Run.Meets after Selects init events := by
  intro always
  obtain ⟨-, ⟨-, reported⟩, -⟩ := always [.setVideoSource 2, .setVideoSource 0x50]
  revert reported
  decide

/-! ### The sync -/

/-- How many of the last readings were the same. -/
def streak (s : Selector) (detected : Bool) : Nat :=
  (s.recent.takeWhile (· == detected)).length

/-- The call sets `E_SYNC_CHANGED`, if it is a reading. -/
def RaisesAt (s : Selector) : SelectorEvent → Prop
  | .setVideoSource _ => False
  | .isSyncDetected detected => s.Raises detected

/-- `E_SYNC_LOCK` follows the readings, but not at once. -/
structure Hysteresis (s : Selector) (event : SelectorEvent) : Prop where
  follows : ∀ detected, 4 ≤ (s.after event).streak detected →
    (s.after event).syncLock = detected
  late : (s.after event).syncLock ≠ s.syncLock →
    3 ≤ (s.after event).streak (s.after event).syncLock
  bound : (s.after event).u32NoSyncCounter ≤ syncLimit
  raised : s.decided = true →
    (s.RaisesAt event ↔ (s.after event).syncLock ≠ s.syncLock)

/-- No third reading of a count confirms `E_SYNC_LOCK`, but for the first one that decides
about a source. -/
def Unconfirmed (s : Selector) : SelectorEvent → Prop
  | .setVideoSource _ => True
  | .isSyncDetected detected =>
      s.decided = true → s.syncLock = detected →
        s.u32NoSyncCounter ≠ if detected then 8 else 12

/-- The values of the counter between two readings, and the readings that lead to them. -/
inductive Counts (s : Selector) : Prop where
  | start (counter : s.u32NoSyncCounter = 10) (up : s.streak true ≤ 1) (down : s.streak false ≤ 1)
  | one (counter : s.u32NoSyncCounter = 9) (up : 1 ≤ s.streak true) (few : s.streak true ≤ 2)
      (down : s.streak false = 0)
  | two (counter : s.u32NoSyncCounter = 8) (up : 2 ≤ s.streak true) (few : s.streak true ≤ 3)
      (down : s.streak false = 0)
  | locked (counter : s.u32NoSyncCounter = 0) (lock : s.syncLock = true)
      (decided : s.decided = true) (down : s.streak false = 0)
  | lessOne (counter : s.u32NoSyncCounter = 11) (down : 1 ≤ s.streak false)
      (few : s.streak false ≤ 2) (up : s.streak true = 0)
  | lessTwo (counter : s.u32NoSyncCounter = 12) (down : 2 ≤ s.streak false)
      (few : s.streak false ≤ 3) (up : s.streak true = 0)
  | lost (counter : s.u32NoSyncCounter = syncLimit) (lock : s.syncLock = false)
      (decided : s.decided = true) (up : s.streak true = 0)

theorem streak_cons {detected reading : Bool} {recent : List Bool}
    (read : s.recent = reading :: recent) :
    s.streak detected =
      if reading = detected then (recent.takeWhile (· == detected)).length + 1 else 0 := by
  rw [streak, read, List.takeWhile_cons]
  by_cases same : reading = detected
  · simp [same]
  · simp [same]

theorem recent_isSyncDetected (detected : Bool) :
    (s.isSyncDetected detected).recent = detected :: s.recent := by
  rw [isSyncDetected]
  split
  · rfl
  · rfl

theorem streak_same (detected : Bool) :
    (s.isSyncDetected detected).streak detected = s.streak detected + 1 := by
  rw [streak_cons (recent_isSyncDetected detected), if_pos rfl, streak]

theorem streak_other {detected other : Bool} (different : detected ≠ other) :
    (s.isSyncDetected detected).streak other = 0 := by
  rw [streak_cons (recent_isSyncDetected detected), if_neg different]

theorem isSyncDetected_of_silent {detected : Bool} {before next : U32}
    (counter : s.u32NoSyncCounter = before)
    (silent : Driver.syncCounter before detected ≠ if detected then Vd.syncLock else syncLost)
    (counts : Driver.syncCounter before detected = next) :
    (s.isSyncDetected detected).u32NoSyncCounter = next ∧
      (s.isSyncDetected detected).syncLock = s.syncLock ∧
      (s.isSyncDetected detected).decided = s.decided := by
  have quiet : ¬ s.Raises detected := by
    rwa [Raises, counter]
  rw [isSyncDetected, if_neg quiet, counter]
  exact ⟨counts, rfl, rfl⟩

theorem isSyncDetected_of_raises {detected : Bool} (raises : s.Raises detected) :
    (s.isSyncDetected detected).u32NoSyncCounter = (if detected then 0 else syncLimit) ∧
      (s.isSyncDetected detected).syncLock = detected ∧
      (s.isSyncDetected detected).decided = true := by
  rw [isSyncDetected, if_pos raises]
  exact ⟨rfl, rfl, rfl⟩

theorem Counts.positive (counts : s.Counts) : (s.isSyncDetected true).Counts := by
  have up := @streak_same s true
  have down := @streak_other s true false (by decide)
  cases counts with
  | start counter few =>
      obtain ⟨next, -⟩ := @isSyncDetected_of_silent s true 10 9 counter (by decide) (by decide)
      exact .one next (by omega) (by omega) down
  | one counter many few =>
      obtain ⟨next, -⟩ := @isSyncDetected_of_silent s true 9 8 counter (by decide) (by decide)
      exact .two next (by omega) (by omega) down
  | two counter many few =>
      have raises : s.Raises true := by
        rw [Raises, counter]
        decide
      obtain ⟨next, lock, decided⟩ := isSyncDetected_of_raises raises
      exact .locked next lock decided down
  | locked counter lock decided =>
      obtain ⟨next, sameLock, sameDecided⟩ :=
        @isSyncDetected_of_silent s true 0 0 counter (by decide) (by decide)
      exact .locked next (sameLock.trans lock) (sameDecided.trans decided) down
  | lessOne counter many few none =>
      obtain ⟨next, -⟩ := @isSyncDetected_of_silent s true 11 10 counter (by decide) (by decide)
      exact .start next (by omega) (by omega)
  | lessTwo counter many few none =>
      obtain ⟨next, -⟩ := @isSyncDetected_of_silent s true 12 10 counter (by decide) (by decide)
      exact .start next (by omega) (by omega)
  | lost counter lock decided none =>
      obtain ⟨next, -⟩ :=
        @isSyncDetected_of_silent s true syncLimit 10 counter (by decide) (by decide)
      exact .start next (by omega) (by omega)

theorem Counts.negative (counts : s.Counts) : (s.isSyncDetected false).Counts := by
  have down := @streak_same s false
  have up := @streak_other s false true (by decide)
  cases counts with
  | start counter few less =>
      obtain ⟨next, -⟩ := @isSyncDetected_of_silent s false 10 11 counter (by decide) (by decide)
      exact .lessOne next (by omega) (by omega) up
  | one counter many few none =>
      obtain ⟨next, -⟩ := @isSyncDetected_of_silent s false 9 10 counter (by decide) (by decide)
      exact .start next (by omega) (by omega)
  | two counter many few none =>
      obtain ⟨next, -⟩ := @isSyncDetected_of_silent s false 8 10 counter (by decide) (by decide)
      exact .start next (by omega) (by omega)
  | locked counter lock decided none =>
      obtain ⟨next, -⟩ := @isSyncDetected_of_silent s false 0 10 counter (by decide) (by decide)
      exact .start next (by omega) (by omega)
  | lessOne counter many few =>
      obtain ⟨next, -⟩ := @isSyncDetected_of_silent s false 11 12 counter (by decide) (by decide)
      exact .lessTwo next (by omega) (by omega) up
  | lessTwo counter many few =>
      have raises : s.Raises false := by
        rw [Raises, counter]
        decide
      obtain ⟨next, lock, decided⟩ := isSyncDetected_of_raises raises
      exact .lost next lock decided up
  | lost counter lock decided =>
      obtain ⟨next, sameLock, sameDecided⟩ :=
        @isSyncDetected_of_silent s false syncLimit syncLimit counter (by decide) (by decide)
      exact .lost next (sameLock.trans lock) (sameDecided.trans decided) up

theorem counts_setVideoSource (counts : s.Counts) (etVideoSource : U32) :
    (s.setVideoSource etVideoSource).Counts := by
  have same : ∀ t : Selector, t.u32NoSyncCounter = s.u32NoSyncCounter →
      t.syncLock = s.syncLock → t.decided = s.decided → t.recent = s.recent → t.Counts := by
    intro t counter lock decided recent
    have streak : ∀ detected, t.streak detected = s.streak detected := by
      intro detected
      rw [Selector.streak, recent, Selector.streak]
    cases counts <;> grind [Counts]
  rw [setVideoSource]
  split
  · exact same _ rfl rfl rfl rfl
  split
  · exact .start rfl (Nat.zero_le 1) (Nat.zero_le 1)
  · exact same _ rfl rfl rfl rfl

theorem counts_after (counts : s.Counts) (event : SelectorEvent) : (s.after event).Counts := by
  cases event with
  | setVideoSource etVideoSource => exact counts_setVideoSource counts etVideoSource
  | isSyncDetected detected =>
      cases detected with
      | false => exact counts.negative
      | true => exact counts.positive

theorem Counts.follows (counts : s.Counts) (detected : Bool) (same : 4 ≤ s.streak detected) :
    s.syncLock = detected := by
  cases detected with
  | false => cases counts <;> first | assumption | omega
  | true => cases counts <;> first | assumption | omega

theorem Counts.bound (counts : s.Counts) : s.u32NoSyncCounter ≤ syncLimit := by
  cases counts <;> simp [*, syncLimit]

/-- A reading that decides is the third one of its kind. -/
theorem Counts.raises_iff (counts : s.Counts) (detected : Bool) :
    s.Raises detected ↔ s.u32NoSyncCounter = if detected then 8 else 12 := by
  rw [Raises]
  cases detected with
  | false => cases counts <;> simp [*, Driver.syncCounter, syncCheckInit, syncLimit, syncLost]
  | true => cases counts <;> simp [*, Driver.syncCounter, syncCheckInit, syncLimit, Vd.syncLock]

theorem Counts.streak_of_raises (counts : s.Counts) {detected : Bool}
    (raises : s.Raises detected) : 2 ≤ s.streak detected := by
  rw [counts.raises_iff] at raises
  cases detected with
  | false => cases counts <;> simp_all [syncLimit]
  | true => cases counts <;> simp_all [syncLimit]

theorem syncLock_setVideoSource (etVideoSource : U32) :
    (s.setVideoSource etVideoSource).syncLock = s.syncLock := by
  rw [setVideoSource]
  split
  · rfl
  · split
    · rfl
    · rfl

theorem syncLock_of_not_raises {detected : Bool} (silent : ¬ s.Raises detected) :
    (s.isSyncDetected detected).syncLock = s.syncLock := by
  rw [isSyncDetected, if_neg silent]

theorem hysteresis_iff (counts : s.Counts) (event : SelectorEvent) :
    s.Hysteresis event ↔ s.Unconfirmed event := by
  have behind := counts_after counts event
  cases event with
  | setVideoSource etVideoSource =>
      refine iff_of_true ⟨behind.follows, ?_, behind.bound, ?_⟩ trivial
      · exact fun changed => absurd (syncLock_setVideoSource etVideoSource) changed
      · intro _
        exact iff_of_false id fun changed =>
          absurd (syncLock_setVideoSource etVideoSource) changed
  | isSyncDetected detected =>
      rw [Unconfirmed]
      by_cases raises : s.Raises detected
      · obtain ⟨-, lock, -⟩ := isSyncDetected_of_raises raises
        have third : 3 ≤ (s.isSyncDetected detected).streak detected := by
          have two := counts.streak_of_raises raises
          rw [streak_same]
          omega
        constructor
        · intro law decided same
          have changed := (law.raised decided).mp raises
          exact absurd (lock.trans same.symm) changed
        · intro unconfirmed
          refine ⟨behind.follows, ?_, behind.bound, ?_⟩
          · intro _
            rw [after, lock]
            exact third
          · intro decided
            refine iff_of_true raises ?_
            rw [after, lock]
            intro same
            exact unconfirmed decided same.symm ((counts.raises_iff detected).mp raises)
      · have same := syncLock_of_not_raises raises
        refine iff_of_true ⟨behind.follows, ?_, behind.bound, ?_⟩ ?_
        · exact fun changed => absurd same changed
        · intro _
          exact iff_of_false raises fun changed => absurd same changed
        · exact fun _ _ counter => raises ((counts.raises_iff detected).mpr counter)

theorem counts_init : init.Counts :=
  .start rfl (Nat.zero_le 1) (Nat.zero_le 1)

end Selector

end Gp2Firmware.Vd
