import Mathlib.Logic.Function.Basic
import Mathlib.Data.List.Nodup
import Gp2Firmware.Lib.Run

/-!
# Critical sections of the video decoder driver

The ioctls of `mdrv_vd.c` that bracket their work with `TIMER_INTERRUPT_STOP` and
`TIMER_INTERRUPT_PASS`, statement by statement and for any number of processes, and the
callback of the VD timer.
-/

namespace Gp2Firmware.Vd

abbrev U32 := BitVec 32

/-- The events that the callback sets in `_aEventsVD`. -/
inductive Event where
  | videoFormatChanged
  | syncChanged
  deriving DecidableEq

/-- `_bVideoFormatChanged`, `_bSyncChanged` -/
def Event.mask : Event → U32
  | videoFormatChanged => 1 <<< 0
  | syncChanged => 1 <<< 3

/-- An event that the callback has set, numbered. -/
structure Occurrence where
  number : Nat
  event : Event
  deriving DecidableEq

/-- What a call of `_MDrv_VD_GetEvent` has read. -/
structure Fetched where
  etEvent : U32
  occurrences : List Occurrence

/-- The word that has the events of a list set. -/
def maskOf (occurrences : List Occurrence) : U32 :=
  occurrences.foldl (fun word occurrence => word ||| occurrence.event.mask) 0

/-- The ioctls of this model. -/
inductive Ioctl where
  | waitEvent
  | setVideoSource (etVideoSource : U32)
  | speedup3D
  | comb3D
  | resetAgc
  | swingThreshold
  | setAdaptiveSlice
  | setAdaptiveTracking
  | setHsyncWidthDet
  | threadStart
  | threadHalt
  | loadDsp
  | hsynDetection (on : Bool)

/-- What is between a `TIMER_INTERRUPT_STOP` and its `TIMER_INTERRUPT_PASS`. -/
inductive Section where
  | getEvent
  | setVideoSource (etVideoSource : U32)
  | hal

/-- The next statement of a process. -/
inductive Point where
  | idle
  | release
  | guard
  | look
  | asleep
  | releaseAgain
  | compare (etVideoSource : U32)
  | stop (work : Section)
  | work (work : Section)
  | clear
  | setSource (etVideoSource : U32)
  | setStandard
  | setCounter
  | pass (getsEvent : Bool)
  | give
  | setExit (starts : Bool)
  | setRelease (starts : Bool)
  | timer (starts : Bool)
  | tuning (on : Bool)

/-- The first statement of an ioctl. -/
def Ioctl.entry : Ioctl → Point
  | waitEvent => .release
  | setVideoSource etVideoSource => .compare etVideoSource
  | speedup3D => .stop .hal
  | comb3D => .stop .hal
  | resetAgc => .stop .hal
  | swingThreshold => .stop .hal
  | setAdaptiveSlice => .stop .hal
  | setAdaptiveTracking => .stop .hal
  | setHsyncWidthDet => .stop .hal
  | threadStart => .setExit true
  | threadHalt => .setExit false
  | loadDsp => .tuning false
  | hsynDetection on => .tuning on

/-- A process is between a `TIMER_INTERRUPT_STOP` and its `TIMER_INTERRUPT_PASS`. -/
def Point.Inside : Point → Prop
  | work _ => True
  | clear => True
  | setSource _ => True
  | setStandard => True
  | setCounter => True
  | pass _ => True
  | _ => False

instance : DecidablePred Point.Inside := fun point => by
  cases point <;> unfold Point.Inside <;> infer_instance

structure Process where
  point : Point
  fetched : Fetched

/-- `SYNC_LOCK`, `SYNC_CHECK_INIT`, `SYNC_LOST`, `SYNC_LIMIT` -/
def syncLock : U32 := 7
def syncCheckInit : U32 := 10
def syncLost : U32 := 13
def syncLimit : U32 := 0xFFFF

/-- `E_VIDEOSOURCE_INVALID` -/
def videoSourceInvalid : U32 := 0

/-- The sources for which `MDrv_VD_SetVideoSource` has a case. -/
def videoSources : List U32 := [1, 2, 3, 4, 5, 6, 7, 8]

instance (source : U32) : Decidable (source ∈ videoSources) :=
  List.instDecidableMemOfLawfulBEq source videoSources

/-- `E_VIDEOSTANDARD_NOTSTANDARD` -/
def notStandard : U32 := 7

/-- What the callback reads from the hardware: `MHal_VD_IsSyncDetected`,
`MHal_VD_GetLastDetectedStandard`, `MHal_VD_GetStandardDetection`, and whether
`MHal_VD_GetDSPVer` is `VD_SYSTEM_NTSC`. -/
structure Detection where
  sync : Bool
  preStandard : U32
  detectedStandard : U32
  ntsc : Bool

/-- The words of the driver, with the events that were set and not cleared since,
all that were set, and what calls of `_MDrv_VD_GetEvent` have returned. -/
structure Driver where
  u32NoSyncCounter : U32
  videoStandard : U32
  videoSource : U32
  eventsVd : U32
  inCsVd : Bool
  inTuning : Bool
  releaseThreadVd : Bool
  exitThreadVd : Bool
  waitQueueGuardVd : Bool
  u8StdDetStableCnt : BitVec 8
  timer : Bool
  processes : Nat → Process
  pending : List Occurrence
  happened : List Occurrence
  returned : List Fetched

inductive VdEvent where
  | ioctl (p : Nat) (cmd : Ioctl)
  | step (p : Nat)
  | expire (detection : Detection)

namespace Driver

/-- After `MDrv_VD_Init`, with what it leaves as it was. -/
def init (inTuning : Bool) (u8StdDetStableCnt : BitVec 8) : Driver where
  u32NoSyncCounter := 10
  videoStandard := notStandard
  videoSource := videoSourceInvalid
  eventsVd := 0
  inCsVd := false
  inTuning := inTuning
  releaseThreadVd := true
  exitThreadVd := false
  waitQueueGuardVd := false
  u8StdDetStableCnt := u8StdDetStableCnt
  timer := false
  processes := fun _ => ⟨.idle, ⟨0, []⟩⟩
  pending := []
  happened := []
  returned := []

/-- The callback sets an event. -/
def setEvent (s : Driver) (event : Event) : Driver :=
  { s with
    eventsVd := s.eventsVd ||| event.mask
    pending := s.pending ++ [⟨s.happened.length, event⟩]
    happened := s.happened ++ [⟨s.happened.length, event⟩] }

/-- The counter of `MDrv_VD_IsSyncDetected` before it is compared. -/
def syncCounter (counter : U32) (detected : Bool) : U32 :=
  if detected then
    if counter > syncCheckInit then syncCheckInit
    else if counter > 1 then counter - 1
    else counter
  else
    if counter < syncCheckInit then syncCheckInit
    else if counter < syncLimit then counter + 1
    else counter

/-- `MDrv_VD_IsSyncDetected` -/
def isSyncDetected (s : Driver) (detected : Bool) : Driver :=
  if detected then
    if syncCounter s.u32NoSyncCounter true = syncLock then
      { s with u32NoSyncCounter := 0 }.setEvent .syncChanged
    else { s with u32NoSyncCounter := syncCounter s.u32NoSyncCounter true }
  else
    if syncCounter s.u32NoSyncCounter false = syncLost then
      { s with u32NoSyncCounter := syncLimit }.setEvent .syncChanged
    else { s with u32NoSyncCounter := syncCounter s.u32NoSyncCounter false }

/-- `MDrv_VD_CheckVideoStandard` -/
def checkVideoStandard (s : Driver) (etPreStandard etDetectedStandard : U32) : Driver :=
  if etDetectedStandard ≠ etPreStandard then { s with u8StdDetStableCnt := 0 }
  else if s.u8StdDetStableCnt ≤ 0 then
    { s with
      videoStandard := etDetectedStandard
      u8StdDetStableCnt := s.u8StdDetStableCnt + 1 }.setEvent .videoFormatChanged
  else s

/-- The end of `_MDrv_VD_Thread`: the timer is added again, or the thread has exited. -/
def rearm (s : Driver) : Driver :=
  if s.releaseThreadVd = false then { s with timer := true }
  else { s with timer := false, exitThreadVd := true }

/-- `_MDrv_VD_Thread` -/
def thread (s : Driver) (detection : Detection) : Driver :=
  if s.exitThreadVd then { s with timer := false }
  else if s.inCsVd then s.rearm
  else
    let synced := s.isSyncDetected detection.sync
    if detection.ntsc && s.inTuning then synced.rearm
    else (synced.checkVideoStandard detection.preStandard detection.detectedStandard).rearm

/-- A process goes to another statement. -/
def goTo (s : Driver) (p : Nat) (point : Point) : Driver :=
  { s with
    processes := Function.update s.processes p { s.processes p with point := point } }

/-- The next statement of a process. -/
def step (s : Driver) (p : Nat) : Driver :=
  match (s.processes p).point with
  | .idle => s
  -- `_MDrv_VD_Wait_Event`
  | .release => if s.releaseThreadVd then s.goTo p .idle else s.goTo p .guard
  | .guard =>
      if s.waitQueueGuardVd then s.goTo p .releaseAgain
      else { s.goTo p .look with waitQueueGuardVd := true }
  | .look =>
      if s.eventsVd = 0 then s.goTo p .asleep
      else { s.goTo p .releaseAgain with waitQueueGuardVd := false }
  | .asleep => s.goTo p .releaseAgain
  | .releaseAgain =>
      if s.releaseThreadVd then s.goTo p .idle else s.goTo p (.stop .getEvent)
  -- the sections
  | .compare etVideoSource =>
      if etVideoSource = s.videoSource then s.goTo p .idle
      else s.goTo p (.stop (.setVideoSource etVideoSource))
  | .stop work => { s.goTo p (.work work) with inCsVd := true }
  | .work .getEvent =>
      { s with
        processes := Function.update s.processes p ⟨.clear, ⟨s.eventsVd, s.pending⟩⟩ }
  | .work (.setVideoSource etVideoSource) =>
      if etVideoSource ∈ videoSources then s.goTo p (.setSource etVideoSource)
      else s.goTo p (.pass false)
  | .work .hal => s.goTo p (.pass false)
  | .clear => { s.goTo p (.pass true) with eventsVd := 0, pending := [] }
  | .setSource etVideoSource => { s.goTo p .setStandard with videoSource := etVideoSource }
  | .setStandard => { s.goTo p .setCounter with videoStandard := notStandard }
  | .setCounter => { s.goTo p (.pass false) with u32NoSyncCounter := 10 }
  | .pass getsEvent =>
      { s.goTo p (if getsEvent then .give else .idle) with inCsVd := false }
  | .give =>
      { s with
        processes := Function.update s.processes p ⟨.idle, ⟨0, []⟩⟩
        returned := s.returned ++ [(s.processes p).fetched] }
  -- `IOCTL_VD_THREAD_START`, `IOCTL_VD_THREAD_HALT`
  | .setExit starts => { s.goTo p (.setRelease starts) with exitThreadVd := false }
  | .setRelease starts => { s.goTo p (.timer starts) with releaseThreadVd := !starts }
  | .timer starts => { s.goTo p .idle with timer := starts }
  | .tuning on => { s.goTo p .idle with inTuning := on }

def after (s : Driver) : VdEvent → Driver
  | .ioctl p cmd =>
      match (s.processes p).point with
      | .idle => s.goTo p cmd.entry
      | _ => s
  | .step p => s.step p
  | .expire detection => if s.timer then s.thread detection else s

/-! ### The law -/

/-- The timer has expired, and its callback does not return early. -/
def RunsWhole (s : Driver) : Prop :=
  s.timer = true ∧ s.exitThreadVd = false ∧ s.inCsVd = false

/-- No whole run of the callback while a process is in a section. -/
def Excluded (s : Driver) : VdEvent → Prop
  | .expire _ => s.RunsWhole → ∀ p, ¬ (s.processes p).point.Inside
  | _ => True

/-- Every event that was set is still in `_aEventsVD`, has been read by a call that will
return it, or has been returned; and none has been returned twice. -/
structure Delivered (s : Driver) : Prop where
  accounted : ∀ occurrence ∈ s.happened,
    occurrence ∈ s.pending ∨ (∃ p, occurrence ∈ (s.processes p).fetched.occurrences) ∨
      occurrence ∈ s.returned.flatMap Fetched.occurrences
  once : (s.returned.flatMap Fetched.occurrences).Nodup
  word : s.eventsVd = maskOf s.pending
  read : ∀ p, (s.processes p).fetched.etEvent = maskOf (s.processes p).fetched.occurrences
  given : ∀ fetched ∈ s.returned, fetched.etEvent = maskOf fetched.occurrences

/-- The flag is cleared only where no other process is in a section. -/
def InTurn (s : Driver) : VdEvent → Prop
  | .step p => ∀ getsEvent, (s.processes p).point = .pass getsEvent →
      ∀ q, q ≠ p → ¬ (s.processes q).point.Inside
  | _ => True

/-! ### What the callback changes -/

variable {s : Driver}

/-- The callback has set some events, and nothing else that the processes have. -/
structure Sets (s t : Driver) : Prop where
  processes : t.processes = s.processes
  inCsVd : t.inCsVd = s.inCsVd
  returned : t.returned = s.returned
  word : s.eventsVd = maskOf s.pending → t.eventsVd = maskOf t.pending
  more : ∃ set, t.pending = s.pending ++ set ∧ t.happened = s.happened ++ set ∧
    set.Nodup ∧ ∀ occurrence ∈ set, s.happened.length ≤ occurrence.number ∧
      occurrence.number < t.happened.length

/-- A change elsewhere sets none. -/
theorem Sets.quiet {t : Driver} (processes : t.processes = s.processes)
    (inCsVd : t.inCsVd = s.inCsVd) (returned : t.returned = s.returned)
    (word : t.eventsVd = s.eventsVd) (pending : t.pending = s.pending)
    (happened : t.happened = s.happened) : Sets s t := by
  refine ⟨processes, inCsVd, returned, fun before => ?_, [], ?_, ?_, List.nodup_nil, ?_⟩
  · rw [word, pending, before]
  · rw [pending, List.append_nil]
  · rw [happened, List.append_nil]
  · exact fun _ none => absurd none List.not_mem_nil

theorem Sets.refl (s : Driver) : Sets s s := Sets.quiet rfl rfl rfl rfl rfl rfl

theorem Sets.trans {t u : Driver} (first : Sets s t) (second : Sets t u) : Sets s u := by
  obtain ⟨set, pending, happened, nodup, numbers⟩ := first.more
  obtain ⟨later, laterPending, laterHappened, laterNodup, laterNumbers⟩ := second.more
  have long : t.happened.length = s.happened.length + set.length := by
    rw [happened, List.length_append]
  have longer : u.happened.length = t.happened.length + later.length := by
    rw [laterHappened, List.length_append]
  refine ⟨second.processes.trans first.processes, second.inCsVd.trans first.inCsVd,
    second.returned.trans first.returned, second.word ∘ first.word, set ++ later, ?_, ?_, ?_, ?_⟩
  · rw [laterPending, pending, List.append_assoc]
  · rw [laterHappened, happened, List.append_assoc]
  · refine List.nodup_append.mpr ⟨nodup, laterNodup, ?_⟩
    rintro occurrence old _ new rfl
    have before := (numbers occurrence old).2
    have behind := (laterNumbers occurrence new).1
    omega
  · intro occurrence member
    rcases List.mem_append.mp member with old | new
    · have bounds := numbers occurrence old
      omega
    · have bounds := laterNumbers occurrence new
      omega

theorem sets_setEvent (s : Driver) (event : Event) : Sets s (s.setEvent event) := by
  refine ⟨rfl, rfl, rfl, fun word => ?_, [⟨s.happened.length, event⟩], rfl, rfl,
    List.nodup_singleton _, ?_⟩
  · simp only [setEvent, maskOf, List.foldl_append, List.foldl_cons, List.foldl_nil, word]
  · intro occurrence member
    rw [List.mem_singleton.mp member, setEvent, List.length_append]
    exact ⟨Nat.le_refl _, Nat.lt_succ_self _⟩

theorem sets_isSyncDetected (s : Driver) (detected : Bool) :
    Sets s (s.isSyncDetected detected) := by
  rw [isSyncDetected]
  split
  · split
    · refine Sets.trans ?_ (sets_setEvent _ _)
      exact Sets.quiet rfl rfl rfl rfl rfl rfl
    · exact Sets.quiet rfl rfl rfl rfl rfl rfl
  · split
    · refine Sets.trans ?_ (sets_setEvent _ _)
      exact Sets.quiet rfl rfl rfl rfl rfl rfl
    · exact Sets.quiet rfl rfl rfl rfl rfl rfl

theorem sets_checkVideoStandard (s : Driver) (etPreStandard etDetectedStandard : U32) :
    Sets s (s.checkVideoStandard etPreStandard etDetectedStandard) := by
  rw [checkVideoStandard]
  split
  · exact Sets.quiet rfl rfl rfl rfl rfl rfl
  · split
    · refine Sets.trans ?_ (sets_setEvent _ _)
      exact Sets.quiet rfl rfl rfl rfl rfl rfl
    · exact Sets.refl s

theorem sets_rearm (s : Driver) : Sets s s.rearm := by
  rw [rearm]
  split
  · exact Sets.quiet rfl rfl rfl rfl rfl rfl
  · exact Sets.quiet rfl rfl rfl rfl rfl rfl

theorem sets_thread (s : Driver) (detection : Detection) : Sets s (s.thread detection) := by
  rw [thread]
  split
  · exact Sets.quiet rfl rfl rfl rfl rfl rfl
  · split
    · exact sets_rearm s
    · have synced := sets_isSyncDetected s detection.sync
      dsimp only
      split
      · exact synced.trans (sets_rearm _)
      · exact (synced.trans (sets_checkVideoStandard _ _ _)).trans (sets_rearm _)

/-- Without a whole run the callback sets no event. -/
theorem happened_thread (early : s.exitThreadVd = true ∨ s.inCsVd = true)
    (detection : Detection) :
    (s.thread detection).happened = s.happened ∧ (s.thread detection).pending = s.pending := by
  have rearmed : s.rearm.happened = s.happened ∧ s.rearm.pending = s.pending := by
    rw [rearm]
    split
    · exact ⟨rfl, rfl⟩
    · exact ⟨rfl, rfl⟩
  rw [thread]
  split
  · exact ⟨rfl, rfl⟩
  · rename_i running
    rw [if_pos (early.resolve_left running)]
    exact rearmed

/-! ### The invariant -/

/-- What a process has read and not given back yet. -/
def holds (s : Driver) (p : Nat) : List Occurrence := (s.processes p).fetched.occurrences

def gave (s : Driver) : List Occurrence := s.returned.flatMap Fetched.occurrences

end Driver

/-- A process has read the events. -/
def Point.Holds : Point → Prop
  | clear => True
  | pass getsEvent => getsEvent = true
  | give => True
  | _ => False

namespace Driver

variable {s : Driver}

/-- What holds of every run in which the flag is cleared only where no other process is
in a section. -/
structure Orderly (s : Driver) : Prop extends Delivered s where
  stopped : ∀ p, (s.processes p).point.Inside → s.inCsVd = true
  numbers : ∀ occurrence ∈ s.happened, occurrence.number < s.happened.length
  pending_nodup : s.pending.Nodup
  holds_nodup : ∀ p, (s.holds p).Nodup
  pending_sub : ∀ occurrence ∈ s.pending, occurrence ∈ s.happened
  holds_sub : ∀ p, ∀ occurrence ∈ s.holds p, occurrence ∈ s.happened
  gave_sub : ∀ occurrence ∈ s.gave, occurrence ∈ s.happened
  reading : ∀ p, s.holds p ≠ [] → (s.processes p).point.Holds
  clearing : ∀ p, (s.processes p).point = .clear →
    ∀ occurrence ∈ s.pending, occurrence ∈ s.holds p
  cleared : ∀ p, (s.processes p).point ≠ .clear →
    ∀ occurrence ∈ s.holds p, occurrence ∉ s.pending
  alone : ∀ p q, p ≠ q →
    ¬ ((s.processes p).point.Inside ∧ (s.processes q).point.Inside) →
      ∀ occurrence ∈ s.holds p, occurrence ∉ s.holds q
  gave_pending : ∀ occurrence ∈ s.gave, occurrence ∉ s.pending
  gave_holds : ∀ occurrence ∈ s.gave, ∀ p, occurrence ∉ s.holds p

theorem orderly_init (inTuning : Bool) (u8StdDetStableCnt : BitVec 8) :
    (Driver.init inTuning u8StdDetStableCnt).Orderly := by
  have none : ∀ {holds : Occurrence → Prop}, ∀ occurrence ∈ ([] : List Occurrence),
      holds occurrence := fun _ member => absurd member List.not_mem_nil
  exact
    { accounted := none
      once := List.nodup_nil
      word := rfl
      read := fun _ => rfl
      given := fun _ member => absurd member List.not_mem_nil
      stopped := fun _ impossible => impossible.elim
      numbers := none
      pending_nodup := List.nodup_nil
      holds_nodup := fun _ => List.nodup_nil
      pending_sub := none
      holds_sub := fun _ => none
      gave_sub := none
      reading := fun _ some => absurd rfl some
      clearing := fun _ _ => none
      cleared := fun _ _ => none
      alone := fun _ _ _ _ => none
      gave_pending := none
      gave_holds := none }

/-- The callback keeps the order if it sets events only while no process is in a
section. -/
theorem Orderly.sets {t : Driver} (orderly : s.Orderly) (sets : Sets s t)
    (early : (∀ p, ¬ (s.processes p).point.Inside) ∨
      t.happened = s.happened ∧ t.pending = s.pending) : t.Orderly := by
  obtain ⟨processes, inCsVd, returned, word, set, pending, happened, nodup, numbers⟩ := sets
  have same : t.holds = s.holds := by
    funext p
    rw [holds, holds, processes]
  have gaveSame : t.gave = s.gave := by rw [gave, gave, returned]
  have fresh : ∀ occurrence ∈ set, occurrence ∉ s.happened := fun occurrence new old =>
    Nat.not_lt.mpr (numbers occurrence new).1 (orderly.numbers occurrence old)
  have old : ∀ occurrence ∈ s.happened, occurrence ∉ s.pending → occurrence ∉ t.pending := by
    intro occurrence member out
    rw [pending, List.mem_append, not_or]
    exact ⟨out, fun new => fresh occurrence new member⟩
  refine ⟨⟨?_, ?_, word orderly.word, ?_, ?_⟩, ?_, ?_, ?_, ?_, ?_, ?_, ?_, ?_, ?_, ?_, ?_, ?_,
    ?_⟩
  · rw [happened, pending, returned, processes]
    intro occurrence member
    rcases List.mem_append.mp member with before | new
    · exact (orderly.accounted occurrence before).imp_left (List.mem_append_left _)
    · exact Or.inl (List.mem_append_right _ new)
  · rw [returned]
    exact orderly.once
  · rw [processes]
    exact orderly.read
  · rw [returned]
    exact orderly.given
  · rw [processes, inCsVd]
    exact orderly.stopped
  · intro occurrence member
    have long : t.happened.length = s.happened.length + set.length := by
      rw [happened, List.length_append]
    rcases List.mem_append.mp (happened ▸ member) with before | new
    · have := orderly.numbers occurrence before
      omega
    · exact (numbers occurrence new).2
  · rw [pending]
    refine List.nodup_append.mpr ⟨orderly.pending_nodup, nodup, ?_⟩
    rintro occurrence before _ new rfl
    exact fresh occurrence new (orderly.pending_sub occurrence before)
  · rw [same]
    exact orderly.holds_nodup
  · rw [pending, happened]
    intro occurrence member
    exact List.mem_append.mpr
      ((List.mem_append.mp member).imp_left (orderly.pending_sub occurrence))
  · rw [same, happened]
    exact fun p occurrence member =>
      List.mem_append_left _ (orderly.holds_sub p occurrence member)
  · rw [gaveSame, happened]
    exact fun occurrence member => List.mem_append_left _ (orderly.gave_sub occurrence member)
  · rw [same, processes]
    exact orderly.reading
  · rw [same, processes]
    intro p clear
    rcases early with none | quiet
    · exact absurd (by rw [clear]; trivial) (none p)
    · rw [quiet.2]
      exact orderly.clearing p clear
  · rw [same, processes]
    intro p apart occurrence member
    exact old occurrence (orderly.holds_sub p occurrence member)
      (orderly.cleared p apart occurrence member)
  · rw [same, processes]
    exact orderly.alone
  · rw [gaveSame]
    intro occurrence member
    exact old occurrence (orderly.gave_sub occurrence member)
      (orderly.gave_pending occurrence member)
  · rw [gaveSame, same]
    exact orderly.gave_holds

/-- The points of two states of a process: one may follow the other without a change of
what has been read. -/
structure Follows (s : Driver) (p : Nat) (point : Point) (inCsVd : Bool) : Prop where
  stopped : ∀ q, (Function.update s.processes p
    { s.processes p with point := point } q).point.Inside → inCsVd = true
  notFrom : (s.processes p).point ≠ .clear
  notTo : point ≠ .clear
  reading : (s.processes p).point.Holds → point.Holds
  leaves : (s.processes p).point.Inside → point.Inside ∨
    ∀ q, q ≠ p → ¬ (s.processes q).point.Inside

/-- A process goes on, and what has been read stays as it is. -/
theorem Orderly.moves {t : Driver} (orderly : s.Orderly) {p : Nat} {point : Point}
    (processes : t.processes = (s.goTo p point).processes) (word : t.eventsVd = s.eventsVd)
    (pending : t.pending = s.pending) (happened : t.happened = s.happened)
    (returned : t.returned = s.returned) (follows : s.Follows p point t.inCsVd) :
    t.Orderly := by
  have fetched : ∀ q, (t.processes q).fetched = (s.processes q).fetched := by
    intro q
    rw [processes, goTo]
    by_cases here : q = p
    · rw [here]
      dsimp only
      rw [Function.update_self]
    · dsimp only
      rw [Function.update_of_ne here]
  have points : ∀ q, q ≠ p → (t.processes q).point = (s.processes q).point := by
    intro q apart
    rw [processes, goTo]
    dsimp only
    rw [Function.update_of_ne apart]
  have here : (t.processes p).point = point := by
    rw [processes, goTo]
    dsimp only
    rw [Function.update_self]
  have same : t.holds = s.holds := by
    funext q
    rw [holds, holds, fetched]
  have gaveSame : t.gave = s.gave := by rw [gave, gave, returned]
  have clear : ∀ q, (t.processes q).point = .clear ↔ (s.processes q).point = .clear := by
    intro q
    by_cases same : q = p
    · rw [same, here]
      exact iff_of_false follows.notTo follows.notFrom
    · rw [points q same]
  refine ⟨⟨?_, ?_, ?_, ?_, ?_⟩, ?_, ?_, ?_, ?_, ?_, ?_, ?_, ?_, ?_, ?_, ?_, ?_, ?_⟩
  · rw [happened, pending, returned]
    intro occurrence member
    simp only [fetched]
    exact orderly.accounted occurrence member
  · rw [returned]
    exact orderly.once
  · rw [word, pending]
    exact orderly.word
  · intro q
    rw [fetched]
    exact orderly.read q
  · rw [returned]
    exact orderly.given
  · rw [processes]
    exact follows.stopped
  · rw [happened]
    exact orderly.numbers
  · rw [pending]
    exact orderly.pending_nodup
  · rw [same]
    exact orderly.holds_nodup
  · rw [pending, happened]
    exact orderly.pending_sub
  · rw [same, happened]
    exact orderly.holds_sub
  · rw [gaveSame, happened]
    exact orderly.gave_sub
  · rw [same]
    intro q some
    by_cases this : q = p
    · rw [this, here]
      exact follows.reading (orderly.reading p (this ▸ some))
    · rw [points q this]
      exact orderly.reading q some
  · rw [same, pending]
    exact fun q at_ => orderly.clearing q ((clear q).mp at_)
  · rw [same, pending]
    exact fun q apart => orderly.cleared q fun at_ => apart ((clear q).mpr at_)
  · rw [same]
    intro q r apart outside
    refine orderly.alone q r apart fun both => ?_
    by_cases first : q = p
    · rw [first] at both apart outside
      rcases follows.leaves both.1 with stays | none
      · rw [here, points r (Ne.symm apart)] at outside
        exact outside ⟨stays, both.2⟩
      · exact none r (Ne.symm apart) both.2
    · by_cases second : r = p
      · rw [second] at both apart outside
        rcases follows.leaves both.2 with stays | none
        · rw [here, points q apart] at outside
          exact outside ⟨both.1, stays⟩
        · exact none q apart both.1
      · rw [points q first, points r second] at outside
        exact outside both
  · rw [gaveSame, pending]
    exact orderly.gave_pending
  · rw [gaveSame, same]
    exact orderly.gave_holds

/-- What holds of the new state of a process and of the others' old states. -/
theorem forall_update (holds : Nat → Process → Prop) {p : Nat} {process : Process}
    (new : holds p process) (old : ∀ q, q ≠ p → holds q (s.processes q)) (q : Nat) :
    holds q (Function.update s.processes p process q) := by
  by_cases here : q = p
  · rw [here, Function.update_self]
    exact new
  · rw [Function.update_of_ne here]
    exact old q here

/-- Two processes that are not both in a section hold different events, if that is so of a
process in its new state and each of the others. -/
theorem alone_update (orderly : s.Orderly) {p : Nat} {process : Process}
    (new : ∀ q, q ≠ p → ¬ (process.point.Inside ∧ (s.processes q).point.Inside) →
      ∀ occurrence ∈ process.fetched.occurrences, occurrence ∉ s.holds q) (q r : Nat)
    (apart : q ≠ r)
    (outside : ¬ ((Function.update s.processes p process q).point.Inside ∧
      (Function.update s.processes p process r).point.Inside)) :
    ∀ occurrence ∈ (Function.update s.processes p process q).fetched.occurrences,
      occurrence ∉ (Function.update s.processes p process r).fetched.occurrences := by
  by_cases first : q = p
  · subst first
    rw [Function.update_self, Function.update_of_ne (Ne.symm apart)] at outside ⊢
    exact new r (Ne.symm apart) outside
  · by_cases second : r = p
    · subst second
      rw [Function.update_self, Function.update_of_ne first] at outside ⊢
      exact fun occurrence held there =>
        new q apart (fun both => outside both.symm) occurrence there held
    · rw [Function.update_of_ne first, Function.update_of_ne second] at outside ⊢
      exact orderly.alone q r apart outside

/-- `etEvent = _ReadVDEvents` -/
theorem Orderly.reads (orderly : s.Orderly) {p : Nat}
    (here : (s.processes p).point = .work .getEvent) : (s.step p).Orderly := by
  have empty : s.holds p = [] := by
    by_contra some
    have reading := orderly.reading p some
    rw [here] at reading
    exact reading
  have inside : (s.processes p).point.Inside := by
    rw [here]
    trivial
  rw [step]
  simp only [here]
  refine ⟨⟨?_, orderly.once, orderly.word, ?_, orderly.given⟩, ?_, orderly.numbers,
    orderly.pending_nodup, ?_, orderly.pending_sub, ?_, orderly.gave_sub, ?_, ?_, ?_, ?_,
    orderly.gave_pending, ?_⟩
  · intro occurrence member
    refine (orderly.accounted occurrence member).imp_right (Or.imp_left ?_)
    rintro ⟨q, held⟩
    refine ⟨q, ?_⟩
    by_cases same : q = p
    · rw [same, show (s.processes p).fetched.occurrences = [] from empty] at held
      exact absurd held List.not_mem_nil
    · dsimp only
      rw [Function.update_of_ne same]
      exact held
  · exact forall_update
      (fun _ process => process.fetched.etEvent = maskOf process.fetched.occurrences)
      orderly.word fun q _ => orderly.read q
  · exact forall_update (fun _ process => process.point.Inside → s.inCsVd = true)
      (fun _ => orderly.stopped p inside) fun q _ => orderly.stopped q
  · exact forall_update (fun _ process => process.fetched.occurrences.Nodup)
      orderly.pending_nodup fun q _ => orderly.holds_nodup q
  · exact forall_update
      (fun _ process => ∀ occurrence ∈ process.fetched.occurrences, occurrence ∈ s.happened)
      orderly.pending_sub fun q _ => orderly.holds_sub q
  · exact forall_update
      (fun _ process => process.fetched.occurrences ≠ [] → process.point.Holds)
      (fun _ => trivial) fun q _ => orderly.reading q
  · exact forall_update
      (fun _ process => process.point = .clear →
        ∀ occurrence ∈ s.pending, occurrence ∈ process.fetched.occurrences)
      (fun _ _ member => member) fun q _ => orderly.clearing q
  · exact forall_update
      (fun _ process => process.point ≠ .clear →
        ∀ occurrence ∈ process.fetched.occurrences, occurrence ∉ s.pending)
      (fun apart => absurd rfl apart) fun q _ => orderly.cleared q
  · refine alone_update orderly fun q _ outside occurrence waits held => ?_
    have away : (s.processes q).point ≠ .clear := fun clear =>
      outside ⟨trivial, by rw [clear]; trivial⟩
    exact orderly.cleared q away occurrence held waits
  · intro occurrence gave
    exact forall_update (fun _ process => occurrence ∉ process.fetched.occurrences)
      (orderly.gave_pending occurrence gave) fun q _ => orderly.gave_holds occurrence gave q

/-- `_SetVDEvents(0)` -/
theorem Orderly.clears (orderly : s.Orderly) {p : Nat}
    (here : (s.processes p).point = .clear) : (s.step p).Orderly := by
  have inside : (s.processes p).point.Inside := by
    rw [here]
    trivial
  have none : ∀ occurrence : Occurrence, occurrence ∉ [] := fun _ => List.not_mem_nil
  rw [step]
  simp only [here]
  refine ⟨⟨?_, orderly.once, rfl, ?_, orderly.given⟩, ?_, orderly.numbers, List.nodup_nil, ?_,
    fun occurrence member => absurd member (none occurrence), ?_, orderly.gave_sub, ?_, ?_, ?_,
    ?_, fun occurrence _ => none occurrence, ?_⟩
  · intro occurrence member
    refine Or.inr ?_
    have held : (∃ q, occurrence ∈ s.holds q) ∨ occurrence ∈ s.gave := by
      rcases orderly.accounted occurrence member with waits | later
      · exact Or.inl ⟨p, orderly.clearing p here occurrence waits⟩
      · exact later
    refine held.imp_left fun ⟨q, held⟩ => ⟨q, ?_⟩
    exact forall_update
      (fun r process => r = q → occurrence ∈ process.fetched.occurrences)
      (fun same => same ▸ held) (fun r _ same => same ▸ held) q rfl
  · exact forall_update
      (fun _ process => process.fetched.etEvent = maskOf process.fetched.occurrences)
      (orderly.read p) fun q _ => orderly.read q
  · exact forall_update (fun _ process => process.point.Inside → s.inCsVd = true)
      (fun _ => orderly.stopped p inside) fun q _ => orderly.stopped q
  · exact forall_update (fun _ process => process.fetched.occurrences.Nodup)
      (orderly.holds_nodup p) fun q _ => orderly.holds_nodup q
  · exact forall_update
      (fun _ process => ∀ occurrence ∈ process.fetched.occurrences, occurrence ∈ s.happened)
      (orderly.holds_sub p) fun q _ => orderly.holds_sub q
  · exact forall_update
      (fun _ process => process.fetched.occurrences ≠ [] → process.point.Holds)
      (fun _ => rfl) fun q _ => orderly.reading q
  · exact fun _ _ occurrence member => absurd member (none occurrence)
  · exact fun _ _ occurrence _ => none occurrence
  · refine alone_update orderly fun q apart outside => ?_
    exact orderly.alone p q (Ne.symm apart) fun both => outside ⟨trivial, both.2⟩
  · intro occurrence gave
    exact forall_update (fun _ process => occurrence ∉ process.fetched.occurrences)
      (orderly.gave_holds occurrence gave p) fun q _ => orderly.gave_holds occurrence gave q

/-- `return etEvent` -/
theorem Orderly.gives (orderly : s.Orderly) {p : Nat}
    (here : (s.processes p).point = .give) : (s.step p).Orderly := by
  have none : ∀ occurrence : Occurrence, occurrence ∉ [] := fun _ => List.not_mem_nil
  have outside : ¬ (s.processes p).point.Inside := by
    rw [here]
    exact id
  have away : (s.processes p).point ≠ .clear := by
    rw [here]
    exact Point.noConfusion
  have more : (s.returned ++ [(s.processes p).fetched]).flatMap Fetched.occurrences =
      s.gave ++ s.holds p := by
    rw [List.flatMap_append, List.flatMap_singleton]
    rfl
  have gaveStep : (s.step p).gave = s.gave ++ s.holds p := by
    rw [gave, step]
    simp only [here]
    exact more
  have given : ∀ occurrence ∈ (s.step p).gave,
      occurrence ∈ s.gave ∨ occurrence ∈ s.holds p := by
    rw [gaveStep]
    exact fun occurrence => List.mem_append.mp
  rw [step] at given ⊢
  simp only [here] at given ⊢
  refine ⟨⟨?_, ?_, orderly.word, ?_, ?_⟩, ?_, orderly.numbers, orderly.pending_nodup, ?_,
    orderly.pending_sub, ?_, ?_, ?_, ?_, ?_, ?_, ?_, ?_⟩
  · intro occurrence member
    refine (orderly.accounted occurrence member).imp_right fun later => ?_
    rcases later with ⟨q, held⟩ | gave
    · by_cases same : q = p
      · subst same
        refine Or.inr ?_
        rw [more]
        exact List.mem_append_right _ held
      · refine Or.inl ⟨q, ?_⟩
        dsimp only
        rw [Function.update_of_ne same]
        exact held
    · refine Or.inr ?_
      rw [more]
      exact List.mem_append_left _ gave
  · rw [more]
    refine List.nodup_append.mpr ⟨orderly.once, orderly.holds_nodup p, ?_⟩
    rintro occurrence gave _ held rfl
    exact orderly.gave_holds occurrence gave p held
  · exact forall_update
      (fun _ process => process.fetched.etEvent = maskOf process.fetched.occurrences)
      rfl fun q _ => orderly.read q
  · intro fetched member
    rcases List.mem_append.mp member with old | new
    · exact orderly.given fetched old
    · rw [List.mem_singleton.mp new]
      exact orderly.read p
  · exact forall_update (fun _ process => process.point.Inside → s.inCsVd = true)
      (fun impossible => impossible.elim) fun q _ => orderly.stopped q
  · exact forall_update (fun _ process => process.fetched.occurrences.Nodup)
      List.nodup_nil fun q _ => orderly.holds_nodup q
  · exact forall_update
      (fun _ process => ∀ occurrence ∈ process.fetched.occurrences, occurrence ∈ s.happened)
      (fun occurrence member => absurd member (none occurrence)) fun q _ => orderly.holds_sub q
  · intro occurrence member
    rcases given occurrence member with gave | held
    · exact orderly.gave_sub occurrence gave
    · exact orderly.holds_sub p occurrence held
  · exact forall_update
      (fun _ process => process.fetched.occurrences ≠ [] → process.point.Holds)
      (fun some => absurd rfl some) fun q _ => orderly.reading q
  · exact forall_update
      (fun _ process => process.point = .clear →
        ∀ occurrence ∈ s.pending, occurrence ∈ process.fetched.occurrences)
      (fun impossible => Point.noConfusion impossible) fun q _ => orderly.clearing q
  · exact forall_update
      (fun _ process => process.point ≠ .clear →
        ∀ occurrence ∈ process.fetched.occurrences, occurrence ∉ s.pending)
      (fun _ occurrence member => absurd member (none occurrence)) fun q _ => orderly.cleared q
  · exact alone_update orderly fun q _ _ occurrence member => absurd member (none occurrence)
  · intro occurrence member
    rcases given occurrence member with gave | held
    · exact orderly.gave_pending occurrence gave
    · exact orderly.cleared p away occurrence held
  · intro occurrence member
    refine forall_update (fun _ process => occurrence ∉ process.fetched.occurrences)
      (none occurrence) fun q apart => ?_
    rcases given occurrence member with gave | held
    · exact orderly.gave_holds occurrence gave q
    · exact orderly.alone p q (Ne.symm apart) (fun both => outside both.1) occurrence held

/-! ### Runs -/

/-- A process goes on within a section, or outside of one. -/
theorem Orderly.follows (orderly : s.Orderly) {p : Nat} {point next : Point}
    (here : (s.processes p).point = point) (inside : next.Inside ↔ point.Inside)
    (notFrom : point ≠ .clear) (notTo : next ≠ .clear) (reading : point.Holds → next.Holds) :
    s.Follows p next s.inCsVd := by
  subst here
  exact
    { stopped := forall_update (fun _ process => process.point.Inside → s.inCsVd = true)
        (fun stays => orderly.stopped p (inside.mp stays)) fun q _ => orderly.stopped q
      notFrom := notFrom
      notTo := notTo
      reading := reading
      leaves := fun inner => Or.inl (inside.mpr inner) }

/-- A statement of a process keeps the order. -/
theorem Orderly.step (orderly : s.Orderly) {p : Nat} (meets : s.InTurn (.step p)) :
    (s.step p).Orderly := by
  cases here : (s.processes p).point with
  | idle =>
      rw [Driver.step]
      simp only [here]
      exact orderly
  | release =>
      rw [Driver.step]
      simp only [here]
      split
      · exact orderly.moves rfl rfl rfl rfl rfl (orderly.follows here Iff.rfl nofun nofun id)
      · exact orderly.moves rfl rfl rfl rfl rfl (orderly.follows here Iff.rfl nofun nofun id)
  | guard =>
      rw [Driver.step]
      simp only [here]
      split
      · exact orderly.moves rfl rfl rfl rfl rfl (orderly.follows here Iff.rfl nofun nofun id)
      · exact orderly.moves rfl rfl rfl rfl rfl (orderly.follows here Iff.rfl nofun nofun id)
  | look =>
      rw [Driver.step]
      simp only [here]
      split
      · exact orderly.moves rfl rfl rfl rfl rfl (orderly.follows here Iff.rfl nofun nofun id)
      · exact orderly.moves rfl rfl rfl rfl rfl (orderly.follows here Iff.rfl nofun nofun id)
  | asleep =>
      rw [Driver.step]
      simp only [here]
      exact orderly.moves rfl rfl rfl rfl rfl (orderly.follows here Iff.rfl nofun nofun id)
  | releaseAgain =>
      rw [Driver.step]
      simp only [here]
      split
      · exact orderly.moves rfl rfl rfl rfl rfl (orderly.follows here Iff.rfl nofun nofun id)
      · exact orderly.moves rfl rfl rfl rfl rfl (orderly.follows here Iff.rfl nofun nofun id)
  | compare etVideoSource =>
      rw [Driver.step]
      simp only [here]
      split
      · exact orderly.moves rfl rfl rfl rfl rfl (orderly.follows here Iff.rfl nofun nofun id)
      · exact orderly.moves rfl rfl rfl rfl rfl (orderly.follows here Iff.rfl nofun nofun id)
  | stop work =>
      have follows : s.Follows p (.work work) true :=
        { stopped := fun _ _ => rfl
          notFrom := by rw [here]; exact nofun
          notTo := nofun
          reading := by rw [here]; exact False.elim
          leaves := fun _ => Or.inl trivial }
      rw [Driver.step]
      simp only [here]
      exact orderly.moves rfl rfl rfl rfl rfl follows
  | work work =>
      cases work with
      | getEvent => exact orderly.reads here
      | setVideoSource etVideoSource =>
          rw [Driver.step]
          simp only [here]
          split
          · exact orderly.moves rfl rfl rfl rfl rfl (orderly.follows here Iff.rfl nofun nofun id)
          · exact orderly.moves rfl rfl rfl rfl rfl
              (orderly.follows here Iff.rfl nofun nofun False.elim)
      | hal =>
          rw [Driver.step]
          simp only [here]
          exact orderly.moves rfl rfl rfl rfl rfl
            (orderly.follows here Iff.rfl nofun nofun False.elim)
  | clear => exact orderly.clears here
  | setSource etVideoSource =>
      rw [Driver.step]
      simp only [here]
      exact orderly.moves rfl rfl rfl rfl rfl (orderly.follows here Iff.rfl nofun nofun id)
  | setStandard =>
      rw [Driver.step]
      simp only [here]
      exact orderly.moves rfl rfl rfl rfl rfl (orderly.follows here Iff.rfl nofun nofun id)
  | setCounter =>
      rw [Driver.step]
      simp only [here]
      exact orderly.moves rfl rfl rfl rfl rfl
        (orderly.follows here Iff.rfl nofun nofun False.elim)
  | pass getsEvent =>
      have others := meets getsEvent here
      have leaves : ∀ next : Point, ¬ next.Inside → next ≠ .clear →
          ((Point.pass getsEvent).Holds → next.Holds) → s.Follows p next false := by
        intro next outside notTo reading
        exact
          { stopped := fun q inside => absurd inside (forall_update
              (fun _ process => ¬ process.point.Inside) outside (fun q apart => others q apart) q)
            notFrom := by rw [here]; exact nofun
            notTo := notTo
            reading := by rw [here]; exact reading
            leaves := fun _ => Or.inr others }
      rw [Driver.step]
      simp only [here]
      cases getsEvent with
      | true =>
          exact orderly.moves rfl rfl rfl rfl rfl (leaves .give id nofun fun _ => trivial)
      | false =>
          exact orderly.moves rfl rfl rfl rfl rfl (leaves .idle id nofun Bool.false_ne_true)
  | give => exact orderly.gives here
  | setExit starts =>
      rw [Driver.step]
      simp only [here]
      exact orderly.moves rfl rfl rfl rfl rfl (orderly.follows here Iff.rfl nofun nofun id)
  | setRelease starts =>
      rw [Driver.step]
      simp only [here]
      exact orderly.moves rfl rfl rfl rfl rfl (orderly.follows here Iff.rfl nofun nofun id)
  | timer starts =>
      rw [Driver.step]
      simp only [here]
      exact orderly.moves rfl rfl rfl rfl rfl (orderly.follows here Iff.rfl nofun nofun id)
  | tuning on =>
      rw [Driver.step]
      simp only [here]
      exact orderly.moves rfl rfl rfl rfl rfl (orderly.follows here Iff.rfl nofun nofun id)

theorem entry_outside (cmd : Ioctl) :
    ¬ cmd.entry.Inside ∧ cmd.entry ≠ .clear := by
  cases cmd <;> exact ⟨id, nofun⟩

/-- In an orderly state the callback runs whole only while no process is in a section. -/
theorem Orderly.excluded (orderly : s.Orderly) (event : VdEvent) : s.Excluded event := by
  cases event with
  | expire detection =>
      intro whole p inside
      have stopped := orderly.stopped p inside
      rw [whole.2.2] at stopped
      exact Bool.false_ne_true stopped
  | ioctl p cmd => trivial
  | step p => trivial

theorem Orderly.after (orderly : s.Orderly) {event : VdEvent} (meets : s.InTurn event) :
    (s.after event).Orderly := by
  cases event with
  | ioctl p cmd =>
      rw [Driver.after]
      split
      · rename_i here
        have outside := entry_outside cmd
        exact orderly.moves rfl rfl rfl rfl rfl
          (orderly.follows here (iff_of_false outside.1 id) nofun outside.2 False.elim)
      · exact orderly
  | step p => exact orderly.step meets
  | expire detection =>
      rw [Driver.after]
      split
      · rename_i expired
        refine orderly.sets (sets_thread s detection) ?_
        by_cases early : s.exitThreadVd = true ∨ s.inCsVd = true
        · exact Or.inr (happened_thread early detection)
        · rw [not_or, Bool.not_eq_true, Bool.not_eq_true] at early
          exact Or.inl (orderly.excluded (.expire detection) ⟨expired, early.1, early.2⟩)
      · exact orderly

end Driver

/-- Every section excludes the callback and every event is delivered once, in a run in
which the flag is cleared only while no other process is in a section.  Where it is cleared
otherwise, the next expiration of the timer runs the callback in a section. -/
theorem excluded_of_inTurn (inTuning : Bool) (u8StdDetStableCnt : BitVec 8)
    (events : List VdEvent) :
    (Run.Meets Driver.after Driver.InTurn (.init inTuning u8StdDetStableCnt) events →
      Run.Meets Driver.after (fun s event => s.Excluded event ∧ (s.after event).Delivered)
        (.init inTuning u8StdDetStableCnt) events) ∧
      ∀ (s : Driver) (event : VdEvent) (detection : Detection), ¬ s.InTurn event →
        s.timer = true → s.exitThreadVd = false →
          ¬ (s.after event).Excluded (.expire detection) := by
  constructor
  · intro meets
    refine @Run.Meets.imp _ _ Driver.after Driver.InTurn _ Driver.Orderly
      (fun s event orderly met => ⟨orderly.excluded event, (orderly.after met).toDelivered⟩)
      (fun s event orderly met => orderly.after met) _ _ meets
      (Driver.orderly_init inTuning u8StdDetStableCnt)
  · intro s event detection untimely timer running excluded
    cases event with
    | ioctl p cmd => exact untimely trivial
    | expire detection => exact untimely trivial
    | step p =>
        simp only [Driver.InTurn, not_forall, not_not] at untimely
        obtain ⟨getsEvent, here, q, apart, inside⟩ := untimely
        have next : s.after (.step p) =
            { s.goTo p (if getsEvent then .give else .idle) with inCsVd := false } := by
          rw [Driver.after, Driver.step]
          simp only [here]
        rw [next] at excluded
        refine excluded ⟨timer, running, rfl⟩ q ?_
        change (Function.update s.processes p _ q).point.Inside
        rw [Function.update_of_ne apart]
        exact inside

/-- A process is in `_MDrv_VD_GetEvent` behind `_ReadVDEvents` when another one clears the
flag; the callback sets an event, which the first process then clears. -/
def lostEvent : List VdEvent :=
  [.ioctl 0 .threadStart, .step 0, .step 0, .step 0, .expire ⟨true, 0, 0, false⟩,
    .ioctl 0 .waitEvent, .step 0, .step 0, .step 0, .step 0, .step 0, .step 0,
    .ioctl 1 .resetAgc, .step 1, .step 1, .step 1,
    .expire ⟨true, 1, 0, false⟩, .expire ⟨false, 0, 0, false⟩]

theorem event_cleared_unread :
    ¬ Run.Meets Driver.after (fun s event => s.Excluded event ∧ (s.after event).Delivered)
      (.init false 0) (lostEvent ++ [.step 0]) := by
  intro run
  have delivered := (Run.meets_append.mp run).2.1.2
  rcases delivered.accounted ⟨1, .videoFormatChanged⟩ (by decide) with waits | held | gave
  · exact absurd waits (by decide)
  · obtain ⟨p, held⟩ := held
    match p, held with
    | 0, held => exact absurd held (by decide)
    | 1, held => exact absurd held (by decide)
    | p + 2, held => exact absurd held List.not_mem_nil
  · exact absurd gave (by decide)

end Gp2Firmware.Vd
