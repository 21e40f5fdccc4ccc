import Gp2Firmware.Scaler.SearchLoss
import Gp2Firmware.Scaler.AutoWidth

/-!
# Whether the ADC and its settings are in step

The searches write trial values to the clock and the phase.  `MDrv_Auto_GetActualWidth` writes
a phase too, and `MDrv_Auto_TuneHTotal` sets a total before it knows that the sync is there.
-/

namespace Gp2Firmware.Scaler.AutoTune

/-- The clock and the phase of the ADC are the ones that are set. -/
structure InStep (s : AutoTune) : Prop where
  clock : s.adcClk = s.src.modesetting.u16HorizontalTotal
  phase : s.adcPhase = s.src.modesetting.u8Phase

/-- The fine search follows. -/
def NeedsSearch (sig : Signal) (semWidth : U16) (s : AutoTune) : Prop :=
  s.src.modesetting.u16HorizontalTotal ≠ stdHTotal sig s ∨ semWidth ≠ stdWidth sig s

/-- The sync losses with which `MDrv_Auto_TuneHTotal` returns FALSE. -/
inductive FreqLost (sig : Signal) (s : AutoTune) : Prop where
  | first (lost : (checkSyncLoss sig s).1 = true)
  | turn (last : AutoTune) (there : (checkSyncLoss sig s).1 = false)
      (lost : passes sig 3 s.src.modesetting.u16HorizontalTotal (checkSyncLoss sig s).2 =
        .lost last)
  | search (semWidth : U16) (last : AutoTune) (there : (checkSyncLoss sig s).1 = false)
      (fits : passes sig 3 s.src.modesetting.u16HorizontalTotal (checkSyncLoss sig s).2 =
        .fits semWidth last)
      (needs : NeedsSearch sig semWidth last) (lost : (fineTune sig last).1 = false)

/-- When `MDrv_Auto_Geometry` returns, the ADC is in step, and a sync loss in the frequency step
has left the total. -/
structure LeavesInStep (sig : Signal) (calGain : Bool) (autoTuneType : U8) (s : AutoTune) :
    Prop where
  registers : ∀ result t, geometry sig calGain autoTuneType s = some (result, t) → InStep t
  total : autoTuneType &&& tunesFreq ≠ 0 → FreqLost sig s →
    ∀ result t, geometry sig calGain autoTuneType s = some (result, t) →
      t.src.modesetting.u16HorizontalTotal = s.src.modesetting.u16HorizontalTotal

/-! ### A turn of the first loop -/

/-- The state in which the last turn begins, with so many turns left behind this one. -/
def lastTurn (sig : Signal) : (tryCount : Nat) → AutoTune → AutoTune
  | 0, t => t
  | tryCount + 1, t =>
      match pass sig t.src.modesetting.u16HorizontalTotal t with
      | .retry _ next => lastTurn sig tryCount next
      | _ => t

/-- The total that a turn commits. -/
def turnTotal (sig : Signal) (t : AutoTune) : Option U16 :=
  newTotal sig t.src.modesetting.u16HorizontalTotal (actualEdges sig t).1 t

/-- The sync is lost behind the commit. -/
def LosesBehind (sig : Signal) (t : AutoTune) : Prop :=
  syncLost t.src (sig.sync (actualEdges sig t).2.syncReads) = true

/-- The state behind the commit of a total and the check of the sync. -/
def committed (sig : Signal) (total : U16) (t : AutoTune) : AutoTune :=
  (checkSyncLoss sig (setAdcClk total (setHorizontalTotal total (actualEdges sig t).2))).2

/-- The second width of a turn, and the state behind it. -/
def remeasured (sig : Signal) (total : U16) (t : AutoTune) : U16 × AutoTune :=
  getActualWidth sig (committed sig total t)

section Turn

variable {sig : Signal} {t : AutoTune} {total : U16}

theorem positionLoop_frame {u8RegIndex : U8} {u8Dummy u8Count : Nat}
    {u16ComparePos u16AutoPos : U16} :
    ∃ positions checks, (positionLoop sig u8RegIndex u8Dummy u8Count u16ComparePos u16AutoPos t).2 =
      { t with positionReads := positions, syncReads := checks } := by
  induction u8Dummy generalizing u8Count u16ComparePos u16AutoPos t with
  | zero => exact ⟨_, _, rfl⟩
  | succ u8Dummy inductionHypothesis =>
      rw [positionLoop_succ]
      split
      · exact ⟨_, _, rfl⟩
      · split
        · exact ⟨_, _, rfl⟩
        · obtain ⟨positions, checks, same⟩ := @inductionHypothesis (tried t)
            (nextCount sig u8RegIndex u8Count u16ComparePos t)
            (shown sig u8RegIndex t.positionReads) (shown sig u8RegIndex t.positionReads)
          exact ⟨positions, checks, same⟩

theorem actualEdges_frame :
    ∃ positions checks, (actualEdges sig t).2 =
      { t with adcPhase := 0x00, positionReads := positions, syncReads := checks } := by
  obtain ⟨positions, checks, first⟩ :=
    @positionLoop_frame sig (setAdcPhase 0x00 t) 0x13 20 0 0 0
  obtain ⟨positions', checks', second⟩ := @positionLoop_frame sig (atEnd sig t) 0x15 20 0 0 0
  have start : atEnd sig t = { setAdcPhase 0x00 t with
      positionReads := positions, syncReads := checks } := first
  refine ⟨positions', checks', ?_⟩
  rw [start] at second
  have run : (actualEdges sig t).2 = (getPosition sig 0x15 (atEnd sig t)).2 := rfl
  rw [run, start]
  exact second

theorem committed_frame :
    ∃ positions checks, committed sig total t =
      setAdcClk total (setHorizontalTotal total
        { t with adcPhase := 0x00, positionReads := positions, syncReads := checks }) := by
  obtain ⟨positions, checks, same⟩ := @actualEdges_frame sig t
  refine ⟨positions, checks + 1, ?_⟩
  rw [committed, same, setAdcClk_eq, setAdcClk_eq]
  rfl

theorem remeasured_frame :
    ∃ positions checks, (remeasured sig total t).2 =
      setAdcClk total (setHorizontalTotal total
        { t with adcPhase := 0x00, positionReads := positions, syncReads := checks }) := by
  obtain ⟨_, _, before⟩ := @committed_frame sig t total
  obtain ⟨positions, checks, same⟩ := @actualEdges_frame sig (committed sig total t)
  refine ⟨positions, checks, ?_⟩
  change (actualEdges sig (committed sig total t)).2 = _
  rw [same, before, setAdcClk_eq, setAdcClk_eq]
  rfl

theorem newTotal_congr {edges : U16 × U16} {other : AutoTune} (same : other.src = t.src) :
    newTotal sig total edges other = newTotal sig total edges t := by
  rw [newTotal, newTotal, stdWidth, stdWidth, same]

theorem syncLost_setHorizontalTotal (total : U16) (s : AutoTune) :
    syncLost (setHorizontalTotal total s).src = syncLost s.src := by
  funext r
  rfl

theorem pass_eq :
    pass sig t.src.modesetting.u16HorizontalTotal t =
      match turnTotal sig t with
      | none => .trap
      | some total =>
          if syncLost t.src (sig.sync (actualEdges sig t).2.syncReads) then
            .lost (committed sig total t)
          else if widthFits (stdWidth sig t) (remeasured sig total t).1 then
            .fits (remeasured sig total t).1 (remeasured sig total t).2
          else .retry total (remeasured sig total t).2 := by
  have source := @src_actualEdges sig t
  simp only [pass, turnTotal, newTotal_congr source]
  cases newTotal sig t.src.modesetting.u16HorizontalTotal (actualEdges sig t).1 t with
  | none => rfl
  | some total =>
      obtain ⟨positions, checks, after⟩ := @remeasured_frame sig t total
      have lost : (checkSyncLoss sig (setAdcClk total
          (setHorizontalTotal total (actualEdges sig t).2))).1 =
            syncLost t.src (sig.sync (actualEdges sig t).2.syncReads) := by
        rw [setAdcClk_eq, checkSyncLoss]
        change syncLost (setHorizontalTotal total (actualEdges sig t).2).src _ = _
        rw [syncLost_setHorizontalTotal, source]
        rfl
      have width : stdWidth sig (remeasured sig total t).2 = stdWidth sig t := by
        rw [after, setAdcClk_eq]
        rfl
      rw [remeasured, committed] at width
      simp only [lost, remeasured, committed, width]
      rfl

theorem retry_eq {next : AutoTune}
    (again : pass sig t.src.modesetting.u16HorizontalTotal t = .retry total next) :
    next = (remeasured sig total t).2 := by
  rw [pass_eq] at again
  split at again
  · cases again
  · split at again
    · cases again
    · split at again
      · cases again
      · cases again
        rfl

theorem settings_remeasured :
    (remeasured sig total t).2.src.modesetting.u16HorizontalTotal = total ∧
      (remeasured sig total t).2.src.modesetting.u8Phase = t.src.modesetting.u8Phase := by
  obtain ⟨positions, checks, after⟩ := @remeasured_frame sig t total
  rw [after, setAdcClk_eq]
  exact ⟨rfl, rfl⟩

theorem passes_eq (tryCount : Nat) (t : AutoTune) :
    passes sig (tryCount + 1) t.src.modesetting.u16HorizontalTotal t =
      pass sig (lastTurn sig tryCount t).src.modesetting.u16HorizontalTotal
        (lastTurn sig tryCount t) := by
  induction tryCount generalizing t with
  | zero =>
      rw [passes, lastTurn]
      cases pass sig t.src.modesetting.u16HorizontalTotal t with
      | trap => rfl
      | lost last => rfl
      | fits semWidth last => rfl
      | retry total next => rfl
  | succ tryCount inductionHypothesis =>
      rw [passes, lastTurn]
      cases run : pass sig t.src.modesetting.u16HorizontalTotal t with
      | trap => simp only [run]
      | lost last => simp only [run]
      | fits semWidth last => simp only [run]
      | retry total next =>
          simp only
          have same : total = next.src.modesetting.u16HorizontalTotal := by
            rw [retry_eq run, settings_remeasured.1]
          rw [same]
          exact inductionHypothesis next

theorem phase_lastTurn (tryCount : Nat) (t : AutoTune) :
    (lastTurn sig tryCount t).src.modesetting.u8Phase = t.src.modesetting.u8Phase := by
  induction tryCount generalizing t with
  | zero => rfl
  | succ tryCount inductionHypothesis =>
      rw [lastTurn]
      cases run : pass sig t.src.modesetting.u16HorizontalTotal t with
      | trap => rfl
      | lost last => rfl
      | fits semWidth last => rfl
      | retry total next =>
          simp only
          rw [inductionHypothesis, retry_eq run, settings_remeasured.2]

end Turn

/-! ### The frequency step -/

/-- The clock shows a total once it is written: it takes it, or has shown it before. -/
def ClockShows (clk total : U16) : Prop := total > 3 ∧ total < 3500 ∨ clk = total

/-- The clock that the fine search finds best. -/
def bestClockOf (sig : Signal) (total : U16) (t : AutoTune) : U16 :=
  (tryClocks sig 7 0 (total - minSrcWidthDelta) ⟨0, 0⟩ (remeasured sig total t).2).2.1.bestClock

/-- What the fine search has to meet that follows the turn `t`. -/
structure SearchKeeps (sig : Signal) (start total : U16) (leaves : U8 → Prop) (t : AutoTune) :
    Prop where
  interrupted : ∀ n,
    FirstLoss sig t.src (remeasured sig total t).2.syncReads 112 n →
      total = start ∧
        trialClock (clockBehind t.adcClk total) (total - minSrcWidthDelta) (n / 16 + 1) = total ∧
        leaves (triedBefore 0x00 n)
  finished : Quiet sig t.src (remeasured sig total t).2.syncReads 112 →
    ClockShows (trialClock (clockBehind t.adcClk total) (total - minSrcWidthDelta) 7)
        (total - minSrcWidthDelta + bestClockOf sig total t) ∧
      leaves 120

/-- What the last turn has to meet when it commits a total. -/
structure TurnKeeps (sig : Signal) (start total : U16) (leaves : U8 → Prop) (t : AutoTune) :
    Prop where
  lost : LosesBehind sig t → total = start ∧ ClockShows t.adcClk total ∧ leaves 0x00
  misses : ¬ LosesBehind sig t → widthFits (stdWidth sig t) (remeasured sig total t).1 = false →
    ClockShows (clockBehind t.adcClk total) (stdHTotal sig t) ∧ leaves 0x00
  fits : ¬ LosesBehind sig t → widthFits (stdWidth sig t) (remeasured sig total t).1 = true →
    ¬ NeedsSearch sig (remeasured sig total t).1 (remeasured sig total t).2 →
      ClockShows t.adcClk total ∧ leaves 0x00
  search : ¬ LosesBehind sig t → widthFits (stdWidth sig t) (remeasured sig total t).1 = true →
    NeedsSearch sig (remeasured sig total t).1 (remeasured sig total t).2 →
      SearchKeeps sig start total leaves t

/-- The frequency step leaves the clock in step, a phase with the property, and the total where
it loses the sync. -/
structure FreqLeaves (sig : Signal) (leaves : U8 → Prop) (s : AutoTune) : Prop where
  registers : ∀ result t, tuneHTotal sig s = some (result, t) →
    t.adcClk = t.src.modesetting.u16HorizontalTotal ∧ leaves t.adcPhase
  total : FreqLost sig s → ∀ result t, tuneHTotal sig s = some (result, t) →
    t.src.modesetting.u16HorizontalTotal = s.src.modesetting.u16HorizontalTotal

section Freq

variable {sig : Signal} {s t : AutoTune} {total start : U16} {leaves : U8 → Prop}

theorem clockBehind_eq_iff {clk : U16} : clockBehind clk total = total ↔ ClockShows clk total := by
  rw [clockBehind, ClockShows]
  split
  · rename_i taken
    exact iff_of_true rfl (.inl taken)
  · rename_i refused
    rw [or_iff_right refused]

theorem fineTune_lost {n : Nat}
    (loss : FirstLoss sig s.src s.syncReads 112 n) :
    ∃ last, fineTune sig s = (false, last) ∧ last.src = s.src ∧
      last.adcClk = trialClock s.adcClk (s.src.modesetting.u16HorizontalTotal - minSrcWidthDelta)
        (n / 16 + 1) ∧
      last.adcPhase = triedBefore s.adcPhase n := by
  obtain ⟨found, run⟩ := @tryClocks_lost sig s 7 n 0
    (s.src.modesetting.u16HorizontalTotal - minSrcWidthDelta) ⟨0, 0⟩ loss
  simp only [fineTune, run]
  exact ⟨_, rfl, rfl, rfl, rfl⟩

theorem fineTune_quiet (quiet : Quiet sig s.src s.syncReads 112) :
    ∃ last, fineTune sig s = (true, last) ∧
      last.src.modesetting.u8Phase = s.src.modesetting.u8Phase ∧
      last.src.modesetting.u16HorizontalTotal =
        s.src.modesetting.u16HorizontalTotal - minSrcWidthDelta +
          (tryClocks sig 7 0 (s.src.modesetting.u16HorizontalTotal - minSrcWidthDelta) ⟨0, 0⟩
            s).2.1.bestClock ∧
      last.adcClk = clockBehind
        (trialClock s.adcClk (s.src.modesetting.u16HorizontalTotal - minSrcWidthDelta) 7)
        last.src.modesetting.u16HorizontalTotal ∧
      last.adcPhase = 120 := by
  obtain ⟨found, phase, run, same⟩ := @tryClocks_quiet sig s 7 0
    (s.src.modesetting.u16HorizontalTotal - minSrcWidthDelta) ⟨0, 0⟩ quiet
  generalize after : ({ swept phase (16 * 7) (16 * 7) s with
    adcClk := trialClock s.adcClk
      (s.src.modesetting.u16HorizontalTotal - minSrcWidthDelta) 7 } : AutoTune) = mid at run
  have clock : mid.adcClk = trialClock s.adcClk
      (s.src.modesetting.u16HorizontalTotal - minSrcWidthDelta) 7 := by rw [← after]
  have left : mid.adcPhase = 120 := by
    rw [← after]
    exact same
  have source : mid.src = s.src := by
    rw [← after]
    rfl
  simp only [fineTune, run, setAdcClk_eq]
  refine ⟨_, rfl, ?_, rfl, ?_, left⟩
  · change mid.src.modesetting.u8Phase = _
    rw [source]
  · rw [← clock]
    rfl

theorem phase_fineTune {result : Bool} (run : fineTune sig s = (result, t)) :
    t.src.modesetting.u8Phase = s.src.modesetting.u8Phase := by
  obtain quiet | ⟨n, loss⟩ := @quiet_or_firstLoss sig s.src s.syncReads 112
  · obtain ⟨last, other, kept, -⟩ := fineTune_quiet quiet
    rw [run] at other
    cases other
    exact kept
  · obtain ⟨last, other, kept, -⟩ := fineTune_lost loss
    rw [run] at other
    cases other
    rw [kept]

theorem remeasured_kept :
    (remeasured sig total t).2.adcClk = clockBehind t.adcClk total ∧
      (remeasured sig total t).2.adcPhase = 0x00 ∧
      syncLost (remeasured sig total t).2.src = syncLost t.src ∧
      stdHTotal sig (remeasured sig total t).2 = stdHTotal sig t := by
  obtain ⟨positions, checks, after⟩ := @remeasured_frame sig t total
  rw [after, setAdcClk_eq]
  exact ⟨rfl, rfl, rfl, rfl⟩

theorem committed_kept :
    (committed sig total t).adcClk = clockBehind t.adcClk total ∧
      (committed sig total t).adcPhase = 0x00 ∧
      (committed sig total t).src.modesetting.u16HorizontalTotal = total ∧
      (committed sig total t).src.modesetting.u8Phase = t.src.modesetting.u8Phase := by
  obtain ⟨positions, checks, after⟩ := @committed_frame sig t total
  rw [after, setAdcClk_eq]
  exact ⟨rfl, rfl, rfl, rfl⟩

theorem freqLeaves_iff {result : Bool} (run : tuneHTotal sig s = some (result, t)) :
    FreqLeaves sig leaves s ↔
      (t.adcClk = t.src.modesetting.u16HorizontalTotal ∧ leaves t.adcPhase) ∧
        (FreqLost sig s → t.src.modesetting.u16HorizontalTotal =
          s.src.modesetting.u16HorizontalTotal) := by
  constructor
  · intro ⟨registers, kept⟩
    exact ⟨registers _ _ run, fun lost => kept lost _ _ run⟩
  · intro ⟨registers, kept⟩
    constructor
    · intro other last same
      rw [run] at same
      cases same
      exact registers
    · intro lost other last same
      rw [run] at same
      cases same
      exact kept lost

theorem turnKeeps_of_lost (lost : LosesBehind sig t) :
    TurnKeeps sig start total leaves t ↔
      (ClockShows t.adcClk total ∧ leaves 0x00) ∧ total = start := by
  constructor
  · intro keeps
    obtain ⟨same, shows', left⟩ := keeps.lost lost
    exact ⟨⟨shows', left⟩, same⟩
  · intro ⟨⟨shows', left⟩, same⟩
    exact ⟨fun _ => ⟨same, shows', left⟩, fun there => absurd lost there,
      fun there => absurd lost there, fun there => absurd lost there⟩

theorem turnKeeps_of_misses (there : ¬ LosesBehind sig t)
    (misses : widthFits (stdWidth sig t) (remeasured sig total t).1 = false) :
    TurnKeeps sig start total leaves t ↔
      ClockShows (clockBehind t.adcClk total) (stdHTotal sig t) ∧ leaves 0x00 := by
  have never : ¬ widthFits (stdWidth sig t) (remeasured sig total t).1 = true :=
    Bool.eq_false_iff.mp misses
  constructor
  · exact fun keeps => keeps.misses there misses
  · exact fun both => ⟨fun lost => absurd lost there, fun _ _ => both,
      fun _ fits => absurd fits never, fun _ fits => absurd fits never⟩

theorem turnKeeps_of_fits (there : ¬ LosesBehind sig t)
    (fits : widthFits (stdWidth sig t) (remeasured sig total t).1 = true)
    (settled : ¬ NeedsSearch sig (remeasured sig total t).1 (remeasured sig total t).2) :
    TurnKeeps sig start total leaves t ↔ ClockShows t.adcClk total ∧ leaves 0x00 := by
  constructor
  · exact fun keeps => keeps.fits there fits settled
  · exact fun both => ⟨fun lost => absurd lost there,
      fun _ misses => absurd fits (Bool.eq_false_iff.mp misses), fun _ _ _ => both,
      fun _ _ needs => absurd needs settled⟩

theorem turnKeeps_of_search (there : ¬ LosesBehind sig t)
    (fits : widthFits (stdWidth sig t) (remeasured sig total t).1 = true)
    (needs : NeedsSearch sig (remeasured sig total t).1 (remeasured sig total t).2) :
    TurnKeeps sig start total leaves t ↔ SearchKeeps sig start total leaves t := by
  constructor
  · exact fun keeps => keeps.search there fits needs
  · exact fun keeps => ⟨fun lost => absurd lost there,
      fun _ misses => absurd fits (Bool.eq_false_iff.mp misses),
      fun _ _ settled => absurd needs settled, fun _ _ _ => keeps⟩

theorem searchKeeps_of_lost {n : Nat}
    (loss : FirstLoss sig t.src (remeasured sig total t).2.syncReads 112 n) :
    SearchKeeps sig start total leaves t ↔
      (trialClock (clockBehind t.adcClk total) (total - minSrcWidthDelta) (n / 16 + 1) = total ∧
        leaves (triedBefore 0x00 n)) ∧ total = start := by
  constructor
  · intro keeps
    obtain ⟨same, shows', left⟩ := keeps.interrupted n loss
    exact ⟨⟨shows', left⟩, same⟩
  · intro ⟨⟨shows', left⟩, same⟩
    constructor
    · intro m other
      rw [← firstLoss_unique loss other]
      exact ⟨same, shows', left⟩
    · exact fun quiet => absurd loss (not_firstLoss quiet)

theorem searchKeeps_of_quiet
    (quiet : Quiet sig t.src (remeasured sig total t).2.syncReads 112) :
    SearchKeeps sig start total leaves t ↔
      ClockShows (trialClock (clockBehind t.adcClk total) (total - minSrcWidthDelta) 7)
          (total - minSrcWidthDelta + bestClockOf sig total t) ∧
        leaves 120 := by
  constructor
  · exact fun keeps => keeps.finished quiet
  · exact fun both => ⟨fun n loss => absurd loss (not_firstLoss quiet), fun _ => both⟩

theorem tuneHTotal_eq (there : (checkSyncLoss sig s).1 = false) :
    tuneHTotal sig s =
      match pass sig (lastTurn sig 2 (checkSyncLoss sig s).2).src.modesetting.u16HorizontalTotal
        (lastTurn sig 2 (checkSyncLoss sig s).2) with
      | .trap => none
      | .lost s => some (false, s)
      | .retry _ s =>
          some (false, setAdcClk (stdHTotal sig s) (setHorizontalTotal (stdHTotal sig s) s))
      | .fits semWidth s =>
          if s.src.modesetting.u16HorizontalTotal ≠ stdHTotal sig s ∨
              semWidth ≠ stdWidth sig s then
            some (fineTune sig s)
          else some (true, s) := by
  rw [← passes_eq]
  exact if_neg (Bool.eq_false_iff.mp there)

theorem freqLost_iff (there : (checkSyncLoss sig s).1 = false) :
    FreqLost sig s ↔
      match pass sig (lastTurn sig 2 (checkSyncLoss sig s).2).src.modesetting.u16HorizontalTotal
        (lastTurn sig 2 (checkSyncLoss sig s).2) with
      | .trap => False
      | .lost _ => True
      | .retry _ _ => False
      | .fits semWidth last => NeedsSearch sig semWidth last ∧ (fineTune sig last).1 = false := by
  rw [← passes_eq]
  have same : (checkSyncLoss sig s).2.src.modesetting.u16HorizontalTotal =
    s.src.modesetting.u16HorizontalTotal := rfl
  rw [same]
  constructor
  · rintro (lost | ⟨last, -, lost⟩ | ⟨semWidth, last, -, fits, needs, lost⟩)
    · rw [there] at lost
      cases lost
    · rw [lost]
      trivial
    · rw [fits]
      exact ⟨needs, lost⟩
  · cases run : passes sig 3 s.src.modesetting.u16HorizontalTotal (checkSyncLoss sig s).2 with
    | trap => exact False.elim
    | lost last => exact fun _ => .turn last there run
    | retry total last => exact False.elim
    | fits semWidth last => exact fun both => .search semWidth last there run both.1 both.2

/-- The sync is there to begin with, and the last turn begins in `t` and commits the total. -/
structure Commits (sig : Signal) (s t : AutoTune) (total : U16) : Prop where
  there : (checkSyncLoss sig s).1 = false
  last : lastTurn sig 2 (checkSyncLoss sig s).2 = t
  commits : turnTotal sig t = some total

section Ends

variable (commits : Commits sig s t total)

include commits

theorem tuneHTotal_of_lost (lost : LosesBehind sig t) :
    tuneHTotal sig s = some (false, committed sig total t) ∧ FreqLost sig s := by
  rw [LosesBehind] at lost
  rw [tuneHTotal_eq commits.there, freqLost_iff commits.there, commits.last, pass_eq,
    commits.commits]
  simp only [lost, if_true, and_self]

theorem tuneHTotal_of_misses (inSync : ¬ LosesBehind sig t)
    (misses : widthFits (stdWidth sig t) (remeasured sig total t).1 = false) :
    tuneHTotal sig s = some (false, setAdcClk (stdHTotal sig (remeasured sig total t).2)
        (setHorizontalTotal (stdHTotal sig (remeasured sig total t).2)
          (remeasured sig total t).2)) ∧
      ¬ FreqLost sig s := by
  rw [LosesBehind, Bool.not_eq_true] at inSync
  rw [tuneHTotal_eq commits.there, freqLost_iff commits.there, commits.last, pass_eq,
    commits.commits]
  simp only [inSync, misses, Bool.false_eq_true, if_false, not_false_iff, and_self]

theorem tuneHTotal_of_fits (inSync : ¬ LosesBehind sig t)
    (fits : widthFits (stdWidth sig t) (remeasured sig total t).1 = true)
    (settled : ¬ NeedsSearch sig (remeasured sig total t).1 (remeasured sig total t).2) :
    tuneHTotal sig s = some (true, (remeasured sig total t).2) ∧ ¬ FreqLost sig s := by
  rw [LosesBehind, Bool.not_eq_true] at inSync
  rw [tuneHTotal_eq commits.there, freqLost_iff commits.there, commits.last, pass_eq,
    commits.commits]
  simp only [inSync, fits, Bool.false_eq_true, if_false, if_true]
  exact ⟨if_neg settled, fun lost => settled lost.1⟩

theorem tuneHTotal_of_search (inSync : ¬ LosesBehind sig t)
    (fits : widthFits (stdWidth sig t) (remeasured sig total t).1 = true)
    (needs : NeedsSearch sig (remeasured sig total t).1 (remeasured sig total t).2) :
    tuneHTotal sig s = some (fineTune sig (remeasured sig total t).2) ∧
      (FreqLost sig s ↔ (fineTune sig (remeasured sig total t).2).1 = false) := by
  rw [LosesBehind, Bool.not_eq_true] at inSync
  rw [tuneHTotal_eq commits.there, freqLost_iff commits.there, commits.last, pass_eq,
    commits.commits]
  simp only [inSync, fits, Bool.false_eq_true, if_false, if_true]
  exact ⟨if_pos needs, and_iff_right needs⟩

theorem freqLeaves_iff_of_commits :
    FreqLeaves sig leaves s ↔
      TurnKeeps sig s.src.modesetting.u16HorizontalTotal total leaves t := by
  by_cases lost : LosesBehind sig t
  · obtain ⟨clock, phase, written, -⟩ := @committed_kept sig t total
    obtain ⟨run, lostStep⟩ := tuneHTotal_of_lost commits lost
    rw [turnKeeps_of_lost lost, freqLeaves_iff run, clock, phase, written, clockBehind_eq_iff]
    exact and_congr_right fun _ => imp_iff_right lostStep
  obtain ⟨clock, phase, source, stdTotal⟩ := @remeasured_kept sig t total
  obtain ⟨written, -⟩ := @settings_remeasured sig t total
  cases width : widthFits (stdWidth sig t) (remeasured sig total t).1 with
  | false =>
      obtain ⟨run, kept⟩ := tuneHTotal_of_misses commits lost width
      rw [setAdcClk_eq] at run
      rw [turnKeeps_of_misses lost width, freqLeaves_iff run, ← clockBehind_eq_iff, ← clock,
        ← stdTotal]
      rw [← phase]
      exact and_iff_left fun wrong => absurd wrong kept
  | true =>
      by_cases needs : NeedsSearch sig (remeasured sig total t).1 (remeasured sig total t).2
      · obtain ⟨run, lostStep⟩ := tuneHTotal_of_search commits lost width needs
        have readings : ∀ start checks,
            Quiet sig (remeasured sig total t).2.src start checks =
              Quiet sig t.src start checks := by
          intro start checks
          rw [Quiet, Quiet, source]
        rw [turnKeeps_of_search lost width needs]
        obtain quiet | ⟨n, loss⟩ := @quiet_or_firstLoss sig t.src
          (remeasured sig total t).2.syncReads 112
        · rw [← readings] at quiet
          obtain ⟨last, search, -, final, lastClock, lastPhase⟩ := fineTune_quiet quiet
          rw [readings] at quiet
          rw [search] at run lostStep
          rw [searchKeeps_of_quiet quiet, freqLeaves_iff run, lostStep, lastClock, final,
            lastPhase, clockBehind_eq_iff, clock, written]
          exact and_iff_left fun wrong => Bool.noConfusion wrong
        · have same : FirstLoss sig (remeasured sig total t).2.src
              (remeasured sig total t).2.syncReads 112 n := by
            rw [FirstLoss, readings, source]
            exact loss
          obtain ⟨last, search, final, lastClock, lastPhase⟩ := fineTune_lost same
          rw [search] at run lostStep
          rw [searchKeeps_of_lost loss, freqLeaves_iff run, lostStep, lastClock, final, lastPhase,
            clock, written, phase]
          exact and_congr_right fun _ => imp_iff_right rfl
      · obtain ⟨run, kept⟩ := tuneHTotal_of_fits commits lost width needs
        rw [turnKeeps_of_fits lost width needs, freqLeaves_iff run, clock, phase, written,
          clockBehind_eq_iff]
        exact and_iff_left fun wrong => absurd wrong kept

theorem phase_of_commits {result : Bool} {last : AutoTune}
    (run : tuneHTotal sig s = some (result, last)) :
    last.src.modesetting.u8Phase = t.src.modesetting.u8Phase := by
  obtain ⟨-, measured⟩ := @settings_remeasured sig t total
  by_cases lost : LosesBehind sig t
  · rw [(tuneHTotal_of_lost commits lost).1] at run
    cases run
    exact committed_kept.2.2.2
  cases width : widthFits (stdWidth sig t) (remeasured sig total t).1 with
  | false =>
      rw [(tuneHTotal_of_misses commits lost width).1, setAdcClk_eq] at run
      cases run
      exact measured
  | true =>
      by_cases needs : NeedsSearch sig (remeasured sig total t).1 (remeasured sig total t).2
      · rw [(tuneHTotal_of_search commits lost width needs).1] at run
        rw [phase_fineTune (Option.some.inj run), measured]
      · rw [(tuneHTotal_of_fits commits lost width needs).1] at run
        cases run
        exact measured

end Ends

/-- Where the last turn commits nothing the code divides by zero. -/
theorem tuneHTotal_of_trap (there : (checkSyncLoss sig s).1 = false)
    (none' : turnTotal sig (lastTurn sig 2 (checkSyncLoss sig s).2) = none) :
    tuneHTotal sig s = none := by
  rw [tuneHTotal_eq there, pass_eq, none']

/-- The frequency step keeps in step exactly when its last turn does. -/
theorem freqLeaves_iff_turn (there : (checkSyncLoss sig s).1 = false) :
    FreqLeaves sig leaves s ↔
      ∀ total, turnTotal sig (lastTurn sig 2 (checkSyncLoss sig s).2) = some total →
        TurnKeeps sig s.src.modesetting.u16HorizontalTotal total leaves
          (lastTurn sig 2 (checkSyncLoss sig s).2) := by
  cases commits : turnTotal sig (lastTurn sig 2 (checkSyncLoss sig s).2) with
  | none =>
      have trap := tuneHTotal_of_trap there commits
      refine iff_of_true ⟨?_, ?_⟩ fun total none => by cases none
      · intro result last run
        rw [trap] at run
        cases run
      · intro _ result last run
        rw [trap] at run
        cases run
  | some total =>
      rw [freqLeaves_iff_of_commits ⟨there, rfl, commits⟩]
      simp only [Option.some.injEq, forall_eq']

theorem phase_tuneHTotal {result : Bool} (run : tuneHTotal sig s = some (result, t)) :
    t.src.modesetting.u8Phase = s.src.modesetting.u8Phase := by
  cases lost : (checkSyncLoss sig s).1 with
  | true =>
      simp only [tuneHTotal, lost, if_true] at run
      cases run
      rfl
  | false =>
      cases commits : turnTotal sig (lastTurn sig 2 (checkSyncLoss sig s).2) with
      | none =>
          rw [tuneHTotal_of_trap lost commits] at run
          cases run
      | some total =>
          rw [phase_of_commits ⟨lost, rfl, commits⟩ run, phase_lastTurn]
          rfl

end Freq

/-! ### All steps -/

/-- The phase step finds the sync at its checks, or loses it while it tries the phase that is
set. -/
def PhaseKeeps (sig : Signal) (t : AutoTune) : Prop :=
  ∀ n, FirstLoss sig t.src t.syncReads 39 n →
    (phasesTried sig t).getD n 0 = t.src.modesetting.u8Phase

/-- The state behind the frequency step. -/
def BehindFreq (sig : Signal) (autoTuneType : U8) (s mid : AutoTune) : Prop :=
  if autoTuneType &&& tunesFreq ≠ 0 then ∃ result, tuneHTotal sig s = some (result, mid)
  else mid = s

/-- The steps behind the frequency step. -/
def behindSteps (sig : Signal) (autoTuneType : U8) (mid : AutoTune) : AutoTune :=
  let s := if autoTuneType &&& tunesPhase ≠ 0 then (tunePhase sig mid).2 else mid
  if autoTuneType &&& tunesPosition ≠ 0 then (tunePosition sig s).2 else s

/-- A phase may be left where the phase step follows, or where it is the one that is set. -/
def MayLeave (autoTuneType : U8) (s : AutoTune) (phase : U8) : Prop :=
  autoTuneType &&& tunesPhase = 0 → phase = s.src.modesetting.u8Phase

/-- The condition for the steps that are selected. -/
structure KeepsInStep (sig : Signal) (autoTuneType : U8) (s : AutoTune) : Prop where
  freq : autoTuneType &&& tunesFreq ≠ 0 → (checkSyncLoss sig s).1 = false →
    ∀ total, turnTotal sig (lastTurn sig 2 (checkSyncLoss sig s).2) = some total →
      TurnKeeps sig s.src.modesetting.u16HorizontalTotal total (MayLeave autoTuneType s)
        (lastTurn sig 2 (checkSyncLoss sig s).2)
  phase : autoTuneType &&& tunesPhase ≠ 0 → ∀ mid, BehindFreq sig autoTuneType s mid →
    PhaseKeeps sig mid

section Steps

variable {sig : Signal} {calGain : Bool} {autoTuneType : U8} {s t mid : AutoTune}

theorem tunePhase_kept :
    (tunePhase sig t).2.adcClk = t.adcClk ∧
      (tunePhase sig t).2.src.modesetting.u16HorizontalTotal =
        t.src.modesetting.u16HorizontalTotal := by
  obtain quiet | ⟨n, loss⟩ := @quiet_or_firstLoss sig t.src t.syncReads 39
  · obtain ⟨phase, last, run, source, clock⟩ := tunePhase_quiet quiet
    rw [run]
    refine ⟨clock, ?_⟩
    change last.src.modesetting.u16HorizontalTotal = _
    rw [source]
  · obtain ⟨last, run, -, source, clock⟩ := tunePhase_lost loss
    rw [run]
    refine ⟨clock, ?_⟩
    rw [source]

theorem tunePhase_iff :
    (tunePhase sig t).2.adcPhase = (tunePhase sig t).2.src.modesetting.u8Phase ↔
      PhaseKeeps sig t := by
  obtain quiet | ⟨n, loss⟩ := @quiet_or_firstLoss sig t.src t.syncReads 39
  · obtain ⟨phase, last, run, -⟩ := tunePhase_quiet quiet
    rw [run]
    exact iff_of_true rfl fun n loss => absurd loss (not_firstLoss quiet)
  · obtain ⟨last, run, tried', source, -⟩ := tunePhase_lost loss
    rw [run, tried', source]
    constructor
    · intro same m other
      rw [← firstLoss_unique loss other]
      exact same
    · exact fun keeps => keeps n loss

theorem tunePosition_kept :
    (tunePosition sig t).2.adcClk = t.adcClk ∧ (tunePosition sig t).2.adcPhase = t.adcPhase ∧
      (tunePosition sig t).2.src.modesetting.u16HorizontalTotal =
        t.src.modesetting.u16HorizontalTotal ∧
      (tunePosition sig t).2.src.modesetting.u8Phase = t.src.modesetting.u8Phase := by
  have frame : ∀ u8RegIndex s, ∃ positions checks, (getPosition sig u8RegIndex s).2 =
      { s with positionReads := positions, syncReads := checks } :=
    fun _ _ => positionLoop_frame
  choose positions checks frame using frame
  simp only [tunePosition, frame, and_self]

theorem inStep_behindSteps :
    InStep (behindSteps sig autoTuneType mid) ↔
      mid.adcClk = mid.src.modesetting.u16HorizontalTotal ∧
        (autoTuneType &&& tunesPhase ≠ 0 → PhaseKeeps sig mid) ∧
        (autoTuneType &&& tunesPhase = 0 → mid.adcPhase = mid.src.modesetting.u8Phase) := by
  have position : ∀ s, InStep (if autoTuneType &&& tunesPosition ≠ 0 then (tunePosition sig s).2
      else s) ↔ InStep s := by
    intro s
    obtain ⟨clock, phase, total, set⟩ := @tunePosition_kept sig s
    split
    · constructor
      · intro ⟨first, second⟩
        rw [clock, total] at first
        rw [phase, set] at second
        exact ⟨first, second⟩
      · intro ⟨first, second⟩
        rw [← clock, ← total] at first
        rw [← phase, ← set] at second
        exact ⟨first, second⟩
    · exact Iff.rfl
  rw [behindSteps, position]
  by_cases selected : autoTuneType &&& tunesPhase = 0
  · rw [if_neg (not_not.mpr selected)]
    constructor
    · intro ⟨clock, phase⟩
      exact ⟨clock, fun other => absurd selected other, fun _ => phase⟩
    · rintro ⟨clock, -, phase⟩
      exact ⟨clock, phase selected⟩
  · obtain ⟨clock, total⟩ := @tunePhase_kept sig mid
    rw [if_pos selected]
    constructor
    · intro ⟨first, phase⟩
      rw [clock, total] at first
      exact ⟨first, fun _ => tunePhase_iff.mp phase, fun none => absurd none selected⟩
    · rintro ⟨first, keeps, -⟩
      rw [← clock, ← total] at first
      exact ⟨first, tunePhase_iff.mpr (keeps selected)⟩

theorem total_behindSteps :
    (behindSteps sig autoTuneType mid).src.modesetting.u16HorizontalTotal =
      mid.src.modesetting.u16HorizontalTotal := by
  have phase := @tunePhase_kept sig mid
  rw [behindSteps]
  split
  · rw [tunePosition_kept.2.2.1]
    split
    · exact phase.2
    · rfl
  · split
    · exact phase.2
    · rfl

theorem geometry_eq :
    ∃ answer : Bool → AutoTune → Bool, geometry sig calGain autoTuneType s =
      (if autoTuneType &&& tunesFreq ≠ 0 then tuneHTotal sig s else some (true, s)).map
        fun freq => (answer freq.1 freq.2, behindSteps sig autoTuneType freq.2) := by
  have second : ∀ (p : Prop) [Decidable p] (run : Bool × AutoTune) (s : AutoTune),
      (if p then run else (true, s)).2 = if p then run.2 else s :=
    fun p _ run s => apply_ite Prod.snd p run (true, s)
  refine ⟨fun result mid =>
    let phase := if autoTuneType &&& tunesPhase ≠ 0 then tunePhase sig mid else (true, mid)
    let position :=
      if autoTuneType &&& tunesPosition ≠ 0 then tunePosition sig phase.2 else (true, phase.2)
    result && phase.1 && position.1 && (autoTuneType &&& tunesGain = 0 || calGain), ?_⟩
  rw [geometry]
  by_cases selected : autoTuneType &&& tunesFreq ≠ 0
  · rw [if_pos selected, if_pos selected]
    cases tuneHTotal sig s with
    | none => rfl
    | some freq =>
        rw [Option.map_some, behindSteps, ← second, ← second]
        rfl
  · rw [if_neg selected, if_neg selected, Option.map_some, behindSteps, ← second, ← second]
    rfl

theorem geometry_iff :
    (∃ result, geometry sig calGain autoTuneType s = some (result, t)) ↔
      ∃ mid, BehindFreq sig autoTuneType s mid ∧ behindSteps sig autoTuneType mid = t := by
  obtain ⟨answer, run⟩ := @geometry_eq sig calGain autoTuneType s
  rw [run]
  by_cases selected : autoTuneType &&& tunesFreq ≠ 0
  · simp only [BehindFreq, if_pos selected, Option.map_eq_some_iff, Prod.mk.injEq]
    constructor
    · rintro ⟨result, freq, first, -, last⟩
      exact ⟨freq.2, ⟨freq.1, first⟩, last⟩
    · intro ⟨mid, ⟨result, first⟩, last⟩
      exact ⟨_, (result, mid), first, rfl, last⟩
  · simp only [BehindFreq, if_neg selected, Option.map_some, Option.some.injEq, Prod.mk.injEq]
    constructor
    · rintro ⟨result, -, last⟩
      exact ⟨s, rfl, last⟩
    · rintro ⟨mid, rfl, last⟩
      exact ⟨_, rfl, last⟩

theorem leavesInStep_iff_steps (start : InStep s) :
    LeavesInStep sig calGain autoTuneType s ↔
      (autoTuneType &&& tunesFreq ≠ 0 → FreqLeaves sig (MayLeave autoTuneType s) s) ∧
        (autoTuneType &&& tunesPhase ≠ 0 → ∀ mid, BehindFreq sig autoTuneType s mid →
          PhaseKeeps sig mid) := by
  have set : ∀ mid, BehindFreq sig autoTuneType s mid →
      mid.src.modesetting.u8Phase = s.src.modesetting.u8Phase := by
    intro mid behind
    rw [BehindFreq] at behind
    split at behind
    · obtain ⟨result, run⟩ := behind
      exact phase_tuneHTotal run
    · rw [behind]
  constructor
  · intro ⟨registers, total⟩
    have inStep : ∀ mid, BehindFreq sig autoTuneType s mid →
        InStep (behindSteps sig autoTuneType mid) := by
      intro mid behind
      obtain ⟨result, run⟩ := geometry_iff.mpr ⟨mid, behind, rfl⟩
      exact registers result _ run
    refine ⟨fun freq => ⟨?_, ?_⟩, fun phase mid behind => ?_⟩
    · intro result mid run
      have behind : BehindFreq sig autoTuneType s mid := by
        rw [BehindFreq, if_pos freq]
        exact ⟨result, run⟩
      obtain ⟨clock, -, left⟩ := inStep_behindSteps.mp (inStep mid behind)
      refine ⟨clock, fun none => ?_⟩
      rw [left none, set mid behind]
    · intro lost result mid run
      have behind : BehindFreq sig autoTuneType s mid := by
        rw [BehindFreq, if_pos freq]
        exact ⟨result, run⟩
      obtain ⟨answer, run⟩ := geometry_iff.mpr ⟨mid, behind, rfl⟩
      have kept := total freq lost answer _ run
      rwa [total_behindSteps] at kept
    · exact (inStep_behindSteps.mp (inStep mid behind)).2.1 phase
  · intro ⟨freq, phase⟩
    constructor
    · intro result t run
      obtain ⟨mid, behind, rfl⟩ := geometry_iff.mp ⟨result, run⟩
      rw [inStep_behindSteps]
      by_cases selected : autoTuneType &&& tunesFreq ≠ 0
      · have leaves := freq selected
        have ran := behind
        rw [BehindFreq, if_pos selected] at ran
        obtain ⟨answer, ran⟩ := ran
        obtain ⟨clock, left⟩ := leaves.registers answer mid ran
        refine ⟨clock, fun chosen => phase chosen mid behind, fun none => ?_⟩
        rw [left none, set mid behind]
      · have same := behind
        rw [BehindFreq, if_neg selected] at same
        rw [same]
        rw [same] at behind
        exact ⟨start.clock, fun chosen => phase chosen s behind, fun _ => start.phase⟩
    · intro selected lost result t run
      obtain ⟨mid, behind, rfl⟩ := geometry_iff.mp ⟨result, run⟩
      rw [BehindFreq, if_pos selected] at behind
      obtain ⟨answer, ran⟩ := behind
      rw [total_behindSteps]
      exact (freq selected).total lost answer mid ran

end Steps

/-- Exactly when the ADC and its settings are left in step. -/
theorem leavesInStep_iff (sig : Signal) (calGain : Bool) (autoTuneType : U8) (s : AutoTune)
    (start : InStep s) :
    LeavesInStep sig calGain autoTuneType s ↔ KeepsInStep sig autoTuneType s := by
  have freq : FreqLeaves sig (MayLeave autoTuneType s) s ↔
      ((checkSyncLoss sig s).1 = false →
        ∀ total, turnTotal sig (lastTurn sig 2 (checkSyncLoss sig s).2) = some total →
          TurnKeeps sig s.src.modesetting.u16HorizontalTotal total (MayLeave autoTuneType s)
            (lastTurn sig 2 (checkSyncLoss sig s).2)) := by
    cases lost : (checkSyncLoss sig s).1 with
    | true =>
        have run : tuneHTotal sig s = some (false, (checkSyncLoss sig s).2) := by
          simp only [tuneHTotal, lost, if_true]
        rw [freqLeaves_iff run]
        exact iff_of_true ⟨⟨start.clock, fun _ => start.phase⟩, fun _ => rfl⟩
          fun there => Bool.noConfusion there
    | false =>
        rw [freqLeaves_iff_turn lost]
        exact (imp_iff_right rfl).symm
  rw [leavesInStep_iff_steps start]
  constructor
  · rintro ⟨leaves, phase⟩
    exact ⟨fun selected => freq.mp (leaves selected), phase⟩
  · rintro ⟨keeps, phase⟩
    exact ⟨fun selected => freq.mpr (keeps selected), phase⟩

/-- A picture of 1024 columns, and the sync is there. -/
def fullWidth : Signal where
  sync _ := xgaSync
  position _ u8RegIndex := if u8RegIndex = 0x15 then 1023 else 0
  phaseVal _ := roof
  entry _ := ⟨res1024x768, 0, 0, 0, 0, 1344, 806, 0, 0, 0⟩
  behind _ := (0, 0)

theorem inStep_xga : InStep xga := ⟨rfl, rfl⟩

theorem leavesInStep_iff_fullWidth :
    LeavesInStep fullWidth true (tunesFreq ||| tunesPhase) xga := by
  have last : lastTurn fullWidth 2 (checkSyncLoss fullWidth xga).2 =
    (checkSyncLoss fullWidth xga).2 := rfl
  have commits : turnTotal fullWidth (checkSyncLoss fullWidth xga).2 = some 1344 := rfl
  have there : syncLost xga.src xgaSync = false := by decide
  have width : (remeasured fullWidth 1344 (checkSyncLoss fullWidth xga).2).1 = 1024 := rfl
  refine (leavesInStep_iff fullWidth true (tunesFreq ||| tunesPhase) xga inStep_xga).mpr ⟨?_, ?_⟩
  · intro _ _ total same
    rw [last] at same ⊢
    rw [commits, Option.some.injEq] at same
    subst same
    have leaves : ∀ phase, MayLeave (tunesFreq ||| tunesPhase) xga phase :=
      fun _ none => absurd none (by decide)
    have inSync : ¬ LosesBehind fullWidth (checkSyncLoss fullWidth xga).2 :=
      fun lost => Bool.noConfusion (there.symm.trans lost)
    have settled : ¬ NeedsSearch fullWidth
        (remeasured fullWidth 1344 (checkSyncLoss fullWidth xga).2).1
        (remeasured fullWidth 1344 (checkSyncLoss fullWidth xga).2).2 := by
      rintro (total | other)
      · exact total rfl
      · exact other width
    have fits : widthFits (stdWidth fullWidth (checkSyncLoss fullWidth xga).2)
        (remeasured fullWidth 1344 (checkSyncLoss fullWidth xga).2).1 = true := by
      rw [width]
      decide
    exact (turnKeeps_of_fits inSync fits settled).mpr ⟨.inl (by decide), leaves 0x00⟩
  · intro _ mid behind n loss
    have source : mid.src = xga.src := by
      obtain ⟨t, ran, kept⟩ : ∃ t, tuneHTotal fullWidth xga = some (true, t) ∧ t.src = xga.src :=
        ⟨_, rfl, rfl⟩
      obtain ⟨result, run⟩ := behind
      rw [ran] at run
      cases run
      exact kept
    exfalso
    have lost : syncLost mid.src xgaSync = true := loss.2.1
    rw [source, there] at lost
    cases lost

/-- The measurement of the width leaves phase 0 in the register. -/
theorem leaves_phase_zero :
    ¬ ∀ (sig : Signal) (calGain : Bool) (autoTuneType : U8) (s : AutoTune), InStep s →
      LeavesInStep sig calGain autoTuneType s := by
  intro law
  have left : ∃ result t, geometry fullWidth true tunesFreq xga = some (result, t) ∧
      t.adcPhase ≠ t.src.modesetting.u8Phase := by
    refine ⟨_, _, rfl, ?_⟩
    decide +kernel
  obtain ⟨result, t, run, apart⟩ := left
  exact apart ((law fullWidth true tunesFreq xga inStep_xga).registers result t run).phase

end Gp2Firmware.Scaler.AutoTune
