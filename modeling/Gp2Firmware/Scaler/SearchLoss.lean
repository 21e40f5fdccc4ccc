import Mathlib.Data.List.GetD
import Gp2Firmware.Scaler.PhaseSearch

/-!
# Searches that lose the sync

The loops of `MDrv_Auto_TuneHTotal` and `MDrv_Auto_TunePhase` over trial values check the sync
with every value.  Where they lose it they leave the registers as they are.
-/

namespace Gp2Firmware.Scaler.AutoTune

/-- The sync is there at so many checks from one reading on. -/
def Quiet (sig : Signal) (src : SourceInfo) (start checks : Nat) : Prop :=
  ∀ i < checks, syncLost src (sig.sync (start + i)) = false

/-- The `n`-th of the checks is the first one without sync. -/
def FirstLoss (sig : Signal) (src : SourceInfo) (start checks n : Nat) : Prop :=
  n < checks ∧ syncLost src (sig.sync (start + n)) = true ∧ Quiet sig src start n

section Checks

variable {sig : Signal} {src : SourceInfo} {start checks n : Nat}

theorem quiet_succ :
    Quiet sig src start (checks + 1) ↔
      syncLost src (sig.sync start) = false ∧ Quiet sig src (start + 1) checks := by
  have shift : ∀ i, start + 1 + i = start + (i + 1) := fun i => by omega
  constructor
  · intro quiet
    refine ⟨quiet 0 (Nat.succ_pos checks), fun i small => ?_⟩
    rw [shift]
    exact quiet (i + 1) (Nat.succ_lt_succ small)
  · rintro ⟨first, rest⟩ i small
    cases i with
    | zero => exact first
    | succ i =>
        rw [← shift]
        exact rest i (Nat.lt_of_succ_lt_succ small)

theorem quiet_add {other : Nat} :
    Quiet sig src start (checks + other) ↔
      Quiet sig src start checks ∧ Quiet sig src (start + checks) other := by
  constructor
  · intro quiet
    refine ⟨fun i small => quiet i (by omega), fun i small => ?_⟩
    rw [Nat.add_assoc]
    exact quiet (checks + i) (by omega)
  · rintro ⟨first, second⟩ i small
    by_cases early : i < checks
    · exact first i early
    · have later := second (i - checks) (by omega)
      rwa [show start + checks + (i - checks) = start + i by omega] at later

theorem firstLoss_succ :
    FirstLoss sig src start (checks + 1) (n + 1) ↔
      syncLost src (sig.sync start) = false ∧ FirstLoss sig src (start + 1) checks n := by
  rw [FirstLoss, FirstLoss, quiet_succ, Nat.succ_lt_succ_iff,
    show start + (n + 1) = start + 1 + n by omega]
  tauto

theorem firstLoss_add {other : Nat} :
    FirstLoss sig src start (checks + other) n ↔
      FirstLoss sig src start checks n ∨
        Quiet sig src start checks ∧
          ∃ m, n = checks + m ∧ FirstLoss sig src (start + checks) other m := by
  constructor
  · rintro ⟨inside, lost, quiet⟩
    by_cases early : n < checks
    · exact .inl ⟨early, lost, quiet⟩
    · obtain ⟨m, rfl⟩ := Nat.exists_eq_add_of_le (Nat.le_of_not_lt early)
      obtain ⟨first, second⟩ := quiet_add.mp quiet
      rw [← Nat.add_assoc] at lost
      exact .inr ⟨first, m, rfl, by omega, lost, second⟩
  · rintro (⟨inside, lost, quiet⟩ | ⟨first, m, rfl, inside, lost, second⟩)
    · exact ⟨by omega, lost, quiet⟩
    · rw [Nat.add_assoc] at lost
      exact ⟨by omega, lost, quiet_add.mpr ⟨first, second⟩⟩

theorem quiet_or_firstLoss :
    Quiet sig src start checks ∨ ∃ n, FirstLoss sig src start checks n := by
  induction checks with
  | zero => exact .inl fun i none => absurd none (Nat.not_lt_zero i)
  | succ checks inductionHypothesis =>
      obtain quiet | ⟨n, inside, first⟩ := inductionHypothesis
      · cases last : syncLost src (sig.sync (start + checks)) with
        | true => exact .inr ⟨checks, Nat.lt_succ_self checks, last, quiet⟩
        | false =>
            refine .inl fun i small => ?_
            obtain earlier | rfl := Nat.lt_succ_iff_lt_or_eq.mp small
            · exact quiet i earlier
            · exact last
      · exact .inr ⟨n, Nat.lt_succ_of_lt inside, first⟩

theorem not_firstLoss (quiet : Quiet sig src start checks) :
    ¬ FirstLoss sig src start checks n := by
  rintro ⟨inside, lost, -⟩
  rw [quiet n inside] at lost
  cases lost

theorem firstLoss_unique {m : Nat} (first : FirstLoss sig src start checks n)
    (second : FirstLoss sig src start checks m) : n = m := by
  have notBefore : ∀ {i j : Nat}, FirstLoss sig src start checks i →
      FirstLoss sig src start checks j → ¬ i < j := by
    rintro i j ⟨-, lost, -⟩ ⟨-, -, quiet⟩ before
    rw [quiet i before] at lost
    cases lost
  exact Nat.le_antisymm (Nat.le_of_not_lt (notBefore second first))
    (Nat.le_of_not_lt (notBefore first second))

end Checks

/-! ### The loops over the phases -/

/-- A loop over phases leaves a phase in its register, behind so many checks and sums. -/
def swept (u8Phase : U8) (checks sums : Nat) (s : AutoTune) : AutoTune :=
  { s with
    adcPhase := u8Phase
    syncReads := s.syncReads + checks
    phaseReads := s.phaseReads + sums }

section Phases

variable {sig : Signal} {s : AutoTune} {phases : List U8} {n : Nat}

theorem swept_swept {first second : U8} {checks sums checks' sums' : Nat} :
    swept second checks' sums' (swept first checks sums s) =
      swept second (checks + checks') (sums + sums') s := by
  simp only [swept, Nat.add_assoc]

theorem tryPhases_quiet {i : U16} {best : BestClock}
    (quiet : Quiet sig s.src s.syncReads phases.length) :
    ∃ found, tryPhases sig i phases best s =
      (true, found, swept (phases.getLastD s.adcPhase) phases.length phases.length s) := by
  induction phases generalizing best s with
  | nil => exact ⟨best, rfl⟩
  | cons phase rest inductionHypothesis =>
      obtain ⟨first, later⟩ := quiet_succ.mp quiet
      simp only [tryPhases, checkSyncLoss, getPhaseVal, setAdcPhase, first, Bool.false_eq_true,
        if_false]
      obtain ⟨found, run⟩ := @inductionHypothesis (swept phase 1 1 s)
        (if sig.phaseVal s.phaseReads phase > best.maxDiffSum
          then ⟨sig.phaseVal s.phaseReads phase, i⟩ else best) later
      refine ⟨found, run.trans ?_⟩
      rw [swept_swept, List.getLastD_cons, List.length_cons, Nat.add_comm 1]
      rfl

theorem tryPhases_lost {i : U16} {best : BestClock}
    (first : FirstLoss sig s.src s.syncReads phases.length n) :
    ∃ found, tryPhases sig i phases best s =
      (false, found, swept ((s.adcPhase :: phases).getD n 0) (n + 1) n s) := by
  induction phases generalizing best s n with
  | nil => exact absurd first.1 (Nat.not_lt_zero n)
  | cons phase rest inductionHypothesis =>
      cases n with
      | zero =>
          have lost := first.2.1
          rw [Nat.add_zero] at lost
          simp only [tryPhases, checkSyncLoss, lost, if_true]
          exact ⟨best, rfl⟩
      | succ n =>
          obtain ⟨here, later⟩ := firstLoss_succ.mp first
          simp only [tryPhases, checkSyncLoss, getPhaseVal, setAdcPhase, here,
            Bool.false_eq_true, if_false]
          obtain ⟨found, run⟩ := @inductionHypothesis (swept phase 1 1 s) n
            (if sig.phaseVal s.phaseReads phase > best.maxDiffSum
              then ⟨sig.phaseVal s.phaseReads phase, i⟩ else best) later
          refine ⟨found, run.trans ?_⟩
          rw [swept_swept, Nat.add_comm 1, Nat.add_comm 1]
          rfl

theorem phaseLoop_quiet {best : U8} {max : U32}
    (quiet : Quiet sig s.src s.syncReads phases.length) :
    ∃ found, phaseLoop sig phases best max s =
      (true, found, swept (phases.getLastD s.adcPhase) phases.length phases.length s) := by
  induction phases generalizing best max s with
  | nil => exact ⟨best, rfl⟩
  | cons phase rest inductionHypothesis =>
      obtain ⟨first, later⟩ := quiet_succ.mp quiet
      simp only [phaseLoop, checkSyncLoss, getPhaseVal, setAdcPhase, first, Bool.false_eq_true,
        if_false]
      obtain ⟨found, run⟩ := @inductionHypothesis (swept phase 1 1 s)
        (if sig.phaseVal s.phaseReads phase > max
          then (phase, sig.phaseVal s.phaseReads phase) else (best, max)).1
        (if sig.phaseVal s.phaseReads phase > max
          then (phase, sig.phaseVal s.phaseReads phase) else (best, max)).2 later
      refine ⟨found, run.trans ?_⟩
      rw [swept_swept, List.getLastD_cons, List.length_cons, Nat.add_comm 1]
      rfl

theorem phaseLoop_lost {best : U8} {max : U32}
    (first : FirstLoss sig s.src s.syncReads phases.length n) :
    ∃ found, phaseLoop sig phases best max s =
      (false, found, swept (phases.getD n 0) (n + 1) (n + 1) s) := by
  induction phases generalizing best max s n with
  | nil => exact absurd first.1 (Nat.not_lt_zero n)
  | cons phase rest inductionHypothesis =>
      cases n with
      | zero =>
          have lost := first.2.1
          rw [Nat.add_zero] at lost
          simp only [phaseLoop, checkSyncLoss, getPhaseVal, setAdcPhase, lost, if_true]
          exact ⟨_, rfl⟩
      | succ n =>
          obtain ⟨here, later⟩ := firstLoss_succ.mp first
          simp only [phaseLoop, checkSyncLoss, getPhaseVal, setAdcPhase, here,
            Bool.false_eq_true, if_false]
          obtain ⟨found, run⟩ := @inductionHypothesis (swept phase 1 1 s) n
            (if sig.phaseVal s.phaseReads phase > max
              then (phase, sig.phaseVal s.phaseReads phase) else (best, max)).1
            (if sig.phaseVal s.phaseReads phase > max
              then (phase, sig.phaseVal s.phaseReads phase) else (best, max)).2 later
          refine ⟨found, run.trans ?_⟩
          rw [swept_swept, Nat.add_comm 1]
          rfl

/-- A loop keeps the phase that it had, or one of its own. -/
theorem phaseLoop_mem {best : U8} {max : U32} :
    (phaseLoop sig phases best max s).2.1 ∈ best :: phases := by
  induction phases generalizing best max s with
  | nil => exact List.mem_cons_self
  | cons phase rest inductionHypothesis =>
      simp only [phaseLoop]
      split
      · split
        · exact List.mem_cons_of_mem _ List.mem_cons_self
        · exact List.mem_cons_self
      · split
        · exact List.mem_cons_of_mem _ inductionHypothesis
        · obtain same | later := List.mem_cons.mp
            (@inductionHypothesis (checkSyncLoss sig (getPhaseVal sig (setAdcPhase phase s)).2).2
              best max)
          · rw [same]
            exact List.mem_cons_self
          · exact List.mem_cons_of_mem _ (List.mem_cons_of_mem _ later)

end Phases

/-! ### The loop over the clocks -/

/-- The clock register behind a write. -/
def clockBehind (clk u16Value : U16) : U16 :=
  if u16Value > 3 ∧ u16Value < 3500 then u16Value else clk

/-- The clock register behind a number of trial clocks. -/
def trialClock (clk first : U16) : (tries : Nat) → U16
  | 0 => clk
  | tries + 1 => trialClock (clockBehind clk first) (first + 1) tries

/-- The phase that the fine search has tried before its `n`-th check. -/
def triedBefore (u8Phase : U8) (n : Nat) : U8 :=
  if n = 0 then u8Phase else BitVec.ofNat 8 (8 * ((n - 1) % 16))

section Clocks

variable {sig : Signal} {s : AutoTune} {left n : Nat} {i first : U16} {best : BestClock}

theorem setAdcClk_eq (u16Value : U16) (s : AutoTune) :
    setAdcClk u16Value s = { s with adcClk := clockBehind s.adcClk u16Value } := by
  rw [setAdcClk, clockBehind]
  split
  · rfl
  · rfl

theorem trialPhases_length : trialPhases.length = 16 := by
  rw [trialPhases, List.length_map, List.length_range]

theorem trialPhases_last (u8Phase : U8) : trialPhases.getLastD u8Phase = 120 := rfl

theorem getD_trialPhases {u8Phase : U8} (small : n < 16) :
    (u8Phase :: trialPhases).getD n 0 = triedBefore u8Phase n := by
  cases n with
  | zero => rfl
  | succ n =>
      have inside : n < 16 := by omega
      rw [triedBefore, if_neg (Nat.succ_ne_zero n), Nat.add_sub_cancel, Nat.mod_eq_of_lt inside,
        List.getD_cons_succ, trialPhases, List.getD_eq_getElem?_getD, List.getElem?_map,
        List.getElem?_range inside]
      rfl

theorem triedBefore_add (u8Phase : U8) (n : Nat) :
    triedBefore u8Phase (16 + n) = triedBefore 120 n := by
  rw [triedBefore, if_neg (by omega), triedBefore]
  split
  · rename_i zero
    rw [zero]
    rfl
  · rw [show 16 + n - 1 = n - 1 + 16 by omega, Nat.add_mod_right]

theorem tryClocks_quiet (quiet : Quiet sig s.src s.syncReads (16 * left)) :
    ∃ found phase, tryClocks sig left i first best s =
      (true, found, { swept phase (16 * left) (16 * left) s with
        adcClk := trialClock s.adcClk first left }) ∧
      phase = if left = 0 then s.adcPhase else 120 := by
  induction left generalizing i first best s with
  | zero => exact ⟨best, _, rfl, rfl⟩
  | succ left inductionHypothesis =>
      rw [Nat.mul_succ, Nat.add_comm] at quiet
      obtain ⟨here, later⟩ := quiet_add.mp quiet
      rw [← trialPhases_length] at here
      obtain ⟨mid, sweep⟩ := @tryPhases_quiet sig (setAdcClk first s) trialPhases i best
        (by rw [setAdcClk_eq]; exact here)
      obtain ⟨found, phase, run, same⟩ := @inductionHypothesis
        (swept 120 16 16 (setAdcClk first s)) (i + 1) (first + 1) mid
        (by rw [setAdcClk_eq]; exact later)
      refine ⟨found, 120, ?_, rfl⟩
      rw [tryClocks, sweep, trialPhases_last, trialPhases_length]
      refine run.trans ?_
      have last : phase = 120 := by
        rw [same]
        exact ite_self _
      rw [last, setAdcClk_eq, Nat.mul_succ, Nat.add_comm (16 * left)]
      simp only [swept, trialClock, Nat.add_assoc]

theorem tryClocks_lost (loss : FirstLoss sig s.src s.syncReads (16 * left) n) :
    ∃ found, tryClocks sig left i first best s =
      (false, found, { swept (triedBefore s.adcPhase n) (n + 1) n s with
        adcClk := trialClock s.adcClk first (n / 16 + 1) }) := by
  induction left generalizing i first best s n with
  | zero => exact absurd loss.1 (Nat.not_lt_zero n)
  | succ left inductionHypothesis =>
      rw [Nat.mul_succ, Nat.add_comm] at loss
      obtain here | ⟨quiet, m, rfl, later⟩ := firstLoss_add.mp loss
      · have small := here.1
        rw [← trialPhases_length] at here
        obtain ⟨found, sweep⟩ := @tryPhases_lost sig (setAdcClk first s) trialPhases n i best
          (by rw [setAdcClk_eq]; exact here)
        refine ⟨found, ?_⟩
        rw [tryClocks, sweep, Nat.div_eq_of_lt small]
        have phase : (setAdcClk first s).adcPhase = s.adcPhase := by rw [setAdcClk_eq]
        rw [phase, getD_trialPhases small, setAdcClk_eq]
        rfl
      · rw [← trialPhases_length] at quiet
        obtain ⟨mid, sweep⟩ := @tryPhases_quiet sig (setAdcClk first s) trialPhases i best
          (by rw [setAdcClk_eq]; exact quiet)
        obtain ⟨found, run⟩ := @inductionHypothesis
          (swept 120 16 16 (setAdcClk first s)) m (i + 1) (first + 1) mid
          (by rw [setAdcClk_eq]; exact later)
        refine ⟨found, ?_⟩
        rw [tryClocks, sweep, trialPhases_last, trialPhases_length]
        refine run.trans ?_
        rw [triedBefore_add, setAdcClk_eq, show (16 + m) / 16 = m / 16 + 1 by omega]
        simp only [swept, trialClock, Nat.add_assoc]

end Clocks

/-! ### The phase -/

/-- The phases of both loops, in the order in which they are tried. -/
def phasesTried (sig : Signal) (s : AutoTune) : List U8 :=
  let u8BestPhase := (phaseLoop sig coarsePhases 0x00 0 s).2.1
  coarsePhases ++ finePhases ((u8BestPhase + autoPhaseStep) &&& phaseMax) 128
    ((u8BestPhase - autoPhaseStep + 1) &&& phaseMax)

section Phase

variable {sig : Signal} {s : AutoTune} {n : Nat}

theorem coarsePhases_length : coarsePhases.length = 32 := by
  rw [coarsePhases, List.length_map, List.length_range]

theorem finePhases_length {u8BestPhase : U8} (member : u8BestPhase ∈ coarsePhases) :
    (finePhases ((u8BestPhase + autoPhaseStep) &&& phaseMax) 128
      ((u8BestPhase - autoPhaseStep + 1) &&& phaseMax)).length = 7 := by
  rw [finePhases_eq u8BestPhase member, List.length_map, List.length_range]

theorem coarseBest_mem : (phaseLoop sig coarsePhases 0x00 0 s).2.1 ∈ coarsePhases := by
  have start : (0x00 : U8) ∈ coarsePhases := by decide
  obtain same | member := List.mem_cons.mp (@phaseLoop_mem sig s coarsePhases 0x00 0)
  · rw [same]
    exact start
  · exact member

/-- With the sync at all 39 checks the best phase is written and set. -/
theorem tunePhase_quiet (quiet : Quiet sig s.src s.syncReads 39) :
    ∃ phase last, tunePhase sig s = (true, setAdcPhase phase (setPhase phase last)) ∧
      last.src = s.src ∧ last.adcClk = s.adcClk := by
  obtain ⟨here, later⟩ := (@quiet_add sig s.src s.syncReads 32 7).mp quiet
  rw [← coarsePhases_length] at here
  obtain ⟨coarse, coarseRun⟩ := @phaseLoop_quiet sig s coarsePhases 0x00 0 here
  have member : coarse ∈ coarsePhases := by
    have best := @coarseBest_mem sig s
    rwa [coarseRun] at best
  rw [← finePhases_length member] at later
  obtain ⟨fine, fineRun⟩ := @phaseLoop_quiet sig
    (swept (coarsePhases.getLastD s.adcPhase) coarsePhases.length coarsePhases.length s)
    _ ((coarse - autoPhaseStep + 1) &&& phaseMax) 0 later
  simp only [tunePhase, coarseRun, fineRun]
  exact ⟨fine, _, rfl, rfl, rfl⟩

/-- A loss leaves the phase that is tried at that time. -/
theorem tunePhase_lost (loss : FirstLoss sig s.src s.syncReads 39 n) :
    ∃ last, tunePhase sig s = (false, last) ∧ last.adcPhase = (phasesTried sig s).getD n 0 ∧
      last.src = s.src ∧ last.adcClk = s.adcClk := by
  obtain here | ⟨quiet, m, rfl, later⟩ := (@firstLoss_add sig s.src s.syncReads 32 n 7).mp loss
  · have small := here.1
    rw [← coarsePhases_length] at here small
    obtain ⟨found, run⟩ := @phaseLoop_lost sig s coarsePhases n 0x00 0 here
    simp only [tunePhase, run]
    refine ⟨_, rfl, ?_, rfl, rfl⟩
    rw [phasesTried, List.getD_append _ _ _ _ small]
    rfl
  · rw [← coarsePhases_length] at quiet
    obtain ⟨coarse, coarseRun⟩ := @phaseLoop_quiet sig s coarsePhases 0x00 0 quiet
    have member : coarse ∈ coarsePhases := by
      have best := @coarseBest_mem sig s
      rwa [coarseRun] at best
    rw [← finePhases_length member] at later
    obtain ⟨found, fineRun⟩ := @phaseLoop_lost sig
      (swept (coarsePhases.getLastD s.adcPhase) coarsePhases.length coarsePhases.length s)
      _ m ((coarse - autoPhaseStep + 1) &&& phaseMax) 0 later
    simp only [tunePhase, coarseRun, fineRun]
    refine ⟨_, rfl, ?_, rfl, rfl⟩
    rw [phasesTried, coarseRun, List.getD_append_right _ _ _ _ (by rw [coarsePhases_length]; omega),
      coarsePhases_length, Nat.add_sub_cancel_left]
    rfl

end Phase

end Gp2Firmware.Scaler.AutoTune
