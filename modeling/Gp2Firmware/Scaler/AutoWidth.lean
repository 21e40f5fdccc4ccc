import Gp2Firmware.Scaler.AutoTune

/-!
# The widths that the total is rescaled by

A turn of the first loop of `MDrv_Auto_TuneHTotal` divides by a width that it has measured.
Either position of the width is the answer of `MDrv_Auto_GetPosition`, which is -1 where the
sync is lost.
-/

namespace Gp2Firmware.Scaler.AutoTune

/-! ### A position -/

section Position

/-- A value that a position register may show. -/
def shown (sig : Signal) (u8RegIndex : U8) (reading : Nat) : U16 :=
  sig.position reading u8RegIndex &&& 0x0FFF

/-- How often the value has been the same with each of these readings, after a count and a
value from before. -/
def repeats (value : Nat → U16) (u8Count : Nat) (u16ComparePos : U16) : Nat → Nat
  | 0 => if value 0 = u16ComparePos then u8Count + 1 else 0
  | reading + 1 =>
      if value (reading + 1) = value reading then
        repeats value u8Count u16ComparePos reading + 1
      else 0

/-- The sync is lost at one of the tries, and the position has not been the same three times
by then. -/
def LosesFrom (sig : Signal) (u8RegIndex : U8) (u8Dummy u8Count : Nat) (u16ComparePos : U16)
    (s : AutoTune) : Prop :=
  ∃ j < u8Dummy, syncLost s.src (sig.sync (s.syncReads + j)) = true ∧
    ∀ i ≤ j, repeats (fun i => shown sig u8RegIndex (s.positionReads + i)) u8Count u16ComparePos
      i ≠ 3

def LosesSync (sig : Signal) (u8RegIndex : U8) (s : AutoTune) : Prop :=
  LosesFrom sig u8RegIndex 20 0 0 s

/-- A value that was read from a position register between two states. -/
def WasRead (sig : Signal) (u8RegIndex : U8) (s t : AutoTune) (value : U16) : Prop :=
  ∃ reading, s.positionReads ≤ reading ∧ reading < t.positionReads ∧
    value = shown sig u8RegIndex reading

variable {sig : Signal} {u8RegIndex : U8} {u8Dummy u8Count : Nat}
  {u16ComparePos u16AutoPos : U16} {s : AutoTune}

theorem repeats_succ {value : Nat → U16} (reading : Nat) :
    repeats value u8Count u16ComparePos (reading + 1) =
      repeats (fun i => value (i + 1)) (if value 0 = u16ComparePos then u8Count + 1 else 0)
        (value 0) reading := by
  induction reading with
  | zero => rfl
  | succ reading inductionHypothesis => rw [repeats, inductionHypothesis, repeats]

theorem shown_ne (reading : Nat) : shown sig u8RegIndex reading ≠ -1 := by
  intro same
  have bit := congrArg (fun word : U16 => word.getLsbD 15) same
  rw [shown] at bit
  simp only [BitVec.getLsbD_and] at bit
  revert bit
  cases (sig.position reading u8RegIndex).getLsbD 15 <;> decide

/-- The state behind a try. -/
def tried (s : AutoTune) : AutoTune :=
  { s with positionReads := s.positionReads + 1, syncReads := s.syncReads + 1 }

/-- The count with the next reading. -/
def nextCount (sig : Signal) (u8RegIndex : U8) (u8Count : Nat) (u16ComparePos : U16)
    (s : AutoTune) : Nat :=
  if shown sig u8RegIndex s.positionReads = u16ComparePos then u8Count + 1 else 0

theorem positionLoop_succ :
    positionLoop sig u8RegIndex (u8Dummy + 1) u8Count u16ComparePos u16AutoPos s =
      if nextCount sig u8RegIndex u8Count u16ComparePos s = 3 then
        (shown sig u8RegIndex s.positionReads, { s with positionReads := s.positionReads + 1 })
      else if syncLost s.src (sig.sync s.syncReads) then (-1, tried s)
      else
        positionLoop sig u8RegIndex u8Dummy (nextCount sig u8RegIndex u8Count u16ComparePos s)
          (shown sig u8RegIndex s.positionReads) (shown sig u8RegIndex s.positionReads)
          (tried s) := by
  rw [positionLoop]
  rfl

theorem losesFrom_succ :
    LosesFrom sig u8RegIndex (u8Dummy + 1) u8Count u16ComparePos s ↔
      nextCount sig u8RegIndex u8Count u16ComparePos s ≠ 3 ∧
        (syncLost s.src (sig.sync s.syncReads) = true ∨
          LosesFrom sig u8RegIndex u8Dummy
            (nextCount sig u8RegIndex u8Count u16ComparePos s)
            (shown sig u8RegIndex s.positionReads) (tried s)) := by
  have later : ∀ i, repeats (fun i => shown sig u8RegIndex (s.positionReads + i)) u8Count
      u16ComparePos (i + 1) =
        repeats (fun i => shown sig u8RegIndex ((tried s).positionReads + i))
          (nextCount sig u8RegIndex u8Count u16ComparePos s)
          (shown sig u8RegIndex s.positionReads) i := by
    intro i
    rw [repeats_succ]
    simp only [tried, nextCount, Nat.add_zero, Nat.add_assoc, Nat.add_comm 1]
  constructor
  · rintro ⟨j, small, lost, unsettled⟩
    refine ⟨unsettled 0 (Nat.zero_le j), ?_⟩
    cases j with
    | zero => exact .inl lost
    | succ j =>
        refine .inr ⟨j, Nat.lt_of_succ_lt_succ small, ?_, ?_⟩
        · rwa [Nat.add_comm j 1, ← Nat.add_assoc] at lost
        · intro i before
          rw [← later]
          exact unsettled (i + 1) (Nat.succ_le_succ before)
  · rintro ⟨first, lost | ⟨j, small, lost, unsettled⟩⟩
    · refine ⟨0, Nat.succ_pos u8Dummy, lost, ?_⟩
      intro i before
      rw [Nat.le_zero.mp before]
      exact first
    · refine ⟨j + 1, Nat.succ_lt_succ small, ?_, ?_⟩
      · rwa [Nat.add_comm j 1, ← Nat.add_assoc]
      · intro i before
        cases i with
        | zero => exact first
        | succ i =>
            rw [later]
            exact unsettled i (Nat.le_of_succ_le_succ before)

theorem positionLoop_eq_iff (before : u16AutoPos ≠ -1) :
    (positionLoop sig u8RegIndex u8Dummy u8Count u16ComparePos u16AutoPos s).1 = -1 ↔
      LosesFrom sig u8RegIndex u8Dummy u8Count u16ComparePos s := by
  induction u8Dummy generalizing u8Count u16ComparePos u16AutoPos s with
  | zero => exact iff_of_false before (by simp [LosesFrom])
  | succ u8Dummy inductionHypothesis =>
      rw [positionLoop_succ, losesFrom_succ]
      split
      · exact iff_of_false (shown_ne _) (by simp [*])
      · split
        · simp [*]
        · rw [inductionHypothesis (shown_ne _)]
          simp [*]

theorem positionReads_le :
    s.positionReads ≤
      (positionLoop sig u8RegIndex u8Dummy u8Count u16ComparePos u16AutoPos s).2.positionReads := by
  induction u8Dummy generalizing u8Count u16ComparePos u16AutoPos s with
  | zero => exact Nat.le_refl _
  | succ u8Dummy inductionHypothesis =>
      rw [positionLoop_succ]
      split
      · exact Nat.le_succ _
      · split
        · exact Nat.le_succ _
        · exact Nat.le_trans (Nat.le_succ _) (@inductionHypothesis _ _ _ (tried s))

theorem src_positionLoop :
    (positionLoop sig u8RegIndex u8Dummy u8Count u16ComparePos u16AutoPos s).2.src = s.src := by
  induction u8Dummy generalizing u8Count u16ComparePos u16AutoPos s with
  | zero => rfl
  | succ u8Dummy inductionHypothesis =>
      rw [positionLoop_succ]
      split
      · rfl
      · split
        · rfl
        · exact inductionHypothesis

theorem src_getPosition : (getPosition sig u8RegIndex s).2.src = s.src :=
  src_positionLoop

theorem positionLoop_read (kept : ¬ LosesFrom sig u8RegIndex u8Dummy u8Count u16ComparePos s) :
    let result := positionLoop sig u8RegIndex u8Dummy u8Count u16ComparePos u16AutoPos s
    u8Dummy = 0 ∧ result.1 = u16AutoPos ∨ WasRead sig u8RegIndex s result.2 result.1 := by
  induction u8Dummy generalizing u8Count u16ComparePos u16AutoPos s with
  | zero => exact .inl ⟨rfl, rfl⟩
  | succ u8Dummy inductionHypothesis =>
      rw [losesFrom_succ] at kept
      rw [positionLoop_succ]
      refine .inr ?_
      split
      · exact ⟨s.positionReads, Nat.le_refl _, Nat.lt_succ_self _, rfl⟩
      · rename_i unsettled
        have inSync : ¬ syncLost s.src (sig.sync s.syncReads) = true :=
          fun lost => kept ⟨unsettled, .inl lost⟩
        rw [if_neg inSync]
        obtain ⟨-, same⟩ | ⟨reading, from', before, same⟩ :=
          inductionHypothesis fun later => kept ⟨unsettled, .inr later⟩
        · exact ⟨s.positionReads, Nat.le_refl _, @positionReads_le _ _ _ _ _ _ (tried s), same⟩
        · exact ⟨reading, Nat.le_of_succ_le from', before, same⟩

theorem getPosition_spec :
    ((getPosition sig u8RegIndex s).1 = -1 ↔ LosesSync sig u8RegIndex s) ∧
      (¬ LosesSync sig u8RegIndex s →
        WasRead sig u8RegIndex s (getPosition sig u8RegIndex s).2
          (getPosition sig u8RegIndex s).1) := by
  refine ⟨positionLoop_eq_iff (by decide), fun kept => ?_⟩
  obtain ⟨none, -⟩ | read := positionLoop_read kept
  · cases none
  · exact read

theorem not_read_of_loses {t u : AutoTune} (loses : LosesSync sig u8RegIndex s) :
    ¬ WasRead sig u8RegIndex t u (getPosition sig u8RegIndex s).1 := by
  rintro ⟨reading, -, -, same⟩
  rw [getPosition_spec.1.mpr loses] at same
  exact shown_ne reading same.symm

end Position

/-! ### The passes -/

section Passes

/-- The turns of the first loop that are begun, with the state at the beginning of each. -/
inductive Begun (sig : Signal) : Nat → U16 → AutoTune → AutoTune → Prop where
  | here {tryCount : Nat} {total : U16} {s : AutoTune} : Begun sig (tryCount + 1) total s s
  | later {tryCount : Nat} {total next : U16} {s mid t : AutoTune}
      (again : pass sig total s = .retry next mid) (rest : Begun sig tryCount next mid t) :
      Begun sig (tryCount + 1) total s t

/-- A turn of the run that starts in `s`. -/
def BeginsPass (sig : Signal) (s t : AutoTune) : Prop :=
  (checkSyncLoss sig s).1 = false ∧
    Begun sig 3 s.src.modesetting.u16HorizontalTotal (checkSyncLoss sig s).2 t

/-- The state between the two positions. -/
def atEnd (sig : Signal) (s : AutoTune) : AutoTune :=
  (getPosition sig 0x13 (setAdcPhase 0x00 s)).2

/-- The turn rescales the total. -/
def Rescales (sig : Signal) (t : AutoTune) : Prop :=
  widthOf (actualEdges sig t).1 ≠ stdWidth sig t

/-- Either position was read in the turn. -/
structure EdgesRead (sig : Signal) (t : AutoTune) : Prop where
  start : WasRead sig 0x13 t (actualEdges sig t).2 (actualEdges sig t).1.1
  stop : WasRead sig 0x15 t (actualEdges sig t).2 (actualEdges sig t).1.2

/-- The code divides by no zero, and the widths that it divides by are those of positions that
were read. -/
structure WidthsRead (sig : Signal) (s : AutoTune) : Prop where
  noTrap : tuneHTotal sig s ≠ none
  read : ∀ t, BeginsPass sig s t → Rescales sig t → EdgesRead sig t

/-- The sync is there until both positions are found, and the second one does not come just
before the first. -/
structure WidthSound (sig : Signal) (t : AutoTune) : Prop where
  start : ¬ LosesSync sig 0x13 (setAdcPhase 0x00 t)
  stop : ¬ LosesSync sig 0x15 (atEnd sig t)
  apart : (actualEdges sig t).1.2 + 1 ≠ (actualEdges sig t).1.1

variable {sig : Signal} {tryCount : Nat} {total : U16} {s t : AutoTune}

theorem widthOf_eq_zero_iff {edges : U16 × U16} : widthOf edges = 0 ↔ edges.2 + 1 = edges.1 := by
  unfold widthOf
  bv_omega

theorem src_actualEdges : (actualEdges sig t).2.src = t.src := by
  have first : (atEnd sig t).src = t.src := src_getPosition
  have second : (actualEdges sig t).2.src = (atEnd sig t).src := src_getPosition
  rw [second, first]

theorem newTotal_eq_none_iff :
    newTotal sig total (actualEdges sig t).1 (actualEdges sig t).2 = none ↔
      Rescales sig t ∧ widthOf (actualEdges sig t).1 = 0 := by
  have same : stdWidth sig (actualEdges sig t).2 = stdWidth sig t := by
    rw [stdWidth, src_actualEdges, stdWidth]
  rw [newTotal, same, Rescales]
  split
  · rename_i other
    rw [and_iff_right other]
    split
    · rename_i zero
      exact iff_of_true rfl zero
    · rename_i nonzero
      exact iff_of_false (by simp) nonzero
  · rename_i equal
    exact iff_of_false (by simp) fun both => equal both.1

/-- A turn divides by zero when it rescales by a width of 0. -/
theorem pass_trap_iff :
    pass sig total t = .trap ↔ Rescales sig t ∧ widthOf (actualEdges sig t).1 = 0 := by
  rw [← @newTotal_eq_none_iff sig total t]
  simp only [pass]
  cases newTotal sig total (actualEdges sig t).1 (actualEdges sig t).2 with
  | none => simp
  | some next =>
      simp only [reduceCtorEq, iff_false]
      split
      · simp
      · split <;> simp

theorem passes_trap_iff :
    passes sig tryCount total s = .trap ↔
      ∃ t, Begun sig tryCount total s t ∧ Rescales sig t ∧ widthOf (actualEdges sig t).1 = 0 := by
  induction tryCount generalizing total s with
  | zero =>
      simp only [passes, reduceCtorEq, false_iff]
      rintro ⟨t, begun, -⟩
      cases begun
  | succ tryCount inductionHypothesis =>
      rw [passes]
      constructor
      · intro trap
        cases run : pass sig total s with
        | trap => exact ⟨s, .here, pass_trap_iff.mp run⟩
        | lost mid => simp [run] at trap
        | fits semWidth mid => simp [run] at trap
        | retry next mid =>
            simp only [run] at trap
            obtain ⟨t, begun, zero⟩ := inductionHypothesis.mp trap
            exact ⟨t, .later run begun, zero⟩
      · rintro ⟨t, begun, zero⟩
        cases begun with
        | here => rw [pass_trap_iff.mpr zero]
        | later again rest =>
            rw [again]
            exact inductionHypothesis.mpr ⟨t, rest, zero⟩

theorem tuneHTotal_eq_none_iff :
    tuneHTotal sig s = none ↔
      ∃ t, BeginsPass sig s t ∧ Rescales sig t ∧ widthOf (actualEdges sig t).1 = 0 := by
  simp only [BeginsPass, tuneHTotal]
  cases lost : (checkSyncLoss sig s).1 with
  | true => simp
  | false =>
      simp only [Bool.false_eq_true, if_false, true_and]
      rw [← passes_trap_iff]
      have total : (checkSyncLoss sig s).2.src.modesetting.u16HorizontalTotal =
        s.src.modesetting.u16HorizontalTotal := rfl
      rw [total]
      cases passes sig 3 s.src.modesetting.u16HorizontalTotal (checkSyncLoss sig s).2 with
      | trap => simp
      | lost last => simp
      | fits semWidth last =>
          simp only [reduceCtorEq, iff_false]
          split <;> simp
      | retry next last => simp

theorem edgesRead_iff :
    EdgesRead sig t ↔ ¬ LosesSync sig 0x13 (setAdcPhase 0x00 t) ∧
      ¬ LosesSync sig 0x15 (atEnd sig t) := by
  constructor
  · intro read
    constructor
    · exact fun loses => not_read_of_loses loses read.start
    · exact fun loses => not_read_of_loses loses read.stop
  · rintro ⟨first, second⟩
    obtain ⟨reading, after, before, same⟩ := getPosition_spec.2 first
    obtain ⟨other, after', before', same'⟩ := getPosition_spec.2 second
    constructor
    · have later : (atEnd sig t).positionReads ≤ (actualEdges sig t).2.positionReads :=
        @positionReads_le sig 0x15 20 0 0 0 (atEnd sig t)
      exact ⟨reading, after, Nat.lt_of_lt_of_le before later, same⟩
    · have later : t.positionReads ≤ (atEnd sig t).positionReads :=
        @positionReads_le sig 0x13 20 0 0 0 (setAdcPhase 0x00 t)
      exact ⟨other, Nat.le_trans later after', before', same'⟩

end Passes

/-- Exactly when the widths are those of positions that were read. -/
theorem widthsRead_iff (sig : Signal) (s : AutoTune) :
    WidthsRead sig s ↔ ∀ t, BeginsPass sig s t → Rescales sig t → WidthSound sig t := by
  constructor
  · rintro ⟨noTrap, read⟩ t begins rescales
    obtain ⟨start, stop⟩ := edgesRead_iff.mp (read t begins rescales)
    refine ⟨start, stop, fun next => noTrap ?_⟩
    exact tuneHTotal_eq_none_iff.mpr ⟨t, begins, rescales, widthOf_eq_zero_iff.mpr next⟩
  · intro sound
    constructor
    · intro trap
      obtain ⟨t, begins, rescales, zero⟩ := tuneHTotal_eq_none_iff.mp trap
      exact (sound t begins rescales).apart (widthOf_eq_zero_iff.mp zero)
    · intro t begins rescales
      obtain ⟨start, stop, -⟩ := sound t begins rescales
      exact edgesRead_iff.mpr ⟨start, stop⟩

/-- The sync is lost behind the first of the positions. -/
def lostAtEnd : Signal where
  sync reading := if reading < 3 then xgaSync else noSync
  position _ _ := 0
  phaseVal _ _ := 0
  entry _ := ⟨res1024x768, 0, 0, 0, 0, 1344, 806, 0, 0, 0⟩
  behind _ := (0, 0)

/-- The width of the positions 0 and -1 is 0, and the total is divided by it. -/
theorem divides_by_zero : ¬ ∀ (sig : Signal) (s : AutoTune), WidthsRead sig s := by
  intro law
  exact (law lostAtEnd xga).noTrap (by decide +kernel)

end Gp2Firmware.Scaler.AutoTune
