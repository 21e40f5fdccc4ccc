import Gp2Firmware.Scaler.AutoTune

/-!
# The best phase

`MDrv_Auto_TunePhase` tries every fourth phase and then those around the best of them.
-/

namespace Gp2Firmware.Scaler.AutoTune

/-- The phase that lies a number of steps above phase 0, on the circle. -/
def around (steps : Nat) : U8 := BitVec.ofNat 8 (steps % 128)

/-- A quality that decreases on both arcs from the phase `top` to the phase at the distance
`down` above it. -/
structure Peaked (quality : U8 → U32) (top : U8) (down : Nat) : Prop where
  onCircle : top.toNat < 128
  above : ∀ i < down, quality (around (top.toNat + i + 1)) < quality (around (top.toNat + i))
  below : ∀ i < 128 - down,
    quality (around (top.toNat + 128 - (i + 1))) < quality (around (top.toNat + 128 - i))

section Circle

variable {steps : Nat} {phase : U8}

theorem around_toNat (onCircle : phase.toNat < 128) : around phase.toNat = phase := by
  rw [around, Nat.mod_eq_of_lt onCircle, BitVec.ofNat_toNat, BitVec.setWidth_eq]

theorem around_add_turn : around (steps + 128) = around steps := by
  rw [around, Nat.add_mod_right, around]

theorem around_congr {other : Nat} (same : steps % 128 = other % 128) :
    around steps = around other := by
  rw [around, same, around]

theorem toNat_around : (around steps).toNat = steps % 128 := by
  rw [around, BitVec.toNat_ofNat]
  omega

theorem exists_distance {top : U8} (onCircle : phase.toNat < 128) :
    ∃ distance < 128, phase = around (top.toNat + distance) := by
  refine ⟨(phase.toNat + 256 - top.toNat) % 128, Nat.mod_lt _ (by decide), ?_⟩
  have bound := top.isLt
  exact (around_toNat onCircle).symm.trans (around_congr (by omega))

end Circle

/-! ### The peak -/

section Peak

theorem lt_of_steps {value : Nat → U32} {length : Nat}
    (step : ∀ i < length, value (i + 1) < value i) {i j : Nat} (before : i < j)
    (inside : j ≤ length) : value j < value i := by
  induction j with
  | zero => exact absurd before (Nat.not_lt_zero i)
  | succ j inductionHypothesis =>
      have next := step j inside
      obtain earlier | rfl := Nat.lt_succ_iff_lt_or_eq.mp before
      · exact BitVec.lt_trans next (inductionHypothesis earlier (Nat.le_of_succ_le inside))
      · exact next

variable {quality : U8 → U32} {top : U8} {down : Nat} (peaked : Peaked quality top down)

include peaked

/-- The phase that is nearer to the peak on the upper arc. -/
theorem nearer_above {i j : Nat} (before : i < j) (inside : j ≤ down) :
    quality (around (top.toNat + j)) < quality (around (top.toNat + i)) :=
  @lt_of_steps (fun i => quality (around (top.toNat + i))) down peaked.above i j before inside

theorem nearer_below {i j : Nat} (before : i < j) (inside : j ≤ 128 - down) :
    quality (around (top.toNat + 128 - j)) < quality (around (top.toNat + 128 - i)) :=
  @lt_of_steps (fun i => quality (around (top.toNat + 128 - i))) (128 - down) peaked.below i j
    before inside

theorem eq_top {phase : U8} (onCircle : phase.toNat < 128) (best : quality top ≤ quality phase) :
    phase = top := by
  obtain ⟨distance, small, rfl⟩ := @exists_distance phase top onCircle
  have whole := around_toNat peaked.onCircle
  obtain rfl | positive := Nat.eq_zero_or_pos distance
  · exact whole
  · exfalso
    by_cases upper : distance ≤ down
    · have nearer := nearer_above peaked positive upper
      rw [Nat.add_zero, whole] at nearer
      exact absurd nearer (BitVec.not_lt.mpr best)
    · have nearer := @nearer_below quality top down peaked 0 (128 - distance)
        (by omega) (by omega)
      rw [Nat.sub_zero, around_add_turn, whole] at nearer
      have same : top.toNat + 128 - (128 - distance) = top.toNat + distance := by omega
      rw [same] at nearer
      exact absurd nearer (BitVec.not_lt.mpr best)

/-- The best of every fourth phase is one of the two next to the peak. -/
theorem top_near {coarse : U8} (onCircle : coarse.toNat < 128) (fourth : coarse.toNat % 4 = 0)
    (best : ∀ phase : U8, phase.toNat < 128 → phase.toNat % 4 = 0 →
      quality phase ≤ quality coarse) :
    ∃ k < 7, top = around (coarse.toNat + 125 + k) := by
  have whole := around_toNat peaked.onCircle
  have bound := peaked.onCircle
  obtain ⟨distance, small, place⟩ := @exists_distance coarse top onCircle
  have number : coarse.toNat = (top.toNat + distance) % 128 := by
    rw [place, toNat_around]
  have bestAt : ∀ steps, steps % 4 = 0 → quality (around steps) ≤ quality coarse := by
    intro steps multiple
    exact best _ (by rw [toNat_around]; omega) (by rw [toNat_around]; omega)
  by_cases upper : distance ≤ down
  · -- the next fourth phase above the peak is no farther than the best one
    have next : distance ≤ (4 - top.toNat % 4) % 4 := by
      by_contra far
      have nearer := nearer_above peaked (Nat.lt_of_not_le far) upper
      rw [← place] at nearer
      exact absurd nearer (BitVec.not_lt.mpr (bestAt _ (by omega)))
    refine ⟨3 - distance, by omega, ?_⟩
    exact whole.symm.trans (around_congr (by omega))
  · have next : 128 - distance ≤ top.toNat % 4 := by
      by_contra far
      have nearer := @nearer_below quality top down peaked (top.toNat % 4) (128 - distance)
        (Nat.lt_of_not_le far) (by omega)
      have same : top.toNat + 128 - (128 - distance) = top.toNat + distance := by omega
      rw [same, ← place] at nearer
      exact absurd nearer (BitVec.not_lt.mpr (bestAt _ (by omega)))
    refine ⟨3 + (128 - distance), by omega, ?_⟩
    exact whole.symm.trans (around_congr (by omega))

end Peak

/-! ### The loops -/

theorem mem_coarsePhases {phase : U8} :
    phase ∈ coarsePhases ↔ phase.toNat < 128 ∧ phase.toNat % 4 = 0 := by
  rw [coarsePhases, List.mem_map]
  constructor
  · rintro ⟨i, small, rfl⟩
    rw [List.mem_range] at small
    rw [BitVec.toNat_ofNat]
    omega
  · rintro ⟨inside, fourth⟩
    refine ⟨phase.toNat / 4, List.mem_range.mpr (by omega), ?_⟩
    apply BitVec.eq_of_toNat_eq
    rw [BitVec.toNat_ofNat]
    omega

theorem finePhases_eq : ∀ coarse ∈ coarsePhases,
    finePhases ((coarse + autoPhaseStep) &&& phaseMax) 128
        ((coarse - autoPhaseStep + 1) &&& phaseMax) =
      (List.range 7).map fun k => around (coarse.toNat + 125 + k) := by
  decide +kernel

theorem first_mem_finePhases {coarse : U8} (member : coarse ∈ coarsePhases) :
    (coarse - autoPhaseStep + 1) &&& phaseMax ∈
      finePhases ((coarse + autoPhaseStep) &&& phaseMax) 128
        ((coarse - autoPhaseStep + 1) &&& phaseMax) := by
  have window := finePhases_eq coarse member
  rw [finePhases] at window ⊢
  split
  · rename_i stopped
    rw [if_pos stopped] at window
    cases window
  · exact List.mem_cons_self

section Loop

variable {sig : Signal} {quality : U8 → U32} {s : AutoTune}
  (steady : ∀ reading phase, sig.phaseVal reading phase = quality phase)
  (locked : ∀ reading, syncLost s.src (sig.sync reading) = false)

include steady locked

/-- A loop keeps the phase it had, or one that is better than that and than all others. -/
theorem phaseLoop_spec (phases : List U8) (best : U8) (max : U32) :
    ∃ found last, phaseLoop sig phases best max s = (true, found, last) ∧ last.src = s.src ∧
      (found = best ∧ (∀ phase ∈ phases, quality phase ≤ max) ∨
        found ∈ phases ∧ max < quality found ∧
          ∀ phase ∈ phases, quality phase ≤ quality found) := by
  induction phases generalizing best max s with
  | nil => exact ⟨best, s, rfl, rfl, .inl ⟨rfl, by simp⟩⟩
  | cons phase rest inductionHypothesis =>
      simp only [phaseLoop, getPhaseVal, setAdcPhase, checkSyncLoss, locked, steady,
        Bool.false_eq_true, if_false, List.forall_mem_cons]
      by_cases better : quality phase > max
      · obtain ⟨found, last, run, source, kept⟩ := @inductionHypothesis
          { s with adcPhase := phase, phaseReads := s.phaseReads + 1,
                   syncReads := s.syncReads + 1 } locked phase (quality phase)
        rw [if_pos better]
        refine ⟨found, last, run, source, .inr ?_⟩
        obtain ⟨rfl, others⟩ | ⟨member, above, others⟩ := kept
        · exact ⟨List.mem_cons_self, better, BitVec.le_refl _, others⟩
        · exact ⟨List.mem_cons_of_mem _ member, BitVec.lt_trans better above,
            BitVec.le_of_lt above, others⟩
      · obtain ⟨found, last, run, source, kept⟩ := @inductionHypothesis
          { s with adcPhase := phase, phaseReads := s.phaseReads + 1,
                   syncReads := s.syncReads + 1 } locked best max
        have low : quality phase ≤ max := BitVec.not_lt.mp better
        rw [if_neg better]
        refine ⟨found, last, run, source, ?_⟩
        obtain ⟨same, others⟩ | ⟨member, above, others⟩ := kept
        · exact .inl ⟨same, low, others⟩
        · exact .inr ⟨List.mem_cons_of_mem _ member, above,
            BitVec.le_of_lt (by bv_omega), others⟩

/-- A loop that has one of its phases to begin with finds the best of them. -/
theorem phaseLoop_best (phases : List U8) (best : U8) (member : best ∈ phases) :
    ∃ found last, phaseLoop sig phases best 0 s = (true, found, last) ∧ last.src = s.src ∧
      found ∈ phases ∧ ∀ phase ∈ phases, quality phase ≤ quality found := by
  obtain ⟨found, last, run, source, kept⟩ := phaseLoop_spec steady locked phases best 0
  refine ⟨found, last, run, source, ?_⟩
  obtain ⟨rfl, others⟩ | ⟨inside, -, others⟩ := kept
  · refine ⟨member, fun phase listed => ?_⟩
    exact BitVec.le_trans (others phase listed) (BitVec.le_def.mpr (Nat.zero_le _))
  · exact ⟨inside, others⟩

end Loop

/-- The search finds the peak of the quality, wherever it lies. -/
theorem tunePhase_finds_peak (sig : Signal) (s : AutoTune) (quality : U8 → U32) (top : U8)
    (down : Nat) (peaked : Peaked quality top down)
    (steady : ∀ reading phase, sig.phaseVal reading phase = quality phase)
    (locked : ∀ reading, syncLost s.src (sig.sync reading) = false) :
    (tunePhase sig s).1 = true ∧ (tunePhase sig s).2.src.modesetting.u8Phase = top := by
  obtain ⟨coarse, mid, coarseRun, source, member, coarseBest⟩ :=
    phaseLoop_best steady locked coarsePhases 0x00 (by decide)
  obtain ⟨onCircle, fourth⟩ := mem_coarsePhases.mp member
  obtain ⟨k, small, isTop⟩ := top_near peaked onCircle fourth
    fun phase inside multiple => coarseBest phase (mem_coarsePhases.mpr ⟨inside, multiple⟩)
  have lockedMid : ∀ reading, syncLost mid.src (sig.sync reading) = false := by
    rw [source]
    exact locked
  have window := finePhases_eq coarse member
  obtain ⟨found, last, fineRun, -, inside, fineBest⟩ :=
    phaseLoop_best steady lockedMid _ _ (first_mem_finePhases member)
  have isFound : found = top := by
    apply eq_top peaked
    · rw [window] at inside
      obtain ⟨j, -, rfl⟩ := List.mem_map.mp inside
      rw [toNat_around]
      exact Nat.mod_lt _ (by decide)
    · apply fineBest
      rw [window, isTop]
      exact List.mem_map_of_mem (List.mem_range.mpr small)
  simp only [tunePhase, coarseRun, fineRun]
  exact ⟨trivial, isFound⟩

/-- A quality with its peak at phase 126. -/
def roof (phase : U8) : U32 :=
  let distance := (phase.toNat + 2) % 128
  if distance ≤ 64 then BitVec.ofNat 32 (200 - distance) else BitVec.ofNat 32 (72 + distance)

theorem peaked_roof : Peaked roof 126 64 where
  onCircle := by decide
  above := by decide +kernel
  below := by decide +kernel

def roofSignal : Signal where
  sync _ := xgaSync
  position _ _ := 0
  phaseVal _ := roof
  entry _ := ⟨0, 0, 0, 0, 0, 0, 0, 0, 0, 0⟩
  behind _ := (0, 0)

theorem tunePhase_finds_peak_roof :
    (tunePhase roofSignal xga).1 = true ∧
      (tunePhase roofSignal xga).2.src.modesetting.u8Phase = 126 :=
  tunePhase_finds_peak roofSignal xga roof 126 64 peaked_roof (fun _ _ => rfl)
    fun _ => by
      change syncLost xga.src xgaSync = false
      decide

end Gp2Firmware.Scaler.AutoTune
