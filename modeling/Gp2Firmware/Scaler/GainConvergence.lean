import Gp2Firmware.Scaler.GainSteady

/-!
# Where the calibration arrives

The search ends near the targets, except that a target 0 leaves the first gain.  The fine
tuning of external RGB climbs from there to its targets.
-/

namespace Gp2Firmware.Scaler.GainCalibration

def Fits (type : U8) (targets : Fin 3 → U16) (f : Fin 3 → U16 → U16) : Prop :=
  if external type then ∀ ch, FineResponse (f ch) (targets ch)
  else ∀ ch, Response (f ch) (targets ch)

/-- The calibration returns with gains whose levels are the targets, or near them, and these
gains are in the registers. -/
def Calibrates (type : U8) (targets : Fin 3 → U16) (f : Fin 3 → U16 → U16) : Prop :=
  ∃ cs, Returns type targets (steady f) cs ∧ ∀ ch,
    (if external type then f ch (cs ch).gain = targets ch
      else Near (f ch (cs ch).gain) (targets ch)) ∧
    (cs ch).adcGain = (cs ch).gain

section Calm

variable {type : U8} {targets : Fin 3 → U16} {f : Fin 3 → U16 → U16} {ch : Fin 3}
  (calm : external type = false)

include calm

theorem rising_after (response : Response (f ch) (targets ch)) (zero : targets ch = 0)
    {y : Nat} (small : y ≤ 10) :
    Rising (f ch) (y + 1) (after type targets (steady f) ch (y + 1)) := by
  rw [zero] at response
  induction y with
  | zero =>
      rw [after, zero]
      exact rising_first calm response
  | succ y inductionHypothesis =>
      have before := inductionHypothesis (by omega)
      rw [after, zero]
      exact rising_turn calm response before small

theorem climbing_after (response : Response (f ch) (targets ch)) (top : targets ch = 0xFFFF)
    {y : Nat} (small : y ≤ 11) : Climbing (f ch) y (after type targets (steady f) ch y) := by
  rw [top] at response
  induction y with
  | zero => exact ⟨grid_start, recorded_start, .inr ⟨by decide, rfl⟩⟩
  | succ y inductionHypothesis =>
      have before := inductionHypothesis (by omega)
      rw [after, top]
      exact climbing_turn calm response before (by omega)

/-- A target apart from both ends comes within the bounds. -/
theorem inner_after (response : Response (f ch) (targets ch)) (positive : targets ch ≠ 0)
    (top : targets ch ≠ 0xFFFF) (y : Nat) :
    Closed (f ch) (targets ch) (after type targets (steady f) ch y) ∨
      y ≤ 10 ∧ Grid y (after type targets (steady f) ch y) := by
  have target := @searchTarget_calm type (targets ch) calm
  rw [← target] at response positive top
  obtain closed | ⟨early, grid, -⟩ := searching_after response positive top y
  · rw [target] at closed
    exact .inl closed
  · exact .inr ⟨early, grid⟩

theorem near_of_done (response : Response (f ch) (targets ch)) {y : Nat} (small : y ≤ 12)
    (done : (after type targets (steady f) ch y).bDone = true) :
    targets ch ≠ 0 ∧ Near (f ch (after type targets (steady f) ch y).gain) (targets ch) ∧
      (after type targets (steady f) ch y).gain.toNat ≤ 0x2000 := by
  by_cases zero : targets ch = 0
  · have never : (after type targets (steady f) ch y).bDone = false := by
      cases y with
      | zero => rfl
      | succ y =>
          obtain early | rfl := Nat.le_succ_iff.mp (Nat.le_of_succ_le_succ small)
          · exact (rising_after calm response zero early).grid.searching
          · have rising := rising_after calm response zero (Nat.le_refl 10)
            rw [zero] at response
            rw [after, zero]
            exact (fallBack_rising rising response).2
    rw [never] at done
    cases done
  · by_cases top : targets ch = 0xFFFF
    · have never : (after type targets (steady f) ch y).bDone = false := by
        obtain early | rfl := Nat.le_succ_iff.mp small
        · exact (climbing_after calm response top early).grid.searching
        · have climbing := climbing_after calm response top (Nat.le_refl 11)
          rw [after, top]
          exact (fallBack_climbing climbing).2.2
      rw [never] at done
      cases done
    · obtain closed | ⟨-, grid⟩ := inner_after calm response zero top y
      · exact ⟨zero, closed.near, closed.small⟩
      · rw [grid.searching] at done
        cases done

/-- Where the search leaves a channel that it gives up. -/
theorem near_fallBack_iff (response : Response (f ch) (targets ch)) :
    (Near (f ch (after type targets (steady f) ch 12).fallBack.gain) (targets ch) ↔
        (targets ch = 0 → (f ch 0x1000).toNat ≤ 1)) ∧
      (after type targets (steady f) ch 12).fallBack.gain.toNat ≤ 0x2000 := by
  by_cases zero : targets ch = 0
  · have rising := rising_after calm response zero (Nat.le_refl 10)
    have first : (after type targets (steady f) ch 12).fallBack.gain = 0x1000 := by
      rw [zero] at response
      rw [after, zero]
      exact (fallBack_rising rising response).1
    rw [first, zero]
    refine ⟨?_, by decide⟩
    constructor
    · exact fun near _ => near.1
    · exact fun bound => ⟨bound rfl, Nat.zero_le _⟩
  · by_cases top : targets ch = 0xFFFF
    · have climbing := climbing_after calm response top (Nat.le_refl 11)
      have reached := @fallBack_climbing type _ _ climbing
      rw [after, top]
      exact ⟨iff_of_true reached.1 fun none => absurd none (by decide), reached.2.1⟩
    · obtain closed | ⟨early, -⟩ := inner_after calm response zero top 12
      · have same : (after type targets (steady f) ch 12).fallBack.gain =
            (after type targets (steady f) ch 12).gain := by
          rw [Channel.fallBack, closed.upper, closed.lower]
          exact ite_self _
        rw [same]
        exact ⟨iff_of_true closed.near fun none => absurd none zero, closed.small⟩
      · omega

end Calm

section Result

variable {type : U8} {targets : Fin 3 → U16} {f : Fin 3 → U16 → U16}

/-- The gains that the search or the fine tuning chose are written. -/
theorem calibrates_iff_near {cs : Channels} (calm : external type = false)
    (result : ∀ fuel, calGain fuel type targets (steady f) =
      some fun ch => (cs ch).setGain (cs ch).gain)
    (small : ∀ ch, (cs ch).gain.toNat ≤ 0x2000) :
    Calibrates type targets f ↔ ∀ ch, Near (f ch (cs ch).gain) (targets ch) := by
  rw [Calibrates, calm]
  constructor
  · rintro ⟨last, ⟨fuel, returned⟩, reached⟩ ch
    rw [result, Option.some.injEq] at returned
    rw [← returned] at reached
    exact (reached ch).1
  · intro near
    refine ⟨_, ⟨0, result 0⟩, fun ch => ⟨near ch, mask_eq ?_⟩⟩
    have bound := small ch
    omega

theorem search_ends (type : U8) (targets : Fin 3 → U16) (f : Fin 3 → U16 → U16) :
    (∃ n < 12, search type targets (steady f) 12 0 (fun _ => .start) =
        (true, n, allAfter type targets (steady f) (n + 1)) ∧
      ∀ ch, (after type targets (steady f) ch (n + 1)).bDone = true) ∨
      search type targets (steady f) 12 0 (fun _ => .start) =
          (false, 12, allAfter type targets (steady f) 12) ∧
        allDone (allAfter type targets (steady f) 12) = false := by
  have before : ∀ k ≤ 0, allDone (allAfter type targets (steady f) k) = false := by
    intro k none
    rw [Nat.le_zero.mp none]
    exact allDone_start
  obtain ⟨n, small, run, done, -⟩ | ⟨run, open'⟩ :=
    @search_spec type targets (steady f) 12 0 before
  · rw [Nat.zero_add] at run done
    exact .inl ⟨n, small, run, allDone_iff.mp done⟩
  · exact .inr ⟨run, open' 12 (Nat.le_refl 12)⟩

theorem calibrates_calm (calm : external type = false)
    (response : ∀ ch, Response (f ch) (targets ch)) :
    Calibrates type targets f ↔ ∀ ch, targets ch = 0 → (f ch 0x1000).toNat ≤ 1 := by
  obtain ⟨n, small, run, done⟩ | ⟨run, -⟩ := search_ends type targets f
  · have reached := fun ch => near_of_done calm (response ch) small (done ch)
    have result : ∀ fuel, calGain fuel type targets (steady f) =
        some fun ch => (allAfter type targets (steady f) (n + 1) ch).setGain
          (allAfter type targets (steady f) (n + 1) ch).gain := by
      intro fuel
      rw [calGain, run, calm]
      rfl
    rw [calibrates_iff_near calm result fun ch => (reached ch).2.2]
    exact iff_of_true (fun ch => (reached ch).2.1) fun ch zero => absurd zero (reached ch).1
  · have result : ∀ fuel, calGain fuel type targets (steady f) =
        some fun ch => (allAfter type targets (steady f) 12 ch).fallBack.setGain
          (allAfter type targets (steady f) 12 ch).fallBack.gain := by
      intro fuel
      rw [calGain, run]
      rfl
    have reached := fun ch => near_fallBack_iff calm (response ch)
    rw [calibrates_iff_near calm result fun ch => (reached ch).2]
    exact forall_congr' fun ch => (reached ch).1

theorem searchTarget_high {target : U16} (outside : external type = true)
    (high : 1020 ≤ target.toNat) : searchTarget type target = extRgbBinarySearchTarget := by
  rw [searchTarget, outside]
  refine if_pos ⟨rfl, ?_⟩
  change (1018 : U16) < target
  bv_omega

theorem calibrates_external (outside : external type = true)
    (response : ∀ ch, FineResponse (f ch) (targets ch)) : Calibrates type targets f := by
  have target : ∀ ch, searchTarget type (targets ch) = extRgbBinarySearchTarget :=
    fun ch => searchTarget_high outside (response ch).above
  have searched : ∀ ch y,
      Closed (f ch) extRgbBinarySearchTarget (after type targets (steady f) ch y) ∨
        y ≤ 10 ∧ Grid y (after type targets (steady f) ch y) := by
    intro ch y
    have coarse := (response ch).coarse
    rw [← target ch] at coarse
    have search := searching_after coarse (by rw [target]; decide) (by rw [target]; decide) y
    rw [target] at search
    exact search.imp_right fun both => ⟨both.1, both.2.1⟩
  obtain ⟨n, -, run, done⟩ | ⟨-, open'⟩ := search_ends type targets f
  · have tuned : ∀ ch, Tuned (f ch) (targets ch)
        (reopen targets (allAfter type targets (steady f) (n + 1)) ch) := by
      intro ch
      have above := (response ch).above
      have again :
          (reopen targets (allAfter type targets (steady f) (n + 1)) ch).bDone = false := by
        refine decide_eq_false (not_not.mpr ?_)
        change (1018 : U16) < targets ch
        bv_omega
      obtain closed | ⟨-, grid⟩ := searched ch (n + 1)
      · refine ⟨Nat.le_succ_of_le closed.small, fun finished => ?_, fun _ => ?_⟩
        · rw [again] at finished
          cases finished
        · have near := closed.near.1
          have search : extRgbBinarySearchTarget.toNat = 1018 := rfl
          change f ch (after type targets (steady f) ch (n + 1)).gain < targets ch
          bv_omega
      · have finished := done ch
        rw [grid.searching] at finished
        cases finished
    obtain ⟨last, ended, reached⟩ := fineTune_reaches response 0x2000 (n + 1) _ tuned
      fun ch => .inr (Nat.le_add_left _ _)
    have returned : calGain 0x2000 type targets (steady f) =
        some fun ch => (last ch).setGain (last ch).gain := by
      rw [calGain, run, outside]
      dsimp only
      rw [if_pos rfl, ended]
      rfl
    refine ⟨_, ⟨0x2000, returned⟩, fun ch => ?_⟩
    rw [outside]
    refine ⟨(reached ch).1, mask_eq ?_⟩
    have bound := (reached ch).2
    omega
  · have done : allDone (allAfter type targets (steady f) 12) = true := by
      rw [allDone_iff]
      intro ch
      obtain closed | ⟨early, -⟩ := searched ch 12
      · exact closed.done
      · omega
    rw [done] at open'
    cases open'

end Result

/-- Exactly when the calibration arrives at the targets. -/
theorem calibrates_iff (type : U8) (targets : Fin 3 → U16) (f : Fin 3 → U16 → U16)
    (fits : Fits type targets f) :
    Calibrates type targets f ↔
      external type = true ∨ ∀ ch, targets ch = 0 → (f ch 0x1000).toNat ≤ 1 := by
  rw [Fits] at fits
  cases outside : external type with
  | true =>
      rw [if_pos outside] at fits
      exact iff_of_true (calibrates_external outside fits) (.inl rfl)
  | false =>
      rw [if_neg (by simp [outside])] at fits
      rw [calibrates_calm outside fits]
      simp

/-- A level that is a quarter of the gain. -/
def quarter : Fin 3 → U16 → U16 := fun _ gain => gain >>> 2

theorem quarter_fits {target : U16} (small : target.toNat ≤ 2048) :
    Fits autoTuneIntAdc (fun _ => target) quarter := by
  have level : ∀ ch gain, (quarter ch gain).toNat = gain.toNat / 4 := by
    intro ch gain
    rw [quarter, BitVec.toNat_ushiftRight, Nat.shiftRight_eq_div_pow]
  refine (if_neg (by decide)).mpr fun ch => ⟨?_, ?_, ?_, ?_⟩
  · intro g h below
    rw [BitVec.le_def, level, level]
    exact Nat.div_le_div_right below
  · rw [level]
    exact Nat.le_add_left _ _
  · rw [level]
    exact small
  · intro g h next
    rw [level, level, next]
    omega

theorem calibrates_iff_quarter :
    Fits autoTuneIntAdc (fun _ => 512) quarter ∧
      Calibrates autoTuneIntAdc (fun _ => 512) quarter := by
  have fits : Fits autoTuneIntAdc (fun _ => 512) quarter := quarter_fits (by decide)
  exact ⟨fits, (calibrates_iff _ _ _ fits).mpr (.inr fun _ zero => absurd zero (by decide))⟩

/-- A target 0 is left with the first gain, and its level is 1024. -/
theorem not_calibrates :
    ¬ ∀ (type : U8) (targets : Fin 3 → U16) (f : Fin 3 → U16 → U16),
      Fits type targets f → Calibrates type targets f := by
  intro law
  have calm : external autoTuneIntAdc = false := by decide
  have fits : Fits autoTuneIntAdc (fun _ => 0) quarter := quarter_fits (by decide)
  have calibrated := law _ _ _ fits
  rw [Fits, calm] at fits
  have bound := (calibrates_calm calm fits).mp calibrated 0 rfl
  exact absurd bound (by decide)

end Gp2Firmware.Scaler.GainCalibration
