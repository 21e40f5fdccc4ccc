import Gp2Firmware.Scaler.GainSearch

/-!
# When the calibration returns

The search takes twelve measurements at most.  The fine tuning goes on until each of its
channels has shown its target.
-/

namespace Gp2Firmware.Scaler.GainCalibration

/-- Levels that are measured one after the other, whatever the gains are. -/
def measured (seq : Nat → Fin 3 → U16) : Levels := fun n ch _ => seq n ch

/-- Each channel has been within its bounds with measurement `n` or before. -/
def SettledBy (type : U8) (targets : Fin 3 → U16) (seq : Nat → Fin 3 → U16) (n : Nat) : Prop :=
  ∀ ch, ∃ k ≤ n, inBounds type (targets ch) (seq k ch) = true

/-- The fine tuning begins behind measurement `n`. -/
def SettlesAt (type : U8) (targets : Fin 3 → U16) (seq : Nat → Fin 3 → U16) (n : Nat) : Prop :=
  n ≤ 10 ∧ SettledBy type targets seq n ∧ ∀ k < n, ¬ SettledBy type targets seq k

/-- In external RGB, each channel with a high target shows it after the search. -/
def ShowsTargets (type : U8) (targets : Fin 3 → U16) (seq : Nat → Fin 3 → U16) : Prop :=
  external type = true → ∀ n, SettlesAt type targets seq n →
    ∀ ch, targets ch > extRgbBinarySearchTarget → ∃ k > n, seq k ch = targets ch

section Done

variable {type : U8} {target level : U16} {c : Channel} {y : Nat}

theorem bDone_keepClosest {gain : U16} :
    (c.keepClosest target gain level).bDone = c.bDone := by
  rw [Channel.keepClosest, Channel.keepLower, Channel.keepUpper]
  split <;> split <;> rfl

theorem bDone_move {up : Bool} : (c.move up).bDone = c.bDone := by
  rw [Channel.move]
  split
  · rfl
  · rfl

theorem bDone_setTempGain : c.setTempGain.bDone = c.bDone := by
  rw [Channel.setTempGain]
  cases c.u8Direction with
  | none => rfl
  | downTop => rfl
  | topDown => rfl

theorem bDone_turn :
    (c.turn type target y level).bDone = true ↔
      c.bDone = true ∨ y ≠ 11 ∧ inBounds type target level = true := by
  rw [Channel.turn]
  cases done : c.bDone with
  | true => simp [done]
  | false =>
      rw [if_neg (by decide)]
      by_cases last : y = 11
      · rw [if_pos last, bDone_keepClosest]
        simp [last, done]
      · rw [if_neg last]
        have written : ∀ c : Channel,
            (if y = 10 then c.setTempGain else c.setGain c.gain).bDone = c.bDone := by
          intro c
          split
          · exact bDone_setTempGain
          · rfl
        rw [written]
        cases hit : inBounds type target level with
        | true => simp [last, Channel.finish]
        | false => simp [bDone_move, bDone_keepClosest, done]

theorem bDone_raise : c.raise.bDone = c.bDone := by
  rw [Channel.raise]
  split
  · rfl
  · rfl

theorem bDone_check :
    (c.check target level).bDone = true ↔ c.bDone = true ∨ level = target := by
  rw [Channel.check]
  cases done : c.bDone with
  | true => simp [done]
  | false =>
      by_cases same : level = target
      · simp [same]
      · simp [same, done]

end Done

section Runs

variable {type : U8} {targets : Fin 3 → U16} {seq : Nat → Fin 3 → U16}

theorem bDone_after {ch : Fin 3} (y : Nat) :
    (after type targets (measured seq) ch y).bDone = true ↔
      ∃ k < y, k ≠ 11 ∧ inBounds type (targets ch) (seq k ch) = true := by
  induction y with
  | zero => simp [after, Channel.start]
  | succ y inductionHypothesis =>
      rw [after, bDone_turn, inductionHypothesis]
      constructor
      · rintro (⟨k, small, hit⟩ | hit)
        · exact ⟨k, Nat.lt_succ_of_lt small, hit⟩
        · exact ⟨y, Nat.lt_succ_self y, hit⟩
      · rintro ⟨k, small, hit⟩
        obtain earlier | rfl := Nat.lt_succ_iff_lt_or_eq.mp small
        · exact .inl ⟨k, earlier, hit⟩
        · exact .inr hit

/-- Measurements up to the eleventh decide whether all channels are done. -/
theorem allDone_after {y : Nat} (small : y ≤ 10) :
    allDone (allAfter type targets (measured seq) (y + 1)) = true ↔
      SettledBy type targets seq y := by
  rw [allDone_iff]
  refine forall_congr' fun ch => (bDone_after (y + 1)).trans ?_
  constructor
  · rintro ⟨k, before, -, hit⟩
    exact ⟨k, Nat.le_of_lt_succ before, hit⟩
  · rintro ⟨k, before, hit⟩
    exact ⟨k, Nat.lt_succ_of_le before, by omega, hit⟩

theorem allDone_last :
    allDone (allAfter type targets (measured seq) 12) =
      allDone (allAfter type targets (measured seq) 11) := by
  rw [Bool.eq_iff_iff, allDone_iff, allDone_iff]
  refine forall_congr' fun ch => ?_
  change (after type targets (measured seq) ch 12).bDone = true ↔
    (after type targets (measured seq) ch 11).bDone = true
  rw [after, bDone_turn]
  simp

theorem search_measured :
    (∃ n, SettlesAt type targets seq n ∧
        search type targets (measured seq) 12 0 (fun _ => .start) =
          (true, n, allAfter type targets (measured seq) (n + 1))) ∨
      (∀ n, ¬ SettlesAt type targets seq n) ∧
        ∃ n cs, search type targets (measured seq) 12 0 (fun _ => .start) = (false, n, cs) := by
  have before : ∀ k ≤ 0, allDone (allAfter type targets (measured seq) k) = false := by
    intro k none
    rw [Nat.le_zero.mp none]
    exact allDone_start
  obtain ⟨n, small, run, done, open'⟩ | ⟨run, open'⟩ :=
    @search_spec type targets (measured seq) 12 0 before
  · rw [Nat.zero_add] at run done open'
    have bound : n ≤ 10 := by
      by_contra large
      have last : n = 11 := by omega
      subst last
      rw [allDone_last, open' 11 (Nat.le_refl _)] at done
      cases done
    refine .inl ⟨n, ⟨bound, (allDone_after bound).mp done, ?_⟩, run⟩
    intro k earlier settled
    have already := (allDone_after (by omega)).mpr settled
    rw [open' (k + 1) earlier] at already
    cases already
  · refine .inr ⟨?_, _, _, run⟩
    rintro n ⟨bound, settled, -⟩
    have already := (allDone_after bound).mpr settled
    rw [open' (n + 1) (by omega)] at already
    cases already

theorem settlesAt_unique {n m : Nat} (first : SettlesAt type targets seq n)
    (second : SettlesAt type targets seq m) : n = m := by
  by_contra differ
  obtain before | after := Nat.lt_or_gt_of_ne differ
  · exact second.2.2 n before first.2.1
  · exact first.2.2 m after second.2.1

/-! ### The fine tuning -/

theorem bDone_fineTurn {n : Nat} {cs : Channels} {ch : Fin 3} :
    (fineTurn targets (measured seq) n cs ch).bDone = true ↔
      (cs ch).bDone = true ∨ seq n ch = targets ch := by
  rw [fineTurn, bDone_check, bDone_raise, measured]

theorem shows_of_fineTune {fuel n : Nat} {cs last : Channels}
    (run : fineTune targets (measured seq) fuel n cs = some last) (ch : Fin 3) :
    (cs ch).bDone = true ∨ ∃ k ≥ n, seq k ch = targets ch := by
  induction fuel generalizing n cs with
  | zero =>
      rw [fineTune] at run
      split at run
      · rename_i done
        exact .inl (allDone_iff.mp done ch)
      · cases run
  | succ fuel inductionHypothesis =>
      rw [fineTune] at run
      split at run
      · rename_i done
        exact .inl (allDone_iff.mp done ch)
      · obtain done | ⟨k, later, shown⟩ := inductionHypothesis run
        · obtain done | shown := bDone_fineTurn.mp done
          · exact .inl done
          · exact .inr ⟨n, Nat.le_refl n, shown⟩
        · exact .inr ⟨k, Nat.le_of_succ_le later, shown⟩

theorem fineTune_of_shows {fuel n : Nat} {cs : Channels}
    (shows' : ∀ ch, (cs ch).bDone = true ∨ ∃ k ≥ n, k < n + fuel ∧ seq k ch = targets ch) :
    ∃ last, fineTune targets (measured seq) fuel n cs = some last := by
  induction fuel generalizing n cs with
  | zero =>
      have done : allDone cs = true := by
        rw [allDone_iff]
        intro ch
        obtain done | ⟨k, later, before, -⟩ := shows' ch
        · exact done
        · omega
      exact ⟨cs, if_pos done⟩
  | succ fuel inductionHypothesis =>
      rw [fineTune]
      split
      · exact ⟨cs, rfl⟩
      · apply inductionHypothesis
        intro ch
        rw [bDone_fineTurn]
        obtain done | ⟨k, later, before, shown⟩ := shows' ch
        · exact .inl (.inl done)
        · obtain rfl | after := Nat.eq_or_lt_of_le later
          · exact .inl (.inr shown)
          · exact .inr ⟨k, after, by omega, shown⟩

theorem fineTune_ends_iff {n : Nat} {cs : Channels} :
    (∃ fuel last, fineTune targets (measured seq) fuel n cs = some last) ↔
      ∀ ch, (cs ch).bDone = true ∨ ∃ k ≥ n, seq k ch = targets ch := by
  constructor
  · rintro ⟨fuel, last, run⟩
    exact shows_of_fineTune run
  · intro shows'
    have bounded : ∀ ch, ∃ bound, (cs ch).bDone = true ∨
        ∃ k ≥ n, k < bound ∧ seq k ch = targets ch := by
      intro ch
      obtain done | ⟨k, later, shown⟩ := shows' ch
      · exact ⟨0, .inl done⟩
      · exact ⟨k + 1, .inr ⟨k, later, Nat.lt_succ_self k, shown⟩⟩
    choose bound bounded using bounded
    refine ⟨bound 0 + bound 1 + bound 2, fineTune_of_shows fun ch => ?_⟩
    have fuel : bound ch ≤ bound 0 + bound 1 + bound 2 := by
      obtain rfl | rfl | rfl : ch = 0 ∨ ch = 1 ∨ ch = 2 := by
        revert ch
        decide
      · omega
      · omega
      · omega
    obtain done | ⟨k, later, before, shown⟩ := bounded ch
    · exact .inl done
    · exact .inr ⟨k, later, by omega, shown⟩

/-! ### The calibration -/

/-- Without the fine tuning the calibration returns. -/
theorem returns_of_search
    (coarse : external type = false ∨ ∀ n, ¬ SettlesAt type targets seq n) :
    ∃ cs, Returns type targets (measured seq) cs := by
  have result : ∃ cs, calGain 0 type targets (measured seq) = some cs := by
    obtain ⟨n, settles, run⟩ | ⟨-, n, last, run⟩ := @search_measured type targets seq
    · obtain outside | never := coarse
      · rw [calGain, run, outside]
        exact ⟨_, rfl⟩
      · exact absurd settles (never n)
    · rw [calGain, run]
      exact ⟨_, rfl⟩
  obtain ⟨cs, returned⟩ := result
  exact ⟨cs, 0, returned⟩

/-- With it, the calibration returns when the fine tuning ends. -/
theorem returns_iff_of_fine {n : Nat} (outside : external type = true)
    (settles : SettlesAt type targets seq n) :
    (∃ cs, Returns type targets (measured seq) cs) ↔
      ∀ ch, targets ch > extRgbBinarySearchTarget → ∃ k > n, seq k ch = targets ch := by
  obtain ⟨m, other, run⟩ | ⟨never, -⟩ := @search_measured type targets seq
  · obtain rfl := settlesAt_unique settles other
    have ends := @fineTune_ends_iff targets seq (n + 1)
      (reopen targets (allAfter type targets (measured seq) (n + 1)))
    have result : (∃ cs, Returns type targets (measured seq) cs) ↔
        ∃ fuel last, fineTune targets (measured seq) fuel (n + 1)
          (reopen targets (allAfter type targets (measured seq) (n + 1))) = some last := by
      simp only [Returns, calGain, run, outside, if_true, Option.map_eq_some_iff]
      constructor
      · rintro ⟨cs, fuel, last, ended, -⟩
        exact ⟨fuel, last, ended⟩
      · rintro ⟨fuel, last, ended⟩
        exact ⟨_, fuel, last, ended, rfl⟩
    rw [result, ends]
    refine forall_congr' fun ch => ?_
    by_cases high : targets ch > extRgbBinarySearchTarget
    · simp [reopen, high, Nat.succ_le_iff]
    · simp [reopen, high]
  · exact absurd settles (never n)

end Runs

/-- Exactly when the calibration returns. -/
theorem returns_iff (type : U8) (targets : Fin 3 → U16) (seq : Nat → Fin 3 → U16) :
    (∃ cs, Returns type targets (measured seq) cs) ↔ ShowsTargets type targets seq := by
  cases outside : external type with
  | false =>
      refine iff_of_true (returns_of_search (.inl outside)) fun inside => ?_
      rw [outside] at inside
      cases inside
  | true =>
      by_cases settled : ∃ n, SettlesAt type targets seq n
      · obtain ⟨n, settles⟩ := settled
        rw [returns_iff_of_fine outside settles]
        constructor
        · intro shows' _ m other
          rwa [settlesAt_unique other settles]
        · exact fun shows' => shows' outside n settles
      · have never := not_exists.mp settled
        exact iff_of_true (returns_of_search (.inr never)) fun _ m settles =>
          absurd settles (never m)

/-- Levels that stay at 1018 keep the fine tuning going. -/
theorem never_returns :
    ¬ ∀ (type : U8) (targets : Fin 3 → U16) (seq : Nat → Fin 3 → U16),
      ∃ cs, Returns type targets (measured seq) cs := by
  intro law
  have settles : SettlesAt 0 (fun _ => 1023) (fun _ _ => 1018) 0 := by
    have hit : inBounds 0 1023 1018 = true := by decide
    refine ⟨by decide, fun ch => ⟨0, Nat.le_refl 0, hit⟩, ?_⟩
    intro k earlier
    exact absurd earlier (Nat.not_lt_zero k)
  have shown := (returns_iff_of_fine (by decide) settles).mp
    (law 0 (fun _ => 1023) fun _ _ => 1018)
  obtain ⟨k, -, same⟩ := shown 0 (by decide)
  exact absurd same (by decide)

end Gp2Firmware.Scaler.GainCalibration
