import Gp2Firmware.Scaler.GainTermination

/-!
# The search for a level that depends on the gain

The search keeps the target between two gains whose distance it halves, for a level that
does not fall when the gain rises.  A target at either end has bounds that wrap.
-/

namespace Gp2Firmware.Scaler.GainCalibration

/-- A channel whose level depends on its gain only. -/
def steady (f : Fin 3 → U16 → U16) : Levels := fun _ ch => f ch

/-- A level that does not fall, reaches a target, and rises by steps of 3 at most. -/
structure Response (f : U16 → U16) (target : U16) : Prop where
  mono : ∀ g h : U16, g ≤ h → f g ≤ f h
  low : (f 4).toNat ≤ target.toNat + 1
  high : target.toNat ≤ (f 0x1FFC).toNat + 1
  slope : ∀ g h : U16, h.toNat = g.toNat + 4 → (f h).toNat ≤ (f g).toNat + 3

/-- A level for the fine tuning to a target above 1018. -/
structure FineResponse (f : U16 → U16) (target : U16) : Prop where
  coarse : Response f extRgbBinarySearchTarget
  step : ∀ g h : U16, h.toNat = g.toNat + 2 → (f h).toNat ≤ (f g).toNat + 1
  above : 1020 ≤ target.toNat
  attained : ∃ g : U16, g.toNat < 0x2000 ∧ f g = target

/-- The difference of two levels is 1 at most. -/
def Near (level target : U16) : Prop :=
  level.toNat ≤ target.toNat + 1 ∧ target.toNat ≤ level.toNat + 1

/-! ### A turn -/

section Turn

variable {type : U8} {target level gain : U16} {c : Channel} {y : Nat}

theorem mask_eq (small : gain.toNat < 0x4000) : gain &&& 0x3FFF = gain := by
  apply BitVec.eq_of_toNat_eq
  have low := Nat.and_two_pow_sub_one_eq_mod gain.toNat 14
  rw [BitVec.toNat_and]
  exact low.trans (Nat.mod_eq_of_lt (by omega))

/-- The closest levels are kept beside the variables of the search. -/
theorem keepClosest_kept :
    (c.keepClosest target gain level).gain = c.gain ∧
      (c.keepClosest target gain level).tempGain = c.tempGain ∧
      (c.keepClosest target gain level).delta = c.delta := by
  rw [Channel.keepClosest, Channel.keepLower, Channel.keepUpper]
  split <;> split <;> exact ⟨rfl, rfl, rfl⟩

/-- A channel that is still searching before measurement `y`, within the steps that are left. -/
structure Grid (y : Nat) (c : Channel) : Prop where
  searching : c.bDone = false
  step : c.delta.toNat = 2 ^ (11 - y)
  low : 2 * c.delta.toNat ≤ c.gain.toNat
  high : c.gain.toNat + 2 * c.delta.toNat ≤ 0x2000
  written : c.adcGain = if y ≤ 10 then c.gain else c.tempGain
  temp : c.tempGain.toNat ≤ 0x2000

theorem grid_start : Grid 0 .start := by
  constructor <;> decide

/-- The channel behind the move of the gain. -/
def moved (type : U8) (target level : U16) (c : Channel) : Channel :=
  (c.keepClosest target c.gain level).move (level < searchTarget type target - 1)

theorem turn_missed (searching : c.bDone = false) (early : y ≤ 10)
    (miss : inBounds type target level = false) :
    c.turn type target y level =
      if y = 10 then (moved type target level c).setTempGain
      else (moved type target level c).setGain (moved type target level c).gain := by
  have notLast : y ≠ 11 := by omega
  simp only [Channel.turn, searching, notLast, miss, moved, Bool.false_eq_true, if_false]

theorem moved_eq :
    (moved type target level c).gain =
        (if level < searchTarget type target - 1 then c.gain + c.delta else c.gain - c.delta) ∧
      (moved type target level c).delta = c.delta >>> 1 ∧
      (moved type target level c).u8Direction =
        (if level < searchTarget type target - 1 then .downTop else .topDown) ∧
      (moved type target level c).tempGain = c.tempGain ∧
      (moved type target level c).bDone = c.bDone := by
  obtain ⟨gain, temp, delta⟩ := @keepClosest_kept target level c.gain c
  have done := @bDone_keepClosest target level c c.gain
  by_cases up : level < searchTarget type target - 1
  · rw [moved, decide_eq_true up, Channel.move, if_pos rfl]
    simp only [if_pos up, gain, temp, delta, done, and_self]
  · rw [moved, decide_eq_false up, Channel.move, if_neg (by decide)]
    simp only [if_neg up, gain, temp, delta, done, and_self]

theorem setTempGain_kept :
    c.setTempGain.gain = c.gain ∧ c.setTempGain.delta = c.delta ∧
      c.setTempGain.bDone = c.bDone ∧
      c.setTempGain.adcGain = c.setTempGain.tempGain &&& 0x3FFF := by
  rw [Channel.setTempGain]
  cases c.u8Direction with
  | none => exact ⟨rfl, rfl, rfl, rfl⟩
  | downTop => exact ⟨rfl, rfl, rfl, rfl⟩
  | topDown => exact ⟨rfl, rfl, rfl, rfl⟩

/-- The closest levels behind a turn that misses the bounds. -/
theorem closest_turn (searching : c.bDone = false) (early : y ≤ 10)
    (miss : inBounds type target level = false) :
    let closest := c.keepClosest target c.gain level
    (c.turn type target y level).u16UpperDiff = closest.u16UpperDiff ∧
      (c.turn type target y level).u16LowerDiff = closest.u16LowerDiff ∧
      (c.turn type target y level).u16UpperGain = closest.u16UpperGain ∧
      (c.turn type target y level).u16LowerGain = closest.u16LowerGain := by
  have written : ∀ c : Channel, c.setTempGain.u16UpperDiff = c.u16UpperDiff ∧
      c.setTempGain.u16LowerDiff = c.u16LowerDiff ∧
      c.setTempGain.u16UpperGain = c.u16UpperGain ∧
      c.setTempGain.u16LowerGain = c.u16LowerGain := by
    intro c
    rw [Channel.setTempGain]
    cases c.u8Direction with
    | none => exact ⟨rfl, rfl, rfl, rfl⟩
    | downTop => exact ⟨rfl, rfl, rfl, rfl⟩
    | topDown => exact ⟨rfl, rfl, rfl, rfl⟩
  have kept : ∀ (up : Bool) (c : Channel), (c.move up).u16UpperDiff = c.u16UpperDiff ∧
      (c.move up).u16LowerDiff = c.u16LowerDiff ∧
      (c.move up).u16UpperGain = c.u16UpperGain ∧
      (c.move up).u16LowerGain = c.u16LowerGain := by
    intro up c
    cases up with
    | false => exact ⟨rfl, rfl, rfl, rfl⟩
    | true => exact ⟨rfl, rfl, rfl, rfl⟩
  rw [turn_missed searching early miss, moved]
  split
  · obtain ⟨upperDiff, lowerDiff, upperGain, lowerGain⟩ := written
      ((c.keepClosest target c.gain level).move (level < searchTarget type target - 1))
    rw [upperDiff, lowerDiff, upperGain, lowerGain]
    exact kept _ _
  · exact kept _ _

/-- A turn that misses the bounds moves the gain by its step. -/
theorem grid_turn (grid : Grid y c) (early : y ≤ 10)
    (miss : inBounds type target level = false) :
    Grid (y + 1) (c.turn type target y level) ∧
      (c.turn type target y level).gain =
        (if level < searchTarget type target - 1 then c.gain + c.delta else c.gain - c.delta) ∧
      (c.turn type target y level).tempGain = if y = 10 then c.gain else c.tempGain := by
  obtain ⟨searching, step, low, high, written, temp⟩ := grid
  obtain ⟨gain, delta, direction, temp', done⟩ := @moved_eq type target level c
  have halves : 2 ^ (11 - y) = 2 * 2 ^ (11 - (y + 1)) := by
    rw [show 11 - y = 11 - (y + 1) + 1 by omega, Nat.pow_succ, Nat.mul_comm]
  have half : (c.delta >>> 1).toNat = 2 ^ (11 - (y + 1)) := by
    rw [BitVec.toNat_ushiftRight, Nat.shiftRight_eq_div_pow, step, halves]
    omega
  have positive : 0 < 2 ^ (11 - (y + 1)) := Nat.two_pow_pos _
  have inside : 2 * (c.delta >>> 1).toNat ≤ (moved type target level c).gain.toNat ∧
      (moved type target level c).gain.toNat + 2 * (c.delta >>> 1).toNat ≤ 0x2000 := by
    rw [gain]
    split
    · bv_omega
    · bv_omega
  rw [turn_missed searching early miss]
  generalize moved type target level c = next at *
  by_cases late : y = 10
  · subst late
    have twice : c.delta = 2 := BitVec.eq_of_toNat_eq step
    obtain ⟨kept, keptDelta, keptDone, written'⟩ := @setTempGain_kept next
    have back : next.setTempGain.tempGain = c.gain := by
      by_cases up : level < searchTarget type target - 1
      · rw [if_pos up] at direction gain
        rw [Channel.setTempGain, direction]
        change next.gain - 2 = _
        rw [gain, twice]
        bv_omega
      · rw [if_neg up] at direction gain
        rw [Channel.setTempGain, direction]
        change next.gain + 2 = _
        rw [gain, twice]
        bv_omega
    rw [if_pos rfl]
    refine ⟨⟨?_, ?_, ?_, ?_, ?_, ?_⟩, kept.trans gain, back⟩
    · rw [keptDone, done, searching]
    · rw [keptDelta, delta, half]
    · rw [keptDelta, delta, kept]
      exact inside.1
    · rw [keptDelta, delta, kept]
      exact inside.2
    · rw [if_neg (by decide), written', back]
      exact mask_eq (by omega)
    · rw [back]
      omega
  · rw [if_neg late]
    refine ⟨⟨done.trans searching, ?_, ?_, ?_, ?_, ?_⟩, gain, ?_⟩
    · exact (congrArg BitVec.toNat delta).trans half
    · change 2 * next.delta.toNat ≤ _
      rw [delta]
      exact inside.1
    · change _ + 2 * next.delta.toNat ≤ _
      rw [delta]
      exact inside.2
    · rw [if_pos (by omega)]
      exact mask_eq (by omega)
    · change next.tempGain.toNat ≤ _
      rw [temp']
      exact temp
    · rw [if_neg late]
      exact temp'

end Turn

/-! ### The search of a channel -/

section Channel

variable {type : U8} {target : U16} {f : U16 → U16} {c : Channel} {y : Nat}

/-- A channel whose level was within the bounds. -/
structure Closed (f : U16 → U16) (aim : U16) (c : Channel) : Prop where
  done : c.bDone = true
  near : Near (f c.gain) aim
  upper : c.u16UpperGain = c.gain
  lower : c.u16LowerGain = c.gain
  small : c.gain.toNat ≤ 0x2000

/-- The level crosses the target between the gains that the next steps can reach. -/
structure Between (f : U16 → U16) (aim : U16) (c : Channel) : Prop where
  below : ∀ h : U16, 0 < h.toNat → h.toNat + 2 * c.delta.toNat ≤ c.gain.toNat →
    (f h).toNat + 1 < aim.toNat
  above : ∀ h : U16, h.toNat < 0x2000 → c.gain.toNat + 2 * c.delta.toNat ≤ h.toNat →
    aim.toNat + 1 < (f h).toNat

theorem near_of_inBounds {level : U16} (inside : inBounds type target level = true) :
    Near level (searchTarget type target) := by
  rw [inBounds, decide_eq_true_eq] at inside
  generalize searchTarget type target = aim at inside
  unfold Near
  bv_omega

theorem turn_closed {level : U16} (closed : Closed f (searchTarget type target) c) :
    c.turn type target y level = c := by
  rw [Channel.turn, if_pos closed.done]

theorem closed_of_hit (grid : Grid y c) (early : y ≤ 10)
    (hit : inBounds type target (f c.adcGain) = true) :
    Closed f (searchTarget type target) (c.turn type target y (f c.adcGain)) := by
  have notLast : y ≠ 11 := by omega
  have gain := grid.written
  rw [if_pos early] at gain
  have near := near_of_inBounds hit
  have small : c.gain.toNat ≤ 0x2000 := Nat.le_trans (Nat.le_add_right _ _) grid.high
  rw [gain] at near
  simp only [Channel.turn, grid.searching, notLast, hit, Bool.false_eq_true, if_false, if_true]
  split
  · exact ⟨rfl, near, rfl, rfl, small⟩
  · exact ⟨rfl, near, rfl, rfl, small⟩

theorem searchTarget_pos_miss {level aim : U16} (positive : aim ≠ 0) (top : aim ≠ 0xFFFF)
    (miss : ¬ (aim - 1 ≤ level ∧ level ≤ aim + 1)) :
    if level < aim - 1 then level.toNat + 1 < aim.toNat else aim.toNat + 1 < level.toNat := by
  split
  · bv_omega
  · bv_omega

variable (response : Response f (searchTarget type target))
  (positive : searchTarget type target ≠ 0) (top : searchTarget type target ≠ 0xFFFF)

include response positive top

theorem between_turn (grid : Grid y c) (between : Between f (searchTarget type target) c)
    (early : y ≤ 10) (miss : inBounds type target (f c.adcGain) = false) :
    Between f (searchTarget type target) (c.turn type target y (f c.adcGain)) := by
  obtain ⟨next, gain, -⟩ := grid_turn grid early miss
  have written := grid.written
  rw [if_pos early] at written
  have halves : c.delta.toNat = 2 * (c.turn type target y (f c.adcGain)).delta.toNat := by
    rw [next.step, grid.step, show 11 - y = 11 - (y + 1) + 1 by omega, Nat.pow_succ,
      Nat.mul_comm]
  have low := grid.low
  have high := grid.high
  rw [inBounds, decide_eq_false_iff_not] at miss
  have side := searchTarget_pos_miss positive top miss
  rw [written] at side
  by_cases up : f c.adcGain < searchTarget type target - 1
  · rw [if_pos up] at gain
    rw [written] at up
    rw [if_pos up] at side
    have rises : (c.gain + c.delta).toNat = c.gain.toNat + c.delta.toNat := by bv_omega
    rw [← gain] at rises
    constructor
    · intro h positive' reach
      have less := response.mono h c.gain (BitVec.le_def.mpr (by omega))
      bv_omega
    · intro h inside reach
      exact between.above h inside (by omega)
  · rw [if_neg up] at gain
    rw [written] at up
    rw [if_neg up] at side
    have falls : (c.gain - c.delta).toNat = c.gain.toNat - c.delta.toNat := by bv_omega
    rw [← gain] at falls
    constructor
    · intro h positive' reach
      exact between.below h positive' (by omega)
    · intro h inside reach
      have less := response.mono c.gain h (BitVec.le_def.mpr (by omega))
      bv_omega

/-- With the last step the level cannot be beside the bounds. -/
theorem hit_last (grid : Grid 10 c) (between : Between f (searchTarget type target) c) :
    inBounds type target (f c.adcGain) = true := by
  have written := grid.written
  rw [if_pos (Nat.le_refl 10)] at written
  have step : c.delta.toNat = 2 := grid.step
  have low := grid.low
  have high := grid.high
  by_contra miss
  rw [inBounds, decide_eq_true_eq] at miss
  have side := searchTarget_pos_miss positive top miss
  rw [written] at side
  split at side
  · by_cases last : c.gain = 0x1FFC
    · have reached := response.high
      rw [last] at side
      omega
    · have next : (c.gain + 4).toNat = c.gain.toNat + 4 := by bv_omega
      have steep := response.slope c.gain (c.gain + 4) next
      have far := between.above (c.gain + 4) (by bv_omega) (by omega)
      omega
  · by_cases first : c.gain = 4
    · have reached := response.low
      rw [first] at side
      omega
    · have next : c.gain.toNat = (c.gain - 4).toNat + 4 := by bv_omega
      have steep := response.slope (c.gain - 4) c.gain next
      have far := between.below (c.gain - 4) (by bv_omega) (by omega)
      omega

omit response positive top in
theorem between_start : Between f (searchTarget type target) .start := by
  constructor
  · intro h positive reach
    have step : Channel.start.delta.toNat = 0x800 := by decide
    have gain : Channel.start.gain.toNat = 0x1000 := by decide
    omega
  · intro h inside reach
    have step : Channel.start.delta.toNat = 0x800 := by decide
    have gain : Channel.start.gain.toNat = 0x1000 := by decide
    omega

theorem searching_turn
    (kept : Closed f (searchTarget type target) c ∨
      Grid y c ∧ Between f (searchTarget type target) c) (early : y ≤ 10) :
    let next := c.turn type target y (f c.adcGain)
    Closed f (searchTarget type target) next ∨
      y < 10 ∧ Grid (y + 1) next ∧ Between f (searchTarget type target) next := by
  obtain closed | ⟨grid, between⟩ := kept
  · exact .inl (by rwa [turn_closed closed])
  · cases hit : inBounds type target (f c.adcGain) with
    | true => exact .inl (closed_of_hit grid early hit)
    | false =>
        obtain late | rfl := Nat.lt_or_eq_of_le early
        · exact .inr ⟨late, (grid_turn grid early hit).1,
            between_turn response positive top grid between early hit⟩
        · rw [hit_last response positive top grid between] at hit
          cases hit

end Channel

section Runs

variable {type : U8} {targets : Fin 3 → U16} {f : Fin 3 → U16 → U16} {ch : Fin 3}

theorem searching_after (response : Response (f ch) (searchTarget type (targets ch)))
    (positive : searchTarget type (targets ch) ≠ 0)
    (top : searchTarget type (targets ch) ≠ 0xFFFF) (y : Nat) :
    Closed (f ch) (searchTarget type (targets ch)) (after type targets (steady f) ch y) ∨
      y ≤ 10 ∧ Grid y (after type targets (steady f) ch y) ∧
        Between (f ch) (searchTarget type (targets ch)) (after type targets (steady f) ch y) := by
  induction y with
  | zero => exact .inr ⟨by decide, grid_start, between_start⟩
  | succ y inductionHypothesis =>
      obtain closed | ⟨early, searching⟩ := inductionHypothesis
      · refine .inl ?_
        rw [after, turn_closed closed]
        exact closed
      · obtain closed | ⟨late, next⟩ :=
          searching_turn response positive top (.inr searching) early
        · exact .inl closed
        · exact .inr ⟨late, next⟩

end Runs

/-! ### Targets at either end -/

section Ends

variable {type : U8} {target : U16} {f : U16 → U16} {c : Channel} {y : Nat}

/-- What the variables for the closest levels say. -/
structure Recorded (f : U16 → U16) (target : U16) (c : Channel) : Prop where
  upper : c.u16UpperDiff ≠ 0xFFFF →
    (f c.u16UpperGain).toNat = target.toNat + c.u16UpperDiff.toNat
  lower : c.u16LowerDiff ≠ 0xFFFF →
    (f c.u16LowerGain).toNat + c.u16LowerDiff.toNat = target.toNat
  upperSmall : c.u16UpperGain.toNat ≤ 0x2000
  lowerSmall : c.u16LowerGain.toNat ≤ 0x2000

theorem recorded_start : Recorded f target .start :=
  ⟨fun none => absurd rfl none, fun none => absurd rfl none, by decide, by decide⟩

theorem recorded_keepClosest (recorded : Recorded f target c) {gain : U16}
    (small : gain.toNat ≤ 0x2000) : Recorded f target (c.keepClosest target gain (f gain)) := by
  have upper : Recorded f target (c.keepUpper target gain (f gain)) := by
    rw [Channel.keepUpper]
    split
    · refine ⟨fun _ => ?_, recorded.lower, small, recorded.lowerSmall⟩
      change (f gain).toNat = target.toNat + (f gain - target).toNat
      bv_omega
    · exact recorded
  rw [Channel.keepClosest, Channel.keepLower]
  split
  · refine ⟨upper.upper, fun _ => ?_, upper.upperSmall, small⟩
    change (f gain).toNat + (target - f gain).toNat = target.toNat
    bv_omega
  · exact upper

/-- The closest levels that are kept only come closer. -/
theorem keepClosest_le {gain level : U16} :
    (c.keepClosest target gain level).u16LowerDiff ≤ c.u16LowerDiff ∧
      (level.toNat ≤ target.toNat →
        (c.keepClosest target gain level).u16LowerDiff.toNat + level.toNat ≤ target.toNat) := by
  have kept : (c.keepUpper target gain level).u16LowerDiff = c.u16LowerDiff := by
    rw [Channel.keepUpper]
    split
    · rfl
    · rfl
  rw [Channel.keepClosest, Channel.keepLower, kept]
  split
  · rename_i closer
    refine ⟨BitVec.le_of_lt closer.2, fun _ => ?_⟩
    change (target - level).toNat + level.toNat ≤ target.toNat
    bv_omega
  · rw [kept]
    exact ⟨BitVec.le_refl _, fun _ => by bv_omega⟩

/-- The gain that the search falls back to has a level near the target. -/
theorem near_fallBack (recorded : Recorded f target c) (close : c.u16LowerDiff.toNat ≤ 1) :
    Near (f c.fallBack.gain) target ∧ c.fallBack.gain.toNat ≤ 0x2000 := by
  unfold Near
  rw [Channel.fallBack]
  dsimp only
  split
  · have same := recorded.upper (by bv_omega)
    refine ⟨?_, recorded.upperSmall⟩
    bv_omega
  · have same := recorded.lower (by bv_omega)
    refine ⟨?_, recorded.lowerSmall⟩
    bv_omega

theorem recorded_turn (recorded : Recorded f target c) (grid : Grid y c) (early : y ≤ 10)
    (miss : inBounds type target (f c.adcGain) = false) :
    Recorded f target (c.turn type target y (f c.adcGain)) := by
  obtain ⟨upperDiff, lowerDiff, upperGain, lowerGain⟩ :=
    closest_turn grid.searching early miss
  have written := grid.written
  rw [if_pos early] at written
  have small : c.gain.toNat ≤ 0x2000 := Nat.le_trans (Nat.le_add_right _ _) grid.high
  have closest := recorded_keepClosest recorded small
  rw [written] at upperDiff lowerDiff upperGain lowerGain ⊢
  constructor
  · rw [upperDiff, upperGain]
    exact closest.upper
  · rw [lowerDiff, lowerGain]
    exact closest.lower
  · rw [upperGain]
    exact closest.upperSmall
  · rw [lowerGain]
    exact closest.lowerSmall

theorem turn_last (grid : Grid 11 c) :
    c.turn type target 11 (f c.adcGain) = c.keepClosest target c.tempGain (f c.tempGain) := by
  have written := grid.written
  rw [if_neg (by decide)] at written
  simp only [Channel.turn, grid.searching, written, Bool.false_eq_true, if_false, if_true]

/-- A channel whose target is the highest level: it climbs until it comes near. -/
structure Climbing (f : U16 → U16) (y : Nat) (c : Channel) : Prop where
  grid : Grid y c
  recorded : Recorded f 0xFFFF c
  found : c.u16LowerDiff.toNat ≤ 1 ∨
    y ≤ 10 ∧ c.gain.toNat + 2 * c.delta.toNat = 0x2000

theorem searchTarget_calm (calm : external type = false) : searchTarget type target = target := by
  rw [searchTarget, calm]
  exact if_neg fun both => absurd both.1 (by decide)

/-- The bounds of a target at either end wrap, and no level is between them. -/
theorem miss_of_end (calm : external type = false) (atEnd : target = 0 ∨ target = 0xFFFF)
    {level : U16} : inBounds type target level = false := by
  rw [inBounds, searchTarget_calm calm, decide_eq_false_iff_not]
  rcases atEnd with rfl | rfl
  · bv_omega
  · bv_omega

theorem climbing_turn (calm : external type = false) (response : Response f 0xFFFF)
    (climbing : Climbing f y c) (early : y ≤ 10) :
    Climbing f (y + 1) (c.turn type 0xFFFF y (f c.adcGain)) := by
  obtain ⟨grid, recorded, found⟩ := climbing
  have miss : inBounds type 0xFFFF (f c.adcGain) = false := miss_of_end calm (.inr rfl)
  obtain ⟨next, gain, -⟩ := grid_turn grid early miss
  obtain ⟨-, lowerDiff, -, -⟩ := closest_turn grid.searching early miss
  obtain ⟨kept, closer⟩ := @keepClosest_le 0xFFFF c c.gain (f c.adcGain)
  have written := grid.written
  rw [if_pos early] at written
  have whole : (0xFFFF : U16).toNat = 0xFFFF := rfl
  refine ⟨next, recorded_turn recorded grid early miss, ?_⟩
  rw [lowerDiff]
  obtain near | ⟨-, top⟩ := found
  · exact .inl (Nat.le_trans kept near)
  · have bound := (f c.adcGain).isLt
    by_cases reached : 0xFFFE ≤ (f c.adcGain).toNat
    · have rest := closer (by omega)
      exact .inl (by omega)
    · -- the level is too low, and the gain goes up
      have up : f c.adcGain < searchTarget type 0xFFFF - 1 := by
        rw [searchTarget_calm calm]
        bv_omega
      rw [if_pos up] at gain
      have low := grid.low
      have high := grid.high
      have halves : c.delta.toNat = 2 * (c.turn type 0xFFFF y (f c.adcGain)).delta.toNat := by
        rw [next.step, grid.step, show 11 - y = 11 - (y + 1) + 1 by omega, Nat.pow_succ,
          Nat.mul_comm]
      have rises : (c.gain + c.delta).toNat = c.gain.toNat + c.delta.toNat := by bv_omega
      rw [← gain] at rises
      refine .inr ⟨?_, by omega⟩
      by_contra late
      have last : y = 10 := by omega
      subst last
      have step : c.delta.toNat = 2 := grid.step
      have peak : c.gain = 0x1FFC := by bv_omega
      have reaches := response.high
      rw [written, peak] at reached
      omega

/-- A channel whose target is 0: the search leaves its first gain behind. -/
structure Rising (f : U16 → U16) (y : Nat) (c : Channel) : Prop where
  grid : Grid y c
  risen : 0x1800 ≤ c.gain.toNat ∧ 0x1000 ≤ c.tempGain.toNat
  upperGain : c.u16UpperGain = 0x1000
  upperDiff : c.u16UpperDiff = f 0x1000
  lowerDiff : c.u16LowerDiff = 0xFFFF ∨ f 0x1000 = 0

theorem level_lt (response : Response f 0) {gain : U16} (small : gain.toNat ≤ 0x2000) :
    (f gain).toNat < 0xFFFF := by
  have climb : ∀ k, k ≤ 2047 → (f (BitVec.ofNat 16 (4 + 4 * k))).toNat ≤ (f 4).toNat + 3 * k := by
    intro k
    induction k with
    | zero => exact fun _ => Nat.le_refl _
    | succ k inductionHypothesis =>
        intro bound
        have before := inductionHypothesis (by omega)
        have steep := response.slope (BitVec.ofNat 16 (4 + 4 * k))
          (BitVec.ofNat 16 (4 + 4 * (k + 1))) (by
            rw [BitVec.toNat_ofNat, BitVec.toNat_ofNat]
            omega)
        omega
  have top := climb 2047 (Nat.le_refl _)
  have low := response.low
  have below := response.mono gain (BitVec.ofNat 16 (4 + 4 * 2047)) (by bv_omega)
  bv_omega

theorem keepClosest_above {gain level : U16} (above : c.u16UpperDiff ≤ level) :
    (c.keepClosest 0 gain level).u16UpperDiff = c.u16UpperDiff ∧
      (c.keepClosest 0 gain level).u16UpperGain = c.u16UpperGain ∧
      ((c.keepClosest 0 gain level).u16LowerDiff = c.u16LowerDiff ∨ level = 0) := by
  have kept : c.keepUpper 0 gain level = c := by
    rw [Channel.keepUpper, if_neg]
    bv_omega
  rw [Channel.keepClosest, kept, Channel.keepLower]
  split
  · exact ⟨rfl, rfl, .inr (by bv_omega)⟩
  · exact ⟨rfl, rfl, .inl rfl⟩

theorem rising_turn (calm : external type = false) (response : Response f 0)
    (rising : Rising f y c) (early : y ≤ 10) :
    Rising f (y + 1) (c.turn type 0 y (f c.adcGain)) := by
  obtain ⟨grid, risen, upperGain, upperDiff, lowerDiff⟩ := rising
  have miss : inBounds type 0 (f c.adcGain) = false := miss_of_end calm (.inl rfl)
  obtain ⟨next, gain, temp⟩ := grid_turn grid early miss
  have closest := closest_turn grid.searching early miss
  have written := grid.written
  rw [if_pos early] at written
  have low := grid.low
  have high := grid.high
  have higher : f 0x1000 ≤ f c.adcGain := by
    rw [written]
    exact response.mono _ _ (by bv_omega)
  have bound : (f c.adcGain).toNat < 0xFFFF := by
    rw [written]
    exact level_lt response (by omega)
  have up : f c.adcGain < searchTarget type 0 - 1 := by
    rw [searchTarget_calm calm]
    bv_omega
  rw [if_pos up] at gain
  obtain ⟨keptDiff, keptGain, keptLower⟩ :=
    @keepClosest_above c c.gain (f c.adcGain) (by rw [upperDiff]; exact higher)
  refine ⟨next, ⟨?_, ?_⟩, ?_, ?_, ?_⟩
  · rw [gain]
    bv_omega
  · rw [temp]
    split
    · omega
    · exact risen.2
  · rw [closest.2.2.1, keptGain, upperGain]
  · rw [closest.1, keptDiff, upperDiff]
  · rw [closest.2.1]
    obtain same | zero := keptLower
    · rw [same]
      exact lowerDiff
    · rw [zero] at higher
      exact .inr (by bv_omega)

theorem rising_first (calm : external type = false) (response : Response f 0) :
    Rising f 1 (Channel.start.turn type 0 0 (f 0x1000)) := by
  have miss : inBounds type 0 (f 0x1000) = false := miss_of_end calm (.inl rfl)
  have early : 0 ≤ 10 := by decide
  obtain ⟨next, gain, temp⟩ := grid_turn grid_start early miss
  obtain ⟨upperDiff, lowerDiff, upperGain, -⟩ := closest_turn grid_start.searching early miss
  have bound : (f 0x1000).toNat < 0xFFFF := level_lt response (by decide)
  have up : f 0x1000 < searchTarget type 0 - 1 := by
    rw [searchTarget_calm calm]
    bv_omega
  have first : Channel.start.keepUpper 0 0x1000 (f 0x1000) =
      { Channel.start with u16UpperDiff := f 0x1000 - 0, u16UpperGain := 0x1000 } := by
    rw [Channel.keepUpper, if_pos]
    refine ⟨by bv_omega, ?_⟩
    change (0xFFFF : U16) > _
    bv_omega
  have whole : f 0x1000 - 0 = f 0x1000 := by bv_omega
  have gainStart : Channel.start.gain = 0x1000 := rfl
  rw [if_pos up] at gain
  rw [gainStart, Channel.keepClosest, first, Channel.keepLower] at upperDiff lowerDiff upperGain
  refine ⟨next, ⟨?_, ?_⟩, ?_, ?_, ?_⟩
  · rw [gain]
    decide
  · rw [temp]
    decide
  · rw [upperGain]
    split
    · rfl
    · rfl
  · rw [upperDiff]
    split
    · exact whole
    · exact whole
  · rw [lowerDiff]
    split
    · rename_i zero
      exact .inr (by bv_omega)
    · exact .inl rfl

/-- The search of a channel with target 0 ends with its first gain. -/
theorem fallBack_rising (rising : Rising f 11 c) (response : Response f 0) :
    (c.turn type 0 11 (f c.adcGain)).fallBack.gain = 0x1000 ∧
      (c.turn type 0 11 (f c.adcGain)).bDone = false := by
  have higher : f 0x1000 ≤ f c.tempGain :=
    response.mono _ _ (BitVec.le_def.mpr rising.risen.2)
  obtain ⟨keptDiff, keptGain, keptLower⟩ :=
    @keepClosest_above c c.tempGain (f c.tempGain) (by rw [rising.upperDiff]; exact higher)
  rw [turn_last rising.grid]
  constructor
  · have lower : (c.keepClosest 0 c.tempGain (f c.tempGain)).u16LowerDiff = 0xFFFF ∨
        f 0x1000 = 0 := by
      obtain same | zero := keptLower
      · rw [same]
        exact rising.lowerDiff
      · rw [zero] at higher
        exact .inr (by bv_omega)
    rw [Channel.fallBack]
    dsimp only
    rw [if_pos, keptGain, rising.upperGain]
    rw [keptDiff, rising.upperDiff]
    bv_omega
  · rw [bDone_keepClosest]
    exact rising.grid.searching

theorem fallBack_climbing (climbing : Climbing f 11 c) :
    Near (f (c.turn type 0xFFFF 11 (f c.adcGain)).fallBack.gain) 0xFFFF ∧
      (c.turn type 0xFFFF 11 (f c.adcGain)).fallBack.gain.toNat ≤ 0x2000 ∧
      (c.turn type 0xFFFF 11 (f c.adcGain)).bDone = false := by
  obtain ⟨grid, recorded, found⟩ := climbing
  have near : c.u16LowerDiff.toNat ≤ 1 := by
    obtain near | ⟨early, -⟩ := found
    · exact near
    · omega
  rw [turn_last grid]
  obtain ⟨level, small⟩ := near_fallBack (recorded_keepClosest recorded grid.temp)
    (Nat.le_trans keepClosest_le.1 near)
  refine ⟨level, small, ?_⟩
  rw [bDone_keepClosest]
  exact grid.searching

/-! ### The fine tuning -/

/-- A channel of the fine tuning: it shows its target, or is still below it. -/
structure Tuned (f : U16 → U16) (target : U16) (c : Channel) : Prop where
  small : c.gain.toNat ≤ 0x2001
  done : c.bDone = true → f c.gain = target
  below : c.bDone = false → f c.gain < target

variable (response : FineResponse f target)

include response

theorem gain_lt (below : f c.gain < target) : c.gain.toNat < 0x2000 := by
  obtain ⟨g, inside, reached⟩ := response.attained
  by_contra high
  have less := response.coarse.mono g c.gain (BitVec.le_def.mpr (by omega))
  rw [reached] at less
  exact absurd below (BitVec.not_lt.mpr less)

theorem tuned_turn (tuned : Tuned f target c) :
    let next := c.raise.check target (f c.raise.adcGain)
    Tuned f target next ∧
      (c.bDone = true ∧ next.bDone = true ∨ next.gain.toNat = c.gain.toNat + 2) := by
  cases done : c.bDone with
  | true =>
      have same : c.raise = c := by rw [Channel.raise, done, if_pos rfl]
      have kept : c.check target (f c.adcGain) = c := by
        rw [Channel.check, done, if_neg (by simp)]
      simp only [same, kept]
      exact ⟨tuned, .inl ⟨trivial, done⟩⟩
  | false =>
      have below := tuned.below done
      have room := gain_lt response below
      have next : (c.gain + 2).toNat = c.gain.toNat + 2 := by bv_omega
      have steep := response.step c.gain (c.gain + 2) next
      have written : (c.gain + 2) &&& 0x3FFF = c.gain + 2 := mask_eq (by omega)
      have raised : c.raise = { c with gain := c.gain + 2, adcGain := c.gain + 2 } := by
        rw [Channel.raise, done, if_neg (by decide), Channel.setGain, written]
      rw [raised, Channel.check]
      by_cases reached : f (c.gain + 2) = target
      · rw [if_pos ⟨done, reached⟩]
        refine ⟨⟨?_, fun _ => reached, fun none => by cases none⟩, .inr next⟩
        change (c.gain + 2).toNat ≤ 0x2001
        omega
      · rw [if_neg fun both => reached both.2]
        refine ⟨⟨?_, fun finished => ?_, fun _ => ?_⟩, .inr next⟩
        · change (c.gain + 2).toNat ≤ 0x2001
          omega
        · change c.bDone = true at finished
          rw [done] at finished
          cases finished
        · change f (c.gain + 2) < target
          bv_omega

end Ends

section Result

variable {type : U8} {targets : Fin 3 → U16} {f : Fin 3 → U16 → U16}

theorem fineTune_reaches (response : ∀ ch, FineResponse (f ch) (targets ch)) (fuel n : Nat)
    (cs : Channels) (tuned : ∀ ch, Tuned (f ch) (targets ch) (cs ch))
    (enough : ∀ ch, (cs ch).bDone = true ∨ 0x2000 ≤ (cs ch).gain.toNat + fuel) :
    ∃ last, fineTune targets (steady f) fuel n cs = some last ∧
      ∀ ch, f ch (last ch).gain = targets ch ∧ (last ch).gain.toNat ≤ 0x2001 := by
  induction fuel generalizing n cs with
  | zero =>
      have done : ∀ ch, (cs ch).bDone = true := by
        intro ch
        obtain finished | high := enough ch
        · exact finished
        · by_contra open'
          have room := gain_lt (response ch) ((tuned ch).below (Bool.eq_false_iff.mpr open'))
          omega
      refine ⟨cs, if_pos (allDone_iff.mpr done), fun ch => ?_⟩
      exact ⟨(tuned ch).done (done ch), (tuned ch).small⟩
  | succ fuel inductionHypothesis =>
      rw [fineTune]
      split
      · rename_i done
        refine ⟨cs, rfl, fun ch => ?_⟩
        exact ⟨(tuned ch).done (allDone_iff.mp done ch), (tuned ch).small⟩
      · apply inductionHypothesis
        · exact fun ch => (tuned_turn (response ch) (tuned ch)).1
        · intro ch
          obtain ⟨-, ⟨-, finished⟩ | raised⟩ := tuned_turn (response ch) (tuned ch)
          · exact .inl finished
          · obtain finished | high := enough ch
            · refine .inl ?_
              rw [fineTurn, bDone_check, bDone_raise]
              exact .inl finished
            · refine .inr ?_
              change (fineTurn targets (steady f) n cs ch).gain.toNat = _ at raised
              omega

end Result

end Gp2Firmware.Scaler.GainCalibration
