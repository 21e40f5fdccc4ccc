import Gp2Firmware.Scaler.AutoTune

/-!
# The calibration of the ADC gains

`MDrv_ADC_CalGain` of `mdrv_auto.c`: a search that halves its step, and the fine tuning of
external RGB.  A level is what `_GetGainRange` measures on a channel.
-/

namespace Gp2Firmware.Scaler.GainCalibration

/-- `u8Direction` -/
inductive Direction where
  | none
  | downTop
  | topDown
  deriving DecidableEq

/-- The variables of a channel, and the code in its gain register. -/
structure Channel where
  bDone : Bool
  gain : U16
  tempGain : U16
  delta : U16
  u16UpperDiff : U16
  u16LowerDiff : U16
  u16UpperGain : U16
  u16LowerGain : U16
  u8Direction : Direction
  adcGain : U16

/-- The three channels. -/
abbrev Channels := Fin 3 → Channel

/-- What a measurement shows on a channel with a code in its gain register. -/
abbrev Levels := Nat → Fin 3 → U16 → U16

def autoTuneYuv : U8 := 0x40
def autoTuneIntAdc : U8 := 0x80

/-- `EXT_RGB_BINARY_SEARCH_TARGET` -/
def extRgbBinarySearchTarget : U16 := 1018

/-- External RGB. -/
def external (type : U8) : Bool := type &&& autoTuneIntAdc = 0 ∧ type &&& autoTuneYuv = 0

/-- The level that the search aims at. -/
def searchTarget (type : U8) (target : U16) : U16 :=
  if external type ∧ target > extRgbBinarySearchTarget then extRgbBinarySearchTarget else target

/-- The level is between `GainTargetLBound` and `GainTargetUBound`. -/
def inBounds (type : U8) (target level : U16) : Bool :=
  searchTarget type target - 1 ≤ level ∧ level ≤ searchTarget type target + 1

namespace Channel

/-- A channel before the first measurement. -/
def start : Channel where
  bDone := false
  gain := 0x1000
  tempGain := 0x1000
  delta := 0x800
  u16UpperDiff := 0xFFFF
  u16LowerDiff := 0xFFFF
  u16UpperGain := 0
  u16LowerGain := 0
  u8Direction := .none
  adcGain := 0x1000

/-- `MHal_ADC_SetGain` -/
def setGain (u16Value : U16) (c : Channel) : Channel :=
  { c with adcGain := u16Value &&& 0x3FFF }

def keepUpper (target gain u16Diff : U16) (c : Channel) : Channel :=
  if u16Diff ≥ target ∧ c.u16UpperDiff > u16Diff - target then
    { c with u16UpperDiff := u16Diff - target, u16UpperGain := gain }
  else c

def keepLower (target gain u16Diff : U16) (c : Channel) : Channel :=
  if u16Diff ≤ target ∧ c.u16LowerDiff > target - u16Diff then
    { c with u16LowerDiff := target - u16Diff, u16LowerGain := gain }
  else c

/-- The closest levels above and below the target, with their gains. -/
def keepClosest (target gain u16Diff : U16) (c : Channel) : Channel :=
  keepLower target gain u16Diff (keepUpper target gain u16Diff c)

/-- The level is within the bounds. -/
def finish (c : Channel) : Channel :=
  { c with
    bDone := true
    u16UpperDiff := 0
    u16LowerDiff := 0
    u16UpperGain := c.gain
    u16LowerGain := c.gain
    u8Direction := .none }

/-- The next gain of the search. -/
def move (up : Bool) (c : Channel) : Channel :=
  if up then
    { c with gain := c.gain + c.delta, u8Direction := .downTop, delta := c.delta >>> 1 }
  else
    { c with gain := c.gain - c.delta, u8Direction := .topDown, delta := c.delta >>> 1 }

/-- The gain for the last measurement lies between the last two. -/
def setTempGain (c : Channel) : Channel :=
  let c := match c.u8Direction with
    | .downTop => { c with tempGain := c.gain - 2 }
    | .topDown => { c with tempGain := c.gain + 2 }
    | .none => c
  c.setGain c.tempGain

/-- One turn of the search for a channel, with the number of the measurement. -/
def turn (type : U8) (target : U16) (y : Nat) (u16Diff : U16) (c : Channel) : Channel :=
  if c.bDone then c
  else if y = 11 then c.keepClosest target c.tempGain u16Diff
  else
    let c :=
      if inBounds type target u16Diff then c.finish
      else
        (c.keepClosest target c.gain u16Diff).move (u16Diff < searchTarget type target - 1)
    if y = 10 then c.setTempGain else c.setGain c.gain

/-- The gain with the closest level. -/
def fallBack (c : Channel) : Channel :=
  { c with
    gain := if c.u16UpperDiff ≤ c.u16LowerDiff then c.u16UpperGain else c.u16LowerGain }

/-- The next gain of the fine tuning. -/
def raise (c : Channel) : Channel :=
  if c.bDone then c else { c with gain := c.gain + 2 }.setGain (c.gain + 2)

/-- The level is the target. -/
def check (target level : U16) (c : Channel) : Channel :=
  if c.bDone = false ∧ level = target then { c with bDone := true } else c

end Channel

/-- All channels are done. -/
def allDone (cs : Channels) : Bool := (cs 0).bDone ∧ (cs 1).bDone ∧ (cs 2).bDone

/-- The search from measurement `y` on.  The answer is whether all channels are done, and
with which measurement. -/
def search (type : U8) (targets : Fin 3 → U16) (levels : Levels) :
    (left : Nat) → (y : Nat) → Channels → Bool × Nat × Channels
  | 0, y, cs => (false, y, cs)
  | left + 1, y, cs =>
      let next := fun ch => (cs ch).turn type (targets ch) y (levels y ch (cs ch).adcGain)
      if allDone next then (true, y, next) else search type targets levels left (y + 1) next

/-- A turn of the fine tuning with measurement `n`. -/
def fineTurn (targets : Fin 3 → U16) (levels : Levels) (n : Nat) (cs : Channels) : Channels :=
  fun ch => (cs ch).raise.check (targets ch) (levels n ch (cs ch).raise.adcGain)

/-- The fine tuning from measurement `n` on, for no more turns than the fuel. -/
def fineTune (targets : Fin 3 → U16) (levels : Levels) : (fuel : Nat) → (n : Nat) → Channels →
    Option Channels
  | 0, _, cs => if allDone cs then some cs else none
  | fuel + 1, n, cs =>
      if allDone cs then some cs
      else fineTune targets levels fuel (n + 1) (fineTurn targets levels n cs)

/-- The channels that are tuned finely are not done yet. -/
def reopen (targets : Fin 3 → U16) (cs : Channels) : Channels :=
  fun ch => { cs ch with bDone := ¬ targets ch > extRgbBinarySearchTarget }

/-- `MDrv_ADC_CalGain`, with no more turns of the last loop than the fuel. -/
def calGain (fuel : Nat) (type : U8) (targets : Fin 3 → U16) (levels : Levels) :
    Option Channels :=
  let result :=
    match search type targets levels 12 0 fun _ => .start with
    | (true, y, cs) =>
        if external type then fineTune targets levels fuel (y + 1) (reopen targets cs) else some cs
    | (false, _, cs) => some fun ch => (cs ch).fallBack
  result.map fun cs ch => (cs ch).setGain (cs ch).gain

/-- The calibration returns with these channels. -/
def Returns (type : U8) (targets : Fin 3 → U16) (levels : Levels) (cs : Channels) : Prop :=
  ∃ fuel, calGain fuel type targets levels = some cs

/-! ### The search -/

section Search

variable {type : U8} {targets : Fin 3 → U16} {levels : Levels}

/-- A channel behind a number of turns. -/
def after (type : U8) (targets : Fin 3 → U16) (levels : Levels) (ch : Fin 3) : Nat → Channel
  | 0 => .start
  | y + 1 =>
      (after type targets levels ch y).turn type (targets ch) y
        (levels y ch (after type targets levels ch y).adcGain)

/-- All channels behind a number of turns. -/
def allAfter (type : U8) (targets : Fin 3 → U16) (levels : Levels) (y : Nat) : Channels :=
  fun ch => after type targets levels ch y

/-- The search ends with the first turn behind which all channels are done. -/
theorem search_spec (left y : Nat)
    (before : ∀ k ≤ y, allDone (allAfter type targets levels k) = false) :
    (∃ k < left, search type targets levels left y (allAfter type targets levels y) =
          (true, y + k, allAfter type targets levels (y + k + 1)) ∧
        allDone (allAfter type targets levels (y + k + 1)) = true ∧
        ∀ j ≤ y + k, allDone (allAfter type targets levels j) = false) ∨
      search type targets levels left y (allAfter type targets levels y) =
          (false, y + left, allAfter type targets levels (y + left)) ∧
        ∀ j ≤ y + left, allDone (allAfter type targets levels j) = false := by
  induction left generalizing y with
  | zero => exact .inr ⟨rfl, before⟩
  | succ left inductionHypothesis =>
      have turn : search type targets levels (left + 1) y (allAfter type targets levels y) =
          if allDone (allAfter type targets levels (y + 1)) then
            (true, y, allAfter type targets levels (y + 1))
          else search type targets levels left (y + 1) (allAfter type targets levels (y + 1)) :=
        rfl
      rw [turn]
      cases done : allDone (allAfter type targets levels (y + 1)) with
      | true => exact .inl ⟨0, Nat.succ_pos left, rfl, done, before⟩
      | false =>
          have next : ∀ k ≤ y + 1, allDone (allAfter type targets levels k) = false := by
            intro k small
            obtain earlier | rfl := Nat.le_succ_iff.mp small
            · exact before k earlier
            · exact done
          rw [if_neg (by decide)]
          have shift : ∀ k, y + 1 + k = y + (k + 1) := fun k => by omega
          obtain ⟨k, small, run, atEnd, open'⟩ | ⟨run, open'⟩ := inductionHypothesis (y + 1) next
          · rw [shift] at run atEnd open'
            exact .inl ⟨k + 1, Nat.succ_lt_succ small, run, atEnd, open'⟩
          · rw [shift] at run open'
            exact .inr ⟨run, open'⟩

theorem allDone_start : allDone (allAfter type targets levels 0) = false := rfl

theorem allDone_iff {cs : Channels} : allDone cs = true ↔ ∀ ch, (cs ch).bDone = true := by
  rw [allDone, Fin.forall_fin_succ, Fin.forall_fin_two]
  simp

end Search

end Gp2Firmware.Scaler.GainCalibration
