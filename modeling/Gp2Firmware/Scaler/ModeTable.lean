import Mathlib.Data.BitVec
import Mathlib.Data.List.Range
import Mathlib.Tactic.SplitIfs

/-!
# Matching a signal with the mode table

`MDrv_SC_PCMode_MatchMode` of `mdrv_scaler_pcmode.c`, which looks for the entry of
`g_ModeTablePtr` that fits the measured signal.
-/

namespace Gp2Firmware.Scaler

abbrev U8 := BitVec 8
abbrev U16 := BitVec 16

/-- `SC_INPUT_SOURCE_e` -/
inductive InputSource where
  | vga | ypbpr1 | ypbpr2
  | atv | cvbs1 | cvbs2 | cvbs3 | svideo1 | svideo2 | scart1 | scart2
  | hdmiA | hdmiB | hdmiC | hdmiD
  | dtv | dtvMlink | storage | none
  deriving DecidableEq

/-- `Use_VGA_Source` -/
def InputSource.isVga (src : InputSource) : Bool := src = .vga

/-- `Use_YPbPr_Source` -/
def InputSource.isYPbPr (src : InputSource) : Bool := src = .ypbpr1 ∨ src = .ypbpr2

/-- `SC_PCMODE_MODETABLE_t` -/
structure ModeEntry where
  u8ResIdx : U8
  u16HFreq : U16
  u16VFreq : U16
  u16HStart : U16
  u16VStart : U16
  u16HTotal : U16
  u16VTotal : U16
  u8VTotalTolerance : U8
  u8AdcPhase : U8
  u8StatusFlag : U8

/-- The fields of the entry that a handler fills in for the signal. -/
structure Measured where
  u16HFreq : U16
  u16VFreq : U16
  u16VTotal : U16
  u8StatusFlag : U8

/-- `SC_PCADC_MODESETTING_TYPE` -/
structure ModeSetting where
  u8ModeIndex : U8
  u16HorizontalStart : U16
  u16VerticalStart : U16
  u16HorizontalTotal : U16
  u16VerticalTotal : U16
  u8Phase : U8
  u8SyncStatus : U8
  u8AutoSign : U8

def res640x350 : U8 := 0
def res1024x768 : U8 := 6
def res1280x768 : U8 := 11
def res1360x768 : U8 := 24
def res1366x768 : U8 := 27

/-- `astStandardModeResolution` -/
def astStandardModeResolution : List (U16 × U16) :=
  [(640, 350), (640, 400), (720, 400), (640, 480), (800, 600), (832, 624),
    (1024, 768), (1280, 1024), (1600, 1200), (1152, 864), (1152, 870), (1280, 768),
    (1280, 960), (720, 480), (1920, 1080), (1280, 720), (720, 576), (1920, 1200),
    (1400, 1050), (1440, 900), (1680, 1050), (1280, 800), (1600, 1024), (1600, 900),
    (1360, 768), (848, 480), (1920, 1080), (1366, 768), (864, 648)]

/-- The width and height of a resolution index; an index behind the array reads
what the memory holds there. -/
def displaySize (behind : U8 → U16 × U16) (u8ResIdx : U8) : U16 × U16 :=
  astStandardModeResolution.getD u8ResIdx.toNat (behind u8ResIdx)

/-- `MDrv_SC_SubtractABS` -/
def subtractAbs (num1 num2 : U16) : U16 := if num1 ≥ num2 then num1 - num2 else num2 - num1

def hfreqTolerance : U16 := 15
def vfreqTolerance : U16 := 15
def freqDelta : U16 := 100

def flagInterlace : U8 := 0x10
def flagYPbPr : U8 := 0x40

/-- `u16HVFreqDalta` and `u16VTotalDelta` of a signal and an entry. -/
def hvFreqDelta (signal : Measured) (entry : ModeEntry) : U16 :=
  subtractAbs signal.u16HFreq entry.u16HFreq + subtractAbs signal.u16VFreq entry.u16VFreq

def vTotalDelta (signal : Measured) (entry : ModeEntry) : U16 :=
  subtractAbs signal.u16VTotal entry.u16VTotal

/-- The variables of either search. -/
structure Match where
  u8MatchIndex : U8
  u16MatchDelta : U16
  u16VTotalMatchDelta : U16
  modesetting : ModeSetting

/-- The comparison of an entry with the best one so far. -/
def Match.closer (m : Match) (hvFreq vTotal : U16) : Bool :=
  (m.u16MatchDelta > hvFreq ∧ m.u16VTotalMatchDelta > vTotal) ∨
    (hvFreq ≤ 10 ∧ vTotal < m.u16VTotalMatchDelta)

/-- What `Modesetting` takes from an entry. -/
def ModeSetting.ofEntry (u8Index : U8) (entry : ModeEntry) : ModeSetting where
  u8ModeIndex := u8Index
  u16HorizontalStart := entry.u16HStart
  u16VerticalStart := entry.u16VStart
  u16HorizontalTotal := entry.u16HTotal
  u16VerticalTotal := entry.u16VTotal
  u8Phase := entry.u8AdcPhase
  u8SyncStatus := entry.u8StatusFlag
  u8AutoSign := 0

/-! ### The first search -/

/-- The entry belongs to the kind of source. -/
def sameSource (src : InputSource) (entry : ModeEntry) : Bool :=
  if src.isYPbPr then entry.u8StatusFlag &&& flagYPbPr != 0
  else entry.u8StatusFlag &&& flagYPbPr == 0

/-- The frequencies and the lines are within the tolerances. -/
def inTolerance (signal : Measured) (entry : ModeEntry) : Bool :=
  subtractAbs signal.u16HFreq entry.u16HFreq < hfreqTolerance ∧
    subtractAbs signal.u16VFreq entry.u16VFreq < vfreqTolerance ∧
      vTotalDelta signal entry < entry.u8VTotalTolerance.setWidth 16

/-- The polarities that the entries of 1366x768 and of 1024x768 at 75 Hz ask for. -/
def polarityFits (signal : Measured) (entry : ModeEntry) : Bool :=
  (entry.u8ResIdx = res1366x768 → signal.u8StatusFlag &&& 0x03 = 0) ∧
    (entry.u8ResIdx = res1024x768 ∧ subtractAbs entry.u16VFreq 750 < vfreqTolerance →
      signal.u8StatusFlag &&& 0x03 ≠ 1)

/-- `newFormat` -/
def Match.newFormat (m : Match) (signal : Measured) (entry : ModeEntry) : Bool :=
  (if m.closer (hvFreqDelta signal entry) (vTotalDelta signal entry) then true
    else if entry.u8ResIdx = res640x350 ∧
        m.u16MatchDelta = hvFreqDelta signal entry ∧
          m.u16VTotalMatchDelta = vTotalDelta signal entry then
      signal.u8StatusFlag &&& 0x03 = 2
    else false) && polarityFits signal entry

/-- The settings that `SysValPCResolution` has for the four modes of 768 lines, with
the numbers that their entries have in the standard table. -/
def fixedSetting (sysValPCResolution : U16) (u8ResIdx : U8) : Option ModeSetting :=
  if sysValPCResolution = 0 then
    if u8ResIdx ≠ res1024x768 then some ⟨15, 0xfc, 0x15, 1328, 798, 0x39, 0x08, 0⟩
    else none
  else if sysValPCResolution = 1 then
    if u8ResIdx ≠ res1280x768 then some ⟨25, 0x13c, 0x12, 1664, 798, 0x2a, 0x04, 0⟩
    else none
  else if sysValPCResolution = 2 then
    if u8ResIdx ≠ res1360x768 then some ⟨35, 0x154, 0x14, 1776, 798, 0x1d, 0x01, 0⟩
    else none
  else if sysValPCResolution = 3 then
    if u8ResIdx ≠ res1366x768 then some ⟨37, 0x6e, 0xd, 1528, 790, 0x28, 0x08, 0⟩
    else none
  else none

/-- The setting that replaces the one of an entry of 768 lines at 60 Hz. -/
def redirected (sysValPCResolution : U16) (entry : ModeEntry) : Option ModeSetting :=
  if subtractAbs entry.u16VFreq 600 < vfreqTolerance ∧
      (entry.u8ResIdx = res1024x768 ∨ entry.u8ResIdx = res1280x768 ∨
        entry.u8ResIdx = res1360x768 ∨ entry.u8ResIdx = res1366x768) then
    fixedSetting sysValPCResolution entry.u8ResIdx
  else none

/-- One turn of the first search. -/
def Match.first (src : InputSource) (signal : Measured) (sysValPCResolution : U16)
    (m : Match) (u8Index : U8) (entry : ModeEntry) : Match :=
  if sameSource src entry ∧ inTolerance signal entry ∧ m.newFormat signal entry then
    { u8MatchIndex := u8Index
      u16MatchDelta := hvFreqDelta signal entry
      u16VTotalMatchDelta := vTotalDelta signal entry
      modesetting :=
        (redirected sysValPCResolution entry).getD (.ofEntry u8Index entry) }
  else m

/-! ### The second search -/

/-- The entry may be taken for a signal that the first search did not find. -/
def nearSource (behind : U8 → U16 × U16) (src : InputSource) (signal : Measured)
    (entry : ModeEntry) : Bool :=
  (src.isYPbPr → entry.u8StatusFlag &&& flagYPbPr ≠ 0) ∧
    entry.u8StatusFlag &&& flagInterlace = signal.u8StatusFlag &&& flagInterlace ∧
      signal.u16VTotal > (displaySize behind entry.u8ResIdx).2

/-- One turn of the second search. -/
def Match.second (behind : U8 → U16 × U16) (src : InputSource) (signal : Measured)
    (m : Match) (u8Index : U8) (entry : ModeEntry) : Match :=
  if nearSource behind src signal entry ∧
      m.closer (hvFreqDelta signal entry) (vTotalDelta signal entry) then
    { u8MatchIndex := u8Index
      u16MatchDelta := hvFreqDelta signal entry
      u16VTotalMatchDelta := vTotalDelta signal entry
      modesetting := .ofEntry u8Index entry }
  else m

/-- The loop over the table. -/
def search (turn : Match → U8 → ModeEntry → Match) (entry : Nat → ModeEntry)
    (size : Nat) (start : Match) : Match :=
  (List.range size).foldl (fun m u8Index => turn m (BitVec.ofNat 8 u8Index)
    (entry u8Index)) start

/-- The first search of `MDrv_SC_PCMode_MatchMode`. -/
def firstSearch (src : InputSource) (sysValPCResolution : U16) (modesetting : ModeSetting)
    (signal : Measured) (entry : Nat → ModeEntry) (size : Nat) : Match :=
  search (Match.first src signal sysValPCResolution) entry size
    ⟨0xFF, hfreqTolerance + vfreqTolerance, 0xFFFF, modesetting⟩

/-- The second search of `MDrv_SC_PCMode_MatchMode`. -/
def secondSearch (behind : U8 → U16 × U16) (src : InputSource) (modesetting : ModeSetting)
    (signal : Measured) (entry : Nat → ModeEntry) (size : Nat) : Match :=
  search (Match.second behind src signal) entry size ⟨0xFF, freqDelta, 0xFFFF, modesetting⟩

/-- What a search found, as the index that the caller gets. -/
def Match.result (m : Match) : U8 × ModeSetting := (m.u8MatchIndex, m.modesetting)

/-- `MDrv_SC_PCMode_MatchMode`: the index, and the `Modesetting` it leaves. -/
def matchMode (behind : U8 → U16 × U16) (src : InputSource) (sysValPCResolution : U16)
    (modesetting : ModeSetting) (signal : Measured) (entry : Nat → ModeEntry)
    (size : Nat) : U8 × ModeSetting :=
  if (firstSearch src sysValPCResolution modesetting signal entry size).u8MatchIndex
      ≠ 0xFF then
    ((firstSearch src sysValPCResolution modesetting signal entry size).modesetting.u8ModeIndex,
      (firstSearch src sysValPCResolution modesetting signal entry size).modesetting)
  else
    (secondSearch behind src
      (firstSearch src sysValPCResolution modesetting signal entry size).modesetting
      signal entry size).result

/-! ### Which signals have a mode -/

/-- An entry that the first search takes when it has none. -/
def fitsFirst (src : InputSource) (signal : Measured) (entry : ModeEntry) : Bool :=
  sameSource src entry ∧ inTolerance signal entry ∧ polarityFits signal entry

/-- An entry that the second search takes when it has none. -/
def fitsSecond (behind : U8 → U16 × U16) (src : InputSource) (signal : Measured)
    (entry : ModeEntry) : Bool :=
  nearSource behind src signal entry ∧ hvFreqDelta signal entry < freqDelta ∧
    vTotalDelta signal entry < 0xFFFF

/-- The table has a mode for the signal. -/
def HasMode (behind : U8 → U16 × U16) (src : InputSource) (signal : Measured)
    (entry : Nat → ModeEntry) (size : Nat) : Prop :=
  ∃ i < size, fitsFirst src signal (entry i) = true ∨
    fitsSecond behind src signal (entry i) = true

/-- No entry that fits the signal is redirected behind the end of the table. -/
def FixedInside (src : InputSource) (sysValPCResolution : U16) (signal : Measured)
    (entry : Nat → ModeEntry) (size : Nat) : Prop :=
  ∀ i < size, fitsFirst src signal (entry i) = true →
    ∀ setting ∈ redirected sysValPCResolution (entry i),
      setting.u8ModeIndex.toNat < size

variable {behind : U8 → U16 × U16} {src : InputSource} {sysValPCResolution : U16}
  {modesetting : ModeSetting} {signal : Measured} {entry : Nat → ModeEntry} {size : Nat}

/-- A search is still at its start while no entry fits, and then has an entry of the
table. -/
theorem search_cases {turn : Match → U8 → ModeEntry → Match} {start : Match}
    {fits taken : ModeEntry → Bool} {setting : U8 → ModeEntry → ModeSetting}
    (skips : ∀ u8Index e, fits e = false → turn start u8Index e = start)
    (takes : ∀ u8Index e, fits e = true →
      taken e = true ∧ (turn start u8Index e).u8MatchIndex = u8Index ∧
        (turn start u8Index e).modesetting = setting u8Index e)
    (later : ∀ m u8Index e, turn m u8Index e = m ∨
      taken e = true ∧ (turn m u8Index e).u8MatchIndex = u8Index ∧
        (turn m u8Index e).modesetting = setting u8Index e)
    (entry : Nat → ModeEntry) (size : Nat) :
    (search turn entry size start = start ∧ ∀ i < size, fits (entry i) = false) ∨
      ((∃ i < size, fits (entry i) = true) ∧
        ∃ i < size, taken (entry i) = true ∧
          (search turn entry size start).u8MatchIndex = BitVec.ofNat 8 i ∧
          (search turn entry size start).modesetting =
            setting (BitVec.ofNat 8 i) (entry i)) := by
  induction size with
  | zero => exact Or.inl ⟨rfl, fun i below => absurd below (Nat.not_lt_zero i)⟩
  | succ size inductionHypothesis =>
      have unfolded : search turn entry (size + 1) start =
          turn (search turn entry size start) (BitVec.ofNat 8 size) (entry size) := by
        rw [search, List.range_succ, List.foldl_append]
        rfl
      rw [unfolded]
      rcases inductionHypothesis with ⟨atStart, none⟩ | ⟨⟨j, below, fit⟩, i, small, found⟩
      · rw [atStart]
        cases fit : fits (entry size) with
        | false =>
            refine Or.inl ⟨skips _ _ fit, fun i below => ?_⟩
            rcases Nat.lt_succ_iff_lt_or_eq.mp below with before | rfl
            · exact none i before
            · exact fit
        | true =>
            exact Or.inr ⟨⟨size, Nat.lt_succ_self size, fit⟩, size, Nat.lt_succ_self size,
              takes _ _ fit⟩
      · refine Or.inr ⟨⟨j, Nat.lt_succ_of_lt below, fit⟩, ?_⟩
        rcases later (search turn entry size start) (BitVec.ofNat 8 size) (entry size) with
          same | took
        · rw [same]
          exact ⟨i, Nat.lt_succ_of_lt small, found⟩
        · exact ⟨size, Nat.lt_succ_self size, took⟩

variable {e : ModeEntry}

theorem hvFreqDelta_lt (hFreq : subtractAbs signal.u16HFreq e.u16HFreq < hfreqTolerance)
    (vFreq : subtractAbs signal.u16VFreq e.u16VFreq < vfreqTolerance) :
    hvFreqDelta signal e < hfreqTolerance + vfreqTolerance := by
  have first : (subtractAbs signal.u16HFreq e.u16HFreq).toNat < 15 := hFreq
  have second : (subtractAbs signal.u16VFreq e.u16VFreq).toNat < 15 := vFreq
  rw [hvFreqDelta, BitVec.lt_def, BitVec.toNat_add]
  change _ < 30
  omega

theorem vTotalDelta_lt (near : vTotalDelta signal e < e.u8VTotalTolerance.setWidth 16) :
    vTotalDelta signal e < 0xFFFF := by
  rw [BitVec.lt_def, BitVec.toNat_setWidth] at near
  rw [BitVec.lt_def]
  change _ < 65535
  have small := e.u8VTotalTolerance.isLt
  omega

/-- An entry within the tolerances is closer than the start of the first search. -/
theorem newFormat_start (near : inTolerance signal e = true) (u8Index : U8)
    (modesetting : ModeSetting) :
    Match.newFormat ⟨u8Index, hfreqTolerance + vfreqTolerance, 0xFFFF, modesetting⟩ signal
      e = polarityFits signal e := by
  rw [inTolerance, decide_eq_true_iff] at near
  obtain ⟨hFreq, vFreq, vTotal⟩ := near
  have closer : Match.closer ⟨u8Index, hfreqTolerance + vfreqTolerance, 0xFFFF,
      modesetting⟩ (hvFreqDelta signal e) (vTotalDelta signal e) = true := by
    rw [Match.closer, decide_eq_true_iff]
    exact Or.inl ⟨hvFreqDelta_lt hFreq vFreq, vTotalDelta_lt vTotal⟩
  rw [Match.newFormat, if_pos closer, Bool.true_and]

/-- The setting that the first search leaves for an entry. -/
def firstSetting (sysValPCResolution : U16) (u8Index : U8) (e : ModeEntry) : ModeSetting :=
  (redirected sysValPCResolution e).getD (.ofEntry u8Index e)

theorem firstSearch_cases :
    ((firstSearch src sysValPCResolution modesetting signal entry size).u8MatchIndex =
        0xFF ∧ ∀ i < size, fitsFirst src signal (entry i) = false) ∨
      ((∃ i < size, fitsFirst src signal (entry i) = true) ∧
        ∃ i < size, fitsFirst src signal (entry i) = true ∧
          (firstSearch src sysValPCResolution modesetting signal entry size).u8MatchIndex =
            BitVec.ofNat 8 i ∧
          (firstSearch src sysValPCResolution modesetting signal entry size).modesetting =
            firstSetting sysValPCResolution (BitVec.ofNat 8 i) (entry i)) := by
  refine (search_cases ?_ ?_ ?_ entry size).imp_left fun ⟨atStart, unfit⟩ =>
    ⟨congrArg Match.u8MatchIndex atStart, unfit⟩
  · intro u8Index e unfit
    refine if_neg fun both => ?_
    obtain ⟨source, near, format⟩ := both
    rw [newFormat_start near] at format
    rw [fitsFirst, decide_eq_true (And.intro source ⟨near, format⟩)] at unfit
    cases unfit
  · intro u8Index e fit
    have parts := fit
    rw [fitsFirst, decide_eq_true_iff] at parts
    obtain ⟨source, near, polarity⟩ := parts
    have met : sameSource src e = true ∧ inTolerance signal e = true ∧
        Match.newFormat ⟨0xFF, hfreqTolerance + vfreqTolerance, 0xFFFF, modesetting⟩ signal
          e = true := ⟨source, near, (newFormat_start near _ _).trans polarity⟩
    rw [Match.first, if_pos met]
    exact ⟨fit, rfl, rfl⟩
  · intro m u8Index e
    rw [Match.first]
    split_ifs with met
    · obtain ⟨source, near, format⟩ := met
      rw [Match.newFormat, Bool.and_eq_true] at format
      refine Or.inr ⟨?_, rfl, rfl⟩
      rw [fitsFirst, decide_eq_true_iff]
      exact ⟨source, near, format.2⟩
    · exact Or.inl rfl

/-- An entry that is closer than the start of the second search. -/
theorem closer_start_iff :
    Match.closer ⟨0xFF, freqDelta, 0xFFFF, modesetting⟩ (hvFreqDelta signal e)
        (vTotalDelta signal e) = true ↔
      hvFreqDelta signal e < freqDelta ∧ vTotalDelta signal e < 0xFFFF := by
  rw [Match.closer, decide_eq_true_iff]
  constructor
  · intro closer
    obtain both | ⟨least, lines⟩ := closer
    · exact both
    · have small : (hvFreqDelta signal e).toNat ≤ 10 := least
      exact ⟨Nat.lt_of_le_of_lt small (by decide), lines⟩
  · exact Or.inl

theorem secondSearch_cases :
    ((secondSearch behind src modesetting signal entry size).u8MatchIndex = 0xFF ∧
        ∀ i < size, fitsSecond behind src signal (entry i) = false) ∨
      ((∃ i < size, fitsSecond behind src signal (entry i) = true) ∧
        ∃ i < size,
          (secondSearch behind src modesetting signal entry size).u8MatchIndex =
            BitVec.ofNat 8 i) := by
  refine (@search_cases _ _ (fitsSecond behind src signal) (fun _ => true) ModeSetting.ofEntry
    ?_ ?_ ?_ entry size).imp
    (fun ⟨atStart, unfit⟩ => ⟨congrArg Match.u8MatchIndex atStart, unfit⟩)
    fun ⟨fit, i, inside, _, index⟩ => ⟨fit, i, inside, index.1⟩
  · intro u8Index e unfit
    refine if_neg fun both => ?_
    rw [fitsSecond, decide_eq_true (And.intro both.1 (closer_start_iff.mp both.2))] at unfit
    cases unfit
  · intro u8Index e fit
    rw [fitsSecond, decide_eq_true_iff] at fit
    rw [Match.second, if_pos ⟨fit.1, closer_start_iff.mpr fit.2⟩]
    exact ⟨rfl, rfl, rfl⟩
  · intro m u8Index e
    rw [Match.second]
    split_ifs
    · exact Or.inr ⟨rfl, rfl, rfl⟩
    · exact Or.inl rfl

theorem ofNat_ne_ff {i : Nat} (below : i < size) (small : size < 256) :
    BitVec.ofNat 8 i ≠ 0xFF := by
  intro same
  have values := congrArg BitVec.toNat same
  rw [BitVec.toNat_ofNat] at values
  change _ = 255 at values
  omega

theorem fixedSetting_ne_ff {u8ResIdx : U8} {setting : ModeSetting}
    (fixed : fixedSetting sysValPCResolution u8ResIdx = some setting) :
    setting.u8ModeIndex ≠ 0xFF := by
  unfold fixedSetting at fixed
  split_ifs at fixed <;> cases fixed <;> decide

theorem firstSetting_cases (u8Index : U8) (e : ModeEntry) :
    (firstSetting sysValPCResolution u8Index e).u8ModeIndex = u8Index ∨
      ∃ setting, redirected sysValPCResolution e = some setting ∧
        firstSetting sysValPCResolution u8Index e = setting := by
  rw [firstSetting]
  cases redirected sysValPCResolution e with
  | none => exact Or.inl rfl
  | some setting => exact Or.inr ⟨setting, rfl, rfl⟩

theorem redirected_ne_ff {setting : ModeSetting}
    (fixed : redirected sysValPCResolution e = some setting) :
    setting.u8ModeIndex ≠ 0xFF := by
  unfold redirected at fixed
  split_ifs at fixed
  exact fixedSetting_ne_ff fixed

/-- `MDrv_SC_PCMode_MatchMode` answers 0xFF for the signals without a mode. -/
theorem matchMode_ne_ff_iff (small : size < 256) :
    (matchMode behind src sysValPCResolution modesetting signal entry size).1 ≠ 0xFF ↔
      HasMode behind src signal entry size := by
  rw [matchMode]
  rcases firstSearch_cases with ⟨none, unfit⟩ | ⟨⟨j, below, fit⟩, i, inside, _, index, left⟩
  · rw [if_neg (not_not.mpr none), Match.result]
    rcases secondSearch_cases with ⟨none, without⟩ | ⟨⟨j, below, fit⟩, i, inside, index⟩
    · rw [none]
      refine iff_of_false (fun apart => apart rfl) ?_
      rintro ⟨i, below, first | second⟩
      · rw [unfit i below] at first
        cases first
      · rw [without i below] at second
        cases second
    · rw [index]
      exact iff_of_true (ofNat_ne_ff inside small) ⟨j, below, Or.inr fit⟩
  · have found : (firstSearch src sysValPCResolution modesetting signal entry
        size).u8MatchIndex ≠ 0xFF := index ▸ ofNat_ne_ff inside small
    rw [if_pos found, left]
    refine iff_of_true ?_ ⟨j, below, Or.inl fit⟩
    rcases firstSetting_cases (BitVec.ofNat 8 i) (entry i) with own | ⟨setting, fixed, same⟩
    · rw [own]
      exact ofNat_ne_ff inside small
    · rw [same]
      exact redirected_ne_ff fixed

/-- The index that `MDrv_SC_PCMode_MatchMode` answers is one of the table, unless an
entry is redirected behind its end. -/
theorem matchMode_lt (small : size < 256)
    (fixedInside : FixedInside src sysValPCResolution signal entry size)
    (found : (matchMode behind src sysValPCResolution modesetting signal entry size).1 ≠
      0xFF) :
    (matchMode behind src sysValPCResolution modesetting signal entry size).1.toNat <
      size := by
  have index : ∀ i < size, (BitVec.ofNat 8 i).toNat < size := by
    intro i below
    rw [BitVec.toNat_ofNat]
    omega
  rw [matchMode] at found ⊢
  split_ifs at found ⊢ with first
  · rcases firstSearch_cases with ⟨none, _⟩ | ⟨_, i, inside, fit, _, left⟩
    · exact absurd none first
    · rw [left]
      rcases firstSetting_cases (BitVec.ofNat 8 i) (entry i) with own | ⟨setting, fixed, same⟩
      · rw [own]
        exact index i inside
      · rw [same]
        exact fixedInside i inside fit setting fixed
  · rw [Match.result] at found ⊢
    rcases secondSearch_cases with ⟨none, _⟩ | ⟨_, i, inside, here⟩
    · exact absurd none found
    · rw [here]
      exact index i inside

end Gp2Firmware.Scaler
