import Gp2Firmware.Lib.BestScan
import Gp2Firmware.Scaler.ModeTable

/-!
# The best match of a signal

Either search of `MDrv_SC_PCMode_MatchMode` is a scan that keeps the entry it found
last.
-/

namespace Gp2Firmware.Scaler

open Lib.BestScan

/-- The comparison of both searches, between two entries. -/
def CloserThan (signal : Measured) (e best : ModeEntry) : Prop :=
  (hvFreqDelta signal e < hvFreqDelta signal best ∧
      vTotalDelta signal e < vTotalDelta signal best) ∨
    (hvFreqDelta signal e ≤ 10 ∧ vTotalDelta signal e < vTotalDelta signal best)

/-- What the first search replaces an entry by. -/
def ReplacesFirst (signal : Measured) (e best : ModeEntry) : Prop :=
  CloserThan signal e best ∨
    (e.u8ResIdx = res640x350 ∧ hvFreqDelta signal best = hvFreqDelta signal e ∧
      vTotalDelta signal best = vTotalDelta signal e ∧ signal.u8StatusFlag &&& 0x03 = 2)

instance (signal : Measured) (e best : ModeEntry) : Decidable (CloserThan signal e best) :=
  inferInstanceAs (Decidable (_ ∨ _))

instance (signal : Measured) (e best : ModeEntry) : Decidable (ReplacesFirst signal e best) :=
  inferInstanceAs (Decidable (_ ∨ _))

/-- An entry of the table that is not strictly farther from the signal in both deltas than
another one that fits. -/
def Undominated (src : InputSource) (signal : Measured) (entry : Nat → ModeEntry)
    (size i : Nat) : Prop :=
  ∀ j < size, fitsFirst src signal (entry j) = true →
    ¬ (hvFreqDelta signal (entry j) < hvFreqDelta signal (entry i) ∧
      vTotalDelta signal (entry j) < vTotalDelta signal (entry i))

/-- The best match: with an entry that fits, the first search decides on one that is not
dominated; without, the answer is 0xFF or an entry of the source's family with the
interlace flag of the signal.  The answer and `Modesetting` are those of the entry, unless
the setting for the modes of 768 lines replaces them. -/
structure BestMatch (behind : U8 → U16 × U16) (src : InputSource) (sysValPCResolution : U16)
    (modesetting : ModeSetting) (signal : Measured) (entry : Nat → ModeEntry)
    (size : Nat) : Prop where
  first : (∃ i < size, fitsFirst src signal (entry i) = true) →
    ∃ i < size,
      (firstSearch src sysValPCResolution modesetting signal entry size).u8MatchIndex =
        BitVec.ofNat 8 i ∧
      (firstSearch src sysValPCResolution modesetting signal entry size).u8MatchIndex ≠
        0xFF ∧
      fitsFirst src signal (entry i) = true ∧
      Undominated src signal entry size i ∧
      (redirected sysValPCResolution (entry i) = none →
        matchMode behind src sysValPCResolution modesetting signal entry size =
          (BitVec.ofNat 8 i, .ofEntry (BitVec.ofNat 8 i) (entry i)))
  second : (¬ ∃ i < size, fitsFirst src signal (entry i) = true) →
    matchMode behind src sysValPCResolution modesetting signal entry size =
        (0xFF, modesetting) ∨
      ∃ i < size, sameSource src (entry i) = true ∧
        (entry i).u8StatusFlag &&& flagInterlace = signal.u8StatusFlag &&& flagInterlace ∧
        matchMode behind src sysValPCResolution modesetting signal entry size =
          (BitVec.ofNat 8 i, .ofEntry (BitVec.ofNat 8 i) (entry i))

variable {behind : U8 → U16 × U16} {src : InputSource} {sysValPCResolution : U16}
  {modesetting : ModeSetting} {signal : Measured} {entry : Nat → ModeEntry} {size : Nat}
  {e best other : ModeEntry}

section Comparison

theorem CloserThan.trans (first : CloserThan signal e best)
    (second : CloserThan signal best other) : CloserThan signal e other := by
  unfold CloserThan at *
  bv_omega

theorem CloserThan.not_self : ¬ CloserThan signal e e := by
  unfold CloserThan
  bv_omega

/-- A replaced entry is beaten by all that beat the new one. -/
theorem ReplacesFirst.closerThan (replaces : ReplacesFirst signal e best)
    (closer : CloserThan signal other e) : CloserThan signal other best := by
  obtain nearer | ⟨_, hvFreq, vTotal, _⟩ := replaces
  · exact closer.trans nearer
  · unfold CloserThan at *
    rwa [hvFreq, vTotal]

end Comparison

/-- A search as a scan, if its turn depends on the entry it has. -/
theorem search_eq_scan {turn : Match → U8 → ModeEntry → Match} {start : Match}
    {fits : ModeEntry → Prop} {replaces : ModeEntry → ModeEntry → Prop}
    [DecidablePred fits] [DecidableRel replaces]
    {made : U8 → ModeEntry → Match}
    (begins : ∀ u8Index e, turn start u8Index e = if fits e then made u8Index e else start)
    (turns : ∀ index best u8Index e, fits best → turn (made index best) u8Index e =
      if fits e ∧ replaces e best then made u8Index e else made index best)
    (entry : Nat → ModeEntry) (size : Nat) :
    search turn entry size start =
      (scan (fun i => fits (entry i)) (fun i j => replaces (entry i) (entry j)) size).elim
        start fun i => made (BitVec.ofNat 8 i) (entry i) := by
  induction size with
  | zero => simp [search, scan]
  | succ size inductionHypothesis =>
      have unfolded : search turn entry (size + 1) start =
          turn (search turn entry size start) (BitVec.ofNat 8 size) (entry size) := by
        simp [search, List.range_succ]
      rw [unfolded, inductionHypothesis, scan]
      cases found : scan (fun i => fits (entry i)) (fun i j => replaces (entry i) (entry j))
          size with
      | none =>
          simp only [Option.elim_none, begins]
          split <;> simp
      | some best =>
          simp only [Option.elim_some, turns _ _ _ _ (mem_of_scan found).2]
          split <;> simp

/-! ### The two searches as scans -/

/-- What the first search knows about an entry. -/
def firstMatch (sysValPCResolution : U16) (signal : Measured) (u8Index : U8)
    (e : ModeEntry) : Match where
  u8MatchIndex := u8Index
  u16MatchDelta := hvFreqDelta signal e
  u16VTotalMatchDelta := vTotalDelta signal e
  modesetting := firstSetting sysValPCResolution u8Index e

/-- What the second search knows about an entry. -/
def secondMatch (signal : Measured) (u8Index : U8) (e : ModeEntry) : Match where
  u8MatchIndex := u8Index
  u16MatchDelta := hvFreqDelta signal e
  u16VTotalMatchDelta := vTotalDelta signal e
  modesetting := .ofEntry u8Index e

/-- The entry that the first search keeps. -/
abbrev firstChoice (src : InputSource) (signal : Measured) (entry : Nat → ModeEntry)
    (size : Nat) : Option Nat :=
  scan (fun i => fitsFirst src signal (entry i) = true)
    (fun i j => ReplacesFirst signal (entry i) (entry j)) size

/-- The entry that the second search keeps. -/
abbrev secondChoice (behind : U8 → U16 × U16) (src : InputSource) (signal : Measured)
    (entry : Nat → ModeEntry) (size : Nat) : Option Nat :=
  scan (fun i => fitsSecond behind src signal (entry i) = true)
    (fun i j => CloserThan signal (entry i) (entry j)) size

/-- The comparison with a match that has the deltas of an entry. -/
theorem closer_iff {m : Match} (hvFreq : m.u16MatchDelta = hvFreqDelta signal best)
    (vTotal : m.u16VTotalMatchDelta = vTotalDelta signal best) :
    m.closer (hvFreqDelta signal e) (vTotalDelta signal e) = true ↔
      CloserThan signal e best := by
  rw [Match.closer, decide_eq_true_iff, hvFreq, vTotal]
  exact Iff.rfl

theorem newFormat_firstMatch {index : U8} :
    (firstMatch sysValPCResolution signal index best).newFormat signal e = true ↔
      ReplacesFirst signal e best ∧ polarityFits signal e = true := by
  have closer := @closer_iff signal e best (firstMatch sysValPCResolution signal index best)
    (by simp [firstMatch]) (by simp [firstMatch])
  rw [Match.newFormat, Bool.and_eq_true, ReplacesFirst]
  apply and_congr_left'
  split_ifs with nearer tie
  · simp [closer.mp nearer]
  · obtain ⟨resolution, hvFreq, vTotal⟩ := tie
    have apart := mt closer.mpr nearer
    change hvFreqDelta signal best = _ at hvFreq
    change vTotalDelta signal best = _ at vTotal
    simp [apart, resolution, hvFreq, vTotal]
  · refine iff_of_false (by simp) ?_
    rintro (close | ⟨resolution, hvFreq, vTotal, _⟩)
    · exact nearer (closer.mpr close)
    · exact tie ⟨resolution, hvFreq, vTotal⟩

theorem firstSearch_eq :
    firstSearch src sysValPCResolution modesetting signal entry size =
      (firstChoice src signal entry size).elim
        ⟨0xFF, hfreqTolerance + vfreqTolerance, 0xFFFF, modesetting⟩
        fun i => firstMatch sysValPCResolution signal (BitVec.ofNat 8 i) (entry i) := by
  refine @search_eq_scan (Match.first src signal sysValPCResolution) _
    (fun e => fitsFirst src signal e = true) (ReplacesFirst signal) _ _
    (firstMatch sysValPCResolution signal) ?_ ?_ entry size
  · intro u8Index e
    have same : (sameSource src e = true ∧ inTolerance signal e = true ∧
        Match.newFormat ⟨0xFF, hfreqTolerance + vfreqTolerance, 0xFFFF, modesetting⟩
          signal e = true) ↔ fitsFirst src signal e = true := by
      rw [fitsFirst, decide_eq_true_iff]
      apply and_congr_right'
      apply and_congr_right
      intro near
      rw [newFormat_start near]
    simp only [Match.first, same]
    congr 1
  · intro index best u8Index e _
    have same : (sameSource src e = true ∧ inTolerance signal e = true ∧
        (firstMatch sysValPCResolution signal index best).newFormat signal e = true) ↔
        fitsFirst src signal e = true ∧ ReplacesFirst signal e best := by
      rw [newFormat_firstMatch, fitsFirst, decide_eq_true_iff]
      tauto
    simp only [Match.first, same]
    congr 1

/-- An entry near the signal that is closer than one the second search takes is within its
limits as well. -/
theorem fitsSecond_of_closerThan (fits : fitsSecond behind src signal best = true) :
    (nearSource behind src signal e = true ∧ CloserThan signal e best) ↔
      fitsSecond behind src signal e = true ∧ CloserThan signal e best := by
  rw [fitsSecond, decide_eq_true_iff] at fits ⊢
  obtain ⟨_, hvFreq, vTotal⟩ := fits
  constructor
  · rintro ⟨near, closer⟩
    refine ⟨⟨near, ?_⟩, closer⟩
    unfold CloserThan at closer
    unfold freqDelta at *
    bv_omega
  · rintro ⟨within, closer⟩
    exact ⟨within.1, closer⟩

theorem secondSearch_eq :
    secondSearch behind src modesetting signal entry size =
      (secondChoice behind src signal entry size).elim
        ⟨0xFF, freqDelta, 0xFFFF, modesetting⟩
        fun i => secondMatch signal (BitVec.ofNat 8 i) (entry i) := by
  refine @search_eq_scan (Match.second behind src signal) _
    (fun e => fitsSecond behind src signal e = true) (CloserThan signal) _ _
    (secondMatch signal) ?_ ?_ entry size
  · intro u8Index e
    have same : (nearSource behind src signal e = true ∧
        Match.closer ⟨0xFF, freqDelta, 0xFFFF, modesetting⟩ (hvFreqDelta signal e)
          (vTotalDelta signal e) = true) ↔ fitsSecond behind src signal e = true := by
      rw [fitsSecond, decide_eq_true_iff, closer_start_iff]
    simp only [Match.second, same]
    congr 1
  · intro index best u8Index e fits
    have closer := @closer_iff signal e best (secondMatch signal index best)
      (by simp [secondMatch]) (by simp [secondMatch])
    have same : (nearSource behind src signal e = true ∧
        (secondMatch signal index best).closer (hvFreqDelta signal e)
          (vTotalDelta signal e) = true) ↔
        fitsSecond behind src signal e = true ∧ CloserThan signal e best := by
      rw [closer, fitsSecond_of_closerThan fits]
    simp only [Match.second, same]
    congr 1

/-! ### The best match -/

theorem firstChoice_eq_none_iff :
    firstChoice src signal entry size = none ↔
      ¬ ∃ i < size, fitsFirst src signal (entry i) = true := by
  rw [scan_eq_none_iff]
  simp

/-- The first search is not left with a dominated entry. -/
theorem undominated_of_firstChoice {i : Nat}
    (found : firstChoice src signal entry size = some i) :
    Undominated src signal entry size i := by
  intro j below fits closer
  have kept := @not_beats_of_scan _ (fun i j => ReplacesFirst signal (entry i) (entry j))
    (fun i j => CloserThan signal (entry i) (entry j)) size i _ _
    (fun i best _ stays closer => stays (Or.inl closer))
    (fun i best other _ replaces closer => ReplacesFirst.closerThan replaces closer)
    (fun i => CloserThan.not_self) found
  exact kept j below fits (Or.inl closer)

/-- The last entry of the table that is closer to the signal than every such entry before
it, among those that the second search takes at all. -/
def IsLastNear (behind : U8 → U16 × U16) (src : InputSource) (signal : Measured)
    (entry : Nat → ModeEntry) (size i : Nat) : Prop :=
  IsLastRecord (fun i => fitsSecond behind src signal (entry i) = true)
    (fun i j => CloserThan signal (entry i) (entry j)) size i

theorem isLastNear_of_secondChoice {i : Nat}
    (found : secondChoice behind src signal entry size = some i) :
    IsLastNear behind src signal entry size i :=
  isLastRecord_of_scan (fun _ _ _ first second => first.trans second) found

/-- The second search takes an entry of the source's family, unless it is one with the
YPbPr bit for another source. -/
theorem sameSource_iff_of_fitsSecond (fits : fitsSecond behind src signal e = true) :
    sameSource src e = true ↔ src.isYPbPr = true ∨ e.u8StatusFlag &&& flagYPbPr = 0 := by
  rw [fitsSecond, decide_eq_true_iff, nearSource, decide_eq_true_iff] at fits
  unfold sameSource
  split <;> simp_all

theorem bestMatch_first {i : Nat} (small : size < 256)
    (found : firstChoice src signal entry size = some i) :
    BestMatch behind src sysValPCResolution modesetting signal entry size := by
  obtain ⟨below, fits⟩ := mem_of_scan found
  have result : firstSearch src sysValPCResolution modesetting signal entry size =
      firstMatch sysValPCResolution signal (BitVec.ofNat 8 i) (entry i) := by
    rw [firstSearch_eq, found, Option.elim_some]
  have decided : (firstSearch src sysValPCResolution modesetting signal entry
      size).u8MatchIndex ≠ 0xFF := by
    rw [result]
    exact ofNat_ne_ff below small
  constructor
  · intro _
    refine ⟨i, below, by simp [result, firstMatch], decided, fits,
      undominated_of_firstChoice found, fun own => ?_⟩
    rw [matchMode, if_pos decided, result]
    simp [firstMatch, firstSetting, own, ModeSetting.ofEntry]
  · intro without
    exact absurd ⟨i, below, fits⟩ without

theorem matchMode_of_firstChoice_eq_none
    (unfit : firstChoice src signal entry size = none) :
    matchMode behind src sysValPCResolution modesetting signal entry size =
      (secondChoice behind src signal entry size).elim (0xFF, modesetting)
        fun i => (BitVec.ofNat 8 i, .ofEntry (BitVec.ofNat 8 i) (entry i)) := by
  have first : firstSearch src sysValPCResolution modesetting signal entry size =
      ⟨0xFF, hfreqTolerance + vfreqTolerance, 0xFFFF, modesetting⟩ := by
    rw [firstSearch_eq, unfit, Option.elim_none]
  rw [matchMode, first, if_neg (by simp), secondSearch_eq]
  cases secondChoice behind src signal entry size <;> simp [Match.result, secondMatch]

/-- `MDrv_SC_PCMode_MatchMode` finds the best match exactly when an entry fits the signal,
the source is a YPbPr one, or the entry of the second search is not for YPbPr. -/
theorem bestMatch_iff (small : size < 256) :
    BestMatch behind src sysValPCResolution modesetting signal entry size ↔
      (∃ i < size, fitsFirst src signal (entry i) = true) ∨ src.isYPbPr = true ∨
        ∀ i, IsLastNear behind src signal entry size i →
          (entry i).u8StatusFlag &&& flagYPbPr = 0 := by
  cases first : firstChoice src signal entry size with
  | some i =>
      obtain ⟨below, fits⟩ := mem_of_scan first
      exact iff_of_true (bestMatch_first small first) (Or.inl ⟨i, below, fits⟩)
  | none =>
      have unfit := firstChoice_eq_none_iff.mp first
      have result := @matchMode_of_firstChoice_eq_none behind src sysValPCResolution
        modesetting signal entry size first
      rw [or_iff_right unfit]
      cases second : secondChoice behind src signal entry size with
      | none =>
          rw [second, Option.elim_none] at result
          refine iff_of_true ⟨fun fits => absurd fits unfit, fun _ => Or.inl result⟩
            (Or.inr fun i last => ?_)
          exact absurd (isRecord_iff.mp last.2.1).1 (scan_eq_none_iff.mp second i last.1)
      | some i =>
          obtain ⟨below, near⟩ := mem_of_scan second
          have last := isLastNear_of_secondChoice second
          rw [second, Option.elim_some] at result
          have alone : (∀ j, IsLastNear behind src signal entry size j →
              (entry j).u8StatusFlag &&& flagYPbPr = 0) ↔
              (entry i).u8StatusFlag &&& flagYPbPr = 0 := by
            constructor
            · exact fun each => each i last
            · intro own j other
              rwa [other.unique last]
          rw [alone, ← sameSource_iff_of_fitsSecond near]
          constructor
          · intro best
            obtain empty | ⟨j, small', own, _, other⟩ := best.second unfit
            · rw [result] at empty
              exact absurd (congrArg Prod.fst empty) (ofNat_ne_ff below small)
            · rw [result] at other
              have index := congrArg (fun answer => answer.1.toNat) other
              simp only [BitVec.toNat_ofNat] at index
              have same : j = i := by omega
              rwa [same] at own
          · intro own
            refine ⟨fun fits => absurd fits unfit,
              fun _ => Or.inr ⟨i, below, own, ?_, result⟩⟩
            rw [fitsSecond, decide_eq_true_iff, nearSource, decide_eq_true_iff] at near
            exact near.1.2.1

/-- A table with one entry, 480 lines of YPbPr. -/
def table480p : Nat → ModeEntry :=
  fun _ => ⟨13, 315, 600, 0x70, 0x20, 858, 525, 10, 0x10, 0x48⟩

def signal480p : Measured := ⟨315, 600, 525, 0x00⟩

def noSetting : ModeSetting := ⟨0, 0, 0, 0, 0, 0, 0, 0⟩

theorem bestMatch_iff_oneEntry :
    BestMatch (fun _ => (0, 0)) .ypbpr1 0 noSetting signal480p table480p 1 ↔
      (∃ i < 1, fitsFirst .ypbpr1 signal480p (table480p i) = true) ∨
        InputSource.ypbpr1.isYPbPr = true ∨
          ∀ i, IsLastNear (fun _ => (0, 0)) .ypbpr1 signal480p table480p 1 i →
            (table480p i).u8StatusFlag &&& flagYPbPr = 0 :=
  bestMatch_iff (by decide)

/-- A VGA signal is answered with the entry for YPbPr. -/
theorem vga_takesYPbPr :
    ¬ BestMatch (fun _ => (0, 0)) .vga 0 noSetting signal480p table480p 1 := by
  intro best
  obtain empty | ⟨i, below, own, _⟩ := best.second (by decide)
  · have answer : (matchMode (fun _ => (0, 0)) .vga 0 noSetting signal480p table480p 1).1 = 0 := by
      decide +kernel
    rw [empty] at answer
    exact absurd answer (by decide)
  · have first : i = 0 := by omega
    rw [first] at own
    exact absurd own (by decide)

end Gp2Firmware.Scaler
