import Gp2Firmware.Tsp.DeferredInterrupts

/-!
# Keeping the STC on the PCR

`_GetAdaptField` with `PCR_STC_SYNC2_ENABLE`.  The STC is a counter of the
hardware that runs on between the packets; the firmware sets it to a PCR when
it is told to, or when two checks in a row find the two far apart.
-/

namespace Gp2Firmware.Tsp

/-- `STC_SYNTH_DEF` -/
def stcSynthDef : U32 := 0x0fe8d800

/-- `STC_DIFF_CHECK` -/
def stcDiffCheck : U32 := 0x4000

/-- `STC_DIFF_LO` -/
def stcDiffLo : U32 := 0x2

/-- `STC_DIFF_HI` -/
def stcDiffHi : U32 := 0x1000

/-- `STC_ADJ_A` -/
def stcAdjA : U32 := 8

/-- `STC_ADJ_B` -/
def stcAdjB : U32 := 64

/-- `STC_RESET_TH` -/
def stcResetTh : BitVec 8 := 2

/-- The variables behind the STC, the registers `Pcr.ML`, `Pcr.H32`, `MCU_MSG`,
`MCU_MSG2` and `REG_SYNTH`, and the bit `TSP_SECFLT_PARAM_PCRRST` of the filter.
`pcrOfs` is in two's complement. -/
structure StcSync where
  resetPcr : BitVec 8
  prevStcBase : U32
  prevSynth : U32
  pcrOfs : U32
  pcrMl : U32
  pcrH32 : U32
  synth : U32
  mcuMsg : U32
  mcuMsg2 : U32
  pcrRst : Bool

/-- The part of a packet that `_GetAdaptField` looks at: the adaptation field
flags and the cached words 1 and 2. -/
structure AdaptField where
  afFlag : U32
  cacheW1 : U32
  cacheW2 : U32

/-- The packet has an adaptation field with a PCR. -/
def AdaptField.CarriesPcr (p : AdaptField) : Prop :=
  p.afFlag &&& 0x2 ≠ 0 ∧ ¬ (p.cacheW1 &&& 0xFF) + 1 ≤ 1 ∧
    p.cacheW1 &&& 0x00001000 ≠ 0

instance (p : AdaptField) : Decidable p.CarriesPcr :=
  inferInstanceAs (Decidable (_ ∧ _ ∧ _))

/-- `u32PcrBit32` -/
def AdaptField.pcrBit32 (p : AdaptField) : U32 :=
  (p.cacheW1 &&& 0x00800000) >>> 23

/-- `u32PcrBase` as it is put together from the cache. -/
def AdaptField.pcrBase (p : AdaptField) : U32 :=
  (((p.cacheW1 &&& 0x00FF0000) >>> 16) <<< 25) |||
    (((p.cacheW1 &&& 0xFF000000) >>> 24) <<< 17) |||
    ((p.cacheW2 &&& 0x000000FF) <<< 9) |||
    (((p.cacheW2 &&& 0x0000FF00) >>> 8) <<< 1) |||
    ((p.cacheW2 &&& 0x00800000) >>> 23)

/-- `u32PcrBase` after `_pcr_ofs` has been added. -/
def adjustedPcr (s : StcSync) (p : AdaptField) : U32 :=
  if s.pcrOfs.msb = false then p.pcrBase + s.pcrOfs
  else p.pcrBase - (-s.pcrOfs)

/-- The check for a reset request. -/
def takeReset (s : StcSync) : StcSync :=
  if s.pcrRst then { s with resetPcr := stcResetTh + 1, pcrRst := false } else s

/-- The STC is set to the PCR. -/
def setStc (base bit32 : U32) (s : StcSync) : StcSync :=
  let synth := if s.resetPcr = stcResetTh + 1 then stcSynthDef else s.synth
  { s with
    synth := synth
    pcrMl := base
    pcrH32 := bit32
    resetPcr := 0
    prevStcBase := base
    prevSynth := synth }

/-- The STC is set if that has been asked for; the flag says whether it was. -/
def resetStc (base bit32 : U32) (s : StcSync) : Bool × StcSync :=
  if stcResetTh ≤ s.resetPcr then (true, setStc base bit32 s) else (false, s)

/-- The PCR is shown to the host. -/
def tellHost (base bit32 : U32) (s : StcSync) : StcSync :=
  { s with mcuMsg := base, mcuMsg2 := bit32 }

/-- The periodic comparison of STC and PCR. -/
def checkStc (base : U32) (s : StcSync) : StcSync :=
  if stcDiffCheck < s.pcrMl - s.prevStcBase then
    let s := { s with prevStcBase := s.pcrMl }
    if base < s.prevStcBase then
      let dif := s.prevStcBase - base
      if dif ≤ stcDiffLo then { s with resetPcr := 0 }
      else if dif < stcDiffHi then
        let prevSynth := s.prevSynth + dif * stcAdjA
        { s with
          prevSynth := prevSynth
          synth := prevSynth + dif * stcAdjB
          resetPcr := 0 }
      else { s with resetPcr := s.resetPcr + 1 }
    else
      let dif := base - s.prevStcBase
      if dif ≤ stcDiffLo then { s with resetPcr := 0 }
      else if dif < stcDiffHi then
        let prevSynth := s.prevSynth - dif * stcAdjA
        { s with
          prevSynth := prevSynth
          synth := prevSynth - dif * stcAdjB
          resetPcr := 0 }
      else { s with resetPcr := s.resetPcr + 1 }
  else s

/-- `_GetAdaptField`; the flag says whether `Pcr.ML` and `Pcr.H32` were
written. -/
def getAdaptField (s : StcSync) (p : AdaptField) : Bool × StcSync :=
  if p.afFlag &&& 0x2 = 0 then (false, s)
  else if (p.cacheW1 &&& 0xFF) + 1 ≤ 1 then (false, s)
  else if p.cacheW1 &&& 0x00001000 = 0 then (false, s)
  else
    let base := adjustedPcr s p
    let reset := resetStc base p.pcrBit32
      (takeReset (tellHost base p.pcrBit32 s))
    (reset.1, checkStc base reset.2)

/-- The STC runs on for some ticks of its clock. -/
def StcSync.elapse (ticks : Nat) (s : StcSync) : StcSync :=
  { s with
    pcrMl := s.pcrMl + BitVec.ofNat 32 ticks
    pcrH32 := s.pcrH32 + BitVec.ofNat 32 ((s.pcrMl.toNat + ticks) / 2 ^ 32) &&& 1 }

/-- A packet, and the number of ticks since the packet before it. -/
structure PcrPacket where
  ticks : Nat
  field : AdaptField

/-- One packet after some ticks. -/
def pcrStep (s : StcSync) (p : PcrPacket) : Bool × StcSync :=
  getAdaptField (s.elapse p.ticks) p.field

/-- The number of times that a run of packets sets the STC. -/
def stcWrites : StcSync → List PcrPacket → Nat
  | _, [] => 0
  | s, p :: rest =>
      (if (pcrStep s p).1 then 1 else 0) + stcWrites (pcrStep s p).2 rest

/-- Two counters are less than `STC_DIFF_HI` apart, modulo the wrap. -/
def Close (pcr stc : U32) : Prop := (pcr - stc).toInt.natAbs < stcDiffHi.toNat

instance (pcr stc : U32) : Decidable (Close pcr stc) :=
  inferInstanceAs (Decidable (_ < _))

/-- A packet with a PCR, less than 2 ^ 31 ticks after the one before it, whose
PCR is close to the STC. -/
def Tracked (s : StcSync) (p : PcrPacket) : Prop :=
  p.field.CarriesPcr ∧ p.ticks < 2 ^ 31 ∧
    Close (adjustedPcr s p.field) (s.elapse p.ticks).pcrMl

/-- All packets of a run are such packets. -/
def AllTracked : StcSync → List PcrPacket → Prop
  | _, [] => True
  | s, p :: rest => Tracked s p ∧ AllTracked (pcrStep s p).2 rest

/-! ### Near the wrap -/

/-- A counter that is about to wrap, or has just done so. -/
def NearWrap (stc : U32) : Prop :=
  stc.toNat < 0x1000 ∨ 2 ^ 32 - 0x1000 < stc.toNat

theorem close_iff (pcr stc : U32) :
    Close pcr stc ↔
      (pcr - stc).toNat < 0x1000 ∨ 2 ^ 32 - 0x1000 < (pcr - stc).toNat := by
  have small := (pcr - stc).isLt
  rw [Close, BitVec.toInt_eq_toNat_cond, show stcDiffHi.toNat = 0x1000 from rfl]
  split <;> omega

/-- The distance as the firmware computes it, without the wrap. -/
def stcDif (base stc : U32) : U32 := if base < stc then stc - base else base - stc

/-- Close counters look far apart only across the wrap. -/
theorem nearWrap_of_far {pcr stc : U32} (close : Close pcr stc)
    (far : ¬ stcDif pcr stc < stcDiffHi) : NearWrap stc := by
  rw [close_iff] at close
  rw [BitVec.lt_def, stcDif, show stcDiffHi.toNat = 0x1000 from rfl] at far
  have pcrLt := pcr.isLt
  have stcLt := stc.isLt
  rw [NearWrap]
  split at far
  · rename_i less
    rw [BitVec.lt_def] at less
    rw [BitVec.toNat_sub] at close far
    omega
  · rename_i less
    rw [BitVec.lt_def] at less
    rw [BitVec.toNat_sub] at close far
    omega

/-- A counter that is near the wrap is not so again soon after. -/
theorem not_nearWrap_of_elapsed {first second : U32} (near : NearWrap first)
    (after : 0x4000 < (second - first).toNat)
    (within : (second - first).toNat ≤ 0x4000 + 2 ^ 31) : ¬ NearWrap second := by
  have firstLt := first.isLt
  have secondLt := second.isLt
  rw [BitVec.toNat_sub] at after within
  rw [NearWrap] at near ⊢
  omega

/-! ### The check -/

theorem checkStc_of_recent {s : StcSync} (base : U32)
    (recent : (s.pcrMl - s.prevStcBase).toNat ≤ 0x4000) : checkStc base s = s := by
  have early : ¬ stcDiffCheck < s.pcrMl - s.prevStcBase := by
    rw [BitVec.lt_def, show stcDiffCheck.toNat = 0x4000 from rfl]
    omega
  rw [checkStc, if_neg early]

/-- A check remembers the STC, and counts if it looks far from the PCR. -/
theorem checkStc_of_due {s : StcSync} (base : U32)
    (due : 0x4000 < (s.pcrMl - s.prevStcBase).toNat) :
    (checkStc base s).pcrMl = s.pcrMl ∧
      (checkStc base s).prevStcBase = s.pcrMl ∧
      (checkStc base s).pcrRst = s.pcrRst ∧
      (checkStc base s).resetPcr =
        if stcDif base s.pcrMl < stcDiffHi then 0 else s.resetPcr + 1 := by
  have late : stcDiffCheck < s.pcrMl - s.prevStcBase := by
    rw [BitVec.lt_def, show stcDiffCheck.toNat = 0x4000 from rfl]
    exact due
  have low : ∀ {dif : U32}, dif ≤ stcDiffLo → dif < stcDiffHi := by
    intro dif small
    rw [BitVec.le_def, show stcDiffLo.toNat = 2 from rfl] at small
    rw [BitVec.lt_def, show stcDiffHi.toNat = 0x1000 from rfl]
    omega
  rw [checkStc, if_pos late]
  by_cases less : base < s.pcrMl
  · simp only [less, if_true, stcDif]
    by_cases small : s.pcrMl - base ≤ stcDiffLo
    · simp only [small, low small, if_true, and_self]
    · by_cases near : s.pcrMl - base < stcDiffHi
      · simp only [small, near, if_true, if_false, and_self]
      · simp only [small, near, if_false, and_self]
  · simp only [less, if_false, stcDif]
    by_cases small : base - s.pcrMl ≤ stcDiffLo
    · simp only [small, low small, if_true, and_self]
    · by_cases near : base - s.pcrMl < stcDiffHi
      · simp only [small, near, if_true, if_false, and_self]
      · simp only [small, near, if_false, and_self]

/-- What the packets keep: a check has failed at most once, it did so near the
wrap, and the last check is not long ago. -/
structure Locked (s : StcSync) : Prop where
  resetPcr_le : s.resetPcr = 0 ∨ s.resetPcr = 1 ∧ NearWrap s.prevStcBase
  recent : (s.pcrMl - s.prevStcBase).toNat ≤ 0x4000
  noRequest : s.pcrRst = false

theorem getAdaptField_of_carriesPcr {s : StcSync} {p : AdaptField}
    (carries : p.CarriesPcr) :
    getAdaptField s p =
      ((resetStc (adjustedPcr s p) p.pcrBit32
          (takeReset (tellHost (adjustedPcr s p) p.pcrBit32 s))).1,
        checkStc (adjustedPcr s p) (resetStc (adjustedPcr s p) p.pcrBit32
          (takeReset (tellHost (adjustedPcr s p) p.pcrBit32 s))).2) := by
  rw [getAdaptField, if_neg carries.1, if_neg carries.2.1, if_neg carries.2.2]

theorem takeReset_pcrRst (s : StcSync) : (takeReset s).pcrRst = false := by
  rw [takeReset]
  cases request : s.pcrRst with
  | false => exact request
  | true => rfl

theorem locked_setStc {s : StcSync} (noRequest : s.pcrRst = false)
    (base bit32 : U32) : Locked (setStc base bit32 s) where
  resetPcr_le := Or.inl rfl
  recent := by
    change (base - base).toNat ≤ 0x4000
    rw [BitVec.sub_self]
    decide
  noRequest := noRequest

/-- Setting the STC locks it. -/
theorem locked_of_written {s : StcSync} {p : AdaptField}
    (written : (getAdaptField s p).1 = true) : Locked (getAdaptField s p).2 := by
  by_cases carries : p.CarriesPcr
  · rw [getAdaptField_of_carriesPcr carries, resetStc] at written
    rw [getAdaptField_of_carriesPcr carries, resetStc]
    split at written
    · rename_i due
      have locked := locked_setStc
        (takeReset_pcrRst (tellHost (adjustedPcr s p) p.pcrBit32 s))
        (adjustedPcr s p) p.pcrBit32
      rw [if_pos due]
      simp only
      rw [checkStc_of_recent _ locked.recent]
      exact locked
    · cases written
  · have skipped : (getAdaptField s p).1 = false := by
      rw [getAdaptField]
      split
      · rfl
      · rename_i flag
        split
        · rfl
        · rename_i length
          split
          · rfl
          · rename_i pcr
            exact absurd ⟨flag, length, pcr⟩ carries
    rw [skipped] at written
    cases written

/-- A tracked packet leaves the STC alone and keeps it locked. -/
theorem Locked.step {s : StcSync} {p : PcrPacket}
    (locked : Locked s) (tracked : Tracked s p) :
    (pcrStep s p).1 = false ∧ Locked (pcrStep s p).2 := by
  obtain ⟨carries, soon, close⟩ := tracked
  have recent := locked.recent
  -- the elapsed time does not wrap on top of the time since the last check
  have since : ((s.elapse p.ticks).pcrMl - s.prevStcBase).toNat =
      (s.pcrMl - s.prevStcBase).toNat + p.ticks := by
    change (s.pcrMl + BitVec.ofNat 32 p.ticks - s.prevStcBase).toNat = _
    have mlLt := s.pcrMl.isLt
    have prevLt := s.prevStcBase.isLt
    rw [BitVec.toNat_sub] at recent ⊢
    rw [BitVec.toNat_add, BitVec.toNat_ofNat, BitVec.toNat_sub]
    omega
  rw [pcrStep, getAdaptField_of_carriesPcr carries]
  generalize base : adjustedPcr (s.elapse p.ticks) p.field = pcr
  have reset : (tellHost pcr p.field.pcrBit32 (s.elapse p.ticks)).resetPcr =
      s.resetPcr := rfl
  have prev : (tellHost pcr p.field.pcrBit32 (s.elapse p.ticks)).prevStcBase =
      s.prevStcBase := rfl
  have stc : (tellHost pcr p.field.pcrBit32 (s.elapse p.ticks)).pcrMl =
      (s.elapse p.ticks).pcrMl := rfl
  have request : (tellHost pcr p.field.pcrBit32 (s.elapse p.ticks)).pcrRst =
      false := locked.noRequest
  generalize tellHost pcr p.field.pcrBit32 (s.elapse p.ticks) = t
    at reset prev stc request ⊢
  have taken : takeReset t = t := by
    rw [takeReset, request]
    rfl
  have few : ¬ stcResetTh ≤ t.resetPcr := by
    rw [reset]
    cases locked.resetPcr_le with
    | inl zero => rw [zero]; decide
    | inr one => rw [one.1]; decide
  rw [taken, resetStc, if_neg few]
  refine ⟨rfl, ?_⟩
  simp only
  rw [← prev, ← stc] at since
  by_cases due : 0x4000 < (t.pcrMl - t.prevStcBase).toNat
  · obtain ⟨sameStc, sameBase, sameRequest, count⟩ := checkStc_of_due
      pcr due
    refine ⟨?_, ?_, sameRequest.trans request⟩
    · rw [count, sameBase]
      split
      · exact Or.inl rfl
      · rename_i far
        rw [← stc] at close
        have near := nearWrap_of_far (base ▸ close) far
        refine Or.inr ⟨?_, near⟩
        rw [reset]
        cases locked.resetPcr_le with
        | inl zero => rw [zero]; decide
        | inr one =>
            -- the check before this one failed near the wrap as well
            apply absurd near
            apply not_nearWrap_of_elapsed one.2
            · rw [← prev]
              exact due
            · rw [← prev, since, prev]
              omega
    · rw [sameStc, sameBase, BitVec.sub_self]
      decide
  · rw [checkStc_of_recent _ (Nat.le_of_not_lt due)]
    refine ⟨?_, Nat.le_of_not_lt due, request⟩
    rw [reset, prev]
    exact locked.resetPcr_le

theorem Locked.stcWrites_eq_zero {s : StcSync} (locked : Locked s)
    {packets : List PcrPacket} (tracked : AllTracked s packets) :
    stcWrites s packets = 0 := by
  induction packets generalizing s with
  | nil => rfl
  | cons p rest inductionHypothesis =>
      obtain ⟨unwritten, next⟩ := locked.step tracked.1
      rw [stcWrites, unwritten, if_neg Bool.false_ne_true, Nat.zero_add]
      exact inductionHypothesis next tracked.2

/-- Once `_GetAdaptField` has set the STC to a PCR, packets whose PCR stays
close to it never make it do so again. -/
theorem stc_not_reset (s : StcSync) (p : AdaptField)
    (set : (getAdaptField s p).1 = true) (packets : List PcrPacket)
    (tracked : AllTracked (getAdaptField s p).2 packets) :
    stcWrites (getAdaptField s p).2 packets = 0 :=
  (locked_of_written set).stcWrites_eq_zero tracked

/-- The STC is set 0x5100 ticks before the wrap; at the next packet it has
wrapped and the PCR has not, at the last one both have. -/
theorem stc_not_reset_atWrap :
    stcWrites
      (getAdaptField
        ⟨3, 0, 0, 0, 0, 0, 0, 0, 0, false⟩ ⟨2, 0xFF7F1007, 0x000080D7⟩).2
      [⟨0x5180, 2, 0xFF7F1007, 0x000080FF⟩,
        ⟨0x5000, 2, 0x00001007, 0x00004028⟩] = 0 :=
  stc_not_reset _ _ (by decide) _
    ⟨⟨by decide, by decide, by decide⟩, ⟨by decide, by decide, by decide⟩,
      trivial⟩

end Gp2Firmware.Tsp
