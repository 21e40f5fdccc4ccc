import Gp2Firmware.Tsp.Filter
import Gp2Firmware.Tsp.StcSync

/-!
# The PCR and its offset

`_GetAdaptField` puts the 33 bits of `program_clock_reference_base` together, the
upper one apart, adds the offset that `SetPCROfs` has stored, and shows the pair to
the host and to the STC.
-/

namespace Gp2Firmware.Tsp

/-- What `_GetAdaptField` finds in the cache. -/
def adaptField (packet : Packet) : AdaptField where
  afFlag := (cacheWord packet 0 0 >>> 28) &&& 0x3
  cacheW1 := cacheWord packet 0 1
  cacheW2 := cacheWord packet 0 2

/-- `program_clock_reference_base`: four bytes and the first bit of the next one. -/
def clockReference (packet : Packet) : Nat :=
  2 ^ 25 * (packet 6).toNat + 2 ^ 17 * (packet 7).toNat + 2 ^ 9 * (packet 8).toNat +
    2 * (packet 9).toNat + (packet 10).toNat / 2 ^ 7

/-- `SetPCROfs` -/
def setPcrOfs (shmCmd : U32) (s : StcSync) : StcSync :=
  { s with pcrOfs := shmCmd.sshiftRight 8, resetPcr := stcResetTh + 1 }

/-- A register with the upper bit and one with the lower word, read as a number. -/
def pair33 (high low : U32) : Int := 2 ^ 32 * high.toNat + low.toNat

section Base

variable {packet : Packet} {s : StcSync}

theorem toNat_append_add {v w : Nat} (high : BitVec v) (low : BitVec w) :
    (high ++ low).toNat = 2 ^ w * high.toNat + low.toNat := by
  rw [BitVec.toNat_append, Nat.shiftLeft_eq, Nat.mul_comm,
    Nat.two_pow_add_eq_or_of_lt low.isLt]

theorem toNat_pcrBit32 (packet : Packet) :
    (adaptField packet).pcrBit32.toNat = (packet 6).toNat / 2 ^ 7 := by
  have bit : (adaptField packet).pcrBit32 = ((packet 6 >>> 7).setWidth 1).setWidth 32 := by
    rw [AdaptField.pcrBit32, BitVec.ushiftRight_and_distrib]
    exact @cacheWord_field packet 0 1 2 7 1 (by decide) (by decide)
  have small := (packet 6).isLt
  rw [bit, BitVec.toNat_setWidth, BitVec.toNat_setWidth, BitVec.toNat_ushiftRight,
    Nat.shiftRight_eq_div_pow]
  omega

/-- The lower 32 bits as the firmware puts them together. -/
theorem pcrBase_eq (packet : Packet) :
    (adaptField packet).pcrBase =
      ((packet 6).setWidth 7 ++ packet 7 ++ packet 8 ++ packet 9 ++
        (packet 10 >>> 7).setWidth 1 : BitVec 32) := by
  have byte6 : (cacheWord packet 0 1 >>> 16) &&& ((0x00FF0000 : U32) >>> 16) =
      (packet 6).setWidth 32 := @cacheWord_byte packet 0 1 2 (by decide)
  have byte7 : (cacheWord packet 0 1 >>> 24) &&& ((0xFF000000 : U32) >>> 24) =
      (packet 7).setWidth 32 := @cacheWord_byte packet 0 1 3 (by decide)
  have byte8 : cacheWord packet 0 2 &&& (0x000000FF : U32) = (packet 8).setWidth 32 :=
    @cacheWord_byte packet 0 2 0 (by decide)
  have byte9 : (cacheWord packet 0 2 >>> 8) &&& ((0x0000FF00 : U32) >>> 8) =
      (packet 9).setWidth 32 := @cacheWord_byte packet 0 2 1 (by decide)
  have last : (cacheWord packet 0 2 >>> 23) &&& ((0x00800000 : U32) >>> 23) =
      ((packet 10 >>> 7).setWidth 1).setWidth 32 :=
    @cacheWord_field packet 0 2 2 7 1 (by decide) (by decide)
  have gathered : (adaptField packet).pcrBase =
      ((packet 6).setWidth 32 <<< 25) ||| ((packet 7).setWidth 32 <<< 17) |||
        ((packet 8).setWidth 32 <<< 9) ||| ((packet 9).setWidth 32 <<< 1) |||
          ((packet 10 >>> 7).setWidth 1).setWidth 32 := by
    simp only [AdaptField.pcrBase, adaptField, BitVec.ushiftRight_and_distrib]
    rw [byte6, byte7, byte8, byte9, last]
  rw [gathered]
  apply BitVec.eq_of_getLsbD_eq
  intro bit inside
  simp only [BitVec.getLsbD_or, BitVec.getLsbD_shiftLeft, BitVec.getLsbD_append,
    BitVec.getLsbD_setWidth]
  interval_cases bit <;> simp

theorem toNat_pcrBase (packet : Packet) :
    (adaptField packet).pcrBase.toNat = clockReference packet % 2 ^ 32 := by
  have small : ∀ i, (packet i).toNat < 2 ^ 8 := fun i => (packet i).isLt
  have byte6 := small 6
  have byte7 := small 7
  have byte8 := small 8
  have byte9 := small 9
  have byte10 := small 10
  rw [pcrBase_eq]
  simp only [toNat_append_add, BitVec.toNat_setWidth, BitVec.toNat_ushiftRight,
    Nat.shiftRight_eq_div_pow]
  rw [clockReference]
  omega

/-- Both parts of the base together. -/
theorem pcrBit32_add_pcrBase (packet : Packet) :
    2 ^ 32 * (adaptField packet).pcrBit32.toNat + (adaptField packet).pcrBase.toNat =
      clockReference packet := by
  have small : ∀ i, (packet i).toNat < 2 ^ 8 := fun i => (packet i).isLt
  have byte6 := small 6
  have byte7 := small 7
  have byte8 := small 8
  have byte9 := small 9
  have byte10 := small 10
  rw [toNat_pcrBit32, toNat_pcrBase, clockReference]
  omega

/-- Either branch adds the offset in two's complement. -/
theorem adjustedPcr_eq (s : StcSync) (p : AdaptField) :
    adjustedPcr s p = p.pcrBase + s.pcrOfs := by
  rw [adjustedPcr]
  split
  · rfl
  · bv_omega

end Base

/-! ### What is published -/

/-- The pair that the host is shown, and the one that the STC is set to if it is set,
are the base with the offset. -/
def PublishesSum (s : StcSync) (packet : Packet) (offset : Int) : Prop :=
  pair33 (getAdaptField s (adaptField packet)).2.mcuMsg2
      (getAdaptField s (adaptField packet)).2.mcuMsg =
    (clockReference packet + offset) % 2 ^ 33 ∧
  ((getAdaptField s (adaptField packet)).1 = true →
    pair33 (getAdaptField s (adaptField packet)).2.pcrH32
        (getAdaptField s (adaptField packet)).2.pcrMl =
      (clockReference packet + offset) % 2 ^ 33)

/-- The offset neither carries out of the lower word nor borrows from the upper bit. -/
def StaysInWord (packet : Packet) (offset : Int) : Prop :=
  0 ≤ (clockReference packet % 2 ^ 32 : Nat) + offset ∧
    (clockReference packet % 2 ^ 32 : Nat) + offset < 2 ^ 32

section Publish

variable {s : StcSync} {packet : Packet} {p : AdaptField}

/-- The check leaves the registers alone that hold a PCR. -/
theorem checkStc_registers (base : U32) (s : StcSync) :
    (checkStc base s).mcuMsg = s.mcuMsg ∧ (checkStc base s).mcuMsg2 = s.mcuMsg2 ∧
      (checkStc base s).pcrMl = s.pcrMl ∧ (checkStc base s).pcrH32 = s.pcrH32 ∧
        (checkStc base s).pcrOfs = s.pcrOfs := by
  simp only [checkStc]
  repeat' split
  all_goals exact ⟨rfl, rfl, rfl, rfl, rfl⟩

theorem takeReset_registers (s : StcSync) :
    (takeReset s).mcuMsg = s.mcuMsg ∧ (takeReset s).mcuMsg2 = s.mcuMsg2 ∧
      (takeReset s).pcrOfs = s.pcrOfs := by
  rw [takeReset]
  split
  · exact ⟨rfl, rfl, rfl⟩
  · exact ⟨rfl, rfl, rfl⟩

theorem resetStc_registers (base bit32 : U32) (s : StcSync) :
    (resetStc base bit32 s).2.mcuMsg = s.mcuMsg ∧
      (resetStc base bit32 s).2.mcuMsg2 = s.mcuMsg2 ∧
        (resetStc base bit32 s).2.pcrOfs = s.pcrOfs := by
  rw [resetStc]
  split
  · exact ⟨rfl, rfl, rfl⟩
  · exact ⟨rfl, rfl, rfl⟩

theorem resetStc_loads {base bit32 : U32} (written : (resetStc base bit32 s).1 = true) :
    (resetStc base bit32 s).2.pcrMl = base ∧ (resetStc base bit32 s).2.pcrH32 = bit32 := by
  rw [resetStc] at written ⊢
  split at written
  · rename_i due
    rw [if_pos due]
    exact ⟨rfl, rfl⟩
  · cases written

/-- The host is shown the base with the offset, and the upper bit as it came. -/
theorem getAdaptField_shows (carries : p.CarriesPcr) :
    (getAdaptField s p).2.mcuMsg = p.pcrBase + s.pcrOfs ∧
      (getAdaptField s p).2.mcuMsg2 = p.pcrBit32 := by
  have checked := checkStc_registers (adjustedPcr s p)
    (resetStc (adjustedPcr s p) p.pcrBit32
      (takeReset (tellHost (adjustedPcr s p) p.pcrBit32 s))).2
  have reset := resetStc_registers (adjustedPcr s p) p.pcrBit32
    (takeReset (tellHost (adjustedPcr s p) p.pcrBit32 s))
  have taken := takeReset_registers (tellHost (adjustedPcr s p) p.pcrBit32 s)
  rw [getAdaptField_of_carriesPcr carries, ← adjustedPcr_eq]
  exact ⟨checked.1.trans (reset.1.trans taken.1),
    checked.2.1.trans (reset.2.1.trans taken.2.1)⟩

/-- The STC is set to the same, if it is set. -/
theorem getAdaptField_loads (carries : p.CarriesPcr)
    (written : (getAdaptField s p).1 = true) :
    (getAdaptField s p).2.pcrMl = p.pcrBase + s.pcrOfs ∧
      (getAdaptField s p).2.pcrH32 = p.pcrBit32 := by
  rw [getAdaptField_of_carriesPcr carries] at written ⊢
  have checked := checkStc_registers (adjustedPcr s p)
    (resetStc (adjustedPcr s p) p.pcrBit32
      (takeReset (tellHost (adjustedPcr s p) p.pcrBit32 s))).2
  have loads := resetStc_loads written
  rw [← adjustedPcr_eq]
  exact ⟨checked.2.2.1.trans loads.1, checked.2.2.2.1.trans loads.2⟩

/-- No packet changes the offset. -/
theorem getAdaptField_pcrOfs (s : StcSync) (p : AdaptField) :
    (getAdaptField s p).2.pcrOfs = s.pcrOfs := by
  rw [getAdaptField]
  split
  · rfl
  · split
    · rfl
    · split
      · rfl
      · have checked := checkStc_registers (adjustedPcr s p)
          (resetStc (adjustedPcr s p) p.pcrBit32
            (takeReset (tellHost (adjustedPcr s p) p.pcrBit32 s))).2
        have reset := resetStc_registers (adjustedPcr s p) p.pcrBit32
          (takeReset (tellHost (adjustedPcr s p) p.pcrBit32 s))
        have taken := takeReset_registers (tellHost (adjustedPcr s p) p.pcrBit32 s)
        exact checked.2.2.2.2.trans (reset.2.2.trans taken.2.2)

theorem pcrOfs_packets (packets : List PcrPacket) (s : StcSync) :
    (packets.foldl (fun s p => (pcrStep s p).2) s).pcrOfs = s.pcrOfs := by
  induction packets generalizing s with
  | nil => rfl
  | cons p rest inductionHypothesis =>
      rw [List.foldl_cons, inductionHypothesis]
      exact getAdaptField_pcrOfs _ _

/-- The offset of a command has 24 bits with its sign. -/
theorem toInt_sshiftRight_bounds (word : U32) :
    -2 ^ 23 ≤ (word.sshiftRight 8).toInt ∧ (word.sshiftRight 8).toInt < 2 ^ 23 := by
  have low := word.le_toInt
  have high := word.toInt_lt
  rw [BitVec.toInt_sshiftRight, Int.shiftRight_eq_div_pow]
  omega

/-- The sum in the lower word and the upper bit make up the sum of the whole, if and only
if it stays in the word. -/
theorem pair33_iff (packet : Packet) {offset : U32} (low : -2 ^ 23 ≤ offset.toInt)
    (high : offset.toInt < 2 ^ 23) :
    pair33 (adaptField packet).pcrBit32 ((adaptField packet).pcrBase + offset) =
        (clockReference packet + offset.toInt) % 2 ^ 33 ↔
      StaysInWord packet offset.toInt := by
  have whole := pcrBit32_add_pcrBase packet
  have lower := toNat_pcrBase packet
  have upper := toNat_pcrBit32 packet
  have byte6 := (packet 6).isLt
  have base := (adaptField packet).pcrBase.isLt
  have word := offset.isLt
  rw [pair33, StaysInWord, BitVec.toNat_add, ← lower, ← whole]
  rw [BitVec.toInt_eq_toNat_cond] at low high ⊢
  have single : (adaptField packet).pcrBit32.toNat < 2 := by omega
  clear whole lower upper
  generalize (adaptField packet).pcrBit32.toNat = bit at single ⊢
  generalize (adaptField packet).pcrBase.toNat = lowWord at base ⊢
  by_cases positive : 2 * offset.toNat < 2 ^ 32
  · simp only [positive, if_true] at low high ⊢
    omega
  · simp only [positive, if_false] at low high ⊢
    omega

end Publish

/-- Behind `SetPCROfs` and any packets, a packet with a PCR publishes the sum of base and
offset if and only if the sum stays in the lower word. -/
theorem publishesSum_iff (s : StcSync) (shmCmd : U32) (earlier : List PcrPacket)
    (packet : Packet) (carries : (adaptField packet).CarriesPcr) :
    PublishesSum (earlier.foldl (fun s p => (pcrStep s p).2) (setPcrOfs shmCmd s)) packet
        (shmCmd.sshiftRight 8).toInt ↔
      StaysInWord packet (shmCmd.sshiftRight 8).toInt := by
  have bounds := toInt_sshiftRight_bounds shmCmd
  have offset := pcrOfs_packets earlier (setPcrOfs shmCmd s)
  have shows' := @getAdaptField_shows
    (earlier.foldl (fun s p => (pcrStep s p).2) (setPcrOfs shmCmd s)) _ carries
  have loads := @getAdaptField_loads
    (earlier.foldl (fun s p => (pcrStep s p).2) (setPcrOfs shmCmd s)) _ carries
  have sum := @pair33_iff packet _ bounds.1 bounds.2
  rw [offset] at shows' loads
  rw [PublishesSum, shows'.1, shows'.2, ← sum]
  constructor
  · exact fun both => both.1
  · refine fun same => ⟨same, fun written => ?_⟩
    rw [(loads written).1, (loads written).2]
    exact same

/-- The variables at the start. -/
def stcStart : StcSync := ⟨3, 0, 0, 0, 0, 0, 0, 0, 0, false⟩

/-- A packet with an adaptation field and a PCR. -/
def pcrPacket (pcr : List U8) : Packet :=
  fun i => ([0x47, 0x00, 0x00, 0x30, 0x07, 0x10] ++ pcr).getD i 0xFF

theorem publishesSum_iff_first :
    PublishesSum (setPcrOfs 0x1C4 stcStart) (pcrPacket [0x00, 0x00, 0x00, 0x10, 0x00, 0x00])
        ((0x1C4 : U32).sshiftRight 8).toInt ↔
      StaysInWord (pcrPacket [0x00, 0x00, 0x00, 0x10, 0x00, 0x00])
        ((0x1C4 : U32).sshiftRight 8).toInt :=
  publishesSum_iff stcStart 0x1C4 [] (pcrPacket [0x00, 0x00, 0x00, 0x10, 0x00, 0x00])
    (by decide)

/-- The base 0xFFFFFFFF with offset 1 becomes 0, and 0x100000000 with offset -1 becomes
0x1FFFFFFFF. -/
theorem carry_lost :
    ¬ PublishesSum (setPcrOfs 0x000001C4 stcStart)
        (pcrPacket [0x7F, 0xFF, 0xFF, 0xFF, 0x80, 0x00])
        ((0x000001C4 : U32).sshiftRight 8).toInt ∧
      ¬ PublishesSum (setPcrOfs 0xFFFFFFC4 stcStart)
        (pcrPacket [0x80, 0x00, 0x00, 0x00, 0x00, 0x00])
        ((0xFFFFFFC4 : U32).sshiftRight 8).toInt := by
  constructor
  · exact fun sum => absurd sum.1 (by decide)
  · exact fun sum => absurd sum.1 (by decide)

end Gp2Firmware.Tsp
