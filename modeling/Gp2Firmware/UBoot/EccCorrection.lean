import Gp2Firmware.UBoot.NandEcc
import Mathlib.Data.Fintype.Sum
import Mathlib.Data.Fintype.BigOperators

/-!
# What the ECC corrects

The bits of the code are pairs of parities over the eleven bits of a place.  A flipped bit
is put right wherever it is; two flipped bits are reported, and nothing is changed.
-/

namespace Gp2Firmware.UBoot.NandEcc

open Gp2Firmware.Lib.ParityPairs

/-- The bits of a place: of the byte's address, high and low, and of the bit's number. -/
abbrev PlaceBit := Fin 4 ⊕ Fin 4 ⊕ Fin 3

def view (d : Fin 3 → U8) : Syndrome PlaceBit
  | .inl k => pairs (d 0) k
  | .inr (.inl k) => pairs (d 1) k
  | .inr (.inr k) => pairs (d 2) k.castSucc

def placeName (address bit : Nat) : PlaceBit → Bool
  | .inl k => (BitVec.ofNat 8 address).getLsbD (7 - k)
  | .inr (.inl k) => (BitVec.ofNat 8 address).getLsbD (3 - k)
  | .inr (.inr k) => bit.testBit (2 - k)

/-- The pair that a bit of a byte of the code stands in. -/
def pairOf (bit : Fin 8) : Fin 4 :=
  ⟨(7 - bit) / 2, by omega⟩

def codeBit (byte : Fin 3) (bit : Fin 8) : PlaceBit :=
  if byte = 0 then .inl (pairOf bit)
  else if byte = 1 then .inr (.inl (pairOf bit))
  else .inr (.inr ⟨(7 - bit) / 2 % 3, Nat.mod_lt _ (by decide)⟩)

def BitFlip.flip : BitFlip → Flip PlaceBit
  | .data address bit => .place (placeName address bit)
  | .code byte bit => .parity (codeBit byte bit) (decide (bit.val % 2 = 1))

/-- The two low bits of the last byte carry nothing. -/
def BitFlip.Carries : BitFlip → Prop
  | .data _ _ => True
  | .code byte bit => byte = 2 → 2 ≤ bit.val

section Views

theorem view_xorCode (d e : Fin 3 → U8) : view (xorCode d e) = add (view d) (view e) := by
  funext k
  obtain k | k | k := k
  · exact pairs_xor (d 0) (e 0) k
  · exact pairs_xor (d 1) (e 1) k
  · exact pairs_xor (d 2) (e 2) k.castSucc

theorem view_mark {flip : BitFlip} (carries : flip.Carries) :
    view flip.mark = flip.flip.syndrome := by
  cases flip with
  | data address bit =>
      have column : ∀ bit : Fin 8, ∀ k : Fin 3,
          pairs (flipMark 0 bit 2) k.castSucc =
            (bit.val.testBit (2 - k), !bit.val.testBit (2 - k)) := by decide +kernel
      have lines := fun k => pairs_nandTransResult (~~~(BitVec.ofNat 8 address.val))
        (BitVec.ofNat 8 address.val) k
      funext k
      obtain k | k | k := k
      · refine (lines k).1.trans ?_
        rw [BitVec.getLsbD_not, decide_eq_true (by omega), Bool.true_and]
        rfl
      · refine (lines k).2.trans ?_
        rw [BitVec.getLsbD_not, decide_eq_true (by omega), Bool.true_and]
        rfl
      · exact column bit k
  | code byte bit =>
      have all : ∀ byte : Fin 3, ∀ bit : Fin 8, (byte = 2 → 2 ≤ bit.val) →
          ∀ k : PlaceBit, view (BitFlip.code byte bit).mark k =
            (BitFlip.code byte bit).flip.syndrome k := by decide +kernel
      exact funext (all byte bit carries)

theorem mark_unused {flip : BitFlip} (carries : flip.Carries) : flip.mark 2 &&& 3 = 0 := by
  cases flip with
  | data address bit =>
      have column : ∀ bit : Fin 8, flipMark 0 bit 2 &&& 3 = 0 := by decide
      exact column bit
  | code byte bit =>
      have all : ∀ byte : Fin 3, ∀ bit : Fin 8, (byte = 2 → 2 ≤ bit.val) →
          (BitFlip.code byte bit).mark 2 &&& 3 = 0 := by decide
      exact all byte bit carries

theorem flip_injective {first second : BitFlip} (firstCarries : first.Carries)
    (secondCarries : second.Carries) (same : first.flip = second.flip) : first = second := by
  cases first with
  | data address bit =>
      cases second with
      | data other otherBit =>
          have names : placeName address bit = placeName other otherBit := Flip.place.inj same
          have bits : ∀ bit other : Fin 8,
              (∀ k : Fin 3, bit.val.testBit (2 - k) = other.val.testBit (2 - k)) →
                bit = other := by decide
          have byte : BitVec.ofNat 8 address.val = BitVec.ofNat 8 other.val := by
            apply BitVec.eq_of_getLsbD_eq
            intro i bound
            by_cases low : i < 4
            · have here := congrFun names (.inr (.inl ⟨3 - i, by omega⟩))
              simp only [placeName] at here
              rwa [Nat.sub_sub_self (by omega)] at here
            · have here := congrFun names (.inl ⟨7 - i, by omega⟩)
              simp only [placeName] at here
              rwa [Nat.sub_sub_self (by omega)] at here
          have sameAddress : address = other := by
            have values := congrArg BitVec.toNat byte
            rw [BitVec.toNat_ofNat, BitVec.toNat_ofNat] at values
            omega
          rw [sameAddress, bits bit otherBit fun k => congrFun names (.inr (.inr k))]
      | code byte bit => cases same
  | code byte bit =>
      cases second with
      | data address bit => cases same
      | code other otherBit =>
          have all : ∀ byte other : Fin 3, ∀ bit otherBit : Fin 8, (byte = 2 → 2 ≤ bit.val) →
              (other = 2 → 2 ≤ otherBit.val) → codeBit byte bit = codeBit other otherBit →
                (bit.val % 2 = 1 ↔ otherBit.val % 2 = 1) → byte = other ∧ bit = otherBit := by
            decide
          obtain ⟨place, side⟩ := Flip.parity.inj same
          obtain ⟨sameByte, sameBit⟩ := all byte other bit otherBit firstCarries secondCarries
            place (by simpa only [decide_eq_decide] using side)
          rw [sameByte, sameBit]

end Views

section Corrections

/-- The pairs of a byte all differ. -/
theorem full_iff : ∀ d : U8, (d ^^^ d >>> 1) &&& 0x55 = 0x55 ↔
    ∀ k : Fin 4, (pairs d k).1 ≠ (pairs d k).2 := by
  decide +kernel

theorem full_iff_column : ∀ d : U8, (d ^^^ d >>> 1) &&& 0x54 = 0x54 ↔
    ∀ k : Fin 3, (pairs d k.castSucc).1 ≠ (pairs d k.castSucc).2 := by
  decide +kernel

theorem countFrom_eq : ∀ d : U8, countFrom 8 8 d = ∑ k : Fin 4, pairWeight (pairs d k) := by
  decide +kernel

theorem countFrom_eq_column : ∀ d : U8, d &&& 3 = 0 →
    countFrom 8 8 d = ∑ k : Fin 3, pairWeight (pairs d k.castSucc) := by
  decide +kernel

/-- All pairs of the difference differ. -/
def Full (d : Fin 3 → U8) : Prop :=
  (d 0 ^^^ d 0 >>> 1) &&& 0x55 = 0x55 ∧ (d 1 ^^^ d 1 >>> 1) &&& 0x55 = 0x55 ∧
    (d 2 ^^^ d 2 >>> 1) &&& 0x54 = 0x54

instance decidableFull (d : Fin 3 → U8) : Decidable (Full d) :=
  inferInstanceAs (Decidable (_ ∧ _ ∧ _))

def bitCount (d : Fin 3 → U8) : Nat :=
  countFrom 8 8 (d 0) + countFrom 8 8 (d 1) + countFrom 8 8 (d 2)

theorem full_iff_allDiffer (d : Fin 3 → U8) : Full d ↔ AllDiffer (view d) := by
  rw [Full, full_iff, full_iff, full_iff_column]
  constructor
  · rintro ⟨high, low, column⟩ (k | k | k)
    · exact high k
    · exact low k
    · exact column k
  · intro all
    exact ⟨fun k => all (.inl k), fun k => all (.inr (.inl k)), fun k => all (.inr (.inr k))⟩

theorem bitCount_eq_weight {d : Fin 3 → U8} (unused : d 2 &&& 3 = 0) :
    bitCount d = weight (view d) := by
  rw [bitCount, weight, countFrom_eq, countFrom_eq, countFrom_eq_column _ unused,
    Fintype.sum_sum_type, Fintype.sum_sum_type, Nat.add_assoc]
  rfl

/-- What is done with a difference of the codes. -/
def byDifference (dat : Nat → U8) (ecc d : Fin 3 → U8) : Corrected :=
  if d 0 ||| d 1 ||| d 2 = 0 then ⟨0, dat, ecc⟩
  else if Full d then
    let add := (address (d 0) (d 1)).toNat
    ⟨1, Function.update dat add (dat add ^^^ (1 : U8) <<< (bitNumber (d 2)).toNat), ecc⟩
  else if bitCount d = 1 then ⟨2, dat, xorCode ecc d⟩
  else ⟨-1, dat, ecc⟩

theorem corrected_eq_byDifference (s : Stored) :
    s.corrected = byDifference s.dat s.ecc s.difference := by
  have back : ∀ e d : U8, (e ^^^ d) ^^^ e = d := by
    intro e d
    rw [BitVec.xor_comm, ← BitVec.xor_assoc, BitVec.xor_self, BitVec.zero_xor]
  have code : ∀ x : Fin 3 → U8, ![x 0, x 1, x 2] = x := by
    intro x
    funext k
    fin_cases k <;> rfl
  rw [corrected_eq]
  simp only [nandCorrectData, code]
  simp only [xorCode, back]
  rfl

/-- A difference that only two flips make. -/
theorem byDifference_of_many {dat : Nat → U8} {ecc d : Fin 3 → U8} (many : Many (view d))
    (unused : d 2 &&& 3 = 0) : byDifference dat ecc d = ⟨-1, dat, ecc⟩ := by
  have two := many.two
  rw [← bitCount_eq_weight unused] at two
  have some : d 0 ||| d 1 ||| d 2 ≠ 0 := by
    intro zero
    obtain ⟨firstTwo, last⟩ := BitVec.or_eq_zero_iff.mp zero
    obtain ⟨first, second⟩ := BitVec.or_eq_zero_iff.mp firstTwo
    have none : bitCount d = 0 := by
      rw [bitCount, first, second, last]
      rfl
    omega
  have notFull : ¬ Full d := fun full => many.notAll ((full_iff_allDiffer d).mp full)
  rw [byDifference, if_neg some, if_neg notFull, if_neg (by omega)]

theorem byDifference_of_data (dat : Nat → U8) (ecc : Fin 3 → U8) (addressed : Fin 256)
    (bit : Fin 8) :
    byDifference (Function.update dat addressed (dat addressed ^^^ (1 : U8) <<< bit.val)) ecc
      (flipMark addressed bit) = ⟨1, dat, ecc⟩ := by
  have found : ∀ j : U8, address (flipMark j.toNat 0 0) (flipMark j.toNat 0 1) = j := by
    decide +kernel
  have number : ∀ bit : Fin 8, (bitNumber (flipMark 0 bit 2)).toNat = bit.val := by decide +kernel
  have full : Full (flipMark addressed bit) := by
    have carries : (BitFlip.data addressed bit).Carries := trivial
    have seen := view_mark carries
    rw [full_iff_allDiffer]
    intro k
    rw [show view (flipMark addressed bit) = _ from seen]
    exact allDiffer_place (placeName addressed bit) k
  have some : flipMark addressed bit 0 ||| flipMark addressed bit 1 ||| flipMark addressed bit 2 ≠
      0 := by
    intro zero
    obtain ⟨firstTwo, -⟩ := BitVec.or_eq_zero_iff.mp zero
    have first := full.1
    rw [(BitVec.or_eq_zero_iff.mp firstTwo).1] at first
    exact absurd first (by decide)
  have byte : (BitVec.ofNat 8 addressed.val).toNat = addressed.val := by
    rw [BitVec.toNat_ofNat]
    exact Nat.mod_eq_of_lt addressed.isLt
  have place : (address (flipMark addressed bit 0) (flipMark addressed bit 1)).toNat =
      addressed.val := by
    have here := found (BitVec.ofNat 8 addressed.val)
    rw [byte] at here
    exact (congrArg BitVec.toNat here).trans byte
  have bitPlace : (bitNumber (flipMark addressed bit 2)).toNat = bit.val := number bit
  rw [byDifference, if_neg some, if_pos full, place, bitPlace]
  dsimp only
  rw [Function.update_self, BitVec.xor_assoc, BitVec.xor_self, BitVec.xor_zero,
    Function.update_idem, Function.update_eq_self]

theorem byDifference_of_code (dat : Nat → U8) (ecc : Fin 3 → U8) (byte : Fin 3) (bit : Fin 8) :
    byDifference dat (xorCode ecc (BitFlip.code byte bit).mark) (BitFlip.code byte bit).mark =
      ⟨2, dat, ecc⟩ := by
  have one : ∀ byte : Fin 3, ∀ bit : Fin 8,
      let d := (BitFlip.code byte bit).mark
      d 0 ||| d 1 ||| d 2 ≠ 0 ∧ ¬ Full d ∧ bitCount d = 1 := by decide +kernel
  obtain ⟨some, notFull, count⟩ := one byte bit
  have back : xorCode (xorCode ecc (BitFlip.code byte bit).mark) (BitFlip.code byte bit).mark =
      ecc := by
    funext k
    rw [xorCode, xorCode, BitVec.xor_assoc, BitVec.xor_self, BitVec.xor_zero]
  rw [byDifference, if_neg some, if_neg notFull, if_pos count, back]

end Corrections

theorem corrected_of_none (dat : Nat → U8) :
    (encoded dat).corrected = ⟨0, dat, nandCalculateEcc dat⟩ := by
  have zero : (0 : Fin 3 → U8) 0 ||| (0 : Fin 3 → U8) 1 ||| (0 : Fin 3 → U8) 2 = 0 := rfl
  rw [corrected_eq_byDifference, difference_encoded, byDifference, if_pos zero]
  rfl

/-- One flipped bit, of the data or of the code, is put right. -/
theorem corrected_of_one (dat : Nat → U8) (flip : BitFlip) :
    (flip.apply (encoded dat)).corrected =
      match flip with
      | .data _ _ => ⟨1, dat, nandCalculateEcc dat⟩
      | .code _ _ => ⟨2, dat, nandCalculateEcc dat⟩ := by
  rw [corrected_eq_byDifference, difference_apply, difference_encoded, zero_xorCode]
  cases flip with
  | data addressed bit => exact byDifference_of_data dat _ addressed bit
  | code byte bit =>
      have stored : ((BitFlip.code byte bit).apply (encoded dat)).ecc =
          xorCode (nandCalculateEcc dat) (BitFlip.code byte bit).mark := by
        funext k
        simp only [BitFlip.apply, encoded, xorCode, BitFlip.mark]
        by_cases here : k = byte
        · subst here
          rw [Function.update_self, Function.update_self]
        · rw [Function.update_of_ne here, Function.update_of_ne here]
          exact BitVec.xor_zero.symm
      rw [stored]
      exact byDifference_of_code dat _ byte bit

/-- Two flipped bits are reported, and the data are left as they were read. -/
theorem corrected_of_two (dat : Nat → U8) {first second : BitFlip} (differ : first ≠ second)
    (firstCarries : first.Carries) (secondCarries : second.Carries) :
    let s := second.apply (first.apply (encoded dat))
    s.corrected = ⟨-1, s.dat, s.ecc⟩ := by
  intro s
  rw [corrected_eq_byDifference, difference_apply, difference_apply, difference_encoded,
    zero_xorCode]
  have flips : first.flip ≠ second.flip :=
    fun same => differ (flip_injective firstCarries secondCarries same)
  apply byDifference_of_many
  · rw [view_xorCode, view_mark firstCarries, view_mark secondCarries]
    exact many_of_two (by decide) flips
  · have zero : (0 : U8) ^^^ 0 = 0 := rfl
    rw [xorCode, and_xor, mark_unused firstCarries, mark_unused secondCarries, zero]

/-- One flipped bit of the data or of the code is put right; two are reported, and what was
read is left as it is. -/
theorem nand_correct_data_corrects (dat : Nat → U8) :
    (∀ flip : BitFlip, ∃ ret, (flip.apply (encoded dat)).corrected =
        ⟨ret, dat, nandCalculateEcc dat⟩ ∧ 0 < ret) ∧
      ∀ first second : BitFlip, first.Carries → second.Carries → first ≠ second →
        let s := second.apply (first.apply (encoded dat))
        s.corrected = ⟨-1, s.dat, s.ecc⟩ := by
  constructor
  · intro flip
    rw [corrected_of_one]
    cases flip with
    | data address bit => exact ⟨1, rfl, by decide⟩
    | code byte bit => exact ⟨2, rfl, by decide⟩
  · intro first second firstCarries secondCarries differ
    exact corrected_of_two dat differ firstCarries secondCarries

/-- A bit of the last byte and a bit of the code. -/
theorem nand_correct_data_corrects_last :
    let s := (BitFlip.code 2 7).apply ((BitFlip.data 255 3).apply (encoded (BitVec.ofNat 8)))
    s.corrected = ⟨-1, s.dat, s.ecc⟩ :=
  (nand_correct_data_corrects (BitVec.ofNat 8)).2 _ _ trivial (fun _ => by decide) (by decide)

end Gp2Firmware.UBoot.NandEcc
