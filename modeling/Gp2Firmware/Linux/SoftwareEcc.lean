import Gp2Firmware.Linux.NandEcc

/-!
# Pages with software ECC

`nand_write_page_swecc` and `nand_read_page_swecc` with what `nand_scan_tail` sets up for
`NAND_ECC_SOFT`: steps of 256 bytes with a code of three bytes each, the bytes of the codes
at the places in the spare area that the layout names.  A page that is read with a flipped
bit in some steps and with two in others reads as it was written in the first ones; the
others are counted as failed.
-/

namespace Gp2Firmware.Linux.SoftwareEcc

open scoped Gp2Firmware.UBoot.NandEcc
open Gp2Firmware.UBoot.NandEcc (U8 BitFlip Stored encoded columnParity_congr)
open Gp2Firmware.Linux.NandEcc

/-- `chip->ecc` -/
structure EccControl where
  steps : Nat
  eccpos : Nat → Nat

def EccControl.total (ecc : EccControl) : Nat :=
  ecc.steps * 3

/-- `mtd->ecc_stats` -/
structure EccStats where
  failed : BitVec 32
  corrected : BitVec 32

def EccStats.count (s : EccStats) (stat : Int) : EccStats :=
  if stat < 0 then { s with failed := s.failed + 1 }
  else { s with corrected := s.corrected + BitVec.ofInt 32 stat }

def putCode (buffer : Nat → U8) (i : Nat) (code : Fin 3 → U8) : Nat → U8 :=
  Function.update (Function.update (Function.update buffer i (code 0)) (i + 1) (code 1)) (i + 2)
    (code 2)

def codeAt (buffer : Nat → U8) (i : Nat) : Fin 3 → U8 :=
  fun k => buffer (i + k)

/-- `for (i = 0; eccsteps; eccsteps--, i += eccbytes, p += eccsize)`, with `ecc_calc`. -/
def calculateLoop (buf : Nat → U8) : Nat → Nat → Nat → (Nat → U8) → (Nat → U8)
  | 0, _, _, eccCalc => eccCalc
  | eccsteps + 1, i, p, eccCalc =>
      calculateLoop buf eccsteps (i + 3) (p + 256)
        (putCode eccCalc i (nandCalculateEcc fun j => buf (p + j)))

/-- The page that goes to the chip, with its spare area. -/
structure RawPage where
  data : Nat → U8
  oob : Nat → U8

section Code

variable (ecc : EccControl) (ecccalc ecccode : Nat → U8)

def nandWritePageSwecc (oobPoi buf : Nat → U8) : RawPage :=
  let eccCalc := calculateLoop buf ecc.steps 0 0 ecccalc
  ⟨buf, (List.range ecc.total).foldl
    (fun oobPoi i => Function.update oobPoi (ecc.eccpos i) (eccCalc i)) oobPoi⟩

/-- The correction of one step after the other, in the buffer. -/
def correctLoop (eccCode eccCalc : Nat → U8) :
    Nat → Nat → Nat → (Nat → U8) × EccStats → (Nat → U8) × EccStats
  | 0, _, _, s => s
  | eccsteps + 1, i, p, (buf, stats) =>
      let (stat, dat) :=
        nandCorrectData (fun j => buf (p + j)) (codeAt eccCode i) (codeAt eccCalc i)
      correctLoop eccCode eccCalc eccsteps (i + 3) (p + 256)
        (fun j => if p ≤ j then dat (j - p) else buf j, stats.count stat)

def nandReadPageSwecc (raw : RawPage) (stats : EccStats) : (Nat → U8) × EccStats :=
  let eccCalc := calculateLoop raw.data ecc.steps 0 0 ecccalc
  let eccCode := (List.range ecc.total).foldl
    (fun eccCode i => Function.update eccCode i (raw.oob (ecc.eccpos i))) ecccode
  correctLoop eccCode eccCalc ecc.steps 0 0 (raw.data, stats)

end Code

/-! ### Steps -/

section Steps

variable {buf eccCalc : Nat → U8}

theorem codeAt_putCode_self (buffer : Nat → U8) (i : Nat) (code : Fin 3 → U8) :
    codeAt (putCode buffer i code) i = code := by
  have first : i ≠ i + 2 := by omega
  have second : i ≠ i + 1 := by omega
  have third : i + 1 ≠ i + 2 := by omega
  funext k
  fin_cases k
  · exact (Function.update_of_ne first _ _).trans
      ((Function.update_of_ne second _ _).trans (Function.update_self _ _ _))
  · exact (Function.update_of_ne third _ _).trans (Function.update_self _ _ _)
  · exact Function.update_self _ _ _

theorem putCode_of_apart {buffer : Nat → U8} {i j : Nat} {code : Fin 3 → U8}
    (apart : j < i ∨ i + 3 ≤ j) : putCode buffer i code j = buffer j := by
  rw [putCode, Function.update_of_ne (by omega), Function.update_of_ne (by omega),
    Function.update_of_ne (by omega)]

theorem calculateLoop_of_lt {steps i p j : Nat} (before : j < i) :
    calculateLoop buf steps i p eccCalc j = eccCalc j := by
  induction steps generalizing i p eccCalc with
  | zero => rfl
  | succ steps inductionHypothesis =>
      rw [calculateLoop, inductionHypothesis (by omega), putCode_of_apart (.inl before)]

/-- The code of each step. -/
theorem codeAt_calculateLoop {steps i p s : Nat} (inside : s < steps) :
    codeAt (calculateLoop buf steps i p eccCalc) (i + 3 * s) =
      nandCalculateEcc fun j => buf (p + 256 * s + j) := by
  induction steps generalizing i p eccCalc s with
  | zero => omega
  | succ steps inductionHypothesis =>
      rw [calculateLoop]
      cases s with
      | zero =>
          have kept : codeAt (calculateLoop buf steps (i + 3) (p + 256)
              (putCode eccCalc i (nandCalculateEcc fun j => buf (p + j)))) i =
              codeAt (putCode eccCalc i (nandCalculateEcc fun j => buf (p + j))) i := by
            funext k
            exact calculateLoop_of_lt (by omega)
          exact kept.trans (codeAt_putCode_self _ _ _)
      | succ s =>
          have place : i + 3 * (s + 1) = i + 3 + 3 * s := by omega
          have data : ∀ j, p + 256 * (s + 1) + j = p + 256 + 256 * s + j := fun j => by omega
          simp only [place, data]
          exact inductionHypothesis (Nat.lt_of_succ_lt_succ inside)

/-- Values are put at places that are apart. -/
theorem foldl_update {places : Nat → Nat} {values memory : Nat → U8} {count : Nat}
    (apart : ∀ i < count, ∀ j < count, places i = places j → i = j) {i : Nat}
    (inside : i < count) :
    (List.range count).foldl
      (fun memory i => Function.update memory (places i) (values i)) memory (places i) =
      values i := by
  induction count with
  | zero => omega
  | succ count inductionHypothesis =>
      rw [List.range_succ, List.foldl_append, List.foldl_cons, List.foldl_nil]
      by_cases last : i = count
      · rw [last, Function.update_self]
      · rw [Function.update_of_ne fun same => last (apart i inside count (by omega) same)]
        exact inductionHypothesis
          (fun i before j beforeToo => apart i (by omega) j (by omega)) (by omega)

variable (ecc : EccControl)

/-- What a page holds of one step. -/
def stepOf (page : RawPage) (s : Nat) : Stored :=
  ⟨fun j => page.data (256 * s + j), fun k => page.oob (ecc.eccpos (3 * s + k))⟩

/-- The layout has a place for each byte of the codes. -/
def EccControl.Apart : Prop :=
  ∀ i < ecc.total, ∀ j < ecc.total, ecc.eccpos i = ecc.eccpos j → i = j

variable {ecc}

theorem EccControl.place_lt {s : Nat} (inside : s < ecc.steps) (k : Fin 3) :
    3 * s + k < ecc.total := by
  have bound := k.isLt
  rw [EccControl.total]
  omega

theorem stepOf_written (apart : ecc.Apart) (ecccalc oobPoi : Nat → U8) {s : Nat}
    (inside : s < ecc.steps) :
    stepOf ecc (nandWritePageSwecc ecc ecccalc oobPoi buf) s =
      encoded fun j => buf (256 * s + j) := by
  have code := @codeAt_calculateLoop buf ecccalc ecc.steps 0 0 s inside
  simp only [Nat.zero_add] at code
  rw [stepOf, nandWritePageSwecc, encoded, ← nandCalculateEcc_eq, ← code]
  refine congrArg (Stored.mk _) (funext fun k => ?_)
  exact foldl_update apart (EccControl.place_lt inside k)

end Steps

/-! ### Correction of a page -/

section Correction

variable {dat other : Nat → U8} {readEcc calcEcc : Fin 3 → U8}

theorem byteOffs_lt (s0 s1 : U8) : (byteOffs s0 s1).toNat < 256 := by
  rw [byteOffs_eq, BitVec.toNat_setWidth]
  exact Nat.lt_of_le_of_lt (Nat.mod_le _ _) (UBoot.NandEcc.address s1 s0).isLt

/-- Only the bytes of the step count, and only they are changed. -/
theorem nandCorrectData_local :
    ((∀ j < 256, dat j = other j) →
      (nandCorrectData dat readEcc calcEcc).1 = (nandCorrectData other readEcc calcEcc).1 ∧
        ∀ j < 256, (nandCorrectData dat readEcc calcEcc).2 j =
          (nandCorrectData other readEcc calcEcc).2 j) ∧
      ∀ j, 256 ≤ j → (nandCorrectData dat readEcc calcEcc).2 j = dat j := by
  have small := byteOffs_lt (calcEcc 1 ^^^ readEcc 1) (calcEcc 0 ^^^ readEcc 0)
  rw [nandCorrectData, nandCorrectData]
  generalize (byteOffs (calcEcc 1 ^^^ readEcc 1) (calcEcc 0 ^^^ readEcc 0)).toNat = offset at small
  dsimp only
  split
  · exact ⟨fun same => ⟨rfl, same⟩, fun _ _ => rfl⟩
  split
  · refine ⟨fun same => ⟨rfl, fun j inside => ?_⟩, fun j outside => ?_⟩
    · dsimp only
      by_cases here : j = offset
      · rw [here, Function.update_self, Function.update_self, same offset small]
      · rw [Function.update_of_ne here, Function.update_of_ne here, same j inside]
    · exact Function.update_of_ne (by omega) _ _
  split
  · exact ⟨fun same => ⟨rfl, same⟩, fun _ _ => rfl⟩
  · exact ⟨fun same => ⟨rfl, same⟩, fun _ _ => rfl⟩

theorem nandCalculateEcc_congr (same : ∀ j < 256, dat j = other j) :
    nandCalculateEcc dat = nandCalculateEcc other := by
  rw [nandCalculateEcc, columnParity_congr same, nandCalculateEcc]

/-- What is done with a step of a page. -/
def outcome (data eccCode eccCalc : Nat → U8) (s : Nat) : Int × (Nat → U8) :=
  nandCorrectData (fun j => data (256 * s + j)) (codeAt eccCode (3 * s)) (codeAt eccCalc (3 * s))

/-- The steps are corrected apart from each other. -/
theorem correctLoop_eq {data eccCode eccCalc buf : Nat → U8} {first steps : Nat}
    {stats : EccStats} (same : ∀ j, 256 * first ≤ j → buf j = data j) :
    let out := correctLoop eccCode eccCalc steps (3 * first) (256 * first) (buf, stats)
    out.2 = (List.range' first steps).foldl
        (fun stats s => stats.count (outcome data eccCode eccCalc s).1) stats ∧
      (∀ j < 256 * first, out.1 j = buf j) ∧
      ∀ s, first ≤ s → s < first + steps → ∀ j < 256,
        out.1 (256 * s + j) = (outcome data eccCode eccCalc s).2 j := by
  induction steps generalizing first buf stats with
  | zero => exact ⟨rfl, fun _ _ => rfl, fun s atLeast below => by omega⟩
  | succ steps inductionHypothesis =>
      have here : (fun j => buf (256 * first + j)) = fun j => data (256 * first + j) :=
        funext fun j => same _ (Nat.le_add_right _ j)
      have frame := (@nandCorrectData_local (fun j => data (256 * first + j))
        (fun j => data (256 * first + j)) (codeAt eccCode (3 * first))
        (codeAt eccCalc (3 * first))).2
      rw [correctLoop, here, ← outcome, List.range'_succ, List.foldl_cons]
      let later : Nat → U8 := fun j =>
        if 256 * first ≤ j then (outcome data eccCode eccCalc first).2 (j - 256 * first) else buf j
      have laterSame : ∀ j, 256 * (first + 1) ≤ j → later j = data j := by
        intro j atLeast
        have place : 256 * first + (j - 256 * first) = j := Nat.add_sub_cancel' (by omega)
        refine (if_pos (by omega)).trans ((frame (j - 256 * first) (by omega)).trans ?_)
        rw [place]
      obtain ⟨counted, below, above⟩ := @inductionHypothesis later (first + 1)
        (stats.count (outcome data eccCode eccCalc first).1) laterSame
      refine ⟨counted, fun j before => ?_, fun s atLeast inside j small => ?_⟩
      · exact (below j (by omega)).trans (if_neg (by omega))
      · obtain rfl | above' := Nat.eq_or_lt_of_le atLeast
        · refine (below (256 * first + j) (by omega)).trans ((if_pos (by omega)).trans ?_)
          rw [Nat.add_sub_cancel_left]
        · exact above s above' (by omega) j small

end Correction

/-! ### Errors -/

/-- What happens to a step between writing and reading. -/
inductive StepError
  | none
  | one (flip : BitFlip)
  | two (first second : BitFlip)

def StepError.apply (s : Stored) : StepError → Stored
  | .none => s
  | .one flip => flip.apply s
  | .two first second => second.apply (first.apply s)

/-- Two flips are of different bits, and not of the bits that carry nothing. -/
def StepError.Valid : StepError → Prop
  | .none => True
  | .one _ => True
  | .two first second => first ≠ second ∧ first.Carries ∧ second.Carries

def StepError.isOne : StepError → Bool
  | .one _ => true
  | _ => false

def StepError.isTwo : StepError → Bool
  | .two _ _ => true
  | _ => false

def StepError.stat : StepError → Int
  | .none => 0
  | .one _ => 1
  | .two _ _ => -ebadmsg

section Errors

open Gp2Firmware.UBoot.NandEcc (corrected_of_none corrected_of_one corrected_of_two)

/-- The correction of what was stored with an error. -/
theorem nandCorrectData_of_error {error : StepError} (valid : error.Valid) (dat : Nat → U8) :
    let s := error.apply (encoded dat)
    nandCorrectData s.dat s.ecc (nandCalculateEcc s.dat) =
      (error.stat, if error.isTwo then s.dat else dat) := by
  intro s
  rw [nandCorrectData_eq, nandCalculateEcc_eq]
  change (kernelResult s.corrected.ret, s.corrected.dat) = _
  cases error with
  | none =>
      have corrected : s.corrected = _ := corrected_of_none dat
      rw [corrected]
      rfl
  | one flip =>
      have corrected : s.corrected = _ := corrected_of_one dat flip
      rw [corrected]
      cases flip <;> rfl
  | two first second =>
      have corrected : s.corrected = _ := corrected_of_two dat valid.1 valid.2.1 valid.2.2
      rw [corrected]
      rfl

/-- What is read of a step is what was written of it, with an error. -/
structure HeldWith (error : StepError) (written read : Stored) : Prop where
  dat : ∀ j < 256, read.dat j = (error.apply written).dat j
  ecc : read.ecc = (error.apply written).ecc

theorem count_stat (error : StepError) (stats : EccStats) :
    stats.count error.stat =
      ⟨stats.failed + BitVec.ofNat 32 error.isTwo.toNat,
        stats.corrected + BitVec.ofNat 32 error.isOne.toNat⟩ := by
  have zero : ∀ n : BitVec 32, n + BitVec.ofNat 32 0 = n := BitVec.add_zero
  cases error with
  | none =>
      rw [EccStats.count, StepError.stat, if_neg (by decide)]
      exact congrArg (EccStats.mk · _) (zero _).symm
  | one flip =>
      rw [EccStats.count, StepError.stat, if_neg (by decide)]
      exact congrArg (EccStats.mk · _) (zero _).symm
  | two first second =>
      rw [EccStats.count, StepError.stat, if_pos (by decide)]
      exact congrArg (EccStats.mk _) (zero _).symm

theorem foldl_count (error : Nat → StepError) (steps : List Nat) (stats : EccStats) :
    steps.foldl (fun stats s => stats.count (error s).stat) stats =
      ⟨stats.failed + BitVec.ofNat 32 (steps.countP fun s => (error s).isTwo),
        stats.corrected + BitVec.ofNat 32 (steps.countP fun s => (error s).isOne)⟩ := by
  induction steps generalizing stats with
  | nil => exact congrArg₂ EccStats.mk (BitVec.add_zero _).symm (BitVec.add_zero _).symm
  | cons s steps inductionHypothesis =>
      have one : ∀ flag : Bool, (if flag = true then 1 else 0) = flag.toNat := fun flag => by
        cases flag <;> rfl
      rw [List.foldl_cons, inductionHypothesis, count_stat, List.countP_cons, List.countP_cons, one,
        one]
      simp only [BitVec.ofNat_add, BitVec.add_assoc,
        BitVec.add_comm (BitVec.ofNat 32 (Bool.toNat _))]

variable {ecc : EccControl} {ecccalc oobPoi buf : Nat → U8} {raw : RawPage}
  {error : Nat → StepError}

/-- What is done with a step that is held with an error. -/
theorem outcome_of_held (apart : ecc.Apart) (ecccalcRead ecccode : Nat → U8) {s : Nat}
    (inside : s < ecc.steps) (valid : (error s).Valid)
    (held : HeldWith (error s) (stepOf ecc (nandWritePageSwecc ecc ecccalc oobPoi buf) s)
      (stepOf ecc raw s)) :
    let eccCalc := calculateLoop raw.data ecc.steps 0 0 ecccalcRead
    let eccCode := (List.range ecc.total).foldl
      (fun eccCode i => Function.update eccCode i (raw.oob (ecc.eccpos i))) ecccode
    (outcome raw.data eccCode eccCalc s).1 = (error s).stat ∧
      ∀ j < 256, (outcome raw.data eccCode eccCalc s).2 j =
        if (error s).isTwo then raw.data (256 * s + j) else buf (256 * s + j) := by
  intro eccCalc eccCode
  rw [stepOf_written apart ecccalc oobPoi inside] at held
  have calculated : codeAt eccCalc (3 * s) = nandCalculateEcc fun j => raw.data (256 * s + j) := by
    have code := @codeAt_calculateLoop raw.data ecccalcRead ecc.steps 0 0 s inside
    simpa only [Nat.zero_add] using code
  have code : codeAt eccCode (3 * s) = (stepOf ecc raw s).ecc := by
    funext k
    exact @foldl_update id (fun i => raw.oob (ecc.eccpos i)) ecccode ecc.total
      (fun _ _ _ _ same => same) (3 * s + k) (EccControl.place_lt inside k)
  have readData : (stepOf ecc raw s).dat = fun j => raw.data (256 * s + j) := rfl
  have corrected := nandCorrectData_of_error valid fun j => buf (256 * s + j)
  have same := nandCalculateEcc_congr held.dat
  have here := (@nandCorrectData_local (stepOf ecc raw s).dat
    ((error s).apply (encoded fun j => buf (256 * s + j))).dat (stepOf ecc raw s).ecc
    (nandCalculateEcc (stepOf ecc raw s).dat)).1 held.dat
  rw [held.ecc, same, corrected] at here
  rw [outcome, calculated, code, ← readData, held.ecc, same]
  refine ⟨here.1, fun j small => (here.2 j small).trans ?_⟩
  dsimp only
  split
  · exact (held.dat j small).symm
  · rfl

end Errors

/-- The layout for a spare area of 64 bytes. -/
def nandOob64 : EccControl :=
  ⟨8, fun i => 40 + i⟩

end Gp2Firmware.Linux.SoftwareEcc
