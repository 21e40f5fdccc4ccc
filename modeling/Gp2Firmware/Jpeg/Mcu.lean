import Mathlib.Data.List.Nodup
import Mathlib.Tactic.Common
import Mathlib.Algebra.Group.Nat.Defs

/-!
# The frame of a JPEG image

`MDrv_JPEG_init_frame` admits a frame and counts the MCUs of the whole of it,
`MDrv_JPEG_calc_mcu_block_order` counts those of a scan and lists the blocks of
one, and the coefficient buffers have room for an even number of MCUs.  The
numbers of MCUs are rounded in three ways.
-/

namespace Gp2Firmware.Jpeg.Mcu

def JPEG_MAX_WIDTH : Nat := 16360
def JPEG_MAX_HEIGHT : Nat := 16360
def JPEG_MAXBLOCKSPERROW : Nat := 12288

/-- The size of the picture and the sampling factors of its components. -/
structure Frame where
  imageXSize : Nat
  imageYSize : Nat
  compsInFrame : Nat
  hSamp : Nat → Nat
  vSamp : Nat → Nat

inductive ScanType where
  | grayscale
  | yH1V1
  | yH2V1
  | yH1V2
  | yH2V2
  | yH4V1
  deriving DecidableEq, Repr

/-- What `init_frame` finds out. -/
structure Layout where
  scanType : ScanType
  maxBlocksPerMcu : Nat
  maxMcuXSize : Nat
  maxMcuYSize : Nat
  maxMcusPerRow : Nat
  maxMcusPerCol : Nat
  maxBlocksPerRow : Nat
  totalLinesLeft : Nat
  deriving DecidableEq, Repr

inductive FrameError where
  | unsupportedSampFactors
  | unsupportedColorspace
  | assertionError
  deriving DecidableEq, Repr

section Code

variable (f : Frame)

/-- The scan type, the blocks in an MCU and its size in pixels. -/
def scanTypeOf : Except FrameError (ScanType × Nat × Nat × Nat) :=
  if f.compsInFrame = 1 then
    .ok (.grayscale, 1, 8, 8)
  else if f.compsInFrame = 3 then
    if (f.hSamp 1 ≠ 1 ∨ f.vSamp 1 ≠ 1) ∨ (f.hSamp 2 ≠ 1 ∨ f.vSamp 2 ≠ 1) then
      .error .unsupportedSampFactors
    else if f.hSamp 0 = 1 ∧ f.vSamp 0 = 1 then
      .ok (.yH1V1, 3, 8, 8)
    else if f.hSamp 0 = 2 ∧ f.vSamp 0 = 1 then
      .ok (.yH2V1, 4, 16, 8)
    else if f.hSamp 0 = 1 ∧ f.vSamp 0 = 2 then
      .ok (.yH1V2, 4, 8, 16)
    else if f.hSamp 0 = 2 ∧ f.vSamp 0 = 2 then
      .ok (.yH2V2, 6, 16, 16)
    else if f.hSamp 0 = 4 ∧ f.vSamp 0 = 1 then
      .ok (.yH4V1, 6, 32, 8)
    else
      .error .unsupportedSampFactors
  else
    .error .unsupportedColorspace

def initFrame : Except FrameError Layout :=
  match scanTypeOf f with
  | .error error => .error error
  | .ok (scanType, maxBlocksPerMcu, maxMcuXSize, maxMcuYSize) =>
      let maxMcusPerRow := (f.imageXSize + (maxMcuXSize - 1)) / maxMcuXSize % 2 ^ 16
      let maxMcusPerCol := (f.imageYSize + (maxMcuYSize - 1)) / maxMcuYSize % 2 ^ 16
      let maxBlocksPerRow := maxMcusPerRow * maxBlocksPerMcu
      if JPEG_MAXBLOCKSPERROW < maxBlocksPerRow then
        .error .assertionError
      else
        .ok
          { scanType, maxBlocksPerMcu, maxMcuXSize, maxMcuYSize, maxMcusPerRow,
            maxMcusPerCol, maxBlocksPerRow,
            totalLinesLeft := maxMcusPerCol * maxMcuYSize % 2 ^ 16 }

/-- The greatest sampling factor of the components. -/
def maxSamp (samp : Nat → Nat) (comps : Nat) : Nat :=
  (List.range comps).foldl (fun most i => if most < samp i then samp i else most) 0

/-- What `calc_mcu_block_order` finds out for a scan. -/
structure McuOrder where
  compHBlocks : Nat → Nat
  compVBlocks : Nat → Nat
  mcusPerRow : Nat
  mcusPerCol : Nat
  mcuOrg : List Nat

def calcMcuBlockOrder (compList : List Nat) : McuOrder :=
  let maxHSamp := maxSamp f.hSamp f.compsInFrame
  let maxVSamp := maxSamp f.vSamp f.compsInFrame
  let compHBlocks c :=
    ((f.imageXSize * f.hSamp c + (maxHSamp - 1)) / maxHSamp + 7) / 8 % 2 ^ 16
  let compVBlocks c :=
    ((f.imageYSize * f.vSamp c + (maxVSamp - 1)) / maxVSamp + 7) / 8 % 2 ^ 16
  match compList with
  | [c] =>
      { compHBlocks, compVBlocks, mcusPerRow := compHBlocks c, mcusPerCol := compVBlocks c,
        mcuOrg := [c] }
  | _ =>
      { compHBlocks, compVBlocks,
        mcusPerRow := ((f.imageXSize + 7) / 8 + (maxHSamp - 1)) / maxHSamp % 2 ^ 16
        mcusPerCol := ((f.imageYSize + 7) / 8 + (maxVSamp - 1)) / maxVSamp % 2 ^ 16
        mcuOrg := compList.flatMap fun c =>
          List.replicate (f.hSamp c * f.vSamp c % 2 ^ 8) c }

/-- A coefficient buffer: how many blocks it has and how large they are. -/
structure CoeffBuf where
  blockNumX : Nat
  blockNumY : Nat
  blockLenX : Nat
  blockLenY : Nat
  deriving DecidableEq, Repr

def CoeffBuf.blockSize (cb : CoeffBuf) : Nat :=
  cb.blockLenX * cb.blockLenY * 2 % 2 ^ 16

/-- The place of a block in the data of its buffer; nothing for `NULL`. -/
def CoeffBuf.getp (cb : CoeffBuf) (blockX blockY : Nat) : Option Nat :=
  if cb.blockNumX ≤ blockX then none
  else if cb.blockNumY ≤ blockY then none
  else some (blockX * cb.blockSize + blockY * (cb.blockSize * cb.blockNumX))

/-- `(n + 1) & ~1` -/
def roundEven (n : Nat) : Nat :=
  (n + 1) / 2 * 2

/-- The buffers that `init_progressive` opens for a component. -/
def openedBuf (layout : Layout) (blockLen c : Nat) : CoeffBuf where
  blockNumX := roundEven layout.maxMcusPerRow * f.hSamp c % 2 ^ 16
  blockNumY := roundEven layout.maxMcusPerCol * f.vSamp c % 2 ^ 16
  blockLenX := blockLen
  blockLenY := blockLen

def dcCoeffs (layout : Layout) (c : Nat) : CoeffBuf :=
  openedBuf f layout 1 c

def acCoeffs (layout : Layout) (c : Nat) : CoeffBuf :=
  openedBuf f layout 8 c

end Code

/-! ### The frames that are admitted -/

/-- The sampling factor that counts in a scan. -/
def scanSamp (compsInScan : Nat) (samp : Nat → Nat) (c : Nat) : Nat :=
  if compsInScan = 1 then 1 else samp c

/-- A frame within the sizes and factors that a frame header is checked for. -/
structure Checked (f : Frame) : Prop where
  xSize : f.imageXSize ≤ JPEG_MAX_WIDTH
  ySize : f.imageYSize ≤ JPEG_MAX_HEIGHT
  hSamp : ∀ c, f.hSamp c < 2 ^ 4
  vSamp : ∀ c, f.vSamp c < 2 ^ 4
  single : f.compsInFrame = 1 → f.hSamp 0 ≠ 0 ∧ f.vSamp 0 ≠ 0

/-- The components of a scan. -/
structure ScanOf (f : Frame) (compList : List Nat) : Prop where
  distinct : compList.Nodup
  some : compList ≠ []
  inFrame : ∀ c ∈ compList, c < f.compsInFrame

section Accepted

variable {f : Frame} {layout : Layout}

/-- The numbers of MCUs that `init_frame` finds out, before they are stored. -/
theorem initFrame_spec (accepted : initFrame f = .ok layout) :
    scanTypeOf f = .ok (layout.scanType, layout.maxBlocksPerMcu, layout.maxMcuXSize,
        layout.maxMcuYSize) ∧
      layout.maxMcusPerRow =
        (f.imageXSize + (layout.maxMcuXSize - 1)) / layout.maxMcuXSize % 2 ^ 16 ∧
      layout.maxMcusPerCol =
        (f.imageYSize + (layout.maxMcuYSize - 1)) / layout.maxMcuYSize % 2 ^ 16 ∧
      layout.totalLinesLeft = layout.maxMcusPerCol * layout.maxMcuYSize % 2 ^ 16 := by
  unfold initFrame at accepted
  split at accepted
  · cases accepted
  · rename_i types
    dsimp only at accepted
    split at accepted
    · cases accepted
    · cases accepted
      exact ⟨types, rfl, rfl, rfl⟩

/-- The frames of one component, and those of three with the size of their MCUs. -/
inductive Shape (f : Frame) (layout : Layout) : Prop where
  | single (comps : f.compsInFrame = 1) (x : layout.maxMcuXSize = 8)
      (y : layout.maxMcuYSize = 8)
  | three (comps : f.compsInFrame = 3) (x : layout.maxMcuXSize = f.hSamp 0 * 8)
      (y : layout.maxMcuYSize = f.vSamp 0 * 8)
      (luma : (f.hSamp 0 = 1 ∨ f.hSamp 0 = 2 ∨ f.hSamp 0 = 4) ∧
        (f.vSamp 0 = 1 ∨ f.vSamp 0 = 2))
      (hChroma : f.hSamp 1 = 1 ∧ f.hSamp 2 = 1) (vChroma : f.vSamp 1 = 1 ∧ f.vSamp 2 = 1)

theorem shape_of_initFrame (accepted : initFrame f = .ok layout) : Shape f layout := by
  have types := (initFrame_spec accepted).1
  unfold scanTypeOf at types
  split at types
  · rename_i comps
    simp only [Except.ok.injEq, Prod.mk.injEq] at types
    exact .single comps (by omega) (by omega)
  · split at types
    · rename_i comps
      by_cases chroma : (f.hSamp 1 ≠ 1 ∨ f.vSamp 1 ≠ 1) ∨ (f.hSamp 2 ≠ 1 ∨ f.vSamp 2 ≠ 1)
      · simp [chroma] at types
      · rw [if_neg chroma] at types
        split_ifs at types <;> simp only [Except.ok.injEq, Prod.mk.injEq] at types
        all_goals exact .three comps (by omega) (by omega) (by omega) (by omega) (by omega)
    · cases types

/-- The greatest factor is that of the first component. -/
theorem maxSamp_one (samp : Nat → Nat) : maxSamp samp 1 = samp 0 := by
  simp only [maxSamp, List.range_one, List.foldl_cons, List.foldl_nil]
  split <;> omega

theorem maxSamp_three {samp : Nat → Nat} (pos : 0 < samp 0) (one : samp 1 = 1 ∧ samp 2 = 1) :
    maxSamp samp 3 = samp 0 := by
  have range : List.range 3 = [0, 1, 2] := rfl
  simp only [maxSamp, range, List.foldl_cons, List.foldl_nil, one]
  split_ifs <;> omega

/-- The blocks that an interleaved scan lists for an MCU. -/
def orgOf (compsInScan : Nat) (f : Frame) (compList : List Nat) : List Nat :=
  compList.flatMap fun c =>
    List.replicate (scanSamp compsInScan f.vSamp c * scanSamp compsInScan f.hSamp c) c

/-- How many MCUs a scan has in one direction. -/
def axisMcus (size : Nat) (samp : Nat → Nat) (comps : Nat) : List Nat → Nat
  | [c] => ((size * samp c + (maxSamp samp comps - 1)) / maxSamp samp comps + 7) / 8 % 2 ^ 16
  | _ => ((size + 7) / 8 + (maxSamp samp comps - 1)) / maxSamp samp comps % 2 ^ 16

theorem mcusPerRow_eq (f : Frame) (compList : List Nat) :
    (calcMcuBlockOrder f compList).mcusPerRow =
      axisMcus f.imageXSize f.hSamp f.compsInFrame compList := by
  match compList with
  | [] => rfl
  | [_] => rfl
  | _ :: _ :: _ => rfl

theorem mcusPerCol_eq (f : Frame) (compList : List Nat) :
    (calcMcuBlockOrder f compList).mcusPerCol =
      axisMcus f.imageYSize f.vSamp f.compsInFrame compList := by
  match compList with
  | [] => rfl
  | [_] => rfl
  | _ :: _ :: _ => rfl

/-- The blocks of a scan in one direction have room in the buffers of a frame. -/
structure AxisFits (samp : Nat → Nat) (mcus maxMcus compsInScan c : Nat) : Prop where
  pos : 0 < scanSamp compsInScan samp c
  small : scanSamp compsInScan samp c < 2 ^ 4
  inside : mcus * scanSamp compsInScan samp c ≤ roundEven maxMcus * samp c
  room : roundEven maxMcus * samp c < 2 ^ 16

section Axis

variable {size : Nat} {samp : Nat → Nat} {compList : List Nat} {c : Nat}

theorem le_roundEven (n : Nat) : n ≤ roundEven n := by
  unfold roundEven
  omega

/-- The MCUs of a scan of one component are as many as its blocks. -/
theorem single_inside {most mine : Nat} (small : size ≤ 16360)
    (luma : most = 1 ∨ most = 2 ∨ most = 4) (either : mine = most ∨ mine = 1) :
    ((size * mine + (most - 1)) / most + 7) / 8 % 2 ^ 16 ≤
      roundEven ((size + (most * 8 - 1)) / (most * 8) % 2 ^ 16) * mine := by
  unfold roundEven
  obtain rfl | rfl | rfl := luma <;> obtain rfl | rfl := either <;> omega

theorem several_mcus {most : Nat} (luma : most = 1 ∨ most = 2 ∨ most = 4) :
    ((size + 7) / 8 + (most - 1)) / most = (size + (most * 8 - 1)) / (most * 8) := by
  obtain rfl | rfl | rfl := luma <;> omega

theorem three_room {most mine : Nat} (small : size ≤ 16360)
    (luma : most = 1 ∨ most = 2 ∨ most = 4) (either : mine = most ∨ mine = 1) :
    roundEven ((size + (most * 8 - 1)) / (most * 8) % 2 ^ 16) * mine < 2 ^ 16 := by
  unfold roundEven
  obtain rfl | rfl | rfl := luma <;> obtain rfl | rfl := either <;> omega

theorem single_mcus (pos : 0 < samp 0) :
    axisMcus size samp 1 [0] = (size + 7) / 8 % 2 ^ 16 := by
  have blocks : (size * samp 0 + (samp 0 - 1)) / samp 0 = size := by
    rw [Nat.mul_comm, Nat.mul_add_div pos, Nat.div_eq_of_lt (by omega), Nat.add_zero]
  rw [axisMcus, maxSamp_one, blocks]

theorem axisFits_single (small : size ≤ 16360) (sampled : samp 0 ≠ 0) (few : samp 0 < 2 ^ 4) :
    AxisFits samp (axisMcus size samp 1 [0]) ((size + 7) / 8 % 2 ^ 16) 1 0 := by
  have pos := Nat.pos_of_ne_zero sampled
  have mcus := @single_mcus size samp pos
  have most : roundEven ((size + 7) / 8 % 2 ^ 16) ≤ 2046 := by
    unfold roundEven
    omega
  rw [mcus]
  refine ⟨Nat.one_pos, by simp [scanSamp], ?_, ?_⟩
  · simp only [scanSamp, if_true, Nat.mul_one]
    exact Nat.le_trans (le_roundEven _) (Nat.le_mul_of_pos_right _ pos)
  · have product := Nat.mul_le_mul most (Nat.le_of_lt_succ few)
    omega

theorem axisFits_three (small : size ≤ 16360)
    (luma : samp 0 = 1 ∨ samp 0 = 2 ∨ samp 0 = 4) (chroma : samp 1 = 1 ∧ samp 2 = 1)
    (inFrame : c < 3) (listed : c ∈ compList) :
    AxisFits samp (axisMcus size samp 3 compList)
      ((size + (samp 0 * 8 - 1)) / (samp 0 * 8) % 2 ^ 16) compList.length c := by
  have greatest : maxSamp samp 3 = samp 0 := maxSamp_three (by omega) chroma
  have either : samp c = samp 0 ∨ samp c = 1 := by
    match c, inFrame with
    | 0, _ => exact .inl rfl
    | 1, _ => exact .inr chroma.1
    | 2, _ => exact .inr chroma.2
  have room := three_room small luma either
  match compList, listed with
  | [_], listed =>
      obtain rfl := List.mem_singleton.mp listed
      have inside := single_inside small luma either
      refine ⟨Nat.one_pos, by simp [scanSamp], ?_, room⟩
      simpa only [axisMcus, greatest, scanSamp, List.length_singleton, if_true, Nat.mul_one]
  | first :: second :: rest, listed =>
      have own : scanSamp (first :: second :: rest).length samp c = samp c := by
        simp [scanSamp]
      have pos : 0 < samp c := by omega
      have few : samp c < 2 ^ 4 := by omega
      have inside := Nat.mul_le_mul_right (samp c)
        (le_roundEven ((size + (samp 0 * 8 - 1)) / (samp 0 * 8) % 2 ^ 16))
      rw [← several_mcus luma] at inside room ⊢
      refine ⟨own.symm ▸ pos, own.symm ▸ few, ?_, room⟩
      rwa [own, axisMcus, greatest]
      exact fun c => by simp

end Axis

/-- The lines of all rows of MCUs. -/
structure Rows (f : Frame) (layout : Layout) : Prop where
  pos : 0 < layout.maxMcuYSize
  lines : layout.totalLinesLeft =
    (calcMcuBlockOrder f (List.range f.compsInFrame)).mcusPerCol * layout.maxMcuYSize
  small : layout.totalLinesLeft < 2 ^ 16

/-- A component of a scan of a frame that is admitted. -/
structure Fits (f : Frame) (layout : Layout) (compList : List Nat) (c : Nat) : Prop where
  x : AxisFits f.hSamp (calcMcuBlockOrder f compList).mcusPerRow layout.maxMcusPerRow
    compList.length c
  y : AxisFits f.vSamp (calcMcuBlockOrder f compList).mcusPerCol layout.maxMcusPerCol
    compList.length c

theorem ScanOf.eq_single {compList : List Nat} (scan : ScanOf f compList)
    (comps : f.compsInFrame = 1) : compList = [0] := by
  have zero : ∀ c ∈ compList, c = 0 := by
    intro c mem
    have less := scan.inFrame c mem
    omega
  have repeated := List.eq_replicate_of_mem zero
  have short := List.nodup_replicate.mp (repeated ▸ scan.distinct)
  have long := List.length_pos_iff.mpr scan.some
  rw [repeated, show compList.length = 1 by omega, List.replicate_one]

theorem initFrame_fits (accepted : initFrame f = .ok layout) (checked : Checked f)
    {compList : List Nat} (scan : ScanOf f compList) {c : Nat} (listed : c ∈ compList) :
    Fits f layout compList c := by
  obtain ⟨-, perRow, perCol, -⟩ := initFrame_spec accepted
  have less := scan.inFrame c listed
  cases shape_of_initFrame accepted with
  | single comps x y =>
      obtain ⟨hSampled, vSampled⟩ := checked.single comps
      obtain rfl := scan.eq_single comps
      obtain rfl := List.mem_singleton.mp listed
      rw [x] at perRow
      rw [y] at perCol
      constructor
      · rw [mcusPerRow_eq, comps, perRow]
        exact axisFits_single checked.xSize hSampled (checked.hSamp 0)
      · rw [mcusPerCol_eq, comps, perCol]
        exact axisFits_single checked.ySize vSampled (checked.vSamp 0)
  | three comps x y luma hChroma vChroma =>
      rw [comps] at less
      constructor
      · rw [mcusPerRow_eq, comps, perRow, x]
        exact axisFits_three checked.xSize luma.1 hChroma less listed
      · rw [mcusPerCol_eq, comps, perCol, y]
        exact axisFits_three checked.ySize (by omega) vChroma less listed

/-- The blocks that `calc_mcu_block_order` lists. -/
theorem initFrame_org (accepted : initFrame f = .ok layout) (checked : Checked f) {compList : List Nat}
    (scan : ScanOf f compList) :
    (calcMcuBlockOrder f compList).mcuOrg = orgOf compList.length f compList := by
  match compList with
  | [] => rfl
  | [c] => rfl
  | first :: second :: rest =>
      have several : (first :: second :: rest).length ≠ 1 := by simp
      cases shape_of_initFrame accepted with
      | single comps x y =>
          have one := scan.eq_single comps
          simp at one
      | three comps x y luma hChroma vChroma =>
          apply List.flatMap_congr
          intro c mem
          have less := scan.inFrame c mem
          have small : f.hSamp c * f.vSamp c < 2 ^ 4 * 2 ^ 4 :=
            Nat.mul_lt_mul'' (checked.hSamp c) (checked.vSamp c)
          simp only [scanSamp, several, if_false]
          rw [Nat.mod_eq_of_lt (by omega), Nat.mul_comm]

theorem initFrame_rows (accepted : initFrame f = .ok layout) (checked : Checked f) :
    Rows f layout := by
  obtain ⟨-, -, perCol, lines⟩ := initFrame_spec accepted
  have ySize := checked.ySize
  cases shape_of_initFrame accepted with
  | single comps x y =>
      rw [y] at perCol lines
      have mcus : axisMcus f.imageYSize f.vSamp 1 [0] = (f.imageYSize + 7) / 8 % 2 ^ 16 :=
        single_mcus (Nat.pos_of_ne_zero (checked.single comps).2)
      refine ⟨by omega, ?_, by omega⟩
      rw [mcusPerCol_eq, comps, List.range_one, mcus, y]
      unfold JPEG_MAX_HEIGHT at ySize
      omega
  | three comps x y luma hChroma vChroma =>
      have vLuma : f.vSamp 0 = 1 ∨ f.vSamp 0 = 2 ∨ f.vSamp 0 = 4 := by omega
      have greatest : maxSamp f.vSamp 3 = f.vSamp 0 := maxSamp_three (by omega) vChroma
      have mcus : axisMcus f.imageYSize f.vSamp 3 (List.range 3) = layout.maxMcusPerCol := by
        rw [perCol, y, ← several_mcus vLuma, ← greatest]
        rfl
      refine ⟨by omega, ?_, by omega⟩
      rw [mcusPerCol_eq, comps, mcus, lines]
      unfold JPEG_MAX_HEIGHT at ySize
      rw [y] at perCol ⊢
      obtain luma | luma := luma.2 <;> rw [luma] at perCol ⊢ <;> omega

end Accepted

end Gp2Firmware.Jpeg.Mcu
