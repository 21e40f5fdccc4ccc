import Mathlib.Tactic.Ring
import Gp2Firmware.Scaler.AutoTune

/-!
# The crop window

`MDrv_SC_SetCrop` of `mdrv_scaler.c` turns the crop window into an offset in the memory of
the scaler, and `MDrv_SC_OPM_CalMemSetting` into the addresses of the output.
-/

namespace Gp2Firmware.Scaler

/-- The fields of `SC_SOURCE_INFO_t` for the signal and its windows. -/
structure VideoInput where
  srcType : InputSource
  u8ModeIndex : U8
  u8InputSyncStatus : U8
  u8BitPerPixel : U8
  u8NumOfFB : U8
  bCropWinEnable : Bool
  bHDuplicate : Bool
  bLinearAddrMode : Bool
  bHMirror : Bool
  u16HCapStart : U16
  u16HCapSize : U16
  u16VCapStart : U16
  u16VCapSize : U16
  u16HDispSize : U16
  u16VDispSize : U16
  u16HCropStart : U16
  u16HCropSize : U16
  u16VCropStart : U16
  u16VCropSize : U16
  u16HCropStartBackup : U16
  u16HCropSizeBackup : U16

/-- The fields for the sizes behind the scaling. -/
structure ScaledSize where
  u16HSizeAfterIP2 : U16
  u16VSizeAfterIP2 : U16
  bPreVScalingDown : Bool

/-- The fields for the crop window in the memory. -/
structure CropOffset where
  u16HCropoffset : U16
  u16VCropoffset : U16
  u16CropLBoffset : U16
  u16HCropsizeAfterIP2 : U16
  u16VCropsizeAfterIP2 : U16
  u16CropOPMFetch : U16

/-- The fields for one side of the frame memory. -/
structure FrameMemory where
  base0 : U32
  base1 : U32
  base2 : U32
  fetch : U16
  offset : U16

structure VideoSource where
  input : VideoInput
  scaled : ScaledSize
  u16VLength : U16
  crop : CropOffset
  ipm : FrameMemory
  u8MirrorAlignWidth : U8
  opm : FrameMemory

/-- `SC_MAX_LINE_BUF` -/
def maxLineBuf : U16 := 1920

/-- `OFFSET_PIXEL_ALIGNMENT` -/
def offsetPixelAlignment : Nat := 32

/-- `BYTE_PER_WORD` -/
def bytePerWord : Nat := 16

/-- A length of the capture window, scaled down to the display. -/
def scaleDown (length capSize dispSize : U16) : U16 :=
  if capSize > dispSize then
    BitVec.ofNat 16 (length.toNat * dispSize.toNat / capSize.toNat)
  else length

namespace VideoInput

def interlaced (s : VideoInput) : Bool := s.u8InputSyncStatus &&& interlaceBit ≠ 0

/-! ### The windows -/

/-- The modes 720x480 and 720x576 of a component source are sampled twice a pixel. -/
def doubleSampled (s : VideoInput) : Bool :=
  s.srcType.isYPbPr ∧
    (s.u8ModeIndex = 59 ∨ s.u8ModeIndex = 60 ∨ s.u8ModeIndex = 61 ∨ s.u8ModeIndex = 62)

/-- The crop window that `MDrv_SC_SetCrop` works on. -/
def doubleCrop (s : VideoInput) : VideoInput :=
  if s.doubleSampled then
    { s with
      u16HCropStart := s.u16HCropStartBackup <<< 1
      u16HCropSize := s.u16HCropSizeBackup <<< 1 }
  else s

/-- A horizontal length behind the scaling. -/
def hScaled (s : VideoInput) (length : U16) : U16 :=
  if s.bHDuplicate then BitVec.ofNat 16 (length.toNat / 2)
  else scaleDown length s.u16HCapSize s.u16HDispSize

/-- A line behind the scaling; one of two lines is in a field. -/
def vScaled (s : VideoInput) (line : U16) : U16 :=
  if s.interlaced then BitVec.ofNat 16 (line.toNat / 2)
  else scaleDown line s.u16VCapSize s.u16VDispSize

/-- `u16H_Cropoffset` as it is scaled first. -/
def hOffset (s : VideoInput) : U16 := s.hScaled (s.u16HCropStart - s.u16HCapStart)

def vOffset (s : VideoInput) : U16 := s.vScaled (s.u16VCropStart - s.u16VCapStart)

/-- The offset that is even. -/
def hOffsetEven (s : VideoInput) : U16 := BitVec.ofNat 16 ((s.hOffset.toNat + 1) / 2 * 2)

/-- The offset is twice as much where the data are interleaved. -/
def interleave (s : VideoInput) (offset : U16) : U16 :=
  if s.bLinearAddrMode then offset else BitVec.ofNat 16 (offset.toNat * 2)

/-- `u16H_CropsizeAfterIP2` -/
def hCropSize (s : VideoInput) : U16 :=
  s.hScaled s.u16HCropSize - 2 * if s.hOffset.toNat % 2 ≠ 0 then 1 else 0

/-- `u16V_CropsizeAfterIP2` -/
def vCropSize (s : VideoInput) : U16 :=
  if s.interlaced then s.u16VCropSize
  else scaleDown s.u16VCropSize s.u16VCapSize s.u16VDispSize

/-- `u16H_sizeAfterIP2` -/
def hSize (s : VideoInput) : U16 :=
  let size :=
    if s.bHDuplicate then BitVec.ofNat 16 (s.u16HCapSize.toNat / 2)
    else if s.u16HCapSize > s.u16HDispSize then s.u16HDispSize
    else s.u16HCapSize
  if size > maxLineBuf then maxLineBuf else size

/-- `u16V_sizeAfterIP2` -/
def vSize (s : VideoInput) : U16 :=
  if s.interlaced then s.u16VCapSize
  else if s.u16VCapSize > s.u16VDispSize then s.u16VDispSize
  else s.u16VCapSize

end VideoInput

/-! ### The settings -/

namespace VideoSource

/-- `MDrv_SC_IP2_HScaling`, without the ratio for the registers. -/
def hScaling (s : VideoSource) : VideoSource :=
  { s with scaled.u16HSizeAfterIP2 := s.input.hSize }

/-- `MDrv_SC_IP2_VScaling`, without the ratio for the registers. -/
def vScaling (s : VideoSource) : VideoSource :=
  { s with
    scaled.u16VSizeAfterIP2 := s.input.vSize
    scaled.bPreVScalingDown := s.input.u16VCapSize ≠ s.input.vSize
    u16VLength := s.input.vSize }

/-- The offsets of `MDrv_SC_SetCrop`, for the crop window in effect. -/
def cropOffset (s : VideoInput) : CropOffset :=
  let u8CropLBoffset := BitVec.ofNat 8 (s.hOffsetEven.toNat % offsetPixelAlignment)
  let hBytes := s.hOffsetEven.toNat / offsetPixelAlignment * offsetPixelAlignment *
    s.u8BitPerPixel.toNat / 8
  let vBytes := s.vOffset.toNat * s.u8BitPerPixel.toNat / 8
  { u16HCropoffset := s.interleave (BitVec.ofNat 16 hBytes)
    u16VCropoffset := s.interleave (BitVec.ofNat 16 vBytes)
    u16CropLBoffset := u8CropLBoffset.setWidth 16
    u16HCropsizeAfterIP2 := s.hCropSize
    u16VCropsizeAfterIP2 := s.vCropSize
    u16CropOPMFetch := s.hCropSize + u8CropLBoffset.setWidth 16 }

/-- `MDrv_SC_SetCrop` -/
def setCrop (s : VideoSource) : VideoSource :=
  if s.input.bCropWinEnable then
    { s with
      input := s.input.doubleCrop
      crop := cropOffset s.input.doubleCrop
      u16VLength := s.input.doubleCrop.vCropSize }
  else s

def evenUp (size : U16) : U16 := (size + 1) &&& ~~~(1#16)

/-- The next multiple of 32 pixels. -/
def alignPixels (size : U16) : U16 :=
  BitVec.ofNat 16
    ((size.toNat + offsetPixelAlignment - 1) / offsetPixelAlignment * offsetPixelAlignment)

/-- `MDrv_SC_IPM_CalMemSetting`, without the bases for the vertical mirror. -/
def ipmCalMemSetting (u32MemAddr u32MemLen : U32) (s : VideoSource) : VideoSource :=
  let frame := u32MemLen.toNat / 3 / bytePerWord * bytePerWord
  let fetch := evenUp s.scaled.u16HSizeAfterIP2
  let width := BitVec.ofNat 8 ((alignPixels fetch).toNat - fetch.toNat)
  { s with
    ipm :=
      { base0 := u32MemAddr
        base1 :=
          if s.input.u8NumOfFB = 3 then u32MemAddr + BitVec.ofNat 32 frame
          else u32MemAddr + BitVec.ofNat 32 (u32MemLen.toNat / 2)
        base2 :=
          if s.input.u8NumOfFB = 3 then u32MemAddr + BitVec.ofNat 32 (frame * 2) else 0
        fetch := if s.input.bHMirror then alignPixels fetch else fetch
        offset := alignPixels fetch }
    u8MirrorAlignWidth :=
      if s.input.bHMirror then if width ≠ 0 then width ||| 0x80 else 0
      else s.u8MirrorAlignWidth }

/-- Where the crop window begins in the memory. -/
def cropAddress (s : VideoSource) (base : U32) : U32 :=
  base + BitVec.ofNat 32 (s.ipm.offset.toNat * s.crop.u16VCropoffset.toNat) +
    s.crop.u16HCropoffset.setWidth 32

/-- `u16OPMFetch` of a crop window. -/
def cropFetch (s : VideoSource) : U16 :=
  let size := s.scaled.u16HSizeAfterIP2
  let fetch :=
    if s.input.u16HCropSize > size then evenUp size
    else (s.input.u16HCropSize + 32) &&& ~~~(1#16)
  if s.input.bHMirror then evenUp size
  else if fetch > s.ipm.fetch then s.ipm.fetch
  else fetch

/-- `MDrv_SC_OPM_CalMemSetting` -/
def opmCalMemSetting (s : VideoSource) : VideoSource :=
  { s with
    opm :=
      if s.input.bCropWinEnable then
        { base0 := s.cropAddress s.ipm.base0
          base1 := s.cropAddress s.ipm.base1
          base2 := s.cropAddress s.ipm.base2
          fetch := s.cropFetch
          offset := s.ipm.offset }
      else
        { s.ipm with
          fetch :=
            if s.input.bHMirror then evenUp s.scaled.u16HSizeAfterIP2 else s.ipm.fetch } }

/-- The settings in their order, with the scaling first. -/
def configured (u32MemAddr u32MemLen : U32) (s : VideoSource) : VideoSource :=
  (s.hScaling.vScaling.setCrop.ipmCalMemSetting u32MemAddr u32MemLen).opmCalMemSetting

end VideoSource

/-! ### The law -/

/-- A crop window inside the capture window, in a mode without mirroring. -/
structure Fits (s : VideoInput) : Prop where
  enabled : s.bCropWinEnable = true
  notMirrored : s.bHMirror = false
  hCap : 2 ≤ s.u16HCapSize.toNat ∧ s.u16HCapSize.toNat ≤ 1920
  vCap : 2 ≤ s.u16VCapSize.toNat ∧ s.u16VCapSize.toNat ≤ 1920
  hDisp : 2 ≤ s.u16HDispSize.toNat ∧ s.u16HDispSize.toNat ≤ 1920
  vDisp : 2 ≤ s.u16VDispSize.toNat ∧ s.u16VDispSize.toNat ≤ 1920
  left : s.u16HCapStart.toNat ≤ s.u16HCropStart.toNat
  right : s.u16HCropStart.toNat + s.u16HCropSize.toNat ≤
    s.u16HCapStart.toNat + s.u16HCapSize.toNat
  top : s.u16VCapStart.toNat ≤ s.u16VCropStart.toNat
  bottom : s.u16VCropStart.toNat + s.u16VCropSize.toNat ≤
    s.u16VCapStart.toNat + s.u16VCapSize.toNat
  wide : 2 ≤ (s.hScaled s.u16HCropSize).toNat
  even : s.u8BitPerPixel.toNat % 2 = 0
  bits : s.u8BitPerPixel.toNat ≤ 32

/-- The address, the split of the offset and the sizes, where the window `s` is configured
as `t`. -/
structure Addressed (s : VideoInput) (t : VideoSource) : Prop where
  address : (t.opm.base0 - t.ipm.base0).toNat =
    (s.vOffset.toNat * t.ipm.offset.toNat + 32 * (s.hOffsetEven.toNat / 32)) *
      s.u8BitPerPixel.toNat / 8 * if s.bLinearAddrMode then 1 else 2
  offset : t.crop.u16CropLBoffset.toNat = s.hOffsetEven.toNat % 32
  fetch : t.crop.u16CropLBoffset.toNat + t.crop.u16HCropsizeAfterIP2.toNat ≤ t.opm.fetch.toNat
  inWidth : s.hOffsetEven.toNat + t.crop.u16HCropsizeAfterIP2.toNat ≤
    t.scaled.u16HSizeAfterIP2.toNat
  inHeight : s.interlaced = false →
    s.vOffset.toNat + t.u16VLength.toNat ≤ t.scaled.u16VSizeAfterIP2.toNat

open VideoSource VideoInput

/-! ### Lengths -/

section Lengths

variable {length other capSize dispSize size : U16}

theorem mul_div_le (smaller : dispSize ≤ capSize) :
    length.toNat * dispSize.toNat / capSize.toNat ≤ length.toNat := by
  apply Nat.div_le_of_le_mul
  rw [Nat.mul_comm]
  exact Nat.mul_le_mul_right _ smaller

theorem toNat_scaleDown :
    (scaleDown length capSize dispSize).toNat =
      if capSize > dispSize then length.toNat * dispSize.toNat / capSize.toNat
      else length.toNat := by
  rw [scaleDown]
  split
  · rename_i larger
    have small := @mul_div_le length _ _ (BitVec.le_of_lt larger)
    rw [BitVec.toNat_ofNat, Nat.mod_eq_of_lt (Nat.lt_of_le_of_lt small length.isLt)]
  · rfl

theorem scaleDown_le : (scaleDown length capSize dispSize).toNat ≤ length.toNat := by
  rw [toNat_scaleDown]
  split
  · rename_i larger
    exact mul_div_le (BitVec.le_of_lt larger)
  · exact Nat.le_refl _

/-- The two parts of a length, each scaled down, are no more than the display. -/
theorem scaleDown_add_le (inside : length.toNat + other.toNat ≤ capSize.toNat) :
    (scaleDown length capSize dispSize).toNat + (scaleDown other capSize dispSize).toNat ≤
      (if capSize > dispSize then dispSize else capSize).toNat := by
  rw [toNat_scaleDown, toNat_scaleDown]
  split
  · rename_i larger
    have positive : 0 < capSize.toNat := Nat.lt_of_le_of_lt (Nat.zero_le _) larger
    calc length.toNat * dispSize.toNat / capSize.toNat +
          other.toNat * dispSize.toNat / capSize.toNat
        ≤ (length.toNat * dispSize.toNat + other.toNat * dispSize.toNat) / capSize.toNat :=
          Nat.div_add_div_le_add_div
      _ = (length.toNat + other.toNat) * dispSize.toNat / capSize.toNat := by
          rw [Nat.add_mul]
      _ ≤ capSize.toNat * dispSize.toNat / capSize.toNat :=
          Nat.div_le_div_right (Nat.mul_le_mul_right _ inside)
      _ = dispSize.toNat := Nat.mul_div_cancel_left _ positive
  · exact inside

theorem toNat_half : (BitVec.ofNat 16 (length.toNat / 2)).toNat = length.toNat / 2 := by
  rw [BitVec.toNat_ofNat]
  omega

theorem toNat_and_not_one : (size &&& ~~~(1#16)).toNat = size.toNat / 2 * 2 := by
  have shifted : size &&& ~~~(1#16) = (size >>> 1) <<< 1 := by
    ext i inside
    simp only [BitVec.getElem_and, BitVec.getElem_not, BitVec.getElem_shiftLeft,
      BitVec.getElem_ushiftRight, BitVec.getElem_one]
    cases i with
    | zero => simp
    | succ i => simp [Nat.add_comm 1, BitVec.getLsbD_eq_getElem inside]
  rw [shifted, BitVec.toNat_shiftLeft, BitVec.toNat_ushiftRight, Nat.shiftLeft_eq,
    Nat.shiftRight_eq_div_pow]
  omega

theorem toNat_evenUp (small : size.toNat ≤ 1920) :
    (evenUp size).toNat = (size.toNat + 1) / 2 * 2 := by
  rw [evenUp, toNat_and_not_one]
  bv_omega

theorem toNat_alignPixels (small : size.toNat ≤ 1920) :
    (alignPixels size).toNat = (size.toNat + 31) / 32 * 32 := by
  rw [alignPixels, offsetPixelAlignment, BitVec.toNat_ofNat]
  omega

end Lengths

/-! ### A window -/

section Window

variable {s : VideoInput}

theorem toNat_interleave {offset : U16} (small : offset.toNat < 32768) :
    (s.interleave offset).toNat = offset.toNat * if s.bLinearAddrMode then 1 else 2 := by
  rw [interleave]
  split
  · rw [Nat.mul_one]
  · rw [BitVec.toNat_ofNat]
    omega

variable (fits : Fits s)

include fits

theorem hStart_add_le :
    (s.u16HCropStart - s.u16HCapStart).toNat + s.u16HCropSize.toNat ≤ s.u16HCapSize.toNat := by
  have left := fits.left
  have right := fits.right
  bv_omega

theorem vStart_add_le :
    (s.u16VCropStart - s.u16VCapStart).toNat + s.u16VCropSize.toNat ≤ s.u16VCapSize.toNat := by
  have top := fits.top
  have bottom := fits.bottom
  bv_omega

/-- The line buffer holds the lines behind the scaling. -/
theorem hSize_eq :
    s.hSize =
      if s.bHDuplicate then BitVec.ofNat 16 (s.u16HCapSize.toNat / 2)
      else if s.u16HCapSize > s.u16HDispSize then s.u16HDispSize
      else s.u16HCapSize := by
  have cap := fits.hCap
  have disp := fits.hDisp
  refine if_neg ?_
  rw [maxLineBuf]
  split
  · have half := @toNat_half s.u16HCapSize
    bv_omega
  · split
    · bv_omega
    · bv_omega

theorem hScaled_add_le :
    s.hOffset.toNat + (s.hScaled s.u16HCropSize).toNat ≤ s.hSize.toNat := by
  have inside := hStart_add_le fits
  rw [hSize_eq fits, hOffset, hScaled, hScaled]
  split
  · rw [toNat_half, toNat_half, toNat_half]
    omega
  · exact scaleDown_add_le inside

theorem hSize_bounds : 1 ≤ s.hSize.toNat ∧ s.hSize.toNat ≤ 1920 := by
  have cap := fits.hCap
  have disp := fits.hDisp
  rw [hSize_eq fits]
  split
  · rw [toNat_half]
    omega
  · split
    · omega
    · omega

theorem vScaled_add_le (progressive : s.interlaced = false) :
    s.vOffset.toNat + s.vCropSize.toNat ≤ s.vSize.toNat := by
  rw [vSize, vOffset, vScaled, vCropSize, progressive]
  exact scaleDown_add_le (vStart_add_le fits)

theorem vOffset_le : s.vOffset.toNat ≤ 1920 := by
  have cap := fits.vCap
  have inside := vStart_add_le fits
  rw [vOffset, vScaled]
  split
  · rw [toNat_half]
    omega
  · have whole := @scaleDown_le (s.u16VCropStart - s.u16VCapStart) s.u16VCapSize s.u16VDispSize
    omega

/-- The offset that is even, with the pixels that it costs. -/
theorem even_add_le :
    s.hOffsetEven.toNat + s.hCropSize.toNat ≤ s.hSize.toNat ∧ s.hOffsetEven.toNat % 2 = 0 := by
  have inside := hScaled_add_le fits
  have bounds := hSize_bounds fits
  have wide := fits.wide
  have even : s.hOffsetEven.toNat = (s.hOffset.toNat + 1) / 2 * 2 := by
    rw [hOffsetEven, BitVec.toNat_ofNat]
    omega
  rw [even, hCropSize]
  constructor
  · split
    · bv_omega
    · bv_omega
  · omega

theorem hCropSize_le : s.hCropSize.toNat ≤ s.u16HCropSize.toNat := by
  have wide := fits.wide
  have scaled : (s.hScaled s.u16HCropSize).toNat ≤ s.u16HCropSize.toNat := by
    rw [hScaled]
    split
    · rw [toNat_half]
      omega
    · exact scaleDown_le
  rw [hCropSize]
  split
  · bv_omega
  · bv_omega

theorem toNat_vBytes :
    (cropOffset s).u16VCropoffset.toNat =
      s.vOffset.toNat * s.u8BitPerPixel.toNat / 8 * if s.bLinearAddrMode then 1 else 2 := by
  have bound : s.vOffset.toNat * s.u8BitPerPixel.toNat ≤ 1920 * 32 :=
    Nat.mul_le_mul (vOffset_le fits) fits.bits
  have bytes : (BitVec.ofNat 16 (s.vOffset.toNat * s.u8BitPerPixel.toNat / 8)).toNat =
      s.vOffset.toNat * s.u8BitPerPixel.toNat / 8 := by
    rw [BitVec.toNat_ofNat]
    omega
  have small : (BitVec.ofNat 16 (s.vOffset.toNat * s.u8BitPerPixel.toNat / 8)).toNat < 32768 := by
    omega
  rw [← bytes]
  exact toNat_interleave small

theorem toNat_hBytes :
    (cropOffset s).u16HCropoffset.toNat =
      s.hOffsetEven.toNat / 32 * 32 * s.u8BitPerPixel.toNat / 8 *
        if s.bLinearAddrMode then 1 else 2 := by
  have inside := even_add_le fits
  have bounds := hSize_bounds fits
  have bound : s.hOffsetEven.toNat / 32 * 32 * s.u8BitPerPixel.toNat ≤ 1920 * 32 :=
    Nat.mul_le_mul (by omega) fits.bits
  have bytes : (BitVec.ofNat 16
      (s.hOffsetEven.toNat / 32 * 32 * s.u8BitPerPixel.toNat / 8)).toNat =
        s.hOffsetEven.toNat / 32 * 32 * s.u8BitPerPixel.toNat / 8 := by
    rw [BitVec.toNat_ofNat]
    omega
  have small : (BitVec.ofNat 16
      (s.hOffsetEven.toNat / 32 * 32 * s.u8BitPerPixel.toNat / 8)).toNat < 32768 := by
    omega
  rw [← bytes]
  exact toNat_interleave small

theorem pitch_bounds :
    ∃ q, 1 ≤ q ∧ 32 * q ≤ 1920 ∧ (alignPixels (evenUp s.hSize)).toNat = 32 * q := by
  have bounds := hSize_bounds fits
  have fetch := toNat_evenUp bounds.2
  have pitch := @toNat_alignPixels (evenUp s.hSize) (by omega)
  exact ⟨((evenUp s.hSize).toNat + 31) / 32, by omega, by omega, by omega⟩

/-- The fetch covers the rest of the offset and the size. -/
theorem offset_add_le_fetch {t : VideoSource} (input : t.input = s)
    (size : t.scaled.u16HSizeAfterIP2 = s.hSize) (fetch : t.ipm.fetch = evenUp s.hSize) :
    s.hOffsetEven.toNat % 32 + s.hCropSize.toNat ≤ t.cropFetch.toNat := by
  have bounds := hSize_bounds fits
  have inside := even_add_le fits
  have narrow := hCropSize_le fits
  have even := toNat_evenUp bounds.2
  have start := hStart_add_le fits
  have cap := fits.hCap
  have aligned := @toNat_and_not_one (s.u16HCropSize + 32)
  have sum : (s.u16HCropSize + 32).toNat = s.u16HCropSize.toNat + 32 := by bv_omega
  rw [cropFetch, input, size, fetch, fits.notMirrored, if_neg (by decide)]
  split
  · rw [ite_self]
    omega
  · split
    · omega
    · omega

end Window

/-! ### The addresses -/

/-- The address of the crop window within the memory. -/
theorem cropAddress_sub {t : VideoSource} {base : U32} (narrow : t.ipm.offset.toNat ≤ 1920) :
    (t.cropAddress base - base).toNat =
      t.ipm.offset.toNat * t.crop.u16VCropoffset.toNat + t.crop.u16HCropoffset.toNat := by
  have bound := Nat.mul_le_mul narrow (Nat.le_of_lt t.crop.u16VCropoffset.isLt)
  have small := t.crop.u16HCropoffset.isLt
  have cancel : t.cropAddress base - base =
      BitVec.ofNat 32 (t.ipm.offset.toNat * t.crop.u16VCropoffset.toNat) +
        t.crop.u16HCropoffset.setWidth 32 := by
    rw [cropAddress, BitVec.add_assoc, BitVec.add_comm base, BitVec.add_sub_cancel]
  rw [cancel, BitVec.toNat_add, BitVec.toNat_ofNat, BitVec.toNat_setWidth]
  omega

/-- The truncated bytes of the lines are exact where the bits make whole bytes. -/
theorem address_eq_iff {lines pitch columns bits factor : Nat} (wide : 1 ≤ pitch)
    (positive : 1 ≤ factor) :
    32 * pitch * (lines * bits / 8 * factor) + columns * 32 * bits / 8 * factor =
        (lines * (32 * pitch) + 32 * columns) * bits / 8 * factor ↔
      8 ∣ lines * bits := by
  have columnBytes : columns * 32 * bits / 8 = 4 * (columns * bits) := by
    have eighths : columns * 32 * bits = 8 * (4 * (columns * bits)) := by ring
    rw [eighths, Nat.mul_div_cancel_left _ (by decide)]
  have exact : (lines * (32 * pitch) + 32 * columns) * bits / 8 =
      4 * (pitch * (lines * bits)) + 4 * (columns * bits) := by
    have eighths : (lines * (32 * pitch) + 32 * columns) * bits =
        8 * (4 * (pitch * (lines * bits)) + 4 * (columns * bits)) := by ring
    rw [eighths, Nat.mul_div_cancel_left _ (by decide)]
  have regroup : 32 * pitch * (lines * bits / 8 * factor) =
      4 * (pitch * (8 * (lines * bits / 8))) * factor := by ring
  rw [columnBytes, exact, regroup, ← Nat.add_mul, Nat.mul_left_inj (by omega),
    Nat.add_right_cancel_iff, Nat.mul_right_inj (by decide), Nat.mul_right_inj (by omega)]
  exact ⟨Dvd.intro _, Nat.mul_div_cancel'⟩

/-- What is set up for a window in effect. -/
structure SetUp (s : VideoInput) (t : VideoSource) : Prop where
  input : t.input = s
  hSize : t.scaled.u16HSizeAfterIP2 = s.hSize
  vSize : t.scaled.u16VSizeAfterIP2 = s.vSize
  length : t.u16VLength = s.vCropSize
  crop : t.crop = cropOffset s
  fetch : t.ipm.fetch = evenUp s.hSize
  pitch : t.ipm.offset = alignPixels (evenUp s.hSize)
  opmBase : t.opm.base0 = t.cropAddress t.ipm.base0
  opmFetch : t.opm.fetch = t.cropFetch

theorem addressed_setUp_iff {s : VideoInput} {t : VideoSource} (fits : Fits s)
    (setUp : SetUp s t) :
    Addressed s t ↔ 8 ∣ s.vOffset.toNat * s.u8BitPerPixel.toNat := by
  obtain ⟨q, positive, narrow, pitch⟩ := pitch_bounds fits
  have offset : t.ipm.offset.toNat = 32 * q := by rw [setUp.pitch, pitch]
  have factor : 1 ≤ if s.bLinearAddrMode then 1 else 2 := by
    split
    · decide
    · decide
  have address : (t.opm.base0 - t.ipm.base0).toNat =
        (s.vOffset.toNat * t.ipm.offset.toNat + 32 * (s.hOffsetEven.toNat / 32)) *
          s.u8BitPerPixel.toNat / 8 * (if s.bLinearAddrMode then 1 else 2) ↔
      8 ∣ s.vOffset.toNat * s.u8BitPerPixel.toNat := by
    rw [setUp.opmBase, cropAddress_sub (by omega), offset, setUp.crop, toNat_vBytes fits,
      toNat_hBytes fits]
    exact address_eq_iff positive factor
  have rest : t.crop.u16CropLBoffset.toNat = s.hOffsetEven.toNat % 32 := by
    rw [setUp.crop]
    change ((BitVec.ofNat 8 (s.hOffsetEven.toNat % 32)).setWidth 16).toNat = _
    rw [BitVec.toNat_setWidth, BitVec.toNat_ofNat]
    omega
  have size : t.crop.u16HCropsizeAfterIP2 = s.hCropSize := by
    rw [setUp.crop, cropOffset]
  constructor
  · exact fun law => address.mp law.address
  · intro whole
    constructor
    · exact address.mpr whole
    · exact rest
    · rw [rest, size, setUp.opmFetch]
      exact offset_add_le_fetch fits setUp.input setUp.hSize setUp.fetch
    · rw [size, setUp.hSize]
      exact (even_add_le fits).1
    · rw [setUp.length, setUp.vSize]
      exact vScaled_add_le fits

theorem doubleCrop_kept (s : VideoInput) :
    s.doubleCrop.bCropWinEnable = s.bCropWinEnable ∧ s.doubleCrop.hSize = s.hSize ∧
      s.doubleCrop.vSize = s.vSize := by
  rw [doubleCrop]
  split
  · exact ⟨rfl, rfl, rfl⟩
  · exact ⟨rfl, rfl, rfl⟩

theorem setUp_configured (u32MemAddr u32MemLen : U32) {s : VideoSource}
    (fits : Fits s.input.doubleCrop) :
    SetUp s.input.doubleCrop (configured u32MemAddr u32MemLen s) := by
  obtain ⟨enable, hSize, vSize⟩ := doubleCrop_kept s.input
  have enabled : s.hScaling.vScaling.input.bCropWinEnable = true := by
    rw [← fits.enabled, enable]
    rfl
  have still : s.input.doubleCrop.bCropWinEnable = true := fits.enabled
  have notMirrored : s.input.doubleCrop.bHMirror = false := fits.notMirrored
  rw [configured, setCrop, if_pos enabled]
  constructor
  · rfl
  · exact hSize.symm
  · exact vSize.symm
  · rfl
  · rfl
  · rw [hSize]
    change (if s.input.doubleCrop.bHMirror then _ else evenUp s.input.hSize) = _
    rw [notMirrored]
    rfl
  · rw [hSize]
    rfl
  · rw [opmCalMemSetting]
    exact congrArg FrameMemory.base0 (if_pos still)
  · rw [opmCalMemSetting]
    exact congrArg FrameMemory.fetch (if_pos still)

/-- Exactly when the output of the crop window is set up as it should be. -/
theorem addressed_iff (u32MemAddr u32MemLen : U32) (s : VideoSource)
    (fits : Fits s.input.doubleCrop) :
    Addressed s.input.doubleCrop (configured u32MemAddr u32MemLen s) ↔
      8 ∣ s.input.doubleCrop.vOffset.toNat * s.input.doubleCrop.u8BitPerPixel.toNat :=
  addressed_setUp_iff fits (setUp_configured u32MemAddr u32MemLen fits)

/-- A picture of 1080 lines with 20 bits a pixel, cropped at the top. -/
def fullHd (firstLine : U16) : VideoSource where
  input :=
    { srcType := .hdmiA
      u8ModeIndex := 0
      u8InputSyncStatus := 0
      u8BitPerPixel := 20
      u8NumOfFB := 3
      bCropWinEnable := true
      bHDuplicate := false
      bLinearAddrMode := true
      bHMirror := false
      u16HCapStart := 192
      u16HCapSize := 1920
      u16VCapStart := 41
      u16VCapSize := 1080
      u16HDispSize := 1920
      u16VDispSize := 1080
      u16HCropStart := 192
      u16HCropSize := 1920
      u16VCropStart := 41 + firstLine
      u16VCropSize := 1080 - firstLine
      u16HCropStartBackup := 192
      u16HCropSizeBackup := 1920 }
  scaled := ⟨0, 0, false⟩
  u16VLength := 0
  crop := ⟨0, 0, 0, 0, 0, 0⟩
  ipm := ⟨0, 0, 0, 0, 0⟩
  u8MirrorAlignWidth := 0
  opm := ⟨0, 0, 0, 0, 0⟩

theorem fits_fullHd (firstLine : U16) (short : firstLine = 1 ∨ firstLine = 2) :
    Fits (fullHd firstLine).input.doubleCrop := by
  rcases short with rfl | rfl
  · constructor <;> decide +kernel
  · constructor <;> decide +kernel

theorem addressed_iff_fullHd :
    Addressed (fullHd 2).input.doubleCrop (configured 0 0x1000000 (fullHd 2)) ↔
      8 ∣ (fullHd 2).input.doubleCrop.vOffset.toNat *
        (fullHd 2).input.doubleCrop.u8BitPerPixel.toNat :=
  addressed_iff 0 0x1000000 (fullHd 2) (fits_fullHd 2 (.inr rfl))

/-- A picture that begins with the second line is read from a wrong address. -/
theorem crop_misaddressed :
    ¬ ∀ (u32MemAddr u32MemLen : U32) (s : VideoSource), Fits s.input.doubleCrop →
      Addressed s.input.doubleCrop (configured u32MemAddr u32MemLen s) := by
  intro law
  have address := (law 0 0x1000000 (fullHd 1) (fits_fullHd 1 (.inl rfl))).address
  exact absurd address (by decide +kernel)

end Gp2Firmware.Scaler
