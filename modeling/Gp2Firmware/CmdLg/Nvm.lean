import Gp2Firmware.Lib.PagedMemory

/-!
# The NVRAM

`DDI_NVM_Read` and `DDI_NVM_Write` of `cmd_nvm.c` with the transfers of
`titania_hw_i2c.c`, over a device that acknowledges every byte.  Its pages have
`NVMDRV_PAGE_SIZE` bytes and the offsets in it are kept in 16 bits.
-/

namespace Gp2Firmware.CmdLg

open Gp2Firmware.Lib

abbrev Byte := BitVec 8

/-- `NVMDRV_PAGE_SIZE` -/
def nvmdrvPageSize : Nat := 128

/-- `NVMDRV_TOTAL_SIZE` -/
def nvmdrvTotalSize : Nat := 128 * 1024

/-- `NVM_ID` -/
def nvmId : Byte := 0xA0

/-! ### The device -/

/-- The first address and the length of a read or a write of the device. -/
structure Transfer where
  addr : Nat
  len : Nat

/-- A transfer that stays in one page. -/
def Transfer.InPage (t : Transfer) : Prop :=
  t.addr % nvmdrvPageSize + t.len ≤ nvmdrvPageSize

/-- The bytes of the device and the transfers so far, the latest first. -/
structure Nvram where
  data : Nat → Byte
  transfers : List Transfer

/-- The address in a slave byte and the two bytes behind it.  Bit 16 is in the slave
byte, next to the direction. -/
def wordAddress (slave high low : Byte) : Nat :=
  slave.toNat / 2 % 2 * 2 ^ 16 + high.toNat * 2 ^ 8 + low.toNat

/-- The device after the bytes between a start and a stop. -/
def Nvram.receive (n : Nvram) : List Byte → Nvram
  | slave :: high :: low :: data =>
      let addr := wordAddress slave high low
      { data := pageWrite nvmdrvPageSize n.data addr data
        transfers := ⟨addr, data.length⟩ :: n.transfers }
  | _ => n

/-- The bytes that the device sends for an address, one after the other.  Behind the
last byte of the memory comes the first. -/
def Nvram.send (n : Nvram) (len : Nat) : List Byte → (Nat → Byte) × Nvram
  | [slave, high, low] =>
      let addr := wordAddress slave high low
      (fun i => n.data ((addr + i) % nvmdrvTotalSize),
        { n with transfers := ⟨addr, len⟩ :: n.transfers })
  | _ => (fun _ => 0xFF, n)

/-- `MDrv_HW_IIC_Write` -/
def mdrvHwIicWrite (n : Nvram) (slaveId : Byte) (addr : List Byte) (bufSize : Nat)
    (buf : Nat → Byte) : BitVec 32 × Nvram :=
  (BitVec.ofNat 32 bufSize,
    n.receive ((slaveId &&& 0xFE) :: (addr ++ (List.range bufSize).map buf)))

/-- `MDrv_HW_IIC_Read`, with the bytes that it stores in the buffer. -/
def mdrvHwIicRead (n : Nvram) (slaveId : Byte) (addr : List Byte) (bufSize : Nat) :
    BitVec 32 × (Nat → Byte) × Nvram :=
  (BitVec.ofNat 32 bufSize, n.send bufSize ((slaveId &&& 0xFE) :: addr))

/-! ### The driver -/

/-- `subAddr` for an offset. -/
def subAddr (offset : BitVec 16) : List Byte :=
  [(offset >>> 8).setWidth 8, (offset &&& 0xff).setWidth 8]

/-- The check `retVal < 0` of a result in an unsigned variable. -/
def failed (retVal : BitVec 32) : Bool := retVal.ult 0

/-- `_NVM_CheckState` -/
def nvmCheckState : BitVec 32 := 0

/-- A page, or a part of one, of `_NVM_WriteNvram`. -/
def writePiece (txBuf : Nat → Byte) (offset : BitVec 16) (len pos : Nat) (n : Nvram) :
    Int × Nvram :=
  let written :=
    mdrvHwIicWrite n nvmId (subAddr offset) len fun i => txBuf (pos + i)
  if failed written.1 then (-1, written.2)
  else if failed nvmCheckState then (-1, written.2)
  else (0, written.2)

/-- The device and the caller's buffer. -/
structure ReadState where
  nvram : Nvram
  rxBuf : Nat → Byte

/-- A page, or a part of one, of `_NVM_ReadNvram`. -/
def readPiece (offset : BitVec 16) (len pos : Nat) (r : ReadState) : Int × ReadState :=
  let got := mdrvHwIicRead r.nvram nvmId (subAddr offset) len
  let next : ReadState := ⟨got.2.2, copyRange r.rxBuf pos len got.2.1⟩
  if failed got.1 then (-1, next) else (0, next)

/-- `headPageLength` -/
def headPageLength (offset nData : Nat) : Nat :=
  let tmpVal := (nvmdrvPageSize - offset % nvmdrvPageSize) % nvmdrvPageSize
  if nData < tmpVal then nData else tmpVal

/-- `midPageIterate` -/
def midPageIterate (offset nData : Nat) : Nat :=
  (nData - headPageLength offset nData) / nvmdrvPageSize

section

variable {State : Type*} (piece : BitVec 16 → Nat → Nat → State → Int × State)

/-- The loop over the whole pages of `_NVM_ReadNvram` and `_NVM_WriteNvram`. -/
def midPages : (left : Nat) → BitVec 16 → (pos : Nat) → State → Int × State
  | 0, _, _, s => (0, s)
  | left + 1, midPageOffset, pos, s =>
      let done := piece midPageOffset nvmdrvPageSize pos s
      if done.1 < 0 then done
      else
        midPages left (midPageOffset + BitVec.ofNat 16 nvmdrvPageSize)
          (pos + nvmdrvPageSize) done.2

/-- The common part of `_NVM_ReadNvram` and `_NVM_WriteNvram`: the head page, the whole
pages and the tail page. -/
def pagewise (offset nData : Nat) (s : State) : Int × State :=
  let headLength := headPageLength offset nData
  let iterate := midPageIterate offset nData
  let headPageOffset := BitVec.ofNat 16 offset
  let midPageOffset := BitVec.ofNat 16 (headPageOffset.toNat + headLength)
  let tailPageOffset :=
    BitVec.ofNat 16 (midPageOffset.toNat + nvmdrvPageSize * iterate)
  let tailLength := nData - headLength - nvmdrvPageSize * iterate
  let head := if 0 < headLength then piece headPageOffset headLength 0 s else (0, s)
  if head.1 < 0 then head
  else
    let mid := midPages piece iterate midPageOffset headLength head.2
    if mid.1 < 0 then mid
    else if 0 < tailLength then
      piece tailPageOffset tailLength (headLength + nvmdrvPageSize * iterate) mid.2
    else (0, mid.2)

end

/-- `_NVM_WriteNvram` -/
def nvmWriteNvram (n : Nvram) (offset nData : BitVec 32) (txBuf : Nat → Byte) :
    Int × Nvram :=
  pagewise (writePiece txBuf) offset.toNat nData.toNat n

/-- `_NVM_ReadNvram` -/
def nvmReadNvram (n : Nvram) (offset nData : BitVec 32) (rxBuf : Nat → Byte) :
    Int × ReadState :=
  pagewise readPiece offset.toNat nData.toNat ⟨n, rxBuf⟩

/-- `DDI_NVM_Write`.  No buffer is the null pointer. -/
def ddiNvmWrite (n : Nvram) (offset nData : BitVec 32) (txBuf : Option (Nat → Byte)) :
    Int × Nvram :=
  match txBuf with
  | none => (-1, n)
  | some txBuf =>
      if nvmdrvTotalSize < (offset + nData).toNat then (-1, n)
      else
        let done := nvmWriteNvram n offset nData txBuf
        if done.1 < 0 then (-1, done.2) else done

/-- `DDI_NVM_Read` -/
def ddiNvmRead (n : Nvram) (offset nData : BitVec 32) (rxBuf : Option (Nat → Byte)) :
    Int × Nvram × Option (Nat → Byte) :=
  match rxBuf with
  | none => (-1, n, none)
  | some rxBuf =>
      if nvmdrvTotalSize < (offset + nData).toNat then (-1, n, some rxBuf)
      else
        let done := nvmReadNvram n offset nData rxBuf
        (if done.1 < 0 then -1 else done.1, done.2.nvram, some done.2.rxBuf)

/-! ### The pieces of a range -/

section

variable {State : Type*} {piece : BitVec 16 → Nat → Nat → State → Int × State}
  {holds : Nat → State → Prop} {offset nData : Nat} {s : State}

/-- What a piece of a range has to do so that its bytes are dealt with. -/
def PieceKeeps (piece : BitVec 16 → Nat → Nat → State → Int × State)
    (holds : Nat → State → Prop) (offset nData : Nat) : Prop :=
  ∀ len pos s, 0 < len → pos + len ≤ nData →
    (offset + pos) % nvmdrvPageSize + len ≤ nvmdrvPageSize → holds pos s →
      (piece (BitVec.ofNat 16 (offset + pos)) len pos s).1 = 0 ∧
        holds (pos + len) (piece (BitVec.ofNat 16 (offset + pos)) len pos s).2

theorem headPageLength_eq_min :
    headPageLength offset nData =
      min nData ((nvmdrvPageSize - offset % nvmdrvPageSize) % nvmdrvPageSize) := by
  unfold headPageLength
  dsimp only
  split <;> omega

/-- The head page ends with its page or with the range. -/
theorem headPageLength_spec :
    offset % nvmdrvPageSize + headPageLength offset nData ≤ nvmdrvPageSize ∧
      (headPageLength offset nData = nData ∨
        (offset + headPageLength offset nData) % nvmdrvPageSize = 0) := by
  rw [headPageLength_eq_min, nvmdrvPageSize]
  omega

theorem offset16_add (first second : Nat) :
    BitVec.ofNat 16 ((BitVec.ofNat 16 first).toNat + second) =
      BitVec.ofNat 16 (first + second) := by
  rw [BitVec.ofNat_add, BitVec.ofNat_toNat, BitVec.setWidth_eq, ← BitVec.ofNat_add]

theorem midPages_rule (turn : PieceKeeps piece holds offset nData) {left pos : Nat}
    (inside : pos + nvmdrvPageSize * left ≤ nData)
    (aligned : (offset + pos) % nvmdrvPageSize = 0) (here : holds pos s) :
    (midPages piece left (BitVec.ofNat 16 (offset + pos)) pos s).1 = 0 ∧
      holds (pos + nvmdrvPageSize * left)
        (midPages piece left (BitVec.ofNat 16 (offset + pos)) pos s).2 := by
  induction left generalizing pos s with
  | zero => exact ⟨rfl, here⟩
  | succ left inductionHypothesis =>
      rw [Nat.mul_succ] at inside ⊢
      obtain ⟨fine, done⟩ := turn nvmdrvPageSize pos s (by decide) (by omega)
        (by rw [aligned, Nat.zero_add]) here
      have next : BitVec.ofNat 16 (offset + pos) + BitVec.ofNat 16 nvmdrvPageSize =
          BitVec.ofNat 16 (offset + (pos + nvmdrvPageSize)) := by
        rw [← BitVec.ofNat_add, Nat.add_assoc]
      have later : (offset + (pos + nvmdrvPageSize)) % nvmdrvPageSize = 0 := by
        rw [← Nat.add_assoc, Nat.add_mod_right, aligned]
      have all : pos + (nvmdrvPageSize * left + nvmdrvPageSize) =
          pos + nvmdrvPageSize + nvmdrvPageSize * left := by omega
      rw [midPages, fine, if_neg (Int.lt_irrefl 0), next, all]
      exact inductionHypothesis (by omega) later done

/-- What holds before the first byte and is kept by every piece that stays in its page
holds behind the last byte. -/
theorem pagewise_rule (start : holds 0 s) (turn : PieceKeeps piece holds offset nData) :
    (pagewise piece offset nData s).1 = 0 ∧
      holds nData (pagewise piece offset nData s).2 := by
  obtain ⟨inPage, ends⟩ := @headPageLength_spec offset nData
  have below : headPageLength offset nData ≤ nData := by
    rw [headPageLength_eq_min]
    exact Nat.min_le_left _ _
  have pages := Nat.div_add_mod (nData - headPageLength offset nData) nvmdrvPageSize
  have rest := Nat.mod_lt (nData - headPageLength offset nData)
    (by decide : nvmdrvPageSize > 0)
  simp only [pagewise, offset16_add]
  rw [← midPageIterate] at pages
  generalize headPageLength offset nData = headLength at inPage ends below pages rest ⊢
  generalize midPageIterate offset nData = iterate at pages ⊢
  -- the head page
  have head : (if 0 < headLength then piece (BitVec.ofNat 16 offset) headLength 0 s
        else (0, s)).1 = 0 ∧
      holds headLength (if 0 < headLength then piece (BitVec.ofNat 16 offset) headLength 0 s
        else (0, s)).2 := by
    split
    · rename_i some
      have done := turn headLength 0 s some (by omega) (by rwa [Nat.add_zero]) start
      rwa [Nat.add_zero, Nat.zero_add] at done
    · rename_i none
      rw [Nat.eq_zero_of_not_pos none]
      exact ⟨rfl, start⟩
  generalize (if 0 < headLength then piece (BitVec.ofNat 16 offset) headLength 0 s
    else (0, s)) = afterHead at head ⊢
  rw [head.1, if_neg (Int.lt_irrefl 0)]
  -- the whole pages
  have mid : (midPages piece iterate (BitVec.ofNat 16 (offset + headLength)) headLength
        afterHead.2).1 = 0 ∧
      holds (headLength + nvmdrvPageSize * iterate)
        (midPages piece iterate (BitVec.ofNat 16 (offset + headLength)) headLength
          afterHead.2).2 := by
    rcases ends with all | aligned
    · have none : iterate = 0 := by
        rw [nvmdrvPageSize] at pages
        omega
      rw [none]
      exact ⟨rfl, head.2⟩
    · exact midPages_rule turn (by omega) aligned head.2
  generalize midPages piece iterate (BitVec.ofNat 16 (offset + headLength)) headLength
    afterHead.2 = afterMid at mid ⊢
  rw [mid.1, if_neg (Int.lt_irrefl 0)]
  -- the tail page
  split
  · rename_i some
    have aligned : (offset + (headLength + nvmdrvPageSize * iterate)) % nvmdrvPageSize = 0 := by
      rw [← Nat.add_assoc, Nat.add_mul_mod_self_left]
      rcases ends with all | aligned
      · omega
      · exact aligned
    have done := turn (nData - headLength - nvmdrvPageSize * iterate)
      (headLength + nvmdrvPageSize * iterate) afterMid.2 some (by omega)
      (by rw [aligned]; omega) mid.2
    have all : headLength + nvmdrvPageSize * iterate +
        (nData - headLength - nvmdrvPageSize * iterate) = nData := by omega
    rwa [all, ← Nat.add_assoc] at done
  · rename_i none
    have all : headLength + nvmdrvPageSize * iterate = nData := by omega
    exact ⟨rfl, all ▸ mid.2⟩

end

/-! ### Transfers -/

@[simp]
theorem failed_eq_false (retVal : BitVec 32) : failed retVal = false := by
  rw [failed, BitVec.ult_eq_decide]
  exact decide_eq_false (Nat.not_lt_zero _)

/-- The slave byte is that of the first 64 KiB. -/
theorem wordAddress_subAddr (offset : BitVec 16) :
    wordAddress (nvmId &&& 0xFE) ((offset >>> 8).setWidth 8)
      ((offset &&& 0xff).setWidth 8) = offset.toNat := by
  have slave : (nvmId &&& 0xFE).toNat = 160 := by decide
  have bound := offset.isLt
  have low : (offset &&& 0xff).toNat = offset.toNat % 256 := by
    rw [BitVec.toNat_and]
    exact Nat.and_two_pow_sub_one_eq_mod _ 8
  rw [wordAddress, slave, BitVec.toNat_setWidth, BitVec.toNat_setWidth, low,
    BitVec.toNat_ushiftRight, Nat.shiftRight_eq_div_pow]
  omega

/-- The offset of a piece on the device. -/
def onDevice (offset : Nat) : Nat := offset % 2 ^ 16

theorem onDevice_mod_page (offset : Nat) :
    onDevice offset % nvmdrvPageSize = offset % nvmdrvPageSize := by
  unfold onDevice nvmdrvPageSize
  omega

variable {n : Nvram} {txBuf : Nat → Byte} {offset len pos : Nat}

/-- A piece that stays in its page is copied to its place on the device. -/
theorem writePiece_eq
    (inPage : (offset + pos) % nvmdrvPageSize + len ≤ nvmdrvPageSize) :
    writePiece txBuf (BitVec.ofNat 16 (offset + pos)) len pos n =
      (0,
        { data := copyRange n.data (onDevice (offset + pos)) len fun i => txBuf (pos + i)
          transfers := ⟨onDevice (offset + pos), len⟩ :: n.transfers }) := by
  have fits : onDevice (offset + pos) % nvmdrvPageSize + len ≤ nvmdrvPageSize := by
    rwa [onDevice_mod_page]
  have place : (BitVec.ofNat 16 (offset + pos)).toNat = onDevice (offset + pos) :=
    BitVec.toNat_ofNat _ _
  simp only [writePiece, mdrvHwIicWrite, subAddr, List.cons_append, List.nil_append,
    Nvram.receive, wordAddress_subAddr, place, pageWrite_of_fits fits, failed_eq_false,
    Bool.false_eq_true, if_false, List.length_map, List.length_range]

theorem readPiece_eq {r : ReadState} :
    readPiece (BitVec.ofNat 16 (offset + pos)) len pos r =
      (0,
        { nvram :=
            { r.nvram with
              transfers := ⟨onDevice (offset + pos), len⟩ :: r.nvram.transfers }
          rxBuf := copyRange r.rxBuf pos len fun i =>
            r.nvram.data ((onDevice (offset + pos) + i) % nvmdrvTotalSize) }) := by
  have place : (BitVec.ofNat 16 (offset + pos)).toNat = onDevice (offset + pos) :=
    BitVec.toNat_ofNat _ _
  simp only [readPiece, mdrvHwIicRead, subAddr, Nvram.send, wordAddress_subAddr, place,
    failed_eq_false, Bool.false_eq_true, if_false]

/-! ### Reads and writes of a range -/

/-- The transfers of a call stay in their pages. -/
def InPages (before after : Nvram) : Prop :=
  ∀ t ∈ after.transfers, t ∈ before.transfers ∨ t.InPage

/-- A write stores a buffer in a range and nothing else. -/
structure Stores (n : Nvram) (offset : BitVec 32) (txBuf : Nat → Byte) (len : Nat)
    (after : Nvram) : Prop where
  data : after.data = copyRange n.data offset.toNat len txBuf
  inPages : InPages n after

/-- A read returns the bytes of a buffer. -/
structure ReadsBack (n after : Nvram) (nData : BitVec 32) (txBuf rxBuf : Nat → Byte) :
    Prop where
  bytes : ∀ i < nData.toNat, rxBuf i = txBuf i
  data : after.data = n.data
  inPages : InPages n after

/-- What `DDI_NVM_Write` and `DDI_NVM_Read` are to do with an offset and a length. -/
structure AccessLaw (offset nData : BitVec 32) : Prop where
  accepts : offset.toNat + nData.toNat ≤ nvmdrvTotalSize → ∀ n txBuf rxBuf,
    ∃ written read got,
      ddiNvmWrite n offset nData (some txBuf) = (0, written) ∧
      Stores n offset txBuf nData.toNat written ∧
      ddiNvmRead written offset nData (some rxBuf) = (0, read, some got) ∧
      ReadsBack written read nData txBuf got
  refuses : nvmdrvTotalSize < offset.toNat + nData.toNat → ∀ n buf,
    ddiNvmWrite n offset nData buf = (-1, n) ∧
      ddiNvmRead n offset nData buf = (-1, n, buf)

/-- A range that fits ends within the first 64 KiB, and one that does not fit does so
in 32 bits as well. -/
def Addressable (offset nData : BitVec 32) : Prop :=
  (offset.toNat + nData.toNat ≤ nvmdrvTotalSize →
      nData = 0 ∨ offset.toNat + nData.toNat ≤ 2 ^ 16) ∧
    (nvmdrvTotalSize < offset.toNat + nData.toNat →
      nvmdrvTotalSize < (offset.toNat + nData.toNat) % 2 ^ 32)

section

variable {offset nData : BitVec 32}

theorem InPages.refl (n : Nvram) : InPages n n :=
  fun _ known => Or.inl known

theorem InPages.cons {before : Nvram} {data : Nat → Byte} {t : Transfer}
    (inPages : InPages before n) (inPage : t.InPage) :
    InPages before ⟨data, t :: n.transfers⟩ := by
  intro other listed
  rcases List.mem_cons.mp listed with rfl | listed
  · exact Or.inr inPage
  · exact inPages other listed

theorem onDevice_inPage
    (inPage : (offset.toNat + pos) % nvmdrvPageSize + len ≤ nvmdrvPageSize) :
    Transfer.InPage ⟨onDevice (offset.toNat + pos), len⟩ := by
  rwa [Transfer.InPage, onDevice_mod_page]

theorem onDevice_of_inside (inside : nData = 0 ∨ offset.toNat + nData.toNat ≤ 2 ^ 16)
    (some : 0 < len) (below : pos + len ≤ nData.toNat) :
    onDevice (offset.toNat + pos) = offset.toNat + pos ∧
      offset.toNat + pos + len ≤ 2 ^ 16 := by
  rcases inside with rfl | inside
  · change pos + len ≤ 0 at below
    omega
  · exact ⟨Nat.mod_eq_of_lt (by omega), by omega⟩

theorem Stores.piece {now : Nvram} (stores : Stores n offset txBuf pos now)
    (place : onDevice (offset.toNat + pos) = offset.toNat + pos)
    (inPage : (offset.toNat + pos) % nvmdrvPageSize + len ≤ nvmdrvPageSize) :
    Stores n offset txBuf (pos + len)
      { data := copyRange now.data (onDevice (offset.toNat + pos)) len fun i => txBuf (pos + i)
        transfers := ⟨onDevice (offset.toNat + pos), len⟩ :: now.transfers } := by
  refine ⟨?_, stores.inPages.cons (onDevice_inPage inPage)⟩
  rw [place, stores.data]
  exact copyRange_append len

theorem nvmWriteNvram_stores
    (inside : nData = 0 ∨ offset.toNat + nData.toNat ≤ 2 ^ 16) :
    (nvmWriteNvram n offset nData txBuf).1 = 0 ∧
      Stores n offset txBuf nData.toNat (nvmWriteNvram n offset nData txBuf).2 := by
  have start : Stores n offset txBuf 0 n := ⟨copyRange_zero.symm, .refl n⟩
  refine pagewise_rule start fun len pos now some below inPage stores => ?_
  obtain ⟨place, -⟩ := onDevice_of_inside inside some below
  rw [writePiece_eq inPage]
  exact ⟨rfl, stores.piece place inPage⟩

/-- A read has come to a position of its buffer. -/
structure Fetched (n : Nvram) (offset : BitVec 32) (rxBuf : Nat → Byte) (pos : Nat)
    (r : ReadState) : Prop where
  bytes : r.rxBuf = copyRange rxBuf 0 pos fun i => n.data (offset.toNat + i)
  data : r.nvram.data = n.data
  inPages : InPages n r.nvram

theorem Fetched.piece {rxBuf : Nat → Byte} {r : ReadState}
    (fetched : Fetched n offset rxBuf pos r)
    (place : onDevice (offset.toNat + pos) = offset.toNat + pos)
    (top : offset.toNat + pos + len ≤ 2 ^ 16)
    (inPage : (offset.toNat + pos) % nvmdrvPageSize + len ≤ nvmdrvPageSize) :
    Fetched n offset rxBuf (pos + len)
      (readPiece (BitVec.ofNat 16 (offset.toNat + pos)) len pos r).2 := by
  rw [readPiece_eq]
  refine ⟨?_, fetched.data, fetched.inPages.cons (onDevice_inPage inPage)⟩
  have got : (copyRange r.rxBuf pos len fun i =>
        r.nvram.data ((onDevice (offset.toNat + pos) + i) % nvmdrvTotalSize)) =
      copyRange r.rxBuf pos len fun i => n.data (offset.toNat + (pos + i)) := by
    funext i
    refine if_ctx_congr Iff.rfl (fun copied => ?_) (fun _ => rfl)
    have fits : offset.toNat + pos + (i - pos) < nvmdrvTotalSize := by
      unfold nvmdrvTotalSize
      omega
    dsimp only
    rw [fetched.data, place, Nat.mod_eq_of_lt fits, Nat.add_assoc]
  have joined := @copyRange_append Byte rxBuf (fun i => n.data (offset.toNat + i)) 0 pos len
  rw [Nat.zero_add] at joined
  rw [← joined, ← fetched.bytes]
  exact got

theorem nvmReadNvram_fetched (rxBuf : Nat → Byte)
    (inside : nData = 0 ∨ offset.toNat + nData.toNat ≤ 2 ^ 16) :
    (nvmReadNvram n offset nData rxBuf).1 = 0 ∧
      Fetched n offset rxBuf nData.toNat (nvmReadNvram n offset nData rxBuf).2 := by
  have start : Fetched n offset rxBuf 0 ⟨n, rxBuf⟩ := ⟨copyRange_zero.symm, rfl, .refl n⟩
  refine pagewise_rule start fun len pos now some below inPage fetched => ?_
  obtain ⟨place, top⟩ := onDevice_of_inside inside some below
  exact ⟨congrArg Prod.fst readPiece_eq, fetched.piece place top inPage⟩

/-- A byte of the device is the same. -/
def SameAt (n : Nvram) (address _pos : Nat) (now : Nvram) : Prop :=
  now.data address = n.data address

/-- No write goes beyond the first 64 KiB of the device. -/
theorem nvmWriteNvram_beyond {address : Nat} (beyond : 2 ^ 16 ≤ address) :
    (nvmWriteNvram n offset nData txBuf).1 = 0 ∧
      SameAt n address nData.toNat (nvmWriteNvram n offset nData txBuf).2 := by
  have start : SameAt n address 0 n := rfl
  refine pagewise_rule start fun len pos now some below inPage same => ?_
  rw [writePiece_eq inPage]
  refine ⟨rfl, ?_⟩
  unfold SameAt at same ⊢
  rw [← same]
  dsimp only
  refine copyRange_outside fun within => ?_
  have bound : onDevice (offset.toNat + pos) < 2 ^ 16 := Nat.mod_lt _ (by decide)
  have page : onDevice (offset.toNat + pos) % nvmdrvPageSize + len ≤ nvmdrvPageSize :=
    onDevice_inPage inPage
  rw [nvmdrvPageSize] at page
  omega

theorem toNat_add_of_fits (fits : offset.toNat + nData.toNat ≤ nvmdrvTotalSize) :
    ¬ nvmdrvTotalSize < (offset + nData).toNat := by
  rw [BitVec.toNat_add, nvmdrvTotalSize] at *
  omega

theorem ddiNvmWrite_of_accepted (checked : ¬ nvmdrvTotalSize < (offset + nData).toNat) :
    ddiNvmWrite n offset nData (some txBuf) =
      (0, (nvmWriteNvram n offset nData txBuf).2) := by
  have wrote := (@nvmWriteNvram_beyond n txBuf offset nData (2 ^ 16) (Nat.le_refl _)).1
  simp only [ddiNvmWrite, if_neg checked, wrote, if_neg (Int.lt_irrefl 0)]
  exact Prod.ext wrote rfl

theorem accessLaw_of_addressable (addressable : Addressable offset nData) :
    AccessLaw offset nData := by
  constructor
  · intro fits n txBuf rxBuf
    have inside := addressable.1 fits
    have checked := toNat_add_of_fits fits
    let written := (nvmWriteNvram n offset nData txBuf).2
    let read := nvmReadNvram written offset nData rxBuf
    have stores : Stores n offset txBuf nData.toNat written := (nvmWriteNvram_stores inside).2
    obtain ⟨ret, fetched⟩ := @nvmReadNvram_fetched written offset nData rxBuf inside
    refine ⟨written, read.2.nvram, read.2.rxBuf, ddiNvmWrite_of_accepted checked, stores, ?_,
      ⟨?_, fetched.data, fetched.inPages⟩⟩
    · simp only [ddiNvmRead, if_neg checked, ret, if_neg (Int.lt_irrefl 0)]
      rfl
    · intro i below
      have here := @copyRange_inside Byte rxBuf
        (fun i => written.data (offset.toNat + i)) 0 _ i below
      rw [Nat.zero_add] at here
      rw [fetched.bytes, here, stores.data, copyRange_inside below]
  · intro outside n buf
    have checked : nvmdrvTotalSize < (offset + nData).toNat := by
      rw [BitVec.toNat_add]
      exact addressable.2 outside
    cases buf with
    | none => exact ⟨rfl, rfl⟩
    | some buf =>
        simp only [ddiNvmWrite, ddiNvmRead, if_pos checked]
        exact ⟨trivial, trivial⟩

/-- The last byte of a range that ends behind the first 64 KiB stays as it was. -/
theorem not_accessLaw_of_beyond (fits : offset.toNat + nData.toNat ≤ nvmdrvTotalSize)
    (beyond : 2 ^ 16 < offset.toNat + nData.toNat) (some : 0 < nData.toNat) :
    ¬ AccessLaw offset nData := by
  intro law
  obtain ⟨written, _, _, wrote, stores, _⟩ :=
    law.accepts fits ⟨fun _ => 0, []⟩ (fun _ => 1) (fun _ => 0)
  rw [ddiNvmWrite_of_accepted (toNat_add_of_fits fits), Prod.mk.injEq] at wrote
  have stored := congrFun stores.data (offset.toNat + (nData.toNat - 1))
  have kept := (@nvmWriteNvram_beyond ⟨fun _ => 0, []⟩ (fun _ => 1) offset nData
    (offset.toNat + (nData.toNat - 1)) (by omega)).2
  unfold SameAt at kept
  rw [copyRange_inside (by omega), ← wrote.2, kept] at stored
  change (0 : Byte) = 1 at stored
  exact absurd stored (by decide)

end

/-- The access law holds for an offset and a length if and only if the range does not
reach the second 64 KiB and its end does not wrap into the device. -/
theorem accessLaw_iff (offset nData : BitVec 32) :
    AccessLaw offset nData ↔ Addressable offset nData := by
  refine ⟨fun law => ⟨fun fits => ?_, fun outside => ?_⟩, accessLaw_of_addressable⟩
  · by_contra beyond
    rw [not_or, Nat.not_le] at beyond
    have some : 0 < nData.toNat := by
      rw [Nat.pos_iff_ne_zero]
      exact fun zero => beyond.1 (BitVec.eq_of_toNat_eq zero)
    exact not_accessLaw_of_beyond fits beyond.2 some law
  · by_contra wraps
    have refused := (law.refuses outside ⟨fun _ => 0, []⟩ (some fun _ => 0)).1
    have checked : ¬ nvmdrvTotalSize < (offset + nData).toNat := by
      rwa [BitVec.toNat_add]
    rw [ddiNvmWrite_of_accepted checked, Prod.mk.injEq] at refused
    exact absurd refused.1 (by decide)

/-- One byte written behind the first 64 KiB is stored in the header of the NVRAM. -/
theorem header_of_alias :
    let written := (ddiNvmWrite ⟨fun _ => 0, []⟩ 0x10000 1 (some fun _ => 1)).2
    written.data 0 = 1 ∧ written.data 0x10000 = 0 ∧ ¬ AccessLaw 0x10000 1 :=
  ⟨by decide, by decide, not_accessLaw_of_beyond (by decide) (by decide) (by decide)⟩

end Gp2Firmware.CmdLg
