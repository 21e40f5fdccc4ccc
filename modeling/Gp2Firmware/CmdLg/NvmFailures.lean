import Gp2Firmware.CmdLg.Nvm

/-!
# Failures of the NVRAM

`DDI_NVM_Read` and `DDI_NVM_Write` of `cmd_nvm.c` over a bus whose transfers may fail.  Both
keep the result of a transfer in an unsigned variable before they compare it with zero.
-/

namespace Gp2Firmware.CmdLg.NvmFailures

open Gp2Firmware.Lib

/-! ### The bus -/

/-- What becomes of the transfers, by their place in the order in which they are issued. -/
structure Bus where
  /-- the result of `MDrv_HW_IIC_Write` or `MDrv_HW_IIC_Read` -/
  result : Nat → BitVec 32
  /-- the bytes that the device sends, and how many of them come before the transfer ends -/
  sent : Nat → Nat → Byte
  arrived : Nat → Nat

def Bus.Fails (bus : Bus) (place : Nat) : Prop := (bus.result place).toInt < 0

instance (bus : Bus) (place : Nat) : Decidable (bus.Fails place) :=
  inferInstanceAs (Decidable (_ < _))

inductive Request where
  | write (slaveId : Byte) (addr data : List Byte)
  | read (slaveId : Byte) (addr : List Byte) (bufSize : Nat)

/-- The requests so far and the caller's buffer. -/
structure Session where
  requests : List Request
  rxBuf : Nat → Byte

/-! ### The driver -/

section Driver

variable (bus : Bus)

/-- A page, or a part of one, of `_NVM_WriteNvram`. -/
def writePiece (txBuf : Nat → Byte) (offset : BitVec 16) (len pos : Nat) (s : Session) :
    Int × Session :=
  let request :=
    Request.write nvmId (subAddr offset) ((List.range len).map fun i => txBuf (pos + i))
  let retVal := bus.result s.requests.length
  let s := { s with requests := s.requests ++ [request] }
  if failed retVal then (-1, s)
  else if failed nvmCheckState then (-1, s)
  else (0, s)

/-- A page, or a part of one, of `_NVM_ReadNvram`. -/
def readPiece (offset : BitVec 16) (len pos : Nat) (s : Session) : Int × Session :=
  let place := s.requests.length
  let retVal := bus.result place
  let s : Session :=
    { requests := s.requests ++ [.read nvmId (subAddr offset) len]
      rxBuf := copyRange s.rxBuf pos (min len (bus.arrived place)) (bus.sent place) }
  if failed retVal then (-1, s) else (0, s)

/-- `DDI_NVM_Write` -/
def ddiNvmWrite (offset nData : BitVec 32) (txBuf : Option (Nat → Byte)) : Int × Session :=
  match txBuf with
  | none => (-1, ⟨[], fun _ => 0⟩)
  | some txBuf =>
      if nvmdrvTotalSize < (offset + nData).toNat then (-1, ⟨[], txBuf⟩)
      else
        let done := pagewise (writePiece bus txBuf) offset.toNat nData.toNat ⟨[], txBuf⟩
        if done.1 < 0 then (-1, done.2) else done

/-- `DDI_NVM_Read` -/
def ddiNvmRead (offset nData : BitVec 32) (rxBuf : Option (Nat → Byte)) : Int × Session :=
  match rxBuf with
  | none => (-1, ⟨[], fun _ => 0⟩)
  | some rxBuf =>
      if nvmdrvTotalSize < (offset + nData).toNat then (-1, ⟨[], rxBuf⟩)
      else
        let done := pagewise (readPiece bus) offset.toNat nData.toNat ⟨[], rxBuf⟩
        if done.1 < 0 then (-1, done.2) else done

end Driver

/-! ### What the calls are to report -/

/-- A call returns a negative value if a transfer failed, and that was its last one. -/
structure Reports (bus : Bus) (call : Int × Session) : Prop where
  negative : ∀ place < call.2.requests.length, bus.Fails place → call.1 < 0
  stops : ∀ place < call.2.requests.length, bus.Fails place →
    place + 1 = call.2.requests.length

/-- The pages that a range touches. -/
def pagesOf (offset nData : Nat) : Nat :=
  if nData = 0 then 0 else (offset % nvmdrvPageSize + nData - 1) / nvmdrvPageSize + 1

/-- The buffer is missing or the end of the range, in 32 bits, is behind the device. -/
def Refused (offset nData : BitVec 32) (buf : Option (Nat → Byte)) : Prop :=
  buf = none ∨ nvmdrvTotalSize < (offset + nData).toNat

/-! ### The transfers of a range -/

section

variable {bus : Bus} {piece : BitVec 16 → Nat → Nat → Session → Int × Session}
  {offset nData : Nat} {s : Session}

/-- A piece returns no failure and is one transfer. -/
def GoesOn (piece : BitVec 16 → Nat → Nat → Session → Int × Session) : Prop :=
  ∀ offset len pos s, (piece offset len pos s).1 = 0 ∧
    (piece offset len pos s).2.requests.length = s.requests.length + 1

theorem writePiece_goesOn (txBuf : Nat → Byte) : GoesOn (writePiece bus txBuf) := by
  intro offset len pos s
  simp [writePiece]

theorem readPiece_goesOn : GoesOn (readPiece bus) := by
  intro offset len pos s
  simp [readPiece]

theorem midPages_length (goesOn : GoesOn piece) (left : Nat) (midPageOffset : BitVec 16)
    (pos : Nat) :
    (midPages piece left midPageOffset pos s).1 = 0 ∧
      (midPages piece left midPageOffset pos s).2.requests.length =
        s.requests.length + left := by
  induction left generalizing midPageOffset pos s with
  | zero => exact ⟨rfl, rfl⟩
  | succ left inductionHypothesis =>
      obtain ⟨fine, issued⟩ := goesOn midPageOffset nvmdrvPageSize pos s
      obtain ⟨ends, all⟩ := @inductionHypothesis
        (piece midPageOffset nvmdrvPageSize pos s).2
        (midPageOffset + BitVec.ofNat 16 nvmdrvPageSize) (pos + nvmdrvPageSize)
      rw [midPages, fine, if_neg (Int.lt_irrefl 0)]
      exact ⟨ends, by omega⟩

/-- The head page, the whole pages and the tail page are the pages of the range. -/
theorem pagesOf_eq :
    pagesOf offset nData =
      (if 0 < headPageLength offset nData then 1 else 0) + midPageIterate offset nData +
        (if 0 < nData - headPageLength offset nData -
          nvmdrvPageSize * midPageIterate offset nData then 1 else 0) := by
  rw [pagesOf, midPageIterate, headPageLength_eq_min, nvmdrvPageSize]
  have rest := Nat.mod_lt offset (by decide : 128 > 0)
  split <;> split <;> split <;> omega

theorem pagewise_length (goesOn : GoesOn piece) :
    (pagewise piece offset nData s).1 = 0 ∧
      (pagewise piece offset nData s).2.requests.length =
        s.requests.length + pagesOf offset nData := by
  rw [pagesOf_eq]
  unfold pagewise
  dsimp only
  generalize headPageLength offset nData = headLength
  generalize midPageIterate offset nData = iterate
  -- the head page
  have head : (if 0 < headLength then piece (BitVec.ofNat 16 offset) headLength 0 s
        else (0, s)).1 = 0 ∧
      (if 0 < headLength then piece (BitVec.ofNat 16 offset) headLength 0 s
        else (0, s)).2.requests.length =
          s.requests.length + if 0 < headLength then 1 else 0 := by
    split
    · exact goesOn _ _ _ _
    · exact ⟨rfl, rfl⟩
  generalize (if 0 < headLength then piece (BitVec.ofNat 16 offset) headLength 0 s
    else (0, s)) = afterHead at head ⊢
  rw [head.1, if_neg (Int.lt_irrefl 0)]
  -- the whole pages
  generalize BitVec.ofNat 16 ((BitVec.ofNat 16 offset).toNat + headLength) = midPageOffset
  have mid := @midPages_length piece afterHead.2 goesOn iterate midPageOffset headLength
  generalize midPages piece iterate midPageOffset headLength afterHead.2 = afterMid at mid ⊢
  rw [mid.1, if_neg (Int.lt_irrefl 0)]
  -- the tail page
  split
  · obtain ⟨fine, issued⟩ := goesOn
      (BitVec.ofNat 16 (midPageOffset.toNat + nvmdrvPageSize * iterate))
      (nData - headLength - nvmdrvPageSize * iterate)
      (headLength + nvmdrvPageSize * iterate) afterMid.2
    exact ⟨fine, by omega⟩
  · exact ⟨rfl, by dsimp only; omega⟩

/-- A call that goes on whatever happens reports the failures only if there are none. -/
theorem reports_iff_of_length {call : Int × Session} {pages : Nat} (fine : call.1 = 0)
    (issued : call.2.requests.length = pages) :
    Reports bus call ↔ ∀ place < pages, ¬ bus.Fails place := by
  constructor
  · intro reports place below fails
    have negative := reports.negative place (issued ▸ below) fails
    omega
  · intro clear
    constructor
    · intro place below fails
      exact absurd fails (clear place (issued ▸ below))
    · intro place below fails
      exact absurd fails (clear place (issued ▸ below))

theorem reports_of_nothing {call : Int × Session} (nothing : call.2.requests = []) :
    Reports bus call := by
  have none : call.2.requests.length = 0 := by rw [nothing, List.length_nil]
  constructor
  · intro place below
    omega
  · intro place below
    omega

end

section

variable {bus : Bus} {offset nData : BitVec 32}

theorem reports_pagewise {piece : BitVec 16 → Nat → Nat → Session → Int × Session}
    {buf : Nat → Byte} (goesOn : GoesOn piece)
    (accepted : ¬ nvmdrvTotalSize < (offset + nData).toNat) :
    Reports bus
        (let done := pagewise piece offset.toNat nData.toNat ⟨[], buf⟩
        if done.1 < 0 then (-1, done.2) else done) ↔
      Refused offset nData (some buf) ∨
        ∀ place < pagesOf offset.toNat nData.toNat, ¬ bus.Fails place := by
  obtain ⟨fine, issued⟩ :=
    @pagewise_length piece offset.toNat nData.toNat ⟨[], buf⟩ goesOn
  have admitted : ¬ Refused offset nData (some buf) := by
    rintro (missing | outside)
    · exact absurd missing (Option.some_ne_none buf)
    · exact accepted outside
  dsimp only
  rw [fine, if_neg (Int.lt_irrefl 0), or_iff_right admitted]
  exact reports_iff_of_length fine (issued.trans (Nat.zero_add _))

end

/-- Both calls report the failures of the bus if and only if they issue no transfer or none
of the transfers for the pages of the range fails. -/
theorem nvmReports_iff (bus : Bus) (offset nData : BitVec 32) (buf : Option (Nat → Byte)) :
    (Reports bus (ddiNvmWrite bus offset nData buf) ↔
      Refused offset nData buf ∨
        ∀ place < pagesOf offset.toNat nData.toNat, ¬ bus.Fails place) ∧
    (Reports bus (ddiNvmRead bus offset nData buf) ↔
      Refused offset nData buf ∨
        ∀ place < pagesOf offset.toNat nData.toNat, ¬ bus.Fails place) := by
  cases buf with
  | none =>
      have refused : Refused offset nData none := Or.inl (Eq.refl none)
      exact ⟨iff_of_true (reports_of_nothing rfl) (Or.inl refused),
        iff_of_true (reports_of_nothing rfl) (Or.inl refused)⟩
  | some buf =>
      rw [ddiNvmWrite, ddiNvmRead]
      by_cases outside : nvmdrvTotalSize < (offset + nData).toNat
      · have refused : Refused offset nData (some buf) := Or.inr outside
        rw [if_pos outside, if_pos outside]
        exact ⟨iff_of_true (reports_of_nothing rfl) (Or.inl refused),
          iff_of_true (reports_of_nothing rfl) (Or.inl refused)⟩
      · rw [if_neg outside, if_neg outside]
        exact ⟨reports_pagewise (writePiece_goesOn buf) outside,
          reports_pagewise readPiece_goesOn outside⟩

/-- A write of one byte returns 0 although its only transfer failed. -/
theorem zero_of_failed_write :
    let bus : Bus := ⟨fun _ => 0xfffffffe, fun _ _ => 0, fun _ => 0⟩
    let call := ddiNvmWrite bus 0 1 (some fun _ => 1)
    call.1 = 0 ∧ call.2.requests.length = 1 ∧ bus.Fails 0 ∧ ¬ Reports bus call := by
  refine ⟨by decide, by decide, by decide, fun reports => ?_⟩
  exact absurd (reports.negative 0 (by decide) (by decide)) (by decide)

end Gp2Firmware.CmdLg.NvmFailures
