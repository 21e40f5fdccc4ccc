import Gp2Firmware.Lib.Run
import Gp2Firmware.Lib.WordMemory

/-!
# The mail buffer

`mdrv_msmailbox_mbmgr.c` keeps a ring of mails at the start of its pages and the
indexes of the ring in a block four mails before their end.  `opMBFill` writes a
mail into the next slot of the ring and `opMBPutAddr` hands that slot out;
`opMBInstant` writes its mail into the slot behind the ring.
-/

namespace Gp2Firmware.Msmailbox.MailBuffer

open Lib.WordMemory

/-- The codes of `_ERR_CODE_` these functions return. -/
inductive ErrCode where
  | ok
  | memallocFail
  | mailboxInvalid
  deriving DecidableEq

/-- `msmailbox_queue_mgr_t` and the memory its pointers lead into. -/
structure QueueMgr where
  memory : Memory
  bValid : Bool
  u32PageNum : BitVec 32
  pBuf : Address
  pInfo : Address

/-- `u32PageNum*(0x01<<PAGE_SHIFT)/MSMAILBOX_SIZE - 4`, in 32 bits -/
def maxMailUnit (u32PageNum : BitVec 32) : BitVec 32 :=
  u32PageNum * (0x01#32 <<< 12) / 16#32 - 4#32

/-- The loop that copies a mail byte by byte. -/
def copyMail (memory : Memory) (dst src : Address) : Memory :=
  (List.range 16).foldl
    (fun memory ind =>
      Function.update memory (dst + BitVec.ofNat 32 ind)
        (memory (src + BitVec.ofNat 32 ind)))
    memory

/-- The calls after `opMBInit`, with where the mail to copy lies. -/
inductive Call where
  | fill (tMail : Address)
  | instant (tMail : Address)
  | putAddr

def Call.isInstant : Call → Bool
  | .instant _ => true
  | _ => false

namespace QueueMgr

/-- The fields of `msmailbox_info_t`. -/
def u32PutAdr (s : QueueMgr) : BitVec 32 := load s.memory s.pInfo
def u32GetAdr (s : QueueMgr) : BitVec 32 := load s.memory (s.pInfo + 4)
def u32MaxMUnit (s : QueueMgr) : BitVec 32 := load s.memory (s.pInfo + 8)
def u32Overflow (s : QueueMgr) : BitVec 32 := load s.memory (s.pInfo + 12)

/-- `msmailbox_queue_mgr` before `opMBInit`. -/
def start (memory : Memory) : QueueMgr where
  memory := memory
  bValid := false
  u32PageNum := 0
  pBuf := 0
  pInfo := 0

/-- `opMBInit`, with what `phys_to_virt` returns for `MAILBOX_ADR`. -/
def opMBInit (virt : Address) (u32PageNum : BitVec 32) (s : QueueMgr) : QueueMgr × ErrCode :=
  if s.bValid then (s, .mailboxInvalid)
  else if virt = 0 then
    ({ s with u32PageNum := u32PageNum, pBuf := virt }, .memallocFail)
  else
    let pInfo := virt + 16#32 * maxMailUnit u32PageNum
    ({ memory :=
        store (store (store (store s.memory pInfo 0) (pInfo + 4) 0)
          (pInfo + 8) (maxMailUnit u32PageNum - 1)) (pInfo + 12) 0
       bValid := true
       u32PageNum := u32PageNum
       pBuf := virt
       pInfo := pInfo }, .ok)

/-- The address of a slot. -/
def slotAddr (s : QueueMgr) (u32PutAdr : BitVec 32) : Address :=
  s.pBuf + u32PutAdr * 16#32

/-- `u32PutAdr + 1`, and 0 from `u32MaxMUnit` on -/
def nextPutAdr (u32MaxMUnit u32PutAdr : BitVec 32) : BitVec 32 :=
  if u32PutAdr + 1 ≥ u32MaxMUnit then 0 else u32PutAdr + 1

/-- `opMBInstant` -/
def opMBInstant (s : QueueMgr) (tMail : Address) : QueueMgr × ErrCode :=
  if s.bValid then
    ({ s with memory := copyMail s.memory (s.slotAddr (s.u32MaxMUnit + 1)) tMail }, .ok)
  else (s, .mailboxInvalid)

/-- `opMBFill`, which reads the limit after it has copied the mail. -/
def opMBFill (s : QueueMgr) (tMail : Address) : QueueMgr × ErrCode :=
  if s.bValid then
    let copied := { s with memory := copyMail s.memory (s.slotAddr s.u32PutAdr) tMail }
    ({ copied with
        memory :=
          store copied.memory s.pInfo (nextPutAdr copied.u32MaxMUnit s.u32PutAdr) }, .ok)
  else (s, .mailboxInvalid)

/-- `opMBPutAddr`, with the slot it hands out. -/
def opMBPutAddr (s : QueueMgr) : QueueMgr × ErrCode × Option Address :=
  if s.bValid then
    ({ s with memory := store s.memory s.pInfo (nextPutAdr s.u32MaxMUnit s.u32PutAdr) },
      .ok, some (s.slotAddr s.u32PutAdr))
  else (s, .mailboxInvalid, none)

def after (s : QueueMgr) : Call → QueueMgr
  | .fill tMail => (s.opMBFill tMail).1
  | .instant tMail => (s.opMBInstant tMail).1
  | .putAddr => s.opMBPutAddr.1

/-- The slot a call writes or hands out. -/
def slotOf (s : QueueMgr) : Call → Option Address
  | .fill _ => if s.bValid then some (s.slotAddr s.u32PutAdr) else none
  | .instant _ => if s.bValid then some (s.slotAddr (s.u32MaxMUnit + 1)) else none
  | .putAddr => s.opMBPutAddr.2.2

/-- A byte of the pages. -/
def InBuffer (s : QueueMgr) (byte : Address) : Prop :=
  (byte - s.pBuf).toNat < 4096 * s.u32PageNum.toNat

/-- A byte of the `msmailbox_info_t`. -/
def InInfo (s : QueueMgr) (byte : Address) : Prop :=
  (byte - s.pInfo).toNat < 16

/-- A call keeps to the ring: the slot is in the buffer, outside of the indexes, and of
these only `u32PutAdr` moves on. -/
structure KeepsLayout (s : QueueMgr) (call : Call) : Prop where
  slot : ∀ slot ∈ s.slotOf call, ∀ ind < 16,
    s.InBuffer (slot + BitVec.ofNat 32 ind) ∧ ¬ s.InInfo (slot + BitVec.ofNat 32 ind)
  getAdr : (s.after call).u32GetAdr = s.u32GetAdr
  maxMUnit : (s.after call).u32MaxMUnit = s.u32MaxMUnit
  overflow : (s.after call).u32Overflow = s.u32Overflow
  putAdr : (s.after call).u32PutAdr =
    if s.bValid ∧ ¬ call.isInstant then nextPutAdr s.u32MaxMUnit s.u32PutAdr
    else s.u32PutAdr

/-- What `opMBInit` leaves. -/
structure Laid (s : QueueMgr) : Prop where
  valid : s.bValid = true
  pages : 0 < s.u32PageNum
  pInfo : s.pInfo = s.pBuf + 16#32 * maxMailUnit s.u32PageNum
  maxMUnit : s.u32MaxMUnit = maxMailUnit s.u32PageNum - 1
  putAdr : s.u32PageNum.toNat % 2 ^ 20 ≠ 0 →
    s.u32PutAdr.toNat + 1 < (maxMailUnit s.u32PageNum).toNat

variable {s : QueueMgr} {call : Call} {memory : Memory} {dst src byte virt : Address}
  {pages : BitVec 32}

section Bytes

/-- Only the bytes of the slot change. -/
theorem copyMail_of_le (far : 16 ≤ (byte - dst).toNat) :
    copyMail memory dst src byte = memory byte := by
  have loop : ∀ inds : List Nat, (∀ ind ∈ inds, ind < 16) → ∀ memory : Memory,
      inds.foldl (fun memory ind => Function.update memory (dst + BitVec.ofNat 32 ind)
        (memory (src + BitVec.ofNat 32 ind))) memory byte = memory byte := by
    intro inds
    induction inds with
    | nil => intro _ memory; simp
    | cons ind inds inductionHypothesis =>
        intro small memory
        have other : byte ≠ dst + BitVec.ofNat 32 ind := by
          have := small ind (by simp)
          bv_omega
        have rest : ∀ ind ∈ inds, ind < 16 := fun ind member =>
          small ind (List.mem_cons_of_mem _ member)
        simpa only [List.foldl_cons, Function.update_of_ne other] using
          inductionHypothesis rest
            (Function.update memory (dst + BitVec.ofNat 32 ind)
              (memory (src + BitVec.ofNat 32 ind)))
  apply loop
  intro ind member
  simpa using member

/-- A word apart from the slot. -/
theorem load_copyMail {address : Address}
    (apart : ∀ byte : Address, (byte - address).toNat < 4 → 16 ≤ (byte - dst).toNat) :
    load (copyMail memory dst src) address = load memory address :=
  load_congr fun byte near => copyMail_of_le (apart byte near)

end Bytes

section Units

theorem toNat_maxMailUnit :
    (maxMailUnit pages).toNat =
      (2 ^ 32 - 4 + 256 * (pages.toNat % 2 ^ 20)) % 2 ^ 32 := by
  have shift : (1 % 2 ^ 32) <<< 12 % 2 ^ 32 = 4096 := by decide
  have size : 16 % 2 ^ 32 = 16 := by decide
  simp only [maxMailUnit, BitVec.toNat_sub, BitVec.toNat_udiv, BitVec.toNat_mul,
    BitVec.toNat_shiftLeft, BitVec.toNat_ofNat, shift, size]
  omega

/-- Two slots are the same or apart. -/
theorem toNat_slot_sub {first second : BitVec 32} {ind : Nat} (small : ind < 16) :
    (dst + first * 16#32 + BitVec.ofNat 32 ind - (dst + 16#32 * second)).toNat =
      16 * (((first - second).toNat) % 2 ^ 28) + ind := by
  simp only [BitVec.toNat_sub, BitVec.toNat_add, BitVec.toNat_mul, BitVec.toNat_ofNat]
  omega

theorem toNat_nextPutAdr {limit put : BitVec 32} (small : put.toNat + 1 < 2 ^ 32) :
    (nextPutAdr limit put).toNat =
      if limit.toNat ≤ put.toNat + 1 then 0 else put.toNat + 1 := by
  unfold nextPutAdr
  split <;> split <;> bv_omega

end Units

/-- The calls leave the pointers and the page count. -/
@[simp]
theorem pInfo_after : (s.after call).pInfo = s.pInfo := by
  cases call <;> simp only [after, opMBFill, opMBInstant, opMBPutAddr] <;> split <;> simp

@[simp]
theorem pBuf_after : (s.after call).pBuf = s.pBuf := by
  cases call <;> simp only [after, opMBFill, opMBInstant, opMBPutAddr] <;> split <;> simp

@[simp]
theorem u32PageNum_after : (s.after call).u32PageNum = s.u32PageNum := by
  cases call <;> simp only [after, opMBFill, opMBInstant, opMBPutAddr] <;> split <;> simp

@[simp]
theorem bValid_after : (s.after call).bValid = s.bValid := by
  cases call <;> simp only [after, opMBFill, opMBInstant, opMBPutAddr] <;> split <;> simp

/-- The slot that holds the indexes themselves. -/
def OnInfo (s : QueueMgr) (u32PutAdr : BitVec 32) : Prop :=
  (u32PutAdr - maxMailUnit s.u32PageNum).toNat % 2 ^ 28 = 0

theorem onInfo_iff_of_whole (whole : s.u32PageNum.toNat % 2 ^ 20 = 0) :
    s.OnInfo s.u32PutAdr ↔ s.u32PutAdr.toNat % 2 ^ 28 = 2 ^ 28 - 4 := by
  have units := @toNat_maxMailUnit s.u32PageNum
  unfold OnInfo
  bv_omega

namespace Laid

theorem inInfo_iff (laid : s.Laid) {unit : BitVec 32} {ind : Nat} (small : ind < 16) :
    s.InInfo (s.slotAddr unit + BitVec.ofNat 32 ind) ↔ s.OnInfo unit := by
  unfold InInfo slotAddr OnInfo
  rw [laid.pInfo, toNat_slot_sub small]
  omega

/-- The slot of `opMBInstant` -/
theorem onInfo_instant (laid : s.Laid) : s.OnInfo (s.u32MaxMUnit + 1) := by
  unfold OnInfo
  rw [laid.maxMUnit]
  bv_omega

/-- The indexes are where they were after a copy into another slot. -/
theorem load_copy (laid : s.Laid) {unit : BitVec 32} (other : ¬ s.OnInfo unit)
    {address : Address} (word : (address - s.pInfo).toNat ≤ 12) :
    load (copyMail s.memory (s.slotAddr unit) src) address = load s.memory address := by
  apply load_copyMail
  intro byte near
  by_contra close
  have inside : s.InInfo byte := by
    unfold InInfo
    bv_omega
  have place : byte = s.slotAddr unit + BitVec.ofNat 32 (byte - s.slotAddr unit).toNat := by
    rw [BitVec.ofNat_toNat, BitVec.setWidth_eq]
    bv_omega
  rw [place, laid.inInfo_iff (by omega)] at inside
  exact other inside

/-- The slots of the ring are in the pages. -/
theorem inBuffer (laid : s.Laid) {ind : Nat} (small : ind < 16) :
    s.InBuffer (s.slotAddr s.u32PutAdr + BitVec.ofNat 32 ind) := by
  have positive := laid.pages
  have ring := laid.putAdr
  rw [toNat_maxMailUnit] at ring
  unfold InBuffer slotAddr
  have offset : s.pBuf + s.u32PutAdr * 16#32 + BitVec.ofNat 32 ind - s.pBuf =
      s.u32PutAdr * 16#32 + BitVec.ofNat 32 ind := by
    bv_omega
  rw [offset]
  by_cases whole : s.u32PageNum.toNat % 2 ^ 20 = 0 <;> bv_omega

theorem slotOf_ring (laid : s.Laid) (ring : ¬ call.isInstant) :
    s.slotOf call = some (s.slotAddr s.u32PutAdr) := by
  cases call <;> simp_all [slotOf, opMBPutAddr, laid.valid, Call.isInstant]

/-- A call on another slot writes `u32PutAdr` and no other word of the indexes. -/
theorem load_after (laid : s.Laid) (ring : ¬ call.isInstant)
    (other : ¬ s.OnInfo s.u32PutAdr) {address : Address}
    (above : 4 ≤ (address - s.pInfo).toNat) (word : (address - s.pInfo).toNat ≤ 12) :
    load (s.after call).memory address = load s.memory address := by
  have apart {memory : Memory} {put : BitVec 32} :
      load (store memory s.pInfo put) address = load memory address :=
    load_store_of_apart (by bv_omega) above
  cases call with
  | fill tMail => simp [after, opMBFill, laid.valid, apart, laid.load_copy other word]
  | instant tMail => simp [Call.isInstant] at ring
  | putAddr => simp [after, opMBPutAddr, laid.valid, apart]

theorem u32PutAdr_after (laid : s.Laid) (ring : ¬ call.isInstant)
    (other : ¬ s.OnInfo s.u32PutAdr) :
    (s.after call).u32PutAdr = nextPutAdr s.u32MaxMUnit s.u32PutAdr := by
  cases call with
  | fill tMail =>
      have limit : load (copyMail s.memory (s.slotAddr s.u32PutAdr) tMail) (s.pInfo + 8) =
          s.u32MaxMUnit :=
        laid.load_copy other (by bv_omega)
      have moved : (s.after (.fill tMail)).memory =
          store (copyMail s.memory (s.slotAddr s.u32PutAdr) tMail) s.pInfo
            (nextPutAdr (load (copyMail s.memory (s.slotAddr s.u32PutAdr) tMail)
              (s.pInfo + 8)) s.u32PutAdr) := by
        simp [after, opMBFill, laid.valid, u32MaxMUnit]
      rw [QueueMgr.u32PutAdr, pInfo_after, moved, load_store, limit]
  | instant tMail => simp [Call.isInstant] at ring
  | putAddr => simp [after, opMBPutAddr, laid.valid, QueueMgr.u32PutAdr]

theorem keepsLayout_iff (laid : s.Laid) :
    s.KeepsLayout call ↔ ¬ call.isInstant ∧ ¬ s.OnInfo s.u32PutAdr := by
  constructor
  · intro keeps
    have ring : ¬ call.isInstant := by
      intro instant
      cases call with
      | fill tMail => simp [Call.isInstant] at instant
      | putAddr => simp [Call.isInstant] at instant
      | instant tMail =>
          have outside := (keeps.slot (s.slotAddr (s.u32MaxMUnit + 1))
            (by simp [slotOf, laid.valid]) 0 (by simp)).2
          exact outside ((laid.inInfo_iff (by simp)).mpr laid.onInfo_instant)
    refine ⟨ring, fun same => ?_⟩
    have outside := (keeps.slot (s.slotAddr s.u32PutAdr)
      (by simp [laid.slotOf_ring ring]) 0 (by simp)).2
    exact outside ((laid.inInfo_iff (by simp)).mpr same)
  · intro ⟨ring, other⟩
    constructor
    · intro slot found ind small
      rw [laid.slotOf_ring ring, Option.mem_some_iff] at found
      rw [← found, laid.inInfo_iff small]
      exact ⟨laid.inBuffer small, other⟩
    · simpa [u32GetAdr] using laid.load_after ring other (by bv_omega) (by bv_omega)
    · simpa [u32MaxMUnit] using laid.load_after ring other (by bv_omega) (by bv_omega)
    · simpa [u32Overflow] using laid.load_after ring other (by bv_omega) (by bv_omega)
    · rw [laid.u32PutAdr_after ring other, if_pos ⟨laid.valid, ring⟩]

/-- A call that keeps to the ring leaves what `opMBInit` has laid out. -/
theorem laid_after (laid : s.Laid) (keeps : s.KeepsLayout call) : (s.after call).Laid := by
  obtain ⟨ring, other⟩ := laid.keepsLayout_iff.mp keeps
  refine ⟨by simpa using laid.valid, by simpa using laid.pages, by simpa using laid.pInfo,
    ?_, ?_⟩
  · rw [keeps.maxMUnit, laid.maxMUnit, u32PageNum_after]
  · intro partly
    rw [u32PageNum_after] at partly ⊢
    have before := laid.putAdr partly
    rw [laid.u32PutAdr_after ring other, toNat_nextPutAdr (by bv_omega), laid.maxMUnit]
    have units := @toNat_maxMailUnit s.u32PageNum
    split <;> bv_omega

theorem not_onInfo (laid : s.Laid) (partly : s.u32PageNum.toNat % 2 ^ 20 ≠ 0) :
    ¬ s.OnInfo s.u32PutAdr := by
  have ring := laid.putAdr partly
  have units := @toNat_maxMailUnit s.u32PageNum
  unfold OnInfo
  bv_omega

/-- Where the slots come around to the indexes, the calls left before they do. -/
theorem meets_iff_of_whole (laid : s.Laid) (whole : s.u32PageNum.toNat % 2 ^ 20 = 0)
    (before : s.u32PutAdr.toNat ≤ 2 ^ 28 - 4) (calls : List Call) :
    Run.Meets after KeepsLayout s calls ↔
      (∀ call ∈ calls, ¬ call.isInstant) ∧
        s.u32PutAdr.toNat + calls.length ≤ 2 ^ 28 - 4 := by
  induction calls generalizing s with
  | nil => exact iff_of_true trivial ⟨by simp, by simpa using before⟩
  | cons call rest inductionHypothesis =>
      rw [Run.Meets, List.forall_mem_cons, List.length_cons]
      by_cases keeps : s.KeepsLayout call
      · obtain ⟨ring, other⟩ := laid.keepsLayout_iff.mp keeps
        have next := laid.laid_after keeps
        rw [onInfo_iff_of_whole whole] at other
        have moved : (s.after call).u32PutAdr.toNat = s.u32PutAdr.toNat + 1 := by
          have units := @toNat_maxMailUnit s.u32PageNum
          rw [keeps.putAdr, if_pos ⟨laid.valid, ring⟩, toNat_nextPutAdr (by omega),
            laid.maxMUnit, if_neg (by bv_omega)]
        rw [inductionHypothesis next (by simpa using whole) (by omega), moved]
        simp only [keeps, ring, true_and, not_false_eq_true, Bool.false_eq_true]
        have count : s.u32PutAdr.toNat + 1 + rest.length =
            s.u32PutAdr.toNat + (rest.length + 1) := by
          omega
        rw [count]
      · have stopped := keeps
        rw [laid.keepsLayout_iff, onInfo_iff_of_whole whole] at stopped
        constructor
        · intro meets
          exact absurd meets.1 keeps
        · rintro ⟨⟨ring, _⟩, room⟩
          exact absurd ⟨ring, by omega⟩ stopped

/-- The calls after `opMBInit` that keep to the ring. -/
theorem meets_iff (laid : s.Laid) (first : s.u32PutAdr = 0) (calls : List Call) :
    Run.Meets after KeepsLayout s calls ↔
      (∀ call ∈ calls, ¬ call.isInstant) ∧
        (s.u32PageNum.toNat % 2 ^ 20 ≠ 0 ∨ calls.length ≤ 2 ^ 28 - 4) := by
  by_cases whole : s.u32PageNum.toNat % 2 ^ 20 = 0
  · have start : s.u32PutAdr.toNat + calls.length = calls.length := by
      simp [first]
    rw [laid.meets_iff_of_whole whole (by simp [first]), start,
      or_iff_right (not_not.mpr whole)]
  · have same := @Run.meets_congr _ _ after KeepsLayout (fun _ call => ¬ call.isInstant)
      (fun s => s.Laid ∧ s.u32PageNum.toNat % 2 ^ 20 ≠ 0)
      (fun s call here => by
        rw [here.1.keepsLayout_iff]
        exact and_iff_left (here.1.not_onInfo here.2))
      (fun s call here keeps =>
        ⟨here.1.laid_after keeps, by simpa using here.2⟩) s calls ⟨laid, whole⟩
    rw [same, Run.meets_forall_iff]
    exact (and_iff_left (Or.inl whole)).symm

end Laid

section Init

theorem opMBInit_of_null : ((start memory).opMBInit 0 pages).1.bValid = false := by
  simp [opMBInit, start]

theorem opMBInit_of_mapped (mapped : virt ≠ 0) :
    ((start memory).opMBInit virt pages).1 =
      { memory :=
          store (store (store (store memory (virt + 16#32 * maxMailUnit pages) 0)
            (virt + 16#32 * maxMailUnit pages + 4) 0)
            (virt + 16#32 * maxMailUnit pages + 8) (maxMailUnit pages - 1))
            (virt + 16#32 * maxMailUnit pages + 12) 0
        bValid := true
        u32PageNum := pages
        pBuf := virt
        pInfo := virt + 16#32 * maxMailUnit pages } := by
  unfold opMBInit
  rw [if_neg (by simp [start]), if_neg mapped]
  simp only [start]

/-- `opMBInit` starts with slot 0. -/
theorem opMBInit_laid (positive : 0 < pages) (mapped : virt ≠ 0) :
    ((start memory).opMBInit virt pages).1.Laid ∧
      ((start memory).opMBInit virt pages).1.u32PutAdr = 0 ∧
      ((start memory).opMBInit virt pages).1.u32PageNum = pages := by
  have done : ((start memory).opMBInit virt pages).1.bValid = true := by
    rw [opMBInit_of_mapped mapped]
  have count : ((start memory).opMBInit virt pages).1.u32PageNum = pages := by
    rw [opMBInit_of_mapped mapped]
  have pInfo : ((start memory).opMBInit virt pages).1.pInfo =
      ((start memory).opMBInit virt pages).1.pBuf + 16#32 * maxMailUnit pages := by
    rw [opMBInit_of_mapped mapped]
  have first : ((start memory).opMBInit virt pages).1.u32PutAdr = 0 := by
    rw [opMBInit_of_mapped mapped, u32PutAdr, load_store_of_apart, load_store_of_apart,
      load_store_of_apart, load_store] <;> bv_omega
  have limit : ((start memory).opMBInit virt pages).1.u32MaxMUnit =
      maxMailUnit pages - 1 := by
    rw [opMBInit_of_mapped mapped, u32MaxMUnit, load_store_of_apart, load_store] <;> bv_omega
  refine ⟨⟨done, by rwa [count], by rw [count, pInfo], by rw [count, limit], ?_⟩,
    first, count⟩
  intro partly
  rw [count] at partly ⊢
  rw [first, toNat_maxMailUnit]
  bv_omega

end Init

/-- A call before the buffer is there does nothing. -/
theorem keepsLayout_of_invalid (invalid : s.bValid = false) : s.KeepsLayout call := by
  have same : s.after call = s := by
    cases call <;> simp [after, opMBFill, opMBInstant, opMBPutAddr, invalid]
  constructor
  · intro slot found
    cases call <;> simp [slotOf, opMBPutAddr, invalid] at found
  all_goals simp [same, invalid]

/-- The calls after `opMBInit` keep to the ring exactly when none of them is
`opMBInstant`, and they are not so many that the slots of a buffer of no bytes come
around to the indexes. -/
theorem layout_iff (virt : Address) (memory : Memory) (positive : 0 < pages)
    (calls : List Call) :
    Run.Meets after KeepsLayout ((start memory).opMBInit virt pages).1 calls ↔
      virt = 0 ∨ (∀ call ∈ calls, ¬ call.isInstant) ∧
        (pages.toNat % 2 ^ 20 ≠ 0 ∨ calls.length ≤ 2 ^ 28 - 4) := by
  by_cases mapped : virt = 0
  · have same := @Run.meets_congr _ _ after KeepsLayout (fun _ _ => True)
      (fun s => s.bValid = false)
      (fun s call invalid => iff_of_true (keepsLayout_of_invalid invalid) trivial)
      (fun s call invalid _ => by simpa using invalid)
      ((start memory).opMBInit virt pages).1 calls
      (by rw [mapped, opMBInit_of_null])
    rw [same, Run.meets_forall_iff]
    simp [mapped]
  · obtain ⟨laid, first, count⟩ := @opMBInit_laid memory virt pages positive mapped
    rw [laid.meets_iff first, count, or_iff_right mapped]

theorem layout_iff_eightPages :
    Run.Meets after KeepsLayout ((start fun _ => 0).opMBInit 0xA0000000 8).1
        [.fill 0x80000000, .putAddr] ↔
      (0xA0000000 : Address) = 0 ∨
        (∀ call ∈ [Call.fill 0x80000000, .putAddr], ¬ call.isInstant) ∧
          ((8 : BitVec 32).toNat % 2 ^ 20 ≠ 0 ∨
            [Call.fill 0x80000000, .putAddr].length ≤ 2 ^ 28 - 4) :=
  layout_iff 0xA0000000 (fun _ => 0) (by decide) [.fill 0x80000000, .putAddr]

/-- `opMBInstant` puts a mail of bytes 0xFF over the indexes. -/
theorem instant_overIndexes :
    ¬ Run.Meets after KeepsLayout ((start fun _ => 0xFF).opMBInit 0xA0000000 8).1
        [.instant 0x80000000] ∧
      (((start fun _ => 0xFF).opMBInit 0xA0000000 8).1.opMBInstant 0x80000000).1.u32PutAdr =
        0xFFFFFFFF := by
  constructor
  · intro meets
    have kept := meets.1.maxMUnit
    exact absurd kept (by decide +kernel)
  · decide +kernel

end QueueMgr

end Gp2Firmware.Msmailbox.MailBuffer
