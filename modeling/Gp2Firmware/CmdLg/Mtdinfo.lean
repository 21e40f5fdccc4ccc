import Mathlib.Data.Fintype.Card
import Mathlib.Logic.Function.Basic
import Mathlib.Tactic.Common

/-!
# The partition table of the boot loader

`mtdinfo` with its searches and `write_flash_data`, `save_mtdinfo`, `load_mtdinfo` and
`erase_cachepart`.  What the drivers below answer is a function of all that they have
been asked so far.
-/

namespace Gp2Firmware.CmdLg

/-! ### Strings -/

/-- The characters of a C string before its end. -/
abbrev CString := List (BitVec 8)

/-- A literal. -/
def str (chars : List Char) : CString :=
  chars.map fun c => BitVec.ofNat 8 c.toNat

/-- `strncmp` returns 0. -/
def strncmpEq (n : Nat) (s t : CString) : Bool := s.take n == t.take n

/-- `"mtdinfo"` -/
def mtdinfoName : CString := str ['m', 't', 'd', 'i', 'n', 'f', 'o']

/-! ### The table -/

/-- `NO` -/
def no : BitVec 8 := 0x00

/-- `YES` -/
def yes : BitVec 8 := 0x01

/-- `MTD_PARTITION_MAX` -/
def mtdPartitionMax : Nat := 32

/-- `MTD_MAP_MAX` -/
def mtdMapMax : Nat := 4

/-- `MTD_FLG_CACHE` -/
def mtdFlgCache : BitVec 8 := 8

/-- `CONFIG_MAGIC` -/
def configMagic : BitVec 32 := 0x20090729

/-- `CFG_FLASH_BASE` -/
def cfgFlashBase : BitVec 32 := 0x00000000

/-- `DEFAULT_MTDINFO_BASE` -/
def defaultMtdinfoBase : BitVec 32 := 0xc0000

/-- `struct mtd_partition_info` -/
structure MtdPartitionInfo where
  name : CString
  offset : BitVec 32
  size : BitVec 32
  filename : CString
  filesize : BitVec 32
  swVer : BitVec 32
  used : BitVec 8
  valid : BitVec 8
  maskFlags : BitVec 8
  deriving DecidableEq

/-- `struct boot_mtd_info`, with the field `used` of the maps. -/
structure BootMtdInfo where
  magic : BitVec 32
  curEpkVer : BitVec 32
  oldEpkVer : BitVec 32
  nmap : BitVec 8
  npartition : BitVec 8
  mapUsed : Fin mtdMapMax → BitVec 32
  partition : Fin mtdPartitionMax → MtdPartitionInfo

/-- `sizeof(struct boot_mtd_info)` -/
def bootMtdInfoSize : BitVec 32 := 2928

/-- A valid entry in use whose name begins like a name. -/
def MtdPartitionInfo.inUse (name : CString) (mpi : MtdPartitionInfo) : Bool :=
  mpi.used ≠ 0 && mpi.valid ≠ 0 && strncmpEq 4 name mpi.name

/-- A valid entry not in use whose name begins like a name. -/
def MtdPartitionInfo.spare (name : CString) (mpi : MtdPartitionInfo) : Bool :=
  mpi.used = 0 && mpi.valid ≠ 0 && strncmpEq 4 name mpi.name

/-- `get_partition` -/
def getPartition (info : BootMtdInfo) (name : CString) : Option (Fin mtdPartitionMax) :=
  Fin.find? fun idx => (info.partition idx).inUse name

/-- `get_unused_partition` -/
def getUnusedPartition (info : BootMtdInfo) (name : CString) :
    Option (Fin mtdPartitionMax) :=
  Fin.find? fun idx => (info.partition idx).spare name

/-- An entry is replaced. -/
def BootMtdInfo.set (info : BootMtdInfo) (idx : Fin mtdPartitionMax)
    (mpi : MtdPartitionInfo) : BootMtdInfo :=
  { info with partition := Function.update info.partition idx mpi }

/-- `swap_partition` -/
def swapPartition (info : BootMtdInfo) (mpi1 mpi2 : Fin mtdPartitionMax) : BootMtdInfo :=
  (info.set mpi1 (info.partition mpi2)).set mpi2 (info.partition mpi1)

/-! ### The drivers -/

/-- What a write takes its bytes from. -/
inductive Source where
  | ram (addr : BitVec 32)
  | mtdinfo (info : BootMtdInfo)

/-- A call of a driver. -/
inductive Call where
  | nandErase (ofs len : BitVec 32)
  | nandBbmUpdate
  | nandWrite (ofs len : BitVec 32) (src : Source)
  | nandRead (ofs len : BitVec 32)
  | spiUpdate (src size : BitVec 32)
  | micomUpdate (src size : BitVec 32)

/-- The memory, the block size of the flash, and the answers of the drivers: the value
that the last of some calls returns, and the table that it reads. -/
structure World where
  ram : BitVec 32 → BitVec 8
  erasesize : BitVec 32
  result : List Call → Int
  stored : List Call → BootMtdInfo

/-- What the bytes that a command reads are taken for. -/
inductive Part where
  | header
  | location (index : Nat)
  | image
  | crc
  | table

/-- Some bytes that a command reads. -/
structure Access where
  part : Part
  addr : BitVec 32
  len : Nat

/-- The global `mtdinfo`, the calls of the drivers and the bytes read in a download, the
latest first. -/
structure Board where
  mtdinfo : BootMtdInfo
  calls : List Call
  reads : List Access

variable (w : World)

/-- A call of a driver, with the value that it returns. -/
def ask (b : Board) (call : Call) : Int × Board :=
  (w.result (call :: b.calls), { b with calls := call :: b.calls })

/-- The loop over the blocks of `write_flash_data`, with whether all are erased.  Every
turn goes on by a block, so that the length is enough for its turns. -/
def eraseBlocks (ofs length : BitVec 32) : (turns : Nat) → (start : BitVec 32) → Board →
    Bool × Board
  | 0, _, b => (true, b)
  | turns + 1, start, b =>
      if start < length then
        let erased := ask w b (.nandErase (ofs + start) w.erasesize)
        if erased.1 ≠ 0 then (false, erased.2)
        else eraseBlocks ofs length turns (start + w.erasesize) erased.2
      else (true, b)

/-- `length` of `write_flash_data`. -/
def wholeBlocks (cnt : BitVec 32) : BitVec 32 :=
  cnt + if cnt % w.erasesize ≠ 0 then w.erasesize - cnt % w.erasesize else 0

/-- `write_flash_data` -/
def writeFlashData (b : Board) (ofs cnt : BitVec 32) (src : Source) : Int × Board :=
  let length := wholeBlocks w cnt
  let erased := eraseBlocks w ofs length length.toNat 0 b
  if erased.1 = false then (1, erased.2)
  else
    let updated := (ask w erased.2 .nandBbmUpdate).2
    let written := ask w updated (.nandWrite ofs length src)
    (if written.1 ≠ 0 then 1 else 0, written.2)

/-- The counts that `save_mtdinfo` stores in the table. -/
def counted (info : BootMtdInfo) : BootMtdInfo :=
  { info with
    magic := configMagic
    nmap := BitVec.ofNat 8
      (List.countP (fun i => info.mapUsed i = 1) (List.finRange mtdMapMax))
    npartition := BitVec.ofNat 8
      (List.countP (fun i => (info.partition i).size ≠ 0) (List.finRange mtdPartitionMax)) }

/-- `save_mtdinfo` -/
def saveMtdinfo (b : Board) : Int × Board :=
  let info := counted b.mtdinfo
  writeFlashData w { b with mtdinfo := info } defaultMtdinfoBase bootMtdInfoSize
    (.mtdinfo info)

/-- `load_mtdinfo` -/
def loadMtdinfo (b : Board) : Int × Board :=
  let done := ask w b (.nandRead defaultMtdinfoBase bootMtdInfoSize)
  if done.1 ≠ 0 then done
  else (0, { done.2 with mtdinfo := w.stored done.2.calls })

/-- `erase_cachepart`, over the entries of the table. -/
def eraseCachepart (b : Board) : Board :=
  (List.finRange mtdPartitionMax).foldl
    (fun b i =>
      let mpi := b.mtdinfo.partition i
      if i < b.mtdinfo.npartition.toNat ∧ mpi.maskFlags &&& mtdFlgCache ≠ 0 then
        (ask w b (.nandErase mpi.offset mpi.size)).2
      else b)
    b

/-- What `_load` and `_do_single_pak` do with the table after a write to an entry: it
is saved, or read again if the entry is that of the table. -/
def keepMtdinfo (b : Board) (mpi : Fin mtdPartitionMax) : Board :=
  let saved :=
    if (b.mtdinfo.partition mpi).name ≠ mtdinfoName then (saveMtdinfo w b).2 else b
  if (saved.mtdinfo.partition mpi).name = mtdinfoName then
    eraseCachepart w (loadMtdinfo w saved).2
  else saved

/-! ### The default table -/

/-- An entry of `DEFAULT_PARTITION`. -/
def defaultPtt (name : List Char) (offset size : BitVec 32) (filename : List Char)
    (used valid : BitVec 8) : MtdPartitionInfo where
  name := str name
  offset := offset
  size := size
  filename := str filename
  filesize := 0
  swVer := 0
  used := used
  valid := valid
  maskFlags := 0

/-- `DEFAULT_MTD_INFO` -/
def defaultMtdInfo : BootMtdInfo where
  magic := configMagic
  curEpkVer := 0
  oldEpkVer := 0
  nmap := 1
  npartition := 6
  mapUsed i := if i.val = 0 then 1 else 0
  partition i :=
    [defaultPtt ['b', 'b', 'm', 'i', 'n', 'f', 'o'] 0x0 0x20000 [] no no,
      defaultPtt ['b', 'o', 'o', 't'] 0x20000 0x80000
        ['u', '-', 'b', 'o', 'o', 't', '-', 'n', 'a', 'n', 'd', '.', 'b', 'i', 'n'] yes yes,
      defaultPtt ['m', 't', 'd', 'i', 'n', 'f', 'o'] defaultMtdinfoBase 0x20000
        ['M', 'T', 'D', '.', 'I', 'N', 'F', 'O'] yes yes,
      defaultPtt ['r', 'o', 'o', 't', 'f', 's'] 0xe0000 0x700000
        ['r', 'o', 'o', 't', 'f', 's', '.', 's', 'q', 'u', 'a', 's', 'h', 'f', 's'] yes yes,
      defaultPtt ['l', 'g', 'i', 'n', 'i', 't'] 0x7e0000 0x60000
        ['l', 'g', 'i', 'n', 'i', 't', '.', 's', 'q', 'u', 'a', 's', 'h', 'f', 's'] yes yes,
      defaultPtt ['b', 'o', 'o', 't'] 0x840000 0x80000
        ['u', '-', 'b', 'o', 'o', 't', '-', 'n', 'a', 'n', 'd', '.', 'b', 'i', 'n'] no yes].getD
      i (defaultPtt [] 0 0 [] no no)

/-- The board with the default table. -/
def Board.initial : Board := ⟨defaultMtdInfo, [], []⟩

/-- `CFG_LOAD_ADDR` -/
def cfgLoadAddr : BitVec 32 := 0x82000000

/-- Drivers that succeed, over a memory with some bytes at the load address. -/
def World.loaded (bytes : Nat → BitVec 8) : World where
  ram addr := bytes (addr - cfgLoadAddr).toNat
  erasesize := 0x20000
  result _ := 0
  stored _ := defaultMtdInfo

/-! ### What the drivers are asked -/

variable {w} {b : Board} {ofs cnt : BitVec 32} {src : Source}

/-- A read of the flash. -/
def Call.isRead : Call → Bool
  | .nandRead _ _ => true
  | _ => false

/-- The table is the same, and so are the bytes read.  The flash is not read. -/
structure SameTable (before after : Board) : Prop where
  mtdinfo : after.mtdinfo = before.mtdinfo
  reads : after.reads = before.reads
  calls : ∃ more, after.calls = more ++ before.calls ∧ ∀ call ∈ more, call.isRead = false

namespace SameTable

variable {before middle after : Board}

theorem refl (b : Board) : SameTable b b :=
  ⟨rfl, rfl, [], rfl, by simp⟩

theorem trans (first : SameTable before middle) (second : SameTable middle after) :
    SameTable before after := by
  obtain ⟨earlier, firstCalls, firstReads⟩ := first.calls
  obtain ⟨later, secondCalls, secondReads⟩ := second.calls
  refine ⟨second.mtdinfo.trans first.mtdinfo, second.reads.trans first.reads,
    later ++ earlier, ?_, ?_⟩
  · rw [secondCalls, firstCalls, List.append_assoc]
  · exact List.forall_mem_append.mpr ⟨secondReads, firstReads⟩

theorem ask (b : Board) {call : Call} (other : call.isRead = false) :
    SameTable b (CmdLg.ask w b call).2 :=
  ⟨rfl, rfl, [call], rfl, List.forall_mem_singleton.mpr other⟩

theorem eraseBlocks {length start : BitVec 32} (turns : Nat) :
    SameTable b (CmdLg.eraseBlocks w ofs length turns start b).2 := by
  induction turns generalizing start b with
  | zero => exact refl b
  | succ turns inductionHypothesis =>
      rw [CmdLg.eraseBlocks]
      have erased := @ask w b (.nandErase (ofs + start) w.erasesize) rfl
      split
      · dsimp only
        split
        · exact erased
        · exact erased.trans inductionHypothesis
      · exact refl b

theorem writeFlashData : SameTable b (CmdLg.writeFlashData w b ofs cnt src).2 := by
  have erased := @eraseBlocks w b ofs (wholeBlocks w cnt) 0 (wholeBlocks w cnt).toNat
  unfold CmdLg.writeFlashData
  dsimp only
  split
  · exact erased
  · exact (erased.trans (@ask w _ _ rfl)).trans (@ask w _ _ rfl)

theorem saveMtdinfo (b : Board) :
    SameTable { b with mtdinfo := counted b.mtdinfo } (CmdLg.saveMtdinfo w b).2 :=
  writeFlashData

theorem eraseCachepart : SameTable b (CmdLg.eraseCachepart w b) := by
  refine List.foldlRecOn _ _ (refl b) fun b' same i _ => ?_
  dsimp only
  split
  · exact same.trans (@ask w _ _ rfl)
  · exact same

/-- No call is taken back. -/
theorem grows (same : SameTable before after) : before.calls <:+ after.calls := by
  obtain ⟨more, calls, _⟩ := same.calls
  exact ⟨more, calls.symm⟩

end SameTable

/-- What saving, reading and erasing keep, all that is done with the table keeps. -/
theorem keepMtdinfo_keeps {holds : Board → Prop}
    (save : ∀ b, holds b → holds (saveMtdinfo w b).2)
    (load : ∀ b, holds b → holds (loadMtdinfo w b).2)
    (erase : ∀ b, holds b → holds (eraseCachepart w b)) (here : holds b)
    (mpi : Fin mtdPartitionMax) : holds (keepMtdinfo w b mpi) := by
  unfold keepMtdinfo
  have saved : holds
      (if (b.mtdinfo.partition mpi).name ≠ mtdinfoName then (saveMtdinfo w b).2 else b) := by
    split
    · exact save b here
    · exact here
  generalize (if (b.mtdinfo.partition mpi).name ≠ mtdinfoName then (saveMtdinfo w b).2
    else b) = next at saved ⊢
  dsimp only
  split
  · exact erase _ (load next saved)
  · exact saved

theorem keepMtdinfo_grows (b : Board) (mpi : Fin mtdPartitionMax) :
    b.calls <:+ (keepMtdinfo w b mpi).calls := by
  refine @keepMtdinfo_keeps w b (fun next => b.calls <:+ next.calls) (fun next grown => ?_)
    (fun next grown => ?_) (fun next grown => ?_) List.suffix_rfl mpi
  · exact grown.trans (SameTable.saveMtdinfo next).grows
  · unfold loadMtdinfo
    dsimp only
    split
    · exact grown.trans (List.suffix_cons _ _)
    · exact grown.trans (List.suffix_cons _ _)
  · exact grown.trans SameTable.eraseCachepart.grows

/-- A call of a driver is made on the way from one state to another. -/
def Asked (before after : Board) (call : Call) : Prop :=
  ∃ more, after.calls = more ++ before.calls ∧ call ∈ more

theorem Asked.later {before middle after : Board} {call : Call}
    (asked : Asked before middle call) (grows : middle.calls <:+ after.calls) :
    Asked before after call := by
  obtain ⟨earlier, first, made⟩ := asked
  obtain ⟨later, second⟩ := grows
  refine ⟨later ++ earlier, ?_, List.mem_append_right _ made⟩
  rw [← second, first, List.append_assoc]

/-- What has been erased is written. -/
theorem writeFlashData_of_erased
    (erased : (eraseBlocks w ofs (wholeBlocks w cnt) (wholeBlocks w cnt).toNat 0 b).1 ≠ false) :
    Asked b (writeFlashData w b ofs cnt src).2
      (.nandWrite ofs (wholeBlocks w cnt) src) := by
  obtain ⟨more, calls, _⟩ := (@SameTable.eraseBlocks w b ofs (wholeBlocks w cnt) 0
    (wholeBlocks w cnt).toNat).calls
  unfold writeFlashData
  dsimp only
  rw [if_neg erased]
  refine ⟨.nandWrite ofs (wholeBlocks w cnt) src :: .nandBbmUpdate :: more, ?_,
    List.mem_cons_self⟩
  change _ :: _ :: (eraseBlocks w ofs (wholeBlocks w cnt) _ 0 b).2.calls = _
  rw [calls]
  rfl

/-- A write that succeeds has written. -/
theorem writeFlashData_written (done : (writeFlashData w b ofs cnt src).1 = 0) :
    Asked b (writeFlashData w b ofs cnt src).2
      (.nandWrite ofs (wholeBlocks w cnt) src) := by
  refine writeFlashData_of_erased fun failed => ?_
  unfold writeFlashData at done
  dsimp only at done
  rw [if_pos failed] at done
  cases done

/-- An erase that fails has been asked for. -/
theorem eraseBlocks_failed {length start : BitVec 32} {turns : Nat}
    (failed : (eraseBlocks w ofs length turns start b).1 = false) :
    Asked b (eraseBlocks w ofs length turns start b).2
      (.nandErase (ofs + start) w.erasesize) := by
  cases turns with
  | zero => cases failed
  | succ turns =>
      rw [eraseBlocks] at failed ⊢
      split at failed
      · rename_i more
        rw [if_pos more]
        dsimp only at failed ⊢
        have asked : Asked b (ask w b (.nandErase (ofs + start) w.erasesize)).2
            (.nandErase (ofs + start) w.erasesize) := ⟨[_], rfl, List.mem_singleton_self _⟩
        split
        · exact asked
        · exact asked.later (SameTable.eraseBlocks turns).grows
      · cases failed

/-- A write asks for something other than a read. -/
theorem writeFlashData_asks :
    ∃ call, Asked b (writeFlashData w b ofs cnt src).2 call ∧ call.isRead = false := by
  by_cases failed :
      (eraseBlocks w ofs (wholeBlocks w cnt) (wholeBlocks w cnt).toNat 0 b).1 = false
  · have asked := eraseBlocks_failed failed
    refine ⟨.nandErase (ofs + 0) w.erasesize, ?_, rfl⟩
    unfold writeFlashData
    dsimp only
    rw [if_pos failed]
    exact asked
  · exact ⟨_, writeFlashData_of_erased failed, rfl⟩

end Gp2Firmware.CmdLg
