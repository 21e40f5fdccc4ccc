import Gp2Firmware.CmdLg.Swu

/-!
# The update of a partition

An image is written to the spare copy of its partition, if there is one, and the two
entries change their places in the table.  An image that is refused leaves the table as
it is.
-/

namespace Gp2Firmware.CmdLg

variable {w : World} {b : Board} {info : BootMtdInfo} {name : CString}
  {mpi unmpi idx : Fin mtdPartitionMax} {size swver : BitVec 32}

/-! ### Searches -/

theorem getPartition_eq_some :
    getPartition info name = some mpi ↔
      (info.partition mpi).inUse name = true ∧
        ∀ j < mpi, (info.partition j).inUse name = false :=
  Fin.find?_eq_some_iff

theorem getUnusedPartition_eq_some :
    getUnusedPartition info name = some unmpi ↔
      (info.partition unmpi).spare name = true ∧
        ∀ j < unmpi, (info.partition j).spare name = false :=
  Fin.find?_eq_some_iff

theorem inUse_iff {entry : MtdPartitionInfo} :
    entry.inUse name = true ↔
      entry.used ≠ 0 ∧ entry.valid ≠ 0 ∧ strncmpEq 4 name entry.name = true := by
  simp only [MtdPartitionInfo.inUse, Bool.and_eq_true, decide_eq_true_eq, and_assoc]

theorem spare_iff {entry : MtdPartitionInfo} :
    entry.spare name = true ↔
      entry.used = 0 ∧ entry.valid ≠ 0 ∧ strncmpEq 4 name entry.name = true := by
  simp only [MtdPartitionInfo.spare, Bool.and_eq_true, decide_eq_true_eq, and_assoc]

/-- The entry in use and its spare copy are two entries. -/
theorem current_ne_spare (current : getPartition info name = some mpi)
    (other : getUnusedPartition info name = some unmpi) : mpi ≠ unmpi := by
  rintro rfl
  have inUse := inUse_iff.mp (getPartition_eq_some.mp current).1
  have spare := spare_iff.mp (getUnusedPartition_eq_some.mp other).1
  exact inUse.1 spare.1

/-! ### The change of places -/

/-- The entry of the copy that has been written. -/
def MtdPartitionInfo.taken (entry : MtdPartitionInfo) (size swver : BitVec 32) :
    MtdPartitionInfo :=
  { entry with filesize := size, swVer := swver, used := yes, valid := yes }

/-- The entry of the copy that has been in use. -/
def MtdPartitionInfo.left (entry : MtdPartitionInfo) : MtdPartitionInfo :=
  { entry with used := no, valid := yes }

/-- The entries change their places and are marked. -/
theorem adjust_some_partition (different : mpi ≠ unmpi) (idx : Fin mtdPartitionMax) :
    (adjust info mpi (some unmpi) size swver).partition idx =
      if idx = unmpi then (info.partition mpi).left
      else if idx = mpi then (info.partition unmpi).taken size swver
      else info.partition idx := by
  simp only [adjust, swapPartition, BootMtdInfo.set, Function.update_apply, different,
    different.symm, if_true, if_false]
  split
  · rfl
  · split
    · rfl
    · rfl

theorem adjust_none_partition (idx : Fin mtdPartitionMax) :
    (adjust info mpi none size swver).partition idx =
      if idx = mpi then { info.partition mpi with filesize := size, swVer := swver }
      else info.partition idx :=
  Function.update_apply _ _ _ _

section

variable {entry : MtdPartitionInfo}

theorem taken_inUse : (entry.taken size swver).inUse name = strncmpEq 4 name entry.name :=
  Bool.true_and _

theorem taken_spare : (entry.taken size swver).spare name = false :=
  rfl

theorem left_inUse : entry.left.inUse name = false :=
  rfl

theorem left_spare : entry.left.spare name = strncmpEq 4 name entry.name :=
  Bool.true_and _

end

/-- An entry in use whose name begins like a name. -/
def MtdPartitionInfo.usedUnder (name : CString) (entry : MtdPartitionInfo) : Bool :=
  entry.used ≠ 0 && strncmpEq 4 name entry.name

/-- The number of the entries in use whose names begin like a name. -/
def usedEntries (info : BootMtdInfo) (name : CString) : Nat :=
  (List.finRange mtdPartitionMax).countP fun idx => (info.partition idx).usedUnder name

theorem usedEntries_congr {other : BootMtdInfo}
    (same : ∀ idx, (info.partition idx).usedUnder name =
      (other.partition idx).usedUnder name) :
    usedEntries info name = usedEntries other name :=
  congrArg (List.countP · _) (funext same)

/-- What an update makes of the table. -/
structure Updated (before after : BootMtdInfo) (name : CString)
    (floffset size swver : BitVec 32) : Prop where
  current : ∃ mpi, getPartition after name = some mpi ∧
    (after.partition mpi).offset = floffset ∧ (after.partition mpi).filesize = size ∧
      (after.partition mpi).swVer = swver
  used : usedEntries after name = usedEntries before name
  spare : ∀ unmpi, getUnusedPartition before name = some unmpi →
    ∃ mpi kept, getPartition before name = some mpi ∧
      getUnusedPartition after name = some kept ∧
        after.partition kept = (before.partition mpi).left

theorem updated_adjust_some (current : getPartition info name = some mpi)
    (other : getUnusedPartition info name = some unmpi) :
    Updated info (adjust info mpi (some unmpi) size swver) name
      (writeOffset info mpi (some unmpi)) size swver := by
  have different := current_ne_spare current other
  obtain ⟨inUse, firstInUse⟩ := getPartition_eq_some.mp current
  obtain ⟨spare, firstSpare⟩ := getUnusedPartition_eq_some.mp other
  obtain ⟨isUsed, _, usedName⟩ := inUse_iff.mp inUse
  obtain ⟨notUsed, _, spareName⟩ := spare_iff.mp spare
  have entry := @adjust_some_partition info mpi unmpi size swver different
  have place := (entry mpi).trans ((if_neg different).trans (if_pos rfl))
  have oldPlace := (entry unmpi).trans (if_pos rfl)
  refine ⟨⟨mpi, getPartition_eq_some.mpr ⟨?_, fun j before => ?_⟩, ?_⟩, ?_, ?_⟩
  · rw [place, taken_inUse]
    exact spareName
  · rw [entry, if_neg (ne_of_lt before)]
    split
    · exact left_inUse
    · exact firstInUse j before
  · rw [place]
    exact ⟨(BitVec.add_zero _).symm, rfl, rfl⟩
  · refine usedEntries_congr fun j => ?_
    rw [entry]
    split
    · rename_i same
      rw [same, MtdPartitionInfo.usedUnder, MtdPartitionInfo.usedUnder,
        decide_eq_false (not_not.mpr notUsed)]
      rfl
    · split
      · rename_i same
        rw [same, MtdPartitionInfo.usedUnder, MtdPartitionInfo.usedUnder,
          decide_eq_true isUsed, usedName]
        exact (Bool.true_and _).trans spareName
      · rfl
  · intro found isSpare
    have same : unmpi = found := Option.some_inj.mp (other.symm.trans isSpare)
    refine ⟨mpi, unmpi, current, getUnusedPartition_eq_some.mpr ⟨?_, fun j before => ?_⟩,
      oldPlace⟩
    · rw [oldPlace, left_spare]
      exact usedName
    · rw [entry, if_neg (ne_of_lt before)]
      split
      · exact taken_spare
      · exact firstSpare j before

theorem updated_adjust_none (current : getPartition info name = some mpi)
    (other : getUnusedPartition info name = none) :
    Updated info (adjust info mpi none size swver) name
      (writeOffset info mpi none) size swver := by
  obtain ⟨inUse, firstInUse⟩ := getPartition_eq_some.mp current
  have entry := @adjust_none_partition info mpi size swver
  have place := (entry mpi).trans (if_pos rfl)
  refine ⟨⟨mpi, getPartition_eq_some.mpr ⟨?_, fun j before => ?_⟩, ?_⟩, ?_, ?_⟩
  · rw [place]
    exact inUse
  · rw [entry, if_neg (ne_of_lt before)]
    exact firstInUse j before
  · rw [place]
    exact ⟨(BitVec.add_zero _).symm, rfl, rfl⟩
  · refine usedEntries_congr fun j => ?_
    rw [entry]
    split
    · rename_i same
      rw [same]
      rfl
    · rfl
  · intro found isSpare
    rw [other] at isSpare
    cases isSpare

theorem Updated.congr {before after other : BootMtdInfo} {floffset : BitVec 32}
    (updated : Updated before after name floffset size swver)
    (same : other.partition = after.partition) :
    Updated before other name floffset size swver := by
  have searched : getPartition other name = getPartition after name := by
    rw [getPartition, getPartition, same]
  have unused : getUnusedPartition other name = getUnusedPartition after name := by
    rw [getUnusedPartition, getUnusedPartition, same]
  have counts : usedEntries other name = usedEntries after name := by
    rw [usedEntries, usedEntries, same]
  obtain ⟨current, used, spare⟩ := updated
  rw [← searched, ← same] at current
  rw [← counts] at used
  rw [← unused, ← same] at spare
  exact ⟨current, used, spare⟩

/-! ### One image -/

/-- An image that is written to a partition other than that of the table. -/
structure Ordinary (imgtype : CString) : Prop where
  spiboot : strncmpEq 4 imgtype (str ['s', 'p', 'i', 'b', 'o', 'o', 't']) = false
  micom : strncmpEq 4 imgtype (str ['m', 'i', 'c', 'o', 'm']) = false
  mtdinfo : strncmpEq 4 imgtype mtdinfoName = false

theorem Ordinary.name_ne (ordinary : Ordinary name) {entry : MtdPartitionInfo}
    (begins : strncmpEq 4 name entry.name = true) : entry.name ≠ mtdinfoName := by
  intro same
  rw [same, ordinary.mtdinfo] at begins
  cases begins

/-- The table is saved behind a write to any entry but its own. -/
theorem keepMtdinfo_eq (other : (b.mtdinfo.partition mpi).name ≠ mtdinfoName) :
    keepMtdinfo w b mpi = (saveMtdinfo w b).2 := by
  have same : (saveMtdinfo w b).2.mtdinfo.partition = b.mtdinfo.partition := by
    rw [(SameTable.saveMtdinfo b).mtdinfo]
    rfl
  simp only [keepMtdinfo, if_pos other, same, if_neg other]

theorem keepMtdinfo_of_name_ne (other : (b.mtdinfo.partition mpi).name ≠ mtdinfoName) :
    (keepMtdinfo w b mpi).mtdinfo.partition = b.mtdinfo.partition := by
  rw [keepMtdinfo_eq other, (SameTable.saveMtdinfo b).mtdinfo]
  rfl

/-- How an image is dealt with: it is refused and the table is as before, or it is written
to the flash and the table is updated. -/
def Atomic (w : World) (b : Board) (pak : BitVec 32) (done : Int × Board) : Prop :=
  (done.1 ≠ 0 ∧ done.2.mtdinfo.partition = b.mtdinfo.partition) ∨
    (done.1 = 0 ∧ ∃ floffset len,
      Asked b done.2 (.nandWrite floffset len (.ram (pak + pakHeaderSize))) ∧
        Updated b.mtdinfo done.2.mtdinfo (w.imageType pak) floffset (w.imageSize pak)
          (w.swVersion pak))

/-- The entry that an update leaves in the place of the current one does not have the
name of the table. -/
theorem adjust_name_ne (ordinary : Ordinary name)
    (current : getPartition info name = some mpi) :
    ((adjust info mpi (getUnusedPartition info name) size swver).partition mpi).name ≠
      mtdinfoName := by
  cases other : getUnusedPartition info name with
  | none =>
      rw [adjust_none_partition, if_pos rfl]
      exact ordinary.name_ne (inUse_iff.mp (getPartition_eq_some.mp current).1).2.2
  | some unmpi =>
      have different := current_ne_spare current other
      rw [adjust_some_partition different, if_neg different, if_pos rfl]
      exact ordinary.name_ne (spare_iff.mp (getUnusedPartition_eq_some.mp other).1).2.2

theorem updated_adjust (current : getPartition info name = some mpi) :
    Updated info (adjust info mpi (getUnusedPartition info name) size swver) name
      (writeOffset info mpi (getUnusedPartition info name)) size swver := by
  cases other : getUnusedPartition info name with
  | none => exact updated_adjust_none current other
  | some unmpi => exact updated_adjust_some current other

/-- An image of a partition other than that of the table is refused and leaves the table as
it is, or it is written and the table tells where. -/
theorem doSinglePak_atomic (w : World) (b : Board) (pak : BitVec 32)
    (ordinary : Ordinary (w.imageType pak)) : Atomic w b pak (doSinglePak w b pak) := by
  have ends := @pakEnd_doSinglePak w b pak
  generalize doSinglePak w b pak = done at ends ⊢
  cases ends with
  | badCrc => exact Or.inl ⟨Int.negSucc_ne_zero 0, rfl⟩
  | spiboot _ named => exact absurd (ordinary.spiboot.symm.trans named) Bool.false_ne_true
  | micom _ named => exact absurd (ordinary.micom.symm.trans named) Bool.false_ne_true
  | unknown => exact Or.inl ⟨Int.negSucc_ne_zero 0, rfl⟩
  | found mpi current _ done ends =>
      cases ends with
      | sameVersion named =>
          have begins := (inUse_iff.mp (getPartition_eq_some.mp current).1).2.2
          exact absurd named (ordinary.name_ne begins)
      | wrongSize => exact Or.inl ⟨Int.negSucc_ne_zero 0, rfl⟩
      | failed ret => exact Or.inl ⟨ret, congrArg BootMtdInfo.partition flashed_mtdinfo⟩
      | written ret =>
          let unmpi := getUnusedPartition b.mtdinfo (w.imageType pak)
          let info := adjust b.mtdinfo mpi unmpi (w.imageSize pak) (w.swVersion pak)
          have entered : finishImage w (flashed w b pak mpi).2 pak mpi unmpi =
              keepMtdinfo w { (flashed w b pak mpi).2 with mtdinfo := info } mpi := by
            rw [finishImage, flashed_mtdinfo]
          have partition := @keepMtdinfo_of_name_ne w
            { (flashed w b pak mpi).2 with mtdinfo := info } mpi (adjust_name_ne ordinary current)
          have grows := @keepMtdinfo_grows w { (flashed w b pak mpi).2 with mtdinfo := info } mpi
          refine Or.inr ⟨rfl, writeOffset b.mtdinfo mpi unmpi,
            wholeBlocks w (w.imageSize pak), ?_, ?_⟩
          · rw [entered]
            exact (writeFlashData_written ret).later grows
          · rw [entered]
            exact (updated_adjust current).congr partition

/-- An image of one byte, 0, for the partition `boot`, of version 7. -/
def bootPak : Nat → BitVec 8
  | 0 => 0x62
  | 1 => 0x6f
  | 2 => 0x6f
  | 3 => 0x74
  | 4 => 1
  | 72 => 7
  | 129 => 0xb4
  | 130 => 0xbf
  | 131 => 0x08
  | 132 => 0x4e
  | _ => 0

/-- The image is written to the spare copy. -/
theorem doSinglePak_atomic_boot :
    (doSinglePak (.loaded bootPak) .initial cfgLoadAddr).1 = 0 ∧
      Atomic (.loaded bootPak) .initial cfgLoadAddr
        (doSinglePak (.loaded bootPak) .initial cfgLoadAddr) :=
  ⟨by decide +kernel, doSinglePak_atomic (.loaded bootPak) .initial cfgLoadAddr
    ⟨by decide +kernel, by decide +kernel, by decide +kernel⟩⟩

end Gp2Firmware.CmdLg
