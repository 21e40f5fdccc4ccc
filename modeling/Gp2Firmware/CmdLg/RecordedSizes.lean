import Gp2Firmware.CmdLg.FlashContents
import Gp2Firmware.CmdLg.Load
import Gp2Firmware.CmdLg.PartitionUpdate

/-!
# The sizes in the partition table

`_load` and `do_revert` record the size of an image whether or not its erases and
its write have succeeded, and `do_revert` can leave after it has erased
partitions and before it saves the table.
-/

namespace Gp2Firmware.CmdLg

/-! ### `do_revert` -/

section Code

/-- The partitions that `do_revert` erases, in its order. -/
def revertNames : List CString :=
  [str ['l', 'g', 'i', 'n', 'i', 't'], str ['l', 'g', 'a', 'p', 'p'],
    str ['l', 'g', 'f', 'o', 'n', 't']]

/-- `"kernel"` -/
def kernelName : CString := str ['k', 'e', 'r', 'n', 'e', 'l']

/-- `"uImage"` -/
def uImageName : CString := str ['u', 'I', 'm', 'a', 'g', 'e']

/-- The entry of a partition that is erased. -/
def MtdPartitionInfo.blank (entry : MtdPartitionInfo) : MtdPartitionInfo :=
  { entry with filesize := 0, swVer := 0 }

variable (w : World) (line : Line)

/-- A partition is erased.  Whether the erase succeeds is not looked at. -/
def blankPartition (b : Board) (mpi : Fin mtdPartitionMax) : Board :=
  let entry := b.mtdinfo.partition mpi
  let b := { b with mtdinfo := b.mtdinfo.set mpi entry.blank }
  (ask w b (.nandErase entry.offset entry.size)).2

/-- The part of `do_revert` that erases, with whether all partitions are found. -/
def revertBlanks : List CString → Board → Bool × Board
  | [], b => (true, b)
  | name :: names, b =>
      (getPartition b.mtdinfo name).elim (false, b) fun mpi =>
        revertBlanks names (blankPartition w b mpi)

/-- The part of `do_revert` behind the erases. -/
def revertKernel (b : Board) : Int × Board :=
  match getPartition b.mtdinfo kernelName with
  | none => (0, b)
  | some mpi =>
      let entry := b.mtdinfo.partition mpi
      let b := { b with mtdinfo := b.mtdinfo.set mpi { entry with filename := uImageName } }
      let size := tftpGet line
      if size = 0 then (-1, b)
      else if entry.size < size then (-1, b)
      else
        -- a write that fails is not noticed
        let b := (writeFlashData w b (entry.offset + cfgFlashBase) size (.ram cfgLoadAddr)).2
        let info := b.mtdinfo.set mpi { b.mtdinfo.partition mpi with filesize := size }
        (0, (saveMtdinfo w { b with mtdinfo := info }).2)

/-- `do_revert` -/
def doRevert (b : Board) : Int × Board :=
  let blanked := revertBlanks w revertNames b
  if blanked.1 = false then (-1, blanked.2) else revertKernel w line blanked.2

end Code

/-! ### True sizes -/

/-- A used and valid entry says that there is a byte of its image at an address. -/
def Records (info : BootMtdInfo) (addr : BitVec 32) : Prop :=
  ∃ mpi, (info.partition mpi).used ≠ 0 ∧ (info.partition mpi).valid ≠ 0 ∧
    Within (info.partition mpi).offset (info.partition mpi).filesize addr

/-- The flash has, behind some calls, all bytes that a table records. -/
def Contents.HasAll {w : World} (flash : Contents w) (info : BootMtdInfo)
    (calls : List Call) : Prop :=
  ∀ addr, Records info addr → flash.holds calls addr

/-- A command that writes an image. -/
inductive Command where
  | load (type : LoadType) (partname : CString)
  | revert

variable (w : World) (line : Line)

/-- What a command leaves that begins with a table in memory. -/
def Command.run (info : BootMtdInfo) : Command → Board
  | .load type partname => CmdLg.load w line type partname ⟨info, [], []⟩
  | .revert => (doRevert w line ⟨info, [], []⟩).2

/-- The partition of a command is not that of the table. -/
def Command.OtherThanTable (info : BootMtdInfo) : Command → Prop
  | .load _ partname =>
      ∀ mpi, target info partname = some (.partition mpi) →
        (info.partition mpi).name ≠ mtdinfoName
  | .revert => True

/-! ### What the commands set out to do -/

/-- What a command asks for before its image, the table that it leaves in memory, and
where its image goes, with its size.  The table is saved behind an image only. -/
structure Plan where
  calls : List Call
  table : BootMtdInfo
  image : Option (BitVec 32 × BitVec 32)

/-- A command that does nothing. -/
def Plan.idle (info : BootMtdInfo) : Plan := ⟨[], info, none⟩

/-- The plan of `_load` for a target. -/
def loadPlan (info : BootMtdInfo) (size : BitVec 32) : Target → Plan
  | .spiboot => ⟨[.spiUpdate cfgLoadAddr size], info, none⟩
  | .micom => ⟨[.micomUpdate cfgLoadAddr size], info, none⟩
  | .partition mpi =>
      let entry := info.partition mpi
      ⟨[], info.set mpi { entry with filesize := size },
        some (entry.offset + cfgFlashBase, size)⟩

/-- The partitions up to the first name that is not found. -/
def blanks (info : BootMtdInfo) : List CString → List (Fin mtdPartitionMax)
  | [] => []
  | name :: names => (getPartition info name).elim [] fun mpi => mpi :: blanks info names

/-- The log after the erase of some partitions. -/
def blankCalls (info : BootMtdInfo) (mpis : List (Fin mtdPartitionMax)) : List Call :=
  (mpis.map fun mpi =>
    Call.nandErase (info.partition mpi).offset (info.partition mpi).size).reverse

/-- The table after the erase of some partitions. -/
def blankTable (info : BootMtdInfo) (mpis : List (Fin mtdPartitionMax)) : BootMtdInfo :=
  mpis.foldl (fun info mpi => info.set mpi (info.partition mpi).blank) info

/-- The plan of `do_revert` behind its erases. -/
def kernelPlan (calls : List Call) (table : BootMtdInfo) : Plan :=
  (getPartition table kernelName).elim ⟨calls, table, none⟩ fun mpi =>
    let entry := { table.partition mpi with filename := uImageName }
    let size := tftpGet line
    if size = 0 ∨ entry.size < size then ⟨calls, table.set mpi entry, none⟩
    else
      ⟨calls, table.set mpi { entry with filesize := size },
        some (entry.offset + cfgFlashBase, size)⟩

/-- The plan of `do_revert`. -/
def revertPlan (info : BootMtdInfo) : Plan :=
  let mpis := blanks info revertNames
  let calls := blankCalls info mpis
  let table := blankTable info mpis
  if revertNames.all fun name => (getPartition info name).isSome then
    kernelPlan line calls table
  else ⟨calls, table, none⟩

/-- The plan of a command. -/
def Command.plan (info : BootMtdInfo) : Command → Plan
  | .load type partname =>
      match target info partname with
      | none => .idle info
      | some goal =>
          let size := received line type
          let flsize := goal.flsize info
          if size = 0 then .idle info
          else if flsize ≠ 0 ∧ flsize < size then .idle info
          else loadPlan info size goal
  | .revert => revertPlan line info

namespace Plan

variable (plan : Plan)

/-- The write of an image. -/
def imageWrite (ofs size : BitVec 32) : FlashWrite :=
  ⟨plan.calls, ofs, size, .ram cfgLoadAddr⟩

/-- The write of the table behind that of an image. -/
def tableWrite (ofs size : BitVec 32) : FlashWrite :=
  ⟨(plan.imageWrite ofs size).after w, defaultMtdinfoBase, bootMtdInfoSize,
    .mtdinfo (counted plan.table)⟩

/-- What a plan leaves. -/
def run : Board :=
  match plan.image with
  | none => ⟨plan.table, plan.calls, []⟩
  | some (ofs, size) =>
      (saveMtdinfo w ⟨plan.table, (plan.imageWrite ofs size).after w, []⟩).2

/-- The table is to be saved, and that fails. -/
def StoreFails : Prop :=
  ∃ ofs size, plan.image = some (ofs, size) ∧
    (saveMtdinfo w ⟨plan.table, (plan.imageWrite ofs size).after w, []⟩).1 ≠ 0

/-- No recorded byte is lost.  Without an image, nothing that is erased is recorded in
one of the tables or belongs to the stored one.  Behind an image, each byte recorded is
in a block of the table, and the table is stored, or else in a block of the image, and
that is written, or else it was recorded before and has not been erased. -/
def Sound (info stored : BootMtdInfo) : Prop :=
  match plan.image with
  | none => ∀ addr, (∃ call ∈ plan.calls, call.Covers w addr) →
      ¬ Records plan.table addr ∧ ¬ Records stored addr ∧ ¬ InTable addr
  | some (ofs, size) => ∀ addr, Records plan.table addr →
      let image := plan.imageWrite ofs size
      let table := plan.tableWrite w ofs size
      (table.Asks w addr ∧ table.Succeeds w ∧
          Within defaultMtdinfoBase (table.length w) addr) ∨
        (¬ table.Asks w addr ∧
          ((image.Asks w addr ∧ image.Succeeds w ∧ Within ofs (image.length w) addr) ∨
            (¬ image.Asks w addr ∧ (∀ call ∈ plan.calls, ¬ call.Covers w addr) ∧
              (Records info addr ∨ Records stored addr))))

end Plan

/-- The sizes in the table in memory and in the stored one are true behind a command if
they are before, whatever the calls that fail leave in the flash, unless the table is
not stored. -/
def Command.KeepsSizes (info stored : BootMtdInfo) (command : Command) : Prop :=
  command.OtherThanTable info →
    ∀ flash : Contents w, flash.table [] = stored →
      flash.HasAll info [] → flash.HasAll stored [] →
        let after := command.run w line info
        flash.HasAll after.mtdinfo after.calls ∧
          ((command.plan line info).StoreFails w ∨
            flash.HasAll (flash.table after.calls) after.calls)

section Sound

variable {w} {line} {info stored : BootMtdInfo} {plan : Plan} {addr : BitVec 32}
  {before : BitVec 32 → Prop} {calls : List Call}

theorem survives_of_spoiling (spoils : ∀ call ∈ calls, call.isWrite = false) :
    Survives w before calls addr ↔
      before addr ∧ ∀ call ∈ calls, ¬ call.Covers w addr := by
  induction calls with
  | nil => simp [Survives]
  | cons call calls inductionHypothesis =>
      have rest := inductionHypothesis fun other mem =>
        spoils other (List.mem_cons_of_mem _ mem)
      simp only [Survives, spoils call List.mem_cons_self, rest, List.forall_mem_cons]
      tauto

theorem table_of_other (flash : Contents w)
    (other : ∀ call ∈ calls, ¬ call.ReachesTable w) : flash.table calls = flash.table [] := by
  induction calls with
  | nil => rfl
  | cons call calls inductionHypothesis =>
      rw [flash.table_other call calls (other call List.mem_cons_self)]
      exact inductionHypothesis fun call mem => other call (List.mem_cons_of_mem _ mem)

theorem worstTable_of_reached {lie : BootMtdInfo} (spoils : ∀ call ∈ calls, call.isWrite = false)
    (reached : ∃ call ∈ calls, call.ReachesTable w) :
    worstTable w stored lie calls = lie := by
  induction calls with
  | nil => simp at reached
  | cons call calls inductionHypothesis =>
      have unstored : ∀ info, ¬ call.StoresTable info := by
        intro info ⟨len, write⟩
        have spoiling := spoils call List.mem_cons_self
        rw [write] at spoiling
        cases spoiling
      by_cases here : call.ReachesTable w
      · exact worstTable_lie here unstored
      · have later : ∃ call ∈ calls, call.ReachesTable w := by
          simpa [here] using reached
        simp only [worstTable, unstored, false_and, exists_false, dite_false, here, if_false]
        exact inductionHypothesis (fun call mem => spoils call (List.mem_cons_of_mem _ mem))
          later

/-- A table that records a given byte. -/
def BootMtdInfo.recording (info : BootMtdInfo) (addr : BitVec 32) : BootMtdInfo :=
  info.set ⟨0, by decide⟩
    { info.partition ⟨0, by decide⟩ with
      offset := addr, filesize := 1, used := yes, valid := yes }

theorem partition_set (mpi idx : Fin mtdPartitionMax) (entry : MtdPartitionInfo) :
    (info.set mpi entry).partition idx = if idx = mpi then entry else info.partition idx :=
  Function.update_apply _ _ _ _

theorem records_recording : Records (info.recording addr) addr := by
  refine ⟨⟨0, by decide⟩, ?_⟩
  rw [BootMtdInfo.recording, partition_set, if_pos rfl]
  have on : yes ≠ 0 := by decide
  refine ⟨on, on, ?_⟩
  rw [Within]
  simp

/-- The board that a saved table leaves. -/
theorem saveMtdinfo_tableWrite (ofs size : BitVec 32) :
    (saveMtdinfo w ⟨plan.table, (plan.imageWrite ofs size).after w, []⟩).2 =
      ⟨counted plan.table, (plan.tableWrite w ofs size).after w, []⟩ :=
  (plan.tableWrite w ofs size).writeFlashData_snd _ _

theorem saveMtdinfo_succeeds (ofs size : BitVec 32) :
    (saveMtdinfo w ⟨plan.table, (plan.imageWrite ofs size).after w, []⟩).1 = 0 ↔
      (plan.tableWrite w ofs size).Succeeds w :=
  (plan.tableWrite w ofs size).writeFlashData_eq_zero_iff _ _

/-- What the plans of the commands have in common. -/
structure Plan.Fits (plan : Plan) (info : BootMtdInfo) : Prop where
  spoils : ∀ call ∈ plan.calls, call.isWrite = false
  shrinks : plan.image = none → ∀ addr, Records plan.table addr → Records info addr

/-- A plan keeps the sizes true. -/
def Plan.Keeps (w : World) (plan : Plan) (info stored : BootMtdInfo) : Prop :=
  ∀ flash : Contents w, flash.table [] = stored →
    flash.HasAll info [] → flash.HasAll stored [] →
      flash.HasAll (plan.run w).mtdinfo (plan.run w).calls ∧
        (plan.StoreFails w ∨
          flash.HasAll (flash.table (plan.run w).calls) (plan.run w).calls)

/-- Both tables are kept if no byte of either is lost. -/
theorem Contents.hasAll_of_survives (flash : Contents w) {table : BootMtdInfo}
    (mem : flash.HasAll info []) (kept : flash.HasAll stored [])
    (survives : ∀ addr, Records table addr →
      Survives w (fun addr => Records info addr ∨ Records stored addr) calls addr) :
    flash.HasAll table calls := by
  intro addr records
  refine flash.holds_of_survives (fun addr either => ?_) (survives addr records)
  exact either.elim (mem addr) (kept addr)

/-- Without an image. -/
theorem Plan.Fits.keeps_iff_of_none (fits : plan.Fits info) (none : plan.image = none) :
    plan.Keeps w info stored ↔ plan.Sound w info stored := by
  have ran : plan.run w = ⟨plan.table, plan.calls, []⟩ := by rw [Plan.run, none]
  have fails : ¬ plan.StoreFails w := by
    intro ⟨ofs, size, image, _⟩
    rw [none] at image
    cases image
  have lost := fun addr => @survives_of_spoiling w addr
    (fun addr => Records info addr ∨ Records stored addr) plan.calls fits.spoils
  rw [Plan.Keeps, Plan.Sound, none, ran]
  dsimp only
  constructor
  · intro keeps addr ⟨call, mem, covers⟩
    have gone : ¬ Survives w (fun addr => Records info addr ∨ Records stored addr)
        plan.calls addr := fun survives => ((lost addr).mp survives).2 call mem covers
    have worst := fun lie => keeps
      (.worst w (fun addr => Records info addr ∨ Records stored addr) stored lie) rfl
      (fun _ => Or.inl) fun _ => Or.inr
    have outside : ¬ InTable addr := by
      intro inside
      have reached : ∃ call ∈ plan.calls, call.ReachesTable w :=
        ⟨call, mem, Or.inl ⟨addr, inside, covers⟩⟩
      have told := (worst (stored.recording addr)).2.resolve_left fails
      have lie := @worstTable_of_reached w stored plan.calls (stored.recording addr)
        fits.spoils reached
      refine gone (told addr ?_)
      change Records (worstTable w stored _ plan.calls) addr
      rw [lie]
      exact records_recording
    refine ⟨fun records => ?_, fun records => ?_, outside⟩
    · exact gone ((worst stored).1 addr records)
    · have told := (worst stored).2.resolve_left fails
      have same : worstTable w stored stored plan.calls = stored := by
        by_cases reached : ∃ call ∈ plan.calls, call.ReachesTable w
        · exact worstTable_of_reached fits.spoils reached
        · refine table_of_other (.worst w (fun _ => True) stored stored)
            fun call mem there => reached ⟨call, mem, there⟩
      refine gone (told addr ?_)
      change Records (worstTable w stored stored plan.calls) addr
      rw [same]
      exact records
  · intro sound flash first mem kept
    have unreached : ∀ call ∈ plan.calls, ¬ call.ReachesTable w := by
      intro call mem reached
      obtain ⟨addr, inside, covers⟩ | ⟨info, len, write⟩ := reached
      · exact (sound addr ⟨call, mem, covers⟩).2.2 inside
      · have spoiling := fits.spoils call mem
        rw [write] at spoiling
        cases spoiling
    refine ⟨?_, Or.inr ?_⟩
    · refine flash.hasAll_of_survives mem kept fun addr records => (lost addr).mpr ?_
      refine ⟨Or.inl (fits.shrinks none addr records), fun call mem covers => ?_⟩
      exact (sound addr ⟨call, mem, covers⟩).1 records
    · rw [table_of_other flash unreached, first]
      refine flash.hasAll_of_survives mem kept fun addr records => (lost addr).mpr ?_
      refine ⟨Or.inr records, fun call mem covers => ?_⟩
      exact (sound addr ⟨call, mem, covers⟩).2.1 records

/-- Behind an image. -/
theorem Plan.Fits.keeps_iff_of_some (fits : plan.Fits info) {ofs size : BitVec 32}
    (some : plan.image = some (ofs, size)) :
    plan.Keeps w info stored ↔ plan.Sound w info stored := by
  have ran : plan.run w = ⟨counted plan.table, (plan.tableWrite w ofs size).after w, []⟩ := by
    rw [Plan.run, some]
    exact saveMtdinfo_tableWrite ofs size
  have fails : plan.StoreFails w ↔ ¬ (plan.tableWrite w ofs size).Succeeds w := by
    rw [← saveMtdinfo_succeeds, Plan.StoreFails, some]
    constructor
    · intro ⟨_, _, same, failed⟩
      cases same
      exact failed
    · intro failed
      exact ⟨ofs, size, rfl, failed⟩
  have survives (addr : BitVec 32) :
      Survives w (fun addr => Records info addr ∨ Records stored addr)
          ((plan.tableWrite w ofs size).after w) addr ↔
        ((plan.tableWrite w ofs size).Asks w addr ∧
            (plan.tableWrite w ofs size).Succeeds w ∧
            Within defaultMtdinfoBase ((plan.tableWrite w ofs size).length w) addr) ∨
          (¬ (plan.tableWrite w ofs size).Asks w addr ∧
            (((plan.imageWrite ofs size).Asks w addr ∧
                (plan.imageWrite ofs size).Succeeds w ∧
                Within ofs ((plan.imageWrite ofs size).length w) addr) ∨
              (¬ (plan.imageWrite ofs size).Asks w addr ∧
                (∀ call ∈ plan.calls, ¬ call.Covers w addr) ∧
                (Records info addr ∨ Records stored addr)))) := by
    have before := @survives_of_spoiling w addr
      (fun addr => Records info addr ∨ Records stored addr) plan.calls fits.spoils
    have image := @FlashWrite.survives_after w (plan.imageWrite ofs size)
      (fun addr => Records info addr ∨ Records stored addr) addr
    have table := @FlashWrite.survives_after w (plan.tableWrite w ofs size)
      (fun addr => Records info addr ∨ Records stored addr) addr
    rw [and_comm] at before
    exact table.trans (or_congr_right (and_congr_right fun _ =>
      image.trans (or_congr_right (and_congr_right fun _ => before))))
  rw [Plan.Keeps, Plan.Sound, some, ran]
  dsimp only
  constructor
  · intro keeps addr records
    have worst := keeps
      (.worst w (fun addr => Records info addr ∨ Records stored addr) stored stored) rfl
      (fun _ => Or.inl) fun _ => Or.inr
    exact (survives addr).mp (worst.1 addr records)
  · intro sound flash first mem kept
    have all : flash.HasAll plan.table ((plan.tableWrite w ofs size).after w) :=
      flash.hasAll_of_survives mem kept fun addr records =>
        (survives addr).mpr (sound addr records)
    refine ⟨all, ?_⟩
    rw [fails]
    refine Classical.or_iff_not_imp_left.mpr fun stays => ?_
    have succeeds := Classical.not_not.mp stays
    rw [FlashWrite.after_of_succeeds succeeds] at all ⊢
    have told : flash.table ((plan.tableWrite w ofs size).written w) = counted plan.table :=
      flash.table_stored _ _ _ ⟨_, rfl⟩ succeeds.2
    rw [told]
    exact all

theorem Plan.Fits.keeps_iff (fits : plan.Fits info) :
    plan.Keeps w info stored ↔ plan.Sound w info stored := by
  cases image : plan.image with
  | none => exact fits.keeps_iff_of_none image
  | some goal => exact fits.keeps_iff_of_some image

end Sound

/-! ### The commands follow their plans -/

section Plans

variable {w} {line} {info stored table : BootMtdInfo} {addr size : BitVec 32}
  {mpi : Fin mtdPartitionMax} {type : LoadType} {partname : CString}

/-- Two entries are alike in all that a search or an erase looks at. -/
structure MtdPartitionInfo.Alike (entry other : MtdPartitionInfo) : Prop where
  name : entry.name = other.name
  offset : entry.offset = other.offset
  size : entry.size = other.size
  used : entry.used = other.used
  valid : entry.valid = other.valid

/-- Two tables have like entries. -/
def BootMtdInfo.Alike (info other : BootMtdInfo) : Prop :=
  ∀ mpi, (info.partition mpi).Alike (other.partition mpi)

theorem getPartition_of_alike (alike : table.Alike info) (name : CString) :
    getPartition table name = getPartition info name := by
  have same : (fun idx => (table.partition idx).inUse name) =
      fun idx => (info.partition idx).inUse name := by
    funext idx
    simp [MtdPartitionInfo.inUse, (alike idx).name, (alike idx).used, (alike idx).valid]
  simp only [getPartition, same]

theorem alike_blank (alike : table.Alike info) (mpi : Fin mtdPartitionMax) :
    BootMtdInfo.Alike (table.set mpi (table.partition mpi).blank) info := by
  intro idx
  rw [partition_set]
  split
  · rename_i same
    rw [same]
    exact ⟨(alike mpi).name, (alike mpi).offset, (alike mpi).size, (alike mpi).used,
      (alike mpi).valid⟩
  · exact alike idx

theorem blankCalls_cons (mpi : Fin mtdPartitionMax) (mpis : List (Fin mtdPartitionMax)) :
    blankCalls info (mpi :: mpis) = blankCalls info mpis ++
      [.nandErase (info.partition mpi).offset (info.partition mpi).size] := by
  simp [blankCalls]

theorem blankPartition_eq (b : Board) (mpi : Fin mtdPartitionMax) :
    blankPartition w b mpi =
      ⟨b.mtdinfo.set mpi (b.mtdinfo.partition mpi).blank,
        .nandErase (b.mtdinfo.partition mpi).offset (b.mtdinfo.partition mpi).size :: b.calls,
        b.reads⟩ := rfl

theorem revertBlanks_eq (names : List CString) {b : Board}
    (alike : b.mtdinfo.Alike info) :
    revertBlanks w names b =
      (names.all fun name => (getPartition info name).isSome,
        ⟨blankTable b.mtdinfo (blanks info names),
          blankCalls info (blanks info names) ++ b.calls, b.reads⟩) := by
  induction names generalizing b with
  | nil => rfl
  | cons name names inductionHypothesis =>
      have lookup := @getPartition_of_alike info b.mtdinfo alike name
      cases found : getPartition info name with
      | none =>
          rw [found] at lookup
          simp [revertBlanks, lookup, blanks, found, blankTable, blankCalls]
      | some mpi =>
          rw [found] at lookup
          have blanked := @blankPartition_eq w b mpi
          rw [(alike mpi).offset, (alike mpi).size] at blanked
          let next : Board := ⟨b.mtdinfo.set mpi (b.mtdinfo.partition mpi).blank,
            .nandErase (info.partition mpi).offset (info.partition mpi).size :: b.calls,
            b.reads⟩
          have rest := @inductionHypothesis next (alike_blank alike mpi)
          simp only [revertBlanks, lookup, blanks, found, List.all_cons, Option.isSome_some,
            Bool.true_and, Option.elim_some, blankCalls_cons, List.append_assoc,
            List.singleton_append]
          rw [blanked]
          exact rest

/-- A write of an image and what is done with the table behind it, as a plan. -/
theorem run_of_image {plan : Plan} {ofs : BitVec 32} (image : plan.image = some (ofs, size)) :
    plan.run w = (saveMtdinfo w
      { (writeFlashData w ⟨table, plan.calls, []⟩ ofs size (.ram cfgLoadAddr)).2 with
        mtdinfo := plan.table }).2 := by
  have wrote := @FlashWrite.writeFlashData_snd w (plan.imageWrite ofs size) table []
  rw [Plan.run, image]
  dsimp only
  exact congrArg (fun b : Board => (saveMtdinfo w { b with mtdinfo := plan.table }).2)
    wrote.symm

theorem revertKernel_eq (calls : List Call) :
    (revertKernel w line ⟨table, calls, []⟩).2 = (kernelPlan line calls table).run w := by
  unfold revertKernel kernelPlan
  cases found : getPartition table kernelName with
  | none => simp only [Option.elim_none, Plan.run]
  | some mpi =>
      simp only [Option.elim_some]
      by_cases nothing : tftpGet line = 0
      · simp [nothing, Plan.run]
      · by_cases more : (table.partition mpi).size < tftpGet line
        · simp [more, Plan.run]
        · let entry := { table.partition mpi with filename := uImageName }
          let written : Plan :=
            ⟨calls, table.set mpi { entry with filesize := tftpGet line },
              some (entry.offset + cfgFlashBase, tftpGet line)⟩
          have last := @run_of_image w (table.set mpi entry) _ written _ rfl
          have same : (writeFlashData w ⟨table.set mpi entry, calls, []⟩
              (entry.offset + cfgFlashBase) (tftpGet line) (.ram cfgLoadAddr)).2.mtdinfo =
              table.set mpi entry := SameTable.writeFlashData.mtdinfo
          have twice : (table.set mpi entry).set mpi
              { (table.set mpi entry).partition mpi with filesize := tftpGet line } =
              table.set mpi { entry with filesize := tftpGet line } := by
            rw [partition_set, if_pos rfl]
            simp only [BootMtdInfo.set, Function.update_idem]
          simp only [nothing, more, or_self, if_false]
          rw [same, twice]
          exact last.symm

theorem doRevert_eq : (doRevert w line ⟨info, [], []⟩).2 = (revertPlan line info).run w := by
  have blanked := @revertBlanks_eq w info revertNames ⟨info, [], []⟩
    fun _ => ⟨rfl, rfl, rfl, rfl, rfl⟩
  rw [doRevert, blanked, revertPlan]
  dsimp only
  rw [List.append_nil]
  by_cases all : (revertNames.all fun name => (getPartition info name).isSome) = true
  · rw [if_neg (by simp [all]), if_pos all]
    exact revertKernel_eq _
  · rw [if_pos (by simpa using all), if_neg all]
    rfl

theorem loadPartition_eq (other : (info.partition mpi).name ≠ mtdinfoName) :
    loadPartition w ⟨info, [], []⟩ size mpi = (loadPlan info size (.partition mpi)).run w := by
  have read : compareTable w ⟨info, [], []⟩ cfgLoadAddr (info.partition mpi) =
      ⟨info, [], []⟩ := by
    rw [compareTable, if_neg other]
    rfl
  let entry := info.partition mpi
  have last := @run_of_image w info _ (loadPlan info size (.partition mpi)) _ rfl
  have same : (writeFlashData w ⟨info, [], []⟩ (entry.offset + cfgFlashBase) size
      (.ram cfgLoadAddr)).2.mtdinfo = info := SameTable.writeFlashData.mtdinfo
  have named : ((info.set mpi { entry with filesize := size }).partition mpi).name ≠
      mtdinfoName := by
    rw [partition_set, if_pos rfl]
    exact other
  unfold loadPartition
  dsimp only
  rw [if_neg fun both => other both.1, read, same, keepMtdinfo_eq named]
  exact last.symm

theorem run_load (other : (Command.load type partname).OtherThanTable info) :
    load w line type partname ⟨info, [], []⟩ =
      ((Command.load type partname).plan line info).run w := by
  unfold load Command.plan
  cases found : target info partname with
  | none => simp only [found, Plan.idle, Plan.run]
  | some goal =>
      simp only [found]
      by_cases nothing : received line type = 0
      · simp only [nothing, if_true, Plan.idle, Plan.run]
      · by_cases more : goal.flsize info ≠ 0 ∧ goal.flsize info < received line type
        · rw [if_neg nothing, if_pos more, if_neg nothing, if_pos more]
          rfl
        · simp only [nothing, more, if_false]
          cases goal with
          | spiboot | micom => rfl
          | partition mpi => exact loadPartition_eq (other mpi found)

theorem Command.run_eq {command : Command} (other : command.OtherThanTable info) :
    command.run w line info = (command.plan line info).run w := by
  cases command with
  | load type partname => exact run_load other
  | revert => exact doRevert_eq

/-- The erases of a plan write nothing. -/
theorem spoils_blankCalls (mpis : List (Fin mtdPartitionMax)) :
    ∀ call ∈ blankCalls info mpis, call.isWrite = false := by
  intro call mem
  obtain ⟨mpi, _, rfl⟩ := List.mem_map.mp (List.mem_reverse.mp mem)
  rfl

theorem records_set_blank (records : Records (info.set mpi (info.partition mpi).blank) addr) :
    Records info addr := by
  obtain ⟨idx, used, valid, within⟩ := records
  rw [partition_set] at used valid within
  split at within
  · exact absurd within (BitVec.not_lt_zero)
  · rename_i other
    rw [if_neg other] at used valid
    exact ⟨idx, used, valid, within⟩

theorem records_blankTable (mpis : List (Fin mtdPartitionMax))
    (records : Records (blankTable info mpis) addr) : Records info addr := by
  induction mpis generalizing info with
  | nil => exact records
  | cons mpi mpis inductionHypothesis =>
      exact records_set_blank (inductionHypothesis records)

theorem records_set_filename (name : CString)
    (records : Records (info.set mpi { info.partition mpi with filename := name }) addr) :
    Records info addr := by
  obtain ⟨idx, used, valid, within⟩ := records
  rw [partition_set] at used valid within
  split at within
  · rename_i same
    subst same
    rw [if_pos rfl] at used valid
    exact ⟨idx, used, valid, within⟩
  · rename_i other
    rw [if_neg other] at used valid
    exact ⟨idx, used, valid, within⟩

theorem revertPlan_fits : (revertPlan line info).Fits info := by
  have spoils := @spoils_blankCalls info (blanks info revertNames)
  have kept := fun addr => @records_blankTable info addr (blanks info revertNames)
  unfold revertPlan kernelPlan
  dsimp only
  split
  · cases getPartition (blankTable info (blanks info revertNames)) kernelName with
    | none => exact ⟨spoils, fun _ => kept⟩
    | some mpi =>
        simp only [Option.elim_some]
        split
        · exact ⟨spoils, fun _ addr records => kept addr (records_set_filename _ records)⟩
        · exact ⟨spoils, fun none => nomatch none⟩
  · exact ⟨spoils, fun _ => kept⟩

theorem loadPlan_fits (goal : Target) : (loadPlan info size goal).Fits info := by
  cases goal with
  | spiboot | micom => exact ⟨List.forall_mem_singleton.mpr rfl, fun _ _ records => records⟩
  | partition mpi => exact ⟨List.forall_mem_nil _, fun none => nomatch none⟩

theorem Command.plan_fits (command : Command) : (command.plan line info).Fits info := by
  have idle : (Plan.idle info).Fits info := ⟨List.forall_mem_nil _, fun _ _ records => records⟩
  cases command with
  | revert => exact revertPlan_fits
  | load type partname =>
      unfold Command.plan
      dsimp only
      split
      · exact idle
      · split
        · exact idle
        · split
          · exact idle
          · exact loadPlan_fits _

theorem Command.keepsSizes_eq {command : Command} (other : command.OtherThanTable info) :
    command.KeepsSizes w line info stored ↔ (command.plan line info).Keeps w info stored := by
  unfold Command.KeepsSizes Plan.Keeps
  simp only [Command.run_eq other, forall_prop_of_true other]

/-- The sizes in both tables stay true behind a command if and only if its plan is
sound. -/
theorem keepsSizes_iff (w : World) (line : Line) (info stored : BootMtdInfo)
    (command : Command) :
    command.KeepsSizes w line info stored ↔
      (command.OtherThanTable info → (command.plan line info).Sound w info stored) := by
  constructor
  · intro keeps other
    exact (command.plan_fits).keeps_iff.mp ((Command.keepsSizes_eq other).mp keeps)
  · intro sound other
    have keeps := (Command.keepsSizes_eq other).mpr (command.plan_fits.keeps_iff.mpr (sound other))
    exact keeps other

/-- The default table with an image of one byte in the partition `lginit`. -/
def lginitInfo : BootMtdInfo :=
  defaultMtdInfo.set ⟨4, by decide⟩
    { defaultMtdInfo.partition ⟨4, by decide⟩ with filesize := 1 }

/-- The default table has no partition `lgapp`: `do_revert` erases `lginit` and leaves,
and the stored table still records its byte. -/
theorem revert_leaves_size :
    ¬ Command.revert.KeepsSizes (.loaded fun _ => 0) (.network 1) lginitInfo lginitInfo := by
  intro keeps
  have fits := @Command.plan_fits (.network 1) lginitInfo .revert
  have sound := fits.keeps_iff.mp
    ((@Command.keepsSizes_eq _ _ _ lginitInfo .revert trivial).mp keeps)
  have missing : ¬ (revertNames.all fun name => (getPartition lginitInfo name).isSome) = true := by
    decide +kernel
  have plan : Command.revert.plan (.network 1) lginitInfo =
      ⟨blankCalls lginitInfo (blanks lginitInfo revertNames),
        blankTable lginitInfo (blanks lginitInfo revertNames), none⟩ := by
    rw [Command.plan, revertPlan]
    exact if_neg missing
  rw [plan] at sound
  have first : blanks lginitInfo revertNames = [⟨4, by decide⟩] := by decide +kernel
  have erased : Within 0x7e0000 0x60000 0x7e0000 := by decide
  have lost := sound 0x7e0000
    ⟨.nandErase 0x7e0000 0x60000, first ▸ List.mem_singleton_self _, erased⟩
  exact lost.2.1 ⟨⟨4, by decide⟩, by decide +kernel, by decide +kernel, by decide +kernel⟩

end Plans

end Gp2Firmware.CmdLg
