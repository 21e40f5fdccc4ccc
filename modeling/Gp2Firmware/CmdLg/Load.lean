import Gp2Firmware.CmdLg.Swu
import Gp2Firmware.CmdLg.Transport

/-!
# The command `load`

`_load` of `cmd_misc.c` writes a download to a partition.  A failed download looks to it
like a file of one byte or of nearly 4 GiB, and is written where such a file has room.
-/

namespace Gp2Firmware.CmdLg

/-! ### `_load` -/

/-- Where a download goes. -/
inductive Target where
  | spiboot
  | micom
  | partition (mpi : Fin mtdPartitionMax)
  deriving DecidableEq

/-- The target under a name. -/
def target (info : BootMtdInfo) (partname : CString) : Option Target :=
  if strncmpEq 4 partname (str ['s', 'p', 'i', 'b', 'o', 'o', 't']) then some .spiboot
  else if strncmpEq 4 partname (str ['l', 'c', 'd', 'm', 'i', 'c', 'o', 'm']) then some .micom
  else if strncmpEq 4 partname (str ['p', 'd', 'p', 'm', 'i', 'c', 'o', 'm']) then some .micom
  else (getPartition info partname).map .partition

/-- `flsize` -/
def Target.flsize (info : BootMtdInfo) : Target → BitVec 32
  | .spiboot => 0
  | .micom => 0
  | .partition mpi => (info.partition mpi).size

variable (w : World)

/-- The part of `_load` behind the tests of the size, for an entry of the table. -/
def loadPartition (b : Board) (size : BitVec 32) (mpi : Fin mtdPartitionMax) : Board :=
  let entry := b.mtdinfo.partition mpi
  let b := compareTable w b cfgLoadAddr entry
  if entry.name = mtdinfoName ∧ sameVersion w cfgLoadAddr entry then b
  else
    -- a write that fails is not noticed
    let b := (writeFlashData w b (entry.offset + cfgFlashBase) size (.ram cfgLoadAddr)).2
    let info := b.mtdinfo.set mpi { b.mtdinfo.partition mpi with filesize := size }
    keepMtdinfo w { b with mtdinfo := info } mpi

/-- The part of `_load` behind the tests of the size. -/
def loadTarget (b : Board) (size : BitVec 32) : Target → Board
  | .spiboot => (ask w b (.spiUpdate cfgLoadAddr size)).2
  | .micom => (ask w b (.micomUpdate cfgLoadAddr size)).2
  | .partition mpi => loadPartition w b size mpi

/-- `_load`, which returns 0 in any case. -/
def load (line : Line) (type : LoadType) (partname : CString) (b : Board) : Board :=
  match target b.mtdinfo partname with
  | none => b
  | some goal =>
      let size := received line type
      let flsize := goal.flsize b.mtdinfo
      if size = 0 then b
      else if flsize ≠ 0 ∧ flsize < size then b
      else loadTarget w b size goal

/-! ### Downloads that are not to be written -/

variable (line : Line)

/-- A download fails. -/
def Line.failed : LoadType → Prop
  | .tftp => line.netLoop.slt 0 = true
  | .fat32 => line.usbDevice = false ∨ line.fatRegister ≠ 0 ∨ line.fatRead = -1
  | .zmodem => rz line = zmodemError
  | .hzmodem => rz line = zmodemError
  | _ => False

/-- The number of the bytes that a download delivers. -/
def Line.delivered : LoadType → BitVec 32
  | .tftp => line.netLoop
  | .fat32 => line.fatRead
  | .zmodem => line.bytesReceived
  | .hzmodem => line.bytesReceived
  | .kermit => line.kermit
  | .serial => line.serial
  | .unknown => 0

/-- A download fails or delivers more than the partition holds. -/
def Unusable (type : LoadType) (partname : CString) (b : Board) : Prop :=
  line.compiled type = true ∧
    (line.failed type ∨
      ∃ mpi, target b.mtdinfo partname = some (.partition mpi) ∧
        (b.mtdinfo.partition mpi).size < line.delivered type)

/-- The flash is not erased or written, and the table is the same. -/
structure Unchanged (before after : Board) : Prop where
  calls : ∀ call, Asked before after call → call.isRead = true
  mtdinfo : after.mtdinfo = before.mtdinfo

/-- An unusable download changes nothing. -/
def ChangesNothing (type : LoadType) (partname : CString) (b : Board) : Prop :=
  Unusable line type partname b → Unchanged b (load w line type partname b)

/-- A session of ZMODEM that `rz` takes for complete has delivered a file. -/
def Line.fileComplete : Prop := line.tryz ≠ 0 ∧ line.tryz ≠ -1 ∧ line.rzfiles = 0

instance : Decidable line.fileComplete := inferInstanceAs (Decidable (_ ∧ _))

/-- What comes over ZMODEM is not taken for a file that the partition holds: the session
ends without a file, or the size that the sender has told, or -1, is too much. -/
def Line.zmodemStops (size : BitVec 32) : Prop :=
  if line.tryz = zcompl then True
  else if line.fileComplete then line.bytesTotal = 0 ∨ (size ≠ 0 ∧ size < line.bytesTotal)
  else size ≠ 0 ∧ size ≠ -1

/-- An unusable download is not taken for a file that a partition of a size holds. -/
def Line.stops (size : BitVec 32) : LoadType → Prop
  | .tftp => size ≠ 0 ∧ line.netLoop.slt 0 = false
  | .fat32 =>
      size ≠ 0 ∧ line.usbDevice = true ∧ line.fatRegister = 0 ∧ line.fatRead ≠ -1
  | .zmodem => line.zmodemStops size
  | .hzmodem => line.zmodemStops size
  | _ => size ≠ 0

/-- An unusable download is not written. -/
def Withheld (type : LoadType) (partname : CString) (b : Board) : Prop :=
  match target b.mtdinfo partname with
  | none => True
  | some (.partition mpi) =>
      let entry := b.mtdinfo.partition mpi
      (entry.name = mtdinfoName ∧ sameVersion w cfgLoadAddr entry = true) ∨
        line.stops entry.size type
  | some _ => False

variable {w line} {type : LoadType} {partname : CString} {b : Board} {size : BitVec 32}

theorem rz_eq : rz line =
    if line.tryz = zcompl then 0 else if line.fileComplete then line.bytesTotal
    else zmodemError := by
  unfold rz Line.fileComplete
  by_cases none : line.tryz = 0
  · simp [none, zcompl]
  · simp only [none, ne_eq, not_false_eq_true, if_true, true_and]
    split
    · rfl
    · by_cases error : line.tryz = -1
      · simp [error]
      · by_cases files : line.rzfiles = 0
        · simp [error, files]
        · simp [error, files]

theorem rz_stops (size : BitVec 32) :
    rz line = 0 ∨ (size ≠ 0 ∧ size < rz line) ↔ line.zmodemStops size := by
  rw [rz_eq, Line.zmodemStops]
  split
  · exact iff_of_true (Or.inl rfl) trivial
  · split
    · exact Iff.rfl
    · have top : size < zmodemError ↔ size ≠ -1 := by
        unfold zmodemError
        constructor
        · rintro below rfl
          exact absurd below (by decide)
        · intro other
          bv_omega
      have some : zmodemError ≠ 0 := by decide
      rw [or_iff_right some, top]

theorem tftpGet_eq : tftpGet line = if line.netLoop.slt 0 then 1 else line.netLoop := by
  unfold tftpGet
  split
  · rfl
  · split
    · rename_i none
      exact none.symm
    · rfl

theorem fatFsload_of_failed (failed : line.failed .fat32) : fatFsload line = 1 := by
  unfold fatFsload
  rcases failed with failed | failed | failed
  · rw [if_pos failed]
  · rw [if_pos failed, ite_self]
  · rw [if_pos failed, ite_self, ite_self]

theorem fatFsload_eq (done : ¬ line.failed .fat32) : fatFsload line = line.fatRead := by
  simp only [Line.failed, not_or] at done
  rw [fatFsload, if_neg done.1, if_neg done.2.1, if_neg done.2.2]

/-- A failed download is taken for a file of some size. -/
theorem received_of_failed (compiled : line.compiled type = true)
    (failed : line.failed type) : received line type ≠ 0 := by
  have error : zmodemError ≠ 0 := by decide
  rw [received.eq_def, if_pos compiled]
  cases type with
  | tftp =>
      have one : tftpGet line = 1 := if_pos failed
      exact fun none => absurd (one.symm.trans none) (by decide)
  | fat32 =>
      have one := fatFsload_of_failed failed
      exact fun none => absurd (one.symm.trans none) (by decide)
  | zmodem | hzmodem => exact fun none => error (failed.symm.trans none)
  | kermit | serial | unknown => exact failed.elim

/-- More bytes than the partition holds are noticed if its size is not 0. -/
theorem delivered_stops {told : BitVec 32} (more : size < told) :
    told = 0 ∨ (size ≠ 0 ∧ size < told) ↔ size ≠ 0 := by
  have some : told ≠ 0 := by
    rintro rfl
    exact absurd more (by bv_omega)
  rw [or_iff_right some, and_iff_left more]

/-- The value of a failure is less than every size but 0. -/
theorem one_not_stops : ¬ ((1 : BitVec 32) = 0 ∨ (size ≠ 0 ∧ size < 1)) := by
  bv_omega

/-- The tests of the size stop an unusable download if and only if it is not taken for a
file that the partition holds. -/
theorem received_stops (compiled : line.compiled type = true)
    (unusable : line.failed type ∨ size < line.delivered type) :
    received line type = 0 ∨ (size ≠ 0 ∧ size < received line type) ↔
      line.stops size type := by
  rw [received.eq_def, if_pos compiled]
  cases type with
  | tftp =>
      by_cases failed : line.netLoop.slt 0 = true
      · have one : tftpGet line = 1 := if_pos failed
        have written : ¬ line.stops size .tftp := fun stops =>
          absurd (stops.2.symm.trans failed) Bool.false_ne_true
        exact iff_of_false (one ▸ one_not_stops) written
      · have told : tftpGet line = line.netLoop := by rw [tftpGet_eq, if_neg failed]
        have more : size < line.netLoop := unusable.resolve_left failed
        have stops : line.stops size .tftp ↔ size ≠ 0 :=
          and_iff_left (Bool.not_eq_true _ ▸ failed)
        rw [stops]
        exact told ▸ delivered_stops more
  | fat32 =>
      by_cases failed : line.failed .fat32
      · have written : ¬ line.stops size .fat32 := by
          rintro ⟨_, device, register, read⟩
          rcases failed with none | none | none
          · exact absurd (none.symm.trans device) Bool.false_ne_true
          · exact none register
          · exact read none
        exact iff_of_false (fatFsload_of_failed failed ▸ one_not_stops) written
      · have more : size < line.fatRead := unusable.resolve_left failed
        have stops : line.stops size .fat32 ↔ size ≠ 0 := by
          simp only [Line.failed, not_or, Bool.not_eq_false, not_not] at failed
          exact and_iff_left failed
        rw [stops]
        exact fatFsload_eq failed ▸ delivered_stops more
  | zmodem | hzmodem => exact rz_stops size
  | kermit | serial => exact delivered_stops (unusable.resolve_left id)
  | unknown =>
      have more : size < 0 := unusable.resolve_left id
      exact absurd more (by bv_omega)

/-! ### What a download that is written asks for -/

theorem not_unchanged {before after : Board} {call : Call} (asked : Asked before after call)
    (writes : call.isRead = false) : ¬ Unchanged before after := by
  intro unchanged
  have reads := unchanged.calls call asked
  rw [writes] at reads
  cases reads

theorem unchanged_of_onlyReads {before after : Board} (same : OnlyReads before after) :
    Unchanged before after := by
  refine ⟨fun call asked => ?_, same.mtdinfo⟩
  obtain ⟨more, history, made⟩ := asked
  rw [same.calls] at history
  rw [List.self_eq_append_left.mp history] at made
  cases made

/-- A download for an entry of the table is written, or it has the version of the table. -/
theorem loadPartition_unchanged {mpi : Fin mtdPartitionMax} :
    Unchanged b (loadPartition w b size mpi) ↔
      (b.mtdinfo.partition mpi).name = mtdinfoName ∧
        sameVersion w cfgLoadAddr (b.mtdinfo.partition mpi) = true := by
  let entry := b.mtdinfo.partition mpi
  let compared := compareTable w b cfgLoadAddr entry
  by_cases same : entry.name = mtdinfoName ∧ sameVersion w cfgLoadAddr entry = true
  · have kept : loadPartition w b size mpi = compared := if_pos same
    rw [kept]
    exact iff_of_true (unchanged_of_onlyReads ⟨rfl, rfl⟩) same
  · refine iff_of_false (fun unchanged => ?_) same
    let wrote :=
      (writeFlashData w compared (entry.offset + cfgFlashBase) size (.ram cfgLoadAddr)).2
    let info := wrote.mtdinfo.set mpi { wrote.mtdinfo.partition mpi with filesize := size }
    have written : loadPartition w b size mpi =
        keepMtdinfo w { wrote with mtdinfo := info } mpi := if_neg same
    obtain ⟨call, asked, writes⟩ := @writeFlashData_asks w compared
      (entry.offset + cfgFlashBase) size (.ram cfgLoadAddr)
    have grows := @keepMtdinfo_grows w { wrote with mtdinfo := info } mpi
    have later : Asked b (keepMtdinfo w { wrote with mtdinfo := info } mpi) call :=
      Asked.later asked grows
    rw [written] at unchanged
    exact not_unchanged later writes unchanged

theorem ask_changes {call : Call} (writes : call.isRead = false) :
    ¬ Unchanged b (ask w b call).2 :=
  not_unchanged ⟨[call], rfl, List.mem_singleton_self call⟩ writes

theorem load_of_goal {goal : Target} (found : target b.mtdinfo partname = some goal) :
    load w line type partname b =
      if received line type = 0 then b
      else if goal.flsize b.mtdinfo ≠ 0 ∧ goal.flsize b.mtdinfo < received line type then b
      else loadTarget w b (received line type) goal := by
  rw [load, found]

/-- An unusable download changes nothing if and only if it is withheld. -/
theorem unchanged_load_iff (unusable : Unusable line type partname b) :
    Unchanged b (load w line type partname b) ↔ Withheld w line type partname b := by
  obtain ⟨compiled, why⟩ := unusable
  cases found : target b.mtdinfo partname with
  | none =>
      have nothing : load w line type partname b = b := by rw [load, found]
      have withheld : Withheld w line type partname b := by
        rw [Withheld, found]
        trivial
      rw [nothing]
      exact iff_of_true (unchanged_of_onlyReads ⟨rfl, rfl⟩) withheld
  | some goal =>
      rw [load_of_goal found, Withheld, found]
      cases goal with
      | spiboot | micom =>
          have failed : line.failed type := by
            refine why.resolve_right ?_
            rintro ⟨mpi, other, _⟩
            rw [found] at other
            cases other
          rw [if_neg (received_of_failed compiled failed), if_neg fun both => both.1 rfl]
          exact iff_of_false (ask_changes rfl) id
      | partition mpi =>
          have reason : line.failed type ∨
              (b.mtdinfo.partition mpi).size < line.delivered type := by
            refine why.imp_right ?_
            rintro ⟨other, same, more⟩
            rw [found] at same
            cases same
            exact more
          have stops : received line type = 0 ∨
              (Target.flsize b.mtdinfo (.partition mpi) ≠ 0 ∧
                Target.flsize b.mtdinfo (.partition mpi) < received line type) ↔
                line.stops (b.mtdinfo.partition mpi).size type :=
            received_stops compiled reason
          by_cases stopped : line.stops (b.mtdinfo.partition mpi).size type
          · refine iff_of_true ?_ (Or.inr stopped)
            split
            · exact unchanged_of_onlyReads ⟨rfl, rfl⟩
            · rename_i some
              rw [if_pos ((stops.mpr stopped).resolve_left some)]
              exact unchanged_of_onlyReads ⟨rfl, rfl⟩
          · have goes := mt stops.mp stopped
            rw [not_or] at goes
            rw [if_neg goes.1, if_neg goes.2]
            exact loadPartition_unchanged.trans (or_iff_left stopped).symm

/-- An unusable download changes nothing if and only if it is not taken for a file that the
partition holds. -/
theorem changesNothing_iff (w : World) (line : Line) (type : LoadType) (partname : CString)
    (b : Board) :
    ChangesNothing w line type partname b ↔
      (Unusable line type partname b → Withheld w line type partname b) :=
  forall_congr' fun unusable => unchanged_load_iff unusable

/-- A file that the server does not send is written to the partition `rootfs`. -/
theorem written_of_failed :
    Unusable (.network (-1)) .tftp (str ['r', 'o', 'o', 't', 'f', 's']) .initial ∧
      ¬ ChangesNothing (.loaded fun _ => 0) (.network (-1)) .tftp
        (str ['r', 'o', 'o', 't', 'f', 's']) .initial := by
  have unusable :
      Unusable (.network (-1)) .tftp (str ['r', 'o', 'o', 't', 'f', 's']) .initial :=
    ⟨rfl, Or.inl rfl⟩
  refine ⟨unusable, fun law => ?_⟩
  have found : target Board.initial.mtdinfo (str ['r', 'o', 'o', 't', 'f', 's']) =
      some (.partition ⟨3, by decide⟩) := by decide +kernel
  have withheld := (unchanged_load_iff unusable).mp (law unusable)
  rw [Withheld, found] at withheld
  rcases withheld with same | stops
  · exact absurd same.1 (by decide +kernel)
  · exact absurd stops.2 (by decide)

end Gp2Firmware.CmdLg
