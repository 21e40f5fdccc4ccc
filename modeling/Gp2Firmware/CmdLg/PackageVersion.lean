import Gp2Firmware.CmdLg.Epk
import Gp2Firmware.Lib.Run

/-!
# The version of a package

`_do_epk` records the version of a package before it deals with the images, whether these
are accepted or not.  Only a table that is read from the flash on the way changes the
versions again.
-/

namespace Gp2Firmware.CmdLg

variable (w : World)

/-- The version of the package in the flash and the one before it. -/
def BootMtdInfo.versions (info : BootMtdInfo) : BitVec 32 × BitVec 32 :=
  (info.curEpkVer, info.oldEpkVer)

/-- The table that has been read last in some calls, the latest first, behind others. -/
def lastLoaded (before : List Call) : List Call → Option BootMtdInfo
  | [] => none
  | call :: more =>
      if call.isRead ∧ w.result (call :: more ++ before) = 0 then
        some (w.stored (call :: more ++ before))
      else lastLoaded before more

/-- The versions are those of the table that has been read last, if there is one. -/
def Tracked (before : List Call) (versions : BitVec 32 × BitVec 32) (b : Board) : Prop :=
  ∃ more, b.calls = more ++ before ∧
    b.mtdinfo.versions = ((lastLoaded w before more).map BootMtdInfo.versions).getD versions

/-- An image is accepted by `_do_single_pak`. -/
def AcceptsImage (b : Board) (i : Nat) : Prop :=
  w.imageOffset i ≠ 0 →
    (doSinglePak w (b.note (.location i) (locationAddr i) 4)
      (cfgLoadAddr + w.imageOffset i)).1 = 0

/-- Every image of a package is accepted. -/
def AllAccepted (b : Board) : Prop :=
  Run.Meets (packageTurn w) (AcceptsImage w) (packageStart w b) (List.range w.fileNum.toNat)

/-- The version of a package is recorded only if all its images are accepted, and the
versions are as before otherwise. -/
structure VersionLaw (before after : BootMtdInfo) (epkVersion : BitVec 32)
    (accepted : Prop) : Prop where
  recorded : after.curEpkVer = epkVersion → accepted
  kept : ¬ accepted → after.versions = before.versions

/-- The table that has been read last has the versions of before the update, and the
package has another one. -/
def Restored (before after : Board) : Prop :=
  before.mtdinfo.curEpkVer ≠ w.epkVersion ∧
    ∃ more info, after.calls = more ++ before.calls ∧
      lastLoaded w before.calls more = some info ∧ info.versions = before.mtdinfo.versions

variable {w}

section

variable {before : List Call} {versions : BitVec 32 × BitVec 32} {b next : Board}

theorem lastLoaded_append {more earlier : List Call}
    (others : ∀ call ∈ more, call.isRead = false) :
    lastLoaded w before (more ++ earlier) = lastLoaded w before earlier := by
  induction more with
  | nil => rfl
  | cons call more inductionHypothesis =>
      obtain ⟨other, rest⟩ := List.forall_mem_cons.mp others
      rw [List.cons_append, lastLoaded, if_neg (by simp [other]), inductionHypothesis rest]

namespace Tracked

theorem congr (tracked : Tracked w before versions b) (calls : next.calls = b.calls)
    (same : next.mtdinfo.versions = b.mtdinfo.versions) : Tracked w before versions next := by
  obtain ⟨more, history, recorded⟩ := tracked
  exact ⟨more, calls.trans history, same.trans recorded⟩

theorem onlyReads (tracked : Tracked w before versions b) (same : OnlyReads b next) :
    Tracked w before versions next :=
  tracked.congr same.calls (congrArg BootMtdInfo.versions same.mtdinfo)

theorem sameTable (tracked : Tracked w before versions b) (same : SameTable b next) :
    Tracked w before versions next := by
  obtain ⟨earlier, history, recorded⟩ := tracked
  obtain ⟨later, calls, others⟩ := same.calls
  refine ⟨later ++ earlier, ?_, ?_⟩
  · rw [calls, history, List.append_assoc]
  · rw [same.mtdinfo, recorded, lastLoaded_append others]

theorem load (tracked : Tracked w before versions b) :
    Tracked w before versions (loadMtdinfo w b).2 := by
  obtain ⟨earlier, history, recorded⟩ := tracked
  let call : Call := .nandRead defaultMtdinfoBase bootMtdInfoSize
  have calls : call :: b.calls = call :: earlier ++ before := congrArg (call :: ·) history
  by_cases done : w.result (call :: b.calls) = 0
  · have loaded : loadMtdinfo w b =
        (0, { b with mtdinfo := w.stored (call :: b.calls), calls := call :: b.calls }) :=
      if_neg (not_not.mpr done)
    have last : lastLoaded w before (call :: earlier) = some (w.stored (call :: b.calls)) := by
      rw [calls] at done ⊢
      exact if_pos ⟨rfl, done⟩
    rw [loaded]
    refine ⟨call :: earlier, calls, ?_⟩
    rw [last]
    rfl
  · have failed : loadMtdinfo w b =
        (w.result (call :: b.calls), { b with calls := call :: b.calls }) :=
      if_pos done
    have last : lastLoaded w before (call :: earlier) = lastLoaded w before earlier := by
      rw [calls] at done
      exact if_neg fun both => done both.2
    rw [failed]
    refine ⟨call :: earlier, calls, ?_⟩
    rw [last]
    exact recorded

theorem save (tracked : Tracked w before versions b) :
    Tracked w before versions (saveMtdinfo w b).2 := by
  have marked : Tracked w before versions { b with mtdinfo := counted b.mtdinfo } :=
    tracked.congr rfl rfl
  exact marked.sameTable (SameTable.saveMtdinfo b)

theorem keep (tracked : Tracked w before versions b) (mpi : Fin mtdPartitionMax) :
    Tracked w before versions (keepMtdinfo w b mpi) :=
  keepMtdinfo_keeps (fun _ => save) (fun _ => load)
    (fun next here => here.sameTable (@SameTable.eraseCachepart w next)) tracked mpi

end Tracked

theorem adjust_versions {info : BootMtdInfo} {mpi : Fin mtdPartitionMax}
    {unmpi : Option (Fin mtdPartitionMax)} {size swver : BitVec 32} :
    (adjust info mpi unmpi size swver).versions = info.versions := by
  cases unmpi <;> rfl

/-- An image leaves the versions alone, except for a table that it makes read. -/
theorem Tracked.doSinglePak (tracked : Tracked w before versions b) (pak : BitVec 32) :
    Tracked w before versions (doSinglePak w b pak).2 := by
  have read := tracked.onlyReads (@onlyReads_readImage w b pak)
  have typed := tracked.onlyReads (@onlyReads_typed w b pak)
  have ends := @pakEnd_doSinglePak w b pak
  generalize CmdLg.doSinglePak w b pak = done at ends ⊢
  cases ends with
  | badCrc => exact read
  | spiboot => exact typed.sameTable (@SameTable.ask w _ _ rfl)
  | micom => exact typed.sameTable (@SameTable.ask w _ _ rfl)
  | unknown => exact typed
  | found mpi current _ done ends =>
      have place := @onlyReads_found w b pak mpi
      have found := tracked.onlyReads place
      have noted := tracked.onlyReads
        ((place.note .header (pak + 72) 4).note .header (pak + 76) 4)
      have wrote := noted.sameTable (@flashed_same w b pak mpi)
      cases ends with
      | sameVersion => exact found
      | wrongSize => exact found
      | failed => exact wrote
      | written =>
          let info := adjust (flashed w b pak mpi).2.mtdinfo mpi
            (getUnusedPartition b.mtdinfo (w.imageType pak)) (w.imageSize pak) (w.swVersion pak)
          have adjusted : Tracked w before versions
              { (flashed w b pak mpi).2 with mtdinfo := info } :=
            wrote.congr rfl adjust_versions
          exact adjusted.keep mpi

theorem Tracked.packageTurn (tracked : Tracked w before versions b) (i : Nat) :
    Tracked w before versions (packageTurn w b i) := by
  unfold CmdLg.packageTurn
  dsimp only
  split
  · exact tracked.congr rfl rfl
  · have noted : Tracked w before versions (b.note (.location i) (locationAddr i) 4) :=
      tracked.congr rfl rfl
    exact noted.doSinglePak _

/-- A package leaves its own version and that of before, or the versions of the table that
has been read last. -/
theorem tracked_doPackage (b : Board) :
    Tracked w b.calls (w.epkVersion, b.mtdinfo.curEpkVer) (doPackage w b) := by
  rw [doPackage_eq_foldl]
  have start : Tracked w b.calls (w.epkVersion, b.mtdinfo.curEpkVer) (packageStart w b) :=
    ⟨[], rfl, rfl⟩
  exact List.foldlRecOn _ _ start fun _ tracked i _ => tracked.packageTurn i

end

/-- A state with the recorded versions of a package meets the law if and only if all its
images are accepted or the versions of before have been read again. -/
theorem versionLaw_iff {accepted : Prop} {b after : Board}
    (tracked : Tracked w b.calls (w.epkVersion, b.mtdinfo.curEpkVer) after) :
    VersionLaw b.mtdinfo after.mtdinfo w.epkVersion accepted ↔
      accepted ∨ Restored w b after := by
  obtain ⟨more, calls, recorded⟩ := tracked
  constructor
  · intro law
    by_contra neither
    rw [not_or] at neither
    have kept := law.kept neither.1
    have other : after.mtdinfo.curEpkVer ≠ w.epkVersion :=
      fun same => neither.1 (law.recorded same)
    have current : after.mtdinfo.curEpkVer = b.mtdinfo.curEpkVer := congrArg Prod.fst kept
    cases last : lastLoaded w b.calls more with
    | none =>
        rw [last] at recorded
        exact other (congrArg Prod.fst recorded)
    | some info =>
        rw [last] at recorded
        exact neither.2 ⟨current ▸ other, more, info, calls, last, recorded.symm.trans kept⟩
  · rintro (all | ⟨other, read, info, history, last, same⟩)
    · exact ⟨fun _ => all, fun none => absurd all none⟩
    · have equal : read = more := List.append_cancel_right (history.symm.trans calls)
      rw [← equal, last] at recorded
      have kept : after.mtdinfo.versions = b.mtdinfo.versions := recorded.trans same
      refine ⟨fun current => ?_, fun _ => kept⟩
      exact absurd ((congrArg Prod.fst kept).symm.trans current) other

/-- What the law asks of a download that is a package. -/
def RecordsVersion (w : World) (line : Line) (type : LoadType) (b : Board) : Prop :=
  receivedEpk line type ≠ 0 → w.isEpk = true →
    VersionLaw b.mtdinfo (doEpk w line type b).2.mtdinfo w.epkVersion
      (AllAccepted w (b.note .header cfgLoadAddr 4))

/-- The version of a package is recorded as it should if and only if every image is
accepted, or the table that is read last has the versions of before. -/
theorem recordsVersion_iff (w : World) (line : Line) (type : LoadType) (b : Board) :
    RecordsVersion w line type b ↔
      (receivedEpk line type ≠ 0 → w.isEpk = true →
        AllAccepted w (b.note .header cfgLoadAddr 4) ∨
          Restored w b (doEpk w line type b).2) := by
  refine forall_congr' fun some => forall_congr' fun package => ?_
  have ran : doEpk w line type b = (0, doPackage w (b.note .header cfgLoadAddr 4)) := by
    simp only [doEpk, if_neg some, package, if_true]
  rw [ran]
  have tracked := @tracked_doPackage w (b.note .header cfgLoadAddr 4)
  exact versionLaw_iff tracked

/-- A package of version 5 with one image of no byte and no checksum. -/
def refusedEpk : Nat → BitVec 8
  | 0 => 0x65
  | 1 => 0x70
  | 2 => 0x61
  | 3 => 0x6b
  | 8 => 1
  | 12 => 176
  | 172 => 5
  | _ => 0

/-- The image is refused, and the version of the package is recorded. -/
theorem version_of_refused :
    (doEpk (.loaded refusedEpk) (.network 512) .tftp .initial).2.mtdinfo.curEpkVer = 5 ∧
      ¬ AllAccepted (.loaded refusedEpk) (Board.initial.note .header cfgLoadAddr 4) ∧
        ¬ RecordsVersion (.loaded refusedEpk) (.network 512) .tftp .initial := by
  have current : (doEpk (.loaded refusedEpk) (.network 512) .tftp
      .initial).2.mtdinfo.curEpkVer = 5 := by decide +kernel
  have refused : ¬ AllAccepted (.loaded refusedEpk)
      (Board.initial.note .header cfgLoadAddr 4) := by
    intro accepted
    have one : List.range (World.loaded refusedEpk).fileNum.toNat = [0] := by
      decide +kernel
    rw [AllAccepted, one] at accepted
    exact absurd (accepted.1 (by decide +kernel)) (by decide +kernel)
  refine ⟨current, refused, fun law => ?_⟩
  exact refused ((law (by decide) (by decide +kernel)).recorded
    (current.trans (by decide +kernel)))

end Gp2Firmware.CmdLg
