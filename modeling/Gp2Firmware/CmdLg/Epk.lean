import Gp2Firmware.CmdLg.Swu
import Gp2Firmware.CmdLg.Transport

/-!
# Packages

`_do_epk` of `cmd_swu.c`: a download is taken for a package, whose version is recorded
before its images are dealt with one after the other, or for a single image.
-/

namespace Gp2Firmware.CmdLg

variable (w : World)

/-- `_get_file_type` finds a package. -/
def World.isEpk : Bool := strncmpEq 4 (w.string 4 cfgLoadAddr) (str ['e', 'p', 'a', 'k'])

/-- `epk->fileNum` -/
def World.fileNum : BitVec 32 := w.word (cfgLoadAddr + 8)

/-- `epk->epkVersion` -/
def World.epkVersion : BitVec 32 := w.word (cfgLoadAddr + 172)

/-- `&(epk->imageLocation[i])` -/
def locationAddr (i : Nat) : BitVec 32 := cfgLoadAddr + 12 + BitVec.ofNat 32 (8 * i)

/-- `epk->imageLocation[i].imageOffset` -/
def World.imageOffset (i : Nat) : BitVec 32 := w.word (locationAddr i)

/-- The loop of `_do_epk`. -/
def packageLoop (filenum : Nat) : (left i count : Nat) → Board → Board
  | 0, _, _, b => b
  | left + 1, i, count, b =>
      let b := b.note (.location i) (locationAddr i) 4
      if w.imageOffset i = 0 then packageLoop filenum left (i + 1) count b
      else
        -- a refused image is reported and the loop goes on
        let b := (doSinglePak w b (cfgLoadAddr + w.imageOffset i)).2
        if count + 1 = filenum then b
        else packageLoop filenum left (i + 1) (count + 1) b

/-- The versions of `mtdinfo` when the images of a package are dealt with. -/
def recordVersion (info : BootMtdInfo) (epkVersion : BitVec 32) : BootMtdInfo :=
  { info with oldEpkVer := info.curEpkVer, curEpkVer := epkVersion }

/-- `_do_epk` from `_epk_start` on. -/
def doPackage (b : Board) : Board :=
  let b := { b.note .header (cfgLoadAddr + 172) 4 with
    mtdinfo := recordVersion b.mtdinfo w.epkVersion }
  packageLoop w w.fileNum.toNat w.fileNum.toNat 0 0 (b.note .header (cfgLoadAddr + 8) 4)

/-- `_do_epk` -/
def doEpk (line : Line) (type : LoadType) (b : Board) : Int × Board :=
  let size := receivedEpk line type
  if size = 0 then (0, b)
  else
    let b := b.note .header cfgLoadAddr 4
    if w.isEpk then (0, doPackage w b) else (0, (doSinglePak w b cfgLoadAddr).2)

/-! ### The images of a package -/

/-- The turn of the loop for a location. -/
def packageTurn (b : Board) (i : Nat) : Board :=
  let b := b.note (.location i) (locationAddr i) 4
  if w.imageOffset i = 0 then b else (doSinglePak w b (cfgLoadAddr + w.imageOffset i)).2

/-- The state in which the loop is entered. -/
def packageStart (b : Board) : Board :=
  { b.note .header (cfgLoadAddr + 172) 4 with
    mtdinfo := recordVersion b.mtdinfo w.epkVersion }.note .header (cfgLoadAddr + 8) 4

variable {w}

/-- The loop comes to every location: the images that it counts are never more than the
locations behind it. -/
theorem packageLoop_eq_foldl {filenum left i count : Nat} {b : Board} (few : count ≤ i)
    (all : i + left = filenum) :
    packageLoop w filenum left i count b = (List.range' i left).foldl (packageTurn w) b := by
  induction left generalizing i count b with
  | zero => rfl
  | succ left inductionHypothesis =>
      rw [List.range'_succ, List.foldl_cons, packageLoop, packageTurn]
      dsimp only
      split
      · exact inductionHypothesis (Nat.le_succ_of_le few) (by omega)
      · split
        · rename_i last
          have none : left = 0 := by omega
          rw [none]
          rfl
        · exact inductionHypothesis (Nat.succ_le_succ few) (by omega)

theorem doPackage_eq_foldl (b : Board) :
    doPackage w b =
      (List.range w.fileNum.toNat).foldl (packageTurn w) (packageStart w b) := by
  rw [List.range_eq_range']
  exact packageLoop_eq_foldl (Nat.le_refl 0) (Nat.zero_add _)

end Gp2Firmware.CmdLg
