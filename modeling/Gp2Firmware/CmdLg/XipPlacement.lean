import Gp2Firmware.CmdLg.Mtdinfo
import Gp2Firmware.Lib.Run
import Gp2Firmware.Lib.WordBits
import Mathlib.Algebra.Group.Nat.Defs

/-!
# Images that run from the top of the memory

`do_xip` of `cmd_cp2ram.c` puts the images `lgapp` and `lgfont` below the end of the memory.
Where an image goes follows from a running total of all calls; what the kernel is told are
the lengths of the latest calls.
-/

namespace Gp2Firmware.CmdLg.XipPlacement

open Gp2Firmware.Lib

/-! ### The memory and the records -/

/-- `CFG_SDRAM_BASE` -/
def cfgSdramBase : BitVec 32 := 0x80000000

/-- The memory, in megabytes; its addresses have 32 bits. -/
structure Ram where
  ramSize : BitVec 32
  addressable : cfgSdramBase.toNat + ramSize.toNat * 2 ^ 20 ≤ 2 ^ 32

/-- The first address behind the memory. -/
def Ram.top (ram : Ram) : Nat := cfgSdramBase.toNat + ram.ramSize.toNat * 2 ^ 20

inductive Name where
  | lgapp
  | lgfont
  deriving DecidableEq

def Name.text : Name → CString
  | .lgapp => str ['l', 'g', 'a', 'p', 'p']
  | .lgfont => str ['l', 'g', 'f', 'o', 'n', 't']

def Name.other : Name → Name
  | .lgapp => .lgfont
  | .lgfont => .lgapp

/-- An image of some size at its place, with the length that was put aside for it. -/
structure Placed where
  dst : BitVec 32
  len : BitVec 32
  size : BitVec 32
  deriving DecidableEq

/-- `xip_size`, the lengths `appxip_len` and `fontxip_len`, and for each name the image of the
last call that returned 0. -/
structure Xip where
  xipSize : BitVec 32
  xiplen : Name → BitVec 32
  placed : Name → Option Placed

def Xip.initial : Xip := ⟨0, fun _ => 0, fun _ => none⟩

/-! ### The command -/

/-- What a call finds: the table of the partitions, the first character of `appxip` or
`fontxip`, the results of the reads of the header and then of the image, the bytes at
`cp_pos`, and the size that the decompression ends with. -/
structure Call where
  name : Name
  mtdinfo : BootMtdInfo
  env : BitVec 8
  headerRead : Int
  reads : Nat → Int
  erasesize : BitVec 32
  bytes : Nat → BitVec 8
  decompSize2 : BitVec 32

/-- The partition under a name. -/
def findPartition (info : BootMtdInfo) (name : CString) : Option (Fin mtdPartitionMax) :=
  Fin.find? fun idx =>
    let mpi := info.partition idx
    mpi.used ≠ 0 && mpi.valid ≠ 0 && name == mpi.name

/-- The loop over the image: each `nand_read` has to return 0. -/
def copyLoop (call : Call) (imgfilesize : BitVec 32) :
    (fuel : Nat) → (totSize : BitVec 32) → (turn : Nat) → Bool
  | 0, _, _ => true
  | fuel + 1, totSize, turn =>
      if totSize < imgfilesize then
        let left := imgfilesize - totSize
        let rdSize := if left < call.erasesize then left else call.erasesize
        if call.reads turn ≠ 0 then false
        else copyLoop call imgfilesize fuel (totSize + rdSize) (turn + 1)
      else true

def magic : List (BitVec 8) := [0x00, 0xe9, 0x4c, 0x5a, 0x4f, 0xff, 0x1a, 0x00]

/-- `lzo_compare_magic`: the bytes are the magic ones. -/
def lzoCompareMagic (buf : Nat → BitVec 8) : Bool := (List.range 8).map buf == magic

/-- `lzo_get_destsize` -/
def lzoGetDestsize (buf : Nat → BitVec 8) : BitVec 32 :=
  if lzoCompareMagic buf then buf 8 ++ buf 9 ++ buf 10 ++ buf 11 else 0

/-- The name behind the header starts like `CRMFS_HDR`. -/
def isCramfs (buf : Nat → BitVec 8) : Bool :=
  (List.range 15).map (fun i => buf (16 + i)) ==
    str ['C', 'o', 'm', 'p', 'r', 'e', 's', 's', 'e', 'd', ' ', 'R', 'O', 'M', 'F']

/-- The length that is put aside for a size. -/
def roundedLen (size : BitVec 32) : BitVec 32 := (size &&& 0xFFF00000) + 0x100000

variable (ram : Ram)

/-- `*xiplen` and `xip_size` for a size. -/
def Xip.reserve (x : Xip) (name : Name) (size : BitVec 32) : Xip :=
  { x with
    xiplen := Function.update x.xiplen name (roundedLen size)
    xipSize := x.xipSize + roundedLen size }

/-- `dst` -/
def Xip.dst (x : Xip) : BitVec 32 := cfgSdramBase + ((ram.ramSize <<< 20) - x.xipSize)

/-- A call that returns 0 leaves its image at `dst`. -/
def Xip.place (x : Xip) (name : Name) (size : BitVec 32) : Xip :=
  { x with placed := Function.update x.placed name (some ⟨x.dst ram, roundedLen size, size⟩) }

/-- `do_xip`, with the partition in the table and its image. -/
def doXip (x : Xip) (call : Call) : Int × Xip :=
  match findPartition call.mtdinfo call.name.text with
  | none => (1, x)
  | some mpi =>
      let imgfilesize := (call.mtdinfo.partition mpi).filesize
      if imgfilesize = 0 then (1, x)
      else if call.env = BitVec.ofNat 8 'n'.toNat then (1, x)
      else if call.headerRead ≠ 0 then (1, x)
      else if lzoCompareMagic call.bytes then
        if copyLoop call imgfilesize imgfilesize.toNat 0 0 = false then (1, x)
        else
          let decompSize1 := lzoGetDestsize call.bytes
          if decompSize1 = 0 then (1, x)
          else
            let x := x.reserve call.name decompSize1
            if call.decompSize2 ≠ decompSize1 then (1, x)
            else (0, x.place ram call.name decompSize1)
      else if isCramfs call.bytes then
        let x := x.reserve call.name imgfilesize
        if copyLoop call imgfilesize imgfilesize.toNat 0 0 = false then (1, x)
        else (0, x.place ram call.name imgfilesize)
      else (1, x)

/-- The records behind a call. -/
def step (x : Xip) (call : Call) : Xip := (doXip ram x call).2

/-! ### What the calls are to keep -/

/-- The images lie in the memory that is told to the kernel, side by side, and have room. -/
structure Apart (x : Xip) : Prop where
  within : ∀ name image, x.placed name = some image →
    cfgSdramBase.toNat ≤ image.dst.toNat ∧ image.dst.toNat + image.len.toNat ≤ ram.top
  told : ∀ name image, x.placed name = some image →
    ram.top ≤ image.dst.toNat + ((x.xiplen .lgapp).toNat + (x.xiplen .lgfont).toNat)
  disjoint : ∀ app font, x.placed .lgapp = some app → x.placed .lgfont = some font →
    app.dst.toNat + app.len.toNat ≤ font.dst.toNat ∨
      font.dst.toNat + font.len.toNat ≤ app.dst.toNat
  room : ∀ name image, x.placed name = some image → image.size ≤ image.len

/-- The size that a call puts memory aside for, if it comes that far, and whether it then
returns 0. -/
def Call.demand (call : Call) : Option (BitVec 32 × Bool) :=
  match findPartition call.mtdinfo call.name.text with
  | none => none
  | some mpi =>
      let imgfilesize := (call.mtdinfo.partition mpi).filesize
      let whole := copyLoop call imgfilesize imgfilesize.toNat 0 0
      let decompSize1 := lzoGetDestsize call.bytes
      if imgfilesize = 0 ∨ call.env = BitVec.ofNat 8 'n'.toNat ∨ call.headerRead ≠ 0 then none
      else if lzoCompareMagic call.bytes then
        if whole = false ∨ decompSize1 = 0 then none
        else some (decompSize1, call.decompSize2 == decompSize1)
      else if isCramfs call.bytes then some (imgfilesize, whole)
      else none

/-- The running total stays the sum of what was put aside. -/
def Adds (x : Xip) (call : Call) : Prop :=
  ∀ size done, call.demand = some (size, done) →
    x.xipSize.toNat + (roundedLen size).toNat < 2 ^ 32

/-- For a call that returns 0 there is memory, and nothing was put aside but the length told
for the other name.  A call that fails tells a length with which the images are still
covered. -/
def Fits (x : Xip) (call : Call) : Prop :=
  Adds x call ∧ ∀ size,
    (call.demand = some (size, true) →
      size < 0xFFF00000 ∧
      x.xipSize.toNat + (roundedLen size).toNat ≤ ram.ramSize.toNat * 2 ^ 20 ∧
      x.xipSize ≤ x.xiplen call.name.other) ∧
    (call.demand = some (size, false) → ∀ name image, x.placed name = some image →
      ram.top ≤ image.dst.toNat +
        ((roundedLen size).toNat + (x.xiplen call.name.other).toNat))

/-! ### A call -/

section

variable {ram} {x : Xip} {call : Call} {size : BitVec 32} {name : Name}

/-- The records behind a call that puts memory aside for a size. -/
def demanded (ram : Ram) (x : Xip) (name : Name) (size : BitVec 32) (done : Bool) : Xip :=
  if done then (x.reserve name size).place ram name size else x.reserve name size

theorem step_eq : step ram x call =
    match call.demand with
    | none => x
    | some (size, done) => demanded ram x call.name size done := by
  unfold step doXip Call.demand
  cases findPartition call.mtdinfo call.name.text with
  | none => rfl
  | some mpi =>
      dsimp only
      by_cases empty : (call.mtdinfo.partition mpi).filesize = 0
      · rw [if_pos empty, if_pos (Or.inl empty)]
      by_cases off : call.env = BitVec.ofNat 8 'n'.toNat
      · rw [if_neg empty, if_pos off, if_pos (Or.inr (Or.inl off))]
      by_cases failed : call.headerRead ≠ 0
      · rw [if_neg empty, if_neg off, if_pos failed, if_pos (Or.inr (Or.inr failed))]
      have reached : ¬ ((call.mtdinfo.partition mpi).filesize = 0 ∨
          call.env = BitVec.ofNat 8 'n'.toNat ∨ call.headerRead ≠ 0) := by
        intro refused
        exact refused.elim empty fun refused => refused.elim off failed
      rw [if_neg empty, if_neg off, if_neg failed, if_neg reached]
      generalize copyLoop call (call.mtdinfo.partition mpi).filesize
        (call.mtdinfo.partition mpi).filesize.toNat 0 0 = whole
      by_cases lzo : lzoCompareMagic call.bytes = true
      · rw [if_pos lzo, if_pos lzo]
        by_cases cut : whole = false
        · rw [if_pos cut, if_pos (Or.inl cut)]
        by_cases zero : lzoGetDestsize call.bytes = 0
        · rw [if_neg cut, if_pos zero, if_pos (Or.inr zero)]
        rw [if_neg cut, if_neg zero, if_neg (not_or.mpr ⟨cut, zero⟩)]
        by_cases same : call.decompSize2 = lzoGetDestsize call.bytes
        · rw [if_neg (not_not.mpr same), same]
          simp [demanded]
        · rw [if_pos same]
          simp [demanded, same]
      · rw [if_neg lzo, if_neg lzo]
        by_cases cramfs : isCramfs call.bytes = true
        · rw [if_pos cramfs, if_pos cramfs]
          cases whole with
          | false => rfl
          | true => rfl
        · rw [if_neg cramfs, if_neg cramfs]

theorem roundedLen_toNat : (roundedLen size).toNat =
    (size.toNat / 2 ^ 20 * 2 ^ 20 + 2 ^ 20) % 2 ^ 32 := by
  have rounded := toNat_and_high_mask size 20
  rw [show BitVec.allOnes 32 <<< 20 = (0xFFF00000 : BitVec 32) by decide] at rounded
  rw [roundedLen, BitVec.toNat_add, rounded]
  rfl

/-- The length has room for the size unless the sum wraps to zero. -/
theorem le_roundedLen_iff : size ≤ roundedLen size ↔ size < 0xFFF00000 := by
  have bound := size.isLt
  rw [BitVec.le_def, BitVec.lt_def, roundedLen_toNat,
    show (0xFFF00000 : BitVec 32).toNat = 0xFFF00000 from rfl]
  omega

theorem roundedLen_pos (below : size < 0xFFF00000) : 0 < (roundedLen size).toNat := by
  rw [BitVec.lt_def, show (0xFFF00000 : BitVec 32).toNat = 0xFFF00000 from rfl] at below
  rw [roundedLen_toNat]
  omega

theorem toNat_dst (ram : Ram) (x : Xip) : (x.dst ram).toNat =
    (cfgSdramBase.toNat + (ram.ramSize.toNat * 2 ^ 20 + 2 ^ 32 - x.xipSize.toNat)) % 2 ^ 32 := by
  have fits := ram.addressable
  have base : cfgSdramBase.toNat = 2 ^ 31 := by decide
  have bound := x.xipSize.isLt
  rw [base] at fits ⊢
  rw [Xip.dst, BitVec.toNat_add, BitVec.toNat_sub, BitVec.toNat_shiftLeft, base,
    Nat.shiftLeft_eq, Nat.mod_eq_of_lt (by omega : ram.ramSize.toNat * 2 ^ 20 < 2 ^ 32)]
  omega

/-- The told lengths behind a call. -/
theorem told_update (xiplen : Name → BitVec 32) (len : BitVec 32) :
    (Function.update xiplen name len .lgapp).toNat +
        (Function.update xiplen name len .lgfont).toNat =
      len.toNat + (xiplen name.other).toNat := by
  cases name with
  | lgapp => rw [Function.update_self, Function.update_of_ne (by decide), Name.other]
  | lgfont =>
      rw [Function.update_self, Function.update_of_ne (by decide), Name.other, Nat.add_comm]

/-- The images lie apart and above the memory that is not put aside. -/
structure Kept (ram : Ram) (x : Xip) : Prop where
  apart : Apart ram x
  above : ∀ name image, x.placed name = some image →
    ram.top ≤ image.dst.toNat + x.xipSize.toNat

theorem kept_initial : Kept ram .initial := by
  have nothing : ∀ name image, Xip.initial.placed name ≠ some image :=
    fun _ image => (Option.some_ne_none image).symm
  constructor
  · constructor
    · exact fun name image placed => absurd placed (nothing name image)
    · exact fun name image placed => absurd placed (nothing name image)
    · exact fun app font placed => absurd placed (nothing .lgapp app)
    · exact fun name image placed => absurd placed (nothing name image)
  · exact fun name image placed => absurd placed (nothing name image)

theorem toNat_reserve (adds : x.xipSize.toNat + (roundedLen size).toNat < 2 ^ 32) :
    (x.reserve name size).xipSize.toNat = x.xipSize.toNat + (roundedLen size).toNat :=
  (BitVec.toNat_add _ _).trans (Nat.mod_eq_of_lt adds)

/-- A call that fails keeps the images where they are and tells another length. -/
theorem apart_reserve_iff (kept : Kept ram x) :
    Apart ram (x.reserve name size) ↔ ∀ other image, x.placed other = some image →
      ram.top ≤ image.dst.toNat +
        ((roundedLen size).toNat + (x.xiplen name.other).toNat) := by
  constructor
  · intro apart other image placed
    rw [← told_update]
    exact apart.told other image placed
  · intro covered
    refine ⟨kept.apart.within, ?_, kept.apart.disjoint, kept.apart.room⟩
    intro other image placed
    have told := covered other image placed
    rwa [← told_update] at told

theorem kept_reserve (kept : Kept ram x)
    (adds : x.xipSize.toNat + (roundedLen size).toNat < 2 ^ 32)
    (covered : ∀ other image, x.placed other = some image →
      ram.top ≤ image.dst.toNat + ((roundedLen size).toNat + (x.xiplen name.other).toNat)) :
    Kept ram (x.reserve name size) := by
  refine ⟨(apart_reserve_iff kept).mpr covered, ?_⟩
  intro other image placed
  have above := kept.above other image placed
  rw [toNat_reserve adds]
  omega

/-- The image of a call that returns 0 lies directly below what was put aside before. -/
theorem toNat_dst_reserve (below : size < 0xFFF00000)
    (fits : x.xipSize.toNat + (roundedLen size).toNat ≤ ram.ramSize.toNat * 2 ^ 20) :
    ((x.reserve name size).dst ram).toNat + (roundedLen size).toNat + x.xipSize.toNat =
      ram.top := by
  have some := roundedLen_pos below
  have inSpace := ram.addressable
  have base : cfgSdramBase.toNat = 2 ^ 31 := by decide
  have top : ram.top = cfgSdramBase.toNat + ram.ramSize.toNat * 2 ^ 20 := rfl
  have adds : x.xipSize.toNat + (roundedLen size).toNat < 2 ^ 32 := by omega
  have place := toNat_dst ram (x.reserve name size)
  rw [toNat_reserve adds] at place
  omega

theorem reserve_placed : (x.reserve name size).placed = x.placed := by
  rw [Xip.reserve]

theorem place_placed : (x.place ram name size).placed =
    Function.update x.placed name (some ⟨x.dst ram, roundedLen size, size⟩) := by
  rw [Xip.place]

/-- An image behind a call that returns 0 is the new one or that of the other name. -/
theorem placed_place {other : Name} {image : Placed}
    (placed : ((x.reserve name size).place ram name size).placed other = some image) :
    (other = name ∧ image = ⟨(x.reserve name size).dst ram, roundedLen size, size⟩) ∨
      (other = name.other ∧ x.placed other = some image) := by
  rw [place_placed, reserve_placed] at placed
  by_cases own : other = name
  · rw [own, Function.update_self, Option.some.injEq] at placed
    exact Or.inl ⟨own, placed.symm⟩
  · rw [Function.update_of_ne own] at placed
    refine Or.inr ⟨?_, placed⟩
    cases other with
    | lgapp =>
        cases name with
        | lgapp => exact absurd rfl own
        | lgfont => rfl
    | lgfont =>
        cases name with
        | lgapp => rfl
        | lgfont => exact absurd rfl own

theorem kept_place (kept : Kept ram x) (below : size < 0xFFF00000)
    (fits : x.xipSize.toNat + (roundedLen size).toNat ≤ ram.ramSize.toNat * 2 ^ 20)
    (counted : x.xipSize ≤ x.xiplen name.other) :
    Kept ram ((x.reserve name size).place ram name size) := by
  have place := @toNat_dst_reserve ram x size name below fits
  have inSpace := ram.addressable
  have adds : x.xipSize.toNat + (roundedLen size).toNat < 2 ^ 32 := by
    have base : cfgSdramBase.toNat = 2 ^ 31 := by decide
    omega
  have total := @toNat_reserve x size name adds
  rw [BitVec.le_def] at counted
  have top : ram.top = cfgSdramBase.toNat + ram.ramSize.toNat * 2 ^ 20 := rfl
  refine ⟨⟨?_, ?_, ?_, ?_⟩, ?_⟩
  · intro other image placed
    rcases placed_place placed with ⟨-, rfl⟩ | ⟨-, placed⟩
    · dsimp only
      omega
    · exact kept.apart.within other image placed
  · intro other image placed
    rw [Xip.place, Xip.reserve, told_update]
    rcases placed_place placed with ⟨-, rfl⟩ | ⟨-, placed⟩
    · dsimp only
      omega
    · have above := kept.above other image placed
      omega
  · intro app font placedApp placedFont
    -- the image of the other name lies above what was put aside before
    rcases placed_place placedApp with ⟨isApp, rfl⟩ | ⟨isFont, placedApp⟩
    · rcases placed_place placedFont with ⟨isFont, rfl⟩ | ⟨-, placedFont⟩
      · exact absurd (isApp.trans isFont.symm) (by decide)
      · have above := kept.above _ _ placedFont
        dsimp only
        omega
    · rcases placed_place placedFont with ⟨-, rfl⟩ | ⟨isApp, -⟩
      · have above := kept.above _ _ placedApp
        dsimp only
        omega
      · exact absurd (isFont.trans isApp.symm) (by decide)
  · intro other image placed
    rcases placed_place placed with ⟨-, rfl⟩ | ⟨-, placed⟩
    · exact le_roundedLen_iff.mpr below
    · exact kept.apart.room other image placed
  · intro other image placed
    change ram.top ≤ image.dst.toNat + (x.reserve name size).xipSize.toNat
    rw [total]
    rcases placed_place placed with ⟨-, rfl⟩ | ⟨-, placed⟩
    · dsimp only
      omega
    · have above := kept.above other image placed
      omega

/-- What an image of a call that returns 0 needs. -/
theorem fits_of_apart (adds : x.xipSize.toNat + (roundedLen size).toNat < 2 ^ 32)
    (apart : Apart ram ((x.reserve name size).place ram name size)) :
    size < 0xFFF00000 ∧
      x.xipSize.toNat + (roundedLen size).toNat ≤ ram.ramSize.toNat * 2 ^ 20 ∧
      x.xipSize ≤ x.xiplen name.other := by
  have placed : ((x.reserve name size).place ram name size).placed name =
      some ⟨(x.reserve name size).dst ram, roundedLen size, size⟩ := by
    rw [place_placed, Function.update_self]
  have room : size ≤ roundedLen size := apart.room name _ placed
  have below := le_roundedLen_iff.mp room
  obtain ⟨above, inside⟩ := apart.within name _ placed
  have told := apart.told name _ placed
  have inSpace := ram.addressable
  have base : cfgSdramBase.toNat = 2 ^ 31 := by decide
  have place := toNat_dst ram (x.reserve name size)
  rw [toNat_reserve adds] at place
  rw [Ram.top] at inside
  dsimp only at above inside
  have fits : x.xipSize.toNat + (roundedLen size).toNat ≤ ram.ramSize.toNat * 2 ^ 20 := by
    omega
  have next := @toNat_dst_reserve ram x size name below fits
  rw [Xip.place, Xip.reserve, told_update] at told
  refine ⟨below, fits, ?_⟩
  rw [BitVec.le_def]
  change ram.top ≤ ((x.reserve name size).dst ram).toNat + _ at told
  omega

/-- One call keeps the images apart if and only if it fits. -/
theorem apart_step_iff (kept : Kept ram x) :
    Adds x call ∧ Apart ram (step ram x call) ↔ Fits ram x call := by
  rw [step_eq, Fits]
  refine and_congr_right fun adds => ?_
  cases demand : call.demand with
  | none =>
      refine iff_of_true kept.apart fun size => ⟨fun reached => ?_, fun reached => ?_⟩
      · exact absurd reached (Option.some_ne_none _).symm
      · exact absurd reached (Option.some_ne_none _).symm
  | some demanded =>
      obtain ⟨size, done⟩ := demanded
      have sum := adds size done demand
      cases done with
      | false =>
          refine (apart_reserve_iff kept).trans ⟨fun covered other => ⟨fun reached => ?_, ?_⟩, ?_⟩
          · simp at reached
          · intro same
            rw [Option.some.injEq, Prod.mk.injEq] at same
            rw [← same.1]
            exact covered
          · intro fits
            exact (fits size).2 rfl
      | true =>
          constructor
          · intro apart other
            constructor
            · intro same
              rw [Option.some.injEq, Prod.mk.injEq] at same
              rw [← same.1]
              exact fits_of_apart sum apart
            · intro reached
              simp at reached
          · intro fits
            obtain ⟨below, room, counted⟩ := (fits size).1 rfl
            exact (kept_place kept below room counted).apart

theorem kept_step (kept : Kept ram x) (fits : Fits ram x call) : Kept ram (step ram x call) := by
  rw [step_eq]
  cases demand : call.demand with
  | none => exact kept
  | some demanded =>
      obtain ⟨size, done⟩ := demanded
      cases done with
      | false => exact kept_reserve kept (fits.1 size false demand) ((fits.2 size).2 demand)
      | true =>
          obtain ⟨below, room, counted⟩ := (fits.2 size).1 demand
          exact kept_place kept below room counted

end

/-! ### Runs -/

/-- The images are apart after every call, and the running total never wraps, if and only if
every call fits. -/
theorem apart_after_every_call_iff (ram : Ram) (calls : List Call) :
    (Run.Meets (step ram) Adds .initial calls ∧
      ∀ done, done <+: calls → Apart ram (done.foldl (step ram) .initial)) ↔
    Run.Meets (step ram) (Fits ram) .initial calls := by
  suffices from_kept : ∀ x, Kept ram x →
      ((Run.Meets (step ram) Adds x calls ∧
        ∀ done, done <+: calls → Apart ram (done.foldl (step ram) x)) ↔
      Run.Meets (step ram) (Fits ram) x calls) from from_kept .initial kept_initial
  intro x kept
  induction calls generalizing x with
  | nil =>
      refine iff_of_true ⟨trivial, fun done before => ?_⟩ trivial
      rw [List.prefix_nil.mp before]
      exact kept.apart
  | cons call calls inductionHypothesis =>
      constructor
      · intro ⟨⟨adds, later⟩, apart⟩
        have first : Apart ram (step ram x call) := apart [call] ⟨calls, rfl⟩
        have fits := (apart_step_iff kept).mp ⟨adds, first⟩
        refine ⟨fits, (inductionHypothesis _ (kept_step kept fits)).mp ⟨later, ?_⟩⟩
        intro done before
        exact apart (call :: done) ((List.prefix_cons_inj call).mpr before)
      · intro ⟨fits, later⟩
        obtain ⟨adds, apart⟩ := (inductionHypothesis _ (kept_step kept fits)).mpr later
        refine ⟨⟨fits.1, adds⟩, fun done before => ?_⟩
        cases done with
        | nil => exact kept.apart
        | cons first done =>
            obtain ⟨rfl, earlier⟩ := List.cons_prefix_cons.mp before
            exact apart done earlier

/-- A ROM file system of one byte under the name `lgapp`. -/
def smallApp : Call where
  name := .lgapp
  mtdinfo := defaultMtdInfo.set ⟨0, Nat.zero_lt_succ 31⟩
    ⟨Name.lgapp.text, 0x100000, 0x100000, [], 1, 0, yes, yes, 0⟩
  env := BitVec.ofNat 8 'y'.toNat
  headerRead := 0
  reads := fun _ => 0
  erasesize := 0x20000
  bytes := fun i => (str ['C', 'o', 'm', 'p', 'r', 'e', 's', 's', 'e', 'd', ' ',
    'R', 'O', 'M', 'F', 'S']).getD (i - 16) 0
  decompSize2 := 0

/-- The second copy of an image is not in the memory that is told. -/
theorem untold_second_copy :
    let ram : Ram := ⟨128, by decide⟩
    (doXip ram .initial smallApp).1 = 0 ∧
      (doXip ram (step ram .initial smallApp) smallApp).1 = 0 ∧
      ¬ Apart ram ([smallApp, smallApp].foldl (step ram) .initial) := by
  refine ⟨by decide, by decide, fun apart => ?_⟩
  have told := apart.told .lgapp ⟨0x87e00000, 0x100000, 1⟩ (by decide)
  exact absurd told (by decide)

end Gp2Firmware.CmdLg.XipPlacement
