import Gp2Firmware.UBoot.MapPersistence

/-!
# Loading an info block

`nand_bbm_info_load` takes the entries of the block as they are, whatever they
say and whatever the counters have been left at.  The reserve blocks have to be
named downwards: then what has been counted in front of an entry is the number
of blocks from the last target up, and twice what `bb_count_redirect` was.
-/

namespace Gp2Firmware.UBoot

open Gp2Firmware.Lib
open Gp2Firmware.Nand

/-- The block that the loader reads. -/
def infoBlock (g : Geometry) (chip : ChipBehaviour) (d : Device) : Nat → Word :=
  wordOfBytes (nandReadEcc g chip d 0 g.erasesize fun _ => ⊥).buf

/-- `nand_bbm->maps` -/
def mapsOf (block : Nat → Word) : Nat → MapInfo :=
  fun i => ⟨(block (3 + 2 * i)).toNat, (block (4 + 2 * i)).toNat⟩

/-- The blocks from here on have been dealt with in front of an entry. -/
def dealtDownTo (g : Geometry) (maps : Nat → MapInfo) : Nat → Nat
  | 0 => g.blocks
  | i + 1 => (maps i).relocIndex

@[simp]
theorem dealtDownTo_zero (g : Geometry) (maps : Nat → MapInfo) :
    dealtDownTo g maps 0 = g.blocks := rfl

section Entries

variable (g : Geometry) (bbCount counted : Nat) (maps : Nat → MapInfo)

/-- The counters stand at the count of the block in front of an entry. -/
def CountReached (i : Nat) : Prop :=
  (2 * counted + (g.blocks - dealtDownTo g maps i)) % 2 ^ 32 = bbCount

/-- The loop has a turn for an entry and has not reached the count before. -/
def ComesTo (i : Nat) : Prop :=
  i < g.redirBlocks ∧ ∀ j ≤ i, ¬ CountReached g bbCount counted maps j

/-- An entry that lies in the block, names a block of the device, and has a target below
the one before it. -/
def EntryInside (i : Nat) : Prop :=
  4 * (5 + 2 * i) ≤ g.erasesize ∧ (maps i).bbIndex < g.blocks ∧
    (maps i).relocIndex < dealtDownTo g maps i

/-- An entry of another block whose target comes right below the one before it. -/
def EntryAdjacent (i : Nat) : Prop :=
  (maps i).relocIndex + 1 = dealtDownTo g maps i ∧ (maps i).bbIndex ≠ (maps i).relocIndex

end Entries

variable {g : Geometry} {chip : ChipBehaviour} {bbCount counted : Nat}
  {maps : Nat → MapInfo}

/-- `rindex` when the blocks down to some block have been dealt with. -/
def rindexBelow (dealt : Nat) : Nat :=
  (dealt + (2 ^ 32 - 1)) % 2 ^ 32

theorem rindexBelow_lt {dealt : Nat} (pos : 0 < dealt) (within : dealt ≤ g.blocks) :
    rindexBelow dealt = dealt - 1 ∧ rindexBelow dealt < g.blocks := by
  have small := g.blocks_lt
  unfold rindexBelow
  omega

/-- The counters agree with the entries that the loop has behind it. -/
structure Counted (g : Geometry) (counted : Nat) (maps : Nat → MapInfo) (i : Nat) (s : Bbm) :
    Prop where
  within : dealtDownTo g maps i ≤ g.blocks
  sum : s.bbCountData + s.bbCountRedirect =
    2 * counted + (g.blocks - dealtDownTo g maps i)

theorem Counted.reached_iff {i : Nat} {s : Bbm} (count : Counted g counted maps i s) :
    (s.bbCountData + s.bbCountRedirect) % 2 ^ 32 = bbCount ↔
      CountReached g bbCount counted maps i := by
  rw [count.sum, CountReached]

/-- One entry. -/
theorem loadEntry_dealt {i : Nat} {s : Bbm} (within : dealtDownTo g maps i ≤ g.blocks) :
    loadEntry g (maps i) (rindexBelow (dealtDownTo g maps i)) s =
      if (maps i).relocIndex < dealtDownTo g maps i ∧ (maps i).bbIndex < g.blocks then
        some (entryLoaded s (maps i) (rindexBelow (dealtDownTo g maps i)))
      else none := by
  have small := g.blocks_lt
  by_cases pos : 0 < dealtDownTo g maps i
  · obtain ⟨below, inside⟩ := rindexBelow_lt pos within
    have same : (maps i).relocIndex ≤ rindexBelow (dealtDownTo g maps i) ↔
        (maps i).relocIndex < dealtDownTo g maps i := by
      omega
    simp only [loadEntry_eq _ _ inside, same]
  · have beyond : g.blocks ≤ rindexBelow (dealtDownTo g maps i) := by
      unfold rindexBelow
      omega
    rw [loadEntry_beyond _ _ beyond, if_neg (by omega)]

theorem Counted.entryLoaded {i : Nat} {s : Bbm} (count : Counted g counted maps i s)
    (lower : (maps i).relocIndex < dealtDownTo g maps i) :
    Counted g counted maps (i + 1)
      (UBoot.entryLoaded s (maps i) (rindexBelow (dealtDownTo g maps i))) where
  within := Nat.le_trans (Nat.le_of_lt lower) count.within
  sum := by
    have within := count.within
    have sum := count.sum
    have pos : 0 < dealtDownTo g maps i := by omega
    obtain ⟨below, -⟩ := rindexBelow_lt pos within
    have notAbove : (maps i).relocIndex ≤ rindexBelow (dealtDownTo g maps i) := by omega
    have counts := entryLoaded_counts s (maps i) notAbove
    have last : dealtDownTo g maps (i + 1) = (maps i).relocIndex := rfl
    omega

/-- The entries that the loop comes to from a turn on. -/
def ComesToFrom (g : Geometry) (bbCount counted : Nat) (maps : Nat → MapInfo)
    (i turns k : Nat) : Prop :=
  i ≤ k ∧ k < i + turns ∧ ∀ j, i ≤ j → j ≤ k → ¬ CountReached g bbCount counted maps j

theorem forall_comesToFrom_succ {i turns : Nat} {P : Nat → Prop}
    (more : ¬ CountReached g bbCount counted maps i) :
    (∀ k, ComesToFrom g bbCount counted maps i (turns + 1) k → P k) ↔
      P i ∧ ∀ k, ComesToFrom g bbCount counted maps (i + 1) turns k → P k := by
  constructor
  · intro all
    refine ⟨all i ⟨le_refl _, by omega, fun j above below => ?_⟩, fun k comes => ?_⟩
    · rwa [Nat.le_antisymm below above]
    · obtain ⟨above, below, notYet⟩ := comes
      refine all k ⟨by omega, by omega, fun j fromI upTo => ?_⟩
      by_cases first : j = i
      · rwa [first]
      · exact notYet j (by omega) upTo
  · intro ⟨first, rest⟩ k comes
    obtain ⟨above, below, notYet⟩ := comes
    by_cases here : k = i
    · rwa [here]
    · exact rest k ⟨by omega, by omega, fun j fromI upTo => notYet j (by omega) upTo⟩

theorem forall_comesToFrom_of_reached {i turns : Nat} {P : Nat → Prop}
    (reached : CountReached g bbCount counted maps i) (k : Nat)
    (comes : ComesToFrom g bbCount counted maps i turns k) : P k :=
  absurd reached (comes.2.2 i (le_refl _) comes.1)

theorem loadLoop_isSome_iff {turns i : Nat} {s : Bbm} (count : Counted g counted maps i s) :
    (loadLoop g bbCount maps turns i (rindexBelow (dealtDownTo g maps i)) s).isSome ↔
      ∀ k, ComesToFrom g bbCount counted maps i turns k → EntryInside g maps k := by
  induction turns generalizing i s with
  | zero =>
      simp only [loadLoop, Option.isSome_some, true_iff]
      intro k comes
      have above := comes.1
      have below := comes.2.1
      omega
  | succ turns inductionHypothesis =>
      rw [loadLoop]
      by_cases reached : CountReached g bbCount counted maps i
      · rw [if_pos (count.reached_iff.mpr reached)]
        simp only [Option.isSome_some, true_iff]
        exact forall_comesToFrom_of_reached reached
      · rw [if_neg (fun same => reached (count.reached_iff.mp same)),
          forall_comesToFrom_succ reached]
        by_cases inBlock : g.erasesize < 4 * (5 + 2 * i)
        · rw [if_pos inBlock]
          have outside : ¬ EntryInside g maps i := fun inside => by
            have := inside.1
            omega
          simp [outside]
        · rw [if_neg inBlock, loadEntry_dealt count.within]
          by_cases lower :
              (maps i).relocIndex < dealtDownTo g maps i ∧ (maps i).bbIndex < g.blocks
          · rw [if_pos lower]
            have inside : EntryInside g maps i := ⟨by omega, lower.2, lower.1⟩
            have rest := inductionHypothesis (count.entryLoaded lower.1)
            simp only [inside, true_and]
            exact rest
          · rw [if_neg lower]
            have outside : ¬ EntryInside g maps i := fun inside =>
              lower ⟨inside.2.2, inside.2.1⟩
            simp [outside]

/-! ### What a loop that ends has counted -/

theorem entryLoaded_redirect (s : Bbm) (entry : MapInfo) (rindex : Nat) :
    (entryLoaded s entry rindex).bbCountRedirect =
      s.bbCountRedirect + (rindex - entry.relocIndex) +
        if entry.bbIndex ≠ entry.relocIndex then 0 else 1 := by
  simp only [entryLoaded, markedDown]
  split <;> rfl

/-- An adjacent entry of another block is the only kind that adds nothing to
`bb_count_redirect`. -/
theorem entryLoaded_redirect_eq_iff {i : Nat} {s : Bbm} (within : dealtDownTo g maps i ≤ g.blocks)
    (lower : (maps i).relocIndex < dealtDownTo g maps i) :
    (entryLoaded s (maps i) (rindexBelow (dealtDownTo g maps i))).bbCountRedirect =
        s.bbCountRedirect ↔ EntryAdjacent g maps i := by
  have pos : 0 < dealtDownTo g maps i := by omega
  obtain ⟨below, -⟩ := rindexBelow_lt pos within
  rw [entryLoaded_redirect, below, EntryAdjacent]
  split <;> omega

/-- What a loop that ends has done about the counters. -/
structure LoadCounts (g : Geometry) (bbCount counted : Nat) (maps : Nat → MapInfo)
    (i turns final dealt : Nat) (s loaded : Bbm) : Prop where
  final : final = rindexBelow dealt
  within : dealt ≤ g.blocks
  sum : loaded.bbCountData + loaded.bbCountRedirect + dealt =
    s.bbCountData + s.bbCountRedirect + dealtDownTo g maps i
  check : loaded.nandBbmCheck = s.nandBbmCheck
  grows : s.bbCountRedirect ≤ loaded.bbCountRedirect
  unchanged_iff : loaded.bbCountRedirect = s.bbCountRedirect ↔
    ∀ k, ComesToFrom g bbCount counted maps i turns k → EntryAdjacent g maps k

theorem loadLoop_counts {turns i final : Nat} {s loaded : Bbm}
    (count : Counted g counted maps i s)
    (ends : loadLoop g bbCount maps turns i (rindexBelow (dealtDownTo g maps i)) s =
      some (final, loaded)) :
    ∃ dealt, LoadCounts g bbCount counted maps i turns final dealt s loaded := by
  induction turns generalizing i s with
  | zero =>
      rw [loadLoop, Option.some.injEq, Prod.mk.injEq] at ends
      obtain ⟨rfl, rfl⟩ := ends
      refine ⟨dealtDownTo g maps i, rfl, count.within, rfl, rfl, le_refl _, ?_⟩
      simp only [true_iff]
      intro k comes
      have above := comes.1
      have below := comes.2.1
      omega
  | succ turns inductionHypothesis =>
      rw [loadLoop] at ends
      by_cases reached : CountReached g bbCount counted maps i
      · rw [if_pos (count.reached_iff.mpr reached), Option.some.injEq, Prod.mk.injEq] at ends
        obtain ⟨rfl, rfl⟩ := ends
        refine ⟨dealtDownTo g maps i, rfl, count.within, rfl, rfl, le_refl _, ?_⟩
        simp only [true_iff]
        exact forall_comesToFrom_of_reached reached
      · rw [if_neg (fun same => reached (count.reached_iff.mp same)),
          loadEntry_dealt count.within] at ends
        split at ends
        · exact absurd ends (by simp)
        · by_cases lower :
              (maps i).relocIndex < dealtDownTo g maps i ∧ (maps i).bbIndex < g.blocks
          · rw [if_pos lower] at ends
            obtain ⟨dealt, rest⟩ := inductionHypothesis (count.entryLoaded lower.1) ends
            have within := count.within
            have pos : 0 < dealtDownTo g maps i := by omega
            obtain ⟨below, -⟩ := rindexBelow_lt pos within
            have notAbove : (maps i).relocIndex ≤ rindexBelow (dealtDownTo g maps i) := by
              omega
            have counts := entryLoaded_counts s (maps i) notAbove
            have first := entryLoaded_redirect s (maps i) (rindexBelow (dealtDownTo g maps i))
            have unchanged := @entryLoaded_redirect_eq_iff g maps i s within lower.1
            have last : dealtDownTo g maps (i + 1) = (maps i).relocIndex := rfl
            have sum := rest.sum
            have grows := rest.grows
            refine ⟨dealt, rest.final, rest.within, by omega, rest.check, by omega, ?_⟩
            rw [forall_comesToFrom_succ reached, ← unchanged, ← rest.unchanged_iff]
            omega
          · rw [if_neg lower] at ends
            exact absurd ends (by simp)

/-! ### The counters decide, not the old map -/

/-- Two maps that the loop cannot tell apart. -/
structure Agree (g : Geometry) (s s' : Bbm) : Prop where
  bitmap : ∀ index, index < g.blocks → s.nandBbmBitmap index = s'.nandBbmBitmap index
  data : s.bbCountData = s'.bbCountData
  redirect : s.bbCountRedirect = s'.bbCountRedirect

theorem Agree.entryLoaded {s s' : Bbm} (agree : Agree g s s') {entry : MapInfo}
    (reloc : entry.relocIndex < g.blocks) (rindex : Nat) :
    Agree g (UBoot.entryLoaded s entry rindex) (UBoot.entryLoaded s' entry rindex) where
  bitmap index inside := by
    rw [entryLoaded_entry, entryLoaded_entry, agree.bitmap index inside,
      agree.bitmap _ reloc]
  data := by
    simp only [UBoot.entryLoaded, markedDown, agree.data]
  redirect := by
    rw [entryLoaded_redirect, entryLoaded_redirect, agree.redirect]

theorem loadLoop_agree {turns i rindex final : Nat} {s s' loaded : Bbm}
    (agree : Agree g s s')
    (ends : loadLoop g bbCount maps turns i rindex s = some (final, loaded)) :
    ∃ loaded', loadLoop g bbCount maps turns i rindex s' = some (final, loaded') ∧
      Agree g loaded loaded' := by
  induction turns generalizing i rindex s s' with
  | zero =>
      rw [loadLoop, Option.some.injEq, Prod.mk.injEq] at ends
      obtain ⟨rfl, rfl⟩ := ends
      exact ⟨s', rfl, agree⟩
  | succ turns inductionHypothesis =>
      rw [loadLoop] at ends ⊢
      rw [← agree.data, ← agree.redirect]
      by_cases reached : (s.bbCountData + s.bbCountRedirect) % 2 ^ 32 = bbCount
      · rw [if_pos reached, Option.some.injEq, Prod.mk.injEq] at ends
        obtain ⟨rfl, rfl⟩ := ends
        exact ⟨s', if_pos reached, agree⟩
      · rw [if_neg reached] at ends ⊢
        by_cases outside : g.erasesize < 4 * (5 + 2 * i)
        · rw [if_pos outside] at ends
          exact absurd ends (by simp)
        · rw [if_neg outside] at ends ⊢
          by_cases inside : rindex < g.blocks
          · rw [loadEntry_eq _ _ inside] at ends ⊢
            by_cases lower : (maps i).relocIndex ≤ rindex ∧ (maps i).bbIndex < g.blocks
            · rw [if_pos lower] at ends ⊢
              exact inductionHypothesis (agree.entryLoaded (by omega) _) ends
            · rw [if_neg lower] at ends
              exact absurd ends (by simp)
          · rw [loadEntry_beyond _ _ (by omega)] at ends
            exact absurd ends (by simp)

/-! ### Reading the block a second time -/

/-- Two states of `nand_read_ecc` in front of the same pages, with no translation. -/
structure SameRead (r r' : ReadState) : Prop where
  buf : r.buf = r'.buf
  read : r.read = r'.read
  realpage : r.realpage = r'.realpage
  col : r.col = r'.col
  eccFailed : r.eccFailed = r'.eccFailed
  flash : r.device.flash = r'.device.flash
  pagebuf : r.device.pagebuf = r'.device.pagebuf
  dataBuf : r.device.dataBuf = r'.device.dataBuf
  check : r.device.bbm.nandBbmCheck = false
  check' : r'.device.bbm.nandBbmCheck = false

theorem adjustPage_of_not_check {s : Bbm} (check : s.nandBbmCheck = false) (page : Nat) :
    adjustPage g s page = page &&& g.pagemask := by
  rw [adjustPage, nandBbmAdjust, check, Bool.false_and, if_neg (by simp),
    Nat.shiftLeft_shiftRight]

theorem SameRead.readTurn {r r' : ReadState} (same : SameRead r r') (len : Nat) :
    SameRead (UBoot.readTurn g chip len r) (UBoot.readTurn g chip len r') := by
  obtain ⟨buf, read, realpage, col, eccFailed, flash, pagebuf, dataBuf, check, check'⟩ := same
  constructor <;>
    simp only [UBoot.readTurn, adjustPage_of_not_check check, adjustPage_of_not_check check',
      buf, read, realpage, col, eccFailed, flash, pagebuf, dataBuf, check, check']

theorem SameRead.readLoop {r r' : ReadState} (same : SameRead r r') (len turns : Nat) :
    SameRead (UBoot.readLoop g chip len turns r) (UBoot.readLoop g chip len turns r') := by
  induction turns generalizing r r' with
  | zero => exact same
  | succ turns inductionHypothesis =>
      rw [UBoot.readLoop, UBoot.readLoop, same.read]
      split
      · exact inductionHypothesis (same.readTurn len)
      · exact same

/-- Whole pages leave the page buffer as it is. -/
structure WholePages (g : Geometry) (start : Device) (r : ReadState) : Prop where
  col : r.col = 0
  aligned : g.writesize ∣ r.read
  flash : r.device.flash = start.flash
  pagebuf : r.device.pagebuf = start.pagebuf
  dataBuf : r.device.dataBuf = start.dataBuf
  bbm : r.device.bbm = start.bbm

theorem WholePages.readLoop {start : Device} {r : ReadState} (whole : WholePages g start r)
    {len : Nat} (pages : g.writesize ∣ len) (turns : Nat) :
    WholePages g start (UBoot.readLoop g chip len turns r) := by
  induction turns generalizing r with
  | zero => exact whole
  | succ turns inductionHypothesis =>
      rw [UBoot.readLoop]
      split
      · rename_i more
        apply inductionHypothesis
        have room : g.writesize ≤ len - r.read :=
          Nat.le_of_dvd (by omega) (Nat.dvd_sub pages whole.aligned)
        have aligned : r.col = 0 ∧ g.writesize ≤ len - r.read := ⟨whole.col, room⟩
        constructor
        · rfl
        · simp only [UBoot.readTurn, aligned, and_self, if_true]
          exact Nat.dvd_add whole.aligned (Nat.dvd_refl _)
        · exact whole.flash
        · simp only [UBoot.readTurn, aligned, and_self, if_true, whole.pagebuf]
        · simp only [UBoot.readTurn, aligned, and_self, if_true, whole.dataBuf]
        · exact whole.bbm
      · exact whole

/-- What reading the info block leaves of the device. -/
theorem readInfo_keeps (g : Geometry) (chip : ChipBehaviour) (d : Device) :
    let after := (nandReadEcc g chip d 0 g.erasesize fun _ => ⊥).device
    after.flash = d.flash ∧ after.pagebuf = d.pagebuf ∧ after.dataBuf = d.dataBuf ∧
      after.bbm = d.bbm := by
  have pages : g.writesize ∣ g.erasesize := by
    rw [← g.pagesPerBlock_mul_writesize]
    exact Nat.dvd_mul_left _ _
  have fits : ¬ g.size < 0 + g.erasesize := by
    have := g.erasesize_le_size
    omega
  simp only [nandReadEcc, fits, if_false, Nat.zero_shiftRight, Nat.zero_and]
  have whole := @WholePages.readLoop g chip d ⟨d, fun _ => ⊥, 0, 0, 0, 0⟩
    ⟨rfl, Nat.dvd_zero _, rfl, rfl, rfl, rfl⟩ g.erasesize pages g.erasesize
  exact ⟨whole.flash, whole.pagebuf, whole.dataBuf, whole.bbm⟩

theorem readInfo_same {d d' : Device} (flash : d.flash = d'.flash)
    (pagebuf : d.pagebuf = d'.pagebuf) (dataBuf : d.dataBuf = d'.dataBuf)
    (check : d.bbm.nandBbmCheck = false) (check' : d'.bbm.nandBbmCheck = false) :
    (nandReadEcc g chip d 0 g.erasesize fun _ => ⊥).ret =
        (nandReadEcc g chip d' 0 g.erasesize fun _ => ⊥).ret ∧
      infoBlock g chip d = infoBlock g chip d' := by
  have fits : ¬ g.size < 0 + g.erasesize := by
    have := g.erasesize_le_size
    omega
  have same := @SameRead.readLoop g chip ⟨d, fun _ => ⊥, 0, 0, 0, 0⟩
    ⟨d', fun _ => ⊥, 0, 0, 0, 0⟩
    ⟨rfl, rfl, rfl, rfl, rfl, flash, pagebuf, dataBuf, check, check'⟩ g.erasesize g.erasesize
  simp only [infoBlock, nandReadEcc, fits, if_false, Nat.zero_shiftRight, Nat.zero_and,
    same.buf, same.eccFailed, and_self]

/-! ### Loading -/

/-- The map that the entries are loaded into. -/
def clearedMap (g : Geometry) (s : Bbm) : Bbm :=
  { s with
    nandBbmBitmap := fun index =>
      if index < g.blocks then BitVec.ofNat 32 index else s.nandBbmBitmap index
    bbCountData := s.bbCountRedirect }

theorem counted_clearedMap (g : Geometry) (maps : Nat → MapInfo) (s : Bbm) :
    Counted g s.bbCountRedirect maps 0 (clearedMap g s) where
  within := le_refl _
  sum := by
    simp only [clearedMap, dealtDownTo]
    omega

theorem agree_clearedMap {s s' : Bbm} (same : s.bbCountRedirect = s'.bbCountRedirect) :
    Agree g (clearedMap g s) (clearedMap g s') where
  bitmap index inside := by
    simp only [clearedMap, inside, if_true]
  data := same
  redirect := same

theorem redirTop_eq_rindexBelow (g : Geometry) : g.redirTop = rindexBelow g.blocks := by
  have top := g.redirTop_succ
  obtain ⟨below, -⟩ := rindexBelow_lt g.blocks_pos (le_refl _)
  omega

/-- Loading a block that is read and has the magic word. -/
theorem nandBbmInfoLoad_of_magic {d : Device}
    (read : (nandReadEcc g chip d 0 g.erasesize fun _ => ⊥).ret = 0)
    (magic : infoBlock g chip d 0 = bbmMagic) :
    nandBbmInfoLoad g chip d =
      (loadLoop g (infoBlock g chip d 1).toNat (mapsOf (infoBlock g chip d)) g.redirBlocks 0
        (rindexBelow g.blocks) (clearedMap g d.bbm)).map fun (rindex, s) =>
          (if rindex = (infoBlock g chip d 2).toNat then 0 else 1,
            { (nandReadEcc g chip d 0 g.erasesize fun _ => ⊥).device with
              bbm := { s with assignIndex := rindex } }) := by
  obtain ⟨-, -, -, bbm⟩ := readInfo_keeps g chip d
  rw [← redirTop_eq_rindexBelow]
  unfold infoBlock at magic ⊢
  unfold mapsOf clearedMap
  simp only [nandBbmInfoLoad, read, magic, bbm, ne_eq, not_true_eq_false, if_false]
  split
  · rename_i none
    rw [none, Option.map_none]
  · rename_i rindex s found
    rw [found, Option.map_some]

/-- A load that is accepted has read a block with the magic word. -/
theorem read_of_accepted {d after : Device}
    (accepted : nandBbmInfoLoad g chip d = some (0, after)) :
    (nandReadEcc g chip d 0 g.erasesize fun _ => ⊥).ret = 0 ∧
      infoBlock g chip d 0 = bbmMagic := by
  by_cases read : (nandReadEcc g chip d 0 g.erasesize fun _ => ⊥).ret = 0
  · refine ⟨read, ?_⟩
    by_contra magic
    unfold infoBlock at magic
    simp [nandBbmInfoLoad, read, magic] at accepted
  · simp [nandBbmInfoLoad, read] at accepted

/-- Every access of the load is inside of the bitmap and of the block exactly when every
entry that it comes to is in order. -/
theorem loadInside_iff (g : Geometry) (chip : ChipBehaviour) (d : Device)
    (read : (nandReadEcc g chip d 0 g.erasesize fun _ => ⊥).ret = 0)
    (magic : infoBlock g chip d 0 = bbmMagic) :
    (nandBbmInfoLoad g chip d).isSome ↔
      ∀ i, ComesTo g (infoBlock g chip d 1).toNat d.bbm.bbCountRedirect
          (mapsOf (infoBlock g chip d)) i →
        EntryInside g (mapsOf (infoBlock g chip d)) i := by
  rw [nandBbmInfoLoad_of_magic read magic, Option.isSome_map]
  have loop := @loadLoop_isSome_iff g (infoBlock g chip d 1).toNat d.bbm.bbCountRedirect
    (mapsOf (infoBlock g chip d)) g.redirBlocks 0 _ (counted_clearedMap g _ d.bbm)
  simpa only [ComesToFrom, ComesTo, dealtDownTo_zero, Nat.zero_le, true_and, Nat.zero_add,
    forall_const] using loop

/-- Loading again succeeds and leaves the same map, cursor and counters. -/
def Reloads (g : Geometry) (chip : ChipBehaviour) (d : Device) : Prop :=
  ∃ again, nandBbmInfoLoad g chip d = some (0, again) ∧
    (∀ index, index < g.blocks →
      again.bbm.nandBbmBitmap index = d.bbm.nandBbmBitmap index) ∧
    again.bbm.assignIndex = d.bbm.assignIndex ∧
    again.bbm.bbCountData = d.bbm.bbCountData ∧
    again.bbm.bbCountRedirect = d.bbm.bbCountRedirect

/-- The load that was accepted, and the device behind it. -/
theorem accepted_spec {d after : Device}
    (accepted : nandBbmInfoLoad g chip d = some (0, after)) :
    ∃ rindex loaded,
      loadLoop g (infoBlock g chip d 1).toNat (mapsOf (infoBlock g chip d)) g.redirBlocks 0
          (rindexBelow g.blocks) (clearedMap g d.bbm) = some (rindex, loaded) ∧
        rindex = (infoBlock g chip d 2).toNat ∧
        after = { (nandReadEcc g chip d 0 g.erasesize fun _ => ⊥).device with
          bbm := { loaded with assignIndex := rindex } } := by
  obtain ⟨read, magic⟩ := read_of_accepted accepted
  rw [nandBbmInfoLoad_of_magic read magic, Option.map_eq_some_iff] at accepted
  obtain ⟨⟨rindex, loaded⟩, loop, result⟩ := accepted
  rw [Prod.mk.injEq] at result
  obtain ⟨success, rfl⟩ := result
  refine ⟨rindex, loaded, loop, ?_, rfl⟩
  by_contra different
  rw [if_neg different] at success
  exact absurd success (by decide)

theorem reloads_iff_adjacent {d first : Device} (check : d.bbm.nandBbmCheck = false)
    (accepted : nandBbmInfoLoad g chip d = some (0, first)) :
    Reloads g chip first ↔
      ∀ i, ComesTo g (infoBlock g chip d 1).toNat d.bbm.bbCountRedirect
          (mapsOf (infoBlock g chip d)) i →
        EntryAdjacent g (mapsOf (infoBlock g chip d)) i := by
  obtain ⟨read, magic⟩ := read_of_accepted accepted
  obtain ⟨rindex, loaded, loop, assign, rfl⟩ := accepted_spec accepted
  obtain ⟨flash, pagebuf, dataBuf, -⟩ := readInfo_keeps g chip d
  obtain ⟨dealt, counts⟩ := loadLoop_counts (counted_clearedMap g _ d.bbm) loop
  have comes : (∀ i, ComesTo g (infoBlock g chip d 1).toNat d.bbm.bbCountRedirect
        (mapsOf (infoBlock g chip d)) i → EntryAdjacent g (mapsOf (infoBlock g chip d)) i) ↔
      loaded.bbCountRedirect = d.bbm.bbCountRedirect := by
    have unchanged := counts.unchanged_iff
    simp only [ComesToFrom, Nat.zero_le, true_and, Nat.zero_add, forall_const] at unchanged
    exact unchanged.symm
  rw [comes]
  have sum := counts.sum
  have grows := counts.grows
  have checkAfter : loaded.nandBbmCheck = false := counts.check.trans check
  obtain ⟨readAgain, sameBlock⟩ := @readInfo_same g chip
    { (nandReadEcc g chip d 0 g.erasesize fun _ => ⊥).device with
      bbm := { loaded with assignIndex := rindex } } d flash pagebuf dataBuf checkAfter check
  rw [read] at readAgain
  constructor
  · intro ⟨again, acceptedAgain, _, assignAgain, dataAgain, redirectAgain⟩
    obtain ⟨rindexAgain, loadedAgain, loopAgain, -, rfl⟩ := accepted_spec acceptedAgain
    rw [sameBlock] at loopAgain
    obtain ⟨dealtAgain, countsAgain⟩ := loadLoop_counts (counted_clearedMap g _ _) loopAgain
    have sumAgain := countsAgain.sum
    have final := counts.final
    have finalAgain := countsAgain.final
    have within := counts.within
    have withinAgain := countsAgain.within
    have small := g.blocks_lt
    have sameRindex : rindexAgain = rindex := assignAgain
    have sameData : loadedAgain.bbCountData = loaded.bbCountData := dataAgain
    have sameRedirect : loadedAgain.bbCountRedirect = loaded.bbCountRedirect := redirectAgain
    have sameDealt : dealtAgain = dealt := by
      unfold rindexBelow at final finalAgain
      omega
    simp only [clearedMap, dealtDownTo_zero] at sum sumAgain
    omega
  · intro unchanged
    have agree := @agree_clearedMap g d.bbm { loaded with assignIndex := rindex } unchanged.symm
    obtain ⟨loadedAgain, loopAgain, same⟩ := loadLoop_agree agree loop
    have again := nandBbmInfoLoad_of_magic readAgain (sameBlock ▸ magic)
    rw [sameBlock, loopAgain, Option.map_some] at again
    dsimp only at again
    rw [if_pos assign] at again
    exact ⟨_, again, fun index inside => (same.bitmap index inside).symm, rfl,
      same.data.symm, same.redirect.symm⟩

/-- A second load finds what the first one has left exactly when every entry that the loop
comes to is for another block and right below the one before it. -/
theorem reload_iff (g : Geometry) (chip : ChipBehaviour) (d first : Device)
    (check : d.bbm.nandBbmCheck = false)
    (accepted : nandBbmInfoLoad g chip d = some (0, first)) :
    Reloads g chip first ↔
      ∀ i, ComesTo g (infoBlock g chip d 1).toNat d.bbm.bbCountRedirect
          (mapsOf (infoBlock g chip d)) i →
        EntryAdjacent g (mapsOf (infoBlock g chip d)) i :=
  reloads_iff_adjacent check accepted

/-! ### A chip of 128 MiB -/

/-- A device whose info block holds some words. -/
def Device.holding (g : Geometry) (words : List Word) : Device :=
  { Device.powerOn with
    flash := { Flash.erased with
      data := fun page column => bytesOfWords words (page * g.writesize + column) } }

private theorem infoBlockWorks_nand128MiB : InfoBlockWorks nand128MiB ChipBehaviour.sound where
  good := rfl
  unprotected := rfl
  erases _ := rfl
  programs _ _ _ := rfl
  reads _ _ := rfl

/-- Block 5 is redirected to the topmost block. -/
def sampleInfo : List Word := [bbmMagic, 1, 1022, 5, 1023]

def sampleDevice : Device := (Device.holding nand128MiB sampleInfo).reboot

private theorem infoBlock_sampleDevice (position : Nat)
    (inBuffer : 4 * position + 4 ≤ nand128MiB.erasesize) :
    infoBlock nand128MiB .sound sampleDevice position = sampleInfo.getD position 0 :=
  infoBlock_words infoBlockWorks_nand128MiB (fun _ _ => rfl) position inBuffer

private theorem read_sampleDevice :
    (nandReadEcc nand128MiB .sound sampleDevice 0 nand128MiB.erasesize fun _ => ⊥).ret = 0 :=
  (nandReadEcc_infoBlock infoBlockWorks_nand128MiB _ _).1

theorem loadInside_sampleDevice :
    (nandBbmInfoLoad nand128MiB .sound sampleDevice).isSome ↔
      ∀ i, ComesTo nand128MiB (infoBlock nand128MiB .sound sampleDevice 1).toNat
          sampleDevice.bbm.bbCountRedirect
          (mapsOf (infoBlock nand128MiB .sound sampleDevice)) i →
        EntryInside nand128MiB (mapsOf (infoBlock nand128MiB .sound sampleDevice)) i :=
  loadInside_iff nand128MiB .sound sampleDevice read_sampleDevice
    (infoBlock_sampleDevice 0 (by decide))

/-- Saving what some calls have left, and what the load makes of it. -/
private theorem saved_nand128MiB (calls : List AssignCall)
    (clear : (afterFailures nand128MiB .powerOn calls).bbm.flagged 0 = false)
    (fits : 4 * (infoWords nand128MiB (afterFailures nand128MiB .powerOn calls).bbm).length ≤
      nand128MiB.erasesize)
    (counts : (afterFailures nand128MiB .powerOn calls).bbm.bbCountData +
      (afterFailures nand128MiB .powerOn calls).bbm.bbCountRedirect < 2 ^ 32) :
    ∃ saved d : Device,
      nandBbmInfoSave nand128MiB .sound (afterFailures nand128MiB .powerOn calls) =
          some (0, saved) ∧
        (∀ position, 4 * position + 4 ≤ nand128MiB.erasesize →
          infoBlock nand128MiB .sound saved.reboot position =
            (infoWords nand128MiB (afterFailures nand128MiB .powerOn calls).bbm).getD
              position 0) ∧
        nandBbmInfoLoad nand128MiB .sound saved.reboot =
          match loadLoop nand128MiB
              ((afterFailures nand128MiB .powerOn calls).bbm.bbCountData +
                (afterFailures nand128MiB .powerOn calls).bbm.bbCountRedirect)
              (savedMaps nand128MiB (afterFailures nand128MiB .powerOn calls).bbm)
              nand128MiB.redirBlocks 0 nand128MiB.redirTop (freshMap nand128MiB) with
          | none => none
          | some (rindex, loaded) =>
              some
                (if rindex = (afterFailures nand128MiB .powerOn calls).bbm.assignIndex then 0
                  else 1,
                { d with bbm := { loaded with assignIndex := rindex } }) := by
  have inv : ReserveInv nand128MiB (afterFailures nand128MiB .powerOn calls).bbm :=
    reserveInv_afterCalls (reserveInv_init nand128MiB _) calls
  obtain ⟨saved, save, pages⟩ := nandBbmInfoSave_spec infoBlockWorks_nand128MiB inv clear fits
  have small := redirTop_lt_pow nand128MiB
  have cursor := inv.cursor_le
  obtain ⟨d, load⟩ := nandBbmInfoLoad_spec infoBlockWorks_nand128MiB inv.targetsInside counts
    (by omega) pages
  exact ⟨saved, d, save, infoBlock_words infoBlockWorks_nand128MiB pages, load⟩

/-- Four blocks fail in the order 10, 12, 5, 14.  In the block that is saved the entry of
block 10 comes behind that of block 5, whose target is lower. -/
theorem savedBlock_leaves_bitmap :
    ∃ saved,
      nandBbmInfoSave nand128MiB .sound
          (afterFailures nand128MiB .powerOn (failuresOf [10, 12, 5, 14])) =
        some (0, saved) ∧
      infoBlock nand128MiB .sound saved.reboot 0 = bbmMagic ∧
      nandBbmInfoLoad nand128MiB .sound saved.reboot = none := by
  obtain ⟨saved, d, save, words, load⟩ := saved_nand128MiB (failuresOf [10, 12, 5, 14])
    (by decide +kernel) (by decide +kernel) (by decide +kernel)
  have leaves : (loadLoop nand128MiB
      ((afterFailures nand128MiB .powerOn (failuresOf [10, 12, 5, 14])).bbm.bbCountData +
        (afterFailures nand128MiB .powerOn (failuresOf [10, 12, 5, 14])).bbm.bbCountRedirect)
      (savedMaps nand128MiB
        (afterFailures nand128MiB .powerOn (failuresOf [10, 12, 5, 14])).bbm)
      nand128MiB.redirBlocks 0 nand128MiB.redirTop (freshMap nand128MiB)).isNone = true := by
    decide +kernel
  rw [Option.isNone_iff_eq_none.mp leaves] at load
  exact ⟨saved, save, words 0 (by decide), load⟩

/-- The loop ends where the block says that it does. -/
private theorem accepted_nand128MiB {d saved : Device} {s : Bbm}
    (load : nandBbmInfoLoad nand128MiB .sound saved.reboot =
      match loadLoop nand128MiB (s.bbCountData + s.bbCountRedirect) (savedMaps nand128MiB s)
          nand128MiB.redirBlocks 0 nand128MiB.redirTop (freshMap nand128MiB) with
      | none => none
      | some (rindex, loaded) =>
          some (if rindex = s.assignIndex then 0 else 1,
            { d with bbm := { loaded with assignIndex := rindex } }))
    (ends : (loadLoop nand128MiB (s.bbCountData + s.bbCountRedirect) (savedMaps nand128MiB s)
      nand128MiB.redirBlocks 0 nand128MiB.redirTop (freshMap nand128MiB)).map Prod.fst =
        some s.assignIndex) :
    ∃ first, nandBbmInfoLoad nand128MiB .sound saved.reboot = some (0, first) := by
  obtain ⟨⟨rindex, loaded⟩, loop, same⟩ := Option.map_eq_some_iff.mp ends
  dsimp only at same
  rw [loop] at load
  dsimp only at load
  rw [if_pos same] at load
  exact ⟨_, load⟩

theorem reload_oneFailure :
    ∃ saved first : Device,
      nandBbmInfoLoad nand128MiB .sound saved.reboot = some (0, first) ∧
      (Reloads nand128MiB .sound first ↔
        ∀ i, ComesTo nand128MiB (infoBlock nand128MiB .sound saved.reboot 1).toNat
            saved.reboot.bbm.bbCountRedirect
            (mapsOf (infoBlock nand128MiB .sound saved.reboot)) i →
          EntryAdjacent nand128MiB (mapsOf (infoBlock nand128MiB .sound saved.reboot)) i) := by
  obtain ⟨saved, d, save, words, load⟩ := saved_nand128MiB (failuresOf [5])
    (by decide +kernel) (by decide +kernel) (by decide +kernel)
  obtain ⟨first, accepted⟩ := @accepted_nand128MiB d saved
    (afterFailures nand128MiB .powerOn (failuresOf [5])).bbm load (by decide +kernel)
  exact ⟨saved, first, accepted, reload_iff nand128MiB .sound saved.reboot first rfl accepted⟩

/-- Block 5 fails while the topmost reserve block is bad. -/
def passedOverCalls : List AssignCall :=
  [⟨nand128MiB.blockPos 5, fun ofs => nand128MiB.blockIndex ofs == 1023⟩]

/-- The block that is saved then is accepted once and not a second time. -/
theorem reload_forgets_redirect :
    ∃ saved first,
      nandBbmInfoSave nand128MiB .sound (afterFailures nand128MiB .powerOn passedOverCalls) =
        some (0, saved) ∧
      nandBbmInfoLoad nand128MiB .sound saved.reboot = some (0, first) ∧
      ¬ Reloads nand128MiB .sound first := by
  obtain ⟨saved, d, save, words, load⟩ := saved_nand128MiB passedOverCalls
    (by decide +kernel) (by decide +kernel) (by decide +kernel)
  obtain ⟨first, accepted⟩ := @accepted_nand128MiB d saved
    (afterFailures nand128MiB .powerOn passedOverCalls).bbm load (by decide +kernel)
  refine ⟨saved, first, save, accepted, ?_⟩
  rw [reloads_iff_adjacent rfl accepted]
  intro adjacent
  have count := words 1 (by decide)
  have target := words 4 (by decide)
  have comes : ComesTo nand128MiB (infoBlock nand128MiB .sound saved.reboot 1).toNat 0
      (mapsOf (infoBlock nand128MiB .sound saved.reboot)) 0 := by
    refine ⟨by decide, fun j first => ?_⟩
    obtain rfl := Nat.le_zero.mp first
    rw [count, CountReached, dealtDownTo_zero]
    decide +kernel
  have below := (adjacent 0 comes).1
  simp only [mapsOf, Nat.mul_zero, Nat.add_zero, target, dealtDownTo_zero] at below
  exact absurd below (by decide +kernel)

end Gp2Firmware.UBoot
