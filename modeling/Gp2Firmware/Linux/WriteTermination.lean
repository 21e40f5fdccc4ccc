import Gp2Firmware.Linux.WriteLoop

/-!
# Which writes come to an end

The retry loop of `nand_do_write_ops` against blocks on which programming
fails for good.  Seen by the map, it serves the blocks of the request one after
the other from a table of stand-ins.
-/

namespace Gp2Firmware.Linux

open Gp2Firmware.Nand
open Gp2Firmware.Lib

variable (g : Geometry) (layout : NandLayout) (chip : ChipBehaviour)

/-- Programming fails on every page of these blocks, now and later, and on no
page of another. -/
def FailsPermanently (fails : Nat → Bool) : Prop :=
  ∀ tick page, chip.programFails tick page = fails (page / g.pagesPerBlock)

/-- The blocks of consecutive pages, page by page. -/
def blocksOfPages (page count : Nat) : List Nat :=
  (List.range' page count).map (· / g.pagesPerBlock)

/-- The blocks of a write request, page by page. -/
def requestBlocks (start len : Nat) : List Nat :=
  if len = 0 then []
  else
    blocksOfPages g (start >>> g.pageShift)
      (pagesLeft g (start &&& (g.writesize - 1)) len)

/-- Some data of the request has no place: its block, the block that stands in
for it and all good reserve blocks that are left fail. -/
def Unprogrammable (fails : Nat → Bool) (s : Bbm) (start len : Nat) : Prop :=
  ∃ block ∈ requestBlocks g start len,
    fails block = true ∧ fails (s.translate block) = true ∧
      ∀ spare ∈ sparesBelow g chip.blockBad s.assignIndex, fails spare = true

/-- The write returns, with an error if the data could not be programmed
anywhere. -/
def WriteSettles (fails : Nat → Bool) (d : Device) (start len : Nat)
    (buf : Nat → Byte) : Prop :=
  (∃ result, WriteReturns g layout chip d start len buf result) ∧
    ∀ result, WriteReturns g layout chip d start len buf result →
      Unprogrammable g chip fails d.bbm start len → result.ret ≠ 0

variable {g layout chip} {fails : Nat → Bool} {d : Device} {start len : Nat}

theorem blocksOfPages_succ (page count : Nat) :
    blocksOfPages g page (count + 1) =
      page / g.pagesPerBlock :: blocksOfPages g (page + 1) count := by
  rw [blocksOfPages, List.range'_succ, List.map_cons]
  rfl

/-- The loop as seen by the map: the table and the blocks that are left. -/
def writeView (g : Geometry) (chip : ChipBehaviour) (w : WriteState) :
    StandIn.Table Nat × List Nat :=
  (standIns g chip.blockBad w.device.bbm,
    blocksOfPages g w.realpage (pagesLeft g w.column w.writelen))

theorem turnFails_eq {w : WriteState}
    (permanent : FailsPermanently g chip fails)
    (valid : ValidMap g w.device.bbm) (inv : WriteInv g layout w) :
    turnFails g chip w =
      fails (w.device.bbm.translate (w.realpage / g.pagesPerBlock)) := by
  rw [turnFails, permanent, adjustPage_div valid.targets inv.page_lt,
    inv.page_eq]

theorem validMap_retried {w : WriteState} (valid : ValidMap g w.device.bbm)
    (buf : Nat → Byte) :
    ValidMap g (retried g layout chip buf w).device.bbm := by
  have assigned := (nandBbmAssignBlock_map g layout chip (written g chip buf w)
    (nandBbmAdjust g w.device.bbm (w.page <<< g.pageShift)) true).2
  rw [written_bbm] at assigned
  rw [retried, assigned]
  exact valid.assignBlock _ _

/-- A retry replaces the block that failed. -/
theorem standIns_retried {w : WriteState} (valid : ValidMap g w.device.bbm)
    (inv : WriteInv g layout w) (buf : Nat → Byte) :
    standIns g chip.blockBad (retried g layout chip buf w).device.bbm =
      (standIns g chip.blockBad w.device.bbm).replace
        (w.device.bbm.translate (w.realpage / g.pagesPerBlock)) := by
  have assigned := (nandBbmAssignBlock_map g layout chip (written g chip buf w)
    (nandBbmAdjust g w.device.bbm (w.page <<< g.pageShift)) true).2
  rw [written_bbm] at assigned
  rw [retried, assigned, standIns_assignBlock valid, blockIndex_nandBbmAdjust,
    g.blockIndex_page, inv.page_eq]

theorem writeInv_turn {w next : WriteState} {buf : Nat → Byte}
    (holds : WriteInv g layout w ∧ ValidMap g w.device.bbm)
    (turn : writeTurn g layout chip buf len w = .inl next) :
    WriteInv g layout next ∧ ValidMap g next.device.bbm := by
  rw [writeTurn_eq] at turn
  split at turn
  · rw [Sum.inl.injEq] at turn
    rw [← turn]
    exact ⟨holds.1.retried buf, validMap_retried holds.2 buf⟩
  · split at turn
    · cases turn
    · rename_i more
      rw [Sum.inl.injEq] at turn
      rw [← turn]
      refine ⟨(holds.1.nextPage chip buf more).1, ?_⟩
      rw [nextPage, written_bbm]
      exact holds.2

/-- Every turn is one attempt to serve a block. -/
theorem attempt_writeView {w : WriteState} {buf : Nat → Byte}
    (permanent : FailsPermanently g chip fails)
    (holds : WriteInv g layout w ∧ ValidMap g w.device.bbm) :
    StandIn.attempt fails (writeView g chip w) =
      (writeTurn g layout chip buf len w).map (writeView g chip)
        fun _ => () := by
  have inv := holds.1
  have failing := turnFails_eq permanent holds.2 inv
  rw [writeTurn_eq]
  by_cases last : w.column + w.writelen ≤ g.writesize
  · have one := pagesLeft_of_le inv.writelen_pos last
    rw [if_pos (inv.last_iff.mpr last), writeView, one, blocksOfPages_succ,
      StandIn.attempt, standIns_lookup, ← failing]
    split
    · rw [Sum.map_inl, writeView, standIns_retried holds.2 inv]
      change _ = Sum.inl (_, blocksOfPages g w.realpage
        (pagesLeft g w.column w.writelen))
      rw [one, blocksOfPages_succ]
    · rfl
  · have more := mt inv.last_iff.mp last
    have pages := pagesLeft_of_lt (Nat.lt_of_not_le last)
    have positive : pagesLeft g 0 (w.column + w.writelen - g.writesize) ≠ 0 := by
      rw [pagesLeft]
      apply Nat.ne_of_gt
      apply Nat.div_pos
      · omega
      · exact g.writesize_pos
    rw [if_neg more, writeView, pages, blocksOfPages_succ, StandIn.attempt,
      standIns_lookup, ← failing]
    split
    · rw [Sum.map_inl, writeView, standIns_retried holds.2 inv]
      change _ = Sum.inl (_, blocksOfPages g w.realpage
        (pagesLeft g w.column w.writelen))
      rw [pages, blocksOfPages_succ]
    · have length := (inv.nextPage chip buf more).2
      rw [if_neg, Sum.map_inl, writeView, length]
      · rw [nextPage, written_bbm]
      · rw [blocksOfPages, List.map_eq_nil_iff, List.range'_eq_nil_iff]
        exact positive

/-- The loop leaves if and only if the blocks of the request can be served. -/
theorem loop_terminates_iff {w : WriteState} {buf : Nat → Byte}
    (permanent : FailsPermanently g chip fails)
    (inv : WriteInv g layout w) (valid : ValidMap g w.device.bbm) :
    Loop.Terminates (writeTurn g layout chip buf len) w ↔
      StandIn.succeeds fails (standIns g chip.blockBad w.device.bbm)
        (blocksOfPages g w.realpage (pagesLeft g w.column w.writelen)) =
          true := by
  rw [Loop.terminates_iff_of_simulation (fun holds turn => writeInv_turn holds turn)
    (fun holds => attempt_writeView permanent holds) ⟨inv, valid⟩]
  exact StandIn.terminates_iff_succeeds _ _

theorem writeReturns_of_refused {ret : Int} {buf : Nat → Byte}
    {result : WriteResult}
    (refused : writeRefused g layout chip start len = some ret) :
    WriteReturns g layout chip d start len buf result ↔ result = ⟨ret, 0, d⟩ := by
  have returned : ∀ turns, nandDoWriteOps g layout chip d start len buf turns =
      some ⟨ret, 0, d⟩ := by
    intro turns
    rw [nandDoWriteOps, refused]
  constructor
  · intro returns
    obtain ⟨turns, ran⟩ := returns
    rw [returned, Option.some.injEq] at ran
    exact ran.symm
  · intro same
    refine ⟨0, ?_⟩
    rw [returned, same]

theorem writeReturns_of_accepted {buf : Nat → Byte} {result : WriteResult}
    (accepted : writeRefused g layout chip start len = none) :
    WriteReturns g layout chip d start len buf result ↔
      Loop.Returns (writeTurn g layout chip buf len) (writeStart g d start len)
        result := by
  apply exists_congr
  intro turns
  rw [nandDoWriteOps, accepted]

/-- Only an empty request is turned away without an error. -/
theorem writeRefused_ne_zero {ret : Int}
    (refused : writeRefused g layout chip start len = some ret)
    (some : len ≠ 0) : ret ≠ 0 := by
  rw [writeRefused, if_neg some] at refused
  split at refused
  · cases refused
    decide
  · split at refused
    · cases refused
      decide
    · cases refused

/-- `nand_do_write_ops` returns if it refuses the request or can serve its
blocks. -/
theorem writeReturns_iff (layout : NandLayout) (buf : Nat → Byte)
    (permanent : FailsPermanently g chip fails) (valid : ValidMap g d.bbm)
    (inside : start + len ≤ g.size) :
    (∃ result, WriteReturns g layout chip d start len buf result) ↔
      writeRefused g layout chip start len ≠ none ∨
        StandIn.succeeds fails (standIns g chip.blockBad d.bbm)
          (requestBlocks g start len) = true := by
  cases outcome : writeRefused g layout chip start len with
  | some ret =>
      apply iff_of_true
      · exact ⟨_, (writeReturns_of_refused outcome).mpr rfl⟩
      · exact Or.inl (Option.some_ne_none ret)
  | none =>
      have inv := writeInv_start d inside outcome
      have nonempty : len ≠ 0 := Nat.ne_of_gt inv.writelen_pos
      rw [or_iff_right (not_not_intro rfl), requestBlocks, if_neg nonempty]
      exact (exists_congr fun _ => writeReturns_of_accepted outcome).trans
        (loop_terminates_iff permanent inv valid)

/-- Data without a place keeps a request from being served. -/
theorem not_unprogrammable
    (served : StandIn.succeeds fails (standIns g chip.blockBad d.bbm)
      (requestBlocks g start len) = true) :
    ¬ Unprogrammable g chip fails d.bbm start len := by
  intro unprogrammable
  obtain ⟨block, member, blockFails, standInFails, sparesFail⟩ := unprogrammable
  have lost := StandIn.not_succeeds (t := standIns g chip.blockBad d.bbm) member
    blockFails (by rw [standIns_lookup]; exact standInFails) sparesFail
  rw [lost] at served
  cases served

/-- The write settles if and only if it is refused or its blocks can be
served. -/
theorem writeSettles_iff (g : Geometry) (layout : NandLayout)
    (chip : ChipBehaviour) (fails : Nat → Bool)
    (permanent : FailsPermanently g chip fails) (d : Device)
    (valid : ValidMap g d.bbm) (start len : Nat) (inside : start + len ≤ g.size)
    (buf : Nat → Byte) :
    WriteSettles g layout chip fails d start len buf ↔
      writeRefused g layout chip start len ≠ none ∨
        StandIn.succeeds fails (standIns g chip.blockBad d.bbm)
          (requestBlocks g start len) = true := by
  have returns := writeReturns_iff layout buf permanent valid inside
  constructor
  · intro settles
    exact returns.mp settles.1
  · intro condition
    refine ⟨returns.mpr condition, ?_⟩
    intro result returned unprogrammable
    cases outcome : writeRefused g layout chip start len with
    | some ret =>
        rw [(writeReturns_of_refused outcome).mp returned]
        apply writeRefused_ne_zero outcome
        intro empty
        obtain ⟨block, member, _⟩ := unprogrammable
        rw [requestBlocks, if_pos empty] at member
        cases member
    | none =>
        rw [outcome] at condition
        have served := condition.resolve_left (not_not_intro rfl)
        exact absurd unprogrammable (not_unprogrammable served)

/-- A chip on which programming fails for good on a list of blocks. -/
def wornChip (g : Geometry) (worn : List Nat) : ChipBehaviour :=
  { ChipBehaviour.sound with
    programFails := fun _ page => decide (page / g.pagesPerBlock ∈ worn) }

theorem failsPermanently_worn (g : Geometry) (worn : List Nat) :
    FailsPermanently g (wornChip g worn)
      fun block => decide (block ∈ worn) :=
  fun _ _ => rfl

/-- The device once `nand_bbm_info_init` has set up the map and the drivers
look at it. -/
def Device.fresh (g : Geometry) : Device :=
  { Device.infoInit g .powerOn with
    bbm := (Device.infoInit g .powerOn).bbm.setCheck true }

theorem validMap_fresh (g : Geometry) : ValidMap g (Device.fresh g).bbm :=
  validMap_of_reserveInv
    (reserveInv_setCheck (reserveInv_init g Device.powerOn.bbm) true)

/-- A page of the worn block 5 goes to a reserve block that works. -/
theorem writeSettles_iff_oneWorn :
    WriteSettles nand128MiB titaniaNandOob64 (wornChip nand128MiB [5])
        (fun block => decide (block ∈ [5])) (Device.fresh nand128MiB)
        (nand128MiB.blockPos 5) nand128MiB.writesize ⊥ ↔
      writeRefused nand128MiB titaniaNandOob64 (wornChip nand128MiB [5])
          (nand128MiB.blockPos 5) nand128MiB.writesize ≠ none ∨
        StandIn.succeeds (fun block => decide (block ∈ [5]))
          (standIns nand128MiB (wornChip nand128MiB [5]).blockBad
            (Device.fresh nand128MiB).bbm)
          (requestBlocks nand128MiB (nand128MiB.blockPos 5)
            nand128MiB.writesize) = true :=
  writeSettles_iff nand128MiB titaniaNandOob64 _ _
    (failsPermanently_worn nand128MiB [5]) _ (validMap_fresh nand128MiB) _ _
    (by decide +kernel) ⊥

/-- When the first stand-in of block 5 fails as well, the write never
returns. -/
theorem write_never_returns :
    nand128MiB.blockPos 5 + nand128MiB.writesize ≤ nand128MiB.size ∧
      ¬ WriteSettles nand128MiB titaniaNandOob64 (wornChip nand128MiB [5, 1023])
        (fun block => decide (block ∈ [5, 1023])) (Device.fresh nand128MiB)
        (nand128MiB.blockPos 5) nand128MiB.writesize ⊥ := by
  have inside : nand128MiB.blockPos 5 + nand128MiB.writesize ≤
      nand128MiB.size := by decide +kernel
  have served : ¬ (writeRefused nand128MiB titaniaNandOob64
        (wornChip nand128MiB [5, 1023]) (nand128MiB.blockPos 5)
        nand128MiB.writesize ≠ none ∨
      StandIn.succeeds (fun block => decide (block ∈ [5, 1023]))
        (standIns nand128MiB (wornChip nand128MiB [5, 1023]).blockBad
          (Device.fresh nand128MiB).bbm)
        (requestBlocks nand128MiB (nand128MiB.blockPos 5)
          nand128MiB.writesize) = true) := by
    decide +kernel
  refine ⟨inside, ?_⟩
  intro settles
  exact served ((writeReturns_iff titaniaNandOob64 ⊥
    (failsPermanently_worn nand128MiB [5, 1023]) (validMap_fresh nand128MiB)
    inside).mp settles.1)

end Gp2Firmware.Linux
