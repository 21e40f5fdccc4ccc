import Gp2Firmware.Linux.MapBuilders

/-!
# When the two builders agree

The kernel's builder differs from the boot loader's in one jump: behind the
first bad position of the walk it goes on after the reserve block that was
assigned there.  What it passes over that way stays unredirected.
-/

namespace Gp2Firmware.Linux

open Gp2Firmware.Nand
open Gp2Firmware.Lib

variable (g : Geometry) (layout : NandLayout) (chip : ChipBehaviour)

/-- Both builders finish with the same map, in which every bad block of the
data region is flagged and redirected to a good reserve block. -/
def BuildersAgree (boot : UBoot.Device) (kernel : Device) : Prop :=
  ∃ turns built,
    nandBbmInfoSetup g layout chip turns (kernel.infoInit g) = some built ∧
    SameMap g (UBoot.nandBbmInfoSetup g chip (boot.infoInit g)).bbm built.bbm ∧
    ∀ block, g.dataStart ≤ block → block < g.redirFloor →
      chip.blockBad (g.blockPos block) = true →
        StoodIn g chip.blockBad
            (UBoot.nandBbmInfoSetup g chip (boot.infoInit g)).bbm block ∧
          StoodIn g chip.blockBad built.bbm block

/-- Every bad block of the data region has its mark on a page that the walk
looks at. -/
def DataBlocksSeen (blockBad : Nat → Bool) : Prop :=
  ∀ block, g.dataStart ≤ block → block < g.redirFloor →
    blockBad (g.blockPos block) = true →
      ∃ pos ∈ mapPositions g, blockBad pos = true ∧ g.blockIndex pos = block

/-- Between the first bad position of the walk and the highest good reserve
block there is no other bad position of the same region. -/
def NothingJumpedOver (blockBad : Nat → Bool) : Prop :=
  ∀ first reserve, (mapPositions g).find? blockBad = some first →
    reserveFor g blockBad g.redirTop = some reserve →
      ∀ info ∈ nandBbmBlkmap g, first ∈ regionPositions g info →
        ∀ pos ∈ regionPositions g info, first < pos →
          pos < g.blockPos reserve → blockBad pos = false

variable {g layout chip}

/-! ### The three regions -/

theorem bbmRedirEnd_sub (g : Geometry) :
    g.bbmRedirEnd - g.redirectStart = g.redirectSize := by
  rw [Geometry.bbmRedirEnd, Nat.add_sub_cancel_left]

theorem bbmInfoSize_le_size (g : Geometry) : bbmInfoSize ≤ g.size :=
  le_trans (le_of_lt g.bbmInfoSize_lt_redirectStart) (Nat.sub_le _ _)

theorem dataRegion (g : Geometry) :
    ⟨bbmInfoSize, g.redirectStart - bbmInfoSize⟩ ∈ nandBbmBlkmap g :=
  List.mem_cons_self

theorem infoRegion (g : Geometry) :
    ⟨0, bbmInfoSize - 0⟩ ∈ nandBbmBlkmap g := by
  rw [Nat.sub_zero]
  exact List.mem_cons_of_mem _ List.mem_cons_self

theorem reserveRegion (g : Geometry) :
    ⟨g.redirectStart, g.bbmRedirEnd - g.redirectStart⟩ ∈ nandBbmBlkmap g := by
  rw [bbmRedirEnd_sub]
  exact List.mem_cons_of_mem _ (List.mem_cons_of_mem _ List.mem_cons_self)

theorem mapPositions_eq (g : Geometry) :
    mapPositions g =
      positionsFrom g bbmInfoSize g.redirectStart ++
        (positionsFrom g 0 bbmInfoSize ++
          positionsFrom g g.redirectStart g.bbmRedirEnd) := by
  simp only [mapPositions, nandBbmBlkmap, List.flatMap_cons, List.flatMap_nil,
    List.append_nil, positionsFrom, bbmRedirEnd_sub, Nat.sub_zero]

theorem mem_regionPositions {info : BlkInfo} {pos : Nat}
    (member : pos ∈ regionPositions g info) :
    info.offset ≤ pos ∧ pos < info.offset + info.length := by
  apply @lt_of_mem_positionsFrom g
  rw [positionsFrom, Nat.add_sub_cancel_left]
  exact member

/-- The regions have no position in common. -/
theorem region_unique {first second : BlkInfo} {pos : Nat}
    (isRegion : first ∈ nandBbmBlkmap g) (other : second ∈ nandBbmBlkmap g)
    (member : pos ∈ regionPositions g first)
    (also : pos ∈ regionPositions g second) : first = second := by
  have bounds := mem_regionPositions member
  have alsoBounds := mem_regionPositions also
  have order := g.bbmInfoSize_lt_redirectStart
  simp only [nandBbmBlkmap, List.mem_cons, List.not_mem_nil, or_false]
    at isRegion other
  rcases isRegion with rfl | rfl | rfl <;> rcases other with rfl | rfl | rfl
  all_goals first
    | rfl
    | simp only at bounds alsoBounds
      omega

/-- The condition, seen from the region that the first bad position is in. -/
theorem nothingJumpedOver_iff {blockBad : Nat → Bool}
    {start stop first reserve : Nat}
    (isRegion : ⟨start, stop - start⟩ ∈ nandBbmBlkmap g)
    (member : first ∈ positionsFrom g start stop)
    (isFirst : (mapPositions g).find? blockBad = some first)
    (found : reserveFor g blockBad g.redirTop = some reserve) :
    NothingJumpedOver g blockBad ↔
      ∀ pos ∈ positionsFrom g start stop, first < pos →
        pos < g.blockPos reserve → blockBad pos = false := by
  constructor
  · intro nothing
    exact nothing first reserve isFirst found _ isRegion member
  · intro clean other otherReserve otherFirst otherFound info isInfo otherMember
    rw [isFirst, Option.some.injEq] at otherFirst
    rw [found, Option.some.injEq] at otherFound
    subst otherFirst otherFound
    have same := region_unique isInfo isRegion otherMember member
    rw [same]
    exact clean

theorem blockIndex_lt {pos other : Nat} (apart : pos + g.erasesize ≤ other) :
    g.blockIndex pos < g.blockIndex other := by
  rw [g.blockIndex_eq, g.blockIndex_eq]
  calc
    pos / g.erasesize < (pos + g.erasesize) / g.erasesize := by
      rw [Nat.add_div_right _ g.erasesize_pos]
      exact Nat.lt_succ_self _
    _ ≤ other / g.erasesize := Nat.div_le_div_right apart

theorem mapPositions_inside {pos : Nat} (member : pos ∈ mapPositions g) :
    pos < g.size := by
  have order := g.bbmInfoSize_lt_redirectStart
  have start := Nat.sub_le g.size g.redirectSize
  rw [← Geometry.redirectStart] at start
  rw [mapPositions_eq, List.mem_append, List.mem_append] at member
  rcases member with data | info | reserve
  · have bounds := lt_of_mem_positionsFrom data
    omega
  · have bounds := lt_of_mem_positionsFrom info
    omega
  · have bounds := lt_of_mem_positionsFrom reserve
    rw [g.bbmRedirEnd_eq] at bounds
    exact bounds.2

/-! ### Both walks from the first bad position on -/

/-- The first bad position gets the highest good reserve block. -/
theorem redirected_first {blockBad : Nat → Bool}
    (unmarked : GoodUnmarked g blockBad) (start : Bbm) {first reserve : Nat}
    (inside : first < g.size) (marked : blockBad first = true)
    (found : reserveFor g blockBad g.redirTop = some reserve) :
    Redirected g blockBad
      (firstMap g (nandBbmInfoInit g start) first reserve)
      {g.blockIndex first} := by
  have bad : g.blockIndex first ∈ badBlocks g blockBad :=
    mem_badBlocks.mpr ⟨g.blockIndex_lt_blocks inside, unmarked.bad marked⟩
  have cursor : (nandBbmInfoInit g start).assignIndex = g.redirTop := rfl
  rw [← insert_empty_eq, firstMap]
  apply redirected_assigned (le_of_eq cursor) (Finset.empty_subset _)
    _ _ _ _ bad (Finset.notMem_empty _) (by rw [cursor]; exact found)
  · rw [cursor]
    exact Nat.le_add_right _ _
  · intro block member
    cases member
  · intro block blockInside _
    exact nandBbmInfoInit_target g start blockInside
  · intro block blockInside _ flagged
    rw [nandBbmInfoInit_flagged g start blockInside] at flagged
    cases flagged

theorem split_of_find {blockBad : Nat → Bool} {positions : List Nat}
    {first : Nat} (found : positions.find? blockBad = some first) :
    ∃ before after, positions = before ++ first :: after ∧
      ∀ pos ∈ before, blockBad pos = false := by
  obtain ⟨-, before, after, split, clean⟩ :=
    List.find?_eq_some_iff_append.mp found
  refine ⟨before, after, split, ?_⟩
  intro pos member
  simpa using clean pos member

theorem clean_of_find_none {blockBad : Nat → Bool} {positions : List Nat}
    (none : positions.find? blockBad = none) :
    ∀ pos ∈ positions, blockBad pos = false := by
  intro pos member
  exact Bool.eq_false_of_not_eq_true (List.find?_eq_none.mp none pos member)

theorem infoInit_bbm (g : Geometry) (d : Device) :
    (d.infoInit g).bbm = nandBbmInfoInit g d.bbm := rfl

theorem checkInit (d : Device) (check : d.bbm.nandBbmCheck = false) :
    (d.infoInit g).bbm.nandBbmCheck = false := check

theorem infoInit_assignIndex (g : Geometry) (d : Device) :
    (d.infoInit g).bbm.assignIndex = g.redirTop := rfl

/-- What becomes of both builders when the walk meets a bad position: after the
first one the kernel visits the positions of `rest`, and the boot loader those
of `skipped` before them. -/
structure Walk (g : Geometry) (layout : NandLayout) (chip : ChipBehaviour)
    (first reserve : Nat) (skipped rest : List Nat) : Prop where
  boot : ∀ d : UBoot.Device, d.bbm.nandBbmCheck = false →
    (UBoot.nandBbmInfoSetup g chip (d.infoInit g)).bbm =
      visitAll g chip.blockBad
        (firstMap g (d.infoInit g).bbm first reserve) (skipped ++ rest)
  kernel : ∀ d : Device, d.bbm.nandBbmCheck = false → ∃ turns built,
    nandBbmInfoSetup g layout chip turns (d.infoInit g) = some built ∧
      built.bbm = visitAll g chip.blockBad
        (firstMap g (d.infoInit g).bbm first reserve) rest
  inside : ∀ pos ∈ skipped ++ rest, pos < g.size
  apart : ∀ pos ∈ skipped, g.blockIndex pos ≠ g.blockIndex first ∧
    ∀ other ∈ rest, g.blockIndex pos ≠ g.blockIndex other
  clean_iff : (∀ pos ∈ skipped, chip.blockBad pos = false) ↔
    NothingJumpedOver g chip.blockBad
  seen : ∀ block,
    (block = g.blockIndex first ∨ ∃ pos ∈ skipped ++ rest,
      chip.blockBad pos = true ∧ g.blockIndex pos = block) ↔
    ∃ pos ∈ mapPositions g, chip.blockBad pos = true ∧ g.blockIndex pos = block

section Walks

variable (unmarked : GoodUnmarked g chip.blockBad)
  (suffice : ReservesSuffice g chip.blockBad)

include unmarked suffice

/-- The walk, given the region of the first bad position, the positions before
and behind that region, and what the kernel does. -/
theorem walk_of_jump
    {start stop first reserve : Nat} {lead before after later skipped : List Nat}
    (whole : mapPositions g = lead ++ (positionsFrom g start stop ++ later))
    (isRegion : ⟨start, stop - start⟩ ∈ nandBbmBlkmap g)
    (split : positionsFrom g start stop = before ++ first :: after)
    (cleanLead : ∀ pos ∈ lead, chip.blockBad pos = false)
    (cleanBefore : ∀ pos ∈ before, chip.blockBad pos = false)
    (marked : chip.blockBad first = true)
    (found : reserveFor g chip.blockBad g.redirTop = some reserve)
    (jump : Jump g chip.blockBad start stop first reserve after skipped)
    (laterApart : ∀ pos ∈ after, ∀ other ∈ later,
      g.blockIndex pos ≠ g.blockIndex other)
    (kernel : ∀ d : Device, d.bbm.nandBbmCheck = false → ∃ turns built,
      nandBbmInfoSetup g layout chip turns (d.infoInit g) = some built ∧
        built.bbm = visitAll g chip.blockBad
          (firstMap g (d.infoInit g).bbm first reserve)
          (positionsFrom g (g.blockPos reserve + g.erasesize) stop ++ later)) :
    Walk g layout chip first reserve skipped
      (positionsFrom g (g.blockPos reserve + g.erasesize) stop ++ later) := by
  have inWalk : ∀ pos, pos ∈ lead ∨ pos ∈ before ∨ pos = first ∨ pos ∈ after ∨
      pos ∈ later ↔ pos ∈ mapPositions g := by
    intro pos
    rw [whole, split]
    simp only [List.mem_append, List.mem_cons, or_assoc]
  have inRest : ∀ pos, pos ∈ skipped ++
      (positionsFrom g (g.blockPos reserve + g.erasesize) stop ++ later) →
      pos = first ∨ pos ∈ after ∨ pos ∈ later := by
    intro pos member
    rw [List.mem_append, List.mem_append] at member
    rcases member with inSkipped | inTail | inLater
    · exact Or.inr (Or.inl (jump.mem_skipped pos inSkipped))
    · exact (jump.mem_rest pos inTail).imp_right Or.inl
    · exact Or.inr (Or.inr inLater)
  have firstInside : first < g.size :=
    mapPositions_inside ((inWalk first).mp (Or.inr (Or.inr (Or.inl rfl))))
  have onlyFirst : ∀ pos ∈ lead ++ before, chip.blockBad pos = false := by
    intro pos member
    rw [List.mem_append] at member
    exact member.elim (cleanLead pos) (cleanBefore pos)
  have isFirst : (mapPositions g).find? chip.blockBad = some first := by
    rw [whole, split, List.find?_eq_some_iff_append]
    refine ⟨marked, lead ++ before, after ++ later, by simp, ?_⟩
    intro pos member
    rw [onlyFirst pos member]
    rfl
  have firstMember : first ∈ positionsFrom g start stop := by
    rw [split]
    simp
  refine ⟨?_, kernel, ?_, ?_, ?_, ?_⟩
  · intro d check
    have redirected : Redirected g chip.blockBad
        (firstMap g (d.infoInit g).bbm first reserve) {g.blockIndex first} :=
      redirected_first unmarked d.bbm firstInside marked found
    have behind : ∀ pos ∈ after ++ later, pos < g.size := by
      intro pos member
      rw [List.mem_append] at member
      exact mapPositions_inside
        ((inWalk pos).mp (Or.inr (Or.inr (Or.inr member))))
    have ahead : ∀ pos ∈ lead ++ before, pos < g.size := by
      intro pos member
      rw [List.mem_append] at member
      exact mapPositions_inside
        ((inWalk pos).mp (member.imp_right Or.inl))
    have order : mapPositions g =
        (lead ++ before) ++ first :: (after ++ later) := by
      rw [whole, split]
      simp
    have checkInit : (d.infoInit g).bbm.nandBbmCheck = false := check
    rw [UBoot.nandBbmInfoSetup, order, List.foldl_append, List.foldl_cons,
      setup_clean checkInit _ ahead onlyFirst,
      setupTurn_first checkInit firstInside marked found,
      setup_checked unmarked suffice redirected _ behind,
      visitAll_append]
    change visitAll g chip.blockBad (visitAll g chip.blockBad
      (firstMap g (d.infoInit g).bbm first reserve) after) later = _
    rw [jump.visits _ redirected, ← visitAll_append, List.append_assoc]
  · intro pos member
    apply mapPositions_inside
    apply (inWalk pos).mp
    exact Or.inr (Or.inr (inRest pos member))
  · intro pos member
    have inAfter := jump.mem_skipped pos member
    have behind := inAfter
    rw [positionsFrom_after split] at behind
    have order := blockIndex_lt (lt_of_mem_positionsFrom behind).1
    refine ⟨Nat.ne_of_gt order, ?_⟩
    intro other otherMember
    rw [List.mem_append] at otherMember
    cases otherMember with
    | inl inTail => exact jump.apart pos member other inTail
    | inr inLater => exact laterApart pos inAfter other inLater
  · rw [nothingJumpedOver_iff isRegion firstMember isFirst found]
    exact jump.clean_iff
  · intro block
    constructor
    · intro either
      cases either with
      | inl same =>
          exact ⟨first, (inWalk first).mp (Or.inr (Or.inr (Or.inl rfl))),
            marked, same.symm⟩
      | inr other =>
          obtain ⟨pos, member, bad, isBlock⟩ := other
          exact ⟨pos, (inWalk pos).mp (Or.inr (Or.inr (inRest pos member))),
            bad, isBlock⟩
    · intro exists_
      obtain ⟨pos, member, bad, isBlock⟩ := exists_
      have place := (inWalk pos).mpr member
      rw [← or_assoc, ← List.mem_append] at place
      rcases place with clean | same | inAfter | inLater
      · rw [onlyFirst pos clean] at bad
        exact Bool.noConfusion bad
      · exact Or.inl (by rw [← isBlock, same])
      · refine Or.inr ⟨pos, ?_, bad, isBlock⟩
        rw [List.mem_append, List.mem_append]
        exact (jump.covers pos inAfter).imp_right Or.inl
      · refine Or.inr ⟨pos, ?_, bad, isBlock⟩
        rw [List.mem_append, List.mem_append]
        exact Or.inr (Or.inr inLater)

/-- A later loop of the kernel, when translation is on. -/
theorem scan_later
    {d : Device} {done : Finset Nat}
    (redirected : Redirected g chip.blockBad d.bbm done) (start : Nat)
    {stop : Nat} (onChip : stop ≤ g.size) :
    ∃ built later, Loop.Returns (scanTurn g layout chip stop) (start, d) built ∧
      Redirected g chip.blockBad built.bbm later ∧
      built.bbm = visitAll g chip.blockBad d.bbm
        (positionsFrom g start stop) := by
  have inside : ∀ pos ∈ positionsFrom g start stop, pos < g.size := by
    intro pos member
    exact lt_of_lt_of_le (lt_of_mem_positionsFrom member).2 onChip
  exact ⟨_, _, scan_checked unmarked suffice onChip start redirected,
    redirected.visitAll_run unmarked suffice _ inside, rfl⟩

/-- The kernel's loop of the region of the first bad position. -/
theorem scan_jumps
    {d : Device} (check : d.bbm.nandBbmCheck = false) {start stop : Nat}
    (onChip : stop ≤ g.size) {first reserve : Nat} {before after : List Nat}
    (split : positionsFrom g start stop = before ++ first :: after)
    (clean : ∀ pos ∈ before, chip.blockBad pos = false)
    (marked : chip.blockBad first = true)
    (found : reserveFor g chip.blockBad d.bbm.assignIndex = some reserve)
    (redirected : Redirected g chip.blockBad (firstMap g d.bbm first reserve)
      {g.blockIndex first}) :
    ∃ built done, Loop.Returns (scanTurn g layout chip stop) (start, d) built ∧
      Redirected g chip.blockBad built.bbm done ∧
      built.bbm = visitAll g chip.blockBad (firstMap g d.bbm first reserve)
        (positionsFrom g (g.blockPos reserve + g.erasesize) stop) := by
  obtain ⟨built, done, returns, builtRedirected, builtMap⟩ :=
    @scan_later g layout chip unmarked suffice
      { d with bbm := firstMap g d.bbm first reserve } _ redirected
      (g.blockPos reserve + g.erasesize) stop onChip
  refine ⟨built, done, ?_, builtRedirected, builtMap⟩
  exact (scan_first check onChip split clean marked found built).mpr returns

omit suffice in
theorem redirected_infoInit (d : Device) {first reserve : Nat}
    (inside : first < g.size) (marked : chip.blockBad first = true)
    (found : reserveFor g chip.blockBad g.redirTop = some reserve) :
    Redirected g chip.blockBad (firstMap g (d.infoInit g).bbm first reserve)
      {g.blockIndex first} := by
  rw [infoInit_bbm]
  exact redirected_first unmarked d.bbm inside marked found

omit unmarked suffice in
theorem found_infoInit (d : Device) {reserve : Nat}
    (found : reserveFor g chip.blockBad g.redirTop = some reserve) :
    reserveFor g chip.blockBad (d.infoInit g).bbm.assignIndex =
      some reserve := by
  rw [infoInit_assignIndex]
  exact found

omit unmarked suffice in
/-- Positions in front of the reserve region lie in other blocks. -/
theorem blockIndex_ne_of_reserve {pos other : Nat}
    (below : pos < g.redirectStart)
    (member : other ∈ positionsFrom g g.redirectStart g.bbmRedirEnd) :
    g.blockIndex pos ≠ g.blockIndex other := by
  obtain ⟨block, above, rfl⟩ :=
    exists_blockPos g.blockPos_redirFloor.symm member
  have low : g.blockIndex pos < g.redirFloor := by
    rw [← g.blockPos_redirFloor, g.blockPos_eq] at below
    rw [g.blockIndex_eq]
    exact (Nat.div_lt_iff_lt_mul g.erasesize_pos).mpr below
  rw [g.blockIndex_blockPos]
  omega

omit unmarked suffice in
theorem redirectStart_le_blockPos {reserve : Nat}
    (found : reserveFor g chip.blockBad g.redirTop = some reserve) :
    g.redirectStart ≤ g.blockPos reserve := by
  have aboveFloor := (reserveFor_eq_some_iff.mp found).1
  rw [← g.blockPos_redirFloor]
  exact le_of_lt ((blockPos_lt_iff g).mpr aboveFloor)

theorem walk_data
    {first reserve : Nat}
    (isFirst : (positionsFrom g bbmInfoSize g.redirectStart).find?
      chip.blockBad = some first)
    (found : reserveFor g chip.blockBad g.redirTop = some reserve) :
    ∃ skipped rest, Walk g layout chip first reserve skipped rest := by
  have marked : chip.blockBad first = true := List.find?_some isFirst
  have bounds := lt_of_mem_positionsFrom (List.mem_of_find?_eq_some isFirst)
  have order := g.bbmInfoSize_lt_redirectStart
  have size : g.redirectStart ≤ g.size := Nat.sub_le _ _
  obtain ⟨before, after, split, clean⟩ := split_of_find isFirst
  have whole : mapPositions g =
      [] ++ (positionsFrom g bbmInfoSize g.redirectStart ++
        (positionsFrom g 0 bbmInfoSize ++
          positionsFrom g g.redirectStart g.bbmRedirEnd)) := by
    rw [mapPositions_eq, List.nil_append]
  refine ⟨after, _, walk_of_jump unmarked suffice whole (dataRegion g) split ?_
    clean marked found (jump_out split (redirectStart_le_blockPos found)) ?_ ?_⟩
  · intro pos member
    cases member
  · intro pos inAfter other member
    have within := lt_of_mem_positionsFrom ((mem_after_iff split).mp inAfter).1
    rw [positionsFrom_after split] at inAfter
    have behind := lt_of_mem_positionsFrom inAfter
    rw [List.mem_append] at member
    cases member with
    | inl info =>
        have early := lt_of_mem_positionsFrom info
        exact Nat.ne_of_gt (blockIndex_lt (by omega))
    | inr reserve => exact blockIndex_ne_of_reserve within.2 reserve
  · intro d check
    obtain ⟨data, _, first, dataRedirected, dataMap⟩ :=
      scan_jumps unmarked suffice (checkInit d check) size split clean marked
        (found_infoInit d found)
        (redirected_infoInit unmarked d (by omega) marked found)
    obtain ⟨info, _, second, infoRedirected, infoMap⟩ :=
      scan_later unmarked suffice dataRedirected 0 (bbmInfoSize_le_size g)
    obtain ⟨built, _, third, _, builtMap⟩ :=
      scan_later unmarked suffice infoRedirected g.redirectStart
        (le_of_eq g.bbmRedirEnd_eq)
    obtain ⟨turns, finished⟩ := nandBbmInfoSetup_of_returns first second third
    refine ⟨turns, built, finished, ?_⟩
    rw [builtMap, infoMap, dataMap, visitAll_append, visitAll_append]

theorem walk_info
    {first reserve : Nat}
    (dataClean : ∀ pos ∈ positionsFrom g bbmInfoSize g.redirectStart,
      chip.blockBad pos = false)
    (isFirst : (positionsFrom g 0 bbmInfoSize).find? chip.blockBad = some first)
    (found : reserveFor g chip.blockBad g.redirTop = some reserve) :
    ∃ skipped rest, Walk g layout chip first reserve skipped rest := by
  have marked : chip.blockBad first = true := List.find?_some isFirst
  have bounds := lt_of_mem_positionsFrom (List.mem_of_find?_eq_some isFirst)
  have order := g.bbmInfoSize_lt_redirectStart
  have size : g.redirectStart ≤ g.size := Nat.sub_le _ _
  have far := redirectStart_le_blockPos found
  obtain ⟨before, after, split, clean⟩ := split_of_find isFirst
  refine ⟨after, _, walk_of_jump unmarked suffice (mapPositions_eq g)
    (infoRegion g) split dataClean clean marked found
    (jump_out split (by omega)) ?_ ?_⟩
  · intro pos inAfter other member
    have within := lt_of_mem_positionsFrom ((mem_after_iff split).mp inAfter).1
    exact blockIndex_ne_of_reserve (by omega) member
  · intro d check
    have first := @scan_clean g layout chip (d.infoInit g) (checkInit d check)
      g.redirectStart size bbmInfoSize dataClean
    obtain ⟨info, _, second, infoRedirected, infoMap⟩ :=
      scan_jumps unmarked suffice (checkInit d check) (bbmInfoSize_le_size g)
        split clean marked (found_infoInit d found)
        (redirected_infoInit unmarked d (by omega) marked found)
    obtain ⟨built, _, third, _, builtMap⟩ :=
      scan_later unmarked suffice infoRedirected g.redirectStart
        (le_of_eq g.bbmRedirEnd_eq)
    obtain ⟨turns, finished⟩ := nandBbmInfoSetup_of_returns first second third
    refine ⟨turns, built, finished, ?_⟩
    rw [builtMap, infoMap, visitAll_append]

theorem walk_reserve
    {first reserve : Nat}
    (dataClean : ∀ pos ∈ positionsFrom g bbmInfoSize g.redirectStart,
      chip.blockBad pos = false)
    (infoClean : ∀ pos ∈ positionsFrom g 0 bbmInfoSize,
      chip.blockBad pos = false)
    (isFirst : (positionsFrom g g.redirectStart g.bbmRedirEnd).find?
      chip.blockBad = some first)
    (found : reserveFor g chip.blockBad g.redirTop = some reserve) :
    ∃ skipped rest, Walk g layout chip first reserve skipped rest := by
  have marked : chip.blockBad first = true := List.find?_some isFirst
  have bounds := lt_of_mem_positionsFrom (List.mem_of_find?_eq_some isFirst)
  rw [g.bbmRedirEnd_eq] at bounds
  have size : g.redirectStart ≤ g.size := Nat.sub_le _ _
  obtain ⟨before, after, split, clean⟩ := split_of_find isFirst
  obtain ⟨skipped, jump⟩ := jump_within split unmarked found clean marked
  have whole : mapPositions g =
      (positionsFrom g bbmInfoSize g.redirectStart ++
        positionsFrom g 0 bbmInfoSize) ++
        (positionsFrom g g.redirectStart g.bbmRedirEnd ++ []) := by
    rw [mapPositions_eq, List.append_nil, List.append_assoc]
  have leadClean : ∀ pos ∈ positionsFrom g bbmInfoSize g.redirectStart ++
      positionsFrom g 0 bbmInfoSize, chip.blockBad pos = false := by
    intro pos member
    rw [List.mem_append] at member
    exact member.elim (dataClean pos) (infoClean pos)
  refine ⟨skipped, _, walk_of_jump unmarked suffice whole (reserveRegion g)
    split leadClean clean marked found jump ?_ ?_⟩
  · intro pos _ other member
    cases member
  · intro d check
    have first := @scan_clean g layout chip (d.infoInit g) (checkInit d check)
      g.redirectStart size bbmInfoSize dataClean
    have second := @scan_clean g layout chip (d.infoInit g) (checkInit d check)
      bbmInfoSize (bbmInfoSize_le_size g) 0 infoClean
    obtain ⟨built, _, third, _, builtMap⟩ :=
      scan_jumps unmarked suffice (checkInit d check)
        (le_of_eq g.bbmRedirEnd_eq) split clean marked (found_infoInit d found)
        (redirected_infoInit unmarked d bounds.2 marked found)
    obtain ⟨turns, finished⟩ := nandBbmInfoSetup_of_returns first second third
    refine ⟨turns, built, finished, ?_⟩
    rw [builtMap, List.append_nil]

/-- Whatever region the first bad position is in, both builders go on from it
as described. -/
theorem exists_walk
    {first reserve : Nat}
    (isFirst : (mapPositions g).find? chip.blockBad = some first)
    (found : reserveFor g chip.blockBad g.redirTop = some reserve) :
    ∃ skipped rest, Walk g layout chip first reserve skipped rest := by
  rw [mapPositions_eq, List.find?_append, List.find?_append] at isFirst
  cases inData : (positionsFrom g bbmInfoSize g.redirectStart).find?
      chip.blockBad with
  | some data =>
      rw [inData, Option.some_or] at isFirst
      rw [isFirst] at inData
      exact walk_data unmarked suffice inData found
  | none =>
      have dataClean := clean_of_find_none inData
      rw [inData, Option.none_or] at isFirst
      cases inInfo : (positionsFrom g 0 bbmInfoSize).find? chip.blockBad with
      | some info =>
          rw [inInfo, Option.some_or] at isFirst
          rw [isFirst] at inInfo
          exact walk_info unmarked suffice dataClean inInfo found
      | none =>
          rw [inInfo, Option.none_or] at isFirst
          exact walk_reserve unmarked suffice dataClean
            (clean_of_find_none inInfo) isFirst found

end Walks

/-! ### Agreement -/

theorem exists_reserve_init {blockBad : Nat → Bool}
    (suffice : ReservesSuffice g blockBad) {block : Nat}
    (bad : block ∈ badBlocks g blockBad) :
    ∃ reserve, reserveFor g blockBad g.redirTop = some reserve := by
  apply exists_reserve suffice (Finset.empty_subset _) _ bad
    (Finset.notMem_empty _)
  exact Nat.le_add_right _ _

/-- Visiting some positions more gives the same map just if none of them is
bad. -/
theorem sameMap_visitAll_iff {blockBad : Nat → Bool}
    (unmarked : GoodUnmarked g blockBad) (suffice : ReservesSuffice g blockBad)
    {s t : Bbm} {done : Finset Nat} (first : Redirected g blockBad s done)
    (second : Redirected g blockBad t done) (same : SameMap g s t)
    {skipped rest : List Nat} (inside : ∀ pos ∈ skipped ++ rest, pos < g.size)
    (apart : ∀ pos ∈ skipped, g.blockIndex pos ∉ done ∧
      ∀ other ∈ rest, g.blockIndex pos ≠ g.blockIndex other) :
    SameMap g (visitAll g blockBad s (skipped ++ rest))
        (visitAll g blockBad t rest) ↔
      ∀ pos ∈ skipped, blockBad pos = false := by
  have skippedInside : ∀ pos ∈ skipped, pos < g.size :=
    fun pos member => inside pos (List.mem_append_left _ member)
  have restInside : ∀ pos ∈ rest, pos < g.size :=
    fun pos member => inside pos (List.mem_append_right _ member)
  constructor
  · intro agree pos member
    apply Bool.eq_false_of_not_eq_true
    intro marked
    have bootAfter := first.visitAll_run unmarked suffice _ inside
    have kernelAfter := second.visitAll_run unmarked suffice _ restInside
    have blockInside := g.blockIndex_lt_blocks (skippedInside pos member)
    have visited : g.blockIndex pos ∈
        (skipped ++ rest).foldl (Redirected.doneAfter g blockBad) done :=
      mem_foldl_doneAfter.mpr (Or.inr
        ⟨pos, List.mem_append_left _ member, marked, rfl⟩)
    have standsIn := bootAfter.stoodIn _ visited
    have notVisited : g.blockIndex pos ∉
        rest.foldl (Redirected.doneAfter g blockBad) done := by
      intro inRest
      cases mem_foldl_doneAfter.mp inRest with
      | inl before => exact (apart pos member).1 before
      | inr later =>
          obtain ⟨other, otherMember, -, sameBlock⟩ := later
          exact (apart pos member).2 other otherMember sameBlock.symm
    have itself := kernelAfter.itself _ blockInside notVisited
    -- the stand-in is good, the block itself is not
    have good := standsIn.2.2.2
    rw [agree.target blockInside, itself, unmarked.bad marked] at good
    exact Bool.noConfusion good
  · intro clean
    rw [visitAll_append, first.visitAll_settled unmarked skipped skippedInside
      fun pos member => Or.inl (clean pos member)]
    exact same.visitAll unmarked suffice first second rest restInside

theorem StoodIn.of_sameMap {blockBad : Nat → Bool} {s t : Bbm} {block : Nat}
    (standsIn : StoodIn g blockBad s block) (same : SameMap g s t)
    (inside : block < g.blocks) : StoodIn g blockBad t block := by
  rw [StoodIn, ← same.flagged inside, ← same.target inside]
  exact standsIn

/-- Nothing happens when the walk meets no bad position. -/
theorem buildersAgree_iff_of_clean
    {boot : UBoot.Device} {kernel : Device}
    (bootCheck : boot.bbm.nandBbmCheck = false)
    (kernelCheck : kernel.bbm.nandBbmCheck = false)
    (clean : ∀ pos ∈ mapPositions g, chip.blockBad pos = false) :
    BuildersAgree g layout chip boot kernel ↔
      DataBlocksSeen g chip.blockBad := by
  have size : g.redirectStart ≤ g.size := Nat.sub_le _ _
  have bootBuilt : UBoot.nandBbmInfoSetup g chip (boot.infoInit g) =
      boot.infoInit g := by
    have check : (boot.infoInit g).bbm.nandBbmCheck = false := bootCheck
    exact setup_clean check _ (fun pos => mapPositions_inside) clean
  rw [mapPositions_eq] at clean
  have kernelBuilt : ∃ turns, nandBbmInfoSetup g layout chip turns
      (kernel.infoInit g) = some (kernel.infoInit g) := by
    have check := @checkInit g kernel kernelCheck
    apply nandBbmInfoSetup_of_returns
    · exact scan_clean check size _ fun pos member =>
        clean pos (List.mem_append_left _ member)
    · exact scan_clean check (bbmInfoSize_le_size g) _ fun pos member =>
        clean pos (List.mem_append_right _ (List.mem_append_left _ member))
    · exact scan_clean check (le_of_eq g.bbmRedirEnd_eq) _ fun pos member =>
        clean pos (List.mem_append_right _ (List.mem_append_right _ member))
  rw [← mapPositions_eq] at clean
  constructor
  · intro agree block data below bad
    obtain ⟨_, _, _, _, redirected⟩ := agree
    have standsIn := (redirected block data below bad).1.1
    rw [bootBuilt] at standsIn
    have total := g.redirFloor_add_redirBlocks
    have unflagged := nandBbmInfoInit_flagged g boot.bbm
      (by omega : block < g.blocks)
    exact absurd (standsIn.symm.trans unflagged) (by simp)
  · intro seen
    obtain ⟨turns, built⟩ := kernelBuilt
    refine ⟨turns, _, built, ?_, ?_⟩
    · rw [bootBuilt]
      exact SameMap.init g boot.bbm kernel.bbm
    · intro block data below bad
      obtain ⟨pos, member, marked, -⟩ := seen block data below bad
      rw [clean pos member] at marked
      exact Bool.noConfusion marked

/-- The exact condition under which the two builders agree, for every chip and
every set of factory bad blocks for which the reserve blocks suffice. -/
theorem buildersAgree_iff
    (g : Geometry) (layout : NandLayout) (chip : ChipBehaviour)
    (unmarked : GoodUnmarked g chip.blockBad)
    (suffice : ReservesSuffice g chip.blockBad)
    (boot : UBoot.Device) (kernel : Device)
    (bootCheck : boot.bbm.nandBbmCheck = false)
    (kernelCheck : kernel.bbm.nandBbmCheck = false) :
    BuildersAgree g layout chip boot kernel ↔
      DataBlocksSeen g chip.blockBad ∧ NothingJumpedOver g chip.blockBad := by
  cases isFirst : (mapPositions g).find? chip.blockBad with
  | none =>
      rw [buildersAgree_iff_of_clean bootCheck kernelCheck
        (clean_of_find_none isFirst)]
      apply (and_iff_left _).symm
      intro first reserve found
      rw [isFirst] at found
      cases found
  | some first =>
      have marked : chip.blockBad first = true := List.find?_some isFirst
      have inside := mapPositions_inside (List.mem_of_find?_eq_some isFirst)
      obtain ⟨reserve, found⟩ := exists_reserve_init suffice
        (mem_badBlocks.mpr
          ⟨g.blockIndex_lt_blocks inside, unmarked.bad marked⟩)
      obtain ⟨skipped, rest, walk⟩ :=
        @exists_walk g layout chip unmarked suffice first reserve isFirst found
      have bootFirst :=
        redirected_first unmarked boot.bbm inside marked found
      have kernelFirst :=
        redirected_first unmarked kernel.bbm inside marked found
      obtain ⟨turns, built, finished, builtMap⟩ := walk.kernel kernel kernelCheck
      have bootMap := walk.boot boot bootCheck
      have bootAfter :=
        bootFirst.visitAll_run unmarked suffice _ walk.inside
      have startSame : SameMap g
          (firstMap g (nandBbmInfoInit g boot.bbm) first reserve)
          (firstMap g (nandBbmInfoInit g kernel.bbm) first reserve) := by
        have within := (reserveFor_eq_some_iff.mp found).2.1
        have top := g.redirTop_succ
        exact ((SameMap.init g boot.bbm kernel.bbm).assigned _
          (by omega)).setCheck _ _
      have same := sameMap_visitAll_iff unmarked suffice bootFirst kernelFirst
        startSame walk.inside fun pos member =>
          ⟨fun isDone => (walk.apart pos member).1 (Finset.mem_singleton.mp isDone),
            (walk.apart pos member).2⟩
      have total := g.redirFloor_add_redirBlocks
      constructor
      · intro agree
        obtain ⟨_, other, otherFinished, sameMap, redirected⟩ := agree
        have onlyOne := nandBbmInfoSetup_unique finished otherFinished
        subst onlyOne
        refine ⟨?_, ?_⟩
        · intro block data below bad
          have standsIn := (redirected block data below bad).1.1
          rw [bootMap] at standsIn
          apply (walk.seen block).mp
          by_contra unseen
          have notDone : block ∉ (skipped ++ rest).foldl
              (Redirected.doneAfter g chip.blockBad) {g.blockIndex first} := by
            intro isDone
            apply unseen
            rw [mem_foldl_doneAfter, Finset.mem_singleton] at isDone
            exact isDone
          have above := bootAfter.passed block (by omega) notDone standsIn
          omega
        · rw [bootMap, builtMap] at sameMap
          exact walk.clean_iff.mp (same.mp sameMap)
      · intro conditions
        obtain ⟨seen, nothing⟩ := conditions
        have sameMap := same.mpr (walk.clean_iff.mpr nothing)
        refine ⟨turns, built, finished, ?_, ?_⟩
        · rw [bootMap, builtMap]
          exact sameMap
        · intro block data below bad
          have isDone : block ∈ (skipped ++ rest).foldl
              (Redirected.doneAfter g chip.blockBad) {g.blockIndex first} := by
            rw [mem_foldl_doneAfter, Finset.mem_singleton]
            exact (walk.seen block).mpr (seen block data below bad)
          have standsIn := bootAfter.stoodIn block isDone
          rw [bootMap, builtMap]
          exact ⟨standsIn, StoodIn.of_sameMap standsIn sameMap (by omega)⟩

/-- When the regions are made of whole blocks, the walk looks at the first page
of every data block. -/
theorem dataBlocksSeen_of_aligned (aligned : g.Aligned) (blockBad : Nat → Bool) :
    DataBlocksSeen g blockBad := by
  intro block data below bad
  have start : bbmInfoSize = g.blockPos g.dataStart := by
    rw [g.blockPos_eq]
    exact (Nat.div_mul_cancel aligned).symm
  have stop := (blockPos_lt_iff g).mpr below
  rw [g.blockPos_redirFloor] at stop
  have reach : bbmInfoSize + (block - g.dataStart) * g.erasesize =
      g.blockPos block := by
    rw [start, g.blockPos_eq, g.blockPos_eq, ← Nat.add_mul]
    congr 1
    omega
  have cut := positionsFrom_append g bbmInfoSize g.redirectStart
    (block - g.dataStart) (by rw [reach]; exact le_of_lt stop)
  rw [reach, positionsFrom_of_lt stop] at cut
  refine ⟨g.blockPos block, ?_, bad, g.blockIndex_blockPos block⟩
  rw [mapPositions_eq, cut]
  simp

/-- The marks of a list of bad blocks cover whole blocks. -/
theorem goodUnmarked_withBad (g : Geometry) (bad : List Nat) :
    GoodUnmarked g (ChipBehaviour.withBad g bad).blockBad := by
  intro ofs good
  simp only [ChipBehaviour.withBad, g.blockIndex_blockPos] at good
  exact good

theorem buildersAgree_iff_oneBad :
    BuildersAgree nand128MiB titaniaNandOob64 (.withBad nand128MiB [5])
        .powerOn .powerOn ↔
      DataBlocksSeen nand128MiB (ChipBehaviour.withBad nand128MiB [5]).blockBad ∧
        NothingJumpedOver nand128MiB
          (ChipBehaviour.withBad nand128MiB [5]).blockBad :=
  buildersAgree_iff nand128MiB titaniaNandOob64 _ (goodUnmarked_withBad _ _)
    (by decide +kernel) .powerOn .powerOn rfl rfl

/-- Of the bad blocks 5 and 10 the kernel's builder misses the second. -/
theorem second_badBlock_missed :
    GoodUnmarked nand128MiB (ChipBehaviour.withBad nand128MiB [5, 10]).blockBad ∧
      ReservesSuffice nand128MiB
        (ChipBehaviour.withBad nand128MiB [5, 10]).blockBad ∧
      ¬ BuildersAgree nand128MiB titaniaNandOob64
        (.withBad nand128MiB [5, 10]) .powerOn .powerOn := by
  refine ⟨goodUnmarked_withBad _ _, by decide +kernel, ?_⟩
  intro agree
  obtain ⟨turns, built, finished, -, redirected⟩ := agree
  have flagged := (redirected 10 (by decide) (by decide) (by decide)).2.1
  have ran : (nandBbmInfoSetup nand128MiB titaniaNandOob64
      (.withBad nand128MiB [5, 10]) 100
      (Device.infoInit nand128MiB .powerOn)).map
        (fun d => d.bbm.flagged 10) = some false := by
    decide +kernel
  rw [Option.map_eq_some_iff] at ran
  obtain ⟨other, otherFinished, unflagged⟩ := ran
  rw [nandBbmInfoSetup_unique finished otherFinished, unflagged] at flagged
  cases flagged

end Gp2Firmware.Linux
