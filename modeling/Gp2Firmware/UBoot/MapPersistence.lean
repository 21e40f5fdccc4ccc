import Gp2Firmware.UBoot.DataMap
import Gp2Firmware.UBoot.InfoBlock

/-!
# Saving the map and loading it again

The entries are saved in the order of the blocks; the loader takes their
targets to descend from the top of the reserve region, counts what it has
seen, and stops when the count is reached.  The order of the blocks is not the
order in which they failed, so a map comes back only if the two agree.
-/

namespace Gp2Firmware.UBoot

open Gp2Firmware.Nand

variable {g : Geometry}

/-! ### One entry -/

/-- The map after the reserve blocks from `rindex` down to above `low` have
been marked bad. -/
def markedDown (s : Bbm) (low rindex : Nat) : Bbm :=
  { s with
    nandBbmBitmap := fun block =>
      if low < block ∧ block ≤ rindex then badEntry block
      else s.nandBbmBitmap block
    bbCountRedirect := s.bbCountRedirect + (rindex - low) }

theorem markSkipped_eq
    (relocIndex rindex : Nat) (s : Bbm) (inside : rindex < g.blocks) :
    markSkipped g relocIndex rindex s =
      if relocIndex ≤ rindex then some (markedDown s relocIndex rindex)
      else none := by
  induction rindex generalizing s with
  | zero =>
      rw [markSkipped]
      by_cases zero : relocIndex = 0
      · subst zero
        rw [if_pos rfl, if_pos (le_refl _), markedDown]
        congr 1
        have none : ∀ block, ¬ (0 < block ∧ block ≤ 0) := by omega
        simp only [none, if_false, Nat.sub_self, Nat.add_zero]
      · rw [if_neg zero, if_neg (by omega)]
  | succ rindex inductionHypothesis =>
      rw [markSkipped]
      by_cases here : relocIndex = rindex + 1
      · subst here
        rw [if_pos rfl, if_pos (le_refl _), markedDown]
        congr 1
        have none : ∀ block, ¬ (rindex + 1 < block ∧ block ≤ rindex + 1) := by
          omega
        simp only [none, if_false, Nat.sub_self, Nat.add_zero]
      · rw [if_neg here, if_neg (by omega), inductionHypothesis _ (by omega)]
        by_cases below : relocIndex ≤ rindex
        · rw [if_pos below, if_pos (by omega), markedDown, markedDown]
          congr 1
          simp only [Bbm.mk.injEq, true_and, and_true]
          refine ⟨?_, by omega⟩
          funext block
          by_cases last : block = rindex + 1
          · subst last
            rw [if_neg (by omega), Function.update_self, if_pos (by omega)]
          · rw [Function.update_of_ne last]
            have same :
                (relocIndex < block ∧ block ≤ rindex) ↔
                  (relocIndex < block ∧ block ≤ rindex + 1) := by
              omega
            simp only [same]
        · rw [if_neg below, if_neg (by omega)]

/-- An entry cannot be loaded once `rindex` has left the device. -/
theorem loadEntry_beyond
    (entry : MapInfo) {rindex : Nat} (s : Bbm) (beyond : g.blocks ≤ rindex) :
    loadEntry g entry rindex s = none := by
  have positive := g.blocks_pos
  obtain ⟨below, rfl⟩ : ∃ below, rindex = below + 1 := ⟨rindex - 1, by omega⟩
  rw [loadEntry, markSkipped]
  by_cases here : entry.relocIndex = below + 1
  · rw [if_pos here]
    simp only
    rw [if_pos (Or.inr (by omega))]
  · rw [if_neg here, if_pos beyond]

/-- The map after an entry has been loaded. -/
def entryLoaded (s : Bbm) (entry : MapInfo) (rindex : Nat) : Bbm :=
  let marked := markedDown s entry.relocIndex rindex
  let bitmap := Function.update marked.nandBbmBitmap entry.bbIndex
    (badEntry entry.relocIndex)
  { marked with
    nandBbmBitmap := Function.update bitmap entry.relocIndex
      (bitmap entry.relocIndex ||| bbmRedirMask)
    bbCountData :=
      if entry.bbIndex ≠ entry.relocIndex then marked.bbCountData + 1
      else marked.bbCountData
    bbCountRedirect :=
      if entry.bbIndex ≠ entry.relocIndex then marked.bbCountRedirect
      else marked.bbCountRedirect + 1 }

theorem loadEntry_eq
    (entry : MapInfo) {rindex : Nat} (s : Bbm) (inside : rindex < g.blocks) :
    loadEntry g entry rindex s =
      if entry.relocIndex ≤ rindex ∧ entry.bbIndex < g.blocks then
        some (entryLoaded s entry rindex)
      else none := by
  rw [loadEntry, markSkipped_eq _ _ _ inside]
  by_cases below : entry.relocIndex ≤ rindex
  · rw [if_pos below]
    simp only
    by_cases bbInside : entry.bbIndex < g.blocks
    · have onDevice :
          ¬ (g.blocks ≤ entry.bbIndex ∨ g.blocks ≤ entry.relocIndex) := by
        omega
      have loaded : entry.relocIndex ≤ rindex ∧ entry.bbIndex < g.blocks :=
        ⟨below, bbInside⟩
      rw [if_neg onDevice, if_pos loaded]
      have positions : g.blockPos entry.bbIndex ≠ g.blockPos entry.relocIndex ↔
          entry.bbIndex ≠ entry.relocIndex :=
        not_congr g.blockPos_injective.eq_iff
      by_cases different : entry.bbIndex ≠ entry.relocIndex
      · rw [if_pos (positions.mpr different)]
        simp only [entryLoaded, if_pos different]
      · rw [if_neg (fun moved => different (positions.mp moved))]
        simp only [entryLoaded, if_neg different]
    · rw [if_pos (by omega), if_neg (fun both => bbInside both.2)]
  · rw [if_neg below, if_neg (fun both => below both.1)]

theorem entryLoaded_entry
    (s : Bbm) (entry : MapInfo) (rindex block : Nat) :
    (entryLoaded s entry rindex).nandBbmBitmap block =
      if block = entry.relocIndex then
        (if entry.relocIndex = entry.bbIndex then badEntry entry.relocIndex
          else s.nandBbmBitmap entry.relocIndex) ||| bbmRedirMask
      else if block = entry.bbIndex then badEntry entry.relocIndex
      else if entry.relocIndex < block ∧ block ≤ rindex then badEntry block
      else s.nandBbmBitmap block := by
  simp only [entryLoaded, markedDown]
  by_cases reloc : block = entry.relocIndex
  · rw [reloc, Function.update_self, if_pos rfl]
    by_cases same : entry.relocIndex = entry.bbIndex
    · rw [same, Function.update_self, if_pos rfl]
    · rw [Function.update_of_ne same, if_neg same, if_neg (by omega)]
  · rw [Function.update_of_ne reloc, if_neg reloc]
    by_cases bb : block = entry.bbIndex
    · rw [bb, Function.update_self, if_pos rfl]
    · rw [Function.update_of_ne bb, if_neg bb]

theorem entryLoaded_counts
    (s : Bbm) (entry : MapInfo) {rindex : Nat}
    (below : entry.relocIndex ≤ rindex) :
    (entryLoaded s entry rindex).bbCountData +
        (entryLoaded s entry rindex).bbCountRedirect + entry.relocIndex =
      s.bbCountData + s.bbCountRedirect + rindex + 1 := by
  simp only [entryLoaded, markedDown]
  split <;> omega

/-- `rindex` after an entry. -/
theorem next_rindex {relocIndex : Nat} (inside : relocIndex < g.blocks) :
    (relocIndex + (2 ^ 32 - 1)) % 2 ^ 32 =
      if relocIndex = 0 then 2 ^ 32 - 1 else relocIndex - 1 := by
  have small := g.blocks_lt
  split <;> omega

/-! ### What a loop that ends has done -/

private theorem loadLoop_beyond
    {bbCount : Nat} {maps : Nat → MapInfo} {turns i rindex final : Nat}
    {s loaded : Bbm} (beyond : g.blocks ≤ rindex)
    (ends : loadLoop g bbCount maps turns i rindex s = some (final, loaded)) :
    final = rindex := by
  cases turns with
  | zero =>
      rw [loadLoop, Option.some.injEq, Prod.mk.injEq] at ends
      exact ends.1.symm
  | succ turns =>
      rw [loadLoop, loadEntry_beyond _ _ beyond] at ends
      split at ends
      · rw [Option.some.injEq, Prod.mk.injEq] at ends
        exact ends.1.symm
      · split at ends <;> exact absurd ends (by simp)

/-- A run of the loop over `count` entries from `i` on, with `rindex` going
down to `final`. -/
structure LoadRun (maps : Nat → MapInfo) (i count rindex final : Nat)
    (s loaded : Bbm) : Prop where
  le : final ≤ rindex
  within : ∀ j, i ≤ j → j < i + count →
    final < (maps j).relocIndex ∧ (maps j).relocIndex ≤ rindex
  descending : ∀ j k, i ≤ j → j < k → k < i + count →
    (maps k).relocIndex < (maps j).relocIndex
  flagged : ∀ block, block ≤ final →
    isBad (loaded.nandBbmBitmap block) = true →
      isBad (s.nandBbmBitmap block) = true ∨
        ∃ j, i ≤ j ∧ j < i + count ∧ (maps j).bbIndex = block
  last : (final = rindex ∧ loaded = s) ∨
    (final < rindex ∧
      isRedirect (loaded.nandBbmBitmap (final + 1)) = true)

private theorem LoadRun.nil
    (maps : Nat → MapInfo) (i rindex : Nat) (s : Bbm) :
    LoadRun maps i 0 rindex rindex s s where
  le := le_refl _
  within j above below := by omega
  descending j k above between below := by omega
  flagged block _ flagged := Or.inl flagged
  last := Or.inl ⟨rfl, rfl⟩

private theorem LoadRun.cons
    {maps : Nat → MapInfo} {i count rindex final : Nat} {s loaded : Bbm}
    (below : (maps i).relocIndex ≤ rindex) (positive : 0 < (maps i).relocIndex)
    (rest : LoadRun maps (i + 1) count ((maps i).relocIndex - 1) final
      (entryLoaded s (maps i) rindex) loaded) :
    LoadRun maps i (count + 1) rindex final s loaded := by
  have restLe := rest.le
  constructor
  · omega
  · intro j above inside
    by_cases first : j = i
    · subst first
      omega
    · have := rest.within j (by omega) (by omega)
      omega
  · intro j k above between inside
    by_cases first : j = i
    · subst first
      have := rest.within k (by omega) (by omega)
      omega
    · exact rest.descending j k (by omega) between (by omega)
  · intro block low flagged
    rcases rest.flagged block low flagged with marked | ⟨j, above, inside, bb⟩
    · rw [entryLoaded_entry, if_neg (by omega)] at marked
      by_cases bb : block = (maps i).bbIndex
      · exact Or.inr ⟨i, le_refl _, by omega, bb.symm⟩
      · rw [if_neg bb, if_neg (by omega)] at marked
        exact Or.inl marked
    · exact Or.inr ⟨j, by omega, by omega, bb⟩
  · right
    refine ⟨by omega, ?_⟩
    rcases rest.last with ⟨same, rfl⟩ | ⟨-, redirect⟩
    · have reloc : final + 1 = (maps i).relocIndex := by omega
      rw [reloc, entryLoaded_entry, if_pos rfl, isRedirect_or,
        isRedirect_bbmRedirMask, Bool.or_true]
    · exact redirect

theorem loadLoop_run
    {bbCount : Nat} {maps : Nat → MapInfo} (turns : Nat) {i rindex final : Nat}
    {s loaded : Bbm} (inside : rindex < g.blocks)
    (finalInside : final < g.blocks)
    (ends : loadLoop g bbCount maps turns i rindex s = some (final, loaded)) :
    ∃ count, LoadRun maps i count rindex final s loaded := by
  induction turns generalizing i rindex s with
  | zero =>
      rw [loadLoop, Option.some.injEq, Prod.mk.injEq] at ends
      obtain ⟨rfl, rfl⟩ := ends
      exact ⟨0, LoadRun.nil maps i rindex s⟩
  | succ turns inductionHypothesis =>
      rw [loadLoop, loadEntry_eq _ _ inside] at ends
      split at ends
      · rw [Option.some.injEq, Prod.mk.injEq] at ends
        obtain ⟨rfl, rfl⟩ := ends
        exact ⟨0, LoadRun.nil maps i rindex s⟩
      · split at ends
        · exact absurd ends (by simp)
        · by_cases loads :
              (maps i).relocIndex ≤ rindex ∧ (maps i).bbIndex < g.blocks
          · rw [if_pos loads] at ends
            simp only at ends
            have relocInside : (maps i).relocIndex < g.blocks := by omega
            rw [next_rindex relocInside] at ends
            by_cases zero : (maps i).relocIndex = 0
            · rw [if_pos zero] at ends
              have small := g.blocks_lt
              have := loadLoop_beyond (by omega) ends
              omega
            · rw [if_neg zero] at ends
              obtain ⟨count, rest⟩ := inductionHypothesis (by omega) ends
              exact ⟨count + 1, LoadRun.cons loads.1 (by omega) rest⟩
          · rw [if_neg loads] at ends
            exact absurd ends (by simp)

/-! ### What a loop over descending targets does -/

/-- `rindex` after the entries. -/
def finalIndex : List MapInfo → Nat → Nat
  | [], rindex => rindex
  | entry :: entries, _ => finalIndex entries (entry.relocIndex - 1)

/-- Entries of data blocks whose targets descend from `rindex`. -/
structure Descending (g : Geometry) (entries : List MapInfo) (rindex : Nat) :
    Prop where
  targets : entries.Pairwise fun first second =>
    second.relocIndex < first.relocIndex
  blocks : entries.Pairwise fun first second =>
    first.bbIndex ≠ second.bbIndex
  reserve : ∀ entry ∈ entries,
    g.redirFloor < entry.relocIndex ∧ entry.relocIndex ≤ rindex
  data : ∀ entry ∈ entries, entry.bbIndex < g.redirFloor

private theorem Descending.tail
    {entry : MapInfo} {entries : List MapInfo} {rindex : Nat}
    (descending : Descending g (entry :: entries) rindex) :
    Descending g entries (entry.relocIndex - 1) := by
  obtain ⟨targets, blocks, reserve, data⟩ := descending
  rw [List.pairwise_cons] at targets blocks
  refine ⟨targets.2, blocks.2, ?_, fun other member =>
    data other (List.mem_cons_of_mem _ member)⟩
  intro other member
  have lower := targets.1 other member
  have inRegion := reserve other (List.mem_cons_of_mem _ member)
  exact ⟨inRegion.1, by omega⟩

private theorem Descending.length_le
    {entries : List MapInfo} {rindex : Nat}
    (descending : Descending g entries rindex)
    (above : g.redirFloor ≤ rindex) :
    entries.length + g.redirFloor ≤ rindex := by
  induction entries generalizing rindex with
  | nil => rwa [List.length_nil, Nat.zero_add]
  | cons entry entries inductionHypothesis =>
      have head := descending.reserve entry List.mem_cons_self
      have rest := inductionHypothesis descending.tail (by omega)
      rw [List.length_cons]
      omega

/-- The last target is the block above the final `rindex`. -/
private theorem finalIndex_last (entries : List MapInfo) {rindex : Nat}
    (reserve : ∀ entry ∈ entries, 0 < entry.relocIndex) :
    (entries = [] ∧ finalIndex entries rindex = rindex) ∨
      ∃ entry ∈ entries,
        entry.relocIndex = finalIndex entries rindex + 1 := by
  induction entries generalizing rindex with
  | nil => exact Or.inl ⟨rfl, rfl⟩
  | cons entry entries inductionHypothesis =>
      right
      rw [finalIndex]
      have positive := reserve entry List.mem_cons_self
      have rest := @inductionHypothesis (entry.relocIndex - 1)
        fun other member => reserve other (List.mem_cons_of_mem _ member)
      rcases rest with ⟨-, last⟩ | ⟨other, member, last⟩
      · exact ⟨entry, List.mem_cons_self, by omega⟩
      · exact ⟨other, List.mem_cons_of_mem _ member, last⟩

private theorem finalIndex_spec
    {entries : List MapInfo} {rindex : Nat}
    (descending : Descending g entries rindex)
    (above : g.redirFloor ≤ rindex) :
    g.redirFloor ≤ finalIndex entries rindex ∧
      finalIndex entries rindex ≤ rindex ∧
      ∀ entry ∈ entries, finalIndex entries rindex < entry.relocIndex := by
  induction entries generalizing rindex with
  | nil => exact ⟨above, le_refl _, by simp⟩
  | cons entry entries inductionHypothesis =>
      have head := descending.reserve entry List.mem_cons_self
      obtain ⟨floorLe, le, lower⟩ :=
        inductionHypothesis descending.tail (by omega)
      refine ⟨floorLe, ?_, ?_⟩
      · rw [finalIndex]
        omega
      · intro other member
        rw [finalIndex]
        rcases List.mem_cons.mp member with rfl | member
        · omega
        · exact lower other member

/-- The map after the entries. -/
structure EntriesLoaded (entries : List MapInfo) (rindex : Nat)
    (s loaded : Bbm) : Prop where
  bb : ∀ entry ∈ entries,
    loaded.nandBbmBitmap entry.bbIndex = badEntry entry.relocIndex
  reloc : ∀ entry ∈ entries,
    loaded.nandBbmBitmap entry.relocIndex =
      s.nandBbmBitmap entry.relocIndex ||| bbmRedirMask
  marked : ∀ block, finalIndex entries rindex < block → block ≤ rindex →
    (∀ entry ∈ entries, entry.relocIndex ≠ block) →
    loaded.nandBbmBitmap block = badEntry block
  other : ∀ block, (∀ entry ∈ entries, entry.bbIndex ≠ block) →
    ¬ (finalIndex entries rindex < block ∧ block ≤ rindex) →
    loaded.nandBbmBitmap block = s.nandBbmBitmap block
  data : loaded.bbCountData = s.bbCountData + entries.length
  counted : loaded.bbCountData + loaded.bbCountRedirect +
    finalIndex entries rindex = s.bbCountData + s.bbCountRedirect + rindex

private theorem EntriesLoaded.nil (rindex : Nat) (s : Bbm) :
    EntriesLoaded [] rindex s s where
  bb entry member := absurd member (by simp)
  reloc entry member := absurd member (by simp)
  marked block above below := absurd (lt_of_lt_of_le above below) (lt_irrefl _)
  other _ _ _ := rfl
  data := rfl
  counted := rfl

private theorem EntriesLoaded.cons
    {entry : MapInfo} {entries : List MapInfo} {rindex : Nat} {s loaded : Bbm}
    (descending : Descending g (entry :: entries) rindex)
    (rest : EntriesLoaded entries (entry.relocIndex - 1)
      (entryLoaded s entry rindex) loaded) :
    EntriesLoaded (entry :: entries) rindex s loaded := by
  have head := descending.reserve entry List.mem_cons_self
  have bbLow := descending.data entry List.mem_cons_self
  have different : entry.relocIndex ≠ entry.bbIndex := by omega
  obtain ⟨floorLe, le, lower⟩ := finalIndex_spec descending.tail (by omega)
  have blocks := (List.pairwise_cons.mp descending.blocks).1
  have targets := (List.pairwise_cons.mp descending.targets).1
  -- what the first entry has written, where the rest does not touch it
  have kept : ∀ block, (∀ other ∈ entries, other.bbIndex ≠ block) →
      ¬ (finalIndex entries (entry.relocIndex - 1) < block ∧
        block ≤ entry.relocIndex - 1) →
      loaded.nandBbmBitmap block =
        (entryLoaded s entry rindex).nandBbmBitmap block := rest.other
  constructor
  · intro other member
    rcases List.mem_cons.mp member with rfl | member
    · rw [kept _ (fun later inRest => Ne.symm (blocks later inRest)) (by omega),
        entryLoaded_entry, if_neg (Ne.symm different), if_pos rfl]
    · exact rest.bb other member
  · intro other member
    rcases List.mem_cons.mp member with rfl | member
    · have unclaimed : ∀ later ∈ entries, later.bbIndex ≠ other.relocIndex := by
        intro later inRest
        have := descending.data later (List.mem_cons_of_mem _ inRest)
        omega
      rw [kept _ unclaimed (by omega), entryLoaded_entry, if_pos rfl,
        if_neg different]
    · have below := targets other member
      have inRegion := descending.reserve other (List.mem_cons_of_mem _ member)
      rw [rest.reloc other member, entryLoaded_entry, if_neg (by omega),
        if_neg (by omega), if_neg (by omega)]
  · intro block above within unclaimed
    have notHead := unclaimed entry List.mem_cons_self
    rw [finalIndex] at above
    by_cases low : block ≤ entry.relocIndex - 1
    · exact rest.marked block above low fun other member =>
        unclaimed other (List.mem_cons_of_mem _ member)
    · have apart : ∀ other ∈ entries, other.bbIndex ≠ block := by
        intro other member
        have := descending.data other (List.mem_cons_of_mem _ member)
        omega
      rw [kept block apart (by omega), entryLoaded_entry,
        if_neg (Ne.symm notHead), if_neg (by omega), if_pos (by omega)]
  · intro block unclaimed outside
    have notHead := unclaimed entry List.mem_cons_self
    rw [finalIndex] at outside
    rw [kept block (fun other member =>
        unclaimed other (List.mem_cons_of_mem _ member)) (by omega),
      entryLoaded_entry, if_neg (by omega), if_neg (Ne.symm notHead),
      if_neg (by omega)]
  · rw [rest.data, List.length_cons]
    have counted : (entryLoaded s entry rindex).bbCountData =
        s.bbCountData + 1 := if_pos (Ne.symm different)
    omega
  · have counted := rest.counted
    have first := entryLoaded_counts s entry head.2
    rw [finalIndex]
    omega

theorem loadLoop_entries
    {bbCount : Nat} {maps : Nat → MapInfo} (entries : List MapInfo)
    {turns i rindex : Nat} {s : Bbm} (inside : rindex < g.blocks)
    (above : g.redirFloor ≤ rindex)
    (descending : Descending g entries rindex)
    (stored : ∀ j entry, entries[j]? = some entry → maps (i + j) = entry)
    (enough : entries.length ≤ turns)
    (inBuffer : 4 * (3 + 2 * (i + entries.length)) ≤ g.erasesize)
    (small : bbCount < 2 ^ 32)
    (count : bbCount + finalIndex entries rindex =
      s.bbCountData + s.bbCountRedirect + rindex) :
    ∃ loaded, loadLoop g bbCount maps turns i rindex s =
        some (finalIndex entries rindex, loaded) ∧
      EntriesLoaded entries rindex s loaded := by
  induction entries generalizing turns i rindex s with
  | nil =>
      refine ⟨s, ?_, EntriesLoaded.nil rindex s⟩
      cases turns with
      | zero => rfl
      | succ turns =>
          rw [finalIndex] at count
          rw [loadLoop, if_pos (by omega), finalIndex]
  | cons entry entries inductionHypothesis =>
      obtain ⟨turns, rfl⟩ : ∃ fewer, turns = fewer + 1 :=
        ⟨turns - 1, by rw [List.length_cons] at enough; omega⟩
      rw [List.length_cons] at enough inBuffer
      have head := descending.reserve entry List.mem_cons_self
      have bbLow := descending.data entry List.mem_cons_self
      have floor := g.redirFloor_lt_redirTop
      have top := g.redirTop_succ
      obtain ⟨floorLe, -, lower⟩ := finalIndex_spec descending above
      have ahead := lower entry List.mem_cons_self
      have first : maps i = entry := stored 0 entry rfl
      have counted := entryLoaded_counts s entry head.2
      have bbInside : entry.bbIndex < g.blocks := by omega
      have relocInside : entry.relocIndex < g.blocks := by omega
      have storedRest : ∀ j later, entries[j]? = some later →
          maps (i + 1 + j) = later := by
        intro j later found
        have here := stored (j + 1) later found
        rwa [show i + (j + 1) = i + 1 + j by omega] at here
      have countRest :
          bbCount + finalIndex entries (entry.relocIndex - 1) =
            (entryLoaded s entry rindex).bbCountData +
              (entryLoaded s entry rindex).bbCountRedirect +
              (entry.relocIndex - 1) := by
        rw [finalIndex] at count
        omega
      obtain ⟨loaded, loop, spec⟩ :=
        @inductionHypothesis turns (i + 1) (entry.relocIndex - 1)
          (entryLoaded s entry rindex) (by omega) (by omega) descending.tail
          storedRest (by omega) (by omega) countRest
      refine ⟨loaded, ?_, EntriesLoaded.cons descending spec⟩
      rw [loadLoop, if_neg (by omega), if_neg (by omega), first,
        loadEntry_eq _ _ inside, if_pos ⟨head.2, bbInside⟩]
      simp only
      rw [next_rindex relocInside, if_neg (by omega), loop, finalIndex]

/-! ### The entries of a map of data blocks -/

/-- The entries of the data blocks. -/
def dataMaps (g : Geometry) (s : Bbm) : List MapInfo :=
  ((List.range' g.dataStart (g.redirFloor - g.dataStart)).filter s.flagged).map
    fun block => ⟨block, s.target block⟩

/-- The entries of the reserve blocks. -/
def reserveMaps (g : Geometry) (s : Bbm) : List MapInfo :=
  ((List.range' g.redirFloor g.redirBlocks).filter s.flagged).map
    fun block => ⟨block, s.target block⟩

variable {s : Bbm} {given : List Nat}

private theorem dataStart_le_of_dataBlock {block : Nat}
    (data : DataBlock g block) : g.dataStart ≤ block := by
  have behind := data.1
  rw [g.blockPos_eq] at behind
  exact Nat.div_le_of_le_mul (by rwa [Nat.mul_comm])

private theorem infoBlock_not_flagged (map : DataMap g s given) {block : Nat}
    (info : block < if g.Aligned then g.dataStart else 1) :
    s.flagged block = false := by
  apply Bool.eq_false_of_not_eq_true
  intro flagged
  split at info
  · have floor := g.dataStart_le_redirFloor
    have low := map.floor_le
    have found := map.redirect_of_flagged (by omega) flagged
    have := dataStart_le_of_dataBlock (map.onlyData block _ found).1
    omega
  · have zero : block = 0 := by omega
    rw [zero, map.not_flagged_zero] at flagged
    exact absurd flagged (by simp)

private theorem infoMaps_split (map : DataMap g s given) :
    infoMaps g s = dataMaps g s ++ reserveMaps g s := by
  have info : (List.range (if g.Aligned then g.dataStart else 1)).filter
      s.flagged = [] := by
    rw [List.filter_eq_nil_iff]
    intro block member
    rw [infoBlock_not_flagged map (List.mem_range.mp member)]
    simp
  rw [infoMaps_eq, mapIndices_eq, List.filter_append, List.filter_append, info,
    List.nil_append, List.map_append, dataMaps, reserveMaps]

private theorem mem_dataMaps (map : DataMap g s given) {entry : MapInfo} :
    entry ∈ dataMaps g s ↔
      s.redirect g entry.bbIndex = some entry.relocIndex := by
  have floorLe := map.floor_le
  rw [dataMaps, List.mem_map]
  constructor
  · rintro ⟨block, selected, rfl⟩
    rw [List.mem_filter, List.mem_range'_1] at selected
    have start := g.dataStart_le_redirFloor
    have below : block ≤ s.assignIndex := by omega
    exact map.redirect_of_flagged below selected.2
  · intro found
    have data := (map.onlyData _ _ found).1
    have start := dataStart_le_of_dataBlock data
    have low := data.2
    refine ⟨entry.bbIndex, ?_, ?_⟩
    · rw [List.mem_filter, List.mem_range'_1]
      exact ⟨by omega, map.flagged_of_redirect found⟩
    · rw [(Bbm.redirect_eq_some_iff.mp found).2.1]

private theorem dataMaps_ascending (g : Geometry) (s : Bbm) :
    (dataMaps g s).Pairwise fun first second =>
      first.bbIndex < second.bbIndex := by
  rw [dataMaps, List.pairwise_map]
  exact (List.pairwise_lt_range' ..).filter _

private theorem dataMaps_length (map : DataMap g s given) :
    (dataMaps g s).length = (redirectedBlocks g s).card := by
  have floorLe := map.floor_le
  have same : redirectedBlocks g s =
      ((List.range' g.dataStart (g.redirFloor - g.dataStart)).filter
        s.flagged).toFinset := by
    ext block
    simp only [redirectedBlocks, Finset.mem_filter, Finset.mem_range,
      List.mem_toFinset, List.mem_filter, List.mem_range'_1,
      Option.isSome_iff_exists]
    constructor
    · rintro ⟨-, target, found⟩
      have data := (map.onlyData _ _ found).1
      have start := dataStart_le_of_dataBlock data
      have low := data.2
      exact ⟨by omega, map.flagged_of_redirect found⟩
    · rintro ⟨inside, flagged⟩
      have found := map.redirect_of_flagged (by omega) flagged
      exact ⟨(Bbm.redirect_eq_some_iff.mp found).1, _, found⟩
  rw [same, List.toFinset_card_of_nodup ((List.nodup_range' ..).filter _),
    dataMaps, List.length_map]

/-- Entries of data blocks are saved in the order of the blocks. -/
private theorem savedMaps_ascending (map : DataMap g s given) {j k : Nat}
    (positive : 0 < (savedMaps g s j).bbIndex)
    (data : (savedMaps g s k).bbIndex < g.redirFloor)
    (before : (savedMaps g s j).bbIndex < (savedMaps g s k).bbIndex) :
    j < k := by
  have reserved : ∀ entry ∈ reserveMaps g s, g.redirFloor ≤ entry.bbIndex := by
    intro entry member
    rw [reserveMaps, List.mem_map] at member
    obtain ⟨block, selected, rfl⟩ := member
    rw [List.mem_filter, List.mem_range'_1] at selected
    exact selected.1.1
  have ordered : (infoMaps g s).Pairwise fun first second =>
      second.bbIndex < g.redirFloor → first.bbIndex < second.bbIndex := by
    rw [infoMaps_split map, List.pairwise_append]
    refine ⟨?_, ?_, ?_⟩
    · apply (dataMaps_ascending g s).imp
      intro _ _ lower _
      exact lower
    · apply List.pairwise_of_forall_mem_list
      intro _ _ second member low
      have := reserved second member
      omega
    · intro _ _ second member low
      have := reserved second member
      omega
  have stored : ∀ {i}, 0 < (savedMaps g s i).bbIndex →
      ∃ inRange : i < (infoMaps g s).length,
        savedMaps g s i = (infoMaps g s)[i] := by
    intro i inhabited
    by_cases inRange : i < (infoMaps g s).length
    · exact ⟨inRange, List.getD_eq_getElem _ _ inRange⟩
    · rw [savedMaps, List.getD_eq_default _ _ (by omega)] at inhabited
      exact absurd inhabited (lt_irrefl 0)
  by_contra notBefore
  obtain ⟨jInRange, jEq⟩ := stored positive
  obtain ⟨kInRange, kEq⟩ := stored (lt_trans positive before)
  rcases Nat.eq_or_lt_of_le (Nat.le_of_not_lt notBefore) with rfl | after
  · exact absurd before (lt_irrefl _)
  · have order := List.pairwise_iff_getElem.mp ordered k j kInRange jInRange after
    rw [← jEq, ← kEq] at order
    have := order (by omega)
    omega

/-! ### The round trip -/

/-- The map fits into one erase block; of two redirected data blocks the later
one has the lower reserve block; and the last reserve block that was taken off
the pool stands in for a data block. -/
structure Restorable (g : Geometry) (s : Bbm) : Prop where
  fits : 4 * (3 + 2 * (infoMaps g s).length) ≤ g.erasesize
  descending : ∀ first second, first < second → second < g.redirFloor →
    s.flagged first = true → s.flagged second = true →
      s.target second < s.target first
  noneBehind : s.assignIndex = g.redirTop ∨
    ∃ block, block < g.redirFloor ∧ s.flagged block = true ∧
      s.target block = s.assignIndex + 1

private theorem freshMap_entry {block : Nat} (inside : block < g.blocks) :
    (freshMap g).nandBbmBitmap block = BitVec.ofNat 32 block :=
  if_pos inside

private theorem freshMap_not_bad {block : Nat} (inside : block < g.blocks) :
    isBad ((freshMap g).nandBbmBitmap block) = false := by
  rw [freshMap_entry inside]
  exact isBad_ofNat (lt_trans inside g.blocks_lt)

/-- What a map that comes back must be like. -/
private theorem restorable_of_loaded
    (map : DataMap g s given)
    (fits : 4 * (3 + 2 * (infoMaps g s).length) ≤ g.erasesize) {loaded : Bbm}
    (ends : loadLoop g (s.bbCountData + s.bbCountRedirect) (savedMaps g s)
      g.redirBlocks 0 g.redirTop (freshMap g) = some (s.assignIndex, loaded))
    (same : ∀ block, block < g.blocks →
      loaded.nandBbmBitmap block = s.nandBbmBitmap block) :
    Restorable g s := by
  have top := g.redirTop_succ
  have cursorLe := map.inv.cursor_le
  have floorLe := map.floor_le
  obtain ⟨count, run⟩ :=
    loadLoop_run g.redirBlocks (by omega) (by omega) ends
  refine ⟨fits, ?_, ?_⟩
  · intro first second before low firstFlagged secondFlagged
    have processed : ∀ block, block < g.redirFloor → s.flagged block = true →
        ∃ j, j < count ∧ (savedMaps g s j).bbIndex = block := by
      intro block inData flagged
      have bad : isBad (loaded.nandBbmBitmap block) = true := by
        rw [same block (by omega)]
        exact flagged
      rcases run.flagged block (by omega) bad with fresh | ⟨j, -, below, bb⟩
      · rw [freshMap_not_bad (by omega)] at fresh
        exact absurd fresh (by simp)
      · exact ⟨j, by omega, bb⟩
    have relocOf : ∀ {j block}, 0 < block →
        (savedMaps g s j).bbIndex = block →
          (savedMaps g s j).relocIndex = s.target block := by
      intro j block positive bb
      by_cases inRange : j < (infoMaps g s).length
      · have member : savedMaps g s j ∈ infoMaps g s := by
          rw [savedMaps, List.getD_eq_getElem _ _ inRange]
          exact List.getElem_mem inRange
        rw [(infoMaps_lt map.inv.targetsInside member).2.2.2, bb]
      · rw [savedMaps, List.getD_eq_default _ _ (by omega)] at bb
        exact absurd bb (by simp; omega)
    have firstPositive : 0 < first := by
      apply Nat.pos_of_ne_zero
      rintro rfl
      rw [map.not_flagged_zero] at firstFlagged
      exact absurd firstFlagged (by simp)
    obtain ⟨j, jBelow, jBlock⟩ := processed first (by omega) firstFlagged
    obtain ⟨k, kBelow, kBlock⟩ := processed second low secondFlagged
    have order : j < k := by
      apply savedMaps_ascending map
      · rwa [jBlock]
      · rwa [kBlock]
      · rwa [jBlock, kBlock]
    have lower := run.descending j k (Nat.zero_le j) order (by omega)
    rwa [relocOf firstPositive jBlock, relocOf (by omega) kBlock] at lower
  · rcases run.last with ⟨atTop, -⟩ | ⟨below, redirect⟩
    · exact Or.inl atTop
    · right
      rw [same _ (by omega)] at redirect
      obtain ⟨block, found⟩ :=
        map.standIn_of_isRedirect (Nat.lt_succ_self _) below redirect
      exact ⟨block, (map.onlyData _ _ found).1.2,
        map.flagged_of_redirect found, (Bbm.redirect_eq_some_iff.mp found).2.1⟩

private theorem descending_dataMaps
    (map : DataMap g s given) (restorable : Restorable g s) :
    Descending g (dataMaps g s) g.redirTop := by
  have order := dataMaps_ascending g s
  have entry : ∀ {entry}, entry ∈ dataMaps g s →
      s.redirect g entry.bbIndex = some entry.relocIndex :=
    (mem_dataMaps map).mp
  refine ⟨?_, order.imp Nat.ne_of_lt, ?_, ?_⟩
  · apply order.imp_of_mem
    intro first second firstMember secondMember lower
    have firstFound := entry firstMember
    have secondFound := entry secondMember
    have target := restorable.descending _ _ lower
      (map.onlyData _ _ secondFound).1.2 (map.flagged_of_redirect firstFound)
      (map.flagged_of_redirect secondFound)
    rwa [(Bbm.redirect_eq_some_iff.mp firstFound).2.1,
      (Bbm.redirect_eq_some_iff.mp secondFound).2.1] at target
  · intro other member
    have found := entry member
    exact ⟨map.inv.pool.low_lt found, map.inv.pool.le_high found⟩
  · intro other member
    exact (map.onlyData _ _ (entry member)).1.2

private theorem finalIndex_dataMaps
    (map : DataMap g s given) (restorable : Restorable g s) :
    finalIndex (dataMaps g s) g.redirTop = s.assignIndex := by
  have descending := descending_dataMaps map restorable
  obtain ⟨-, -, lower⟩ :=
    finalIndex_spec descending (Nat.le_of_lt g.redirFloor_lt_redirTop)
  have above : ∀ entry ∈ dataMaps g s, s.assignIndex < entry.relocIndex :=
    fun entry member => map.inv.pool.cursor_lt ((mem_dataMaps map).mp member)
  have positive : ∀ entry ∈ dataMaps g s, 0 < entry.relocIndex := by
    intro entry member
    have := above entry member
    omega
  rcases finalIndex_last (dataMaps g s) positive with ⟨none, final⟩ | ⟨entry, member, last⟩
  · rcases restorable.noneBehind with atTop | ⟨block, low, flagged, target⟩
    · rw [final, atTop]
    · have floorLe := map.floor_le
      have found := map.redirect_of_flagged (by omega) flagged
      have member : (⟨block, s.target block⟩ : MapInfo) ∈ dataMaps g s :=
        (mem_dataMaps map).mpr found
      rw [none] at member
      exact absurd member (by simp)
  · have notAbove := above entry member
    rcases restorable.noneBehind with atTop | ⟨block, low, flagged, target⟩
    · have := (descending.reserve entry member).2
      omega
    · have floorLe := map.floor_le
      have found := map.redirect_of_flagged (by omega) flagged
      have behind := lower ⟨block, s.target block⟩ ((mem_dataMaps map).mpr found)
      simp only at behind
      omega

/-- A restorable map comes back. -/
private theorem loaded_of_restorable
    (map : DataMap g s given) (restorable : Restorable g s) :
    ∃ loaded,
      loadLoop g (s.bbCountData + s.bbCountRedirect) (savedMaps g s)
          g.redirBlocks 0 g.redirTop (freshMap g) =
        some (s.assignIndex, loaded) ∧
      (∀ block, block < g.blocks →
        loaded.nandBbmBitmap block = s.nandBbmBitmap block) ∧
      loaded.bbCountData = s.bbCountData ∧
      loaded.bbCountRedirect = s.bbCountRedirect := by
  have top := g.redirTop_succ
  have floor := g.redirFloor_lt_redirTop
  have total := g.redirFloor_add_redirBlocks
  have descending := descending_dataMaps map restorable
  have final := finalIndex_dataMaps map restorable
  have counted := map.counted
  have small := redirTop_lt_pow g
  have counts : s.bbCountData + s.bbCountRedirect < 2 ^ 32 := by omega
  have length := descending.length_le (Nat.le_of_lt floor)
  have fits := restorable.fits
  have split := infoMaps_split map
  have stored : ∀ j entry, (dataMaps g s)[j]? = some entry →
      savedMaps g s (0 + j) = entry := by
    intro j entry found
    have inRange := (List.getElem?_eq_some_iff.mp found).1
    rw [Nat.zero_add, savedMaps, List.getD_eq_getElem?_getD, split,
      List.getElem?_append_left inRange, found, Option.getD_some]
  rw [split, List.length_append] at fits
  obtain ⟨loaded, loop, spec⟩ :=
    @loadLoop_entries g (s.bbCountData + s.bbCountRedirect) (savedMaps g s)
      (dataMaps g s) g.redirBlocks 0 g.redirTop (freshMap g) (by omega)
      (Nat.le_of_lt floor) descending stored (by omega) (by omega) counts
      (by
        rw [final]
        change _ = 0 + 0 + g.redirTop
        omega)
  rw [final] at loop
  have data := spec.data
  have redirect := spec.counted
  rw [final] at redirect
  change _ = 0 + 0 + g.redirTop at redirect
  rw [dataMaps_length map, ← map.countedData] at data
  change _ = 0 + s.bbCountData at data
  refine ⟨loaded, loop, ?_, by omega, by omega⟩
  intro block inside
  by_cases below : block ≤ s.assignIndex
  · cases found : s.redirect g block with
    | some target =>
        rw [map.redirected block target found]
        exact spec.bb ⟨block, target⟩ ((mem_dataMaps map).mpr found)
    | none =>
        rw [map.untouched block below found, ← freshMap_entry inside]
        apply spec.other
        · intro entry member same
          have redirected := (mem_dataMaps map).mp member
          rw [same, found] at redirected
          exact absurd redirected (by simp)
        · rw [final]
          omega
  · by_cases claimed : ∃ other, s.redirect g other = some block
    · obtain ⟨other, found⟩ := claimed
      rw [map.standIn other block found, ← freshMap_entry inside]
      exact spec.reloc ⟨other, block⟩ ((mem_dataMaps map).mpr found)
    · rw [not_exists] at claimed
      rw [map.passedOver block (by omega) (by omega) claimed,
        spec.marked block (by rw [final]; omega) (by omega), badEntry,
        BitVec.or_comm]
      intro entry member same
      apply claimed entry.bbIndex
      rw [← same]
      exact (mem_dataMaps map).mp member

/-- The device after the data blocks of `calls` have failed one by one. -/
def afterFailures (g : Geometry) (start : Device) (calls : List AssignCall) :
    Device :=
  { start with bbm := afterCalls g (nandBbmInfoInit g start.bbm) calls }

private theorem roundTrips_iff_loaded
    {saving loading : ChipBehaviour} (saves : InfoBlockWorks g saving)
    (loads : InfoBlockWorks g loading) {d : Device}
    (map : DataMap g d.bbm given) :
    RoundTrips g saving loading d ↔ Restorable g d.bbm := by
  have counts : d.bbm.bbCountData + d.bbm.bbCountRedirect < 2 ^ 32 := by
    have counted := map.counted
    have small := redirTop_lt_pow g
    omega
  rw [roundTrips_iff saves loads map.inv map.not_flagged_zero counts,
    infoWords_length]
  constructor
  · rintro ⟨fits, loaded, loop, same, -⟩
    exact restorable_of_loaded map fits loop same
  · intro restorable
    exact ⟨restorable.fits, loaded_of_restorable map restorable⟩

/-- A map of data blocks survives the save, the power cycle and the load
exactly when it is restorable. -/
theorem mapPersistence_iff
    (g : Geometry) (saving loading : ChipBehaviour)
    (saves : InfoBlockWorks g saving) (loads : InfoBlockWorks g loading)
    (start : Device) (calls : List AssignCall) (data : DataCalls g calls) :
    RoundTrips g saving loading (afterFailures g start calls) ↔
      Restorable g (afterFailures g start calls).bbm := by
  obtain ⟨given, map⟩ :=
    dataMap_afterCalls (dataMap_init g start.bbm) data (by simp)
  exact roundTrips_iff_loaded saves loads map

/-- A failure of each of the blocks, while the reserve blocks are good. -/
def failuresOf (blocks : List Nat) : List AssignCall :=
  blocks.map fun block => ⟨nand128MiB.blockPos block, fun _ => false⟩

private theorem infoBlockWorks_sound :
    InfoBlockWorks nand128MiB ChipBehaviour.sound where
  good := rfl
  unprotected := rfl
  erases _ := rfl
  programs _ _ _ := rfl
  reads _ _ := rfl

private theorem dataCalls_upwards : DataCalls nand128MiB (failuresOf [5, 10]) where
  distinct := by decide
  data := by
    intro call member
    fin_cases member <;> exact ⟨by decide, by decide⟩

private theorem dataCalls_downwards :
    DataCalls nand128MiB (failuresOf [10, 5]) where
  distinct := by decide
  data := by
    intro call member
    fin_cases member <;> exact ⟨by decide, by decide⟩

theorem mapPersistence_iff_upwards :
    RoundTrips nand128MiB .sound .sound
        (afterFailures nand128MiB .powerOn (failuresOf [5, 10])) ↔
      Restorable nand128MiB
        (afterFailures nand128MiB .powerOn (failuresOf [5, 10])).bbm :=
  mapPersistence_iff nand128MiB .sound .sound infoBlockWorks_sound
    infoBlockWorks_sound .powerOn (failuresOf [5, 10]) dataCalls_upwards

/-- Block 10 fails before block 5: its redirect is lost. -/
theorem redirect_lost_downwards :
    ¬ RoundTrips nand128MiB .sound .sound
      (afterFailures nand128MiB .powerOn (failuresOf [10, 5])) := by
  obtain ⟨given, map⟩ :=
    dataMap_afterCalls (dataMap_init nand128MiB Device.powerOn.bbm)
      dataCalls_downwards (by simp)
  rw [roundTrips_iff_loaded infoBlockWorks_sound infoBlockWorks_sound map]
  intro restorable
  have lower := restorable.descending 5 10 (by decide) (by decide)
    (by decide +kernel) (by decide +kernel)
  exact absurd lower (by decide +kernel)

end Gp2Firmware.UBoot
