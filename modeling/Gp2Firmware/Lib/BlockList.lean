import Mathlib.Data.List.Chain
import Mathlib.Data.List.Perm.Basic
import Mathlib.Tactic.Common

/-!
# A range tiled by blocks

A range of addresses is cut into blocks one after the other, each behind a
header of a fixed size.  A block is free or used.  `placed` gives each block
its address; `freeAt` and `usedAt` are the addresses of the free and of the
used blocks, and `Separated` says that no two free blocks are neighbours.
-/

namespace Gp2Firmware.Lib.BlockList

/-- A block: the bytes behind its header, and whether it is free. -/
structure Block where
  len : Nat
  free : Bool
  deriving DecidableEq, Repr

variable (header : Nat)

/-- The bytes that blocks take up with their headers. -/
def extent : List Block → Nat
  | [] => 0
  | block :: rest => header + block.len + extent rest

/-- The blocks with their addresses, the first one at a given address. -/
def placed : Nat → List Block → List (Nat × Block)
  | _, [] => []
  | address, block :: rest =>
      (address, block) :: placed (address + (header + block.len)) rest

def freeAt (address : Nat) (blocks : List Block) : List Nat :=
  ((placed header address blocks).filter fun entry => entry.2.free).map Prod.fst

def usedAt (address : Nat) (blocks : List Block) : List Nat :=
  ((placed header address blocks).filter fun entry => !entry.2.free).map Prod.fst

/-- The address of the last free block, or a given one if no block is free. -/
def lastFree : Nat → Nat → List Block → Nat
  | before, _, [] => before
  | before, address, block :: rest =>
      lastFree (if block.free then address else before)
        (address + (header + block.len)) rest

/-- The first free block of a size at least, between the blocks around it. -/
def firstFit (size : Nat) : List Block → Option (List Block × Block × List Block)
  | [] => none
  | block :: rest =>
      if block.free ∧ size ≤ block.len then some ([], block, rest)
      else (firstFit size rest).map fun fit => (block :: fit.1, fit.2)

/-- A block that becomes free, joined with the block behind it if that is free, and
the blocks left behind it. -/
def joinBehind (len : Nat) : List Block → Block × List Block
  | [] => (⟨len, true⟩, [])
  | next :: rest =>
      if next.free then (⟨len + (header + next.len), true⟩, rest)
      else (⟨len, true⟩, next :: rest)

/-- No two free blocks are neighbours. -/
def Separated (blocks : List Block) : Prop :=
  blocks.IsChain fun first second => ¬ (first.free ∧ second.free)

variable {header} {address before size : Nat} {block : Block}
  {first second blocks : List Block}

section Append

@[simp]
theorem extent_append :
    extent header (first ++ second) = extent header first + extent header second := by
  induction first with
  | nil => simp [extent]
  | cons block rest inductionHypothesis => simp [extent, inductionHypothesis, Nat.add_assoc]

theorem placed_append :
    placed header address (first ++ second) =
      placed header address first ++
        placed header (address + extent header first) second := by
  induction first generalizing address with
  | nil => simp [placed, extent]
  | cons block rest inductionHypothesis =>
      simp [placed, extent, inductionHypothesis, Nat.add_assoc]

theorem freeAt_append :
    freeAt header address (first ++ second) =
      freeAt header address first ++
        freeAt header (address + extent header first) second := by
  simp [freeAt, placed_append]

theorem usedAt_append :
    usedAt header address (first ++ second) =
      usedAt header address first ++
        usedAt header (address + extent header first) second := by
  simp [usedAt, placed_append]

theorem lastFree_append :
    lastFree header before address (first ++ second) =
      lastFree header (lastFree header before address first)
        (address + extent header first) second := by
  induction first generalizing before address with
  | nil => simp [lastFree, extent]
  | cons block rest inductionHypothesis =>
      simp [lastFree, extent, inductionHypothesis, Nat.add_assoc]

theorem freeAt_cons :
    freeAt header address (block :: blocks) =
      if block.free then address :: freeAt header (address + (header + block.len)) blocks
      else freeAt header (address + (header + block.len)) blocks := by
  cases free : block.free <;> simp [freeAt, placed, free]

theorem usedAt_cons :
    usedAt header address (block :: blocks) =
      if block.free then usedAt header (address + (header + block.len)) blocks
      else address :: usedAt header (address + (header + block.len)) blocks := by
  cases free : block.free <;> simp [usedAt, placed, free]

end Append

section Places

/-- Every block lies in the range that all of them take up. -/
theorem placed_inside {entry : Nat × Block}
    (member : entry ∈ placed header address blocks) :
    address ≤ entry.1 ∧
      entry.1 + (header + entry.2.len) ≤ address + extent header blocks := by
  induction blocks generalizing address with
  | nil => simp [placed] at member
  | cons block rest inductionHypothesis =>
      rw [placed, List.mem_cons] at member
      rw [extent]
      rcases member with same | later
      · subst same
        simp only
        omega
      · have inside := inductionHypothesis later
        omega

@[simp]
theorem placed_map_snd : (placed header address blocks).map Prod.snd = blocks := by
  induction blocks generalizing address with
  | nil => rfl
  | cons block rest inductionHypothesis => simp [placed, inductionHypothesis]

theorem mem_of_mem_placed {entry : Nat × Block}
    (member : entry ∈ placed header address blocks) : entry.2 ∈ blocks := by
  induction blocks generalizing address with
  | nil => simp [placed] at member
  | cons block rest inductionHypothesis =>
      rcases List.mem_cons.mp member with rfl | later
      · exact List.mem_cons_self
      · exact List.mem_cons_of_mem _ (inductionHypothesis later)

/-- Each block ends where a later one starts, or before it. -/
theorem placed_ascending :
    (placed header address blocks).Pairwise fun entry later =>
      entry.1 + (header + entry.2.len) ≤ later.1 := by
  induction blocks generalizing address with
  | nil => exact List.Pairwise.nil
  | cons block rest inductionHypothesis =>
      apply List.Pairwise.cons _ inductionHypothesis
      intro later member
      exact (placed_inside member).1

/-- Two blocks do not share a place. -/
theorem placed_disjoint {entry other : Nat × Block}
    (member : entry ∈ placed header address blocks)
    (otherMember : other ∈ placed header address blocks) (different : entry ≠ other) :
    entry.1 + (header + entry.2.len) ≤ other.1 ∨ other.1 + (header + other.2.len) ≤ entry.1 := by
  induction blocks generalizing address with
  | nil => simp [placed] at member
  | cons block rest inductionHypothesis =>
      rw [placed, List.mem_cons] at member otherMember
      rcases member with rfl | later
      · rcases otherMember with rfl | otherLater
        · exact absurd rfl different
        · exact .inl (placed_inside otherLater).1
      · rcases otherMember with rfl | otherLater
        · exact .inr (placed_inside later).1
        · exact inductionHypothesis later otherLater

/-- The blocks cover the range. -/
theorem placed_covers {place : Nat} (above : address ≤ place)
    (below : place < address + extent header blocks) :
    ∃ entry ∈ placed header address blocks,
      entry.1 ≤ place ∧ place < entry.1 + (header + entry.2.len) := by
  induction blocks generalizing address with
  | nil => simp [extent] at below; omega
  | cons block rest inductionHypothesis =>
      rw [extent] at below
      rcases Nat.lt_or_ge place (address + (header + block.len)) with inside | behind
      · exact ⟨(address, block), List.mem_cons_self, above, inside⟩
      · obtain ⟨entry, member, covers⟩ := inductionHypothesis behind (by omega)
        exact ⟨entry, List.mem_cons_of_mem _ member, covers⟩

/-- The free and the used blocks are all blocks. -/
theorem freeAt_append_usedAt_perm :
    (freeAt header address blocks ++ usedAt header address blocks).Perm
      ((placed header address blocks).map Prod.fst) := by
  rw [freeAt, usedAt, ← List.map_append]
  exact (List.filter_append_perm _ _).map _

theorem length_freeAt_le : (freeAt header address blocks).length ≤ blocks.length := by
  induction blocks generalizing address with
  | nil => simp [freeAt, placed]
  | cons block rest inductionHypothesis =>
      have shorter := @inductionHypothesis (address + (header + block.len))
      rw [freeAt_cons]
      split
      · simpa using shorter
      · exact Nat.le_succ_of_le shorter

theorem freeAt_eq_nil :
    freeAt header address blocks = [] ↔ ∀ block ∈ blocks, block.free = false := by
  induction blocks generalizing address with
  | nil => simp [freeAt, placed]
  | cons block rest inductionHypothesis =>
      cases free : block.free <;> simp [freeAt_cons, free, inductionHypothesis]

theorem usedAt_eq_nil :
    usedAt header address blocks = [] ↔ ∀ block ∈ blocks, block.free = true := by
  induction blocks generalizing address with
  | nil => simp [usedAt, placed]
  | cons block rest inductionHypothesis =>
      cases free : block.free <;> simp [usedAt_cons, free, inductionHypothesis]

theorem freeAt_ascending (room : 0 < header) :
    (freeAt header address blocks).Pairwise (· < ·) := by
  rw [freeAt, List.pairwise_map]
  apply (placed_ascending.filter _).imp
  intro entry later ends
  omega

/-- A used block stands between the blocks before and behind it. -/
theorem exists_of_mem_usedAt {place : Nat}
    (member : place ∈ usedAt header address blocks) :
    ∃ first block second, blocks = first ++ block :: second ∧ block.free = false ∧
      place = address + extent header first := by
  induction blocks generalizing address with
  | nil => simp [usedAt, placed] at member
  | cons block rest inductionHypothesis =>
      rw [usedAt_cons] at member
      by_cases here : block.free = false ∧ place = address
      · exact ⟨[], block, rest, rfl, here.1, here.2⟩
      · have later : place ∈ usedAt header (address + (header + block.len)) rest := by
          cases free : block.free <;> simp_all
        obtain ⟨first, found, second, split, used, at_⟩ := inductionHypothesis later
        refine ⟨block :: first, found, second, by rw [split, List.cons_append], used, ?_⟩
        rw [at_, extent]
        omega

end Places

section LastFree

/-- The last free block is the given one if there is none, or a block with
only used ones behind it. -/
theorem lastFree_cases :
    (lastFree header before address blocks = before ∧ freeAt header address blocks = []) ∨
      ∃ first block second, blocks = first ++ block :: second ∧ block.free = true ∧
        (∀ later ∈ second, later.free = false) ∧
        lastFree header before address blocks = address + extent header first := by
  induction blocks using List.reverseRecOn with
  | nil => exact Or.inl ⟨rfl, rfl⟩
  | append_singleton init block inductionHypothesis =>
      rw [lastFree_append, freeAt_append]
      cases free : block.free with
      | true =>
          refine Or.inr ⟨init, block, [], rfl, free, by simp, ?_⟩
          simp [lastFree, free]
      | false =>
          rcases inductionHypothesis with ⟨last, none⟩ | ⟨first, found, second, split, isFree,
            behind, last⟩
          · left
            exact ⟨by simp [lastFree, free, last], by rw [none, freeAt_cons]; simp [free, freeAt, placed]⟩
          · right
            refine ⟨first, found, second ++ [block], by simp [split], isFree, ?_, ?_⟩
            · intro later member
              rcases List.mem_append.mp member with inside | lastOne
              · exact behind later inside
              · rwa [List.mem_singleton.mp lastOne]
            · simp [lastFree, free, last]

end LastFree

section Separated

/-- Where a block is used, the blocks before it and behind it do not meet. -/
theorem separated_around (used : block.free = false) :
    Separated (first ++ block :: second) ↔ Separated first ∧ Separated second := by
  unfold Separated
  rw [List.isChain_append, List.isChain_cons]
  simp [used]

/-- A free block stands between used ones. -/
theorem separated_around_free (free : block.free = true) :
    Separated (first ++ block :: second) ↔
      Separated first ∧ Separated second ∧
        (∀ last ∈ first.getLast?, last.free = false) ∧
        ∀ next ∈ second.head?, next.free = false := by
  unfold Separated
  rw [List.isChain_append, List.isChain_cons]
  simp [free]
  tauto

/-- Free blocks alone are one block at most. -/
theorem Separated.length_le_one (separated : Separated blocks)
    (allFree : ∀ block ∈ blocks, block.free = true) : blocks.length ≤ 1 := by
  cases blocks with
  | nil => simp
  | cons block rest =>
      cases rest with
      | nil => simp
      | cons next rest =>
          have notBoth := (List.isChain_cons.mp separated).1 next (by simp)
          exact absurd ⟨allFree block (by simp), allFree next (by simp)⟩ notBoth

/-- No free block ends where another one starts. -/
theorem placed_apart (room : 0 < header) (separated : Separated blocks)
    {entry other : Nat × Block} (member : entry ∈ placed header address blocks)
    (otherMember : other ∈ placed header address blocks)
    (free : entry.2.free = true) (otherFree : other.2.free = true) :
    entry.1 + (header + entry.2.len) ≠ other.1 := by
  induction blocks generalizing address with
  | nil => simp [placed] at member
  | cons block rest inductionHypothesis =>
      rw [placed, List.mem_cons] at member otherMember
      have behind := (List.isChain_cons.mp separated).2
      rcases member with rfl | later
      · rcases otherMember with rfl | otherLater
        · simp only
          omega
        · -- only the first of the blocks behind it starts there, and that is used
          cases rest with
          | nil => simp [placed] at otherLater
          | cons next rest =>
              rw [placed, List.mem_cons] at otherLater
              rcases otherLater with rfl | beyond
              · have used := (List.isChain_cons.mp separated).1 next (by simp)
                exact absurd ⟨free, otherFree⟩ used
              · have within := placed_inside beyond
                simp only
                omega
      · rcases otherMember with rfl | otherLater
        · have within := placed_inside later
          simp only
          omega
        · exact inductionHypothesis behind later otherLater

end Separated

section JoinBehind

variable {len : Nat}

theorem joinBehind_free : (joinBehind header len blocks).1.free = true := by
  cases blocks with
  | nil => simp [joinBehind]
  | cons next rest => cases free : next.free <;> simp [joinBehind, free]

theorem extent_joinBehind :
    header + (joinBehind header len blocks).1.len + extent header (joinBehind header len blocks).2 =
      header + len + extent header blocks := by
  cases blocks with
  | nil => simp [joinBehind]
  | cons next rest =>
      cases free : next.free <;> simp [joinBehind, free, extent]
      omega

theorem usedAt_joinBehind :
    usedAt header (address + (header + (joinBehind header len blocks).1.len))
        (joinBehind header len blocks).2 =
      usedAt header (address + (header + len)) blocks := by
  cases blocks with
  | nil => simp [joinBehind, usedAt, placed]
  | cons next rest =>
      cases free : next.free with
      | false => simp [joinBehind, free]
      | true => simp [joinBehind, free, usedAt_cons, Nat.add_assoc]

/-- No free block is left behind the joined one. -/
theorem separated_joinBehind (separated : Separated blocks) :
    Separated (joinBehind header len blocks).2 ∧
      ∀ next ∈ (joinBehind header len blocks).2.head?, next.free = false := by
  cases blocks with
  | nil => exact ⟨separated, by simp [joinBehind]⟩
  | cons next rest =>
      cases free : next.free with
      | false => simp [joinBehind, free, separated]
      | true =>
          have around := (@separated_around_free next [] rest free).mp separated
          simpa [joinBehind, free] using ⟨around.2.1, around.2.2.2⟩

theorem mem_of_mem_joinBehind :
    ∀ left ∈ (joinBehind header len blocks).2, left ∈ blocks := by
  cases blocks with
  | nil => simp [joinBehind]
  | cons next rest =>
      intro left member
      rw [joinBehind] at member
      split at member
      · exact List.mem_cons_of_mem next member
      · exact member

/-- A used block is one of those around a free one. -/
theorem mem_around_of_used (free : block.free = true) {kept : List Block}
    (within : ∀ left ∈ second, left ∈ kept) :
    ∀ left ∈ first ++ block :: second, left.free = false → left ∈ first ++ kept := by
  intro left member used
  rcases List.mem_append.mp member with before | behind
  · exact List.mem_append_left kept before
  · rcases List.mem_cons.mp behind with rfl | later
    · rw [free] at used
      cases used
    · exact List.mem_append_right first (within left later)

end JoinBehind

section FirstFit

theorem firstFit_some {fit : List Block × Block × List Block}
    (found : firstFit size blocks = some fit) :
    blocks = fit.1 ++ fit.2.1 :: fit.2.2 ∧ fit.2.1.free = true ∧ size ≤ fit.2.1.len := by
  induction blocks generalizing fit with
  | nil => simp [firstFit] at found
  | cons block rest inductionHypothesis =>
      rw [firstFit] at found
      split at found
      · rename_i fits
        cases found
        exact ⟨by simp, fits.1, fits.2⟩
      · rw [Option.map_eq_some_iff] at found
        obtain ⟨later, foundLater, same⟩ := found
        subst same
        obtain ⟨split, free, enough⟩ := inductionHypothesis foundLater
        exact ⟨by simp [split], free, enough⟩

theorem firstFit_none (found : firstFit size blocks = none) :
    ∀ block ∈ blocks, block.free = true → block.len < size := by
  induction blocks with
  | nil => simp
  | cons block rest inductionHypothesis =>
      rw [firstFit] at found
      split at found
      · cases found
      · rename_i tooSmall
        rw [Option.map_eq_none_iff] at found
        intro other member free
        rcases List.mem_cons.mp member with same | later
        · subst same
          exact Nat.lt_of_not_le fun enough => tooSmall ⟨free, enough⟩
        · exact inductionHypothesis found other later free

end FirstFit

end Gp2Firmware.Lib.BlockList
