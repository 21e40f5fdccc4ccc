import Gp2Firmware.Jpeg.MemoryPool

/-!
# What the pool leaves alone

A call of `malloc` changes headers of the pool only, and the block that it hands out shares no
byte with the others.
-/

namespace Gp2Firmware.Jpeg.MemoryPool

open Gp2Firmware.Lib.WordMemory Gp2Firmware.Lib.BlockList

section Headers

variable {memory : Memory} {place : Nat} {value : U32} {byte : Address}

theorem setNext_outside (room : place + 8 ≤ 2 ^ 32)
    (outside : byte.toNat < place ∨ place + 8 ≤ byte.toNat) :
    setNext memory (at' place) value byte = memory byte := by
  rw [setNext, store, if_neg]
  rw [BitVec.toNat_sub, at'_toNat (by omega)]
  omega

theorem setLen_outside (room : place + 8 ≤ 2 ^ 32)
    (outside : byte.toNat < place ∨ place + 8 ≤ byte.toNat) :
    setLen memory (at' place) value byte = memory byte := by
  rw [setLen, store, if_neg]
  rw [BitVec.toNat_sub, BitVec.toNat_add, at'_toNat (by omega), show (4 : U32).toNat = 4 from rfl]
  omega

end Headers

section Frame

variable {site : Site} {s : State} {first second blocks : List Block} {block : Block}
  {size : U32} {q memp : Address} {memory : Memory}

/-- A live block as one of the blocks of the pool. -/
theorem Represents.exists_entry (represents : Represents site s blocks) (member : memp ∈ s.live) :
    ∃ entry ∈ placed 8 site.pool blocks, entry.2.free = false ∧ at' (entry.1 + 8) = memp ∧
      entry.1 + 8 + entry.2.len ≤ site.pool + site.size ∧ site.pool ≤ entry.1 ∧
      (memp - HLEN).toNat = entry.1 ∧ (len s.memory (memp - HLEN)).toNat = entry.2.len := by
  obtain ⟨place, isUsed, same⟩ := List.mem_map.mp (represents.live.mem_iff.mp member)
  obtain ⟨entry, filtered, rfl⟩ := List.mem_map.mp isUsed
  obtain ⟨here, used⟩ := List.mem_filter.mp filtered
  have inside := placed_inside here
  have tiles := represents.tiles
  have room := site.room
  have header : memp - HLEN = at' entry.1 := by
    rw [← same, ← at'_add_HLEN, BitVec.add_sub_cancel]
  refine ⟨entry, here, by simpa using used, same, by omega, inside.1, ?_, ?_⟩
  · rw [header, at'_toNat (by omega)]
  · rw [header]
    exact represents.laid.len_eq entry here

section Given

variable (member : memp ∈ s.live) {byte : Address}
  (inside : Covers s.memory (memp - HLEN) byte.toNat)

include member inside

theorem Represents.outside_free (represents : Represents site s (first ++ block :: second))
    (free : block.free = true) :
    byte.toNat < site.pool + extent 8 first ∨
      site.pool + extent 8 first + (8 + block.len) ≤ byte.toNat := by
  obtain ⟨entry, here, used, -, -, -, start, length⟩ := represents.exists_entry member
  have there : (site.pool + extent 8 first, block) ∈
      placed 8 site.pool (first ++ block :: second) := by
    rw [placed_append, placed]
    exact List.mem_append_right _ List.mem_cons_self
  have disjoint := placed_disjoint here there (by
    rintro rfl
    rw [free] at used
    cases used)
  rw [Covers, start, length] at inside
  dsimp only at disjoint
  omega

theorem Represents.outside_lastFree (represents : Represents site s (first ++ second)) :
    byte.toNat < lastFree 8 site.avail.toNat site.pool first ∨
      lastFree 8 site.avail.toNat site.pool first + 8 ≤ byte.toNat := by
  rcases @lastFree_cases 8 site.pool site.avail.toNat first with
    ⟨head, -⟩ | ⟨before, block, behind, rfl, free, -, last⟩
  · obtain ⟨entry, -, -, -, upTo, from_, start, length⟩ := represents.exists_entry member
    have apart := site.outside.apart
    rw [Covers, start, length] at inside
    rw [head]
    omega
  · rw [List.append_assoc, List.cons_append] at represents
    have outside := represents.outside_free member inside free
    rw [last]
    omega

theorem Represents.takeFrom_outside (represents : Represents site s (first ++ block :: second))
    (free : block.free = true) (enough : size.toNat ≤ block.len) :
    (MemoryPool.takeFrom size s.memory (at' (lastFree 8 site.avail.toNat site.pool first))
      (at' (site.pool + extent 8 first))).2 byte = s.memory byte := by
  have room := site.room
  have tiles := represents.tiles
  rw [extent_append, extent] at tiles
  obtain ⟨-, length, -, -⟩ := laid_append.mp represents.laid
  have block := represents.outside_free member inside free
  rw [takeFrom_eq length enough]
  split
  · have last := represents.outside_lastFree member inside
    have lastRoom := (@Site.last_outside site first (by omega)).room
    exact setNext_outside lastRoom last
  · dsimp only
    rw [setNext_outside, setLen_outside, setLen_outside]
    all_goals omega

/-- `malloc` leaves the bytes of the live blocks and their headers as they are. -/
theorem Represents.malloc_outside {blocks : List Block} (represents : Represents site s blocks)
    (ran : MemoryPool.malloc site.avail size s.memory = some (q, memory)) :
    memory byte = s.memory byte := by
  rw [represents.malloc_eq, Option.some.injEq] at ran
  cases found : firstFit size.toNat blocks with
  | none =>
      rw [found] at ran
      cases ran
      rfl
  | some fit =>
      obtain ⟨first, block, second⟩ := fit
      obtain ⟨rfl, free, enough⟩ := firstFit_some found
      rw [found] at ran
      have same := represents.takeFrom_outside member inside free enough
      dsimp only at ran
      rw [ran] at same
      exact same

end Given

theorem Represents.live_apart (represents : Represents site s blocks) {other : Address}
    (member : memp ∈ s.live) (otherMember : other ∈ s.live) (different : memp ≠ other)
    {place : Nat} (inside : Covers s.memory (memp - HLEN) place) :
    ¬ Covers s.memory (other - HLEN) place := by
  obtain ⟨entry, here, -, at_, -, -, start, length⟩ := represents.exists_entry member
  obtain ⟨otherEntry, there, -, otherAt, -, -, otherStart, otherLength⟩ :=
    represents.exists_entry otherMember
  have disjoint := placed_disjoint here there (by
    rintro rfl
    exact different (at_.symm.trans otherAt))
  rw [Covers, start, length] at inside
  rw [Covers, otherStart, otherLength]
  omega

theorem Represents.nodup (represents : Represents site s blocks) : s.live.Nodup := by
  have room := site.room
  have tiles := represents.tiles
  rw [represents.live.nodup_iff]
  have ascending : (usedAt 8 site.pool blocks).Pairwise (· < ·) := by
    rw [usedAt, List.pairwise_map]
    apply (placed_ascending.filter _).imp
    intro entry later ends
    omega
  have bound : ∀ place ∈ usedAt 8 site.pool blocks, place + 8 < 2 ^ 32 := by
    intro place member
    obtain ⟨entry, filtered, rfl⟩ := List.mem_map.mp member
    have inside := placed_inside (List.mem_filter.mp filtered).1
    omega
  apply List.Nodup.map_on ?_ (ascending.imp Nat.ne_of_lt)
  intro place member other otherMember same
  have numbers := congrArg BitVec.toNat same
  rw [at'_toNat (bound place member), at'_toNat (bound other otherMember)] at numbers
  omega

/-- No live block is without bytes just if none of the used ones is. -/
theorem Represents.bytes_iff (represents : Represents site s blocks) :
    (∀ q ∈ s.live, len s.memory (q - HLEN) ≠ 0) ↔
      ∀ block ∈ blocks, block.free = false → block.len ≠ 0 := by
  constructor
  · intro bytes block member used
    rw [← @placed_map_snd 8 site.pool blocks, List.mem_map] at member
    obtain ⟨entry, here, rfl⟩ := member
    have isUsed : entry.1 ∈ usedAt 8 site.pool blocks :=
      List.mem_map_of_mem (List.mem_filter.mpr ⟨here, by simp [used]⟩)
    have some := bytes (at' (entry.1 + 8)) (represents.live.mem_iff.mpr (List.mem_map_of_mem isUsed))
    rw [← at'_add_HLEN, BitVec.add_sub_cancel] at some
    rw [← represents.laid.len_eq entry here]
    intro zero
    exact some (BitVec.eq_of_toNat_eq zero)
  · intro solid q member zero
    obtain ⟨entry, here, used, -, -, -, -, length⟩ := represents.exists_entry member
    rw [zero] at length
    exact solid entry.2 (mem_of_mem_placed here) used length.symm

theorem Represents.len_eq_of_same {other : Memory} (represents : Represents site s blocks)
    (same : Represents site ⟨other, s.live⟩ blocks) (member : memp ∈ s.live) :
    len other (memp - HLEN) = len s.memory (memp - HLEN) := by
  obtain ⟨entry, here, -, at_, -, -, -, length⟩ := represents.exists_entry member
  have header : memp - HLEN = at' entry.1 := by
    rw [← at_, ← at'_add_HLEN, BitVec.add_sub_cancel]
  apply BitVec.eq_of_toNat_eq
  rw [length, header]
  exact same.laid.len_eq entry here

theorem Represents.data_room (represents : Represents site s blocks) (member : memp ∈ s.live) :
    memp.toNat = (memp - HLEN).toNat + 8 ∧
      (memp - HLEN).toNat + 8 + (len s.memory (memp - HLEN)).toNat < 2 ^ 32 := by
  obtain ⟨entry, -, -, at_, upTo, -, start, length⟩ := represents.exists_entry member
  have room := site.room
  have place : memp.toNat = entry.1 + 8 := by
    rw [← at_, at'_toNat (by omega)]
  omega

theorem Represents.within_outside (represents : Represents site s blocks)
    {changed : Memory} (member : memp ∈ s.live)
    (only : ∀ byte, (len s.memory (memp - HLEN)).toNat ≤ (byte - memp).toNat →
      changed byte = s.memory byte)
    {other : Address} (otherMember : other ∈ s.live) (different : other ≠ memp) {byte : Address}
    (inside : Covers s.memory (other - HLEN) byte.toNat) : changed byte = s.memory byte := by
  apply only
  have apart := represents.live_apart otherMember member different inside
  obtain ⟨place, room⟩ := represents.data_room member
  rw [Covers] at apart
  rw [BitVec.toNat_sub, place]
  omega

end Frame

section SameBlocks

/-- Some blocks have the same bytes and headers in two memories. -/
def SameBlocks (old : List Address) (memory changed : Memory) : Prop :=
  ∀ q ∈ old, ∀ byte : Address, Covers memory (q - HLEN) byte.toNat → changed byte = memory byte

variable {site : Site} {s : State} {blocks : List Block} {old : List Address}
  {changed last : Memory} {q : Address} (represents : Represents site s blocks)
  (live : ∀ q ∈ old, q ∈ s.live) (same : SameBlocks old s.memory changed)

include represents live same

theorem SameBlocks.len_eq (member : q ∈ old) :
    len changed (q - HLEN) = len s.memory (q - HLEN) := by
  obtain ⟨-, room⟩ := represents.data_room (live q member)
  apply load_congr
  intro byte near
  apply same q member
  rw [BitVec.toNat_sub, BitVec.toNat_add, show (4 : U32).toNat = 4 from rfl] at near
  rw [Covers]
  omega

theorem SameBlocks.load_eq (member : q ∈ old) (enough : 4 ≤ (len s.memory (q - HLEN)).toNat) :
    load changed q = load s.memory q := by
  obtain ⟨place, room⟩ := represents.data_room (live q member)
  apply load_congr
  intro byte near
  apply same q member
  rw [BitVec.toNat_sub, place] at near
  rw [Covers]
  omega

theorem SameBlocks.trans (behind : SameBlocks old changed last) :
    SameBlocks old s.memory last := by
  intro q member byte inside
  have first := same q member byte inside
  rw [Covers, ← same.len_eq represents live member] at inside
  rw [behind q member byte inside, first]

end SameBlocks

end Gp2Firmware.Jpeg.MemoryPool
