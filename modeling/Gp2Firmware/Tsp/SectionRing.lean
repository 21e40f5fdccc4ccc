import Gp2Firmware.Lib.RingMemory
import Gp2Firmware.Lib.Run
import Gp2Firmware.Tsp.Filter

/-!
# The ring of a filter

The buffer of a filter with the memory behind it.  `FinishFlt` wraps the cursor
behind the new header, `RevertFlt` and `ResetFlt` do not; and `FinishFlt` looks for
room only where the write pointer is below `BufRead`.
-/

namespace Gp2Firmware.Tsp

open Lib

/-! ### The ring and its memory -/

/-- A delivered record: the address of its header, and its size. -/
structure Slot where
  start : Nat
  size : Nat
  deriving DecidableEq

/-- The buffer of a filter, with the records that the host has not read. -/
structure SectionRing where
  bufStart : Nat
  bufEnd : Nat
  bufRead : Nat
  bufWrite : Nat
  bufCur : Nat
  bufPtr : Nat
  memory : Memory
  unread : List Slot

/-- A sum of `U32` -/
def u32 (sum : Nat) : Nat := sum % 2 ^ 32

namespace SectionRing

/-- The addresses of the buffer. -/
def bounds (r : SectionRing) : RingBounds := ⟨r.bufStart, r.bufEnd⟩

/-- `MEM32(_u32BufPtr)` -/
def size (r : SectionRing) : U32 := r.memory.word r.bufPtr

/-- `_UpdateWritePtr` -/
def updateWritePtr (r : SectionRing) : SectionRing := { r with bufWrite := r.bufCur }

/-- `RevertFlt` -/
def revertFlt (r : SectionRing) : SectionRing :=
  { r with
    bufCur := u32 (r.bufPtr + 4)
    bufWrite := u32 (r.bufPtr + 4)
    memory := r.memory.storeWord r.bufPtr 0 }

/-- The new write pointer of `FinishFlt`. -/
def finishWrite (r : SectionRing) : Nat :=
  let next := u32 (r.bufPtr + 4 + r.size.toNat)
  if r.bufEnd ≤ next then next - (r.bufEnd - r.bufStart) else next

/-- The new header address of `FinishFlt`. -/
def finishPtr (r : SectionRing) : Nat :=
  let ptr := u32 (r.finishWrite + 3) / 4 * 4
  if r.bufEnd ≤ ptr then r.bufStart else ptr

/-- `FinishFlt` finds no room for the next header. -/
def Full (r : SectionRing) : Prop :=
  r.finishWrite < r.bufRead ∧ r.bufRead < u32 (r.finishWrite + 8)

instance (r : SectionRing) : Decidable r.Full :=
  inferInstanceAs (Decidable (_ ∧ _))

/-- The record is handed to the host. -/
def deliver (r : SectionRing) : SectionRing :=
  { r with
    bufWrite := r.finishWrite
    bufPtr := r.finishPtr
    bufCur :=
      if r.bufEnd ≤ u32 (r.finishPtr + 4) then r.bufStart else u32 (r.finishPtr + 4)
    memory := r.memory.storeWord r.finishPtr 0
    unread := r.unread ++ [⟨r.bufPtr, r.size.toNat⟩] }

/-- `FinishFlt` -/
def finishFlt (r : SectionRing) : SectionRing :=
  if 0 < r.size then if r.Full then r.revertFlt else r.deliver else r.revertFlt

/-- `ResetFlt` -/
def resetFlt (r : SectionRing) : SectionRing :=
  { r with
    bufRead := r.bufStart
    bufWrite := r.bufStart
    bufPtr := r.bufStart
    bufCur := u32 (r.bufStart + 4)
    memory := r.memory.storeWord r.bufStart 0
    unread := [] }

/-- The DMA stores some bytes. -/
def dmaCopy (r : SectionRing) (bytes : List U8) : SectionRing :=
  let stored := r.memory.storeAround r.bounds r.bufCur bytes
  { r with memory := stored.1, bufCur := stored.2 }

/-- A DMA that went well is counted. -/
def dmaTaken (r : SectionRing) (bytes : List U8) : SectionRing :=
  let copied := r.dmaCopy bytes
  { copied with
    memory := copied.memory.storeWord r.bufPtr
      (copied.size + BitVec.ofNat 32 bytes.length) }

/-- The host has read some records and moves `BufRead` behind them. -/
def hostRead (r : SectionRing) (count : Nat) : SectionRing :=
  { r with
    bufRead := ((r.unread.drop count).head?.map Slot.start).getD r.bufPtr
    unread := r.unread.drop count }

/-- The number of bytes that a DMA can store below `BufRead`. -/
def free (r : SectionRing) : Nat :=
  if r.bufCur ≤ r.bufRead then r.bufRead - r.bufCur
  else r.bufRead + (r.bufEnd - r.bufStart) - r.bufCur

end SectionRing

/-- What happens to a ring.  A DMA that overflows or overruns may have stored some
bytes. -/
inductive RingEvent where
  | dma (bytes : List U8)
  | dmaFailed (bytes : List U8)
  | updateWritePtr
  | finish
  | revert
  | reset
  | host (count : Nat)

/-- The bytes that a DMA stores. -/
def RingEvent.dmaBytes : RingEvent → Option (List U8)
  | .dma bytes => some bytes
  | .dmaFailed bytes => some bytes
  | _ => none

namespace SectionRing

/-- One event. -/
def apply (r : SectionRing) : RingEvent → SectionRing
  | .dma bytes => r.dmaTaken bytes
  | .dmaFailed bytes => (r.dmaCopy bytes).revertFlt
  | .updateWritePtr => r.updateWritePtr
  | .finish => r.finishFlt
  | .revert => r.revertFlt
  | .reset => r.resetFlt
  | .host count => r.hostRead count

/-- One event, whose stores are noted. -/
def step (r : SectionRing) (event : RingEvent) : SectionRing :=
  apply { r with memory := r.memory.unnoted } event

/-! ### What holds of a ring -/

/-- The header behind a record: its word and that many bytes, wrapped, and up to
the next multiple of four. -/
def nextHeader (r : SectionRing) (start : Nat) : Nat :=
  r.bounds.wrap
    ((r.bounds.wrap (start + 4 + (r.memory.word start).toNat) + 3) / 4 * 4)

/-- Walking over records from header to header ends at `_u32BufPtr`. -/
def Walks (r : SectionRing) : Nat → List Slot → Prop
  | start, [] => start = r.bufPtr
  | start, slot :: slots =>
      slot.start = start ∧ (r.memory.word start).toNat = slot.size ∧
        Walks r (r.nextHeader start) slots

/-- An address of a record. -/
def InSlot (r : SectionRing) (slot : Slot) (address : Nat) : Prop :=
  ∃ distance, distance < 4 + slot.size ∧
    address = r.bounds.place slot.start distance

/-- The header address lies in the ring, and is where the records end. -/
structure Holds (r : SectionRing) : Prop where
  aligned : r.bufPtr % 4 = 0
  inside : r.bounds.Holds r.bufPtr
  walks : Walks r r.bufRead r.unread

/-- What the ring promises about an event: a DMA starts inside, no store touches a
record that the host has not read, and the ring is as it should be. -/
structure StepHolds (r : SectionRing) (event : RingEvent) : Prop where
  cursor : event.dmaBytes ≠ none → r.bounds.Holds r.bufCur
  untouched : ∀ address ∈ (r.step event).memory.stores, ∀ slot ∈ (r.step event).unread,
    ¬ (r.step event).InSlot slot address
  holds : (r.step event).Holds

/-- The DMA reports an overflow instead of storing up to `BufRead`. -/
def DmaObeys (r : SectionRing) (event : RingEvent) : Prop :=
  ∀ bytes ∈ event.dmaBytes, bytes ≠ [] → bytes.length < r.free

/-! ### The condition -/

/-- The header is not the last word of the buffer. -/
def HasCursor (r : SectionRing) : Prop := r.bufPtr + 4 < r.bufEnd

instance (r : SectionRing) : Decidable r.HasCursor :=
  inferInstanceAs (Decidable (_ < _))

/-- No record is given up whose header is the last word, and no record ends in the
last three bytes while `BufRead` is at the start. -/
def Safe (r : SectionRing) : RingEvent → Prop
  | .dmaFailed _ => r.HasCursor
  | .revert => r.HasCursor
  | .finish =>
      if 0 < r.size ∧ ¬ r.Full then
        ¬ (r.bufRead = r.bufStart ∧ r.bufEnd < r.finishWrite + 4)
      else r.HasCursor
  | _ => True

instance (r : SectionRing) : (event : RingEvent) → Decidable (r.DmaObeys event)
  | .dma bytes => decidable_of_iff (bytes ≠ [] → bytes.length < r.free)
      ⟨fun obeys _ same => Option.some.inj same ▸ obeys, fun obeys => obeys bytes rfl⟩
  | .dmaFailed bytes => decidable_of_iff (bytes ≠ [] → bytes.length < r.free)
      ⟨fun obeys _ same => Option.some.inj same ▸ obeys, fun obeys => obeys bytes rfl⟩
  | .updateWritePtr | .finish | .revert | .reset | .host _ =>
      .isTrue (fun _ none => nomatch none)

instance (r : SectionRing) : (event : RingEvent) → Decidable (r.Safe event)
  | .dmaFailed _ | .revert => inferInstanceAs (Decidable r.HasCursor)
  | .finish => inferInstanceAs (Decidable (ite _ _ _))
  | .dma _ | .updateWritePtr | .reset | .host _ => .isTrue trivial

end SectionRing

/-! ### Records in a row -/

/-- The bytes from a header to the next one. -/
def Slot.span (slot : Slot) : Nat := 4 + (slot.size + 3) / 4 * 4

/-- Records lie one behind the other, from a distance behind the base up to
another. -/
def Chain (b : RingBounds) (m : Memory) (base : Nat) : Nat → List Slot → Nat → Prop
  | distance, [], used => distance = used
  | distance, slot :: slots, used =>
      slot.start = b.place base distance ∧ (m.word slot.start).toNat = slot.size ∧
        Chain b m base (distance + slot.span) slots used

/-- The addresses from a distance behind the base on. -/
def Behind (b : RingBounds) (base used address : Nat) : Prop :=
  ∃ distance, used ≤ distance ∧ distance < b.size ∧ address = b.place base distance

/-- A ring of whole words with a base among them. -/
structure WordRing (b : RingBounds) (base : Nat) : Prop where
  first_aligned : b.first % 4 = 0
  limit_aligned : b.limit % 4 = 0
  long : b.first + 8 ≤ b.limit
  low : b.limit + (b.limit - b.first) ≤ 2 ^ 32
  base_aligned : base % 4 = 0
  inside : b.Holds base

section Chains

variable {b : RingBounds} {m later : Memory} {base distance used : Nat}
  {slots : List Slot} {slot : Slot}

/-- A word does not wrap. -/
theorem WordRing.place_add (ring : WordRing b base) (aligned : distance % 4 = 0)
    {i : Nat} (small : i < 4) :
    b.place base distance + i = b.place base (distance + i) := by
  have limit := ring.limit_aligned
  have first := ring.first_aligned
  have here := ring.base_aligned
  rw [RingBounds.place, RingBounds.place, RingBounds.wrap, RingBounds.wrap,
    RingBounds.size]
  split
  · split
    · omega
    · omega
  · split
    · omega
    · omega

theorem WordRing.place_aligned (ring : WordRing b base)
    (aligned : distance % 4 = 0) : b.place base distance % 4 = 0 := by
  have limit := ring.limit_aligned
  have first := ring.first_aligned
  have here := ring.base_aligned
  have inside := ring.inside.2
  rw [RingBounds.place, RingBounds.wrap, RingBounds.size]
  split
  · omega
  · omega

theorem WordRing.moved (ring : WordRing b base) (aligned : distance % 4 = 0)
    (near : distance ≤ b.size) : WordRing b (b.place base distance) :=
  ⟨ring.first_aligned, ring.limit_aligned, ring.long, ring.low,
    ring.place_aligned aligned, RingBounds.holds_place ring.inside near⟩

/-- The stores to the word at a distance lie behind it. -/
theorem WordRing.behind_of_word (ring : WordRing b base) (aligned : distance % 4 = 0)
    (room : distance + 4 ≤ b.size) (far : used ≤ distance) {address : Nat}
    (inWord : b.place base distance ≤ address ∧
      address < b.place base distance + 4) : Behind b base used address := by
  refine ⟨distance + (address - b.place base distance), by omega, by omega, ?_⟩
  rw [← ring.place_add aligned (by omega)]
  omega

/-- Stores behind a word leave it as it is. -/
theorem WordRing.word_within (ring : WordRing b base) (aligned : distance % 4 = 0)
    (near' : distance + 4 ≤ b.size) (far : distance + 4 ≤ used)
    (within : Memory.Within (Behind b base used) m later) :
    later.word (b.place base distance) = m.word (b.place base distance) := by
  apply Memory.word_congr
  intro a low high
  apply within.bytes_eq
  intro there
  obtain ⟨y, behind, near, place⟩ := there
  have small : a - b.place base distance < 4 := by omega
  have here := ring.place_add aligned small
  rw [Nat.add_sub_of_le low, place] at here
  have same := RingBounds.place_injective ring.inside near
    (Nat.lt_of_lt_of_le (by omega) near') here
  omega

/-- Rounding up goes on with the ring. -/
theorem WordRing.place_roundUp (ring : WordRing b base) (near : distance < b.size) :
    b.wrap ((b.place base distance + 3) / 4 * 4) =
      b.place base ((distance + 3) / 4 * 4) := by
  have limit := ring.limit_aligned
  have first := ring.first_aligned
  have here := ring.base_aligned
  have inside := ring.inside.2
  have low := ring.inside.1
  rw [RingBounds.size] at near
  simp only [RingBounds.place, RingBounds.wrap, RingBounds.size]
  split
  · split
    · split
      · omega
      · omega
    · split
      · omega
      · omega
  · split
    · split
      · omega
      · omega
    · split
      · omega
      · omega

theorem Chain.le (chain : Chain b m base distance slots used) : distance ≤ used := by
  induction slots generalizing distance with
  | nil => exact Nat.le_of_eq chain
  | cons slot slots inductionHypothesis =>
      have rest := inductionHypothesis chain.2.2
      omega

theorem Slot.span_aligned (slot : Slot) : slot.span % 4 = 0 := by
  rw [Slot.span]
  omega

/-- Stores behind the records leave them as they are. -/
theorem Chain.within (ring : WordRing b base) (aligned : distance % 4 = 0)
    (room : used ≤ b.size) (chain : Chain b m base distance slots used)
    (within : Memory.Within (Behind b base used) m later) :
    Chain b later base distance slots used := by
  induction slots generalizing distance with
  | nil => exact chain
  | cons slot slots inductionHypothesis =>
      have span := slot.span_aligned
      have rest := chain.2.2.le
      rw [Slot.span] at rest
      refine ⟨chain.1, ?_, inductionHypothesis (by omega) chain.2.2⟩
      rw [chain.1, ring.word_within aligned (by omega) (by omega) within, ← chain.1]
      exact chain.2.1

theorem Chain.append (chain : Chain b m base distance slots used)
    (start : slot.start = b.place base used)
    (word : (m.word slot.start).toNat = slot.size) :
    Chain b m base distance (slots ++ [slot]) (used + slot.span) := by
  induction slots generalizing distance with
  | nil =>
      have here : distance = used := chain
      rw [here]
      exact ⟨start, word, rfl⟩
  | cons first slots inductionHypothesis =>
      exact ⟨chain.1, chain.2.1, inductionHypothesis chain.2.2⟩

/-- The records seen from a base further behind. -/
theorem Chain.shift {skipped : Nat} (inside : b.Holds base) (room : used ≤ b.size)
    (chain : Chain b m base (skipped + distance) slots used) :
    Chain b m (b.place base skipped) distance slots (used - skipped) := by
  induction slots generalizing distance with
  | nil =>
      have here : skipped + distance = used := chain
      exact (Nat.sub_eq_of_eq_add' here.symm).symm
  | cons slot slots inductionHypothesis =>
      have start := chain.1
      have rest := chain.2.2
      have near := rest.le
      rw [Nat.add_assoc] at rest
      rw [← RingBounds.place_place inside (by omega)] at start
      exact ⟨start, chain.2.1, inductionHypothesis rest⟩

/-- The records without some at the front. -/
theorem Chain.drop (aligned : distance % 4 = 0)
    (chain : Chain b m base distance slots used) (count : Nat) :
    ∃ skipped, skipped % 4 = 0 ∧ distance ≤ skipped ∧
      Chain b m base skipped (slots.drop count) used ∧
        ((slots.drop count).head?.map Slot.start).getD (b.place base used) =
          b.place base skipped := by
  induction slots generalizing distance count with
  | nil =>
      have here : distance = used := chain
      refine ⟨distance, aligned, Nat.le_refl _, ?_, ?_⟩
      · rw [List.drop_nil]
        exact chain
      · rw [List.drop_nil, here]
        rfl
  | cons slot slots inductionHypothesis =>
      cases count with
      | zero => exact ⟨distance, aligned, Nat.le_refl _, chain, chain.1⟩
      | succ count =>
          have span := slot.span_aligned
          obtain ⟨skipped, whole, far, rest, head⟩ :=
            inductionHypothesis (by omega) chain.2.2 count
          exact ⟨skipped, whole, by omega, rest, head⟩

/-- The records lie in front of the end of the row. -/
theorem Chain.apart (ring : WordRing b base) (room : used ≤ b.size)
    (chain : Chain b m base distance slots used) (member : slot ∈ slots)
    {address offset : Nat} (inSlot : offset < 4 + slot.size)
    (here : address = b.place slot.start offset) : ¬ Behind b base used address := by
  induction slots generalizing distance with
  | nil => cases member
  | cons first slots inductionHypothesis =>
      have rest := chain.2.2.le
      rcases List.mem_cons.mp member with same | later
      · intro behind
        obtain ⟨y, far, near, place⟩ := behind
        rw [← same, Slot.span] at rest
        have start := chain.1
        rw [← same] at start
        rw [here, start, RingBounds.place_place ring.inside (by omega)] at place
        have equal := RingBounds.place_injective ring.inside (by omega) near place
        omega
      · exact inductionHypothesis chain.2.2 later

end Chains

/-! ### The layout of the ring -/

/-- The unread records lie behind `BufRead`, and the next header behind them. -/
structure Placed (r : SectionRing) (used : Nat) : Prop where
  ring : WordRing r.bounds r.bufRead
  aligned : used % 4 = 0
  room : used + 4 ≤ r.bounds.size
  ptr_eq : r.bufPtr = r.bounds.place r.bufRead used
  chain : Chain r.bounds r.memory r.bufRead 0 r.unread used

/-- The cursor is behind the bytes that the header counts, and below `BufRead`
unless there are none. -/
structure Laid (r : SectionRing) (used : Nat) : Prop extends Placed r used where
  cur_eq : r.bufCur = r.bounds.place r.bufRead (used + 4 + r.size.toNat)
  fits : used + 4 + r.size.toNat ≤ r.bounds.size
  apart : r.size = 0 ∨ used + 4 + r.size.toNat < r.bounds.size

section Layout

variable {r : SectionRing} {used : Nat} {m : Memory} {bytes : List U8}

theorem place_eq (r : SectionRing) (base distance : Nat) :
    r.bounds.place base distance =
      if r.bufEnd ≤ base + distance then
        base + distance - (r.bufEnd - r.bufStart)
      else base + distance := rfl

theorem size_eq (r : SectionRing) : r.bounds.size = r.bufEnd - r.bufStart := rfl

theorem u32_of_lt {sum : Nat} (small : sum < 2 ^ 32) : u32 sum = sum :=
  Nat.mod_eq_of_lt small

/-- Stores behind the records do not move anything. -/
theorem Placed.stored (placed : Placed r used)
    (within : Memory.Within (Behind r.bounds r.bufRead used) r.memory m) :
    Placed { r with memory := m } used :=
  ⟨placed.ring, placed.aligned, placed.room, placed.ptr_eq,
    placed.chain.within placed.ring rfl
      (Nat.le_trans (Nat.le_add_right used 4) placed.room) within⟩

/-- The stores to the header. -/
theorem Placed.header_within (placed : Placed r used) (m : Memory) (value : U32) :
    Memory.Within (Behind r.bounds r.bufRead used) m
      (m.storeWord r.bufPtr value) := by
  apply (Memory.within_storeWord m r.bufPtr value).mono
  intro a inWord
  rw [placed.ptr_eq] at inWord
  exact placed.ring.behind_of_word placed.aligned placed.room (Nat.le_refl used) inWord

/-- A record is given up. -/
theorem Placed.revertFlt (placed : Placed r used) (cursor : r.HasCursor) :
    Laid r.revertFlt used ∧
      Memory.Within (Behind r.bounds r.bufRead used) r.memory
        r.revertFlt.memory := by
  have within := placed.header_within r.memory 0
  have none : r.revertFlt.size = 0 := Memory.word_storeWord r.memory r.bufPtr 0
  have room := placed.room
  have low : r.bufEnd + (r.bufEnd - r.bufStart) ≤ 2 ^ 32 := placed.ring.low
  have inside : r.bufStart ≤ r.bufRead ∧ r.bufRead < r.bufEnd := placed.ring.inside
  have ptr := placed.ptr_eq
  have kept := placed.stored within
  refine ⟨⟨⟨kept.ring, kept.aligned, kept.room, kept.ptr_eq, kept.chain⟩, ?_, ?_,
    .inl none⟩, within⟩
  · rw [none]
    change u32 (r.bufPtr + 4) = r.bounds.place r.bufRead (used + 4)
    rw [place_eq] at ptr ⊢
    rw [SectionRing.HasCursor] at cursor
    rw [u32_of_lt (by omega)]
    split
    · split at ptr
      · omega
      · omega
    · split at ptr
      · omega
      · omega
  · rw [none]
    exact room

/-- What a DMA can store is what is left of the ring. -/
theorem Laid.free_eq (laid : Laid r used) :
    r.free = r.bounds.size - (used + 4 + r.size.toNat) := by
  have inside : r.bufStart ≤ r.bufRead ∧ r.bufRead < r.bufEnd := laid.ring.inside
  have fits := laid.fits
  have cur := laid.cur_eq
  rw [size_eq] at fits ⊢
  rw [place_eq] at cur
  rw [SectionRing.free]
  split at cur
  · split
    · omega
    · omega
  · split
    · omega
    · omega

/-- A DMA stores behind the record. -/
theorem Laid.dmaCopy (laid : Laid r used)
    (obeys : bytes ≠ [] → bytes.length < r.free) :
    Memory.Within (Behind r.bounds r.bufRead (used + 4)) r.memory
        (r.dmaCopy bytes).memory ∧
      (r.dmaCopy bytes).bufCur =
        r.bounds.place r.bufRead (used + 4 + r.size.toNat + bytes.length) ∧
      used + 4 + r.size.toNat + bytes.length ≤ r.bounds.size ∧
      (bytes = [] ∨ used + 4 + r.size.toNat + bytes.length < r.bounds.size) := by
  have free := laid.free_eq
  have fits := laid.fits
  have near : bytes = [] ∨
      used + 4 + r.size.toNat + bytes.length < r.bounds.size := by
    by_cases none : bytes = []
    · exact .inl none
    · have less := obeys none
      exact .inr (by omega)
  have whole : used + 4 + r.size.toNat + bytes.length ≤ r.bounds.size := by
    rcases near with none | less
    · rw [none, List.length_nil]
      exact fits
    · exact Nat.le_of_lt less
  have stored := Memory.storeAround_spec laid.ring.inside bytes whole r.memory
  rw [← laid.cur_eq] at stored
  refine ⟨stored.1.mono ?_, stored.2, whole, near⟩
  intro a there
  obtain ⟨d, low, high, place⟩ := there
  exact ⟨d, by omega, by omega, place⟩

theorem behind_mono {b : RingBounds} {base : Nat} {more : Nat} (le : used ≤ more) :
    ∀ a, Behind b base more a → Behind b base used a :=
  fun _ there =>
    let ⟨distance, far, near, place⟩ := there
    ⟨distance, Nat.le_trans le far, near, place⟩

/-- A DMA that went well is counted in the header. -/
theorem Laid.dmaTaken (laid : Laid r used)
    (obeys : bytes ≠ [] → bytes.length < r.free) :
    Laid (r.dmaTaken bytes) used ∧
      Memory.Within (Behind r.bounds r.bufRead used) r.memory
        (r.dmaTaken bytes).memory := by
  obtain ⟨within, cur, fits, near⟩ := laid.dmaCopy obeys
  have size : (r.dmaCopy bytes).size = r.size := by
    change (r.dmaCopy bytes).memory.word r.bufPtr = r.memory.word r.bufPtr
    rw [laid.ptr_eq]
    exact laid.ring.word_within laid.aligned laid.room (Nat.le_refl _) within
  have low : r.bufEnd + (r.bufEnd - r.bufStart) ≤ 2 ^ 32 := laid.ring.low
  have long : r.bufStart + 8 ≤ r.bufEnd := laid.ring.long
  have word : (r.dmaTaken bytes).size =
      r.size + BitVec.ofNat 32 bytes.length := by
    rw [← size]
    exact Memory.word_storeWord _ r.bufPtr _
  have total : (r.dmaTaken bytes).size.toNat = r.size.toNat + bytes.length := by
    rw [size_eq] at fits
    rw [word, BitVec.toNat_add, BitVec.toNat_ofNat]
    omega
  have all : Memory.Within (Behind r.bounds r.bufRead used) r.memory
      (r.dmaTaken bytes).memory :=
    (within.mono (behind_mono (Nat.le_add_right used 4))).trans
      (laid.header_within _ _)
  have kept := laid.stored all
  refine ⟨⟨⟨kept.ring, kept.aligned, kept.room, kept.ptr_eq, kept.chain⟩, ?_, ?_, ?_⟩,
    all⟩
  · rw [total, ← Nat.add_assoc]
    exact cur
  · rw [total, ← Nat.add_assoc]
    exact fits
  · rcases near with none | less
    · rcases laid.apart with zero | less
      · left
        rw [word, zero, none]
        rfl
      · right
        rw [total, none]
        exact less
    · rw [total, ← Nat.add_assoc]
      exact .inr less

/-- The new write pointer is behind the bytes. -/
theorem Laid.finishWrite_eq (laid : Laid r used) :
    r.finishWrite = r.bounds.place r.bufRead (used + 4 + r.size.toNat) := by
  have fits := laid.fits
  have low : r.bufEnd + (r.bufEnd - r.bufStart) ≤ 2 ^ 32 := laid.ring.low
  have inside := laid.ring.inside
  have ptr := RingBounds.holds_place inside
    (Nat.le_trans (Nat.le_add_right used 4) laid.room)
  rw [← laid.ptr_eq] at ptr
  have below : r.bufPtr < r.bufEnd := ptr.2
  rw [Nat.add_assoc, ← RingBounds.place_place inside (by omega), ← laid.ptr_eq,
    place_eq, ← Nat.add_assoc]
  rw [size_eq] at fits
  simp only [SectionRing.finishWrite]
  rw [u32_of_lt (by omega)]

/-- Where there is room, the next header fits behind the record. -/
theorem Laid.room_behind (laid : Laid r used) (some : 0 < r.size) (room : ¬ r.Full)
    (safe : ¬ (r.bufRead = r.bufStart ∧ r.bufEnd < r.finishWrite + 4)) :
    (used + 4 + r.size.toNat + 3) / 4 * 4 + 4 ≤ r.bounds.size := by
  have apart : used + 4 + r.size.toNat < r.bounds.size := by
    rcases laid.apart with zero | less
    · rw [zero] at some
      exact absurd some (by decide)
    · exact less
  have write := laid.finishWrite_eq
  have low : r.bufEnd + (r.bufEnd - r.bufStart) ≤ 2 ^ 32 := laid.ring.low
  have long : r.bufStart + 8 ≤ r.bufEnd := laid.ring.long
  have inside : r.bufStart ≤ r.bufRead ∧ r.bufRead < r.bufEnd := laid.ring.inside
  have first : r.bufStart % 4 = 0 := laid.ring.first_aligned
  have limit : r.bufEnd % 4 = 0 := laid.ring.limit_aligned
  have read : r.bufRead % 4 = 0 := laid.ring.base_aligned
  rw [place_eq] at write
  rw [size_eq] at apart ⊢
  rw [SectionRing.Full] at room
  split at write
  · rw [u32_of_lt (by omega)] at room
    omega
  · omega

/-- The record is delivered, and the next one begins behind it. -/
theorem Laid.deliver (laid : Laid r used) (some : 0 < r.size) (room : ¬ r.Full)
    (safe : ¬ (r.bufRead = r.bufStart ∧ r.bufEnd < r.finishWrite + 4)) :
    Laid r.deliver ((used + 4 + r.size.toNat + 3) / 4 * 4) ∧
      Memory.Within (Behind r.bounds r.bufRead
        ((used + 4 + r.size.toNat + 3) / 4 * 4)) r.memory r.deliver.memory := by
  have behind := laid.room_behind some room safe
  have low : r.bufEnd + (r.bufEnd - r.bufStart) ≤ 2 ^ 32 := laid.ring.low
  have inside : r.bufStart ≤ r.bufRead ∧ r.bufRead < r.bufEnd := laid.ring.inside
  have whole : (used + 4 + r.size.toNat + 3) / 4 * 4 % 4 = 0 :=
    Nat.mul_mod_left _ 4
  have write := laid.finishWrite_eq
  have written : r.finishWrite < r.bufEnd := by
    rw [write]
    exact (RingBounds.holds_place laid.ring.inside (by omega)).2
  have next := laid.ring.place_roundUp
    (show used + 4 + r.size.toNat < r.bounds.size by omega)
  have limit : r.bufEnd % 4 = 0 := laid.ring.limit_aligned
  have long : r.bufStart + 8 ≤ r.bufEnd := laid.ring.long
  have ptr : r.finishPtr =
      r.bounds.place r.bufRead ((used + 4 + r.size.toNat + 3) / 4 * 4) := by
    rw [← next, ← write]
    change _ = if r.bufEnd ≤ (r.finishWrite + 3) / 4 * 4 then
      (r.finishWrite + 3) / 4 * 4 - (r.bufEnd - r.bufStart) else
        (r.finishWrite + 3) / 4 * 4
    simp only [SectionRing.finishPtr]
    rw [u32_of_lt (by omega)]
    split
    · omega
    · rfl
  have within : Memory.Within (Behind r.bounds r.bufRead
      ((used + 4 + r.size.toNat + 3) / 4 * 4)) r.memory r.deliver.memory := by
    apply (Memory.within_storeWord r.memory r.finishPtr 0).mono
    intro a inWord
    rw [ptr] at inWord
    exact laid.ring.behind_of_word whole behind (Nat.le_refl _) inWord
  have none : r.deliver.size = 0 := Memory.word_storeWord r.memory r.finishPtr 0
  have span : used + (Slot.mk r.bufPtr r.size.toNat).span =
      (used + 4 + r.size.toNat + 3) / 4 * 4 := by
    have aligned := laid.aligned
    change used + (4 + (r.size.toNat + 3) / 4 * 4) = _
    omega
  have chain := @Chain.append r.bounds r.memory r.bufRead 0 used r.unread
    ⟨r.bufPtr, r.size.toNat⟩ laid.chain laid.ptr_eq rfl
  rw [span] at chain
  refine ⟨⟨⟨laid.ring, whole, behind, ptr, ?_⟩, ?_, ?_, .inl none⟩, within⟩
  · exact chain.within laid.ring rfl (Nat.le_trans (Nat.le_add_right _ 4) behind)
      within
  · rw [none]
    change (if r.bufEnd ≤ u32 (r.finishPtr + 4) then r.bufStart
      else u32 (r.finishPtr + 4)) = r.bounds.place r.bufRead (_ + 4)
    rw [← RingBounds.place_place laid.ring.inside behind, ← ptr, place_eq]
    have below : r.finishPtr < r.bufEnd := by
      rw [ptr]
      exact (RingBounds.holds_place laid.ring.inside (by omega)).2
    have aligned : r.finishPtr % 4 = 0 := by
      rw [ptr]
      exact laid.ring.place_aligned whole
    rw [u32_of_lt (by omega)]
    split
    · omega
    · rfl
  · rw [none]
    exact behind

/-- The host has read some records. -/
theorem Laid.hostRead (laid : Laid r used) (count : Nat) :
    ∃ later, Laid (r.hostRead count) later := by
  obtain ⟨skipped, aligned, far, chain, head⟩ := laid.chain.drop rfl count
  rw [← laid.ptr_eq] at head
  have le := chain.le
  have room := laid.room
  have fits := laid.fits
  have inside := laid.ring.inside
  have whole := laid.aligned
  have read : (r.hostRead count).bufRead = r.bounds.place r.bufRead skipped := head
  have apart := laid.apart
  refine ⟨used - skipped, ⟨?_, by omega, ?_, ?_, ?_⟩, ?_, ?_, ?_⟩
  · rw [read]
    exact laid.ring.moved aligned (by omega)
  · change used - skipped + 4 ≤ r.bounds.size
    omega
  · rw [read]
    change r.bufPtr = r.bounds.place _ _
    rw [RingBounds.place_place inside (by omega), Nat.add_sub_of_le le]
    exact laid.ptr_eq
  · rw [read]
    exact chain.shift inside (Nat.le_trans (Nat.le_add_right used 4) room)
  · rw [read]
    change r.bufCur = r.bounds.place _ (used - skipped + 4 + r.size.toNat)
    rw [RingBounds.place_place inside (by omega), laid.cur_eq]
    congr 1
    omega
  · change used - skipped + 4 + r.size.toNat ≤ r.bounds.size
    omega
  · rcases apart with zero | less
    · exact .inl zero
    · right
      change used - skipped + 4 + r.size.toNat < r.bounds.size
      omega

/-- An empty ring. -/
theorem laid_resetFlt (ring : WordRing r.bounds r.bufStart) : Laid r.resetFlt 0 := by
  have none : r.resetFlt.size = 0 := Memory.word_storeWord r.memory r.bufStart 0
  have low : r.bufEnd + (r.bufEnd - r.bufStart) ≤ 2 ^ 32 := ring.low
  have long : r.bufStart + 8 ≤ r.bufEnd := ring.long
  have room : 0 + 4 ≤ r.bounds.size := by
    rw [size_eq]
    omega
  refine ⟨⟨ring, rfl, room, (RingBounds.place_zero ring.inside).symm, rfl⟩, ?_, ?_,
    .inl none⟩
  · rw [none]
    change u32 (r.bufStart + 4) = r.bounds.place r.bufStart (0 + 4)
    rw [place_eq, u32_of_lt (by omega), if_neg (by omega)]
  · rw [none]
    exact room

/-- The records are found from header to header. -/
theorem Placed.walks (placed : Placed r used) : r.Walks r.bufRead r.unread := by
  have walk : ∀ {slots : List Slot} {distance : Nat}, distance % 4 = 0 →
      Chain r.bounds r.memory r.bufRead distance slots used →
        r.Walks (r.bounds.place r.bufRead distance) slots := by
    intro slots
    induction slots with
    | nil =>
        intro distance aligned chain
        have here : distance = used := chain
        rw [here, ← placed.ptr_eq]
        rfl
    | cons slot slots inductionHypothesis =>
        intro distance aligned chain
        have span := slot.span_aligned
        have le := chain.2.2.le
        have room := placed.room
        have inside := placed.ring.inside
        have word := chain.2.1
        rw [chain.1] at word
        have next : r.nextHeader (r.bounds.place r.bufRead distance) =
            r.bounds.place r.bufRead (distance + slot.span) := by
          rw [Slot.span] at le
          rw [SectionRing.nextHeader, word, Nat.add_assoc _ 4]
          change r.bounds.wrap
            ((r.bounds.place (r.bounds.place _ _) _ + 3) / 4 * 4) = _
          rw [RingBounds.place_place inside (by omega),
            placed.ring.place_roundUp (by omega), Slot.span]
          congr 1
          omega
        refine ⟨chain.1, word, ?_⟩
        rw [next]
        exact inductionHypothesis (by omega) chain.2.2
  have start := walk rfl placed.chain
  rw [RingBounds.place_zero placed.ring.inside] at start
  exact start

theorem Placed.holds (placed : Placed r used) : r.Holds where
  aligned := by
    rw [placed.ptr_eq]
    exact placed.ring.place_aligned placed.aligned
  inside := by
    rw [placed.ptr_eq]
    exact RingBounds.holds_place placed.ring.inside
      (Nat.le_trans (Nat.le_add_right used 4) placed.room)
  walks := placed.walks

end Layout

/-! ### The filter and its ring -/

/-- The registers and the header word of a filter, as the ring has them. -/
structure Views (f : Filter) (r : SectionRing) : Prop where
  bufStart_eq : f.bufStart = r.bufStart
  bufEnd_eq : f.bufEnd = r.bufEnd
  bufRead_eq : f.bufRead = r.bufRead
  bufWrite_eq : f.bufWrite = r.bufWrite
  bufCur_eq : f.bufCur = r.bufCur
  bufPtr_eq : f.bufPtr = r.bufPtr
  lenWord_eq : f.lenWord = r.size

section View

variable {f : Filter} {r : SectionRing} {used : Nat}

theorem Laid.bufPtr_lt (laid : Laid r used) : r.bufPtr < r.bufEnd := by
  have inside := RingBounds.holds_place laid.ring.inside
    (Nat.le_trans (Nat.le_add_right used 4) laid.room)
  rw [← laid.ptr_eq] at inside
  exact inside.2

theorem Laid.finishWrite_lt (laid : Laid r used) : r.finishWrite < r.bufEnd := by
  rw [laid.finishWrite_eq]
  exact (RingBounds.holds_place laid.ring.inside laid.fits).2

theorem Views.revertFlt (views : Views f r) (small : r.bufPtr + 4 < 2 ^ 32) :
    Views f.revertFlt r.revertFlt := by
  have cur : f.bufPtr + 4 = u32 (r.bufPtr + 4) := by
    rw [u32_of_lt small, views.bufPtr_eq]
  exact ⟨views.bufStart_eq, views.bufEnd_eq, views.bufRead_eq, cur, cur,
    views.bufPtr_eq, (Memory.word_storeWord r.memory r.bufPtr 0).symm⟩

theorem Views.finishWrite_eq (views : Views f r) (laid : Laid r used) :
    f.finishWrite = r.finishWrite := by
  have ptr := laid.bufPtr_lt
  have fits := laid.fits
  have low : r.bufEnd + (r.bufEnd - r.bufStart) ≤ 2 ^ 32 := laid.ring.low
  rw [size_eq] at fits
  simp only [Filter.finishWrite, SectionRing.finishWrite]
  rw [u32_of_lt (by omega), views.bufPtr_eq, views.lenWord_eq, views.bufEnd_eq,
    views.bufStart_eq]

/-- `FinishFlt` of the filter does what it does on the ring. -/
theorem Views.finishFlt (views : Views f r) (laid : Laid r used) :
    Views f.finishFlt r.finishFlt := by
  have write := views.finishWrite_eq laid
  have written := laid.finishWrite_lt
  have ptr := laid.bufPtr_lt
  have low : r.bufEnd + (r.bufEnd - r.bufStart) ≤ 2 ^ 32 := laid.ring.low
  have long : r.bufStart + 8 ≤ r.bufEnd := laid.ring.long
  have limit : r.bufEnd % 4 = 0 := laid.ring.limit_aligned
  have small : r.bufPtr + 4 < 2 ^ 32 := by omega
  have full : (f.finishWrite < f.bufRead ∧ f.bufRead < f.finishWrite + 8) ↔ r.Full := by
    rw [SectionRing.Full, u32_of_lt (by omega), write, views.bufRead_eq]
  have next : f.finishPtr = r.finishPtr := by
    simp only [Filter.finishPtr, SectionRing.finishPtr]
    rw [u32_of_lt (by omega), write, views.bufEnd_eq, views.bufStart_eq]
  have nextLt : r.finishPtr < r.bufEnd := by
    simp only [SectionRing.finishPtr]
    rw [u32_of_lt (by omega)]
    split
    · omega
    · omega
  have cur : (if f.bufEnd ≤ f.finishPtr + 4 then f.bufStart else f.finishPtr + 4) =
      if r.bufEnd ≤ u32 (r.finishPtr + 4) then r.bufStart
      else u32 (r.finishPtr + 4) := by
    rw [u32_of_lt (by omega), next, views.bufEnd_eq, views.bufStart_eq]
  have counted : 0 < f.lenWord ↔ 0 < r.size := by rw [views.lenWord_eq]
  rw [Filter.finishFlt, SectionRing.finishFlt]
  by_cases some : 0 < r.size
  · rw [if_pos (counted.mpr some), if_pos some]
    by_cases room : r.Full
    · rw [if_pos (full.mpr room), if_pos room]
      have reverted := views.revertFlt small
      exact ⟨reverted.1, reverted.2, reverted.3, reverted.4, reverted.5, reverted.6,
        reverted.7⟩
    · rw [if_neg (fun open' => room (full.mp open')), if_neg room]
      exact ⟨views.bufStart_eq, views.bufEnd_eq, views.bufRead_eq, write, cur, next,
        (Memory.word_storeWord r.memory r.finishPtr 0).symm⟩
  · rw [if_neg (fun more => some (counted.mp more)), if_neg some]
    have reverted := views.revertFlt small
    exact ⟨reverted.1, reverted.2, reverted.3, reverted.4, reverted.5, reverted.6,
      reverted.7⟩

/-- A DMA of the filter that goes well does what it does on the ring. -/
theorem Views.taken (views : Views f r) (laid : Laid r used) {packet : Packet}
    {offset : Nat} {size : U32} {crc : DmaCrc} {start : Bool}
    (small : size.toNat < 2 ^ 16)
    (obeys : size ≠ 0 → size.toNat < r.free) :
    Views (f.taken packet offset size crc start)
      (r.dmaTaken (bytesAt packet offset size.toNat)) := by
  have length := length_bytesAt packet offset size.toNat
  have obeys' : bytesAt packet offset size.toNat ≠ [] →
      (bytesAt packet offset size.toNat).length < r.free := by
    intro more
    rw [length]
    apply obeys
    intro zero
    rw [zero] at more
    exact more rfl
  obtain ⟨within, cur, fits, -⟩ := laid.dmaCopy obeys'
  rw [length] at cur fits
  have word : (r.dmaTaken (bytesAt packet offset size.toNat)).size = r.size + size := by
    have copied : (r.dmaCopy (bytesAt packet offset size.toNat)).size = r.size := by
      change (r.dmaCopy _).memory.word r.bufPtr = r.memory.word r.bufPtr
      rw [laid.ptr_eq]
      exact laid.ring.word_within laid.aligned laid.room (Nat.le_refl _) within
    change (Memory.storeWord _ r.bufPtr ((r.dmaCopy _).size +
      BitVec.ofNat 32 (bytesAt packet offset size.toNat).length)).word r.bufPtr = _
    rw [Memory.word_storeWord, copied, length, BitVec.ofNat_toNat,
      BitVec.setWidth_eq]
  refine ⟨views.bufStart_eq, views.bufEnd_eq, views.bufRead_eq, views.bufWrite_eq, ?_,
    views.bufPtr_eq, ?_⟩
  · change f.advance (size.toNat % 2 ^ 16) =
      (r.dmaCopy (bytesAt packet offset size.toNat)).bufCur
    rw [cur, Nat.mod_eq_of_lt small, ← RingBounds.place_place laid.ring.inside fits,
      ← laid.cur_eq, place_eq, Filter.advance, views.bufCur_eq, views.bufEnd_eq,
      views.bufStart_eq]
  · rw [word]
    change f.lenWord + size = _
    rw [views.lenWord_eq]

end View

/-! ### Runs -/

section Runs

variable {r : SectionRing} {used : Nat} {event : RingEvent}

/-- What an event leads to: a ring laid out again, of which only what lies behind
the unread records was stored to, if there are any. -/
structure Leads (r later : SectionRing) (used : Nat) : Prop where
  laid : Laid later used
  stores : later.unread = [] ∨ ∀ a ∈ later.memory.stores,
    a ∈ r.memory.stores ∨ Behind later.bounds later.bufRead used a

/-- The stores are not part of the layout. -/
theorem Laid.unnoted (laid : Laid r used) :
    Laid { r with memory := r.memory.unnoted } used := by
  have same : Memory.Within (Behind r.bounds r.bufRead used) r.memory
      r.memory.unnoted :=
    ⟨fun _ there => absurd there List.not_mem_nil, fun _ _ => rfl⟩
  have kept := laid.stored same
  exact ⟨kept, laid.cur_eq, laid.fits, laid.apart⟩

/-- What one event leads to. -/
theorem Laid.apply (laid : Laid r used) (obeys : r.DmaObeys event)
    (safe : r.Safe event) : ∃ later, Leads r (r.apply event) later := by
  cases event with
  | dma bytes =>
      obtain ⟨taken, within⟩ := laid.dmaTaken (obeys bytes rfl)
      exact ⟨used, taken, .inr within.stores_sub⟩
  | dmaFailed bytes =>
      obtain ⟨within, -, -, -⟩ := laid.dmaCopy (obeys bytes rfl)
      have stored := within.mono (behind_mono (Nat.le_add_right used 4))
      have kept := laid.stored stored
      have copied : Placed (r.dmaCopy bytes) used :=
        ⟨kept.ring, kept.aligned, kept.room, kept.ptr_eq, kept.chain⟩
      obtain ⟨reverted, header⟩ := copied.revertFlt safe
      exact ⟨used, reverted, .inr (stored.trans header).stores_sub⟩
  | updateWritePtr =>
      have moved : Laid r.updateWritePtr used :=
        ⟨⟨laid.ring, laid.aligned, laid.room, laid.ptr_eq, laid.chain⟩, laid.cur_eq,
          laid.fits, laid.apart⟩
      exact ⟨used, moved, .inr (fun _ there => .inl there)⟩
  | finish =>
      change ∃ later, Leads r r.finishFlt later
      rw [SectionRing.Safe] at safe
      rw [SectionRing.finishFlt]
      by_cases some : 0 < r.size
      · by_cases room : r.Full
        · rw [if_neg (fun both => both.2 room)] at safe
          rw [if_pos some, if_pos room]
          obtain ⟨reverted, within⟩ := laid.revertFlt safe
          exact ⟨used, reverted, .inr within.stores_sub⟩
        · rw [if_pos ⟨some, room⟩] at safe
          rw [if_pos some, if_neg room]
          obtain ⟨delivered, within⟩ := laid.deliver some room safe
          exact ⟨_, delivered, .inr within.stores_sub⟩
      · rw [if_neg (fun both => some both.1)] at safe
        rw [if_neg some]
        obtain ⟨reverted, within⟩ := laid.revertFlt safe
        exact ⟨used, reverted, .inr within.stores_sub⟩
  | revert =>
      obtain ⟨reverted, within⟩ := laid.revertFlt safe
      exact ⟨used, reverted, .inr within.stores_sub⟩
  | reset =>
      have first : r.bufStart % 4 = 0 := laid.ring.first_aligned
      have long : r.bufStart + 8 ≤ r.bufEnd := laid.ring.long
      have ring : WordRing r.bounds r.bufStart :=
        ⟨laid.ring.first_aligned, laid.ring.limit_aligned, laid.ring.long,
          laid.ring.low, first, Nat.le_refl _, (by omega : r.bufStart < r.bufEnd)⟩
      exact ⟨0, laid_resetFlt ring, .inl rfl⟩
  | host count =>
      obtain ⟨later, read⟩ := laid.hostRead count
      exact ⟨later, read, .inr (fun _ there => .inl there)⟩

/-- What a ring promises holds of an event, and the ring stays laid out. -/
theorem Laid.step (laid : Laid r used) (obeys : r.DmaObeys event)
    (safe : r.Safe event) :
    r.StepHolds event ∧ ∃ later, Laid (r.step event) later := by
  obtain ⟨later, leads⟩ := laid.unnoted.apply obeys safe
  refine ⟨⟨fun _ => ?_, ?_, leads.laid.holds⟩, later, leads.laid⟩
  · rw [laid.cur_eq]
    exact RingBounds.holds_place laid.ring.inside laid.fits
  · intro address stored slot member inSlot
    obtain ⟨distance, near, place⟩ := inSlot
    rcases leads.stores with none | behind
    · rw [SectionRing.step, none] at member
      cases member
    · rcases behind address stored with before | there
      · cases before
      · exact leads.laid.chain.apart leads.laid.ring
          (Nat.le_trans (Nat.le_add_right later 4) leads.laid.room) member near place
          there

/-- A ring stays laid out over runs. -/
theorem Laid.run {events : List RingEvent} (laid : Laid r used)
    (obeys : Run.Meets SectionRing.step SectionRing.DmaObeys r events)
    (safe : Run.Meets SectionRing.step SectionRing.Safe r events) :
    Run.Meets SectionRing.step SectionRing.StepHolds r events := by
  induction events generalizing r used with
  | nil => trivial
  | cons event rest inductionHypothesis =>
      obtain ⟨holds, later, next⟩ := laid.step obeys.1 safe.1
      exact ⟨holds, inductionHypothesis next obeys.2 safe.2⟩

end Runs

/-- From a reset on, every event keeps what a ring promises, if no record is given
up whose header is the last word of the buffer, and none ends in the last three
bytes while `BufRead` is at the start. -/
theorem ring_promises (r : SectionRing) (startAligned : r.bufStart % 4 = 0)
    (endAligned : r.bufEnd % 4 = 0) (long : r.bufStart + 8 ≤ r.bufEnd)
    (low : r.bufEnd + (r.bufEnd - r.bufStart) ≤ 2 ^ 32) (events : List RingEvent)
    (obeys : Run.Meets SectionRing.step SectionRing.DmaObeys r.resetFlt events)
    (safe : Run.Meets SectionRing.step SectionRing.Safe r.resetFlt events) :
    Run.Meets SectionRing.step SectionRing.StepHolds r.resetFlt events := by
  have inside : r.bounds.Holds r.bufStart :=
    ⟨Nat.le_refl _, (by omega : r.bufStart < r.bufEnd)⟩
  exact (laid_resetFlt ⟨startAligned, endAligned, long, low, startAligned, inside⟩).run
    obeys safe

/-- A buffer of 32 bytes. -/
def shortRing : SectionRing := ⟨0x1000, 0x1020, 0, 0, 0, 0, ⟨fun _ => 0, []⟩, []⟩

theorem ring_promises_short :
    Run.Meets SectionRing.step SectionRing.StepHolds shortRing.resetFlt
      [.dma [0x42, 0xB0, 0x00], .dma [0x01, 0x02], .finish, .dma [0x43], .revert,
        .host 1, .dma (List.replicate 17 0x44), .finish, .host 1, .reset] :=
  ring_promises shortRing rfl rfl (by decide) (by decide) _ (by decide +kernel)
    (by decide +kernel)

/-- A buffer of 16 bytes. -/
def tinyRing : SectionRing := ⟨0x1000, 0x1010, 0, 0, 0, 0, ⟨fun _ => 0, []⟩, []⟩

/-- A record whose header would be the last word is given up, and the next DMA
starts behind the buffer.  A record ends in the last three bytes, and its own header
is overwritten. -/
theorem ring_left :
    (Run.Meets SectionRing.step SectionRing.DmaObeys tinyRing.resetFlt
        [.dma (List.replicate 8 0x42), .finish, .host 1, .revert, .dma [0x43]] ∧
      ¬ Run.Meets SectionRing.step SectionRing.StepHolds tinyRing.resetFlt
        [.dma (List.replicate 8 0x42), .finish, .host 1, .revert, .dma [0x43]]) ∧
    Run.Meets SectionRing.step SectionRing.DmaObeys tinyRing.resetFlt
      [.dma (List.replicate 9 0x42), .finish] ∧
    ¬ Run.Meets SectionRing.step SectionRing.StepHolds tinyRing.resetFlt
      [.dma (List.replicate 9 0x42), .finish] := by
  refine ⟨⟨by decide +kernel, ?_⟩, by decide +kernel, ?_⟩
  · intro meets
    have cursor := meets.2.2.2.2.1.cursor (by decide)
    exact absurd cursor (by decide +kernel)
  · intro meets
    exact meets.2.1.untouched 0x1000 (by decide +kernel) ⟨0x1000, 9⟩ (by decide +kernel)
      ⟨0, by decide, by decide +kernel⟩

end Gp2Firmware.Tsp
