import Mathlib.Tactic
import Gp2Firmware.Lib.WordMemory
import Gp2Firmware.Lib.BlockList
import Gp2Firmware.Lib.Loop
import Gp2Firmware.Lib.Run

/-!
# The memory pool of the JPEG decoder

The decoder takes its buffers from a pool of its own.  Every block stands
behind a header of two words, the address of the next free block and the
number of bytes in the block; the list of free blocks starts at the head
`AVAIL`, which is a header too.  `malloc` takes the first free block that is
large enough and splits it from the end; `free` puts a block back in the order
of the addresses and joins it with its neighbours.
-/

namespace Gp2Firmware.Jpeg.MemoryPool

open Gp2Firmware.Lib.WordMemory Gp2Firmware.Lib.BlockList

abbrev U32 := BitVec 32

section Code

/-- The two fields of a header. -/
def next (memory : Memory) (header : Address) : Address :=
  load memory header

def len (memory : Memory) (header : Address) : U32 :=
  load memory (header + 4)

def setNext (memory : Memory) (header value : Address) : Memory :=
  store memory header value

def setLen (memory : Memory) (header : Address) (value : U32) : Memory :=
  store memory (header + 4) value

def HLEN : U32 := 8

def MIN_BLOCK : U32 := HLEN * 4

def MIN_POOL_SIZE : U32 := HLEN * 10

variable (avail : Address)

/-- The pool with one free block in it. -/
def startPool (pool : Address) (size : U32) (memory : Memory) : Memory :=
  let memory := fill memory pool size 0
  let memory := setNext memory avail pool
  let memory := setLen memory avail size
  let memory := setNext memory (next memory avail) 0
  setLen memory (next memory avail) (size - HLEN)

/-- A pool at the address 0 is taken to start at 1. -/
def initMempool (pool : Address) (size : U32) (memory : Memory) : Bool × Memory :=
  if size < MIN_POOL_SIZE then
    (false, memory)
  else if pool = 0 then
    (true, startPool avail 1 (size - 1) memory)
  else
    (true, startPool avail pool size memory)

/-- A turn of the search in `malloc`; it leaves with the block that is large
enough and the one before it, or without one. -/
def mallocTurn (memory : Memory) (size : U32) (q : Address) :
    Address ⊕ Option (Address × Address) :=
  let p := next memory q
  if p = 0 then
    .inr none
  else if size ≤ len memory p then
    .inr (some (q, p))
  else
    .inl p

/-- A list without a circle has no more blocks than there are addresses. -/
def turns : Nat :=
  2 ^ 32

/-- A block taken from the block `p` behind `q`: the whole of `p` if too little of it
would be left. -/
def takeFrom (size : U32) (memory : Memory) (q p : Address) : Address × Memory :=
  let k := len memory p - size
  if k < MIN_BLOCK then
    (p + HLEN, setNext memory q (next memory p))
  else
    let k := k - HLEN
    let memory := setLen memory p k
    let q := p + HLEN + k
    let memory := setLen memory q size
    let memory := setNext memory q 0
    (q + HLEN, memory)

/-- The address of the block, 0 if there is none, and the memory behind the call;
nothing if the search does not end. -/
def malloc (size : U32) (memory : Memory) : Option (Address × Memory) :=
  (Lib.Loop.run (mallocTurn memory size) turns avail).map fun found =>
    found.elim (0, memory) fun (q, p) => takeFrom size memory q p

/-- A turn of the search in `free`; it leaves with the blocks around the one to
free. -/
def freeTurn (memory : Memory) (memp q : Address) : Address ⊕ (Address × Address) :=
  let p := next memory q
  if p = 0 ∨ memp < p then
    .inr (q, p)
  else
    .inl p

/-- The block `p0` joined with the one behind it, or linked to it. -/
def joinNext (memory : Memory) (memp p0 p : Address) : Memory :=
  if p ≠ 0 ∧ memp + len memory p0 = p then
    let memory := setLen memory p0 (len memory p0 + (len memory p + HLEN))
    setNext memory p0 (next memory p)
  else
    setNext memory p0 p

/-- The block `p0` joined with the one before it, or linked to it. -/
def joinPrevious (memory : Memory) (q p0 : Address) : Memory :=
  if q + len memory q + HLEN = p0 then
    let memory := setLen memory q (len memory q + (len memory p0 + HLEN))
    setNext memory q (next memory p0)
  else
    setNext memory q p0

def free (memp : Address) (memory : Memory) : Option Memory :=
  if memp = 0 ∨ len memory avail = 0 then
    some memory
  else
    let p0 := memp - HLEN
    (Lib.Loop.run (freeTurn memory memp) turns avail).map fun (q, p) =>
      joinPrevious (joinNext memory memp p0 p) q p0

end Code

section Runs

/-- The memory and the blocks that were handed out and not freed. -/
structure State where
  memory : Memory
  live : List Address

/-- A call, or a store by the owner of a block. -/
inductive Event where
  | malloc (size : U32)
  | free (memp : Address)
  | write (address : Address) (value : BitVec 8)

variable (avail : Address)

def step (s : State) : Event → Option State
  | .malloc size =>
      (malloc avail size s.memory).map fun (block, memory) =>
        ⟨memory, if block = 0 then s.live else block :: s.live⟩
  | .free memp =>
      (free avail memp s.memory).map fun memory => ⟨memory, s.live.erase memp⟩
  | .write address value => some ⟨Function.update s.memory address value, s.live⟩

/-- Only live blocks are freed, and a store goes into a live block. -/
def Legal (s : State) : Event → Prop
  | .malloc _ => True
  | .free memp => memp ∈ s.live
  | .write address _ =>
      ∃ memp ∈ s.live, (address - memp).toNat < (len s.memory (memp - HLEN)).toNat

end Runs

section Fields

variable {memory : Memory} {header other : Address} {value : U32}

@[simp]
theorem next_setNext : next (setNext memory header value) header = value :=
  load_store

@[simp]
theorem len_setLen : len (setLen memory header value) header = value :=
  load_store

@[simp]
theorem len_setNext : len (setNext memory header value) header = len memory header := by
  apply load_store_of_apart <;> bv_omega

@[simp]
theorem next_setLen : next (setLen memory header value) header = next memory header := by
  apply load_store_of_apart <;> bv_omega

variable (apart : Apart header other)

include apart

theorem next_setNext_of_apart :
    next (setNext memory header value) other = next memory other := by
  have := apart.1
  have := apart.2
  apply load_store_of_apart <;> bv_omega

theorem len_setNext_of_apart :
    len (setNext memory header value) other = len memory other := by
  have := apart.1
  have := apart.2
  apply load_store_of_apart <;> bv_omega

theorem next_setLen_of_apart :
    next (setLen memory header value) other = next memory other := by
  have := apart.1
  have := apart.2
  apply load_store_of_apart <;> bv_omega

theorem len_setLen_of_apart :
    len (setLen memory header value) other = len memory other := by
  have := apart.1
  have := apart.2
  apply load_store_of_apart <;> bv_omega

end Fields

/-- The free blocks in the order of the list. -/
def Listed (memory : Memory) : Address → List Address → Prop
  | q, [] => next memory q = 0
  | q, p :: rest => p ≠ 0 ∧ next memory q = p ∧ Listed memory p rest

instance decidableListed (memory : Memory) :
    ∀ q listed, Decidable (Listed memory q listed)
  | _, [] => inferInstanceAs (Decidable (_ = _))
  | _, p :: rest =>
      have := decidableListed memory p rest
      inferInstanceAs (Decidable (_ ∧ _ ∧ _))

theorem Listed.unique {memory : Memory} {q : Address} {listed other : List Address}
    (first : Listed memory q listed) (second : Listed memory q other) : listed = other := by
  induction listed generalizing q other with
  | nil =>
      cases other with
      | nil => rfl
      | cons p rest => exact absurd (second.2.1.symm.trans first) second.1
  | cons p rest inductionHypothesis =>
      cases other with
      | nil => exact absurd (first.2.1.symm.trans second) first.1
      | cons p' rest' =>
          have same : p = p' := first.2.1.symm.trans second.2.1
          subst same
          rw [inductionHypothesis first.2.2 second.2.2]

/-- A block without bytes is not freed in front of a free block, and with all free
blocks behind it no block is freed that starts where the list head would end if it
were a block of the pool. -/
def Clear (avail : Address) (s : State) : Event → Prop
  | .free memp => ∀ listed, Listed s.memory avail listed →
      (len s.memory (memp - HLEN) = 0 → memp ∉ listed) ∧
        ((∀ p ∈ listed, memp < p) →
          avail + len s.memory avail + HLEN ≠ memp - HLEN)
  | _ => True

section Layout

/-- An address as a number. -/
def at' (place : Nat) : Address :=
  BitVec.ofNat 32 place

/-- The headers of blocks as memory has them: the number of bytes of each, and the
address of each free block in the free block before it.  The last free block
links to an address as `ends` says. -/
def Laid (memory : Memory) (ends : Address → Prop) : Nat → Nat → List Block → Prop
  | before, _, [] => ends (next memory (at' before))
  | before, address, block :: rest =>
      (len memory (at' address)).toNat = block.len ∧
        (block.free → next memory (at' before) = at' address) ∧
        Laid memory ends (if block.free then address else before)
          (address + (8 + block.len)) rest

/-- Wherever the last free block links to. -/
def anywhere : Address → Prop :=
  fun _ => True

/-- A header is in the address space and neither reaches into a range nor starts
in it. -/
structure Outside (place low high : Nat) : Prop where
  room : place + 8 ≤ 2 ^ 32
  apart : place + 8 ≤ low ∨ high ≤ place

variable {memory changed : Memory} {ends : Address → Prop} {before address : Nat}
  {first second blocks : List Block}

theorem laid_append :
    Laid memory ends before address (first ++ second) ↔
      Laid memory anywhere before address first ∧
        Laid memory ends (lastFree 8 before address first)
          (address + extent 8 first) second := by
  induction first generalizing before address with
  | nil => simp [Laid, anywhere, lastFree, extent]
  | cons block rest inductionHypothesis =>
      simp only [List.cons_append, inductionHypothesis, Laid, lastFree, extent, and_assoc,
        Nat.add_assoc]

/-- Two memories have the same headers of these blocks. -/
def SameHeaders (memory changed : Memory) (address : Nat) (blocks : List Block) : Prop :=
  ∀ entry ∈ placed 8 address blocks,
    next changed (at' entry.1) = next memory (at' entry.1) ∧
      len changed (at' entry.1) = len memory (at' entry.1)

theorem apart_at' {place other : Nat} (outside : place + 8 ≤ other ∨ other + 8 ≤ place)
    (room : place + 8 ≤ 2 ^ 32) (otherRoom : other + 8 ≤ 2 ^ 32) :
    Apart (at' place) (at' other) := by
  rcases outside with below | above
  · exact apart_ofNat below otherRoom
  · exact (apart_ofNat above room).symm

/-- A memory was changed in the headers of a range alone. -/
def OnlyIn (low high : Nat) (memory changed : Memory) : Prop :=
  ∀ other, Outside other low high →
    next changed (at' other) = next memory (at' other) ∧
      len changed (at' other) = len memory (at' other)

section OnlyIn

variable {low high place : Nat} {value : U32}

theorem onlyIn_setNext (above : low ≤ place) (below : place + 8 ≤ high)
    (room : high ≤ 2 ^ 32) : OnlyIn low high memory (setNext memory (at' place) value) := by
  intro other outside
  have apart : Apart (at' place) (at' other) := by
    have := outside.apart
    apply apart_at' _ _ outside.room <;> omega
  exact ⟨next_setNext_of_apart apart, len_setNext_of_apart apart⟩

theorem onlyIn_setLen (above : low ≤ place) (below : place + 8 ≤ high)
    (room : high ≤ 2 ^ 32) : OnlyIn low high memory (setLen memory (at' place) value) := by
  intro other outside
  have apart : Apart (at' place) (at' other) := by
    have := outside.apart
    apply apart_at' _ _ outside.room <;> omega
  exact ⟨next_setLen_of_apart apart, len_setLen_of_apart apart⟩

theorem OnlyIn.trans {last : Memory} (first : OnlyIn low high memory changed)
    (second : OnlyIn low high changed last) : OnlyIn low high memory last := by
  intro other outside
  exact ⟨(second other outside).1.trans (first other outside).1,
    (second other outside).2.trans (first other outside).2⟩

theorem OnlyIn.wider {lower higher : Nat} (only : OnlyIn low high memory changed)
    (below : lower ≤ low) (above : high ≤ higher) : OnlyIn lower higher memory changed := by
  intro other outside
  have apart := outside.apart
  exact only other ⟨outside.room, by omega⟩

/-- The headers of blocks outside of the range stay. -/
theorem OnlyIn.sameHeaders (only : OnlyIn low high memory changed)
    (outside : address + extent 8 blocks ≤ low ∨ high ≤ address)
    (room : address + extent 8 blocks ≤ 2 ^ 32) :
    SameHeaders memory changed address blocks := by
  intro entry member
  have inside := placed_inside member
  exact only _ ⟨by omega, by omega⟩

end OnlyIn

/-- Blocks stay laid out behind another free block that links to the same one. -/
theorem Laid.move {other : Nat} (laid : Laid memory ends before address blocks)
    (link : next changed (at' other) = next memory (at' before))
    (same : SameHeaders memory changed address blocks) :
    Laid changed ends other address blocks := by
  induction blocks generalizing before other address with
  | nil =>
      rw [Laid, link]
      exact laid
  | cons block rest inductionHypothesis =>
      obtain ⟨length, linked, later⟩ := laid
      obtain ⟨here, behind⟩ := List.forall_mem_cons.mp same
      refine ⟨by rw [here.2, length], ?_, ?_⟩
      · intro free
        rw [link, linked free]
      · cases free : block.free with
        | true =>
            rw [free] at later
            exact inductionHypothesis later here.1 behind
        | false =>
            rw [free] at later
            exact inductionHypothesis later link behind

/-- The last free block is the given one or lies among the blocks. -/
theorem lastFree_inside :
    lastFree 8 before address blocks = before ∨
      (address ≤ lastFree 8 before address blocks ∧
        lastFree 8 before address blocks + 8 ≤ address + extent 8 blocks) := by
  rcases @lastFree_cases 8 address before blocks with
    ⟨same, -⟩ | ⟨first, block, second, split, -, -, last⟩
  · exact Or.inl same
  · right
    rw [last, split, extent_append, extent]
    omega

/-- The last free block can be linked to any address. -/
theorem Laid.relink {value : Address} (laid : Laid memory anywhere before address blocks)
    (outside : Outside before address (address + extent 8 blocks))
    (room : address + extent 8 blocks ≤ 2 ^ 32) :
    Laid (setNext memory (at' (lastFree 8 before address blocks)) value) anywhere
      before address blocks := by
  induction blocks generalizing before address with
  | nil => trivial
  | cons block rest inductionHypothesis =>
      obtain ⟨length, linked, later⟩ := laid
      rw [extent] at outside room
      have apart := outside.apart
      have beforeRoom := outside.room
      have outsideRest : Outside (if block.free then address else before)
          (address + (8 + block.len)) (address + (8 + block.len) + extent 8 rest) := by
        split
        · exact ⟨by omega, by omega⟩
        · exact ⟨by omega, by omega⟩
      have inside := @lastFree_inside (if block.free then address else before)
        (address + (8 + block.len)) rest
      have starts : (if block.free then address else before) = address ∨
          (if block.free then address else before) = before := ite_eq_or_eq _ _ _
      refine ⟨?_, ?_, inductionHypothesis later outsideRest (by omega)⟩
      · rw [lastFree]
        by_cases same : lastFree 8 (if block.free then address else before)
            (address + (8 + block.len)) rest = address
        · rw [same, len_setNext, length]
        · rw [len_setNext_of_apart, length]
          apply apart_at' <;> omega
      · intro free
        rw [lastFree, next_setNext_of_apart, linked free]
        rw [if_pos free] at inside ⊢
        apply apart_at' <;> omega

end Layout

section Search

variable {memory : Memory} {before address : Nat} {blocks : List Block}

theorem at'_toNat {place : Nat} (room : place < 2 ^ 32) : (at' place).toNat = place := by
  rw [at', BitVec.toNat_ofNat, Nat.mod_eq_of_lt room]

theorem at'_ne_zero {place : Nat} (positive : 0 < place) (room : place < 2 ^ 32) :
    at' place ≠ 0 := by
  intro zero
  have toNat := congrArg BitVec.toNat zero
  rw [at'_toNat room] at toNat
  simp at toNat
  omega

/-- The search of `malloc` finds the first block that is large enough. -/
theorem run_mallocTurn {size : U32} {count : Nat}
    (laid : Laid memory (· = 0) before address blocks) (positive : 0 < address)
    (room : address + extent 8 blocks < 2 ^ 32) (enough : blocks.length < count) :
    Lib.Loop.run (mallocTurn memory size) count (at' before) =
      some ((firstFit size.toNat blocks).map fun fit =>
        (at' (lastFree 8 before address fit.1), at' (address + extent 8 fit.1))) := by
  induction blocks generalizing before address count with
  | nil =>
      obtain ⟨count, rfl⟩ := Nat.exists_eq_add_of_lt enough
      apply Lib.Loop.run_of_leaves
      have last : next memory (at' before) = 0 := laid
      rw [mallocTurn, if_pos last]
      rfl
  | cons block rest inductionHypothesis =>
      obtain ⟨length, linked, later⟩ := laid
      rw [extent] at room
      rw [List.length_cons] at enough
      have search : ∀ count, rest.length < count →
          Lib.Loop.run (mallocTurn memory size) count
              (at' (if block.free then address else before)) = _ :=
        fun _ => inductionHypothesis later (by omega) (by omega)
      cases free : block.free with
      | false =>
          have tail := search count (by omega)
          simp only [free, Bool.false_eq_true, if_false] at tail
          rw [tail, firstFit, if_neg (by simp [free]), Option.map_map]
          simp [Function.comp_def, lastFree, extent, free, Nat.add_assoc]
      | true =>
          obtain ⟨count, rfl⟩ : ∃ less, count = less + 1 := ⟨count - 1, by omega⟩
          have nonzero := at'_ne_zero positive (by omega)
          by_cases fits : size.toNat ≤ block.len
          · rw [firstFit, if_pos ⟨free, fits⟩]
            apply Lib.Loop.run_of_leaves
            rw [mallocTurn, linked free, if_neg nonzero, if_pos]
            · simp [lastFree, extent]
            · rw [BitVec.le_def, length]
              exact fits
          · have tail := search count (by omega)
            simp only [free, if_true] at tail
            have goes : mallocTurn memory size (at' before) = .inl (at' address) := by
              rw [mallocTurn, linked free, if_neg nonzero, if_neg]
              rw [BitVec.le_def, length]
              exact fits
            rw [Lib.Loop.run_of_goes goes, tail, firstFit, if_neg (fun both => fits both.2),
              Option.map_map]
            simp [Function.comp_def, lastFree, extent, free, Nat.add_assoc]

theorem at'_lt {place other : Nat} (room : place < 2 ^ 32) (otherRoom : other < 2 ^ 32) :
    at' place < at' other ↔ place < other := by
  rw [BitVec.lt_def, at'_toNat room, at'_toNat otherRoom]

/-- The search of `free` passes the blocks that lie below the one to free. -/
theorem run_freeTurn {memp count : Nat}
    (laid : Laid memory anywhere before address blocks) (positive : 0 < address)
    (room : memp < 2 ^ 32) (below : address + extent 8 blocks ≤ memp) :
    Lib.Loop.run (freeTurn memory (at' memp)) ((freeAt 8 address blocks).length + count)
        (at' before) =
      Lib.Loop.run (freeTurn memory (at' memp)) count
        (at' (lastFree 8 before address blocks)) := by
  induction blocks generalizing before address with
  | nil => simp [freeAt, placed, lastFree]
  | cons block rest inductionHypothesis =>
      obtain ⟨-, linked, later⟩ := laid
      rw [extent] at below
      have tail := inductionHypothesis later (by omega) (by omega)
      rw [freeAt_cons, lastFree, ← tail]
      cases free : block.free with
      | false => rfl
      | true =>
          have goes : freeTurn memory (at' memp) (at' before) = .inl (at' address) := by
            rw [freeTurn, linked free, if_neg]
            rintro (zero | above)
            · exact at'_ne_zero positive (by omega) zero
            · rw [at'_lt room (by omega)] at above
              omega
          rw [if_pos rfl, List.length_cons, Nat.add_right_comm, Lib.Loop.run_of_goes goes]
          rfl

theorem Laid.listed (laid : Laid memory (· = 0) before address blocks)
    (positive : 0 < address) (room : address + extent 8 blocks < 2 ^ 32) :
    Listed memory (at' before) ((freeAt 8 address blocks).map at') := by
  induction blocks generalizing before address with
  | nil => exact laid
  | cons block rest inductionHypothesis =>
      obtain ⟨-, linked, later⟩ := laid
      rw [extent] at room
      rw [freeAt_cons]
      have listed := inductionHypothesis later (by omega) (by omega)
      cases free : block.free with
      | false =>
          rw [free] at listed
          exact listed
      | true =>
          rw [free] at listed
          exact ⟨at'_ne_zero positive (by omega), linked free, listed⟩

/-- The last of some blocks links to the first free block behind them. -/
theorem Laid.next_eq (laid : Laid memory (· = 0) before address blocks) :
    next memory (at' before) = 0 ∨
      ∃ place ∈ freeAt 8 address blocks, next memory (at' before) = at' place := by
  induction blocks generalizing before address with
  | nil => exact Or.inl laid
  | cons block rest inductionHypothesis =>
      obtain ⟨-, linked, later⟩ := laid
      rw [freeAt_cons]
      cases free : block.free with
      | true => exact Or.inr ⟨address, by simp, linked free⟩
      | false =>
          rw [free] at later
          exact inductionHypothesis later

end Search

/-- Where a pool lies: the bytes of the pool, and the list head outside of it. -/
structure Site where
  avail : Address
  pool : Nat
  size : Nat
  positive : 0 < pool
  large : 8 ≤ size
  room : pool + size < 2 ^ 32
  outside : Outside avail.toNat pool (pool + size)

/-- The blocks that a state of the pool stands for. -/
structure Represents (site : Site) (s : State) (blocks : List Block) : Prop where
  laid : Laid s.memory (· = 0) site.avail.toNat site.pool blocks
  tiles : extent 8 blocks = site.size
  head : (len s.memory site.avail).toNat = site.size
  separated : Separated blocks
  live : s.live.Perm ((usedAt 8 site.pool blocks).map fun place => at' (place + 8))

section Calls

variable {site : Site} {s : State} {first second blocks : List Block} {block : Block}
  {memory changed : Memory}

@[simp]
theorem at'_avail : at' site.avail.toNat = site.avail := by
  simp [at']

theorem at'_add_HLEN {place : Nat} : at' place + HLEN = at' (place + 8) := by
  rw [at', at', BitVec.ofNat_add]
  rfl

theorem length_le_extent : 8 * blocks.length ≤ extent 8 blocks := by
  induction blocks with
  | nil => simp
  | cons block rest inductionHypothesis =>
      rw [List.length_cons, extent]
      omega

/-- The last free one of the first blocks of the pool, or the list head, lies outside
of what is behind them. -/
theorem Site.last_outside (inside : extent 8 first ≤ site.size) :
    Outside (lastFree 8 site.avail.toNat site.pool first)
      (site.pool + extent 8 first) (site.pool + site.size) := by
  have room := site.room
  have outside := site.outside.apart
  have headRoom := site.outside.room
  rcases @lastFree_inside site.avail.toNat site.pool first with head | within
  · rw [head]
    exact ⟨headRoom, by omega⟩
  · exact ⟨by omega, by omega⟩

/-- The length in the list head stays when a block of the pool or the head itself is
linked to another one. -/
theorem Site.len_avail {value : Address} (inside : extent 8 first ≤ site.size) :
    len (setNext memory (at' (lastFree 8 site.avail.toNat site.pool first)) value) site.avail =
      len memory site.avail := by
  have room := site.room
  rcases @lastFree_inside site.avail.toNat site.pool first with head | within
  · rw [head, at'_avail, len_setNext]
  · have only : OnlyIn site.pool (site.pool + site.size) memory
        (setNext memory (at' (lastFree 8 site.avail.toNat site.pool first)) value) :=
      onlyIn_setNext within.1 (by omega) (by omega)
    have kept := (only _ site.outside).2
    rwa [at'_avail] at kept

/-- The first blocks of a pool stay where what is behind them changes. -/
theorem Laid.front (laid : Laid memory anywhere site.avail.toNat site.pool first)
    (inside : extent 8 first ≤ site.size)
    (only : OnlyIn (site.pool + extent 8 first) (site.pool + site.size) memory changed) :
    Laid changed anywhere site.avail.toNat site.pool first := by
  have room := site.room
  have outside := site.outside.apart
  apply laid.move
  · exact (only _ ⟨site.outside.room, by omega⟩).1
  · apply only.sameHeaders <;> omega

section Malloc

/-- The whole of a block is handed out. -/
theorem Represents.give (represents : Represents site s (first ++ block :: second))
    (free : block.free = true) :
    let q := at' (lastFree 8 site.avail.toNat site.pool first)
    let p := at' (site.pool + extent 8 first)
    Represents site ⟨setNext s.memory q (next s.memory p), (p + HLEN) :: s.live⟩
      (first ++ ⟨block.len, false⟩ :: second) := by
  intro q p
  obtain ⟨front, length, -, behind⟩ := laid_append.mp represents.laid
  have tiles := represents.tiles
  rw [extent_append, extent] at tiles
  have room := site.room
  have outside := @Site.last_outside site first (by omega)
  have apart := outside.apart
  have only : OnlyIn _ _ s.memory (setNext s.memory q (next s.memory p)) :=
    onlyIn_setNext le_rfl le_rfl outside.room
  refine ⟨?_, ?_, ?_, ?_, ?_⟩
  · refine laid_append.mpr ⟨?_, ?_, by simp, ?_⟩
    · apply front.relink
      · exact ⟨site.outside.room, by have := site.outside.apart; omega⟩
      · omega
    · rw [(only _ ⟨by omega, by omega⟩).2, length]
    · apply behind.move
      · simp [q, free, p]
      · apply only.sameHeaders <;> omega
  · rw [extent_append, extent]
    exact tiles
  · rw [site.len_avail (by omega)]
    exact represents.head
  · have separated := (separated_around_free free).mp represents.separated
    exact (separated_around rfl).mpr ⟨separated.1, separated.2.1⟩
  · have live := represents.live
    simp only [usedAt_append, usedAt_cons, free, if_true, Bool.false_eq_true, if_false,
      List.map_append, List.map_cons] at live ⊢
    rw [at'_add_HLEN]
    exact (live.cons _).trans List.perm_middle.symm

/-- A block is handed out from the end of a larger one. -/
theorem Represents.split {k size : Nat}
    (represents : Represents site s (first ++ block :: second))
    (free : block.free = true) (fits : block.len = k + 8 + size) :
    let p := at' (site.pool + extent 8 first)
    let q := at' (site.pool + extent 8 first + (8 + k))
    Represents site
      ⟨setNext (setLen (setLen s.memory p (at' k)) q (at' size)) q 0, (q + HLEN) :: s.live⟩
      (first ++ ⟨k, true⟩ :: ⟨size, false⟩ :: second) := by
  intro p q
  obtain ⟨front, -, linked, behind⟩ := laid_append.mp represents.laid
  have tiles := represents.tiles
  rw [extent_append, extent] at tiles
  have room := site.room
  have siteOutside := site.outside.apart
  have outside := @Site.last_outside site first (by omega)
  have lower : OnlyIn (site.pool + extent 8 first) (site.pool + extent 8 first + 8)
      s.memory (setLen s.memory p (at' k)) := onlyIn_setLen le_rfl le_rfl (by omega)
  have upper : OnlyIn (site.pool + extent 8 first + (8 + k))
      (site.pool + extent 8 first + (8 + k) + 8) (setLen s.memory p (at' k))
      (setNext (setLen (setLen s.memory p (at' k)) q (at' size)) q 0) :=
    (onlyIn_setLen le_rfl le_rfl (by omega)).trans (onlyIn_setNext le_rfl le_rfl (by omega))
  have both : OnlyIn (site.pool + extent 8 first) (site.pool + extent 8 first + (8 + k) + 8)
      s.memory (setNext (setLen (setLen s.memory p (at' k)) q (at' size)) q 0) :=
    (lower.wider le_rfl (by omega)).trans (upper.wider (by omega) le_rfl)
  have only := @OnlyIn.wider _ _ _ _ (site.pool + extent 8 first) (site.pool + site.size) both
    le_rfl (by omega)
  have atLower := upper (site.pool + extent 8 first) ⟨by omega, by omega⟩
  refine ⟨?_, ?_, ?_, ?_, ?_⟩
  · refine laid_append.mpr ⟨front.front (by omega) only, ?_, ?_, ?_, by simp, ?_⟩
    · rw [atLower.2, len_setLen, at'_toNat (by omega)]
    · intro _
      rw [(only _ outside).1, linked free]
    · rw [len_setNext, len_setLen, at'_toNat (by omega)]
    · have same : site.pool + extent 8 first + (8 + k) + (8 + size) =
          site.pool + extent 8 first + (8 + block.len) := by omega
      rw [free] at behind
      simp only [if_true, Bool.false_eq_true, if_false, same] at behind ⊢
      apply behind.move
      · rw [atLower.1, next_setLen]
      · apply both.sameHeaders <;> omega
  · simp only [extent_append, extent]
    omega
  · have kept := (only _ ⟨site.outside.room, by omega⟩).2
    rw [at'_avail] at kept
    rw [kept]
    exact represents.head
  · obtain ⟨before, behind, lastUsed, -⟩ := (separated_around_free free).mp represents.separated
    refine (separated_around_free rfl).mpr ⟨before, ?_, lastUsed, by simp⟩
    exact (@separated_around ⟨size, false⟩ [] second rfl).mpr ⟨List.isChain_nil, behind⟩
  · have live := represents.live
    simp only [usedAt_append, usedAt_cons, free, if_true, Bool.false_eq_true, if_false,
      List.map_append, List.map_cons] at live ⊢
    have same : site.pool + extent 8 first + (8 + k) + (8 + size) =
        site.pool + extent 8 first + (8 + block.len) := by omega
    rw [at'_add_HLEN, same]
    exact (live.cons _).trans List.perm_middle.symm

/-- What a call of `malloc` does to a pool. -/
inductive Given (site : Site) (s : State) (blocks : List Block) (size : U32) :
    Address × Memory → Prop where
  | none (tooSmall : ∀ block ∈ blocks, block.free = true → block.len < size.toNat) :
      Given site s blocks size (0, s.memory)
  | block {block : Address} {memory : Memory} {after : List Block}
      (nonzero : block ≠ 0) (enough : size ≤ len memory (block - HLEN))
      (represents : Represents site ⟨memory, block :: s.live⟩ after) :
      Given site s blocks size (block, memory)

/-- What `takeFrom` does with a block, in numbers. -/
theorem takeFrom_eq {size : U32} {memory : Memory} {q : Address} {place bytes : Nat}
    (length : (len memory (at' place)).toNat = bytes) (enough : size.toNat ≤ bytes) :
    MemoryPool.takeFrom size memory q (at' place) =
      if bytes - size.toNat < 32 then
        (at' place + HLEN, setNext memory q (next memory (at' place)))
      else
        (at' (place + bytes - size.toNat) + HLEN,
          setNext (setLen (setLen memory (at' place) (at' (bytes - size.toNat - 8)))
            (at' (place + bytes - size.toNat)) size) (at' (place + bytes - size.toNat)) 0) := by
  have less : (len memory (at' place) - size).toNat = bytes - size.toNat := by
    rw [BitVec.toNat_sub_of_le, length]
    rw [BitVec.le_def, length]
    exact enough
  have header : HLEN.toNat = 8 := by decide
  have few : len memory (at' place) - size < MIN_BLOCK ↔ bytes - size.toNat < 32 := by
    rw [BitVec.lt_def, less, show MIN_BLOCK.toNat = 32 by decide]
  rw [MemoryPool.takeFrom]
  by_cases small : bytes - size.toNat < 32
  · rw [if_pos (few.mpr small), if_pos small]
  · rw [if_neg (few.not.mpr small), if_neg small]
    have left : len memory (at' place) - size - HLEN = at' (bytes - size.toNat - 8) := by
      apply BitVec.eq_of_toNat_eq
      rw [BitVec.toNat_sub_of_le, less, at', BitVec.toNat_ofNat, Nat.mod_eq_of_lt, header]
      · have small := (len memory (at' place)).isLt
        omega
      · rw [BitVec.le_def, less, header]
        omega
    have upper : at' place + HLEN + at' (bytes - size.toNat - 8) =
        at' (place + bytes - size.toNat) := by
      rw [at'_add_HLEN, at', at', at', ← BitVec.ofNat_add]
      congr 1
      omega
    simp only [left, upper]

theorem Represents.takeFrom {size : U32}
    (represents : Represents site s (first ++ block :: second)) (free : block.free = true)
    (enough : size.toNat ≤ block.len) :
    Given site s (first ++ block :: second) size
      (MemoryPool.takeFrom size s.memory (at' (lastFree 8 site.avail.toNat site.pool first))
        (at' (site.pool + extent 8 first))) := by
  have room := site.room
  have tiles := represents.tiles
  rw [extent_append, extent] at tiles
  obtain ⟨-, length, -, -⟩ := laid_append.mp represents.laid
  rw [takeFrom_eq length enough]
  split
  · have given := represents.give free
    obtain ⟨-, givenLen, -, -⟩ := laid_append.mp given.laid
    apply Given.block _ _ given
    · rw [at'_add_HLEN]
      apply at'_ne_zero <;> omega
    · rw [BitVec.add_sub_cancel, BitVec.le_def, givenLen]
      exact enough
  · rename_i large
    have given := @Represents.split site s first second block (block.len - size.toNat - 8)
      size.toNat represents free (by omega)
    have upper : site.pool + extent 8 first + (8 + (block.len - size.toNat - 8)) =
        site.pool + extent 8 first + block.len - size.toNat := by
      omega
    have size_eq : at' size.toNat = size := by simp [at']
    simp only [size_eq, upper] at given
    apply Given.block _ _ given
    · rw [at'_add_HLEN]
      apply at'_ne_zero <;> omega
    · rw [BitVec.add_sub_cancel, len_setNext, len_setLen]
      exact BitVec.le_refl _

/-- The block that the search finds. -/
theorem Represents.malloc_eq {blocks : List Block} (represents : Represents site s blocks)
    (size : U32) :
    MemoryPool.malloc site.avail size s.memory =
      some (match firstFit size.toNat blocks with
        | none => (0, s.memory)
        | some (first, _, _) =>
            MemoryPool.takeFrom size s.memory (at' (lastFree 8 site.avail.toNat site.pool first))
              (at' (site.pool + extent 8 first))) := by
  have room := site.room
  have tiles := represents.tiles
  have bound := @length_le_extent blocks
  have search := @run_mallocTurn _ _ _ _ size turns represents.laid site.positive
    (by omega) (by rw [turns]; omega)
  rw [at'_avail] at search
  rw [MemoryPool.malloc, search]
  cases firstFit size.toNat blocks with
  | none => rfl
  | some fit => rfl

theorem Represents.malloc {blocks : List Block} (represents : Represents site s blocks)
    (size : U32) :
    ∃ given, MemoryPool.malloc site.avail size s.memory = some given ∧
      Given site s blocks size given := by
  refine ⟨_, represents.malloc_eq size, ?_⟩
  cases found : firstFit size.toNat blocks with
  | none => exact .none (firstFit_none found)
  | some fit =>
      obtain ⟨first, block, second⟩ := fit
      obtain ⟨rfl, free, enough⟩ := firstFit_some found
      exact represents.takeFrom free enough

end Malloc

section Free

variable {before p0 : Nat}

theorem at'_add_len {place : Nat} {amount : U32} :
    at' place + amount = at' (place + amount.toNat) := by
  rw [at', at', BitVec.ofNat_add, BitVec.ofNat_toNat, BitVec.setWidth_eq]

/-- Behind a block that is not free the next free block does not follow at once. -/
theorem Laid.next_ne {block : Block}
    (laid : Laid memory (· = 0) before p0 (block :: second)) (used : block.free = false)
    (room : p0 + extent 8 (block :: second) < 2 ^ 32)
    (nonzero : next memory (at' before) ≠ 0) : at' p0 ≠ next memory (at' before) := by
  obtain ⟨-, -, later⟩ := laid
  rw [used] at later
  rcases later.next_eq with zero | ⟨place, member, link⟩
  · exact absurd zero nonzero
  · simp only [Bool.false_eq_true, if_false] at link
    obtain ⟨entry, inside, same⟩ := List.mem_map.mp member
    have within := placed_inside (List.mem_of_mem_filter inside)
    rw [extent] at room
    rw [link]
    intro equal
    have toNat := congrArg BitVec.toNat equal
    rw [at'_toNat (by omega), at'_toNat (by omega)] at toNat
    omega

/-- The block to free is linked to the next free block. -/
theorem Laid.linkNext
    (laid : Laid memory (· = 0) before (p0 + (8 + block.len)) second)
    (length : (len memory (at' p0)).toNat = block.len)
    (room : p0 + (8 + block.len) + extent 8 second < 2 ^ 32) :
    let changed := setNext memory (at' p0) (next memory (at' before))
    OnlyIn p0 (p0 + 8) memory changed ∧
      (len changed (at' p0)).toNat = block.len ∧
      Laid changed (· = 0) p0 (p0 + (8 + block.len)) second := by
  intro changed
  have only : OnlyIn p0 (p0 + 8) memory changed := onlyIn_setNext le_rfl le_rfl (by omega)
  refine ⟨only, by rw [len_setNext, length], ?_⟩
  apply laid.move
  · exact next_setNext
  · apply only.sameHeaders <;> omega

/-- The block to free is joined with the block behind it if that is free, and linked
to the next free block otherwise. -/
theorem Laid.joinNext
    (laid : Laid memory (· = 0) before (p0 + (8 + block.len)) second)
    (length : (len memory (at' p0)).toNat = block.len)
    (room : p0 + (8 + block.len) + extent 8 second < 2 ^ 32) :
    let changed := MemoryPool.joinNext memory (at' (p0 + 8)) (at' p0) (next memory (at' before))
    let joined := joinBehind 8 block.len second
    OnlyIn p0 (p0 + 8) memory changed ∧
      (len changed (at' p0)).toNat = joined.1.len ∧
      Laid changed (· = 0) p0 (p0 + (8 + joined.1.len)) joined.2 := by
  have ends : at' (p0 + 8) + len memory (at' p0) = at' (p0 + (8 + block.len)) := by
    rw [at'_add_len, length, Nat.add_assoc]
  cases second with
  | nil =>
      have last : ¬ (next memory (at' before) ≠ 0 ∧
          at' (p0 + 8) + len memory (at' p0) = next memory (at' before)) :=
        fun both => both.1 laid
      simp only [MemoryPool.joinNext, if_neg last]
      exact laid.linkNext length room
  | cons following rest =>
      cases free : following.free with
      | false =>
          have apart : ¬ (next memory (at' before) ≠ 0 ∧
              at' (p0 + 8) + len memory (at' p0) = next memory (at' before)) := by
            rintro ⟨nonzero, same⟩
            rw [ends] at same
            exact laid.next_ne free room nonzero same
          simp only [MemoryPool.joinNext, if_neg apart, joinBehind, free, Bool.false_eq_true,
            if_false]
          exact laid.linkNext length room
      | true =>
          obtain ⟨lengthNext, linked, later⟩ := laid
          rw [extent] at room
          have link := linked free
          have joins : next memory (at' before) ≠ 0 ∧
              at' (p0 + 8) + len memory (at' p0) = next memory (at' before) := by
            rw [ends, link]
            exact ⟨at'_ne_zero (by omega) (by omega), rfl⟩
          simp only [MemoryPool.joinNext, if_pos joins, joinBehind, free, if_true] at later ⊢
          rw [link]
          have sum : (len memory (at' p0) +
              (len memory (at' (p0 + (8 + block.len))) + HLEN)).toNat =
                block.len + (8 + following.len) := by
            rw [BitVec.toNat_add, BitVec.toNat_add, length, lengthNext,
              show HLEN.toNat = 8 by decide]
            omega
          generalize len memory (at' p0) +
            (len memory (at' (p0 + (8 + block.len))) + HLEN) = amount at sum ⊢
          have lengthen : OnlyIn p0 (p0 + 8) memory (setLen memory (at' p0) amount) :=
            onlyIn_setLen le_rfl le_rfl (by omega)
          have only := lengthen.trans (@onlyIn_setNext _ _ _ _
            (next (setLen memory (at' p0) amount) (at' (p0 + (8 + block.len))))
            le_rfl le_rfl (by omega))
          refine ⟨only, by rw [len_setNext, len_setLen, sum], ?_⟩
          rw [show p0 + (8 + (block.len + (8 + following.len))) =
            p0 + (8 + block.len) + (8 + following.len) by omega]
          apply later.move
          · rw [next_setNext, (lengthen _ ⟨by omega, by omega⟩).1]
          · apply only.sameHeaders <;> omega

section Previous

variable {merged : Nat} {rest : List Block}

/-- The freed block is linked behind the free block before it, or behind the list
head. -/
theorem Laid.linkPrevious
    (front : Laid memory anywhere site.avail.toNat site.pool first)
    (length : (len memory (at' (site.pool + extent 8 first))).toNat = merged)
    (behind : Laid memory (· = 0) (site.pool + extent 8 first)
      (site.pool + extent 8 first + (8 + merged)) rest)
    (tiles : extent 8 first + (8 + merged + extent 8 rest) = site.size) :
    Laid (setNext memory (at' (lastFree 8 site.avail.toNat site.pool first))
      (at' (site.pool + extent 8 first))) (· = 0) site.avail.toNat site.pool
      (first ++ ⟨merged, true⟩ :: rest) := by
  have room := site.room
  have siteOutside := site.outside
  have siteApart := siteOutside.apart
  have outside := @Site.last_outside site first (by omega)
  have apart := outside.apart
  have only : OnlyIn _ _ memory (setNext memory
      (at' (lastFree 8 site.avail.toNat site.pool first)) (at' (site.pool + extent 8 first))) :=
    onlyIn_setNext le_rfl le_rfl outside.room
  have here := only (site.pool + extent 8 first) ⟨by omega, by omega⟩
  refine laid_append.mpr ⟨?_, by rw [here.2, length], fun _ => next_setNext, ?_⟩
  · apply front.relink ⟨siteOutside.room, by omega⟩
    omega
  · apply behind.move
    · exact here.1
    · apply only.sameHeaders <;> omega

/-- The freed block is joined with the free block that ends where it starts. -/
theorem Laid.joinPrevious {last : Block}
    (front : Laid memory anywhere site.avail.toNat site.pool (first ++ [last]))
    (free : last.free = true)
    (length : (len memory (at' (site.pool + extent 8 first + (8 + last.len)))).toNat = merged)
    (behind : Laid memory (· = 0) (site.pool + extent 8 first + (8 + last.len))
      (site.pool + extent 8 first + (8 + last.len) + (8 + merged)) rest)
    (tiles : extent 8 first + (8 + last.len + (8 + merged + extent 8 rest)) = site.size) :
    let changed := MemoryPool.joinPrevious memory (at' (site.pool + extent 8 first))
      (at' (site.pool + extent 8 first + (8 + last.len)))
    Laid changed (· = 0) site.avail.toNat site.pool
        (first ++ ⟨last.len + (8 + merged), true⟩ :: rest) ∧
      len changed site.avail = len memory site.avail := by
  intro changed
  have room := site.room
  have siteApart := site.outside.apart
  obtain ⟨start, lengthLast, linked, -⟩ := laid_append.mp front
  have outside := @Site.last_outside site first (by omega)
  have joins : at' (site.pool + extent 8 first) + len memory (at' (site.pool + extent 8 first)) +
      HLEN = at' (site.pool + extent 8 first + (8 + last.len)) := by
    rw [at'_add_len, lengthLast, at'_add_HLEN]
    congr 1
    omega
  simp only [changed, MemoryPool.joinPrevious, if_pos joins]
  have sum : (len memory (at' (site.pool + extent 8 first)) +
      (len memory (at' (site.pool + extent 8 first + (8 + last.len))) + HLEN)).toNat =
        last.len + (8 + merged) := by
    rw [BitVec.toNat_add, BitVec.toNat_add, length, lengthLast, show HLEN.toNat = 8 by decide]
    omega
  generalize len memory (at' (site.pool + extent 8 first)) +
    (len memory (at' (site.pool + extent 8 first + (8 + last.len))) + HLEN) = amount at sum ⊢
  have lengthen : OnlyIn (site.pool + extent 8 first) (site.pool + extent 8 first + 8) memory
      (setLen memory (at' (site.pool + extent 8 first)) amount) :=
    onlyIn_setLen le_rfl le_rfl (by omega)
  have only := lengthen.trans (@onlyIn_setNext _ _ _ _
    (next (setLen memory (at' (site.pool + extent 8 first)) amount)
      (at' (site.pool + extent 8 first + (8 + last.len))))
    le_rfl le_rfl (by omega))
  have within := @OnlyIn.wider _ _ _ _ (site.pool + extent 8 first) (site.pool + site.size) only
    le_rfl (by omega)
  refine ⟨laid_append.mpr ⟨start.front (by omega) within, ?_, ?_, ?_⟩, ?_⟩
  · rw [len_setNext, len_setLen, sum]
  · intro _
    rw [(within _ outside).1, linked free]
  · rw [show site.pool + extent 8 first + (8 + (last.len + (8 + merged))) =
      site.pool + extent 8 first + (8 + last.len) + (8 + merged) by omega]
    apply behind.move
    · simp only [if_true]
      rw [next_setNext, (lengthen _ ⟨by omega, by omega⟩).1]
    · apply only.sameHeaders <;> omega
  · have kept := (within _ ⟨site.outside.room, by omega⟩).2
    rwa [at'_avail] at kept

end Previous

/-- The places of blocks behind an address. -/
theorem le_of_mem_freeAt {place : Nat} (member : place ∈ freeAt 8 address blocks) :
    address ≤ place ∧ place + 8 ≤ address + extent 8 blocks := by
  obtain ⟨entry, inside, same⟩ := List.mem_map.mp member
  have within := placed_inside (List.mem_of_mem_filter inside)
  subst same
  omega

theorem Represents.listed (represents : Represents site s blocks) :
    Listed s.memory site.avail ((freeAt 8 site.pool blocks).map at') := by
  have tiles := represents.tiles
  have room := site.room
  have listed := represents.laid.listed site.positive (by omega)
  rwa [at'_avail] at listed

section Freed

variable (represents : Represents site s (first ++ block :: second))
  (used : block.free = false)
  (clear : Clear site.avail s (.free (at' (site.pool + extent 8 first + 8))))

include represents used

theorem Represents.freed_laid :
    Laid s.memory anywhere site.avail.toNat site.pool first ∧
      (len s.memory (at' (site.pool + extent 8 first))).toNat = block.len ∧
      Laid s.memory (· = 0) (lastFree 8 site.avail.toNat site.pool first)
        (site.pool + extent 8 first + (8 + block.len)) second ∧
      extent 8 first + (8 + block.len + extent 8 second) = site.size := by
  obtain ⟨front, length, -, behind⟩ := laid_append.mp represents.laid
  have tiles := represents.tiles
  rw [extent_append, extent] at tiles
  rw [used] at behind
  exact ⟨front, length, behind, tiles⟩

include clear

/-- The free blocks behind the block to free start behind its first byte. -/
theorem Represents.behind_freed {place : Nat}
    (member : place ∈ freeAt 8 (site.pool + extent 8 first + (8 + block.len)) second) :
    site.pool + extent 8 first + 8 < place := by
  obtain ⟨-, length, -, -⟩ := represents.freed_laid used
  have inside := le_of_mem_freeAt member
  by_contra notBehind
  have zero : len s.memory (at' (site.pool + extent 8 first + 8) - HLEN) = 0 := by
    rw [← at'_add_HLEN, BitVec.add_sub_cancel]
    apply BitVec.eq_of_toNat_eq
    rw [length]
    change block.len = 0
    omega
  apply (clear _ represents.listed).1 zero
  apply List.mem_map.mpr
  refine ⟨place, ?_, by congr 1; omega⟩
  rw [freeAt_append, freeAt_cons, used]
  exact List.mem_append_right _ member

/-- The search of `free` ends at the block to free. -/
theorem Represents.search :
    Lib.Loop.run (freeTurn s.memory (at' (site.pool + extent 8 first + 8))) turns site.avail =
      some (at' (lastFree 8 site.avail.toNat site.pool first),
        next s.memory (at' (lastFree 8 site.avail.toNat site.pool first))) := by
  obtain ⟨front, length, behind, tiles⟩ := represents.freed_laid used
  have room := site.room
  have bound := @length_le_extent first
  have fewer := @length_freeAt_le 8 site.pool first
  obtain ⟨count, enough⟩ : ∃ count, turns = (freeAt 8 site.pool first).length + (count + 1) :=
    ⟨turns - (freeAt 8 site.pool first).length - 1, by rw [turns]; omega⟩
  have passed := @run_freeTurn _ _ _ _ (site.pool + extent 8 first + 8) (count + 1) front
    site.positive (by omega) (by omega)
  rw [at'_avail, ← enough] at passed
  rw [passed]
  apply Lib.Loop.run_of_leaves
  apply if_pos
  rcases behind.next_eq with zero | ⟨place, member, link⟩
  · exact Or.inl zero
  · right
    have inside := le_of_mem_freeAt member
    have behindFreed := represents.behind_freed used clear member
    rw [link, at'_lt (by omega) (by omega)]
    exact behindFreed

/-- The block to free is joined with the blocks around it or linked between them. -/
theorem Represents.joined :
    let q := lastFree 8 site.avail.toNat site.pool first
    let p0 := site.pool + extent 8 first
    let changed := MemoryPool.joinNext s.memory (at' (p0 + 8)) (at' p0) (next s.memory (at' q))
    ∃ after, Laid (joinPrevious changed (at' q) (at' p0)) (· = 0) site.avail.toNat site.pool
        after ∧
      len (joinPrevious changed (at' q) (at' p0)) site.avail = len s.memory site.avail ∧
      extent 8 after = site.size ∧ Separated after ∧
      usedAt 8 site.pool after =
        usedAt 8 site.pool first ++ usedAt 8 (p0 + (8 + block.len)) second ∧
      ∀ left ∈ after, left.free = false → left ∈ first ++ second := by
  intro q p0 changed
  obtain ⟨front, length, behind, tiles⟩ := represents.freed_laid used
  have room := site.room
  have siteApart := site.outside.apart
  obtain ⟨only, length', behind'⟩ : OnlyIn p0 (p0 + 8) s.memory changed ∧
      (len changed (at' p0)).toNat = (joinBehind 8 block.len second).1.len ∧
      Laid changed (· = 0) p0 (p0 + (8 + (joinBehind 8 block.len second).1.len))
        (joinBehind 8 block.len second).2 := behind.joinNext length (by omega)
  have inPool := @OnlyIn.wider _ _ _ _ (site.pool + extent 8 first) (site.pool + site.size) only
    le_rfl (by omega)
  have front' := front.front (by omega) inPool
  have headLen : len changed site.avail = len s.memory site.avail := by
    have kept := (inPool site.avail.toNat ⟨site.outside.room, by omega⟩).2
    rwa [at'_avail] at kept
  clear_value changed
  have whole := @extent_joinBehind 8 second block.len
  have places := @usedAt_joinBehind 8 (site.pool + extent 8 first) second block.len
  have isFree := @joinBehind_free 8 second block.len
  have apart := (separated_around used).mp represents.separated
  obtain ⟨apartBehind, lastUsed⟩ := @separated_joinBehind 8 second block.len apart.2
  have left := @mem_of_mem_joinBehind 8 second block.len
  generalize joinBehind 8 block.len second = joined
    at length' behind' whole places apartBehind lastUsed isFree left
  obtain ⟨⟨merged, mergedFree⟩, rest⟩ := joined
  simp only at length' behind' whole places apartBehind lastUsed isFree left
  subst isFree
  have linked (notJoins : at' q + len changed (at' q) + HLEN ≠ at' p0)
      (lastUsed' : ∀ last ∈ first.getLast?, last.free = false) :
      ∃ after, Laid (joinPrevious changed (at' q) (at' p0)) (· = 0) site.avail.toNat site.pool
          after ∧
        len (joinPrevious changed (at' q) (at' p0)) site.avail = len s.memory site.avail ∧
        extent 8 after = site.size ∧ Separated after ∧
        usedAt 8 site.pool after =
          usedAt 8 site.pool first ++ usedAt 8 (p0 + (8 + block.len)) second ∧
        ∀ left ∈ after, left.free = false → left ∈ first ++ second := by
    refine ⟨first ++ ⟨merged, true⟩ :: rest, ?_, ?_, ?_, ?_, ?_, ?_⟩
    · rw [joinPrevious, if_neg notJoins]
      exact front'.linkPrevious length' behind' (by omega)
    · rw [joinPrevious, if_neg notJoins, site.len_avail (by omega), headLen]
    · simp only [extent_append, extent]
      omega
    · exact (separated_around_free rfl).mpr ⟨apart.1, apartBehind, lastUsed', lastUsed⟩
    · rw [usedAt_append, usedAt_cons, if_pos rfl, places]
    · exact mem_around_of_used rfl left
  rcases @lastFree_cases 8 site.pool site.avail.toNat first with
    ⟨head, none⟩ | ⟨init, last, later, split, lastIsFree, allUsed, place⟩
  · apply linked
    · have behindAll : ∀ p ∈ (freeAt 8 site.pool (first ++ block :: second)).map at',
          at' (p0 + 8) < p := by
        rw [freeAt_append, freeAt_cons, none, used]
        simp only [List.nil_append, Bool.false_eq_true, if_false]
        intro p inList
        obtain ⟨place, member, rfl⟩ := List.mem_map.mp inList
        have inside := le_of_mem_freeAt member
        rw [at'_lt (by omega) (by omega)]
        exact represents.behind_freed used clear member
      have notHead := (clear _ represents.listed).2 behindAll
      rw [show at' q = site.avail by rw [show q = _ from head, at'_avail], headLen]
      rwa [← at'_add_HLEN, BitVec.add_sub_cancel] at notHead
    · intro last member
      exact freeAt_eq_nil.mp none last (List.mem_of_mem_getLast? member)
  · subst split
    obtain ⟨-, lastLen, -, -⟩ := laid_append.mp front'
    cases later with
    | cons next later =>
        apply linked
        · rw [show q = site.pool + extent 8 init from place, at'_add_len, lastLen, at'_add_HLEN]
          simp only [p0, extent_append, extent] at tiles ⊢
          intro same
          have toNat := congrArg BitVec.toNat same
          rw [at'_toNat (by omega), at'_toNat (by omega)] at toNat
          omega
        · intro final member
          apply allUsed
          rw [List.getLast?_append_cons, List.getLast?_cons_cons] at member
          exact List.mem_of_mem_getLast? member
    | nil =>
        have ends : p0 = site.pool + extent 8 init + (8 + last.len) := by
          simp only [p0, extent_append, extent]
          omega
        obtain ⟨initApart, -, initUsed, -⟩ := (separated_around_free lastIsFree).mp apart.1
        simp only [extent_append, extent] at tiles
        rw [ends] at length' behind' ⊢
        obtain ⟨laid, head⟩ := front'.joinPrevious lastIsFree length' behind' (by omega)
        rw [show q = site.pool + extent 8 init from place]
        refine ⟨_, laid, head.trans headLen, ?_, ?_, ?_, ?_⟩
        · simp only [extent_append, extent]
          omega
        · exact (separated_around_free rfl).mpr ⟨initApart, apartBehind, initUsed, lastUsed⟩
        · rw [show site.pool + extent 8 (init ++ [last]) = _ from ends] at places
          rw [usedAt_append, usedAt_append, usedAt_cons, usedAt_cons, if_pos rfl, if_pos lastIsFree,
            ← places]
          simp [usedAt, placed, Nat.add_assoc]
        · intro block member used
          have around := mem_around_of_used rfl left block member used
          rw [List.append_assoc]
          exact (List.Sublist.append_left (List.sublist_append_right [last] second) init).subset
            around

end Freed

/-- A call of `free` on a live block. -/
theorem Represents.free {blocks : List Block} (represents : Represents site s blocks)
    {memp : Address} (member : memp ∈ s.live)
    (clear : Clear site.avail s (.free memp)) :
    ∃ memory after, MemoryPool.free site.avail memp s.memory = some memory ∧
      Represents site ⟨memory, s.live.erase memp⟩ after ∧
      ∀ block ∈ after, block.free = false → block ∈ blocks := by
  obtain ⟨place, isUsed, same⟩ := List.mem_map.mp (represents.live.mem_iff.mp member)
  obtain ⟨first, block, second, split, used, at_⟩ := exists_of_mem_usedAt isUsed
  subst split at_ same
  obtain ⟨-, -, -, tiles⟩ := represents.freed_laid used
  have room := site.room
  have positive := site.positive
  obtain ⟨after, laid, head, extents, separated, places, left⟩ := represents.joined used clear
  have nonzero : ¬ (at' (site.pool + extent 8 first + 8) = 0 ∨ len s.memory site.avail = 0) := by
    rintro (zero | empty)
    · exact at'_ne_zero (by omega) (by omega) zero
    · have size := represents.head
      rw [empty] at size
      change 0 = site.size at size
      omega
  refine ⟨joinPrevious (joinNext s.memory (at' (site.pool + extent 8 first + 8))
      (at' (site.pool + extent 8 first))
      (next s.memory (at' (lastFree 8 site.avail.toNat site.pool first))))
    (at' (lastFree 8 site.avail.toNat site.pool first)) (at' (site.pool + extent 8 first)),
    after, ?_, ⟨laid, extents, (congrArg BitVec.toNat head).trans represents.head, separated, ?_⟩,
    ?_⟩
  · rw [MemoryPool.free, if_neg nonzero, represents.search used clear, Option.map_some,
      ← @at'_add_HLEN (site.pool + extent 8 first), BitVec.add_sub_cancel, at'_add_HLEN]
  · have live := represents.live
    rw [places]
    simp only [usedAt_append, usedAt_cons, used, Bool.false_eq_true, if_false, List.map_append,
      List.map_cons] at live ⊢
    rw [← List.erase_cons_head (at' (site.pool + extent 8 first + 8))
      (_ ++ List.map (fun place => at' (place + 8)) _)]
    exact (live.trans List.perm_middle).erase _
  · intro entry member isLive
    exact (List.Sublist.append_left (List.sublist_cons_self block second) first).subset
      (left entry member isLive)

/-- The bytes behind the header of a block are its own: whatever they become, the pool stays. -/
theorem Represents.inside (represents : Represents site s (first ++ block :: second))
    (same : ∀ byte : Address, byte.toNat < site.pool + extent 8 first + 8 ∨
      site.pool + extent 8 first + 8 + block.len ≤ byte.toNat → changed byte = s.memory byte) :
    Represents site ⟨changed, s.live⟩ (first ++ block :: second) := by
  have tiles := represents.tiles
  rw [extent_append, extent] at tiles
  have room := site.room
  have siteApart := site.outside.apart
  have siteRoom := site.outside.room
  have kept : ∀ header, (header + 8 ≤ site.pool + extent 8 first + 8 ∨
      site.pool + extent 8 first + 8 + block.len ≤ header) → header + 8 ≤ 2 ^ 32 →
      next changed (at' header) = next s.memory (at' header) ∧
        len changed (at' header) = len s.memory (at' header) := by
    intro header apart headerRoom
    have number : (at' header).toNat = header := at'_toNat (by omega)
    constructor
    · apply load_congr
      intro byte near
      apply same
      rw [BitVec.toNat_sub, number] at near
      omega
    · apply load_congr
      intro byte near
      apply same
      rw [BitVec.toNat_sub, BitVec.toNat_add, number, show (4 : U32).toNat = 4 from rfl] at near
      omega
  have head := kept site.avail.toNat (by omega) siteRoom
  rw [at'_avail] at head
  refine ⟨?_, represents.tiles, (congrArg BitVec.toNat head.2).trans represents.head,
    represents.separated, represents.live⟩
  apply represents.laid.move
  · rw [at'_avail]
    exact head.1
  · intro entry placedThere
    rw [placed_append, List.mem_append, placed, List.mem_cons] at placedThere
    rcases placedThere with before | here | behind
    · have within := placed_inside before
      exact kept _ (by omega) (by omega)
    · rw [here]
      exact kept _ (by simp) (by simp; omega)
    · have within := placed_inside behind
      exact kept _ (by omega) (by omega)

/-- The bytes of a live block are those of its owner. -/
theorem Represents.within {blocks : List Block} (represents : Represents site s blocks)
    {memp : Address} (member : memp ∈ s.live)
    (only : ∀ byte, (len s.memory (memp - HLEN)).toNat ≤ (byte - memp).toNat →
      changed byte = s.memory byte) :
    Represents site ⟨changed, s.live⟩ blocks := by
  obtain ⟨place, isUsed, same⟩ := List.mem_map.mp (represents.live.mem_iff.mp member)
  obtain ⟨first, block, second, split, used, at_⟩ := exists_of_mem_usedAt isUsed
  subst split at_ same
  obtain ⟨-, length, -, tiles⟩ := represents.freed_laid used
  have room := site.room
  rw [← at'_add_HLEN, BitVec.add_sub_cancel, length, at'_add_HLEN] at only
  apply represents.inside
  intro byte outside
  apply only
  rw [BitVec.toNat_sub, at'_toNat (by omega)]
  omega

/-- A store into a live block. -/
theorem Represents.write {blocks : List Block} (represents : Represents site s blocks)
    {address : Address} {value : BitVec 8} (legal : Legal s (.write address value)) :
    Represents site ⟨Function.update s.memory address value, s.live⟩ blocks := by
  obtain ⟨memp, member, inside⟩ := legal
  apply represents.within member
  intro byte outside
  apply Function.update_of_ne
  rintro rfl
  omega

end Free

end Calls

section Soundness

/-- A place in the block behind a header, or in the header. -/
def Covers (memory : Memory) (header : Address) (place : Nat) : Prop :=
  header.toNat ≤ place ∧ place < header.toNat + 8 + (len memory header).toNat

/-- The free blocks are listed in the order of their addresses and never touch each
other; free and live blocks tile the pool. -/
structure Sound (site : Site) (s : State) (frees : List Address) : Prop where
  listed : Listed s.memory site.avail frees
  ascending : frees.Pairwise (· < ·)
  disjoint : (frees ++ s.live.map (· - HLEN)).Pairwise fun header other =>
    ∀ place, ¬ (Covers s.memory header place ∧ Covers s.memory other place)
  tiled : ∀ place, site.pool ≤ place ∧ place < site.pool + site.size ↔
    ∃ header ∈ frees ++ s.live.map (· - HLEN), Covers s.memory header place
  apart : ∀ header ∈ frees, ∀ other ∈ frees,
    header.toNat + 8 + (len s.memory header).toNat ≠ other.toNat

variable {site : Site} {s : State} {blocks : List Block}

theorem Laid.len_eq {memory : Memory} {ends : Address → Prop} {before address : Nat}
    (laid : Laid memory ends before address blocks) :
    ∀ entry ∈ placed 8 address blocks, (len memory (at' entry.1)).toNat = entry.2.len := by
  induction blocks generalizing before address with
  | nil => simp [placed]
  | cons block rest inductionHypothesis =>
      obtain ⟨length, -, later⟩ := laid
      exact List.forall_mem_cons.mpr ⟨length, inductionHypothesis later⟩

/-- The headers of the free and of the live blocks are those of all blocks. -/
theorem Represents.headers_perm (represents : Represents site s blocks) :
    ((freeAt 8 site.pool blocks).map at' ++ s.live.map (· - HLEN)).Perm
      ((placed 8 site.pool blocks).map fun entry => at' entry.1) := by
  have live := (represents.live.map (· - HLEN)).append_left
    ((freeAt 8 site.pool blocks).map at')
  refine live.trans ?_
  rw [List.map_map]
  have same : ((fun header => header - HLEN) ∘ fun place => at' (place + 8)) = at' := by
    funext place
    simp only [Function.comp_apply, ← at'_add_HLEN, BitVec.add_sub_cancel]
  rw [same, ← List.map_append]
  have perm := (@freeAt_append_usedAt_perm 8 site.pool blocks).map at'
  rwa [List.map_map] at perm

theorem exists_of_mem_freeAt {address : Nat} {header : Address}
    (isFree : header ∈ (freeAt 8 address blocks).map at') :
    ∃ entry ∈ placed 8 address blocks, entry.2.free = true ∧ at' entry.1 = header := by
  obtain ⟨place, inList, rfl⟩ := List.mem_map.mp isFree
  obtain ⟨entry, filtered, rfl⟩ := List.mem_map.mp inList
  obtain ⟨member, free⟩ := List.mem_filter.mp filtered
  exact ⟨entry, member, free, rfl⟩

theorem Represents.sound (represents : Represents site s blocks) :
    Sound site s ((freeAt 8 site.pool blocks).map at') := by
  have room := site.room
  have tiles := represents.tiles
  have lens := represents.laid.len_eq
  have inside : ∀ entry ∈ placed 8 site.pool blocks, (at' entry.1).toNat = entry.1 := by
    intro entry member
    have within := placed_inside member
    exact at'_toNat (by omega)
  have perm := represents.headers_perm
  refine ⟨represents.listed, ?_, ?_, ?_, ?_⟩
  · rw [List.pairwise_map]
    apply (freeAt_ascending (by decide)).imp_of_mem
    intro place other member otherMember less
    have := le_of_mem_freeAt member
    have := le_of_mem_freeAt otherMember
    rw [at'_lt (by omega) (by omega)]
    exact less
  · rw [perm.pairwise_iff, List.pairwise_map]
    · apply placed_ascending.imp_of_mem
      intro entry other member otherMember ends place
      rw [Covers, Covers, inside _ member, inside _ otherMember, lens _ member, lens _ otherMember]
      omega
    · intro header other disjoint place both
      exact disjoint place ⟨both.2, both.1⟩
  · intro place
    constructor
    · rintro ⟨above, below⟩
      obtain ⟨entry, member, covers⟩ := @placed_covers 8 site.pool blocks place above (by omega)
      refine ⟨at' entry.1, perm.mem_iff.mpr (List.mem_map_of_mem member), ?_⟩
      rw [Covers, inside _ member, lens _ member]
      omega
    · rintro ⟨header, isHeader, covers⟩
      obtain ⟨entry, member, rfl⟩ := List.mem_map.mp (perm.mem_iff.mp isHeader)
      rw [Covers, inside _ member, lens _ member] at covers
      have within := placed_inside member
      omega
  · intro header isFree other otherIsFree
    obtain ⟨entry, member, free, rfl⟩ := exists_of_mem_freeAt isFree
    obtain ⟨other, otherMember, otherFree, rfl⟩ := exists_of_mem_freeAt otherIsFree
    have ends := placed_apart (by decide) represents.separated member otherMember free otherFree
    rw [inside _ member, inside _ otherMember, lens _ member]
    omega

/-- With no live block the pool is one free block again. -/
theorem Represents.single (represents : Represents site s blocks) (none : s.live = []) :
    blocks = [⟨site.size - 8, true⟩] := by
  have large := site.large
  have tiles := represents.tiles
  have live := represents.live
  rw [none, List.nil_perm, List.map_eq_nil_iff, usedAt_eq_nil] at live
  have single := represents.separated.length_le_one live
  cases blocks with
  | nil =>
      change 0 = site.size at tiles
      omega
  | cons block rest =>
      have last : rest = [] := List.eq_nil_of_length_eq_zero (by simpa using single)
      subst last
      obtain ⟨len, free⟩ := block
      have isFree : free = true := live ⟨len, free⟩ (by simp)
      subst isFree
      simp only [extent] at tiles
      simp only [List.cons.injEq, Block.mk.injEq, and_true]
      omega

end Soundness

section Start

/-- A buffer for the pool: large enough for `initMempool`, and apart from the list
head. -/
structure Buffer where
  avail : Address
  pool : Address
  size : U32
  large : MIN_POOL_SIZE ≤ size
  room : pool.toNat + size.toNat < 2 ^ 32
  outside : Outside avail.toNat pool.toNat (pool.toNat + size.toNat)

def Buffer.initial (buffer : Buffer) (memory : Memory) : State :=
  ⟨(initMempool buffer.avail buffer.pool buffer.size memory).2, []⟩

/-- The bytes of the pool: all of the buffer but the byte at the address 0. -/
def Buffer.site (buffer : Buffer) : Site where
  avail := buffer.avail
  pool := if buffer.pool = 0 then 1 else buffer.pool.toNat
  size := if buffer.pool = 0 then buffer.size.toNat - 1 else buffer.size.toNat
  positive := by
    split
    · decide
    · rename_i nonzero
      exact Nat.pos_of_ne_zero fun zero => nonzero (BitVec.eq_of_toNat_eq zero)
  large := by
    have large := buffer.large
    rw [BitVec.le_def, show MIN_POOL_SIZE.toNat = 80 by decide] at large
    split <;> omega
  room := by
    have large := buffer.large
    rw [BitVec.le_def, show MIN_POOL_SIZE.toNat = 80 by decide] at large
    have room := buffer.room
    split
    · rename_i zero
      rw [zero, show (0 : Address).toNat = 0 from rfl] at room
      omega
    · exact room
  outside := by
    have large := buffer.large
    rw [BitVec.le_def, show MIN_POOL_SIZE.toNat = 80 by decide] at large
    have room := buffer.outside.room
    have apart := buffer.outside.apart
    split
    · rename_i zero
      rw [zero, show (0 : Address).toNat = 0 from rfl] at apart
      exact ⟨room, by omega⟩
    · exact buffer.outside

/-- A new pool is one free block. -/
theorem startPool_represents (site : Site) (memory : Memory) :
    Represents site ⟨startPool site.avail (at' site.pool) (at' site.size) memory, []⟩
      [⟨site.size - 8, true⟩] := by
  have room := site.room
  have large := site.large
  have apart : Apart (at' site.pool) site.avail := by
    have := site.outside.apart
    rw [← at'_avail]
    apply apart_at' _ (by omega) site.outside.room
    omega
  -- the list head links to the pool before and behind the store of `NULL`
  generalize start_eq : setLen (setNext (fill memory (at' site.pool) (at' site.size) 0)
    site.avail (at' site.pool)) site.avail (at' site.size) = start
  have startNext : next start site.avail = at' site.pool := by
    rw [← start_eq, next_setLen, next_setNext]
  have startLen : len start site.avail = at' site.size := by
    rw [← start_eq, len_setLen]
  have ended : startPool site.avail (at' site.pool) (at' site.size) memory =
      setLen (setNext start (at' site.pool) 0) (at' site.pool) (at' site.size - HLEN) := by
    simp only [startPool, start_eq, startNext]
    rw [next_setNext_of_apart apart, startNext]
  rw [ended]
  refine ⟨⟨?_, ?_, ?_⟩, ?_, ?_, ?_, ?_⟩
  · rw [len_setLen, BitVec.toNat_sub_of_le, at'_toNat (by omega),
      show HLEN.toNat = 8 by decide]
    rw [BitVec.le_def, at'_toNat (by omega), show HLEN.toNat = 8 by decide]
    exact large
  · intro _
    rw [at'_avail, next_setLen_of_apart apart, next_setNext_of_apart apart, startNext]
  · change next _ (at' site.pool) = 0
    rw [next_setLen, next_setNext]
  · simp only [extent]
    omega
  · rw [len_setLen_of_apart apart, len_setNext_of_apart apart, startLen, at'_toNat (by omega)]
  · exact List.isChain_singleton _
  · simp [usedAt, placed]

theorem Buffer.represents (buffer : Buffer) (memory : Memory) :
    Represents buffer.site (buffer.initial memory) [⟨buffer.site.size - 8, true⟩] := by
  have start := startPool_represents buffer.site memory
  have large : ¬ buffer.size < MIN_POOL_SIZE := BitVec.not_lt.mpr buffer.large
  have same : (buffer.initial memory).memory =
      startPool buffer.site.avail (at' buffer.site.pool) (at' buffer.site.size) memory := by
    rw [Buffer.initial, initMempool, if_neg large, Buffer.site]
    by_cases zero : buffer.pool = 0
    · have less : at' (buffer.size.toNat - 1) = buffer.size - 1 := by
        have enough := buffer.large
        rw [BitVec.le_def, show MIN_POOL_SIZE.toNat = 80 by decide] at enough
        apply BitVec.eq_of_toNat_eq
        rw [at'_toNat (by omega), BitVec.toNat_sub_of_le]
        · rfl
        · rw [BitVec.le_def, show (1 : U32).toNat = 1 from rfl]
          omega
      simp only [if_pos zero, less]
      rfl
    · simp only [if_neg zero, at', BitVec.ofNat_toNat, BitVec.setWidth_eq]
  have state : buffer.initial memory =
      ⟨startPool buffer.site.avail (at' buffer.site.pool) (at' buffer.site.size) memory, []⟩ := by
    rw [← same]
    rfl
  rw [state]
  exact start

end Start

section Runs

variable {site : Site} {s next last : State} {blocks : List Block}

/-- Every call that meets the conditions returns and leaves a pool of blocks. -/
theorem Represents.step {event : Event} (represents : Represents site s blocks)
    (legal : Legal s event) (clear : Clear site.avail s event) :
    ∃ next after, MemoryPool.step site.avail s event = some next ∧
      Represents site next after := by
  cases event with
  | malloc size =>
      obtain ⟨given, returns, result⟩ := represents.malloc size
      cases result with
      | none tooSmall => exact ⟨s, blocks, by simp [MemoryPool.step, returns], represents⟩
      | @block block memory after nonzero enough represents =>
          exact ⟨⟨memory, block :: s.live⟩, after,
            by simp only [MemoryPool.step, returns, Option.map_some, if_neg nonzero], represents⟩
  | free memp =>
      obtain ⟨memory, after, returns, represents, -⟩ := represents.free legal clear
      exact ⟨_, after, by rw [MemoryPool.step, returns]; rfl, represents⟩
  | write address value => exact ⟨_, blocks, rfl, represents.write legal⟩

/-- What a pool promises behind a run: its blocks are sound, the whole of it is one free
block when nothing is handed out, and `malloc` finds a block whenever there is one
that is large enough. -/
def Correct (site : Site) (s : State) : Prop :=
  ∃ frees, Sound site s frees ∧
    (s.live = [] →
      frees = [at' site.pool] ∧ (len s.memory (at' site.pool)).toNat = site.size - 8) ∧
    ∀ size, ∃ given, malloc site.avail size s.memory = some given ∧
      (given.1 = 0 → ∀ header ∈ frees, len s.memory header < size) ∧
      (given.1 ≠ 0 → size ≤ len given.2 (given.1 - HLEN))

theorem Represents.correct (represents : Represents site s blocks) : Correct site s := by
  have room := site.room
  have large := site.large
  refine ⟨_, represents.sound, ?_, ?_⟩
  · intro none
    have single := represents.single none
    subst single
    obtain ⟨length, -, -⟩ := represents.laid
    exact ⟨rfl, length⟩
  · intro size
    obtain ⟨given, returns, result⟩ := represents.malloc size
    refine ⟨given, returns, ?_, ?_⟩
    · intro zero header isFree
      obtain ⟨entry, member, free, rfl⟩ := exists_of_mem_freeAt isFree
      cases result with
      | none tooSmall =>
          rw [BitVec.lt_def, represents.laid.len_eq _ member]
          exact tooSmall _ (mem_of_mem_placed member) free
      | block nonzero _ _ => exact absurd zero nonzero
    · intro nonzero
      cases result with
      | none _ => exact absurd rfl nonzero
      | block _ enough _ => exact enough

/-- In every run whose calls of `free` meet the conditions the pool keeps its promises,
and every further such call returns. -/
theorem pool_correct_of_clear (buffer : Buffer) (memory : Memory) (events : List Event)
    (s : State)
    (run : Run.Steps (fun s event next => step buffer.avail s event = some next)
      (fun s event => Legal s event ∧ Clear buffer.avail s event)
      (buffer.initial memory) events s) :
    Correct buffer.site s ∧
      ∀ event, Legal s event → Clear buffer.avail s event →
        ∃ next, step buffer.avail s event = some next := by
  have represents : ∃ blocks, Represents buffer.site s blocks := by
    apply run.keeps _ ⟨_, buffer.represents memory⟩
    rintro s event next ⟨blocks, represents⟩ ⟨legal, clear⟩ stepped
    obtain ⟨next', after, returns, kept⟩ := represents.step legal clear
    rw [show buffer.site.avail = buffer.avail from rfl, stepped, Option.some.injEq] at returns
    subst returns
    exact ⟨after, kept⟩
  obtain ⟨blocks, represents⟩ := represents
  refine ⟨represents.correct, ?_⟩
  intro event legal clear
  obtain ⟨next, -, returns, -⟩ := represents.step legal clear
  exact ⟨next, returns⟩

/-- The address of a live block, and memory that a run of calls starts from. -/
def emptyMemory : Memory :=
  fun _ => 0

/-- A pool of 80 bytes. -/
def smallBuffer : Buffer where
  avail := 0x100
  pool := 0x1000
  size := 80
  large := by decide
  room := by decide
  outside := ⟨by decide, by decide⟩

theorem pool_correct_of_clear_small :
    ∃ s, Correct smallBuffer.site s ∧ s.live = [] := by
  have meets : Run.Meets (fun s event => (step smallBuffer.avail s event).getD s)
      (fun s event => (Legal s event ∧ Clear smallBuffer.avail s event) ∧
        (step smallBuffer.avail s event).isSome) (smallBuffer.initial emptyMemory)
      [.malloc 20, .free 0x103C] := by
    refine ⟨⟨⟨trivial, trivial⟩, by decide +kernel⟩, ⟨⟨?_, ?_⟩, by decide +kernel⟩, trivial⟩
    · show _ ∈ _
      decide +kernel
    · intro listed _
      refine ⟨fun empty => absurd empty (by decide +kernel), fun _ => by decide +kernel⟩
  refine ⟨_, (pool_correct_of_clear smallBuffer emptyMemory _ _
    (Run.steps_of_meets meets)).1, ?_⟩
  decide +kernel

/-- Two blocks without bytes at the end of the pool, freed from the end: the second one
comes behind the first in the list. -/
theorem pool_not_always_correct :
    ¬ ∀ (buffer : Buffer) (memory : Memory) (events : List Event) (s : State),
      Run.Steps (fun s event next => step buffer.avail s event = some next) Legal
          (buffer.initial memory) events s →
        Correct buffer.site s := by
  intro always
  have meets : Run.Meets (fun s event => (step smallBuffer.avail s event).getD s)
      (fun s event => Legal s event ∧ (step smallBuffer.avail s event).isSome)
      (smallBuffer.initial emptyMemory)
      [.malloc 0, .malloc 0, .free 0x1050, .free 0x1048] := by
    refine ⟨⟨trivial, by decide +kernel⟩, ⟨trivial, by decide +kernel⟩,
      ⟨?_, by decide +kernel⟩, ⟨?_, by decide +kernel⟩, trivial⟩
    · show _ ∈ _
      decide +kernel
    · show _ ∈ _
      decide +kernel
  obtain ⟨frees, sound, -⟩ := always smallBuffer emptyMemory _ _ (Run.steps_of_meets meets)
  have outOfOrder := sound.listed.unique
    (show Listed _ smallBuffer.avail [0x1000, 0x1048, 0x1040] by decide +kernel)
  have ascending := sound.ascending
  rw [outOfOrder] at ascending
  exact absurd ascending (by decide)

end Runs

end Gp2Firmware.Jpeg.MemoryPool
