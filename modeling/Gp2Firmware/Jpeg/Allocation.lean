import Gp2Firmware.Jpeg.Decoder
import Gp2Firmware.Jpeg.PoolFrame

/-!
# The blocks of the decoder

`alloc` and `MDrv_JPEG_terminate` on a pool that is in order: every call returns, a block comes
out of the pool for a slot of the table, and an error leaves the pool as one free block.
-/

namespace Gp2Firmware.Jpeg.Decoder

open Gp2Firmware.Lib.WordMemory Gp2Firmware.Lib.BlockList Gp2Firmware.Jpeg.BitReader
  Gp2Firmware.Jpeg.Mcu

section Behind

variable {α : Type} {m : Program State Unit} {a b : α} {s t : State}

theorem returns_behind (ran : m s = some ((), t)) :
    (do m; pure a : Program State α) s = some (a, t) := by
  change (m s).bind _ = _
  rw [ran]
  rfl

theorem eq_of_behind (ran : (do m; pure a : Program State α) s = some (b, t)) : b = a := by
  obtain ⟨⟨u, s'⟩, -, returned⟩ := Option.bind_eq_some_iff.mp ran
  exact (Prod.mk.inj (Option.some.inj returned)).1.symm

end Behind

section Order

open MemoryPool (HLEN)

/-- No block of the pool starts where the list head would end if it were one. -/
def Remote (site : MemoryPool.Site) : Prop :=
  ∀ place, site.pool ≤ place → place < site.pool + site.size →
    site.avail + MemoryPool.at' site.size + HLEN ≠ MemoryPool.at' place

def State.pool (s : State) : MemoryPool.State :=
  ⟨s.reader.memory, s.books.live⟩

/-- The pool is in order, the blocks in the table are those that it has given out, and none of
them is without bytes. -/
structure InOrder (site : MemoryPool.Site) (s : State) : Prop where
  pooled : ∃ blocks, MemoryPool.Represents site s.pool blocks
  bytes : ∀ q ∈ s.books.live, MemoryPool.len s.reader.memory (q - HLEN) ≠ 0
  kept : s.books.Kept

/-- The pool is one free block, and no slot of the table is taken. -/
structure Emptied (site : MemoryPool.Site) (s : State) : Prop where
  inOrder : InOrder site s
  live : s.books.live = []

/-- Nothing but the memory and the books has changed. -/
def OnlyPool (s t : State) : Prop :=
  t = { s with reader := { s.reader with memory := t.reader.memory }, books := t.books }

theorem OnlyPool.refl (s : State) : OnlyPool s s :=
  rfl

theorem OnlyPool.trans {s t u : State} (first : OnlyPool s t) (second : OnlyPool t u) :
    OnlyPool s u := by
  rw [OnlyPool] at first second ⊢
  rw [second, first]

theorem OnlyPool.behind {s t : State} {memory : Memory} {books : Books}
    (only : OnlyPool { s with reader := { s.reader with memory := memory }, books := books } t) :
    OnlyPool s t := by
  rw [OnlyPool] at only ⊢
  rw [only]

theorem OnlyPool.coeffs {s t : State} (only : OnlyPool s t) :
    t.dcCoeffs = s.dcCoeffs ∧ t.acCoeffs = s.acCoeffs := by
  rw [OnlyPool] at only
  rw [only]
  exact ⟨rfl, rfl⟩

variable {site : MemoryPool.Site} {s t : State} {q : Address} {memory : Memory}

theorem InOrder.of_same (inOrder : InOrder site s) (pool : t.pool = s.pool)
    (kept : t.books.Kept) : InOrder site t := by
  obtain ⟨sameMemory, sameLive⟩ := MemoryPool.State.mk.inj pool
  refine ⟨?_, ?_, kept⟩
  · rw [pool]
    exact inOrder.pooled
  · rw [sameMemory, sameLive]
    exact inOrder.bytes

theorem InOrder.noted (inOrder : InOrder site s) (n : Note) :
    InOrder site { s with books := { s.books with log := s.books.log ++ [n] } } :=
  inOrder.of_same rfl ⟨inOrder.kept.same, inOrder.kept.noStray⟩

theorem InOrder.within (inOrder : InOrder site s) (member : q ∈ s.books.live)
    (only : ∀ byte, (MemoryPool.len s.reader.memory (q - HLEN)).toNat ≤ (byte - q).toNat →
      memory byte = s.reader.memory byte) :
    InOrder site { s with reader := { s.reader with memory := memory } } ∧
      ∀ p ∈ s.books.live, MemoryPool.len memory (p - HLEN) =
        MemoryPool.len s.reader.memory (p - HLEN) := by
  obtain ⟨blocks, represents⟩ := inOrder.pooled
  have written := represents.within member only
  have lens : ∀ p ∈ s.books.live, MemoryPool.len memory (p - HLEN) =
      MemoryPool.len s.reader.memory (p - HLEN) := by
    intro p isLive
    exact represents.len_eq_of_same written isLive
  refine ⟨⟨⟨blocks, written⟩, ?_, inOrder.kept⟩, lens⟩
  intro p isLive
  change MemoryPool.len memory (p - HLEN) ≠ 0
  rw [lens p isLive]
  exact inOrder.bytes p isLive

theorem Emptied.within (emptied : Emptied site s)
    (only : ∀ byte : Address, byte.toNat < site.pool + 8 ∨ site.pool + site.size ≤ byte.toNat →
      memory byte = s.reader.memory byte) :
    Emptied site { s with reader := { s.reader with memory := memory } } := by
  obtain ⟨blocks, represents⟩ := emptied.inOrder.pooled
  have single := represents.single emptied.live
  subst single
  have large := site.large
  have written := @MemoryPool.Represents.inside site s.pool [] [] ⟨site.size - 8, true⟩ memory
    represents (by
      intro byte outside
      apply only
      simp only [extent] at outside
      omega)
  refine ⟨⟨⟨_, written⟩, ?_, emptied.inOrder.kept⟩, emptied.live⟩
  intro p isLive
  change p ∈ s.books.live at isLive
  rw [emptied.live] at isLive
  cases isLive

end Order

section Frees

open MemoryPool (HLEN)

variable {machine : Machine} {site : MemoryPool.Site} {s : State} {q : Address}
  {blocks : List Block}

theorem clear_of_remote (remote : Remote site)
    (represents : MemoryPool.Represents site s.pool blocks) (member : q ∈ s.books.live)
    (bytes : MemoryPool.len s.reader.memory (q - HLEN) ≠ 0) :
    MemoryPool.Clear site.avail s.pool (.free q) := by
  intro listed _
  refine ⟨fun zero => absurd zero bytes, ?_⟩
  intro _
  obtain ⟨entry, here, -, at_, upTo, from_, -, -⟩ := represents.exists_entry member
  have head : MemoryPool.len s.pool.memory site.avail = MemoryPool.at' site.size := by
    rw [← represents.head, MemoryPool.at', BitVec.ofNat_toNat, BitVec.setWidth_eq]
  rw [head, ← at_, ← MemoryPool.at'_add_HLEN, BitVec.add_sub_cancel]
  exact remote entry.1 from_ (by omega)

variable (machine) (avail : site.avail = machine.avail) (remote : Remote site)

include avail remote

theorem freeBlocks_returns {slots : List Address}
    (pooled : ∃ blocks, MemoryPool.Represents site s.pool blocks)
    (bytes : ∀ q ∈ s.books.live, MemoryPool.len s.reader.memory (q - HLEN) ≠ 0)
    (same : (slots.filter (· ≠ 0)).Perm s.books.live) :
    ∃ t, freeBlocks machine slots s = some ((), t) ∧ OnlyPool s t ∧ t.books.live = [] ∧
      ∃ blocks, MemoryPool.Represents site t.pool blocks := by
  induction slots generalizing s with
  | nil => exact ⟨s, rfl, .refl s, List.nil_perm.mp same, pooled⟩
  | cons q rest inductionHypothesis =>
      rw [freeBlocks]
      by_cases zero : q = 0
      · rw [if_pos zero]
        rw [List.filter_cons_of_neg (by simp [zero])] at same
        exact inductionHypothesis pooled bytes same
      · rw [if_neg zero]
        rw [List.filter_cons_of_pos (by simpa using zero)] at same
        have member : q ∈ s.books.live := same.mem_iff.mp List.mem_cons_self
        obtain ⟨blocks, represents⟩ := pooled
        obtain ⟨memory, after, returns, represented, left⟩ :=
          represents.free member (clear_of_remote remote represents member (bytes q member))
        have freed : freeBlock machine q s = some ((), { s with
            reader := { s.reader with memory := memory }, books := s.books.free q }) := by
          change (MemoryPool.free machine.avail q s.pool.memory).map _ = _
          rw [← avail, returns, Option.map_some]
        have solid := represents.bytes_iff.mp bytes
        obtain ⟨t, ran, only, rest⟩ := @inductionHypothesis { s with
            reader := { s.reader with memory := memory }, books := s.books.free q }
          ⟨after, represented⟩
          (represented.bytes_iff.mpr fun block inAfter used =>
            solid block (left block inAfter used) used)
          (by
            have erased := same.erase q
            rwa [List.erase_cons_head] at erased)
        refine ⟨t, ?_, only.behind, rest⟩
        rw [← ran]
        change (freeBlock machine q s).bind _ = _
        rw [freed]
        rfl

theorem freeAllBlocks_returns (inOrder : InOrder site s) :
    ∃ t, freeAllBlocks machine s = some ((), t) ∧ OnlyPool s t ∧ Emptied site t := by
  obtain ⟨t, ran, only, live, pooled⟩ := freeBlocks_returns machine avail remote inOrder.pooled
    inOrder.bytes inOrder.kept.same
  have returns : freeAllBlocks machine s =
      some ((), { t with books := { t.books with blocks := noBlocks } }) := by
    change (freeBlocks machine s.books.blocks s).bind _ = _
    rw [ran]
    rfl
  obtain ⟨-, kept, -⟩ := freeAllBlocks_spec returns
  refine ⟨_, returns, OnlyPool.trans only rfl, ⟨pooled, ?_, kept inOrder.kept⟩, live⟩
  intro q member
  change q ∈ t.books.live at member
  rw [live] at member
  cases member

theorem terminate_returns (inOrder : InOrder site s) (status : JpegError) :
    ∃ t, terminate machine status s = some ((), t) ∧ OnlyPool s t ∧ Emptied site t := by
  obtain ⟨t, ran, only, emptied⟩ :=
    freeAllBlocks_returns machine avail remote (inOrder.noted (.terminate status))
  exact ⟨t, ran, only.behind, emptied⟩

theorem noBlock_returns (inOrder : InOrder site s) (status : JpegError) :
    ∃ t, noBlock machine status s = some (0, t) ∧ OnlyPool s t ∧ Emptied site t := by
  obtain ⟨t, ran, only, emptied⟩ := terminate_returns machine avail remote inOrder status
  refine ⟨{ t with books := { t.books with log := t.books.log ++ [.alloc 0] } }, ?_,
    OnlyPool.trans only rfl, emptied.inOrder.noted (.alloc 0), emptied.live⟩
  change (terminate machine status s).bind _ = _
  rw [ran]
  rfl

end Frees

section Alloc

open MemoryPool (HLEN)

/-- A block of `n` bytes and eight more comes out of the pool, and the live blocks stay. -/
structure Allots (site : MemoryPool.Site) (s : State) (n : U32) (q : Address) (t : State) :
    Prop where
  inOrder : InOrder site t
  live : t.books.live = q :: s.books.live
  room : (n + 8).toNat ≤ (MemoryPool.len t.reader.memory (q - HLEN)).toNat
  same : MemoryPool.SameBlocks s.books.live s.reader.memory t.reader.memory

variable {machine : Machine} {site : MemoryPool.Site} {s t : State} {n : U32} {q : Address}
  {blocks after : List Block} {memory : Memory}

theorem Allots.fresh (allots : Allots site s n q t) : q ∉ s.books.live := by
  obtain ⟨blocks, represents⟩ := allots.inOrder.pooled
  have nodup : t.books.live.Nodup := represents.nodup
  rw [allots.live] at nodup
  exact (List.nodup_cons.mp nodup).1

theorem Allots.place (allots : Allots site s n q t) :
    site.pool + 8 ≤ q.toNat ∧ q.toNat + (n + 8).toNat ≤ site.pool + site.size := by
  obtain ⟨blocks, represents⟩ := allots.inOrder.pooled
  have member : q ∈ t.pool.live := by
    change q ∈ t.books.live
    rw [allots.live]
    exact List.mem_cons_self
  obtain ⟨entry, here, -, at_, upTo, from_, start, length⟩ := represents.exists_entry member
  obtain ⟨place, -⟩ := represents.data_room member
  have room := allots.room
  change (MemoryPool.len t.reader.memory (q - HLEN)).toNat = entry.2.len at length
  omega

theorem written_same {changed : Memory} (represents : MemoryPool.Represents site s.pool blocks)
    (ran : MemoryPool.malloc site.avail n s.pool.memory = some (q, memory))
    (given : MemoryPool.Represents site ⟨memory, q :: s.books.live⟩ after)
    (only : ∀ byte, (MemoryPool.len memory (q - HLEN)).toNat ≤ (byte - q).toNat →
      changed byte = memory byte) :
    MemoryPool.SameBlocks s.books.live s.reader.memory changed := by
  have first : MemoryPool.SameBlocks s.pool.live s.pool.memory memory := by
    intro p member byte inside
    exact represents.malloc_outside member inside ran
  apply first.trans represents (fun _ member => member)
  intro p member byte inside
  have nodup : (q :: s.books.live).Nodup := given.nodup
  have different : p ≠ q := by
    rintro rfl
    exact (List.nodup_cons.mp nodup).1 member
  have isLive : p ∈ q :: s.books.live := List.mem_cons_of_mem q member
  exact given.within_outside List.mem_cons_self only isLive different inside

theorem fill_outside (enough : n ≤ MemoryPool.len memory (q - HLEN)) (byte : Address)
    (outside : (MemoryPool.len memory (q - HLEN)).toNat ≤ (byte - q).toNat) :
    fill memory q n 0 byte = memory byte := by
  apply if_neg
  rw [BitVec.lt_def]
  rw [BitVec.le_def] at enough
  omega

/-- `alloc` returns with an error and an empty pool, or with a block. -/
theorem alloc_returns (machine : Machine) (avail : site.avail = machine.avail)
    (remote : Remote site) (inOrder : InOrder site s) (some : n + 8 ≠ 0) :
    ∃ q t, alloc machine n s = .some (q, t) ∧ OnlyPool s t ∧
      (q = 0 ∧ Emptied site t ∨ q ≠ 0 ∧ Allots site s n q t) := by
  have start : alloc machine n s = allocFor machine n (s.books.blocks.findIdx? (· = 0)) s := rfl
  cases found : s.books.blocks.findIdx? (· = 0) with
  | none =>
      obtain ⟨t, ran, only, emptied⟩ :=
        noBlock_returns machine avail remote inOrder .tooManyBlocks
      refine ⟨0, t, ?_, only, .inl ⟨rfl, emptied⟩⟩
      rw [start, found, allocFor]
      exact ran
  | some i =>
      obtain ⟨blocks, represents⟩ := inOrder.pooled
      obtain ⟨given, returns, result⟩ := represents.malloc (n + 8)
      have mallocs : MemoryPool.malloc machine.avail (n + 8) s.reader.memory = .some given := by
        rw [← avail]
        exact returns
      rw [found, allocFor] at start
      cases result with
      | none tooSmall =>
          obtain ⟨t, ran, only, emptied⟩ :=
            noBlock_returns machine avail remote inOrder .notEnoughMem
          refine ⟨0, t, ?_, only, .inl ⟨rfl, emptied⟩⟩
          rw [start]
          change (Option.map _ (MemoryPool.malloc machine.avail (n + 8) s.reader.memory)).bind _ = _
          rw [mallocs]
          exact ran
      | @block q memory after nonzero enough represented =>
          have only := fill_outside enough
          have cleared := represented.within List.mem_cons_self only
          have same := written_same represents returns represented only
          have ran : alloc machine n s = .some (q, { s with
              reader := { s.reader with memory := fill memory q (n + 8) 0 }
              books := ⟨s.books.blocks.set i q, q :: s.books.live, s.books.strayFrees,
                s.books.log ++ [.alloc q]⟩ }) := by
            rw [start]
            change (Option.map _
              (MemoryPool.malloc machine.avail (n + 8) s.reader.memory)).bind _ = _
            rw [mallocs]
            simp only [Option.map_some, Option.bind_some, if_neg nonzero]
            rfl
          obtain ⟨notes, does, -⟩ := takes_alloc s q _ ran
          have lenOf : MemoryPool.len (fill memory q (n + 8) 0) (q - HLEN) =
              MemoryPool.len memory (q - HLEN) :=
            represented.len_eq_of_same cleared List.mem_cons_self
          have room : (n + 8).toNat ≤
              (MemoryPool.len (fill memory q (n + 8) 0) (q - HLEN)).toNat := by
            rw [lenOf, ← BitVec.le_def]
            exact enough
          refine ⟨q, _, ran, rfl, .inr ⟨nonzero, ⟨⟨after, cleared⟩, ?_, does.kept inOrder.kept⟩,
            rfl, room, same⟩⟩
          intro p member
          rcases List.mem_cons.mp member with rfl | old
          · intro zero
            apply some
            apply BitVec.eq_of_toNat_eq
            rw [show MemoryPool.len (fill memory p (n + 8) 0) (p - HLEN) = 0 from zero] at room
            exact Nat.le_zero.mp room
          · have kept := same.len_eq represents (fun _ member => member) old
            change MemoryPool.len (fill memory q (n + 8) 0) (p - HLEN) ≠ 0
            rw [kept]
            exact inOrder.bytes p old

theorem allots_of_alloc (avail : site.avail = machine.avail) (remote : Remote site)
    (inOrder : InOrder site s) (some : n + 8 ≠ 0) (ran : alloc machine n s = .some (q, t))
    (nonzero : q ≠ 0) : Allots site s n q t := by
  obtain ⟨q', t', ran', -, result⟩ := alloc_returns machine avail remote inOrder some
  rw [ran, Option.some.injEq] at ran'
  obtain ⟨rfl, rfl⟩ := Prod.mk.inj ran'
  rcases result with ⟨zero, -⟩ | ⟨-, allots⟩
  · exact absurd zero nonzero
  · exact allots

end Alloc

end Gp2Firmware.Jpeg.Decoder
