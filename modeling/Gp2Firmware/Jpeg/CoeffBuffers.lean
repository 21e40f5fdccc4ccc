import Gp2Firmware.Jpeg.Allocation
import Gp2Firmware.Jpeg.Progressive
import Gp2Firmware.Lib.Commutes
import Mathlib.Tactic.NormNum.Prime

/-!
# Coefficient buffers without room

Two blocks are asked for with each coefficient buffer, one for its structure and one for its
data.  `MDrv_JPEG_init_progressive` looks at the structures only, and the structure of a buffer
without data is returned although all blocks have been freed.
-/

namespace Gp2Firmware.Jpeg.Decoder

open Gp2Firmware.Lib.WordMemory Gp2Firmware.Jpeg.BitReader Gp2Firmware.Jpeg.Mcu

section Openings

variable (machine : Machine)

/-- There is no slot for a block of `n` bytes, or no free block of the pool is large enough. -/
def NoRoom (s : State) (n : U32) : Prop :=
  s.books.blocks.findIdx? (· = 0) = none ∨
    ∃ memory, MemoryPool.malloc machine.avail (n + 8) s.reader.memory = some (0, memory)

/-- A call of `MDrv_JPEG_coeff_buf_open` in a state. -/
structure Opening where
  before : State
  blockNumX : U16
  blockNumY : U16
  blockLenX : U8
  blockLenY : U8

namespace Opening

variable (o : Opening)

def run : Option (Address × State) :=
  coeffBufOpen machine o.blockNumX o.blockNumY o.blockLenX o.blockLenY o.before

def blockSize : U16 :=
  o.blockLenX.setWidth 16 * o.blockLenY.setWidth 16 * 2

def dataSize : U32 :=
  o.blockSize.setWidth 32 * o.blockNumX.setWidth 32 * o.blockNumY.setWidth 32

/-- The fields of the structure but for its data. -/
def fields (cb : Address) (memory : Memory) : Memory :=
  let memory := storeShort memory (cb + 4) o.blockNumX
  let memory := storeShort memory (cb + 6) o.blockNumY
  let memory := Function.update memory (cb + 8) o.blockLenX
  let memory := Function.update memory (cb + 9) o.blockLenY
  storeShort memory (cb + 10) o.blockSize

def entered (cb : Address) (s : State) : State :=
  { s with reader := { s.reader with memory := o.fields cb s.reader.memory } }

/-- There is no room for the structure. -/
def StructureDenied : Prop :=
  NoRoom machine o.before SIZEOF_COEFF_BUF

/-- The structure has a block, and there is no room for the data behind it. -/
def DataDenied : Prop :=
  ∃ cb s, alloc machine SIZEOF_COEFF_BUF o.before = some (cb, s) ∧ cb ≠ 0 ∧
    NoRoom machine (o.entered cb s) o.dataSize

end Opening

/-- The buffers of a component, which is in its turn in one state, opened in another. -/
def openingAt (s : State) (i : Nat) (blockLen : U8) (before : State) : Opening where
  before := before
  blockNumX := BitVec.ofNat 16 (roundEven s.layout.maxMcusPerRow * s.frame.hSamp i)
  blockNumY := BitVec.ofNat 16 (roundEven s.layout.maxMcusPerCol * s.frame.vSamp i)
  blockLenX := blockLen
  blockLenY := blockLen

/-- The calls of `MDrv_JPEG_coeff_buf_open` for a component. -/
def openingsOf (i : Nat) (s : State) : List Opening :=
  openingAt s i 1 s ::
    match (openingAt s i 1 s).run machine with
    | none => []
    | some (dc, s') => [openingAt s i 8 { s' with dcCoeffs := Function.update s'.dcCoeffs i dc }]

/-- The calls for the components from `i` on, as far as the loop comes. -/
def openings : Nat → Nat → State → List Opening
  | _, 0, _ => []
  | i, count + 1, s =>
      openingsOf machine i s ++
        match openComponent machine i s with
        | some (true, t) => openings (i + 1) count t
        | _ => []

end Openings

section Returned

variable {machine : Machine} {s t : State} {n : U32} {q : Address} {o : Opening}

theorem noBlock_zero {status : JpegError} (ran : noBlock machine status s = some (q, t)) :
    q = 0 := by
  obtain ⟨⟨u, s1⟩, -, noted⟩ := Option.bind_eq_some_iff.mp ran
  exact (Prod.mk.inj (Option.some.inj noted)).1.symm

/-- `alloc` returns `NULL` just where there is no room. -/
theorem alloc_eq_zero_iff (ran : alloc machine n s = some (q, t)) :
    q = 0 ↔ NoRoom machine s n := by
  have ranFor : allocFor machine n (s.books.blocks.findIdx? (· = 0)) s = some (q, t) := ran
  rw [NoRoom]
  cases found : s.books.blocks.findIdx? (· = 0) with
  | none =>
      rw [found, allocFor] at ranFor
      exact iff_of_true (noBlock_zero ranFor) (.inl rfl)
  | some i =>
      rw [found, allocFor] at ranFor
      obtain ⟨⟨p, s1⟩, given, later⟩ := Option.bind_eq_some_iff.mp ranFor
      obtain ⟨⟨p', memory⟩, mallocs, took⟩ := Option.map_eq_some_iff.mp given
      obtain ⟨rfl, rfl⟩ := Prod.mk.inj took
      rw [mallocs]
      dsimp only at later
      by_cases zero : p' = 0
      · rw [if_pos zero] at later
        exact iff_of_true (noBlock_zero later) (.inr ⟨memory, by rw [zero]⟩)
      · rw [if_neg zero] at later
        obtain ⟨rfl, -⟩ := enterBlock_spec later
        refine iff_of_false zero ?_
        intro denied
        rcases denied with none | ⟨other, same⟩
        · cases none
        · cases same
          exact zero rfl

/-- The two blocks of a buffer that is opened. -/
theorem Opening.run_eq (ran : o.run machine = some (q, t)) :
    ∃ cb s, alloc machine SIZEOF_COEFF_BUF o.before = some (cb, s) ∧
      (cb = 0 ∧ q = 0 ∨ cb ≠ 0 ∧ q = cb ∧ ∃ data s',
        alloc machine o.dataSize (o.entered cb s) = some (data, s') ∧
        (data = 0 ∨ data ≠ 0 ∧ t = { s' with reader := { s'.reader with
          memory := store s'.reader.memory cb data } })) := by
  obtain ⟨⟨cb, s⟩, given, later⟩ := Option.bind_eq_some_iff.mp ran
  refine ⟨cb, s, given, ?_⟩
  dsimp only at later
  by_cases zero : cb = 0
  · rw [if_pos zero] at later
    exact .inl ⟨zero, eq_of_behind later⟩
  · rw [if_neg zero] at later
    obtain ⟨⟨data, s'⟩, dataGiven, behind⟩ := Option.bind_eq_some_iff.mp later
    have stored : (if data = 0 then do
          terminate machine .notEnoughMem
          pure cb
        else pure cb : Program State Address) { s' with reader := { s'.reader with
          memory := store s'.reader.memory cb data } } = some (q, t) := behind
    by_cases none : data = 0
    · rw [if_pos none] at stored
      have same := eq_of_behind stored
      subst same
      exact .inr ⟨zero, rfl, data, s', dataGiven, .inl none⟩
    · rw [if_neg none] at stored
      obtain ⟨rfl, rfl⟩ := Prod.mk.inj (Option.some.inj stored)
      exact .inr ⟨zero, rfl, data, s', dataGiven, .inr ⟨none, rfl⟩⟩

theorem Opening.eq_zero_iff (ran : o.run machine = some (q, t)) :
    q = 0 ↔ o.StructureDenied machine := by
  obtain ⟨cb, s, given, opened⟩ := Opening.run_eq ran
  rw [Opening.StructureDenied, ← alloc_eq_zero_iff given]
  rcases opened with ⟨zero, rfl⟩ | ⟨nonzero, rfl, -⟩
  · exact iff_of_true rfl zero
  · exact Iff.rfl

/-- Where nothing is denied, both blocks are there, one behind the other. -/
theorem Opening.run_of_room (ran : o.run machine = some (q, t))
    (structureRoom : ¬ o.StructureDenied machine) (dataRoom : ¬ o.DataDenied machine) :
    ∃ s data s', alloc machine SIZEOF_COEFF_BUF o.before = some (q, s) ∧ q ≠ 0 ∧
      alloc machine o.dataSize (o.entered q s) = some (data, s') ∧ data ≠ 0 ∧
      t = { s' with reader := { s'.reader with memory := store s'.reader.memory q data } } := by
  obtain ⟨cb, s, given, ⟨zero, -⟩ | ⟨nonzero, rfl, data, s', dataGiven, stored⟩⟩ :=
    Opening.run_eq ran
  · exact absurd ((alloc_eq_zero_iff given).mp zero) structureRoom
  · rcases stored with zero | ⟨some, rfl⟩
    · exact absurd ⟨q, s, given, nonzero, (alloc_eq_zero_iff dataGiven).mp zero⟩ dataRoom
    · exact ⟨s, data, s', given, nonzero, dataGiven, some, rfl⟩

theorem openComponent_eq {i : Nat} {ok : Bool} (ran : openComponent machine i s = some (ok, t)) :
    ∃ dc s1 ac s2, (openingAt s i 1 s).run machine = some (dc, s1) ∧
      (openingAt s i 8 { s1 with dcCoeffs := Function.update s1.dcCoeffs i dc }).run machine =
        some (ac, s2) ∧
      (ok = false ∧ (dc = 0 ∨ ac = 0) ∨
        ok = true ∧ dc ≠ 0 ∧ ac ≠ 0 ∧ t = { s2 with
          acCoeffs := Function.update s2.acCoeffs i ac
          books := { s2.books with log := s2.books.log ++ [.opened i] } }) := by
  obtain ⟨⟨dc, s1⟩, openedDc, ranAc⟩ := Option.bind_eq_some_iff.mp ran
  obtain ⟨⟨dc', s1'⟩, dcRun, dcStored⟩ := Option.bind_eq_some_iff.mp openedDc
  obtain ⟨rfl, rfl⟩ := Prod.mk.inj (Option.some.inj dcStored)
  obtain ⟨⟨ac, s2⟩, openedAc, ranEnd⟩ := Option.bind_eq_some_iff.mp ranAc
  obtain ⟨⟨ac', s2'⟩, acRun, acStored⟩ := Option.bind_eq_some_iff.mp openedAc
  obtain ⟨rfl, rfl⟩ := Prod.mk.inj (Option.some.inj acStored)
  refine ⟨dc', s1', ac', s2', dcRun, acRun, ?_⟩
  dsimp only at ranEnd
  split at ranEnd
  · rename_i zero
    exact .inl ⟨eq_of_behind ranEnd, zero⟩
  · rename_i nonzero
    obtain ⟨someDc, someAc⟩ := not_or.mp nonzero
    obtain ⟨rfl, rfl⟩ := Prod.mk.inj (Option.some.inj ranEnd)
    exact .inr ⟨rfl, someDc, someAc, rfl⟩

theorem openings_succ {i count : Nat} {opened : Bool} {dc : Address} {s1 s' : State}
    (component : openComponent machine i s = some (opened, s'))
    (dcRun : (openingAt s i 1 s).run machine = some (dc, s1)) :
    openings machine i (count + 1) s = openingAt s i 1 s ::
      openingAt s i 8 { s1 with dcCoeffs := Function.update s1.dcCoeffs i dc } ::
        if opened then openings machine (i + 1) count s' else [] := by
  rw [openings, openingsOf, dcRun, component]
  cases opened with
  | false => rfl
  | true => rfl

/-- The loop is left with `FALSE` just where there is no room for some structure. -/
theorem openComponents_false_iff {i count : Nat} {ok : Bool}
    (ran : forEachOk (openComponent machine) i count s = some (ok, t)) :
    ok = false ↔ ∃ o ∈ openings machine i count s, o.StructureDenied machine := by
  induction count generalizing i s with
  | zero =>
      obtain ⟨rfl, rfl⟩ := Prod.mk.inj (Option.some.inj ran)
      simp [openings]
  | succ count inductionHypothesis =>
      obtain ⟨⟨opened, s'⟩, component, later⟩ := Option.bind_eq_some_iff.mp ran
      obtain ⟨dc, s1, ac, s2, dcRun, acRun, ends⟩ := openComponent_eq component
      rw [openings_succ component dcRun, List.exists_mem_cons_iff, List.exists_mem_cons_iff,
        ← Opening.eq_zero_iff dcRun, ← Opening.eq_zero_iff acRun]
      rcases ends with ⟨rfl, zero⟩ | ⟨rfl, someDc, someAc, -⟩
      · obtain ⟨rfl, rfl⟩ := Prod.mk.inj (Option.some.inj later)
        simpa using zero
      · rw [or_iff_right someDc, or_iff_right someAc]
        exact inductionHypothesis later

end Returned

section Pool

open MemoryPool (HLEN)

variable {site : MemoryPool.Site} {s t : State} {n : U32} {q cb byte : Address} {memory : Memory}
  {value : U32} {o : Opening}

/-- A live buffer with a pointer to its data. -/
structure Usable (s : State) (cb : Address) : Prop where
  live : cb ∈ s.books.live
  structureRoom : 12 ≤ (MemoryPool.len s.reader.memory (cb - HLEN)).toNat
  data : pu8Data s.reader.memory cb ≠ 0

/-- The blocks that are live stay so with what they hold. -/
structure Grows (s t : State) : Prop where
  live : ∀ q ∈ s.books.live, q ∈ t.books.live
  same : MemoryPool.SameBlocks s.books.live s.reader.memory t.reader.memory

theorem Grows.usable (inOrder : InOrder site s) (grows : Grows s t) (usable : Usable s cb) :
    Usable t cb := by
  obtain ⟨blocks, represents⟩ := inOrder.pooled
  have all : ∀ q ∈ s.books.live, q ∈ s.pool.live := fun _ member => member
  refine ⟨grows.live cb usable.live, ?_, ?_⟩
  · rw [grows.same.len_eq represents all usable.live]
    exact usable.structureRoom
  · rw [pu8Data, grows.same.load_eq represents all usable.live
      ((by decide : 4 ≤ 12).trans usable.structureRoom)]
    exact usable.data

theorem Grows.trans {u : State} (inOrder : InOrder site s) (first : Grows s t)
    (second : Grows t u) : Grows s u := by
  obtain ⟨blocks, represents⟩ := inOrder.pooled
  refine ⟨fun q member => second.live q (first.live q member), ?_⟩
  apply first.same.trans represents fun _ member => member
  intro q member
  exact second.same q (first.live q member)

theorem Allots.grows (allots : Allots site s n q t) : Grows s t := by
  refine ⟨?_, allots.same⟩
  intro p member
  rw [allots.live]
  exact List.mem_cons_of_mem q member

theorem Allots.mem (allots : Allots site s n q t) : q ∈ t.books.live := by
  rw [allots.live]
  exact List.mem_cons_self

theorem Grows.within {u : State} (grows : Grows s t) (inOrder : InOrder site s)
    (order : InOrder site t) (member : q ∈ t.books.live) (fresh : q ∉ s.books.live)
    (only : ∀ byte, (MemoryPool.len t.reader.memory (q - HLEN)).toNat ≤ (byte - q).toNat →
      u.reader.memory byte = t.reader.memory byte) (books : u.books = t.books) : Grows s u := by
  obtain ⟨blocks, represents⟩ := inOrder.pooled
  obtain ⟨after, represented⟩ := order.pooled
  refine ⟨?_, ?_⟩
  · rw [books]
    exact grows.live
  · apply grows.same.trans represents fun _ member => member
    intro p old byte inside
    have different : p ≠ q := by
      rintro rfl
      exact fresh old
    exact represented.within_outside member only (grows.live p old) different inside

theorem Opening.fields_outside (outside : 12 ≤ (byte - cb).toNat) :
    o.fields cb memory byte = memory byte := by
  have apart : ∀ k : U32, k.toNat < 12 → byte ≠ cb + k := by
    intro k small same
    rw [same, BitVec.add_comm, BitVec.add_sub_cancel] at outside
    omega
  simp only [Opening.fields, storeShort, BitVec.add_assoc]
  repeat rw [Function.update_of_ne (apart _ (by decide))]

theorem store_outside (outside : 4 ≤ (byte - cb).toNat) :
    store memory cb value byte = memory byte := by
  apply if_neg
  omega

end Pool

section Sizes

theorem not_dvd_of_dvd {p q c : Nat} (coprime : p.Coprime q) (large : c < p * q)
    (positive : 0 < c) (divides : p ∣ c) : ¬ q ∣ c := by
  intro other
  have atMost := Nat.le_of_dvd positive (coprime.mul_dvd_of_dvd_of_dvd divides other)
  omega

/-- No two even numbers of blocks take up eight bytes less than there are addresses: the number
of pairs would be `233 * 1103 * 2089`. -/
theorem mul_ne {a b : Nat} (left : a < 2 ^ 15) (right : b < 2 ^ 15) : a * b ≠ 2 ^ 29 - 1 := by
  intro same
  have positive : 0 < a ∧ 0 < b := by
    constructor <;> rw [Nat.pos_iff_ne_zero] <;> rintro rfl <;> simp at same
  have divides : ∀ p, p ∣ 2 ^ 29 - 1 → p.Prime → p ∣ a ∨ p ∣ b := by
    intro p divisor prime
    rw [← same] at divisor
    exact prime.dvd_mul.mp divisor
  have first := divides 233 (by norm_num) (by norm_num)
  have second := divides 1103 (by norm_num) (by norm_num)
  have third := divides 2089 (by norm_num) (by norm_num)
  -- the factor with the first prime has none of the others, and so the other factor has both
  have apart : ∀ c, 0 < c → c < 2 ^ 15 → 233 ∣ c → ¬ 1103 ∣ c ∧ ¬ 2089 ∣ c := by
    intro c some small divisor
    exact ⟨not_dvd_of_dvd (by decide) (by omega) some divisor,
      not_dvd_of_dvd (by decide) (by omega) some divisor⟩
  have last : ∀ c, 0 < c → c < 2 ^ 15 → 1103 ∣ c → ¬ 2089 ∣ c := by
    intro c some small divisor
    exact not_dvd_of_dvd (by decide) (by omega) some divisor
  rcases first with inLeft | inRight
  · obtain ⟨notSecond, notThird⟩ := apart a positive.1 left inLeft
    exact last b positive.2 right (second.resolve_left notSecond) (third.resolve_left notThird)
  · obtain ⟨notSecond, notThird⟩ := apart b positive.2 right inRight
    exact last a positive.1 left (second.resolve_right notSecond) (third.resolve_right notThird)

theorem dataSize_ne {blockNumX blockNumY : U16} (evenX : 2 ∣ blockNumX.toNat)
    (evenY : 2 ∣ blockNumY.toNat) {size : U16} (sizes : size = 2 ∨ size = 128) :
    (size.setWidth 32 * blockNumX.setWidth 32 * blockNumY.setWidth 32 + 8 : U32) ≠ 0 := by
  intro zero
  have eight : (8 : U32).toNat = 8 := rfl
  have none : (0 : U32).toNat = 0 := rfl
  have number := congrArg BitVec.toNat zero
  obtain ⟨a, xs⟩ := evenX
  obtain ⟨b, ys⟩ := evenY
  have boundX := blockNumX.isLt
  have boundY := blockNumY.isLt
  have product := @mul_ne a b (by omega) (by omega)
  have small : a * b ≤ (2 ^ 15 - 1) * (2 ^ 15 - 1) := Nat.mul_le_mul (by omega) (by omega)
  simp only [BitVec.toNat_add, BitVec.toNat_mul, BitVec.toNat_setWidth,
    Nat.mod_add_mod, Nat.mul_mod_mod, Nat.mod_mul_mod, xs, ys, eight, none] at number
  rcases sizes with rfl | rfl
  · have bytes : 2 * (2 * a) * (2 * b) = 8 * (a * b) := by ring
    rw [show (2 : U16).toNat = 2 from rfl, bytes] at number
    omega
  · have bytes : 128 * (2 * a) * (2 * b) = 512 * (a * b) := by ring
    rw [show (128 : U16).toNat = 128 from rfl, bytes] at number
    omega

theorem Opening.dataSize_add_ne {s before : State} {i : Nat} {blockLen : U8}
    (lens : blockLen = 1 ∨ blockLen = 8) :
    (openingAt s i blockLen before).dataSize + 8 ≠ 0 := by
  have even : ∀ m h : Nat, 2 ∣ (BitVec.ofNat 16 (roundEven m * h)).toNat := by
    intro m h
    rw [BitVec.toNat_ofNat, Nat.dvd_mod_iff (by decide), roundEven]
    exact (Nat.dvd_mul_left 2 _).mul_right h
  apply dataSize_ne (even _ _) (even _ _)
  rcases lens with rfl | rfl
  · exact .inl rfl
  · exact .inr rfl

end Sizes

section Opened

variable {machine : Machine} {site : MemoryPool.Site} {s t : State} {q cb : Address} {o : Opening}

/-- What holds of the structure once its fields are written. -/
structure Entered (site : MemoryPool.Site) (before s : State) (cb : Address) : Prop where
  inOrder : InOrder site s
  member : cb ∈ s.books.live
  room : 20 ≤ (MemoryPool.len s.reader.memory (cb - MemoryPool.HLEN)).toNat
  fresh : cb ∉ before.books.live
  grows : Grows before s
  above : site.pool + 8 ≤ cb.toNat
  below : cb.toNat + 20 ≤ site.pool + site.size

theorem Opening.entered_spec (inOrder : InOrder site o.before)
    (allots : Allots site o.before SIZEOF_COEFF_BUF cb s) :
    Entered site o.before (o.entered cb s) cb := by
  have room := allots.room
  have place := allots.place
  rw [show (SIZEOF_COEFF_BUF + 8).toNat = 20 by decide] at room place
  have only : ∀ byte, (MemoryPool.len s.reader.memory (cb - MemoryPool.HLEN)).toNat ≤
      (byte - cb).toNat → o.fields cb s.reader.memory byte = s.reader.memory byte := by
    intro byte outside
    exact Opening.fields_outside (by omega)
  obtain ⟨order, lens⟩ := allots.inOrder.within allots.mem only
  refine ⟨order, allots.mem, ?_, allots.fresh, ?_, place.1, place.2⟩
  · rw [Opening.entered, lens cb allots.mem]
    exact room
  · exact allots.grows.within inOrder allots.inOrder allots.mem allots.fresh only rfl

theorem Entered.stored {before u : State} {n : U32} {data : Address} (inOrder : InOrder site before)
    (entered : Entered site before s cb) (allots : Allots site s n data u) (some : data ≠ 0) :
    let v := { u with reader := { u.reader with memory := store u.reader.memory cb data } }
    InOrder site v ∧ Grows before v ∧ Usable v cb := by
  obtain ⟨blocks, represents⟩ := entered.inOrder.pooled
  have member : cb ∈ u.books.live := allots.grows.live cb entered.member
  have room : 20 ≤ (MemoryPool.len u.reader.memory (cb - MemoryPool.HLEN)).toNat := by
    rw [allots.same.len_eq represents (fun _ member => member) entered.member]
    exact entered.room
  have only : ∀ byte, (MemoryPool.len u.reader.memory (cb - MemoryPool.HLEN)).toNat ≤
      (byte - cb).toNat → store u.reader.memory cb data byte = u.reader.memory byte := by
    intro byte outside
    exact store_outside (by omega)
  obtain ⟨order, lens⟩ := allots.inOrder.within member only
  have grows := entered.grows.trans inOrder allots.grows
  refine ⟨order, grows.within inOrder allots.inOrder member entered.fresh only rfl, member, ?_, ?_⟩
  · dsimp only
    rw [lens cb member]
    omega
  · rw [pu8Data, load_store]
    exact some

variable (avail : site.avail = machine.avail) (remote : Remote site)
  (inOrder : InOrder site o.before) (some : o.dataSize + 8 ≠ 0)

include avail remote inOrder some

theorem Opening.returns :
    ∃ q t, o.run machine = .some (q, t) ∧ OnlyPool o.before t ∧ InOrder site t := by
  obtain ⟨cb, s, given, only, structure_⟩ := alloc_returns machine avail remote inOrder
    (show SIZEOF_COEFF_BUF + 8 ≠ 0 by decide)
  rcases structure_ with ⟨rfl, emptied⟩ | ⟨nonzero, allots⟩
  · obtain ⟨t, failed, later, emptied⟩ :=
      terminate_returns machine avail remote emptied.inOrder .notEnoughMem
    refine ⟨0, t, ?_, only.trans later, emptied.inOrder⟩
    change (alloc machine SIZEOF_COEFF_BUF o.before).bind _ = _
    rw [given]
    exact returns_behind failed
  · have entered := Opening.entered_spec inOrder allots
    have onlyEntered : OnlyPool o.before (o.entered cb s) := only.trans rfl
    obtain ⟨data, u, dataGiven, onlyData, result⟩ :=
      alloc_returns machine avail remote entered.inOrder some
    have ran : o.run machine = (if data = 0 then do
          terminate machine .notEnoughMem
          pure cb
        else pure cb : Program State Address) { u with reader := { u.reader with
          memory := store u.reader.memory cb data } } := by
      change (alloc machine SIZEOF_COEFF_BUF o.before).bind _ = _
      rw [given]
      simp only [Option.bind_some, if_neg nonzero]
      change (alloc machine o.dataSize (o.entered cb s)).bind _ = _
      rw [dataGiven]
      rfl
    rw [ran]
    have onlyStored : OnlyPool o.before { u with reader := { u.reader with
        memory := store u.reader.memory cb data } } := (onlyEntered.trans onlyData).trans rfl
    rcases result with ⟨rfl, emptied⟩ | ⟨someData, dataAllots⟩
    · have above := entered.above
      have below := entered.below
      have siteRoom := site.room
      have outside : ∀ byte : Address,
          byte.toNat < site.pool + 8 ∨ site.pool + site.size ≤ byte.toNat →
          store u.reader.memory cb 0 byte = u.reader.memory byte := by
        intro byte outside
        apply store_outside
        rw [BitVec.toNat_sub]
        omega
      have stored := emptied.within outside
      obtain ⟨t, failed, later, emptied⟩ :=
        terminate_returns machine avail remote stored.inOrder .notEnoughMem
      refine ⟨cb, t, ?_, onlyStored.trans later, emptied.inOrder⟩
      rw [if_pos rfl]
      exact returns_behind failed
    · have stored := (entered.stored inOrder dataAllots someData).1
      refine ⟨cb, _, ?_, onlyStored, stored⟩
      rw [if_neg someData]
      rfl

theorem Opening.keeps (ran : o.run machine = .some (q, t)) :
    OnlyPool o.before t ∧ InOrder site t := by
  obtain ⟨q', t', ran', only, order⟩ := Opening.returns avail remote inOrder some
  rw [ran, Option.some.injEq] at ran'
  obtain ⟨rfl, rfl⟩ := Prod.mk.inj ran'
  exact ⟨only, order⟩

theorem Opening.usable (ran : o.run machine = .some (q, t))
    (structureRoom : ¬ o.StructureDenied machine) (dataRoom : ¬ o.DataDenied machine) :
    Grows o.before t ∧ Usable t q := by
  obtain ⟨s, data, u, given, nonzero, dataGiven, someData, rfl⟩ :=
    Opening.run_of_room ran structureRoom dataRoom
  have allots := allots_of_alloc avail remote inOrder (by decide) given nonzero
  have entered := Opening.entered_spec inOrder allots
  have dataAllots := allots_of_alloc avail remote entered.inOrder some dataGiven someData
  obtain ⟨-, grows, usable⟩ := entered.stored inOrder dataAllots someData
  exact ⟨grows, usable⟩

end Opened

section Loop

variable {machine : Machine} {site : MemoryPool.Site} {s t : State} {i count : Nat}
  (avail : site.avail = machine.avail) (remote : Remote site) (inOrder : InOrder site s)

include avail remote inOrder

theorem openComponent_returns :
    ∃ ok t, openComponent machine i s = some (ok, t) ∧ InOrder site t := by
  obtain ⟨dc, s1, dcRan, -, order⟩ := @Opening.returns machine site (openingAt s i 1 s) avail
    remote inOrder (Opening.dataSize_add_ne (.inl rfl))
  have dcOpened : openDc machine i (openingAt s i 1 s).blockNumX (openingAt s i 1 s).blockNumY s =
      some (dc, { s1 with dcCoeffs := Function.update s1.dcCoeffs i dc }) := by
    change ((openingAt s i 1 s).run machine).bind _ = _
    rw [dcRan]
    rfl
  have order' : InOrder site { s1 with dcCoeffs := Function.update s1.dcCoeffs i dc } :=
    order.of_same rfl order.kept
  obtain ⟨ac, s2, acRan, -, order⟩ := @Opening.returns machine site (openingAt s i 8
    { s1 with dcCoeffs := Function.update s1.dcCoeffs i dc }) avail remote order' (Opening.dataSize_add_ne (.inr rfl))
  have acOpened : openAc machine i (openingAt s i 8 s).blockNumX (openingAt s i 8 s).blockNumY { s1 with dcCoeffs := Function.update s1.dcCoeffs i dc } =
      some (ac, { s2 with acCoeffs := Function.update s2.acCoeffs i ac }) := by
    change ((openingAt s i 8 _).run machine).bind _ = _
    rw [acRan]
    rfl
  have order : InOrder site { s2 with acCoeffs := Function.update s2.acCoeffs i ac } :=
    order.of_same rfl order.kept
  have ran : openComponent machine i s = (if dc = 0 ∨ ac = 0 then do
        freeAllBlocks machine
        pure false
      else do
        note (.opened i)
        pure true : Program State Bool)
          { s2 with acCoeffs := Function.update s2.acCoeffs i ac } := by
    change (openDc machine i (openingAt s i 1 s).blockNumX (openingAt s i 1 s).blockNumY s).bind _ =
      _
    rw [dcOpened]
    change (openAc machine i (openingAt s i 8 s).blockNumX (openingAt s i 8 s).blockNumY _).bind _ =
      _
    rw [acOpened]
    rfl
  rw [ran]
  split
  · obtain ⟨t, freed, -, emptied⟩ := freeAllBlocks_returns machine avail remote order
    exact ⟨false, t, returns_behind freed, emptied.inOrder⟩
  · exact ⟨true, _, rfl, order.noted (.opened i)⟩

theorem openComponents_returns :
    ∃ ok t, forEachOk (openComponent machine) i count s = some (ok, t) ∧ InOrder site t := by
  induction count generalizing i s with
  | zero => exact ⟨true, s, rfl, inOrder⟩
  | succ count inductionHypothesis =>
      obtain ⟨ok, s', component, order⟩ := @openComponent_returns machine site s i avail remote
        inOrder
      have ran : forEachOk (openComponent machine) i (count + 1) s =
          (if ok then forEachOk (openComponent machine) (i + 1) count else pure false) s' := by
        change (openComponent machine i s).bind _ = _
        rw [component]
        rfl
      rw [ran]
      cases ok with
      | true => exact inductionHypothesis order
      | false => exact ⟨false, s', rfl, order⟩

theorem openComponent_usable (ran : openComponent machine i s = some (true, t))
    (room : ∀ o ∈ openingsOf machine i s, ¬ o.DataDenied machine) :
    InOrder site t ∧ Grows s t ∧ (Usable t (t.dcCoeffs i) ∧ Usable t (t.acCoeffs i)) ∧
      ∀ j, j ≠ i → t.dcCoeffs j = s.dcCoeffs j ∧ t.acCoeffs j = s.acCoeffs j := by
  obtain ⟨dc, s1, ac, s2, dcRan, acRan, ends⟩ := openComponent_eq ran
  rcases ends with ⟨impossible, -⟩ | ⟨-, someDc, someAc, rfl⟩
  · cases impossible
  rw [openingsOf, dcRan, List.forall_mem_cons, List.forall_mem_singleton] at room
  have dcSize := @Opening.dataSize_add_ne s s i 1 (.inl rfl)
  obtain ⟨dcOnly, dcOrder⟩ := Opening.keeps avail remote inOrder dcSize dcRan
  obtain ⟨dcGrows, dcUsable⟩ := Opening.usable avail remote inOrder dcSize dcRan
    ((Opening.eq_zero_iff dcRan).not.mp someDc) room.1
  have order : InOrder site { s1 with dcCoeffs := Function.update s1.dcCoeffs i dc } :=
    dcOrder.of_same rfl dcOrder.kept
  have acSize := @Opening.dataSize_add_ne s
    { s1 with dcCoeffs := Function.update s1.dcCoeffs i dc } i 8 (.inr rfl)
  obtain ⟨acOnly, acOrder⟩ := Opening.keeps avail remote order acSize acRan
  obtain ⟨acGrows, acUsable⟩ := Opening.usable avail remote order acSize acRan
    ((Opening.eq_zero_iff acRan).not.mp someAc) room.2
  have behind : Grows s1 s2 := ⟨acGrows.live, acGrows.same⟩
  have grows := dcGrows.trans inOrder behind
  obtain ⟨dcDc, dcAc⟩ := dcOnly.coeffs
  obtain ⟨acDc, acAc⟩ := acOnly.coeffs
  dsimp only [openingAt] at dcDc dcAc acDc acAc
  have order : InOrder site { s2 with acCoeffs := Function.update s2.acCoeffs i ac } :=
    acOrder.of_same rfl acOrder.kept
  refine ⟨order.noted (.opened i), ⟨grows.live, grows.same⟩, ⟨?_, ?_⟩, ?_⟩
  · have later := behind.usable dcOrder dcUsable
    dsimp only
    rw [acDc, Function.update_self]
    exact ⟨later.live, later.structureRoom, later.data⟩
  · dsimp only
    rw [Function.update_self]
    exact ⟨acUsable.live, acUsable.structureRoom, acUsable.data⟩
  · intro j other
    dsimp only
    rw [acDc, Function.update_of_ne other, Function.update_of_ne other, dcDc, acAc, dcAc]
    exact ⟨rfl, rfl⟩

theorem openComponents_usable
    (ran : forEachOk (openComponent machine) i count s = some (true, t))
    (room : ∀ o ∈ openings machine i count s, ¬ o.DataDenied machine) :
    InOrder site t ∧ Grows s t ∧
      (∀ j, i ≤ j → j < i + count → Usable t (t.dcCoeffs j) ∧ Usable t (t.acCoeffs j)) ∧
      ∀ j, j < i → t.dcCoeffs j = s.dcCoeffs j ∧ t.acCoeffs j = s.acCoeffs j := by
  induction count generalizing i s with
  | zero =>
      obtain ⟨-, rfl⟩ := Prod.mk.inj (Option.some.inj ran)
      refine ⟨inOrder, ⟨fun _ member => member, fun _ _ _ _ => rfl⟩, ?_, fun _ _ => ⟨rfl, rfl⟩⟩
      intro j atLeast below
      omega
  | succ count inductionHypothesis =>
      obtain ⟨⟨opened, s'⟩, component, later⟩ := Option.bind_eq_some_iff.mp ran
      cases opened with
      | false =>
          obtain ⟨impossible, -⟩ := Prod.mk.inj (Option.some.inj later)
          cases impossible
      | true =>
          rw [openings, component, List.forall_mem_append] at room
          obtain ⟨order, grows, usable, others⟩ :=
            openComponent_usable avail remote inOrder component room.1
          obtain ⟨lastOrder, lastGrows, lastUsable, kept⟩ := inductionHypothesis order later room.2
          refine ⟨lastOrder, grows.trans inOrder lastGrows, ?_, ?_⟩
          · intro j atLeast below
            rcases Nat.eq_or_lt_of_le atLeast with rfl | behind
            · rw [(kept i (Nat.lt_succ_self i)).1, (kept i (Nat.lt_succ_self i)).2]
              exact ⟨lastGrows.usable order usable.1, lastGrows.usable order usable.2⟩
            · exact lastUsable j behind (by omega)
          · intro j below
            rw [(kept j (by omega)).1, (kept j (by omega)).2]
            exact others j (by omega)

end Loop

end Gp2Firmware.Jpeg.Decoder
