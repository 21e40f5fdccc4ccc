import Gp2Firmware.Emac.TransmitBuffer
import Gp2Firmware.Lib.IndexRing

/-!
# The receive ring of the EMAC driver

`MDev_EMAC_rx` as built with `SOFTWARE_DESCRIPTOR` and `INT_DELAY`, statement by
statement, over the ring of descriptors that it shares with the MAC.  A buffer is known by
its data address, so that distinct buffers do not overlap.
-/

namespace Gp2Firmware.Emac

open Lib

/-- `MAX_RX_DESCR` -/
def maxRxDescr : Nat := 0x40

/-- `EMAC_DESC_DONE` -/
def descDone : U32 := 0x1

/-- `EMAC_DESC_WRAP` -/
def descWrap : U32 := 0x2

/-- `ETH_HLEN` -/
def ethHlen : Nat := 14

/-- The data of an skb from `alloc_skb`, which is aligned to words. -/
structure DataAddr where
  addr : U32
  aligned : addr &&& (descDone ||| descWrap) = 0

/-- What `alloc_skb` returns for the descriptors, one after the other: buffers that do not
overlap. -/
structure RxAlloc where
  data : Nat → Option DataAddr
  apart : ∀ index < maxRxDescr, ∀ other < maxRxDescr, ∀ addr ∈ data index,
    ∀ otherAddr ∈ data other, addr.addr = otherAddr.addr → index = other

/-- An skb of the ring, numbered by its allocation. -/
structure RxSkb where
  number : Nat
  data : DataAddr

/-- A frame on the wire, with its check sequence. -/
structure RxFrame where
  bytes : List U8
  least : 64 ≤ bytes.length
  most : bytes.length ≤ 1518

structure Desc where
  addr : U32
  size : U32

/-- `addr & EMAC_DESC_DONE` -/
def Desc.Done (desc : Desc) : Prop := desc.addr &&& descDone ≠ 0

instance (desc : Desc) : Decidable desc.Done := inferInstanceAs (Decidable (_ ≠ _))

/-- `addr & EMAC_DESC_WRAP` -/
def Desc.Wraps (desc : Desc) : Prop := desc.addr &&& descWrap ≠ 0

instance (desc : Desc) : Decidable desc.Wraps := inferInstanceAs (Decidable (_ ≠ _))

/-- `addr & ~( EMAC_DESC_DONE | EMAC_DESC_WRAP )` -/
def Desc.data (desc : Desc) : U32 := desc.addr &&& ~~~(descDone ||| descWrap)

/-- The part of an skb that `skb_put` and `eth_type_trans` change: how far `data` is in
front of the buffer, and `len`. -/
structure SkbView where
  offset : Nat
  len : U32

def SkbView.skbPut (view : SkbView) (len : U32) : SkbView := { view with len := view.len + len }

def SkbView.ethTypeTrans (view : SkbView) : SkbView :=
  ⟨view.offset + ethHlen, view.len - BitVec.ofNat 32 ethHlen⟩

/-- An skb given to `netif_rx`, with the bytes in its buffer. -/
structure HandedSkb where
  number : Nat
  view : SkbView
  bytes : List U8

/-- The data of an skb are the bytes behind the Ethernet header, and so is its length. -/
def HandedSkb.Exact (handed : HandedSkb) : Prop :=
  handed.view.offset = ethHlen ∧ handed.view.len.toNat + ethHlen = handed.bytes.length

/-- Where `MDev_EMAC_rx` is: outside, at the top of its loop, behind `netif_rx`, or behind
the new address of the descriptor. -/
inductive RxAt where
  | outside
  | top
  | handed
  | rearmed
  deriving DecidableEq

/-- The driver and the MAC.  `buffers` has the bytes that the MAC stored last at an
address, and `position` is the descriptor that it stores to next; `stored` are the frames
that it has stored. -/
structure RxRing where
  descriptors : Nat → Desc
  rxSkb : Nat → Option RxSkb
  buffers : U32 → List U8
  rxBuffIndex : Nat
  position : Nat
  receiving : Bool
  rx : RxAt
  xReceiveNum : U32
  flagRBNA : Bool
  allocated : Nat
  crashed : Bool
  stored : List (List U8)
  handed : List HandedSkb

inductive RxEvent where
  | store (frame : RxFrame) (multicast : Bool)
  | call (xReceiveNum : U32) (flagRBNA : Bool)
  | rx (alloc : Option DataAddr)
  | openDev
  | closeDev

namespace RxRing

/-- The address that goes into a descriptor. -/
def descAddr (index : Nat) (addr : DataAddr) : U32 :=
  if index < maxRxDescr - 1 then addr.addr else addr.addr + descWrap

/-- The loop of `MDev_EMAC_HW_init`, which dereferences a null pointer where `alloc_skb`
fails.  The device is not open yet. -/
def init (alloc : RxAlloc) (buffers : U32 → List U8) : RxRing where
  descriptors := fun index =>
    match alloc.data index with
    | none => ⟨0, 0⟩
    | some addr => ⟨descAddr index addr, 0⟩
  rxSkb := fun index => (alloc.data index).map (RxSkb.mk index)
  buffers := buffers
  rxBuffIndex := 0
  position := 0
  receiving := false
  rx := .outside
  xReceiveNum := 0
  flagRBNA := false
  allocated := maxRxDescr
  crashed := (List.range maxRxDescr).any fun index => (alloc.data index).isNone
  stored := []
  handed := []

/-- The MAC stores a frame where the descriptor is its own, and moves on. -/
def store (s : RxRing) (frame : RxFrame) (multicast : Bool) : RxRing :=
  let desc := s.descriptors s.position
  if s.receiving = true ∧ ¬ desc.Done then
    { s with
      descriptors := Function.update s.descriptors s.position
        { addr := desc.addr ||| descDone
          size := BitVec.ofNat 32 frame.bytes.length |||
            if multicast then 0x40000000 else 0 }
      buffers := Function.update s.buffers desc.data frame.bytes
      position := if desc.Wraps then 0 else s.position + 1
      stored := s.stored ++ [frame.bytes] }
  else s

/-- `pktlen` -/
def pktlen (s : RxRing) : U32 := (s.descriptors s.rxBuffIndex).size &&& 0x7ff

/-- The loop from its test to `netif_rx`. -/
def handOver (s : RxRing) : RxRing :=
  if (s.descriptors s.rxBuffIndex).Done then
    match s.rxSkb s.rxBuffIndex with
    | none => { s with crashed := true }
    | some skb =>
        { s with
          rx := .handed
          handed := s.handed ++
            [{ number := skb.number
               view := { ((SkbView.mk 0 0).skbPut s.pktlen).ethTypeTrans with len := s.pktlen }
               bytes := s.buffers skb.data.addr }] }
  else { s with rx := .outside, xReceiveNum := 0, flagRBNA := false }

/-- `alloc_skb`, and the new address of the descriptor.  If there is no skb, the read of
its `data` dereferences a null pointer. -/
def rearm (s : RxRing) (alloc : Option DataAddr) : RxRing :=
  match alloc with
  | none =>
      { s with rxSkb := Function.update s.rxSkb s.rxBuffIndex none, crashed := true }
  | some addr =>
      { s with
        rxSkb := Function.update s.rxSkb s.rxBuffIndex (some ⟨s.allocated, addr⟩)
        allocated := s.allocated + 1
        descriptors := Function.update s.descriptors s.rxBuffIndex
          { s.descriptors s.rxBuffIndex with addr := descAddr s.rxBuffIndex addr }
        rx := .rearmed }

/-- The end of `MDev_EMAC_rx`, or the next turn of its loop. -/
def count (s : RxRing) : RxRing :=
  if s.flagRBNA = false then
    { s with
      xReceiveNum := s.xReceiveNum - 1
      rx := if s.xReceiveNum - 1 = 0 then .outside else .top }
  else { s with rx := .top }

/-- The ownership bit is reset, and the index moves on. -/
def release (s : RxRing) : RxRing :=
  let desc := s.descriptors s.rxBuffIndex
  { s with
    descriptors := Function.update s.descriptors s.rxBuffIndex
      { desc with addr := desc.addr &&& ~~~descDone }
    rxBuffIndex := if s.rxBuffIndex + 1 = maxRxDescr then 0 else s.rxBuffIndex + 1 }.count

/-- The next statements of `MDev_EMAC_rx`. -/
def rxStep (s : RxRing) (alloc : Option DataAddr) : RxRing :=
  match s.rx with
  | .outside => s
  | .top => s.handOver
  | .handed => s.rearm alloc
  | .rearmed => s.release

/-- `MDev_EMAC_start` -/
def start (s : RxRing) : RxRing :=
  let last := s.descriptors (maxRxDescr - 1)
  { s with
    descriptors := Function.update s.descriptors (maxRxDescr - 1)
      { last with addr := last.addr ||| descWrap }
    position := 0
    rxBuffIndex := 0
    receiving := true }

/-- A process does not run while the interrupt handler is in `MDev_EMAC_rx`. -/
def step (s : RxRing) : RxEvent → RxRing
  | .store frame multicast => s.store frame multicast
  | .call xReceiveNum flagRBNA =>
      if s.rx = .outside then
        { s with rx := .top, xReceiveNum := xReceiveNum, flagRBNA := flagRBNA }
      else s
  | .rx alloc => s.rxStep alloc
  | .openDev => if s.rx = .outside then s.start else s
  | .closeDev => if s.rx = .outside then { s with receiving := false } else s

/-- Nothing runs after a crash. -/
def after (s : RxRing) (event : RxEvent) : RxRing :=
  if s.crashed then s else s.step event

/-- The descriptor whose frame is handed over next. -/
def next (s : RxRing) : Nat :=
  match s.rx with
  | .outside | .top => s.rxBuffIndex
  | .handed | .rearmed => (s.rxBuffIndex + 1) % maxRxDescr

/-- The frame in the buffer of a descriptor. -/
def frameAt (s : RxRing) (index : Nat) : List U8 :=
  match s.rxSkb index with
  | none => []
  | some skb => s.buffers skb.data.addr

/-! ### The law -/

/-- A descriptor of the MAC has the data address of an skb that the ring owns. -/
def Armed (s : RxRing) (index : Nat) : Prop :=
  ∃ skb ∈ s.rxSkb index, (s.descriptors index).data = skb.data.addr ∧
    ∀ handed ∈ s.handed, handed.number ≠ skb.number

/-- The frames that were stored have been handed over once and in order, up to those in
the descriptors from the next one on. -/
def InOrder (s : RxRing) : Prop :=
  ∃ waiting, s.stored =
      s.handed.map HandedSkb.bytes ++ (IndexRing.walk maxRxDescr s.next waiting).map s.frameAt ∧
    ∀ index ∈ IndexRing.walk maxRxDescr s.next waiting, (s.descriptors index).Done

/-- The law but for the lengths. -/
structure RingLaw (s : RxRing) : Prop where
  alive : s.crashed = false
  armed : ∀ index < maxRxDescr, ¬ (s.descriptors index).Done → s.Armed index
  wraps : ∀ index < maxRxDescr, (s.descriptors index).Wraps ↔ index = maxRxDescr - 1
  inOrder : s.InOrder

/-- The whole law. -/
structure ReceiveLaw (s : RxRing) : Prop extends RingLaw s where
  exact_ : ∀ handed ∈ s.handed, handed.Exact

/-- The loop of `MDev_EMAC_rx` finds no frame. -/
def FindsNone (s : RxRing) : RxEvent → Prop
  | .rx _ => s.rx = .top → ¬ (s.descriptors s.rxBuffIndex).Done
  | _ => True

/-- A buffer that no skb of the ring has. -/
def Fresh (s : RxRing) (addr : DataAddr) : Prop :=
  ∀ index < maxRxDescr, index ≠ s.rxBuffIndex → ∀ skb ∈ s.rxSkb index,
    skb.data.addr ≠ addr.addr

/-- `alloc_skb` does not fail, the MAC has not stored to the descriptor again when its
ownership bit is reset, and the device is opened with no frame in the ring. -/
def InStep (s : RxRing) : RxEvent → Prop
  | .rx alloc =>
      match s.rx with
      | .handed => ∃ addr ∈ alloc, s.Fresh addr
      | .rearmed => ¬ (s.descriptors s.rxBuffIndex).Done
      | _ => True
  | .openDev => s.rx = .outside → ∀ index < maxRxDescr, ¬ (s.descriptors index).Done
  | _ => True

end RxRing

/-! ### The address of a descriptor -/

section Words

variable {addr : U32} {size other : U32}

theorem DataAddr.and_of_sub (data : DataAddr) {mask : U32}
    (sub : (descDone ||| descWrap) &&& mask = mask) : data.addr &&& mask = 0 := by
  rw [← sub, ← BitVec.and_assoc, data.aligned]
  exact BitVec.zero_and

theorem or_and_apart {bit mask : U32} (apart : bit &&& mask = 0) :
    (addr ||| bit) &&& mask = addr &&& mask := by
  rw [BitVec.and_or_distrib_right, apart]
  exact BitVec.or_zero

theorem clear_and_apart {bit mask : U32} (apart : ~~~bit &&& mask = mask) :
    addr &&& ~~~bit &&& mask = addr &&& mask := by
  rw [BitVec.and_assoc, apart]

theorem done_or_done : (Desc.mk (addr ||| descDone) size).Done := by
  have lit : descDone ≠ 0 := by decide
  rw [Desc.Done, BitVec.and_or_distrib_right, BitVec.and_self]
  intro zero
  exact lit (BitVec.or_eq_zero_iff.mp zero).2

theorem wraps_or_done :
    (Desc.mk (addr ||| descDone) size).Wraps ↔ (Desc.mk addr other).Wraps := by
  rw [Desc.Wraps, or_and_apart (by decide), Desc.Wraps]

theorem data_or_done :
    (Desc.mk (addr ||| descDone) size).data = (Desc.mk addr other).data :=
  or_and_apart (by decide)

theorem done_or_wrap :
    (Desc.mk (addr ||| descWrap) size).Done ↔ (Desc.mk addr other).Done := by
  rw [Desc.Done, or_and_apart (by decide), Desc.Done]

theorem wraps_or_wrap : (Desc.mk (addr ||| descWrap) size).Wraps := by
  have lit : descWrap ≠ 0 := by decide
  rw [Desc.Wraps, BitVec.and_or_distrib_right, BitVec.and_self]
  intro zero
  exact lit (BitVec.or_eq_zero_iff.mp zero).2

theorem data_or_wrap :
    (Desc.mk (addr ||| descWrap) size).data = (Desc.mk addr other).data :=
  or_and_apart (by decide)

theorem done_clear : ¬ (Desc.mk (addr &&& ~~~descDone) size).Done := by
  rw [Desc.Done, BitVec.and_assoc, show ~~~descDone &&& descDone = 0 by decide]
  exact not_not_intro BitVec.and_zero

theorem wraps_clear :
    (Desc.mk (addr &&& ~~~descDone) size).Wraps ↔ (Desc.mk addr other).Wraps := by
  rw [Desc.Wraps, clear_and_apart (by decide), Desc.Wraps]

theorem data_clear :
    (Desc.mk (addr &&& ~~~descDone) size).data = (Desc.mk addr other).data :=
  clear_and_apart (by decide)

/-- The address that goes into a descriptor has the flag of the last one, and no other. -/
theorem descAddr_eq (index : Nat) (data : DataAddr) :
    RxRing.descAddr index data =
      data.addr ||| if index < maxRxDescr - 1 then 0 else descWrap := by
  rw [RxRing.descAddr]
  split
  · exact BitVec.or_zero.symm
  · exact BitVec.add_eq_or_of_and_eq_zero _ _ (data.and_of_sub (by decide))

theorem done_descAddr (index : Nat) (data : DataAddr) :
    ¬ (Desc.mk (RxRing.descAddr index data) size).Done := by
  rw [Desc.Done, descAddr_eq]
  split
  · rw [or_and_apart (by decide), data.and_of_sub (by decide)]
    exact not_not_intro rfl
  · rw [or_and_apart (by decide), data.and_of_sub (by decide)]
    exact not_not_intro rfl

theorem wraps_descAddr {index : Nat} (inside : index < maxRxDescr) (data : DataAddr) :
    (Desc.mk (RxRing.descAddr index data) size).Wraps ↔ index = maxRxDescr - 1 := by
  rw [descAddr_eq]
  split
  · rename_i small
    rw [Desc.Wraps, or_and_apart (by decide), data.and_of_sub (by decide)]
    exact iff_of_false (not_not_intro rfl) (by omega)
  · exact iff_of_true wraps_or_wrap (by omega)

theorem data_descAddr (index : Nat) (data : DataAddr) :
    (Desc.mk (RxRing.descAddr index data) size).data = data.addr := by
  have whole : data.addr &&& ~~~(descDone ||| descWrap) = data.addr := by
    have split : data.addr &&& (descDone ||| descWrap ||| ~~~(descDone ||| descWrap)) =
        data.addr := by
      rw [show descDone ||| descWrap ||| ~~~(descDone ||| descWrap) = BitVec.allOnes 32 by
        decide]
      exact BitVec.and_allOnes
    rw [BitVec.and_or_distrib_left, data.aligned] at split
    exact BitVec.zero_or.symm.trans split
  rw [Desc.data, descAddr_eq]
  split
  · rw [or_and_apart (by decide), whole]
  · rw [or_and_apart (by decide), whole]

end Words

namespace RxRing

variable {s : RxRing} {waiting : Nat}

/-- The state between two steps, with the number of frames that wait in the ring.  While
`MDev_EMAC_rx` is behind `netif_rx`, the descriptor of the frame that it has handed over is
still not the MAC's. -/
structure Linked (s : RxRing) (waiting : Nat) : Prop where
  alive : s.crashed = false
  index_lt : s.rxBuffIndex < maxRxDescr
  few : waiting ≤ maxRxDescr
  owned : ∀ index < maxRxDescr, ∃ skb ∈ s.rxSkb index,
    (s.descriptors index).data = skb.data.addr ∧ skb.number < s.allocated ∧
      ∀ handed ∈ s.handed, handed.number = skb.number →
        s.rx = .handed ∧ index = s.rxBuffIndex
  older : ∀ handed ∈ s.handed, handed.number < s.allocated
  apart : ∀ index < maxRxDescr, ∀ other < maxRxDescr, ∀ skb ∈ s.rxSkb index,
    ∀ otherSkb ∈ s.rxSkb other,
      skb.number = otherSkb.number ∨ skb.data.addr = otherSkb.data.addr → index = other
  wraps : ∀ index < maxRxDescr, (s.descriptors index).Wraps ↔ index = maxRxDescr - 1
  done_iff : ∀ index < maxRxDescr, (s.descriptors index).Done ↔
    index ∈ IndexRing.walk maxRxDescr s.next waiting ∨
      s.rx = .handed ∧ index = s.rxBuffIndex
  behind : s.rx = .handed → waiting < maxRxDescr
  sizes : ∀ index ∈ IndexRing.walk maxRxDescr s.next waiting,
    ((s.descriptors index).size &&& 0x7ff).toNat = (s.frameAt index).length
  stored_eq : s.stored = s.handed.map HandedSkb.bytes ++
    (IndexRing.walk maxRxDescr s.next waiting).map s.frameAt

theorem maxRxDescr_pos : 0 < maxRxDescr := by decide

theorem mem_walk_lt {read count cell : Nat}
    (member : cell ∈ IndexRing.walk maxRxDescr read count) : cell < maxRxDescr := by
  obtain ⟨turn, _, same⟩ := IndexRing.mem_walk.mp member
  rw [← same]
  exact Nat.mod_lt _ maxRxDescr_pos

namespace Linked

theorem next_lt (linked : s.Linked waiting) : s.next < maxRxDescr := by
  rw [next]
  split
  · exact linked.index_lt
  · exact linked.index_lt
  · exact Nat.mod_lt _ maxRxDescr_pos
  · exact Nat.mod_lt _ maxRxDescr_pos

/-- The ring is as the law says. -/
theorem ringLaw (linked : s.Linked waiting) : s.RingLaw where
  alive := linked.alive
  armed := by
    intro index inside free
    obtain ⟨skb, here, data, _, fresh⟩ := linked.owned index inside
    refine ⟨skb, here, data, fun handed member same => ?_⟩
    exact free ((linked.done_iff index inside).mpr (Or.inr (fresh handed member same)))
  wraps := linked.wraps
  inOrder :=
    ⟨waiting, linked.stored_eq, fun index member =>
      (linked.done_iff index (mem_walk_lt member)).mpr (Or.inl member)⟩

/-- The first free descriptor is behind those that wait. -/
theorem room (linked : s.Linked waiting)
    (free : ¬ (s.descriptors ((s.next + waiting) % maxRxDescr)).Done) :
    waiting < maxRxDescr := by
  rcases Nat.lt_or_eq_of_le linked.few with small | full
  · exact small
  · have start : (s.next + waiting) % maxRxDescr = s.next := by
      rw [full, Nat.add_mod_right, Nat.mod_eq_of_lt linked.next_lt]
    rw [start] at free
    refine absurd ((linked.done_iff _ linked.next_lt).mpr (Or.inl ?_)) free
    exact IndexRing.mem_walk.mpr
      ⟨0, full ▸ maxRxDescr_pos, Nat.mod_eq_of_lt linked.next_lt⟩

end Linked

/-- Another buffer has what it had. -/
theorem frameAt_update (linked : s.Linked waiting) {index position : Nat}
    (inside : index < maxRxDescr) (there : position < maxRxDescr) (apart : index ≠ position)
    (bytes : List U8) {t : RxRing} (skbs : t.rxSkb = s.rxSkb)
    (buffers : t.buffers = Function.update s.buffers (s.descriptors position).data bytes) :
    t.frameAt index = s.frameAt index := by
  obtain ⟨skb, here, _⟩ := linked.owned index inside
  obtain ⟨other, stored, data, _⟩ := linked.owned position there
  rw [frameAt, frameAt, skbs, buffers, Option.mem_def.mp here]
  refine Function.update_of_ne (fun same => apart ?_) _ _
  rw [data] at same
  exact linked.apart index inside position there skb here other stored (Or.inr same)

/-- The size of a frame fits its field. -/
theorem size_and (frame : RxFrame) (multicast : Bool) :
    ((BitVec.ofNat 32 frame.bytes.length ||| if multicast then 0x40000000 else 0) &&&
      (0x7ff : U32)).toNat = frame.bytes.length := by
  have most := frame.most
  have apart : (if multicast then (0x40000000 : U32) else 0) &&& 0x7ff = 0 := by
    cases multicast <;> decide
  rw [or_and_apart apart, BitVec.toNat_and, BitVec.toNat_ofNat,
    Nat.mod_eq_of_lt (by omega)]
  change frame.bytes.length &&& (2 ^ 11 - 1) = frame.bytes.length
  rw [Nat.and_two_pow_sub_one_eq_mod, Nat.mod_eq_of_lt (by omega)]

/-- The MAC changes nothing of the driver. -/
theorem driver_store (s : RxRing) (frame : RxFrame) (multicast : Bool) :
    (s.store frame multicast).rx = s.rx ∧ (s.store frame multicast).handed = s.handed ∧
      (s.store frame multicast).rxBuffIndex = s.rxBuffIndex := by
  rw [store]
  split
  · exact ⟨rfl, rfl, rfl⟩
  · exact ⟨rfl, rfl, rfl⟩

theorem next_store (s : RxRing) (frame : RxFrame) (multicast : Bool) :
    (s.store frame multicast).next = s.next := by
  obtain ⟨rx, -, index⟩ := driver_store s frame multicast
  rw [next, next, rx, index]

/-- The MAC stores a frame behind those that wait. -/
theorem Linked.store (linked : s.Linked waiting) (frame : RxFrame) (multicast : Bool)
    (stores : s.receiving = true ∧ ¬ (s.descriptors s.position).Done)
    (here : s.position = (s.next + waiting) % maxRxDescr) :
    (s.store frame multicast).Linked (waiting + 1) ∧
      (s.store frame multicast).position = (s.next + (waiting + 1)) % maxRxDescr := by
  have free := stores.2
  rw [here] at free
  have room := linked.room free
  have there : s.position < maxRxDescr := by
    rw [here]
    exact Nat.mod_lt _ maxRxDescr_pos
  obtain ⟨skb, own, data, number, fresh⟩ := linked.owned s.position there
  have apart : ∀ index ∈ IndexRing.walk maxRxDescr s.next waiting, index ≠ s.position := by
    rintro index member rfl
    exact IndexRing.behind_not_mem_walk room (here ▸ member)
  have same : ∀ index ∈ IndexRing.walk maxRxDescr s.next waiting,
      (s.store frame multicast).frameAt index = s.frameAt index := by
    intro index member
    refine frameAt_update linked (mem_walk_lt member) there (apart index member) frame.bytes
      ?_ ?_
    · rw [RxRing.store, if_pos stores]
    · rw [RxRing.store, if_pos stores]
  have last : (s.store frame multicast).frameAt s.position = frame.bytes := by
    rw [RxRing.store, if_pos stores]
    simp only [frameAt, Option.mem_def.mp own, data]
    exact Function.update_self ..
  have walk : IndexRing.walk maxRxDescr s.next (waiting + 1) =
      IndexRing.walk maxRxDescr s.next waiting ++ [s.position] := by
    rw [IndexRing.walk_succ, here]
  have stored : s.store frame multicast = { s with
      descriptors := Function.update s.descriptors s.position
        { addr := (s.descriptors s.position).addr ||| descDone
          size := BitVec.ofNat 32 frame.bytes.length |||
            if multicast then 0x40000000 else 0 }
      buffers := Function.update s.buffers (s.descriptors s.position).data frame.bytes
      position := if (s.descriptors s.position).Wraps then 0 else s.position + 1
      stored := s.stored ++ [frame.bytes] } := if_pos stores
  constructor
  · refine ⟨?_, ?_, room, ?_, ?_, ?_, ?_, ?_, ?_, ?_, ?_⟩
    · rw [stored]
      exact linked.alive
    · rw [stored]
      exact linked.index_lt
    · rw [stored]
      intro index inside
      dsimp only
      by_cases at_ : index = s.position
      · subst at_
        rw [Function.update_self, data_or_done]
        exact ⟨skb, own, data, number, fresh⟩
      · rw [Function.update_of_ne at_]
        exact linked.owned index inside
    · rw [stored]
      exact linked.older
    · rw [stored]
      exact linked.apart
    · rw [stored]
      intro index inside
      dsimp only
      by_cases at_ : index = s.position
      · subst at_
        rw [Function.update_self, wraps_or_done]
        exact linked.wraps _ inside
      · rw [Function.update_of_ne at_]
        exact linked.wraps index inside
    · intro index inside
      rw [next_store, walk, List.mem_append, List.mem_singleton, stored]
      dsimp only
      by_cases at_ : index = s.position
      · subst at_
        rw [Function.update_self]
        exact iff_of_true done_or_done (Or.inl (Or.inr rfl))
      · rw [Function.update_of_ne at_, linked.done_iff index inside, or_iff_left at_]
    · rw [stored]
      intro handed
      refine Nat.lt_of_le_of_ne room fun full => stores.2 ?_
      refine (linked.done_iff _ there).mpr (Or.inr ⟨handed, ?_⟩)
      have index_lt := linked.index_lt
      have next_eq : s.next = (s.rxBuffIndex + 1) % maxRxDescr := by
        rw [next]
        split <;> simp_all
      rw [here, next_eq, Nat.mod_add_mod, Nat.add_assoc, Nat.add_comm 1, full,
        Nat.add_mod_right, Nat.mod_eq_of_lt index_lt]
    · intro index member
      rw [next_store, walk, List.mem_append, List.mem_singleton] at member
      rcases member with old | rfl
      · rw [same index old, stored]
        dsimp only
        rw [Function.update_of_ne (apart index old)]
        exact linked.sizes index old
      · rw [last, stored]
        dsimp only
        rw [Function.update_self]
        exact size_and frame multicast
    · rw [next_store, walk, List.map_append, List.map_singleton, last,
        List.map_congr_left same, ← List.append_assoc, stored]
      dsimp only
      rw [linked.stored_eq]
  · rw [stored]
    change (if _ then 0 else s.position + 1) = (s.next + (waiting + 1)) % maxRxDescr
    rw [← Nat.add_assoc, ← Nat.mod_add_mod, ← here, IndexRing.next_eq there]
    have wraps := linked.wraps _ there
    split
    · rename_i wrapped
      rw [if_pos]
      have := wraps.mp wrapped
      omega
    · rename_i inner
      rw [if_neg]
      intro full
      exact inner (wraps.mpr (by omega))

theorem next_of_outside (outside : s.rx = .outside ∨ s.rx = .top) :
    s.next = s.rxBuffIndex := by
  rw [next]
  rcases outside with outside | top
  · rw [outside]
  · rw [top]

theorem next_of_handed (handed : s.rx = .handed ∨ s.rx = .rearmed) :
    s.next = (s.rxBuffIndex + 1) % maxRxDescr := by
  rw [next]
  rcases handed with handed | rearmed
  · rw [handed]
  · rw [rearmed]

/-- The descriptor of the next frame is the MAC's when no frame waits. -/
theorem Linked.done_index (linked : s.Linked waiting) (top : s.rx = .outside ∨ s.rx = .top) :
    (s.descriptors s.rxBuffIndex).Done ↔ 0 < waiting := by
  have outside : s.rx ≠ .handed := by
    rcases top with top | top <;> simp [top]
  rw [linked.done_iff _ linked.index_lt, next_of_outside top, IndexRing.mem_walk,
    or_iff_left fun behind => outside behind.1]
  constructor
  · rintro ⟨turn, inside, -⟩
    omega
  · intro some
    exact ⟨0, some, Nat.mod_eq_of_lt linked.index_lt⟩

/-- `MDev_EMAC_rx` hands over the frame that has waited longest. -/
theorem Linked.handOver (linked : s.Linked (waiting + 1)) (top : s.rx = .top) :
    s.handOver.Linked waiting ∧ s.handOver.position = s.position ∧
      s.handOver.next = (s.next + 1) % maxRxDescr ∧
      ∃ handed, s.handOver.handed = s.handed ++ [handed] ∧
        handed.view.len.toNat = handed.bytes.length := by
  have found := (linked.done_index (Or.inr top)).mpr (Nat.succ_pos waiting)
  have start := next_of_outside (Or.inr top)
  have index_lt := linked.index_lt
  have few := linked.few
  obtain ⟨skb, own, data, number, fresh⟩ := linked.owned _ index_lt
  have walk := @IndexRing.walk_succ_eq_cons maxRxDescr s.next waiting linked.next_lt
  have first := linked.sizes s.rxBuffIndex (by rw [walk, start]; exact List.mem_cons_self)
  have frame : s.frameAt s.rxBuffIndex = s.buffers skb.data.addr := by
    rw [frameAt, Option.mem_def.mp own]
  have handOver : s.handOver = { s with
      rx := .handed
      handed := s.handed ++
        [{ number := skb.number
           view := { ((SkbView.mk 0 0).skbPut s.pktlen).ethTypeTrans with len := s.pktlen }
           bytes := s.buffers skb.data.addr }] } := by
    rw [RxRing.handOver, if_pos found, Option.mem_def.mp own]
  have next : s.handOver.next = (s.next + 1) % maxRxDescr := by
    rw [handOver, start]
    rfl
  refine ⟨⟨?_, ?_, by omega, ?_, ?_, ?_, ?_, ?_, ?_, ?_, ?_⟩, ?_, next, ?_⟩
  · rw [handOver]
    exact linked.alive
  · rw [handOver]
    exact index_lt
  · rw [handOver]
    intro index inside
    obtain ⟨other, there, otherData, otherNumber, otherFresh⟩ := linked.owned index inside
    refine ⟨other, there, otherData, otherNumber, fun handed member same => ⟨rfl, ?_⟩⟩
    rcases List.mem_append.mp member with old | new
    · exact absurd (otherFresh handed old same).1 (by rw [top]; decide)
    · rw [List.mem_singleton.mp new] at same
      exact linked.apart index inside _ index_lt other there skb own (Or.inl same.symm)
  · rw [handOver]
    intro handed member
    rcases List.mem_append.mp member with old | new
    · exact linked.older handed old
    · rw [List.mem_singleton.mp new]
      exact number
  · rw [handOver]
    exact linked.apart
  · rw [handOver]
    exact linked.wraps
  · intro index inside
    have before := linked.done_iff index inside
    rw [walk, List.mem_cons, start] at before
    rw [next, start, handOver]
    refine before.trans ⟨fun busy => ?_, fun busy => ?_⟩
    · rcases busy with (here | later) | behind
      · exact Or.inr ⟨rfl, here⟩
      · exact Or.inl later
      · exact absurd behind.1 (by rw [top]; decide)
    · rcases busy with later | behind
      · exact Or.inl (Or.inr later)
      · exact Or.inl (Or.inl behind.2)
  · intro _
    omega
  · rw [next, handOver]
    intro index member
    refine linked.sizes index ?_
    rw [walk]
    exact List.mem_cons_of_mem _ member
  · have stored := linked.stored_eq
    rw [walk, List.map_cons] at stored
    rw [next, handOver]
    change s.stored = (s.handed ++ [_]).map HandedSkb.bytes ++ _
    rw [stored, List.map_append, List.append_assoc, start, frame]
    rfl
  · rw [handOver]
  · rw [handOver]
    refine ⟨_, rfl, ?_⟩
    rw [← frame]
    exact first

/-- The descriptor gets a new buffer, and is the MAC's. -/
theorem Linked.rearm (linked : s.Linked waiting) (behind : s.rx = .handed) {addr : DataAddr}
    (fresh : s.Fresh addr) :
    (s.rearm (some addr)).Linked waiting ∧ (s.rearm (some addr)).next = s.next := by
  have index_lt := linked.index_lt
  have start := next_of_handed (Or.inl behind)
  have next : (s.rearm (some addr)).next = s.next := start.symm
  have descriptors : (s.rearm (some addr)).descriptors =
      Function.update s.descriptors s.rxBuffIndex
        { s.descriptors s.rxBuffIndex with addr := descAddr s.rxBuffIndex addr } := rfl
  have outside : s.rxBuffIndex ∉ IndexRing.walk maxRxDescr s.next waiting := by
    rw [start]
    exact IndexRing.before_not_mem_walk index_lt (linked.behind behind)
  have others : ∀ index ∈ IndexRing.walk maxRxDescr s.next waiting,
      index ≠ s.rxBuffIndex := by
    rintro index member rfl
    exact outside member
  have frames : ∀ index ∈ IndexRing.walk maxRxDescr s.next waiting,
      (s.rearm (some addr)).frameAt index = s.frameAt index := by
    intro index member
    simp only [frameAt, RxRing.rearm, Function.update_of_ne (others index member)]
  refine ⟨⟨linked.alive, index_lt, linked.few, ?_, ?_, ?_, ?_, ?_, ?_, ?_, ?_⟩, next⟩
  · intro index inside
    by_cases here : index = s.rxBuffIndex
    · subst here
      refine ⟨⟨s.allocated, addr⟩, Function.update_self .., ?_, Nat.lt_succ_self _, ?_⟩
      · rw [descriptors, Function.update_self, data_descAddr]
      · intro handed member same
        exact absurd same (Nat.ne_of_lt (linked.older handed member))
    · obtain ⟨skb, own, data, number, unique⟩ := linked.owned index inside
      refine ⟨skb, (Function.update_of_ne here ..).trans own, ?_, Nat.lt_succ_of_lt number,
        fun handed member same => absurd (unique handed member same).2 here⟩
      rw [descriptors, Function.update_of_ne here, data]
  · intro handed member
    exact Nat.lt_succ_of_lt (linked.older handed member)
  · have new : ∀ index < maxRxDescr, index ≠ s.rxBuffIndex → ∀ skb ∈ s.rxSkb index,
        ¬ (skb.number = s.allocated ∨ skb.data.addr = addr.addr) := by
      rintro index inside away skb own (number | data)
      · obtain ⟨same, there, -, small, -⟩ := linked.owned index inside
        rw [Option.mem_unique own there, number] at *
        exact Nat.lt_irrefl _ (number ▸ small)
      · exact fresh index inside away skb own data
    intro index inside other otherInside skb own otherSkb otherOwn same
    change skb ∈ Function.update s.rxSkb _ _ index at own
    change otherSkb ∈ Function.update s.rxSkb _ _ other at otherOwn
    by_cases here : index = s.rxBuffIndex
    · by_cases there : other = s.rxBuffIndex
      · rw [here, there]
      · rw [here, Function.update_self, Option.mem_some_iff] at own
        rw [Function.update_of_ne there] at otherOwn
        subst own
        exact absurd (same.imp Eq.symm Eq.symm) (new other otherInside there _ otherOwn)
    · by_cases there : other = s.rxBuffIndex
      · rw [there, Function.update_self, Option.mem_some_iff] at otherOwn
        rw [Function.update_of_ne here] at own
        subst otherOwn
        exact absurd same (new index inside here _ own)
      · rw [Function.update_of_ne here] at own
        rw [Function.update_of_ne there] at otherOwn
        exact linked.apart index inside other otherInside skb own otherSkb otherOwn same
  · intro index inside
    rw [descriptors]
    by_cases here : index = s.rxBuffIndex
    · subst here
      rw [Function.update_self]
      exact wraps_descAddr inside addr
    · rw [Function.update_of_ne here]
      exact linked.wraps index inside
  · intro index inside
    rw [next, descriptors]
    by_cases here : index = s.rxBuffIndex
    · subst here
      rw [Function.update_self]
      refine iff_of_false (done_descAddr _ addr) (not_or.mpr ⟨outside, ?_⟩)
      exact fun impossible => RxAt.noConfusion impossible.1
    · rw [Function.update_of_ne here, linked.done_iff index inside]
      refine or_congr_right (iff_of_false (fun there => here there.2) ?_)
      exact fun there => here there.2
  · exact fun impossible => RxAt.noConfusion impossible
  · rw [next]
    intro index member
    rw [frames index member, ← linked.sizes index member, descriptors,
      Function.update_of_ne (others index member)]
  · rw [next, List.map_congr_left frames]
    exact linked.stored_eq

/-- Two descriptors say the same to the driver and to the MAC. -/
structure Alike (desc other : Desc) : Prop where
  done_iff : desc.Done ↔ other.Done
  wraps_iff : desc.Wraps ↔ other.Wraps
  data : desc.data = other.data
  size : desc.size = other.size

theorem alike_update {descriptors : Nat → Desc} {place : Nat} {desc : Desc}
    (alike : Alike desc (descriptors place)) (index : Nat) :
    Alike (Function.update descriptors place desc index) (descriptors index) := by
  by_cases here : index = place
  · rw [here, Function.update_self]
    exact alike
  · rw [Function.update_of_ne here]
    exact ⟨Iff.rfl, Iff.rfl, rfl, rfl⟩

/-- Two states have the same ring. -/
structure SameRing (s t : RxRing) : Prop where
  crashed : t.crashed = s.crashed
  rxSkb : t.rxSkb = s.rxSkb
  buffers : t.buffers = s.buffers
  allocated : t.allocated = s.allocated
  handed : t.handed = s.handed
  stored : t.stored = s.stored
  alike : ∀ index, Alike (t.descriptors index) (s.descriptors index)

/-- While no frame has just been handed over, a step that leaves the ring as it is. -/
theorem Linked.sameRing {t : RxRing} (linked : s.Linked waiting) (same : SameRing s t)
    (before : s.rx ≠ .handed) (after : t.rx ≠ .handed) (index_lt : t.rxBuffIndex < maxRxDescr)
    (walk : IndexRing.walk maxRxDescr t.next waiting = IndexRing.walk maxRxDescr s.next waiting) :
    t.Linked waiting where
  alive := same.crashed.trans linked.alive
  index_lt := index_lt
  few := linked.few
  owned := by
    intro index inside
    obtain ⟨skb, own, data, number, unique⟩ := linked.owned index inside
    rw [same.rxSkb, (same.alike index).data, same.allocated, same.handed]
    exact ⟨skb, own, data, number, fun handed member equal =>
      absurd (unique handed member equal).1 before⟩
  older := by
    rw [same.handed, same.allocated]
    exact linked.older
  apart := by
    rw [same.rxSkb]
    exact linked.apart
  wraps := fun index inside => (same.alike index).wraps_iff.trans (linked.wraps index inside)
  done_iff := by
    intro index inside
    rw [(same.alike index).done_iff, linked.done_iff index inside, walk,
      or_iff_left fun behind => before behind.1, or_iff_left fun behind => after behind.1]
  behind := fun impossible => absurd impossible after
  sizes := by
    rw [walk]
    intro index member
    rw [(same.alike index).size, linked.sizes index member, frameAt, frameAt, same.rxSkb, same.buffers]
  stored_eq := by
    have frames : t.frameAt = s.frameAt := by
      funext index
      rw [frameAt, frameAt, same.rxSkb, same.buffers]
    rw [walk, same.stored, same.handed, frames]
    exact linked.stored_eq

/-- The count ends the loop or goes on with it. -/
theorem count_eq (s : RxRing) :
    (s.count.rx = .outside ∨ s.count.rx = .top) ∧
      s.count = { s with rx := s.count.rx, xReceiveNum := s.count.xReceiveNum } := by
  rw [count]
  split
  · refine ⟨?_, rfl⟩
    dsimp only
    split
    · exact Or.inl rfl
    · exact Or.inr rfl
  · exact ⟨Or.inr rfl, rfl⟩

/-- The descriptor that has a new buffer is left to the MAC. -/
theorem Linked.release (linked : s.Linked waiting) (rearmed : s.rx = .rearmed)
    (free : ¬ (s.descriptors s.rxBuffIndex).Done) :
    s.release.Linked waiting ∧ s.release.next = s.next ∧ s.release.position = s.position := by
  have index_lt := linked.index_lt
  have step := IndexRing.next_eq index_lt
  have alike : Alike { s.descriptors s.rxBuffIndex with
      addr := (s.descriptors s.rxBuffIndex).addr &&& ~~~descDone }
      (s.descriptors s.rxBuffIndex) :=
    ⟨iff_of_false done_clear free, wraps_clear, data_clear, rfl⟩
  rw [RxRing.release]
  generalize moved : ({ s with
    descriptors := _
    rxBuffIndex := _ } : RxRing) = t
  obtain ⟨outside, same⟩ := count_eq t
  have index : t.count.rxBuffIndex = (s.rxBuffIndex + 1) % maxRxDescr := by
    rw [same, ← moved, step]
  have next : t.count.next = s.next := by
    rw [next_of_outside outside, next_of_handed (Or.inr rearmed), index]
  refine ⟨linked.sameRing ⟨?_, ?_, ?_, ?_, ?_, ?_, ?_⟩ ?_ ?_ ?_ ?_, next, ?_⟩
  · rw [same, ← moved]
  · rw [same, ← moved]
  · rw [same, ← moved]
  · rw [same, ← moved]
  · rw [same, ← moved]
  · rw [same, ← moved]
  · rw [same, ← moved]
    exact alike_update alike
  · rw [rearmed]
    exact RxAt.noConfusion
  · rcases outside with outside | top
    · rw [outside]
      exact RxAt.noConfusion
    · rw [top]
      exact RxAt.noConfusion
  · rw [index]
    exact Nat.mod_lt _ maxRxDescr_pos
  · rw [next]
  · rw [same, ← moved]

/-- Opening an empty ring, or one that starts at its first descriptor. -/
theorem Linked.start (linked : s.Linked waiting) (outside : s.rx = .outside)
    (first : waiting = 0 ∨ s.rxBuffIndex = 0) : s.start.Linked waiting := by
  have last := (linked.wraps (maxRxDescr - 1) (by decide)).mpr rfl
  have alike : Alike { s.descriptors (maxRxDescr - 1) with
      addr := (s.descriptors (maxRxDescr - 1)).addr ||| descWrap }
      (s.descriptors (maxRxDescr - 1)) :=
    ⟨done_or_wrap, iff_of_true wraps_or_wrap last, data_or_wrap, rfl⟩
  have quiet : s.rx ≠ .handed := by
    rw [outside]
    exact RxAt.noConfusion
  refine linked.sameRing ⟨rfl, rfl, rfl, rfl, rfl, rfl, alike_update alike⟩ quiet quiet
    maxRxDescr_pos ?_
  rcases first with empty | first
  · rw [empty]
    rfl
  · have here : s.start.next = 0 := next_of_outside (Or.inl outside)
    rw [here, next_of_outside (Or.inl outside), first]

/-- A step between two calls of `MDev_EMAC_rx`, or to the first test of its loop. -/
theorem Linked.idle {t : RxRing} (linked : s.Linked waiting)
    (before : s.rx = .outside ∨ s.rx = .top) (after : t.rx = .outside ∨ t.rx = .top)
    (same : SameRing s t) (index : t.rxBuffIndex = s.rxBuffIndex) : t.Linked waiting := by
  refine linked.sameRing same ?_ ?_ (index ▸ linked.index_lt) ?_
  · rcases before with outside | top <;> simp [*]
  · rcases after with outside | top <;> simp [*]
  · rw [next_of_outside before, next_of_outside after, index]

/-- The state after the hardware initialisation. -/
theorem linked_init {alloc : RxAlloc} {buffers : U32 → List U8}
    (alive : (RxRing.init alloc buffers).crashed = false) :
    (RxRing.init alloc buffers).Linked 0 := by
  have all : ∀ index < maxRxDescr, ∃ addr, alloc.data index = some addr := by
    intro index inside
    have got := List.any_eq_false.mp alive index (List.mem_range.mpr inside)
    exact Option.ne_none_iff_exists'.mp fun none => got (by rw [none]; rfl)
  have descs : ∀ index addr, alloc.data index = some addr →
      (RxRing.init alloc buffers).descriptors index = ⟨descAddr index addr, 0⟩ := by
    intro index addr got
    simp only [RxRing.init, got]
  refine ⟨alive, maxRxDescr_pos, Nat.zero_le _, ?_, ?_, ?_, ?_, ?_, ?_, ?_, rfl⟩
  · intro index inside
    obtain ⟨addr, got⟩ := all index inside
    refine ⟨⟨index, addr⟩, ?_, ?_, inside, fun handed none => absurd none List.not_mem_nil⟩
    · simp only [RxRing.init, got, Option.map_some, Option.mem_def]
    · rw [descs index addr got, data_descAddr]
  · exact fun handed none => absurd none List.not_mem_nil
  · intro index inside other otherInside skb own otherSkb otherOwn same
    obtain ⟨addr, got, rfl⟩ := Option.map_eq_some_iff.mp own
    obtain ⟨otherAddr, otherGot, rfl⟩ := Option.map_eq_some_iff.mp otherOwn
    rcases same with number | data
    · exact number
    · exact alloc.apart index inside other otherInside addr got otherAddr otherGot data
  · intro index inside
    obtain ⟨addr, got⟩ := all index inside
    rw [descs index addr got]
    exact wraps_descAddr inside addr
  · intro index inside
    obtain ⟨addr, got⟩ := all index inside
    rw [descs index addr got]
    refine iff_of_false (done_descAddr index addr) (not_or.mpr ⟨List.not_mem_nil, ?_⟩)
    exact fun impossible => RxAt.noConfusion impossible.1
  · exact fun impossible => RxAt.noConfusion impossible
  · exact fun index none => absurd none List.not_mem_nil

/-! ### Runs -/

/-- The MAC stores behind the frames that wait. -/
def Following (s : RxRing) : Prop :=
  ∃ waiting, s.Linked waiting ∧ s.position = (s.next + waiting) % maxRxDescr

theorem Following.store (following : s.Following) (frame : RxFrame) (multicast : Bool) :
    (s.store frame multicast).Following := by
  obtain ⟨waiting, linked, position⟩ := following
  by_cases stores : s.receiving = true ∧ ¬ (s.descriptors s.position).Done
  · obtain ⟨more, behind⟩ := linked.store frame multicast stores position
    exact ⟨waiting + 1, more, by rw [next_store, behind]⟩
  · rw [RxRing.store, if_neg stores]
    exact ⟨waiting, linked, position⟩

theorem Following.rxStep (following : s.Following) {alloc : Option DataAddr}
    (meets : s.InStep (.rx alloc)) : (s.rxStep alloc).Following := by
  obtain ⟨waiting, linked, position⟩ := following
  rw [RxRing.rxStep]
  unfold InStep at meets
  cases here : s.rx with
  | outside => exact ⟨waiting, linked, position⟩
  | top =>
      have done_index := linked.done_index (Or.inr here)
      cases waiting with
      | zero =>
          have none : ¬ (s.descriptors s.rxBuffIndex).Done := fun done =>
            Nat.lt_irrefl _ (done_index.mp done)
          have ends : s.handOver = { s with rx := .outside, xReceiveNum := 0, flagRBNA := false } :=
            if_neg none
          refine ⟨0, linked.idle (Or.inr here) (Or.inl (by rw [ends])) ?_ (by rw [ends]), ?_⟩
          · rw [ends]
            exact ⟨rfl, rfl, rfl, rfl, rfl, rfl, fun _ => ⟨Iff.rfl, Iff.rfl, rfl, rfl⟩⟩
          · rw [next_of_outside (Or.inr here)] at position
            rw [next_of_outside (Or.inl (by rw [ends])), ends]
            exact position
      | succ waiting =>
          obtain ⟨fewer, same, next, -⟩ := linked.handOver here
          refine ⟨waiting, fewer, ?_⟩
          rw [same, position, next, Nat.mod_add_mod]
          congr 1
          omega
  | handed =>
      simp only [here] at meets
      obtain ⟨addr, got, fresh⟩ := meets
      obtain ⟨kept, next⟩ := linked.rearm here fresh
      rw [Option.mem_def.mp got]
      refine ⟨waiting, kept, ?_⟩
      rw [next]
      exact position
  | rearmed =>
      simp only [here] at meets
      obtain ⟨kept, next, same⟩ := linked.release here meets
      refine ⟨waiting, kept, ?_⟩
      rw [next, same]
      exact position

/-- A step keeps the MAC and the driver in step. -/
theorem Following.after (following : s.Following) (event : RxEvent) (meets : s.InStep event) :
    (s.after event).Following := by
  obtain ⟨waiting, linked, position⟩ := following
  rw [RxRing.after, if_neg (by rw [linked.alive]; decide)]
  cases event with
  | store frame multicast => exact Following.store ⟨waiting, linked, position⟩ frame multicast
  | call xReceiveNum flagRBNA =>
      rw [RxRing.step]
      split
      · rename_i outside
        refine ⟨waiting, linked.idle (Or.inl outside) (Or.inr rfl)
          ⟨rfl, rfl, rfl, rfl, rfl, rfl, fun _ => ⟨Iff.rfl, Iff.rfl, rfl, rfl⟩⟩ rfl, ?_⟩
        rw [next_of_outside (Or.inl outside)] at position
        exact position
      · exact ⟨waiting, linked, position⟩
  | rx alloc => exact Following.rxStep ⟨waiting, linked, position⟩ meets
  | openDev =>
      rw [RxRing.step]
      split
      · rename_i outside
        have empty : waiting = 0 := Nat.eq_zero_of_not_pos fun some =>
          meets outside _ linked.index_lt ((linked.done_index (Or.inl outside)).mpr some)
        refine ⟨waiting, linked.start outside (Or.inl empty), ?_⟩
        have here : s.start.next = 0 := next_of_outside (Or.inl outside)
        rw [here, empty]
        rfl
      · exact ⟨waiting, linked, position⟩
  | closeDev =>
      rw [RxRing.step]
      split
      · rename_i outside
        refine ⟨waiting, linked.idle (Or.inl outside) (Or.inl outside)
          ⟨rfl, rfl, rfl, rfl, rfl, rfl, fun _ => ⟨Iff.rfl, Iff.rfl, rfl, rfl⟩⟩ rfl, ?_⟩
        exact position
      · exact ⟨waiting, linked, position⟩

/-- No frame has been handed over yet.  The MAC may have been set back to the first
descriptor, which then is not its own. -/
def Unread (s : RxRing) : Prop :=
  ∃ waiting, s.Linked waiting ∧ s.rxBuffIndex = 0 ∧ s.handed = [] ∧
    (s.rx = .outside ∨ s.rx = .top) ∧
    (s.position = waiting % maxRxDescr ∨ s.position = 0 ∧ 0 < waiting)

theorem Unread.store (unread : s.Unread) (frame : RxFrame) (multicast : Bool) :
    (s.store frame multicast).Unread := by
  obtain ⟨waiting, linked, index, handed, quiet, position⟩ := unread
  obtain ⟨rxSame, handedSame, indexSame⟩ := driver_store s frame multicast
  by_cases stores : s.receiving = true ∧ ¬ (s.descriptors s.position).Done
  · have next := next_of_outside quiet
    have here : s.position = (s.next + waiting) % maxRxDescr := by
      rw [next, index, Nat.zero_add]
      refine position.resolve_right fun back => stores.2 ?_
      rw [back.1, ← index]
      exact (linked.done_index quiet).mpr back.2
    obtain ⟨more, behind⟩ := linked.store frame multicast stores here
    refine ⟨waiting + 1, more, indexSame.trans index, handedSame.trans handed, ?_, Or.inl ?_⟩
    · rw [rxSame]
      exact quiet
    · rw [behind, next, index, Nat.zero_add]
  · rw [RxRing.store, if_neg stores]
    exact ⟨waiting, linked, index, handed, quiet, position⟩

theorem Unread.receiveLaw (unread : s.Unread) : s.ReceiveLaw := by
  obtain ⟨waiting, linked, -, handed, -⟩ := unread
  refine ⟨linked.ringLaw, ?_⟩
  rw [handed]
  exact fun _ none => absurd none List.not_mem_nil

/-- The first frame that is handed over breaks the law, and nothing else does before. -/
theorem Unread.spec (unread : s.Unread) (event : RxEvent) :
    ((s.after event).ReceiveLaw ↔ s.FindsNone event) ∧
      (s.FindsNone event → (s.after event).Unread) := by
  suffices held : s.FindsNone event → (s.after event).Unread by
    refine ⟨⟨fun law => ?_, fun meets => (held meets).receiveLaw⟩, held⟩
    obtain ⟨waiting, linked, index, handed, quiet, position⟩ := unread
    cases event with
    | rx alloc =>
        intro top done
        have some := (linked.done_index (Or.inr top)).mp done
        obtain ⟨fewer, rfl⟩ := Nat.exists_eq_succ_of_ne_zero (Nat.ne_of_gt some)
        obtain ⟨-, -, -, first, appended, len⟩ := linked.handOver top
        have after : s.after (.rx alloc) = s.handOver := by
          rw [RxRing.after, if_neg (by rw [linked.alive]; decide)]
          simp only [RxRing.step, RxRing.rxStep, top]
        have exact_ := (law.exact_ first (by
          rw [after, appended]
          exact List.mem_append_right _ (List.mem_singleton_self first))).2
        rw [len] at exact_
        simp [ethHlen] at exact_
    | store frame multicast => trivial
    | call xReceiveNum flagRBNA => trivial
    | openDev => trivial
    | closeDev => trivial
  intro meets
  have whole := unread
  obtain ⟨waiting, linked, index, handed, quiet, position⟩ := unread
  rw [RxRing.after, if_neg (by rw [linked.alive]; decide)]
  cases event with
  | store frame multicast => exact whole.store frame multicast
  | call xReceiveNum flagRBNA =>
      rw [RxRing.step]
      split
      · exact ⟨waiting, linked.idle quiet (Or.inr rfl)
          ⟨rfl, rfl, rfl, rfl, rfl, rfl, fun _ => ⟨Iff.rfl, Iff.rfl, rfl, rfl⟩⟩ rfl,
          index, handed, Or.inr rfl, position⟩
      · exact whole
  | rx alloc =>
      simp only [RxRing.step, RxRing.rxStep]
      rcases quiet with outside | top
      · simp only [outside]
        exact whole
      · have ends : s.handOver = { s with rx := .outside, xReceiveNum := 0, flagRBNA := false } :=
          if_neg (meets top)
        simp only [top, ends]
        exact ⟨waiting, linked.idle (Or.inr top) (Or.inl rfl)
          ⟨rfl, rfl, rfl, rfl, rfl, rfl, fun _ => ⟨Iff.rfl, Iff.rfl, rfl, rfl⟩⟩ rfl,
          index, handed, Or.inl rfl, position⟩
  | openDev =>
      rw [RxRing.step]
      split
      · rename_i outside
        refine ⟨waiting, linked.start outside (Or.inr index), rfl, handed, Or.inl outside, ?_⟩
        rcases Nat.eq_zero_or_pos waiting with empty | some
        · exact Or.inl (by rw [empty]; rfl)
        · exact Or.inr ⟨rfl, some⟩
      · exact whole
  | closeDev =>
      rw [RxRing.step]
      split
      · rename_i outside
        exact ⟨waiting, linked.idle quiet (Or.inl outside)
          ⟨rfl, rfl, rfl, rfl, rfl, rfl, fun _ => ⟨Iff.rfl, Iff.rfl, rfl, rfl⟩⟩ rfl,
          index, handed, Or.inl outside, position⟩
      · exact whole

end RxRing

/-- A law holds at the start of a run and after each of its steps. -/
def AllAlong (law : RxRing → Prop) (s : RxRing) (events : List RxEvent) : Prop :=
  law s ∧ Run.Meets RxRing.after (fun s event => law (s.after event)) s events

theorem toNat_shiftLeft_desc {index : Nat} (inside : index < maxRxDescr) :
    (BitVec.ofNat 32 index <<< 11).toNat = index * 2048 := by
  rw [maxRxDescr] at inside
  rw [BitVec.toNat_shiftLeft, BitVec.toNat_ofNat, Nat.mod_eq_of_lt (by omega),
    Nat.shiftLeft_eq, Nat.mod_eq_of_lt (by omega)]

/-- Buffers of 2048 bytes one behind the other. -/
def adjacentBuffers : RxAlloc where
  data := fun index =>
    some ⟨BitVec.ofNat 32 index <<< 11, by
      apply BitVec.eq_of_toNat_eq
      rw [BitVec.toNat_and, BitVec.toNat_shiftLeft, Nat.shiftLeft_eq]
      change _ &&& (2 ^ 2 - 1) = 0
      rw [Nat.and_two_pow_sub_one_eq_mod]
      omega⟩
  apart := by
    intro index inside other otherInside addr here otherAddr there same
    rw [← Option.some.inj here, ← Option.some.inj there] at same
    have equal := congrArg BitVec.toNat same
    rw [toNat_shiftLeft_desc inside, toNat_shiftLeft_desc otherInside] at equal
    omega

end Gp2Firmware.Emac
