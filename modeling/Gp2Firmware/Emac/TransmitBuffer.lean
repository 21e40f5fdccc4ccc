import Gp2Firmware.Emac.TransmitQueue

/-!
# The transmit buffer of the EMAC driver

The driver copies every frame to one fixed buffer and keeps one pointer to the skb that
it has to free.  Beside the transmit queue stand here the skbs: the bytes at `txpkt`, the
pointer, and what has been passed to `dev_kfree_skb_irq`.
-/

namespace Gp2Firmware.Emac

abbrev U8 := BitVec 8

/-- An skb, numbered by the call of `MDev_EMAC_tx` that offers it. -/
structure Skb where
  number : Nat
  data : List U8

/-- `memory` are the bytes at `txpkt`, `freed` the arguments of `dev_kfree_skb_irq`, and
`given` the skbs whose frames the MAC was given and has not reported complete, oldest
first. -/
structure Skbs where
  skb : Option Skb
  memory : Nat → U8
  freed : List (Option Nat)
  calls : Nat
  accepted : List Nat
  refused : List Nat
  given : List Skb

structure TxDev where
  emac : EmacDev
  skbs : Skbs

/-- `memcpy` to `txpkt` -/
def copyIn (memory : Nat → U8) (data : List U8) : Nat → U8 :=
  fun i => data.getD i (memory i)

/-- The bytes at `txpkt` are those of a frame. -/
def Holds (memory : Nat → U8) (data : List U8) : Prop :=
  ∀ i, ∀ inside : i < data.length, memory i = data[i]

/-- `MDev_EMAC_tx` stores the skb and gives its frame to the MAC. -/
def Skbs.accept (k : Skbs) (data : List U8) : Skbs :=
  { k with
    skb := some ⟨k.calls, data⟩
    memory := copyIn k.memory data
    calls := k.calls + 1
    accepted := k.accepted ++ [k.calls]
    given := k.given ++ [⟨k.calls, data⟩] }

/-- `MDev_EMAC_tx` finds the MAC busy, after it has copied the frame. -/
def Skbs.refuse (k : Skbs) (data : List U8) : Skbs :=
  { k with
    memory := copyIn k.memory data
    calls := k.calls + 1
    refused := k.refused ++ [k.calls] }

/-- `MDev_EMAC_tx` of the skb with these bytes. -/
def TxDev.tx (s : TxDev) (txBase tsr : U32) (data : List U8) : Nat × TxDev :=
  let sent := emacTx s.emac txBase (BitVec.ofNat 32 data.length) tsr
  (sent.1,
    ⟨sent.2, if tsr &&& 0x10 ≠ 0 then s.skbs.accept data else s.skbs.refuse data⟩)

/-- The skbs over one turn of the interrupt handler, in which the MAC reports frames
complete: after a retry it has the stored one again, else `TCOM` frees the skb. -/
def Skbs.complete (k : Skbs) (intstatus : U32) (completes : Nat) (retried : Bool) : Skbs :=
  if intstatus &&& intTcom = 0 then k
  else if retried then { k with given := k.given.drop completes ++ k.skb.toList }
  else
    { k with
      freed := k.freed ++ [k.skb.map Skb.number]
      given := k.given.drop completes }

/-- `interruptTurn` with the skbs. -/
def TxDev.turn (s : TxDev) (intstatus : U32) (xReceiveFlag : Bool) (ready completes : Nat) :
    Bool × TxDev :=
  let turn := interruptTurn s.emac intstatus xReceiveFlag ready
  (turn.1, ⟨turn.2, s.skbs.complete intstatus completes turn.1⟩)

/-- `interruptLoop` with the skbs. -/
def TxDev.loop (s : TxDev) : List Reading → TxDev
  | [] => s
  | reading :: rest =>
      let intstatus := reading.isr &&& ~~~s.emac.imr
      if intstatus = 0 then s
      else
        match TxDev.turn ⟨reported s.emac intstatus reading.completes, s.skbs⟩
          intstatus false reading.ready reading.completes with
        | (true, next) => next
        | (false, next) => next.loop rest

/-- `MDev_EMAC_interrupt` with the skbs. -/
def TxDev.interrupt (s : TxDev) (offset : U32) (ready : Nat) (readings : List Reading) :
    TxDev :=
  let start := interruptStart s.emac offset
  let xReceiveFlag := decide (offset &&& 0x8000 ≠ 0)
  if xReceiveFlag ∨ start.xReceiveNum ≠ 0 then
    (TxDev.turn ⟨start, s.skbs⟩ 0 xReceiveFlag ready 0).2.loop readings
  else TxDev.loop ⟨start, s.skbs⟩ readings

/-- The skbs do not show in the queue. -/
theorem TxDev.emac_loop (s : TxDev) (readings : List Reading) :
    (s.loop readings).emac = interruptLoop s.emac readings := by
  induction readings generalizing s with
  | nil => rfl
  | cons reading rest inductionHypothesis =>
      simp only [TxDev.loop, interruptLoop, TxDev.turn]
      split
      · rfl
      · generalize interruptTurn (reported s.emac (reading.isr &&& ~~~s.emac.imr)
          reading.completes) (reading.isr &&& ~~~s.emac.imr) false reading.ready = turn
        obtain ⟨retried, emac⟩ := turn
        cases retried with
        | true => rfl
        | false => exact inductionHypothesis _

theorem TxDev.emac_interrupt (s : TxDev) (offset : U32) (ready : Nat)
    (readings : List Reading) :
    (s.interrupt offset ready readings).emac =
      emacInterrupt s.emac offset ready readings := by
  simp only [TxDev.interrupt, emacInterrupt]
  split
  · exact TxDev.emac_loop _ _
  · exact TxDev.emac_loop _ _

/-! ### Calls -/

inductive TxCall where
  | openDev (validAddr : Bool)
  | closeDev
  | tx (txBase tsr : U32) (data : List U8)
  | interrupt (offset : U32) (ready : Nat) (readings : List Reading)

def TxDev.after (s : TxDev) : TxCall → TxDev
  | .openDev validAddr => { s with emac := emacOpen s.emac validAddr }
  | .closeDev => { s with emac := emacClose s.emac }
  | .tx txBase tsr data => (s.tx txBase tsr data).2
  | .interrupt offset ready readings => s.interrupt offset ready readings

/-- After `MDev_EMAC_HW_init`, with `LocPtr->skb` null. -/
def TxDev.init (emac : EmacDev) (memory : Nat → U8) : TxDev where
  emac := { hwInit emac with isOpen := false }
  skbs := ⟨none, memory, [], 0, [], [], []⟩

/-- The call closes the device or accepts an skb. -/
def TxCall.Ends : TxCall → Prop
  | .openDev _ => False
  | .closeDev => True
  | .tx _ tsr _ => tsr &&& 0x10 ≠ 0
  | .interrupt _ _ _ => False

/-- No skb is freed twice, none that was refused is freed, and the frames that the MAC has
are in the buffer. -/
structure Kept (k : Skbs) : Prop where
  freedOnce : ∀ number, k.freed.count (some number) ≤ 1
  refused : ∀ number ∈ k.refused, some number ∉ k.freed
  intact : ∀ skb ∈ k.given, Holds k.memory skb.data

/-- The law of one call: an skb that was accepted before is freed when the call closes
the device or accepts another one. -/
structure Owned (s : TxDev) (call : TxCall) : Prop extends Kept (s.after call).skbs where
  ended : call.Ends → ∀ number ∈ s.skbs.accepted, some number ∈ (s.after call).skbs.freed

/-! ### The condition -/

/-- The stored skb has been freed. -/
def Skbs.Freed (k : Skbs) : Prop := ∀ skb ∈ k.skb, some skb.number ∈ k.freed

/-- A turn of the handler that frees the skb finds it not freed, and one that gives its
frame to the MAC again finds it in the buffer. -/
def Skbs.TurnMeets (k : Skbs) (intstatus : U32) (retried : Bool) : Prop :=
  intstatus &&& intTcom ≠ 0 →
    if retried then ∀ skb ∈ k.skb, Holds k.memory skb.data
    else ∀ skb ∈ k.skb, some skb.number ∉ k.freed

/-- All turns of the loop of the handler do so. -/
def TxDev.LoopMeets (s : TxDev) : List Reading → Prop
  | [] => True
  | reading :: rest =>
      let intstatus := reading.isr &&& ~~~s.emac.imr
      intstatus = 0 ∨
        let turn := TxDev.turn ⟨reported s.emac intstatus reading.completes, s.skbs⟩
          intstatus false reading.ready reading.completes
        s.skbs.TurnMeets intstatus turn.1 ∧ (turn.1 = true ∨ turn.2.LoopMeets rest)

/-- All turns of the handler do so. -/
def TxDev.InterruptMeets (s : TxDev) (offset : U32) (ready : Nat)
    (readings : List Reading) : Prop :=
  let start := interruptStart s.emac offset
  let xReceiveFlag := decide (offset &&& 0x8000 ≠ 0)
  if xReceiveFlag ∨ start.xReceiveNum ≠ 0 then
    (TxDev.turn ⟨start, s.skbs⟩ 0 xReceiveFlag ready 0).2.LoopMeets readings
  else TxDev.LoopMeets ⟨start, s.skbs⟩ readings

/-- An skb is accepted, and the device closed, only when the stored one has been freed;
the copy of an skb leaves the frames that the MAC has in the buffer. -/
def OneAtATime (s : TxDev) : TxCall → Prop
  | .openDev _ => True
  | .closeDev => s.skbs.Freed
  | .tx _ tsr data =>
      (tsr &&& 0x10 ≠ 0 → s.skbs.Freed) ∧
        ∀ skb ∈ s.skbs.given, Holds (copyIn s.skbs.memory data) skb.data
  | .interrupt offset ready readings => s.InterruptMeets offset ready readings

/-! ### The invariant of the runs -/

/-- What the driver has in its books: the skbs that were accepted are freed, up to the
stored one. -/
structure Books (k : Skbs) : Prop extends Kept k where
  accepted_lt : ∀ number ∈ k.accepted, number < k.calls
  refused_lt : ∀ number ∈ k.refused, number < k.calls
  apart : ∀ number ∈ k.accepted, number ∉ k.refused
  freed_mem : ∀ number, some number ∈ k.freed → number ∈ k.accepted
  stored : ∀ skb ∈ k.skb, skb.number ∈ k.accepted
  settled : ∀ number ∈ k.accepted, some number ∈ k.freed ∨ ∃ skb ∈ k.skb, skb.number = number

theorem holds_copyIn (memory : Nat → U8) (data : List U8) :
    Holds (copyIn memory data) data := by
  intro i inside
  rw [copyIn, List.getD_eq_getElem?_getD, List.getElem?_eq_getElem inside, Option.getD_some]

theorem books_init (emac : EmacDev) (memory : Nat → U8) :
    Books (TxDev.init emac memory).skbs where
  freedOnce := fun _ => Nat.zero_le 1
  refused := fun _ member => absurd member List.not_mem_nil
  intact := fun _ member => absurd member List.not_mem_nil
  accepted_lt := fun _ member => absurd member List.not_mem_nil
  refused_lt := fun _ member => absurd member List.not_mem_nil
  apart := fun _ member => absurd member List.not_mem_nil
  freed_mem := fun _ member => absurd member List.not_mem_nil
  stored := fun _ none => absurd none (Option.not_mem_none _)
  settled := fun _ member => absurd member List.not_mem_nil

namespace Books

variable {k : Skbs} {intstatus : U32} {completes : Nat} {retried : Bool}

theorem freed_of_accepted (books : Books k) (freed : k.Freed) {number : Nat}
    (member : number ∈ k.accepted) : some number ∈ k.freed := by
  rcases books.settled number member with done | ⟨skb, stored, same⟩
  · exact done
  · rw [← same]
    exact freed skb stored

/-- Accepting an skb keeps the books if the stored one has been freed and the frames that
the MAC has stay in the buffer. -/
theorem accept (books : Books k) (freed : k.Freed) {data : List U8}
    (intact : ∀ skb ∈ k.given, Holds (copyIn k.memory data) skb.data) :
    Books (k.accept data) := by
  have fresh : some k.calls ∉ k.freed := by
    intro member
    have before := books.accepted_lt _ (books.freed_mem _ member)
    omega
  refine ⟨⟨books.freedOnce, books.refused, ?_⟩, ?_, ?_, ?_, ?_, ?_, ?_⟩
  · intro skb given
    rcases List.mem_append.mp given with old | new
    · exact intact skb old
    · rw [List.mem_singleton.mp new]
      exact holds_copyIn k.memory data
  · intro number member
    rcases List.mem_append.mp member with old | new
    · exact Nat.lt_succ_of_lt (books.accepted_lt number old)
    · rw [List.mem_singleton.mp new]
      exact Nat.lt_succ_self k.calls
  · intro number member
    exact Nat.lt_succ_of_lt (books.refused_lt number member)
  · intro number member refused
    rcases List.mem_append.mp member with old | new
    · exact books.apart number old refused
    · have before := books.refused_lt number refused
      rw [List.mem_singleton.mp new] at before
      exact lt_irrefl _ before
  · intro number member
    exact List.mem_append_left _ (books.freed_mem number member)
  · intro skb stored
    cases stored
    exact List.mem_append_right _ (List.mem_singleton_self k.calls)
  · intro number member
    rcases List.mem_append.mp member with old | new
    · exact Or.inl (books.freed_of_accepted freed old)
    · exact Or.inr ⟨⟨k.calls, data⟩, rfl, (List.mem_singleton.mp new).symm⟩

/-- Refusing one keeps them if those frames stay there. -/
theorem refuse (books : Books k) {data : List U8}
    (intact : ∀ skb ∈ k.given, Holds (copyIn k.memory data) skb.data) :
    Books (k.refuse data) := by
  refine ⟨⟨books.freedOnce, ?_, intact⟩, ?_, ?_, ?_, books.freed_mem, books.stored,
    books.settled⟩
  · intro number member freed
    rcases List.mem_append.mp member with old | new
    · exact books.refused number old freed
    · have before := books.accepted_lt _ (books.freed_mem number freed)
      rw [List.mem_singleton.mp new] at before
      exact lt_irrefl _ before
  · intro number member
    exact Nat.lt_succ_of_lt (books.accepted_lt number member)
  · intro number member
    rcases List.mem_append.mp member with old | new
    · exact Nat.lt_succ_of_lt (books.refused_lt number old)
    · rw [List.mem_singleton.mp new]
      exact Nat.lt_succ_self k.calls
  · intro number member refused
    rcases List.mem_append.mp refused with old | new
    · exact books.apart number member old
    · have before := books.accepted_lt number member
      rw [List.mem_singleton.mp new] at before
      exact lt_irrefl _ before

/-- A turn of the handler keeps them if it meets its condition. -/
theorem complete (books : Books k) (meets : k.TurnMeets intstatus retried) :
    Books (k.complete intstatus completes retried) := by
  unfold Skbs.complete
  by_cases tcom : intstatus &&& intTcom = 0
  · rw [if_pos tcom]
    exact books
  · rw [if_neg tcom]
    have met := meets tcom
    cases retried with
    | true =>
        refine ⟨⟨books.freedOnce, books.refused, fun skb given => ?_⟩, books.accepted_lt,
          books.refused_lt, books.apart, books.freed_mem, books.stored, books.settled⟩
        rcases List.mem_append.mp given with old | again
        · exact books.intact skb (List.mem_of_mem_drop old)
        · exact met skb (Option.mem_toList.mp again)
    | false =>
        rw [if_neg Bool.false_ne_true] at met ⊢
        have freed_mem : ∀ number, some number ∈ k.freed ++ [k.skb.map Skb.number] →
            number ∈ k.accepted := by
          intro number member
          rcases List.mem_append.mp member with old | new
          · exact books.freed_mem number old
          · obtain ⟨skb, stored, same⟩ :=
              Option.map_eq_some_iff.mp (List.mem_singleton.mp new).symm
            rw [← same]
            exact books.stored skb stored
        refine ⟨⟨fun number => ?_, fun number member freed => ?_, fun skb given => ?_⟩,
          books.accepted_lt, books.refused_lt, books.apart, freed_mem, books.stored,
          fun number member => ?_⟩
        · change List.count (some number) (k.freed ++ [k.skb.map Skb.number]) ≤ 1
          rw [List.count_append, List.count_singleton]
          split_ifs with same
          · obtain ⟨skb, stored, equal⟩ := Option.map_eq_some_iff.mp (eq_of_beq same)
            have none := List.count_eq_zero.mpr (met skb stored)
            rw [equal] at none
            omega
          · exact books.freedOnce number
        · exact books.apart number (freed_mem number freed) member
        · exact books.intact skb (List.mem_of_mem_drop given)
        · rcases books.settled number member with done | stored
          · exact Or.inl (List.mem_append_left _ done)
          · exact Or.inr stored

end Books

/-! ### What the handler does to the books -/

section Handler

variable {k : Skbs} {intstatus : U32} {completes : Nat} {s : TxDev}

/-- A turn that frees an skb for the first time meets its condition. -/
theorem turnMeets_of_freedOnce
    (once : ∀ number, (k.complete intstatus completes false).freed.count (some number) ≤ 1) :
    k.TurnMeets intstatus false := by
  intro tcom skb stored member
  have twice := once skb.number
  rw [Skbs.complete, if_neg tcom, if_neg Bool.false_ne_true] at twice
  change List.count (some skb.number) (k.freed ++ [k.skb.map Skb.number]) ≤ 1 at twice
  rw [stored, Option.map_some, List.count_append, List.count_singleton_self] at twice
  have before := List.count_pos_iff.mpr member
  omega

theorem kept_complete_iff (books : Books k) (retried : Bool) :
    Kept (k.complete intstatus completes retried) ↔ k.TurnMeets intstatus retried := by
  constructor
  · intro kept
    cases retried with
    | true =>
        intro tcom
        have intact := kept.intact
        rw [Skbs.complete, if_neg tcom, if_pos rfl] at intact
        rw [if_pos rfl]
        intro skb stored
        exact intact skb (List.mem_append_right _ (Option.mem_toList.mpr stored))
    | false => exact turnMeets_of_freedOnce kept.freedOnce
  · intro meets
    exact (books.complete meets).toKept

theorem freed_complete (k : Skbs) (intstatus : U32) (completes : Nat) (retried : Bool) :
    List.Sublist k.freed (k.complete intstatus completes retried).freed := by
  unfold Skbs.complete
  split_ifs
  · exact List.Sublist.refl _
  · exact List.Sublist.refl _
  · exact List.sublist_append_left _ _

/-- What has been freed stays so. -/
theorem freed_loop (s : TxDev) (readings : List Reading) :
    List.Sublist s.skbs.freed (s.loop readings).skbs.freed := by
  induction readings generalizing s with
  | nil => exact List.Sublist.refl _
  | cons reading rest inductionHypothesis =>
      simp only [TxDev.loop, TxDev.turn]
      split
      · exact List.Sublist.refl _
      · generalize interruptTurn (reported s.emac (reading.isr &&& ~~~s.emac.imr)
          reading.completes) (reading.isr &&& ~~~s.emac.imr) false reading.ready = turn
        obtain ⟨retried, emac⟩ := turn
        cases retried with
        | true => exact freed_complete _ _ _ _
        | false =>
            dsimp only
            exact (freed_complete _ _ _ _).trans (inductionHypothesis ⟨emac, _⟩)

/-- The loop of the handler keeps the law if, and only if, its turns meet their
condition. -/
theorem loop_spec (s : TxDev) (books : Books s.skbs) (readings : List Reading) :
    (Kept (s.loop readings).skbs ↔ s.LoopMeets readings) ∧
      (s.LoopMeets readings → Books (s.loop readings).skbs) := by
  induction readings generalizing s with
  | nil => exact ⟨iff_of_true books.toKept trivial, fun _ => books⟩
  | cons reading rest inductionHypothesis =>
      simp only [TxDev.loop, TxDev.LoopMeets]
      by_cases quiet : reading.isr &&& ~~~s.emac.imr = 0
      · rw [if_pos quiet]
        exact ⟨iff_of_true books.toKept (Or.inl quiet), fun _ => books⟩
      · rw [if_neg quiet, or_iff_right quiet]
        have here := fun retried =>
          @kept_complete_iff s.skbs (reading.isr &&& ~~~s.emac.imr) reading.completes books
            retried
        simp only [TxDev.turn]
        generalize interruptTurn (reported s.emac (reading.isr &&& ~~~s.emac.imr)
          reading.completes) (reading.isr &&& ~~~s.emac.imr) false reading.ready = turn
        obtain ⟨retried, emac⟩ := turn
        cases retried with
        | true =>
            refine ⟨(here true).trans (and_iff_left (Or.inl rfl)).symm, fun meets => ?_⟩
            exact books.complete meets.1
        | false =>
            dsimp only
            rw [or_iff_right Bool.false_ne_true]
            constructor
            · constructor
              · intro kept
                have meets : s.skbs.TurnMeets (reading.isr &&& ~~~s.emac.imr) false :=
                  turnMeets_of_freedOnce fun number =>
                    le_trans (List.Sublist.count_le _ (freed_loop ⟨emac, _⟩ rest))
                      (kept.freedOnce number)
                exact ⟨meets, (inductionHypothesis ⟨emac, _⟩ (books.complete meets)).1.mp kept⟩
              · intro meets
                exact (inductionHypothesis ⟨emac, _⟩ (books.complete meets.1)).1.mpr meets.2
            · intro meets
              exact (inductionHypothesis ⟨emac, _⟩ (books.complete meets.1)).2 meets.2

/-- Without a status there is nothing to complete. -/
theorem skbs_turn_zero (s : TxDev) (xReceiveFlag : Bool) (ready completes : Nat) :
    (s.turn 0 xReceiveFlag ready completes).2.skbs = s.skbs := by
  have none : (0 : U32) &&& intTcom = 0 := by decide
  rw [TxDev.turn, Skbs.complete, if_pos none]

theorem interrupt_spec (books : Books s.skbs) (offset : U32) (ready : Nat)
    (readings : List Reading) :
    (Kept (s.interrupt offset ready readings).skbs ↔
        s.InterruptMeets offset ready readings) ∧
      (s.InterruptMeets offset ready readings →
        Books (s.interrupt offset ready readings).skbs) := by
  simp only [TxDev.interrupt, TxDev.InterruptMeets]
  split
  · have first : Books (TxDev.turn ⟨interruptStart s.emac offset, s.skbs⟩ 0
        (decide (offset &&& 0x8000 ≠ 0)) ready 0).2.skbs := by
      rw [skbs_turn_zero]
      exact books
    exact loop_spec _ first readings
  · exact loop_spec ⟨interruptStart s.emac offset, s.skbs⟩ books readings

end Handler

/-! ### Runs -/

/-- A call keeps the law if, and only if, it meets its condition. -/
theorem owned_iff {s : TxDev} (books : Books s.skbs) (call : TxCall) :
    Owned s call ↔ OneAtATime s call := by
  cases call with
  | openDev validAddr =>
      exact iff_of_true ⟨books.toKept, fun impossible => impossible.elim⟩ trivial
  | closeDev =>
      constructor
      · intro owned skb stored
        exact owned.ended trivial _ (books.stored skb stored)
      · intro freed
        exact ⟨books.toKept, fun _ number member => books.freed_of_accepted freed member⟩
  | tx txBase tsr data =>
      by_cases ready : tsr &&& 0x10 ≠ 0
      · have after : (s.after (.tx txBase tsr data)).skbs = s.skbs.accept data :=
          if_pos ready
        constructor
        · intro owned
          refine ⟨fun _ skb stored => ?_, fun skb given => ?_⟩
          · have freed := owned.ended ready _ (books.stored skb stored)
            rw [after] at freed
            exact freed
          · have intact := owned.intact
            rw [after] at intact
            exact intact skb (List.mem_append_left _ given)
        · intro meets
          refine ⟨?_, fun _ number member => ?_⟩
          · rw [after]
            exact (books.accept (meets.1 ready) meets.2).toKept
          · rw [after]
            exact books.freed_of_accepted (meets.1 ready) member
      · have after : (s.after (.tx txBase tsr data)).skbs = s.skbs.refuse data :=
          if_neg ready
        constructor
        · intro owned
          have intact := owned.intact
          rw [after] at intact
          exact ⟨fun accepts => absurd accepts ready, intact⟩
        · intro meets
          refine ⟨?_, fun impossible => absurd impossible ready⟩
          rw [after]
          exact (books.refuse meets.2).toKept
  | interrupt offset ready readings =>
      have spec := (interrupt_spec books offset ready readings).1
      constructor
      · intro owned
        exact spec.mp owned.toKept
      · intro meets
        exact ⟨spec.mpr meets, fun impossible => impossible.elim⟩

/-- Such a call keeps the books. -/
theorem Books.after {s : TxDev} (books : Books s.skbs) {call : TxCall}
    (meets : OneAtATime s call) : Books (s.after call).skbs := by
  cases call with
  | openDev validAddr => exact books
  | closeDev => exact books
  | tx txBase tsr data =>
      by_cases ready : tsr &&& 0x10 ≠ 0
      · have after : (s.after (.tx txBase tsr data)).skbs = s.skbs.accept data :=
          if_pos ready
        rw [after]
        exact books.accept (meets.1 ready) meets.2
      · have after : (s.after (.tx txBase tsr data)).skbs = s.skbs.refuse data :=
          if_neg ready
        rw [after]
        exact books.refuse meets.2
  | interrupt offset ready readings =>
      exact (interrupt_spec books offset ready readings).2 meets

end Gp2Firmware.Emac
