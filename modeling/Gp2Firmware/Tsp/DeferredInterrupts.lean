import Mathlib.Logic.Function.Basic
import Gp2Firmware.Lib.IndexRing
import Gp2Firmware.Lib.WordBits
import Gp2Firmware.Tsp.Packet

/-!
# Deferred interrupts of the TSP firmware

`_FireInterrupt` of `fw_tsp.c` and the end of the main loop, which hands the
deferred interrupts to the host one by one.  There is one engine, so every
array over the engines is its single element.
-/

namespace Gp2Firmware.Tsp

open Gp2Firmware.Lib

/-- `TSP_SWINT_CTRL_FIRE` -/
def swintCtrlFire : U32 := 0x80000000

/-- `TSP_SWINT_STATUS_PKT_OVRUN` -/
def swintStatusPktOvrun : U32 := 0x20

/-- The two events that this configuration of the firmware fires:
`TSP_SWINT_STATUS_SEC_RDY` and `TSP_SWINT_STATUS_BUF_OVFLOW`. -/
inductive SwintStatus where
  | secRdy
  | bufOvflow
  deriving DecidableEq

def SwintStatus.code : SwintStatus → U32
  | secRdy => 0x0001
  | bufOvflow => 0x0006

/-- The variables of the deferred interrupts, and the register through which
the host is told. -/
structure Interrupts where
  swIntStat : U32
  deferIntRead : Nat
  deferIntWrite : Nat
  deferIntStatus : U32
  deferInt : Nat → U32

/-- After `FwTSP_Init`. -/
def Interrupts.init : Interrupts where
  swIntStat := 0
  deferIntRead := 0
  deferIntWrite := 0
  deferIntStatus := 0
  deferInt := fun _ => 0

/-- The filter number in `info`. -/
def swintSec (info : U32) : Nat := (info &&& 0x000000FF).toNat

/-- The status in a deferred word. -/
def swintCmd (info : U32) : U32 := (info &&& 0x7FFF0000) >>> 16

/-- `_FireInterrupt` -/
def fireInterrupt (s : Interrupts) (status info : U32) : Bool × Interrupts :=
  if s.swIntStat &&& swintCtrlFire ≠ 0 then
    if status = swintStatusPktOvrun then (false, s)
    else if s.deferIntStatus &&& (1#32 <<< swintSec info) ≠ 0 then (false, s)
    else
      (true,
        { s with
          deferIntStatus := s.deferIntStatus ||| (1#32 <<< swintSec info)
          deferInt :=
            Function.update s.deferInt s.deferIntWrite ((status <<< 16) ||| info)
          deferIntWrite := (s.deferIntWrite + 1) &&& 0x1F })
  else
    (true, { s with swIntStat := swintCtrlFire ||| (status <<< 16) ||| info })

/-- The end of one turn of `FwTSP_Proc`. -/
def procDeferred (s : Interrupts) : Interrupts :=
  if s.deferIntWrite ≠ s.deferIntRead then
    let info := s.deferInt s.deferIntRead
    let fired := fireInterrupt s (swintCmd info) info
    if fired.1 then
      { fired.2 with
        deferInt := Function.update fired.2.deferInt fired.2.deferIntRead 0
        deferIntStatus := fired.2.deferIntStatus &&& ~~~(1#32 <<< swintSec info)
        deferIntRead := (fired.2.deferIntRead + 1) &&& 0x1F }
    else fired.2
  else s

/-- What can happen: an event of a filter, one turn of the main loop, and the
host that clears `SwInt_Stat`. -/
inductive IntStep where
  | event (status : SwintStatus) (sfId : Fin 32)
  | proc
  | acknowledge

/-- The `info` word of a filter, for engine 0. -/
def infoOf (sfId : Fin 32) : U32 := BitVec.ofNat 32 sfId

/-- The state after a step. -/
def Interrupts.after (s : Interrupts) : IntStep → Interrupts
  | .event status sfId => (fireInterrupt s status.code (infoOf sfId)).2
  | .proc => procDeferred s
  | .acknowledge => { s with swIntStat := 0 }

/-- The words between the read and the write index. -/
def Interrupts.waiting (s : Interrupts) : List U32 :=
  (IndexRing.cells 32 s.deferIntRead s.deferIntWrite).map s.deferInt

/-- The word of an event in the queue. -/
def deferWord (status : SwintStatus) (sfId : Fin 32) : U32 :=
  (status.code <<< 16) ||| infoOf sfId

/-- The set bits of the status are the filters with an entry in the queue, and
the main loop sees that there is one. -/
def QueueLaw (s : Interrupts) : Prop :=
  (∀ sfId : Fin 32, s.deferIntStatus.getLsbD sfId = true ↔
      ∃ info ∈ s.waiting, swintSec info = sfId) ∧
    ∀ sfId : Fin 32, s.deferIntStatus.getLsbD sfId = true →
      s.deferIntWrite ≠ s.deferIntRead

/-- An event is discarded only if the same event is waiting already. -/
def DiscardLaw (s : Interrupts) : IntStep → Prop
  | .event status sfId =>
      (fireInterrupt s status.code (infoOf sfId)).1 = false →
        deferWord status sfId ∈ s.waiting
  | .proc => True
  | .acknowledge => True

/-- The laws hold in all states and for all events of a run. -/
def DeferLaw : Interrupts → List IntStep → Prop
  | s, [] => QueueLaw s
  | s, step :: rest => QueueLaw s ∧ DiscardLaw s step ∧ DeferLaw (s.after step) rest

/-- While the host has not yet cleared the last interrupt: an event of a filter
that has one waiting is the same event, and any other event leaves a cell of
the queue free. -/
def StepFits (s : Interrupts) : IntStep → Prop
  | .event status sfId =>
      s.swIntStat &&& swintCtrlFire ≠ 0 →
        if s.deferIntStatus.getLsbD sfId then deferWord status sfId ∈ s.waiting
        else s.waiting.length < 31
  | .proc => True
  | .acknowledge => True

/-- All steps of a run fit. -/
def RunFits : Interrupts → List IntStep → Prop
  | _, [] => True
  | s, step :: rest => StepFits s step ∧ RunFits (s.after step) rest

/-! ### Words and bits -/

@[simp]
theorem swintSec_infoOf (sfId : Fin 32) : swintSec (infoOf sfId) = sfId := by
  revert sfId
  decide

@[simp]
theorem swintSec_deferWord (status : SwintStatus) (sfId : Fin 32) :
    swintSec (deferWord status sfId) = sfId := by
  revert sfId
  cases status <;> decide

@[simp]
theorem swintCmd_deferWord (status : SwintStatus) (sfId : Fin 32) :
    swintCmd (deferWord status sfId) = status.code := by
  revert sfId
  cases status <;> decide

theorem code_ne_pktOvrun (status : SwintStatus) :
    status.code ≠ swintStatusPktOvrun := by
  cases status <;> decide

theorem and_mask_eq_mod (index : Nat) : index &&& 0x1F = index % 32 :=
  Nat.and_two_pow_sub_one_eq_mod index 5

/-! ### The three outcomes of `_FireInterrupt` -/

variable {s : Interrupts} {status : SwintStatus} {sfId : Fin 32}

theorem fireInterrupt_of_clear
    (clear : s.swIntStat &&& swintCtrlFire = 0) (code info : U32) :
    fireInterrupt s code info =
      (true,
        { s with swIntStat := swintCtrlFire ||| (code <<< 16) ||| info }) := by
  rw [fireInterrupt, if_neg (not_not_intro clear)]

theorem fireInterrupt_of_waiting
    (busy : s.swIntStat &&& swintCtrlFire ≠ 0) {code info : U32}
    (other : code ≠ swintStatusPktOvrun) (sec : swintSec info = sfId)
    (bit : s.deferIntStatus.getLsbD sfId = true) :
    fireInterrupt s code info = (false, s) := by
  rw [fireInterrupt, if_pos busy, if_neg other, sec,
    if_pos ((and_bit_ne_zero _ _).mpr bit)]

/-- The queue with one entry more. -/
def Interrupts.push (s : Interrupts) (status : SwintStatus) (sfId : Fin 32) :
    Interrupts :=
  { s with
    deferIntStatus := s.deferIntStatus ||| (1#32 <<< sfId.val)
    deferInt := Function.update s.deferInt s.deferIntWrite (deferWord status sfId)
    deferIntWrite := (s.deferIntWrite + 1) % 32 }

theorem fireInterrupt_of_free (status : SwintStatus)
    (busy : s.swIntStat &&& swintCtrlFire ≠ 0)
    (bit : s.deferIntStatus.getLsbD sfId = false) :
    fireInterrupt s status.code (infoOf sfId) = (true, s.push status sfId) := by
  have free : ¬ s.deferIntStatus &&& (1#32 <<< sfId.val) ≠ 0 := by
    rw [and_bit_ne_zero, bit]
    exact Bool.false_ne_true
  rw [fireInterrupt, if_pos busy, if_neg (code_ne_pktOvrun status),
    swintSec_infoOf, if_neg free, and_mask_eq_mod]
  rfl

/-! ### The queue as a list of events -/

/-- The queue holds a list of events of different filters, and the status word
is the set of their filters. -/
structure Queued (s : Interrupts) (pending : List (SwintStatus × Fin 32)) :
    Prop where
  read_lt : s.deferIntRead < 32
  write_lt : s.deferIntWrite < 32
  waiting_eq : s.waiting = pending.map fun event => deferWord event.1 event.2
  nodup : (pending.map Prod.snd).Nodup
  bits : ∀ sfId : Fin 32,
    s.deferIntStatus.getLsbD sfId = true ↔ sfId ∈ pending.map Prod.snd

theorem queued_init : Queued .init [] where
  read_lt := by decide
  write_lt := by decide
  waiting_eq := by decide
  nodup := List.nodup_nil
  bits := by decide

namespace Queued

variable {pending : List (SwintStatus × Fin 32)}

theorem length_waiting (queued : Queued s pending) :
    IndexRing.used 32 s.deferIntRead s.deferIntWrite = pending.length := by
  have same := congrArg List.length queued.waiting_eq
  rw [Interrupts.waiting, List.length_map, IndexRing.length_cells,
    List.length_map] at same
  exact same

theorem mem_waiting (queued : Queued s pending) {info : U32} :
    info ∈ s.waiting ↔ ∃ event ∈ pending, deferWord event.1 event.2 = info := by
  rw [queued.waiting_eq, List.mem_map]

theorem queueLaw (queued : Queued s pending) : QueueLaw s := by
  have exact : ∀ sfId : Fin 32, s.deferIntStatus.getLsbD sfId = true ↔
      ∃ info ∈ s.waiting, swintSec info = sfId := by
    intro sfId
    rw [queued.bits, List.mem_map]
    constructor
    · intro found
      obtain ⟨event, member, same⟩ := found
      refine ⟨_, queued.mem_waiting.mpr ⟨event, member, rfl⟩, ?_⟩
      rw [swintSec_deferWord, same]
    · intro found
      obtain ⟨info, member, sec⟩ := found
      obtain ⟨event, inside, word⟩ := queued.mem_waiting.mp member
      refine ⟨event, inside, ?_⟩
      rw [← word, swintSec_deferWord] at sec
      exact Fin.ext sec
  refine ⟨exact, ?_⟩
  intro sfId bit same
  obtain ⟨info, member, _⟩ := (exact sfId).mp bit
  rw [Interrupts.waiting, same, IndexRing.cells_of_eq queued.read_lt] at member
  cases member

/-- The register of the host is not part of the queue. -/
theorem withStat (queued : Queued s pending) (swIntStat : U32) :
    Queued { s with swIntStat := swIntStat } pending :=
  ⟨queued.read_lt, queued.write_lt, queued.waiting_eq, queued.nodup,
    queued.bits⟩

theorem push (queued : Queued s pending)
    (bit : s.deferIntStatus.getLsbD sfId = false)
    (room : pending.length < 31) :
    Queued (s.push status sfId) (pending ++ [(status, sfId)]) where
  read_lt := queued.read_lt
  write_lt := Nat.mod_lt _ (by decide)
  waiting_eq := by
    have used := queued.length_waiting
    have untouched : (IndexRing.cells 32 s.deferIntRead s.deferIntWrite).map
        (Function.update s.deferInt s.deferIntWrite (deferWord status sfId)) =
          s.waiting := by
      apply List.map_congr_left
      intro cell member
      apply Function.update_of_ne
      intro same
      rw [same] at member
      exact IndexRing.write_not_mem_cells queued.read_lt queued.write_lt member
    change (IndexRing.cells 32 s.deferIntRead ((s.deferIntWrite + 1) % 32)).map
      (Function.update s.deferInt s.deferIntWrite (deferWord status sfId)) = _
    rw [IndexRing.cells_push queued.read_lt queued.write_lt (by omega),
      List.map_append, untouched, queued.waiting_eq, List.map_append,
      List.map_singleton, List.map_singleton, Function.update_self]
  nodup := by
    have fresh : sfId ∉ pending.map Prod.snd := by
      rw [← queued.bits, bit]
      exact Bool.false_ne_true
    rw [List.map_append, List.map_singleton]
    apply List.nodup_append.mpr
    refine ⟨queued.nodup, List.nodup_singleton _, ?_⟩
    intro old member new single same
    rw [List.mem_singleton] at single
    rw [same, single] at member
    exact fresh member
  bits := by
    intro other
    change (s.deferIntStatus ||| (1#32 <<< sfId.val)).getLsbD other = true ↔ _
    rw [getLsbD_or_bit, Bool.or_eq_true, queued.bits, List.map_append,
      List.mem_append, List.map_singleton, List.mem_singleton, decide_eq_true_iff]

/-- The oldest event of the queue is taken out. -/
theorem pop {event : SwintStatus × Fin 32}
    (queued : Queued s (event :: pending)) :
    Queued
      { s with
        deferInt := Function.update s.deferInt s.deferIntRead 0
        deferIntStatus := s.deferIntStatus &&& ~~~(1#32 <<< event.2.val)
        deferIntRead := (s.deferIntRead + 1) % 32 } pending where
  read_lt := Nat.mod_lt _ (by decide)
  write_lt := queued.write_lt
  waiting_eq := by
    have some : s.deferIntRead ≠ s.deferIntWrite := by
      intro same
      have used := queued.length_waiting
      rw [(IndexRing.used_eq_zero queued.read_lt queued.write_lt).mpr same] at used
      cases used
    have untouched : (IndexRing.cells 32 ((s.deferIntRead + 1) % 32)
        s.deferIntWrite).map (Function.update s.deferInt s.deferIntRead 0) =
          (IndexRing.cells 32 ((s.deferIntRead + 1) % 32)
            s.deferIntWrite).map s.deferInt := by
      apply List.map_congr_left
      intro cell member
      apply Function.update_of_ne
      intro same
      rw [same] at member
      exact IndexRing.read_not_mem_cells_pop queued.read_lt queued.write_lt some
        member
    have whole := queued.waiting_eq
    rw [Interrupts.waiting, IndexRing.cells_pop queued.read_lt queued.write_lt some,
      List.map_cons, List.map_cons, List.cons.injEq] at whole
    exact untouched.trans whole.2
  nodup := (List.nodup_cons.mp queued.nodup).2
  bits := by
    intro other
    have fresh := (List.nodup_cons.mp queued.nodup).1
    change (s.deferIntStatus &&& ~~~(1#32 <<< event.2.val)).getLsbD other = true ↔
      other ∈ pending.map Prod.snd
    rw [getLsbD_and_not_bit, Bool.and_eq_true, queued.bits, decide_eq_true_iff,
      List.map_cons, List.mem_cons]
    constructor
    · intro left
      exact left.1.resolve_left left.2
    · intro member
      refine ⟨Or.inr member, ?_⟩
      intro same
      rw [same] at member
      exact fresh member

/-- The word that the main loop looks at is that of the oldest event. -/
theorem head {event : SwintStatus × Fin 32}
    (queued : Queued s (event :: pending)) :
    s.deferIntWrite ≠ s.deferIntRead ∧
      s.deferInt s.deferIntRead = deferWord event.1 event.2 := by
  have some : s.deferIntRead ≠ s.deferIntWrite := by
    intro same
    have used := queued.length_waiting
    rw [(IndexRing.used_eq_zero queued.read_lt queued.write_lt).mpr same] at used
    cases used
  have whole := queued.waiting_eq
  rw [Interrupts.waiting, IndexRing.cells_pop queued.read_lt queued.write_lt some,
    List.map_cons, List.map_cons, List.cons.injEq] at whole
  exact ⟨some.symm, whole.1⟩

theorem proc (queued : Queued s pending) :
    ∃ pending, Queued (procDeferred s) pending := by
  cases pending with
  | nil =>
      have used := queued.length_waiting
      have same := (IndexRing.used_eq_zero queued.read_lt queued.write_lt).mp used
      rw [procDeferred, if_neg (not_not_intro same.symm)]
      exact ⟨[], queued⟩
  | cons event rest =>
      obtain ⟨some, word⟩ := queued.head
      have sec : swintSec (deferWord event.1 event.2) = event.2 :=
        swintSec_deferWord _ _
      rw [procDeferred, if_pos some]
      simp only [word, swintCmd_deferWord]
      by_cases busy : s.swIntStat &&& swintCtrlFire ≠ 0
      · have bit : s.deferIntStatus.getLsbD event.2 = true := by
          rw [queued.bits]
          exact List.mem_cons_self
        simp only [fireInterrupt_of_waiting busy (code_ne_pktOvrun event.1) sec bit,
          Bool.false_eq_true, if_false]
        exact ⟨_, queued⟩
      · simp only [fireInterrupt_of_clear (not_not.mp busy), if_true, sec,
          and_mask_eq_mod]
        exact ⟨rest, (queued.pop).withStat _⟩

/-- A step that fits discards nothing but duplicates, and keeps the queue. -/
theorem step (queued : Queued s pending) {step : IntStep}
    (fits : StepFits s step) :
    DiscardLaw s step ∧ ∃ pending, Queued (s.after step) pending := by
  cases step with
  | proc => exact ⟨trivial, queued.proc⟩
  | acknowledge => exact ⟨trivial, pending, queued.withStat 0⟩
  | event status sfId =>
      by_cases busy : s.swIntStat &&& swintCtrlFire ≠ 0
      · have fits := fits busy
        cases bit : s.deferIntStatus.getLsbD sfId with
        | true =>
            rw [bit, if_pos rfl] at fits
            have discarded := fireInterrupt_of_waiting busy
              (code_ne_pktOvrun status) (swintSec_infoOf sfId) bit
            refine ⟨fun _ => fits, pending, ?_⟩
            rw [Interrupts.after, discarded]
            exact queued
        | false =>
            rw [bit, if_neg Bool.false_ne_true, queued.waiting_eq,
              List.length_map] at fits
            have pushed := fireInterrupt_of_free status busy bit
            constructor
            · intro discarded
              rw [pushed] at discarded
              cases discarded
            · refine ⟨pending ++ [(status, sfId)], ?_⟩
              rw [Interrupts.after, pushed]
              exact queued.push bit fits
      · have fired := fireInterrupt_of_clear (not_not.mp busy) status.code
          (infoOf sfId)
        constructor
        · intro discarded
          rw [fired] at discarded
          cases discarded
        · refine ⟨pending, ?_⟩
          rw [Interrupts.after, fired]
          exact queued.withStat _

/-- A step that does not fit breaks one of the laws. -/
theorem fits_of_laws (queued : Queued s pending) {step : IntStep}
    (discard : DiscardLaw s step) (law : QueueLaw (s.after step)) :
    StepFits s step := by
  cases step with
  | proc => trivial
  | acknowledge => trivial
  | event status sfId =>
      intro busy
      cases bit : s.deferIntStatus.getLsbD sfId with
      | true =>
          rw [if_pos rfl]
          apply discard
          rw [fireInterrupt_of_waiting busy (code_ne_pktOvrun status)
            (swintSec_infoOf sfId) bit]
      | false =>
          rw [if_neg Bool.false_ne_true, queued.waiting_eq, List.length_map]
          by_contra many
          have used := queued.length_waiting
          have bound : IndexRing.used 32 s.deferIntRead s.deferIntWrite < 32 :=
            IndexRing.used_lt (by decide)
          have full := IndexRing.used_push_full queued.read_lt queued.write_lt
            (by omega)
          rw [Interrupts.after, fireInterrupt_of_free _ busy bit] at law
          -- the bit just set has no entry in a ring that looks empty
          apply law.2 sfId
          · change (s.deferIntStatus ||| (1#32 <<< sfId.val)).getLsbD sfId = true
            rw [getLsbD_or_bit, decide_eq_true rfl, Bool.or_true]
          · exact full

end Queued

theorem deferLaw_queueLaw {steps : List IntStep} (law : DeferLaw s steps) :
    QueueLaw s := by
  cases steps with
  | nil => exact law
  | cons step rest => exact law.1

theorem deferLaw_iff_of_queued {pending : List (SwintStatus × Fin 32)}
    (queued : Queued s pending) (steps : List IntStep) :
    DeferLaw s steps ↔ RunFits s steps := by
  induction steps generalizing s pending with
  | nil => exact iff_of_true queued.queueLaw trivial
  | cons step rest inductionHypothesis =>
      constructor
      · intro law
        have fits := queued.fits_of_laws law.2.1 (deferLaw_queueLaw law.2.2)
        obtain ⟨_, next⟩ := (queued.step fits).2
        exact ⟨fits, (inductionHypothesis next).mp law.2.2⟩
      · intro fit
        obtain ⟨discard, _, next⟩ := queued.step fit.1
        exact ⟨queued.queueLaw, discard, (inductionHypothesis next).mpr fit.2⟩

/-- From the start of the firmware, the deferred interrupts are exactly those
that the status word shows, and only duplicates are discarded, if and only if
every event of the run fits into the queue. -/
theorem deferLaw_iff (steps : List IntStep) :
    DeferLaw .init steps ↔ RunFits .init steps :=
  deferLaw_iff_of_queued queued_init steps

/-- With a host that does not answer, the overflow of a filter is lost behind
its finished section. -/
theorem overflow_discarded :
    ¬ DeferLaw .init
      [.event .secRdy 0, .event .secRdy 0, .event .bufOvflow 0] := by
  rw [deferLaw_iff_of_queued queued_init]
  intro fits
  have lost := fits.2.2.1 (by decide)
  revert lost
  decide

end Gp2Firmware.Tsp
