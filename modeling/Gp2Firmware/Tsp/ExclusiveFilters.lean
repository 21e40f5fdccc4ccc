import Gp2Firmware.Tsp.PidFilter

/-!
# Who holds a PID filter

Runs of `_MDrv_TSP_PidFlt_Alloc` and `_MDrv_TSP_PidFlt_Free` from the state in
which every filter is free, and when no filter is handed out twice and the
filters reserved for the streams stay with them.
-/

namespace Gp2Firmware.Tsp

open Function

/-- The driver, and the filters its clients hold: one entry for each allocation
that returned `TRUE` and is not given back. -/
structure Clients where
  drv : DrvTsp
  held : List Nat

inductive FltCall where
  | alloc (filterType : U32)
  | free (pidFltId : Nat)

/-- The state after a call for the one engine. -/
def Clients.after (s : Clients) : FltCall → Clients
  | .alloc filterType =>
      ⟨(pidFltAlloc s.drv 0 filterType).2,
        (pidFltAlloc s.drv 0 filterType).1.toList ++ s.held⟩
  | .free pidFltId =>
      ⟨(pidFltFree s.drv 0 pidFltId).2,
        if (pidFltFree s.drv 0 pidFltId).1 then s.held.erase pidFltId else s.held⟩

/-- All filters free, and nobody holds one. -/
def Clients.init (s : DrvTsp) : Clients := ⟨s.init, []⟩

/-- What an allocation promises, of the state before it and its result. -/
structure AllocLaw (s : DrvTsp) (fltType : U32) (result : Option Nat) : Prop where
  wasFree : ∀ i ∈ result, i < pidFltNumAll ∧ s.fltState i = fltStateFree
  below : fltType ≠ fltTypePvr → ∀ i ∈ result, i < pidFltNum
  refused : streamPosition fltType ≠ none → result = none →
    ∃ i < pidFltNumAll, s.fltState i ≠ fltStateFree ∧ s.fltType i = fltType
  leaves : streamPosition fltType = none →
    ∀ i ∈ result, ∀ k < 4, i ≠ idxStream k

/-- The allocation is lawful, one that returns `FALSE` changes no state of a
filter, and no filter is held twice. -/
def ExclusiveLaw (s : Clients) (call : FltCall) : Prop :=
  (s.after call).held.Nodup ∧
    match call with
    | .alloc filterType =>
        AllocLaw s.drv (typeOf filterType) (pidFltAlloc s.drv 0 filterType).1 ∧
          ((pidFltAlloc s.drv 0 filterType).1 = none →
            (s.after call).drv.fltState = s.drv.fltState)
    | .free _ => True

/-- Some filter from an index on, up to another, is free. -/
def SomeFree (s : DrvTsp) (first bound : Nat) : Prop :=
  ∃ i, first ≤ i ∧ i < bound ∧ s.fltState i = fltStateFree

/-- A request for PES finds one of the filters 25 to 27 free, and one of the
other types that have no filter of their own finds one free below the streams'
filters or none at all. -/
def FindsFree (s : Clients) : FltCall → Prop
  | .alloc filterType =>
      if typeOf filterType = fltTypePes then SomeFree s.drv 25 28
      else if typeOf filterType = fltTypePvr ∨
          streamPosition (typeOf filterType) ≠ none then True
      else SomeFree s.drv 0 28 ∨ ¬ SomeFree s.drv 0 pidFltNumAll
  | .free _ => True

variable {s : DrvTsp} {fltType filterType : U32} {i : Nat}

/-! ### The outcome of one call -/

theorem typeOf_lt (filterType : U32) : ¬ fltTypeLastEnum ≤ typeOf filterType := by
  have small : (typeOf filterType).toNat ≤ 0x3FFFFFFF := by
    rw [typeOf, BitVec.toNat_and]
    exact Nat.and_le_right
  rw [BitVec.le_def]
  change ¬ 0x40000001 ≤ (typeOf filterType).toNat
  omega

theorem pidFltAlloc_eq :
    pidFltAlloc s 0 filterType =
      match pidFltIndex s (typeOf filterType) with
      | none => (none, s)
      | some i => (some i, s.allocated filterType i) := by
  have valid : ¬ ((1 : U32) ≤ 0 ∨ fltTypeLastEnum ≤ typeOf filterType) := by
    rintro (bad | bad)
    · exact absurd bad (by decide)
    · exact typeOf_lt filterType bad
  exact if_neg valid

theorem pidFltAlloc_fst :
    (pidFltAlloc s 0 filterType).1 = pidFltIndex s (typeOf filterType) := by
  rw [pidFltAlloc_eq]
  cases pidFltIndex s (typeOf filterType) <;> rfl

theorem pidFltAlloc_none (refused : (pidFltAlloc s 0 filterType).1 = none) :
    (pidFltAlloc s 0 filterType).2 = s := by
  rw [pidFltAlloc_fst] at refused
  rw [pidFltAlloc_eq, refused]

theorem pidFltAlloc_some (given : (pidFltAlloc s 0 filterType).1 = some i) :
    (pidFltAlloc s 0 filterType).2 = s.allocated filterType i := by
  rw [pidFltAlloc_fst] at given
  rw [pidFltAlloc_eq, given]

/-! ### The invariant of lawful runs -/

/-- The clients hold each filter that is not free once, and a stream's filter
only for that stream. -/
structure Allotted (s : Clients) : Prop where
  state : ∀ i, s.drv.fltState i = fltStateFree ∨ s.drv.fltState i = fltStateAlloc
  inside : ∀ i, s.drv.fltState i ≠ fltStateFree → i < pidFltNumAll
  held : ∀ i, i ∈ s.held ↔ s.drv.fltState i ≠ fltStateFree
  nodup : s.held.Nodup
  stream : ∀ k < 4, s.drv.fltState (idxStream k) ≠ fltStateFree →
    streamPosition (s.drv.fltType (idxStream k)) = some k

theorem allotted_init (s : DrvTsp) : Allotted (.init s) where
  state := fun _ => Or.inl rfl
  inside := fun _ taken => absurd rfl taken
  held := fun _ => ⟨fun member => (List.not_mem_nil member).elim,
    fun taken => absurd rfl taken⟩
  nodup := List.nodup_nil
  stream := fun _ _ taken => absurd rfl taken

theorem idxStream_injective {k other : Nat} (small : k < 4) (otherSmall : other < 4)
    (same : idxStream k = idxStream other) : k = other := by
  simp only [idxStream, pidFltNum] at same
  omega

theorem reservedIndex_some {k : Nat} (given : reservedIndex s k = some i) :
    i = idxStream k := by
  unfold reservedIndex at given
  split_ifs at given
  cases given
  rfl

namespace Allotted

variable {c : Clients}

theorem alloc_bit (allotted : Allotted c) :
    c.drv.fltState i &&& fltStateAlloc ≠ 0 ↔ c.drv.fltState i ≠ fltStateFree := by
  rcases allotted.state i with free | taken
  · simp [free, fltStateFree, fltStateAlloc]
  · simp [taken, fltStateFree, fltStateAlloc]

/-- A filter that was free is handed out. -/
theorem give (allotted : Allotted c)
    (law : AllocLaw c.drv (typeOf filterType) (some i))
    (index : pidFltIndex c.drv (typeOf filterType) = some i) :
    Allotted ⟨c.drv.allocated filterType i, i :: c.held⟩ := by
  obtain ⟨inside, free⟩ := law.wasFree i rfl
  have taken : ∀ j, (c.drv.allocated filterType i).fltState j ≠ fltStateFree ↔
      j = i ∨ c.drv.fltState j ≠ fltStateFree := by
    intro j
    by_cases same : j = i
    · simp [DrvTsp.allocated, same, fltStateAlloc, fltStateFree]
    · simp [DrvTsp.allocated, same]
  constructor
  · intro j
    by_cases same : j = i
    · exact Or.inr (by simp [DrvTsp.allocated, same])
    · simpa [DrvTsp.allocated, same] using allotted.state j
  · intro j held
    rcases (taken j).mp held with same | before
    · exact same ▸ inside
    · exact allotted.inside j before
  · intro j
    rw [List.mem_cons, taken, allotted.held]
  · exact List.nodup_cons.mpr
      ⟨fun member => (allotted.held i).mp member free, allotted.nodup⟩
  · intro k small held
    by_cases same : idxStream k = i
    · have type : (c.drv.allocated filterType i).fltType (idxStream k) =
          typeOf filterType := by simp [DrvTsp.allocated, same]
      rw [type]
      cases position : streamPosition (typeOf filterType) with
      | none => exact absurd same.symm (law.leaves position i rfl k small)
      | some other =>
          rw [pidFltIndex_stream position] at index
          have here := reservedIndex_some index
          exact congrArg some (idxStream_injective (streamPosition_lt position)
            small (here.symm.trans same.symm))
    · have type : (c.drv.allocated filterType i).fltType (idxStream k) =
          c.drv.fltType (idxStream k) := by simp [DrvTsp.allocated, same]
      rw [type]
      rcases (taken _).mp held with this | before
      · exact absurd this same
      · exact allotted.stream k small before

/-- A filter is given back. -/
theorem release (allotted : Allotted c) :
    Allotted ⟨(pidFltDisable c.drv i).released i, c.held.erase i⟩ := by
  have taken : ∀ j,
      ((pidFltDisable c.drv i).released i).fltState j ≠ fltStateFree ↔
        j ≠ i ∧ c.drv.fltState j ≠ fltStateFree := by
    intro j
    by_cases same : j = i
    · simp [DrvTsp.released, same]
    · simp [DrvTsp.released, pidFltDisable, same]
  constructor
  · intro j
    by_cases same : j = i
    · exact Or.inl (by simp [DrvTsp.released, same])
    · simpa [DrvTsp.released, pidFltDisable, same] using allotted.state j
  · intro j held
    exact allotted.inside j ((taken j).mp held).2
  · intro j
    rw [allotted.nodup.mem_erase_iff, taken, allotted.held]
  · exact allotted.nodup.erase i
  · intro k small held
    exact allotted.stream k small ((taken _).mp held).2

end Allotted

/-! ### Each call under the invariant -/

theorem idxStream_of_lt {k : Nat} (small : k < 4) :
    28 ≤ idxStream k ∧ idxStream k < pidFltNum := by
  simp only [idxStream, pidFltNum]
  omega

/-- A filter below those for recording is a stream's, or comes before them. -/
theorem below_streams (below : i < pidFltNum) (other : ∀ k < 4, i ≠ idxStream k) :
    i < 28 := by
  by_contra above
  simp only [pidFltNum] at below
  have last := other (31 - i) (by omega)
  simp only [idxStream, pidFltNum] at last
  omega

theorem ne_idxStream {k : Nat} (low : i < 28) (small : k < 4) : i ≠ idxStream k := by
  have high := (idxStream_of_lt small).1
  omega

namespace Allotted

variable {c : Clients}

theorem law_stream {k : Nat} (allotted : Allotted c)
    (position : streamPosition fltType = some k) :
    AllocLaw c.drv fltType (pidFltIndex c.drv fltType) := by
  have small := streamPosition_lt position
  have inside := (idxStream_of_lt small).2
  rw [pidFltIndex_stream position]
  constructor
  · intro i given
    rw [reservedIndex_some given]
    refine ⟨Nat.lt_add_right 8 inside, ?_⟩
    by_contra taken
    rw [Option.mem_def, reservedIndex, if_pos (allotted.alloc_bit.mpr taken)] at given
    cases given
  · intro _ i given
    rw [reservedIndex_some given]
    exact inside
  · intro _ refused
    have taken : c.drv.fltState (idxStream k) ≠ fltStateFree := by
      intro free
      rw [reservedIndex, if_neg (not_not.mpr _)] at refused
      · cases refused
      · simp [free, fltStateFree]
    refine ⟨idxStream k, Nat.lt_add_right 8 inside, taken, ?_⟩
    exact streamPosition_injective (allotted.stream k small taken) position
  · intro other
    rw [other] at position
    cases position

theorem law_pes_iff :
    AllocLaw s fltTypePes (pidFltIndex s fltTypePes) ↔ SomeFree s 25 28 := by
  rw [pidFltIndex_pes, pesSearch_eq]
  constructor
  · intro law
    obtain ⟨_, free⟩ := law.wasFree _ rfl
    refine ⟨_, ?_, ?_, free⟩ <;> split_ifs <;> decide
  · rintro ⟨i, low, high, free⟩
    have bounds : ∀ a b : Prop, [Decidable a] → [Decidable b] →
        (if a then 27 else if b then 26 else 25) < 28 := by
      intro a b _ _
      split_ifs <;> decide
    constructor
    · rintro j ⟨⟩
      refine ⟨Nat.lt_trans (bounds _ _) (by decide), ?_⟩
      split_ifs with first second
      · exact first
      · exact second
      · have last : i = 25 := by
          rcases Nat.lt_or_ge i 26 with _ | _
          · omega
          · have : i = 26 ∨ i = 27 := by omega
            rcases this with rfl | rfl <;> contradiction
        exact last ▸ free
    · rintro _ j ⟨⟩
      exact Nat.lt_trans (bounds _ _) (by decide)
    · intro stream
      exact absurd (by decide) stream
    · rintro _ j ⟨⟩ k small
      exact ne_idxStream (bounds _ _) small

theorem law_pvr : AllocLaw s fltTypePvr (pidFltIndex s fltTypePvr) := by
  rw [pidFltIndex_other (by decide) (by decide), if_pos rfl]
  constructor
  · intro i given
    obtain ⟨_, inside, free, _⟩ := firstFree_some given
    exact ⟨inside, free⟩
  · intro other
    exact absurd rfl other
  · intro stream
    exact absurd (by decide) stream
  · intro _ i given k small
    have above := (firstFree_some given).1
    have below := (idxStream_of_lt small).2
    omega

theorem law_other_iff (other : streamPosition fltType = none)
    (notPes : fltType ≠ fltTypePes) (notPvr : fltType ≠ fltTypePvr) :
    AllocLaw s fltType (pidFltIndex s fltType) ↔
      SomeFree s 0 28 ∨ ¬ SomeFree s 0 pidFltNumAll := by
  rw [pidFltIndex_other other notPes, if_neg notPvr]
  cases given : firstFree s 0 with
  | none =>
      have taken := firstFree_none given
      refine iff_of_true ?_ (Or.inr ?_)
      · constructor
        · rintro i ⟨⟩
        · rintro _ i ⟨⟩
        · exact fun stream => absurd other stream
        · rintro _ i ⟨⟩
      · rintro ⟨i, low, inside, free⟩
        exact taken i low inside free
  | some i =>
      obtain ⟨_, inside, free, first⟩ := firstFree_some given
      constructor
      · intro law
        have low := below_streams (law.below notPvr i rfl) (law.leaves other i rfl)
        exact Or.inl ⟨i, Nat.zero_le i, low, free⟩
      · intro found
        have low : i < 28 := by
          rcases found with ⟨j, _, low, here⟩ | nowhere
          · by_contra high
            exact first j (Nat.zero_le j) (by omega) here
          · exact absurd ⟨i, Nat.zero_le i, inside, free⟩ nowhere
        constructor
        · rintro j ⟨⟩
          exact ⟨inside, free⟩
        · rintro _ j ⟨⟩
          exact Nat.lt_trans low (by decide)
        · exact fun stream => absurd other stream
        · rintro _ j ⟨⟩ k small
          exact ne_idxStream low small

theorem law_iff (allotted : Allotted c) (filterType : U32) :
    AllocLaw c.drv (typeOf filterType) (pidFltAlloc c.drv 0 filterType).1 ↔
      FindsFree c (.alloc filterType) := by
  rw [pidFltAlloc_fst, FindsFree]
  by_cases pes : typeOf filterType = fltTypePes
  · rw [if_pos pes, pes]
    exact law_pes_iff
  · rw [if_neg pes]
    by_cases pvr : typeOf filterType = fltTypePvr
    · rw [if_pos (Or.inl pvr), pvr]
      exact iff_true_intro law_pvr
    · cases position : streamPosition (typeOf filterType) with
      | some k =>
          rw [if_pos (Or.inr (Option.some_ne_none k))]
          exact iff_true_intro (allotted.law_stream position)
      | none =>
          rw [if_neg (not_or.mpr ⟨pvr, not_not_intro rfl⟩)]
          exact law_other_iff position pes pvr

/-- A lawful call keeps the invariant. -/
theorem after_alloc (allotted : Allotted c)
    (law : AllocLaw c.drv (typeOf filterType) (pidFltAlloc c.drv 0 filterType).1) :
    Allotted (c.after (.alloc filterType)) := by
  rw [Clients.after]
  cases given : (pidFltAlloc c.drv 0 filterType).1 with
  | none =>
      rw [pidFltAlloc_none given]
      exact allotted
  | some i =>
      rw [given] at law
      rw [pidFltAlloc_some given]
      exact allotted.give law (pidFltAlloc_fst ▸ given)

theorem after_free (allotted : Allotted c) (pidFltId : Nat) :
    Allotted (c.after (.free pidFltId)) := by
  rw [Clients.after, pidFltFree]
  by_cases refused : (1 : U32) ≤ 0 ∨ pidFltNumAll ≤ pidFltId ∨
      c.drv.fltState pidFltId = fltStateFree
  · rw [if_pos refused]
    exact allotted
  · rw [if_neg refused]
    exact allotted.release

theorem exclusiveLaw_iff (allotted : Allotted c) (call : FltCall) :
    ExclusiveLaw c call ↔ FindsFree c call := by
  cases call with
  | free pidFltId =>
      exact iff_of_true ⟨(allotted.after_free pidFltId).nodup, trivial⟩ trivial
  | alloc filterType =>
      rw [← allotted.law_iff]
      constructor
      · exact fun lawful => lawful.2.1
      · intro law
        refine ⟨(allotted.after_alloc law).nodup, law, fun refused => ?_⟩
        exact congrArg DrvTsp.fltState (pidFltAlloc_none refused)

theorem after_lawful (allotted : Allotted c) (call : FltCall)
    (lawful : ExclusiveLaw c call) : Allotted (c.after call) := by
  cases call with
  | alloc filterType => exact allotted.after_alloc lawful.2.1
  | free pidFltId => exact allotted.after_free pidFltId

end Allotted

/-- From the state in which all filters are free, all calls of a run are lawful
if and only if all its requests find a filter free. -/
theorem exclusive_iff (s : DrvTsp) (calls : List FltCall) :
    Run.Meets Clients.after ExclusiveLaw (.init s) calls ↔
      Run.Meets Clients.after FindsFree (.init s) calls :=
  Run.meets_congr (fun _ call allotted => Allotted.exclusiveLaw_iff allotted call)
    (fun _ call allotted => Allotted.after_lawful allotted call) (allotted_init s)

/-- The fourth of four requests for PES is given the filter of the third. -/
theorem pes_given_twice :
    ¬ ∀ (s : DrvTsp) (calls : List FltCall),
      Run.Meets Clients.after ExclusiveLaw (.init s) calls := by
  intro always
  have run := always ⟨fun _ => 0, fun _ => 0, fun _ => 0, 0, fun _ => 0, fun _ => 0,
    fun _ => 0, []⟩ (List.replicate 4 (.alloc fltTypePes))
  have twice := run.2.2.2.1.1
  revert twice
  decide +kernel

end Gp2Firmware.Tsp
