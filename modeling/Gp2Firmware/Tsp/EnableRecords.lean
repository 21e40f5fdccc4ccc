import Gp2Firmware.Lib.WordBits
import Gp2Firmware.Tsp.ExclusiveFilters

/-!
# The two records of an enabled PID filter

`MDrv_TSP_PidFlt_Enable` marks a filter in its state and in one bit of
`_TspEnable`, a word of 32 bits for 40 filters.  When the two agree over runs
that also allocate and free filters.
-/

namespace Gp2Firmware.Tsp

open Function Gp2Firmware.Lib

/-- The driver, and which filters the last `MDrv_TSP_PidFlt_Enable` since their
allocation turned on. -/
structure Marked where
  drv : DrvTsp
  since : Nat → Bool

inductive EnableCall where
  | alloc (filterType : U32)
  | free (pidFltId : Fin pidFltNumAll)
  | enable (pidFltId : Fin pidFltNumAll) (enable : Bool)

/-- The state after a call for the one engine. -/
def Marked.after (s : Marked) : EnableCall → Marked
  | .alloc filterType =>
      ⟨(pidFltAlloc s.drv 0 filterType).2,
        match (pidFltAlloc s.drv 0 filterType).1 with
        | none => s.since
        | some i => update s.since i false⟩
  | .free pidFltId =>
      ⟨(pidFltFree s.drv 0 pidFltId).2,
        if (pidFltFree s.drv 0 pidFltId).1 then update s.since pidFltId false
        else s.since⟩
  | .enable pidFltId enable =>
      ⟨pidFltEnable s.drv pidFltId enable,
        if s.drv.fltState pidFltId = fltStateFree then s.since
        else update s.since pidFltId enable⟩

/-- All filters free. -/
def Marked.init (s : DrvTsp) : Marked := ⟨s.init, fun _ => false⟩

/-- `E_DRVTSP_FLT_STATE_ENABLE` is set in the state of a filter. -/
def DrvTsp.HasEnable (s : DrvTsp) (i : Nat) : Prop :=
  s.fltState i &&& fltStateEnable ≠ 0

/-- The bit of a filter in `_TspEnable`; those from 32 on have none. -/
def DrvTsp.enableRecord (s : DrvTsp) (i : Nat) : Bool := s.tspEnable.getLsbD i

/-- No word is shifted by its width or more. -/
def ShiftDefined (s : DrvTsp) : EnableCall → Prop
  | .alloc _ => True
  | .free pidFltId => pidFltId.val < 32 ∨ s.fltState pidFltId = fltStateFree
  | .enable pidFltId _ => pidFltId.val < 32

/-- The filter that a call enables, disables or frees. -/
def EnableCall.names : EnableCall → Option Nat
  | .alloc _ => none
  | .free pidFltId => some pidFltId
  | .enable pidFltId _ => some pidFltId

/-- The filters with `ENABLE` are those turned on, those without have no output,
and a call leaves both records of the filters it does not name. -/
structure EnableLaw (s : Marked) (call : EnableCall) : Prop where
  marked : ∀ i < pidFltNumAll,
    (s.after call).drv.HasEnable i ↔ (s.after call).since i = true
  silent : ∀ i < pidFltNumAll, ¬ (s.after call).drv.HasEnable i →
    getFltOutput ((s.after call).drv.pidFlt i) = pidFltOutNone
  others : ∀ i ∈ call.names, ∀ j < pidFltNumAll, j ≠ i →
    ((s.after call).drv.HasEnable j ↔ s.drv.HasEnable j) ∧
      (s.after call).drv.enableRecord j = s.drv.enableRecord j
  shift : ShiftDefined s.drv call

/-- The call names a filter below 32, and if it turns the filter on, then the
filter is held and its bit in `_TspEnable` is not set without `ENABLE`. -/
def InWord (s : Marked) : EnableCall → Prop
  | .alloc _ => True
  | .free pidFltId => pidFltId.val < 32 ∨ s.drv.fltState pidFltId = fltStateFree
  | .enable pidFltId enable =>
      pidFltId.val < 32 ∧ (enable = true →
        s.drv.fltState pidFltId ≠ fltStateFree ∧
          (s.drv.enableRecord pidFltId = true → s.drv.HasEnable pidFltId))

variable {s : DrvTsp} {i j : Nat}

/-! ### Outputs and bits -/

@[simp]
theorem getFltOutput_setPid (reg pid : U32) :
    getFltOutput (setPid reg pid) = getFltOutput reg :=
  store_and_apart (by decide) _ _

@[simp]
theorem getFltOutput_selSecFlt (reg secFltId : U32) :
    getFltOutput (selSecFlt reg secFltId) = getFltOutput reg :=
  store_and_apart (by decide) _ _

@[simp]
theorem getFltOutput_selFltSource (reg fltSource : U32) :
    getFltOutput (selFltSource reg fltSource) = getFltOutput reg :=
  store_and_apart (by decide) _ _

@[simp]
theorem getFltOutput_none (reg : U32) :
    getFltOutput (selFltOutput reg pidFltOutNone) = pidFltOutNone := by
  rw [getFltOutput, selFltOutput, store_and_mask]
  decide

@[simp]
theorem getFltOutput_pidFltInit (reg : U32) :
    getFltOutput (pidFltInit reg) = pidFltOutNone := by
  simp [pidFltInit]

theorem hasEnable_iff : s.HasEnable i ↔ (s.fltState i).getLsbD 1 = true :=
  and_bit_ne_zero (s.fltState i) 1

theorem enableBit_of_lt (small : i < 32) : enableBit i = 1#32 <<< i := by
  rw [enableBit, Nat.mod_eq_of_lt small]
  rfl

theorem and_enableBit (small : i < 32) :
    s.tspEnable &&& enableBit i ≠ 0 ↔ s.enableRecord i = true := by
  rw [enableBit_of_lt small]
  exact and_bit_ne_zero s.tspEnable ⟨i, small⟩

/-! ### What each call does to the records -/

/-- Two states of the driver that differ in the records of one filter only. -/
structure OnlyOf (i : Nat) (s next : DrvTsp) : Prop where
  fltState : ∀ j, j ≠ i → next.fltState j = s.fltState j
  pidFlt : ∀ j, j ≠ i → next.pidFlt j = s.pidFlt j
  enableRecord : ∀ j, j ≠ i → next.enableRecord j = s.enableRecord j

theorem OnlyOf.hasEnable {next : DrvTsp} (only : OnlyOf i s next) (apart : j ≠ i) :
    next.HasEnable j ↔ s.HasEnable j := by
  rw [DrvTsp.HasEnable, DrvTsp.HasEnable, only.fltState j apart]

theorem onlyOf_refl : OnlyOf i s s :=
  ⟨fun _ _ => rfl, fun _ _ => rfl, fun _ _ => rfl⟩

theorem onlyOf_allocated {filterType : U32} : OnlyOf i s (s.allocated filterType i) :=
  ⟨fun _ apart => update_of_ne apart _ _, fun _ apart => update_of_ne apart _ _,
    fun _ _ => rfl⟩

theorem enableRecord_pidFltDisable (small : i < 32) :
    (pidFltDisable s i).enableRecord j = (s.enableRecord j && decide (j ≠ i)) := by
  rw [DrvTsp.enableRecord, pidFltDisable, enableBit_of_lt small]
  by_cases inside : j < 32
  · simpa [DrvTsp.enableRecord] using
      getLsbD_and_not_bit s.tspEnable ⟨i, small⟩ ⟨j, inside⟩
  · have beyond := Nat.le_of_not_lt inside
    simp [DrvTsp.enableRecord, BitVec.getLsbD_of_ge _ _ beyond]

theorem onlyOf_pidFltDisable (small : i < 32) : OnlyOf i s (pidFltDisable s i) :=
  ⟨fun _ apart => update_of_ne apart _ _, fun _ apart => update_of_ne apart _ _,
    fun _ apart => by simp [enableRecord_pidFltDisable small, apart]⟩

theorem onlyOf_released (small : i < 32) :
    OnlyOf i s ((pidFltDisable s i).released i) :=
  have disabled : OnlyOf i s (pidFltDisable s i) := onlyOf_pidFltDisable small
  ⟨fun j apart => (update_of_ne apart _ _).trans (disabled.fltState j apart),
    fun j apart => (update_of_ne apart _ _).trans (disabled.pidFlt j apart),
    disabled.enableRecord⟩

@[simp]
theorem routed_fltState : (s.routed i).fltState = s.fltState := by
  unfold DrvTsp.routed
  dsimp only
  split_ifs <;> rfl

@[simp]
theorem routed_tspEnable : (s.routed i).tspEnable = s.tspEnable := by
  unfold DrvTsp.routed
  dsimp only
  split_ifs <;> rfl

theorem routed_pidFlt_of_ne (apart : j ≠ i) :
    (s.routed i).pidFlt j = s.pidFlt j := by
  unfold DrvTsp.routed
  dsimp only
  split_ifs <;> first | rfl | exact update_of_ne apart _ _

theorem sourced_pidFlt_of_ne (apart : j ≠ i) :
    (s.sourced i).pidFlt j = s.pidFlt j := by
  unfold DrvTsp.sourced
  dsimp only
  split_ifs <;> simp [apart]

/-- A filter that was off is turned on. -/
def DrvTsp.turnedOn (s : DrvTsp) (i : Nat) : DrvTsp :=
  ((s.routed i).sourced i).enabled i

theorem turnedOn_fltState :
    (s.turnedOn i).fltState =
      update s.fltState i (s.fltState i ||| fltStateEnable) := by
  simp [DrvTsp.turnedOn, DrvTsp.enabled, DrvTsp.sourced]

theorem hasEnable_turnedOn : (s.turnedOn i).HasEnable i := by
  rw [hasEnable_iff, turnedOn_fltState]
  simp [fltStateEnable]

theorem turnedOn_held : (s.turnedOn i).fltState i ≠ fltStateFree := by
  intro free
  have flag : (s.turnedOn i).HasEnable i := hasEnable_turnedOn
  rw [hasEnable_iff] at flag
  rw [free] at flag
  cases flag

theorem enableRecord_turnedOn (small : i < 32) :
    (s.turnedOn i).enableRecord j = (s.enableRecord j || decide (j = i)) := by
  have word : (s.turnedOn i).tspEnable = s.tspEnable ||| 1#32 <<< i := by
    rw [← enableBit_of_lt small]
    simp [DrvTsp.turnedOn, DrvTsp.enabled, DrvTsp.sourced]
  rw [DrvTsp.enableRecord, word]
  by_cases inside : j < 32
  · simpa [DrvTsp.enableRecord] using
      getLsbD_or_bit s.tspEnable ⟨i, small⟩ ⟨j, inside⟩
  · have beyond := Nat.le_of_not_lt inside
    have apart : j ≠ i := by omega
    simp [DrvTsp.enableRecord, BitVec.getLsbD_of_ge _ _ beyond, apart]

theorem onlyOf_turnedOn (small : i < 32) : OnlyOf i s (s.turnedOn i) :=
  ⟨fun _ apart => turnedOn_fltState ▸ update_of_ne apart _ _,
    fun _ apart => (sourced_pidFlt_of_ne apart).trans (routed_pidFlt_of_ne apart),
    fun _ apart => by simp [enableRecord_turnedOn small, apart]⟩

/-! ### The invariant of lawful runs -/

/-- `ENABLE` marks the filters turned on and only those have an output; it comes
with the bit in `_TspEnable`, which is set for held filters only. -/
structure Recorded (c : Marked) : Prop where
  marked : ∀ i, c.drv.HasEnable i ↔ c.since i = true
  silent : ∀ i, ¬ c.drv.HasEnable i → getFltOutput (c.drv.pidFlt i) = pidFltOutNone
  record : ∀ i, c.drv.HasEnable i → c.drv.enableRecord i = true
  held : ∀ i, c.drv.enableRecord i = true → c.drv.fltState i ≠ fltStateFree

theorem not_hasEnable_of_eq {state : U32} (here : s.fltState i = state)
    (off : state &&& fltStateEnable = 0) : ¬ s.HasEnable i := by
  rw [DrvTsp.HasEnable, here]
  exact not_not_intro off

theorem recorded_init (s : DrvTsp) : Recorded (.init s) := by
  have state : fltStateFree &&& fltStateEnable = 0 := by decide
  have off : ∀ i, ¬ (Marked.init s).drv.HasEnable i := fun i =>
    not_hasEnable_of_eq rfl state
  constructor
  · exact fun i => iff_of_false (off i) Bool.false_ne_true
  · exact fun i _ => getFltOutput_pidFltInit (s.pidFlt i)
  · exact fun i flag => absurd flag (off i)
  · intro i set
    simp [Marked.init, DrvTsp.init, DrvTsp.enableRecord] at set

/-- `_MDrv_TSP_PidFlt_Free` refuses a filter that is free, and no other. -/
theorem free_cases (c : Marked) (pidFltId : Fin pidFltNumAll) :
    (c.drv.fltState pidFltId = fltStateFree ∧ c.after (.free pidFltId) = c) ∨
      (c.drv.fltState pidFltId ≠ fltStateFree ∧ c.after (.free pidFltId) =
        ⟨(pidFltDisable c.drv pidFltId).released pidFltId,
          update c.since pidFltId false⟩) := by
  have inside := pidFltId.isLt
  rw [Marked.after, pidFltFree]
  by_cases free : c.drv.fltState pidFltId = fltStateFree
  · rw [if_pos (Or.inr (Or.inr free))]
    exact Or.inl ⟨free, rfl⟩
  · have valid : ¬ ((1 : U32) ≤ 0 ∨ pidFltNumAll ≤ pidFltId.val ∨
        c.drv.fltState pidFltId = fltStateFree) := by
      rintro (bad | bad | bad)
      · exact absurd bad (by decide)
      · omega
      · exact free bad
    rw [if_neg valid]
    exact Or.inr ⟨free, rfl⟩

/-- `MDrv_TSP_PidFlt_Enable` does nothing where the bit in `_TspEnable` already
says what is asked. -/
theorem enable_cases (c : Marked) {pidFltId : Fin pidFltNumAll} (enable : Bool)
    (small : pidFltId.val < 32) :
    pidFltEnable c.drv pidFltId enable =
      if c.drv.enableRecord pidFltId = enable then c.drv
      else if enable then c.drv.turnedOn pidFltId
      else pidFltDisable c.drv pidFltId := by
  have bit := and_enableBit (s := c.drv) small
  unfold pidFltEnable
  cases enable with
  | false =>
      cases set : c.drv.enableRecord pidFltId <;> simp_all
  | true =>
      cases set : c.drv.enableRecord pidFltId <;> simp_all [DrvTsp.turnedOn]

namespace Recorded

variable {c : Marked} {next : DrvTsp}

/-- A filter changes alone and ends up off. -/
theorem off (recorded : Recorded c) (only : OnlyOf i c.drv next)
    (flag : ¬ next.HasEnable i)
    (output : getFltOutput (next.pidFlt i) = pidFltOutNone)
    (held : next.enableRecord i = true → next.fltState i ≠ fltStateFree) :
    Recorded ⟨next, update c.since i false⟩ := by
  constructor
  · intro j
    by_cases same : j = i
    · simpa [same] using flag
    · simpa [same, only.hasEnable same] using recorded.marked j
  · intro j silent
    by_cases same : j = i
    · exact same ▸ output
    · rw [only.hasEnable same] at silent
      exact (congrArg getFltOutput (only.pidFlt j same)).trans
        (recorded.silent j silent)
  · intro j set
    have same : j ≠ i := fun equal => flag (equal ▸ set)
    exact (only.enableRecord j same).trans
      (recorded.record j ((only.hasEnable same).mp set))
  · intro j set
    by_cases same : j = i
    · exact same ▸ held (same ▸ set)
    · rw [only.enableRecord j same] at set
      exact (only.fltState j same).symm ▸ recorded.held j set

theorem turnedOn (recorded : Recorded c) (small : i < 32) :
    Recorded ⟨c.drv.turnedOn i, update c.since i true⟩ := by
  have only : OnlyOf i c.drv (c.drv.turnedOn i) := onlyOf_turnedOn small
  constructor
  · intro j
    by_cases same : j = i
    · simpa [same] using hasEnable_turnedOn
    · simpa [same, only.hasEnable same] using recorded.marked j
  · intro j silent
    have same : j ≠ i := fun equal => silent (equal ▸ hasEnable_turnedOn)
    rw [only.hasEnable same] at silent
    exact (congrArg getFltOutput (only.pidFlt j same)).trans
      (recorded.silent j silent)
  · intro j set
    by_cases same : j = i
    · simp [enableRecord_turnedOn small, same]
    · exact (only.enableRecord j same).trans
        (recorded.record j ((only.hasEnable same).mp set))
  · intro j set
    by_cases same : j = i
    · exact same ▸ turnedOn_held
    · rw [only.enableRecord j same] at set
      exact (only.fltState j same).symm ▸ recorded.held j set

theorem not_hasEnable_of_free (recorded : Recorded c)
    (free : c.drv.fltState i = fltStateFree) : ¬ c.drv.HasEnable i :=
  fun flag => recorded.held i (recorded.record i flag) free

theorem after_alloc (recorded : Recorded c) (filterType : U32) :
    Recorded (c.after (.alloc filterType)) := by
  rw [Marked.after]
  cases given : (pidFltAlloc c.drv 0 filterType).1 with
  | none =>
      rw [pidFltAlloc_none given]
      exact recorded
  | some i =>
      rw [pidFltAlloc_some given]
      have state : (c.drv.allocated filterType i).fltState i = fltStateAlloc :=
        by simp [DrvTsp.allocated]
      refine recorded.off onlyOf_allocated (not_hasEnable_of_eq state (by decide)) ?_ ?_
      · simp [DrvTsp.allocated]
      · intro _
        rw [state]
        decide

theorem after_free (recorded : Recorded c) (pidFltId : Fin pidFltNumAll)
    (fits : InWord c (.free pidFltId)) : Recorded (c.after (.free pidFltId)) := by
  rcases free_cases c pidFltId with ⟨_, same⟩ | ⟨taken, freed⟩
  · rw [same]
    exact recorded
  · have small : pidFltId.val < 32 := fits.resolve_right taken
    have state : ((pidFltDisable c.drv pidFltId).released pidFltId).fltState pidFltId =
        fltStateFree := by simp [DrvTsp.released]
    rw [freed]
    refine recorded.off (onlyOf_released small)
      (not_hasEnable_of_eq state (by decide)) ?_ ?_
    · simp [DrvTsp.released]
    · intro set
      have cleared := (enableRecord_pidFltDisable small).symm.trans set
      simp at cleared

theorem after_enable (recorded : Recorded c) {pidFltId : Fin pidFltNumAll}
    {enable : Bool} (fits : InWord c (.enable pidFltId enable)) :
    Recorded (c.after (.enable pidFltId enable)) := by
  obtain ⟨small, turning⟩ := fits
  rw [Marked.after, enable_cases c enable small]
  cases enable with
  | false =>
      have since : c.since pidFltId = false ∨
          c.drv.fltState pidFltId ≠ fltStateFree := by
        by_cases free : c.drv.fltState pidFltId = fltStateFree
        · refine Or.inl (Bool.eq_false_iff.mpr fun flag => ?_)
          exact recorded.not_hasEnable_of_free free ((recorded.marked _).mpr flag)
        · exact Or.inr free
      have same : (if c.drv.fltState pidFltId = fltStateFree then c.since
          else update c.since pidFltId false) = update c.since pidFltId false := by
        by_cases free : c.drv.fltState pidFltId = fltStateFree
        · rw [if_pos free]
          exact (update_eq_self_iff.mpr
            (since.resolve_right (not_not_intro free)).symm).symm
        · rw [if_neg free]
      rw [same]
      by_cases set : c.drv.enableRecord pidFltId = false
      · rw [if_pos set]
        have flag : ¬ c.drv.HasEnable pidFltId := fun flag =>
          Bool.false_ne_true (set.symm.trans (recorded.record _ flag))
        exact recorded.off onlyOf_refl flag (recorded.silent _ flag)
          (recorded.held _)
      · rw [if_neg set, if_neg Bool.false_ne_true]
        have cleared := enableRecord_pidFltDisable (s := c.drv) (j := pidFltId) small
        refine recorded.off (onlyOf_pidFltDisable small) ?_ ?_ ?_
        · simp [DrvTsp.HasEnable, pidFltDisable, BitVec.and_assoc, fltStateEnable]
        · simp [pidFltDisable]
        · intro still
          rw [cleared] at still
          simp at still
  | true =>
      obtain ⟨held, flagged⟩ := turning rfl
      rw [if_neg held]
      by_cases set : c.drv.enableRecord pidFltId = true
      · rw [if_pos set]
        have since := (recorded.marked _).mp (flagged set)
        rw [update_eq_self_iff.mpr since.symm]
        exact recorded
      · rw [if_neg set, if_pos rfl]
        exact recorded.turnedOn small

theorem after_fits (recorded : Recorded c) (call : EnableCall)
    (fits : InWord c call) : Recorded (c.after call) := by
  cases call with
  | alloc filterType => exact recorded.after_alloc filterType
  | free pidFltId => exact recorded.after_free pidFltId fits
  | enable pidFltId enable => exact recorded.after_enable fits

end Recorded

/-- A call that fits changes the records of the filter it names only. -/
theorem onlyOf_after {c : Marked} {call : EnableCall} (fits : InWord c call)
    (named : i ∈ call.names) : OnlyOf i c.drv (c.after call).drv := by
  cases call with
  | alloc filterType => cases named
  | free pidFltId =>
      cases named
      rcases free_cases c pidFltId with ⟨_, same⟩ | ⟨taken, freed⟩
      · rw [same]
        exact onlyOf_refl
      · rw [freed]
        exact onlyOf_released (fits.resolve_right taken)
  | enable pidFltId enable =>
      cases named
      change OnlyOf _ c.drv (pidFltEnable c.drv pidFltId enable)
      rw [enable_cases c enable fits.1]
      split_ifs
      · exact onlyOf_refl
      · exact onlyOf_turnedOn fits.1
      · exact onlyOf_pidFltDisable fits.1

theorem inWord_of_enableLaw {c : Marked} (recorded : Recorded c) {call : EnableCall}
    (law : EnableLaw c call) : InWord c call := by
  cases call with
  | alloc filterType => exact trivial
  | free pidFltId => exact law.shift
  | enable pidFltId enable =>
      have small : pidFltId.val < 32 := law.shift
      refine ⟨small, ?_⟩
      rintro rfl
      have marked := law.marked pidFltId pidFltId.isLt
      simp only [Marked.after, enable_cases c true small] at marked
      constructor
      · intro free
        have off := recorded.not_hasEnable_of_free free
        have unset : c.drv.enableRecord pidFltId ≠ true := fun set =>
          recorded.held _ set free
        rw [if_pos free, if_neg unset, if_true] at marked
        exact off ((recorded.marked _).mpr (marked.mp hasEnable_turnedOn))
      · intro set
        rw [if_pos set] at marked
        rw [marked]
        by_cases free : c.drv.fltState pidFltId = fltStateFree
        · exact absurd free (recorded.held _ set)
        · rw [if_neg free, update_self]

theorem enableLaw_iff {c : Marked} (recorded : Recorded c) (call : EnableCall) :
    EnableLaw c call ↔ InWord c call := by
  refine ⟨inWord_of_enableLaw recorded, fun fits => ?_⟩
  have after := recorded.after_fits call fits
  constructor
  · exact fun i _ => after.marked i
  · exact fun i _ => after.silent i
  · intro i named j _ apart
    have only := onlyOf_after fits named
    exact ⟨only.hasEnable apart, only.enableRecord j apart⟩
  · cases call with
    | alloc filterType => exact trivial
    | free pidFltId => exact fits
    | enable pidFltId enable => exact fits.1

/-- From the state in which all filters are free, all calls of a run keep both
records right if and only if they fit the word. -/
theorem enableRecords_iff (s : DrvTsp) (calls : List EnableCall) :
    Run.Meets Marked.after EnableLaw (.init s) calls ↔
      Run.Meets Marked.after InWord (.init s) calls :=
  Run.meets_congr (fun _ call recorded => enableLaw_iff recorded call)
    (fun _ call recorded law =>
      recorded.after_fits call (inWord_of_enableLaw recorded law))
    (recorded_init s)

/-- A filter for recording is not turned on while filter 0 is. -/
theorem recording_not_enabled :
    ¬ ∀ (s : DrvTsp) (calls : List EnableCall),
      Run.Meets Marked.after EnableLaw (.init s) calls := by
  intro always
  have run := always ⟨fun _ => 0, fun _ => 0, fun _ => 0, 0, fun _ => 0, fun _ => 0,
    fun _ => 0, []⟩
    [.alloc fltTypeSection, .alloc fltTypePvr, .enable ⟨0, by decide⟩ true,
      .enable ⟨32, by decide⟩ true]
  have marked := run.2.2.2.1.marked 32 (by decide)
  rw [hasEnable_iff] at marked
  revert marked
  decide +kernel

end Gp2Firmware.Tsp
