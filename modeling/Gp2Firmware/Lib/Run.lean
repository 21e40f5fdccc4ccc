import Mathlib.Data.List.Basic

/-!
# Runs under a condition

A run takes events one after the other.  A condition on single steps speaks
about an event and the state before it; `Run.Meets` asks it of every step of a
run, and `Run.Meets.keeps` is the induction over such runs.
-/

namespace Gp2Firmware.Run

variable {State Event : Type*}

/-- Every step of a run meets a condition. -/
def Meets (step : State → Event → State) (condition : State → Event → Prop) :
    State → List Event → Prop
  | _, [] => True
  | s, event :: rest =>
      condition s event ∧ Meets step condition (step s event) rest

instance decidableMeets (step : State → Event → State)
    (condition : State → Event → Prop)
    [decide : ∀ s event, Decidable (condition s event)] :
    ∀ s events, Decidable (Meets step condition s events)
  | _, [] => .isTrue trivial
  | s, event :: rest =>
      have := decidableMeets step condition (step s event) rest
      inferInstanceAs (Decidable (_ ∧ _))

variable {step : State → Event → State} {condition : State → Event → Prop}

/-- What every such step keeps holds after such a run. -/
theorem Meets.keeps {holds : State → Prop}
    (kept : ∀ s event, holds s → condition s event → holds (step s event))
    {s : State} {events : List Event} (meets : Meets step condition s events)
    (here : holds s) : holds (events.foldl step s) := by
  induction events generalizing s with
  | nil => exact here
  | cons event rest inductionHypothesis =>
      exact inductionHypothesis meets.2 (kept s event here meets.1)

theorem meets_append {s : State} {before after : List Event} :
    Meets step condition s (before ++ after) ↔
      Meets step condition s before ∧
        Meets step condition (before.foldl step s) after := by
  induction before generalizing s with
  | nil => exact (and_iff_right trivial).symm
  | cons event rest inductionHypothesis =>
      rw [List.cons_append, Meets, Meets, inductionHypothesis, and_assoc,
        List.foldl_cons]

/-- Two conditions on the steps of a run, here and in an image of the run, that say
the same wherever an invariant holds that the first one keeps. -/
theorem meets_iff_of_invariant {Image : Type*} {imageStep : Image → Event → Image}
    {imageCondition : Image → Event → Prop} (image : State → Image)
    {invariant : State → Prop}
    (commutes : ∀ s event, image (step s event) = imageStep (image s) event)
    (same : ∀ s event, invariant s →
      (condition s event ↔ imageCondition (image s) event))
    (kept : ∀ s event, invariant s → condition s event → invariant (step s event))
    {s : State} {events : List Event} (here : invariant s) :
    Meets step condition s events ↔
      Meets imageStep imageCondition (image s) events := by
  induction events generalizing s with
  | nil => exact Iff.rfl
  | cons event rest inductionHypothesis =>
      constructor
      · rintro ⟨first, later⟩
        refine ⟨(same s event here).mp first, ?_⟩
        rw [← commutes]
        exact (inductionHypothesis (kept s event here first)).mp later
      · rintro ⟨first, later⟩
        have now := (same s event here).mpr first
        rw [← commutes] at later
        exact ⟨now, (inductionHypothesis (kept s event here now)).mpr later⟩

/-- Two conditions on the steps of a run that say the same wherever an invariant
holds that the first one keeps. -/
theorem meets_congr {other : State → Event → Prop} {invariant : State → Prop}
    (same : ∀ s event, invariant s → (condition s event ↔ other s event))
    (kept : ∀ s event, invariant s → condition s event → invariant (step s event))
    {s : State} {events : List Event} (here : invariant s) :
    Meets step condition s events ↔ Meets step other s events :=
  @meets_iff_of_invariant _ _ step condition _ step other id invariant
    (fun _ _ => rfl) same kept s events here

/-- A condition on the steps of a run that implies another one wherever an invariant
holds that it keeps. -/
theorem Meets.imp {other : State → Event → Prop} {invariant : State → Prop}
    (implies : ∀ s event, invariant s → condition s event → other s event)
    (kept : ∀ s event, invariant s → condition s event → invariant (step s event))
    {s : State} {events : List Event} (meets : Meets step condition s events)
    (here : invariant s) : Meets step other s events := by
  induction events generalizing s with
  | nil => trivial
  | cons event rest inductionHypothesis =>
      exact ⟨implies s event here meets.1,
        inductionHypothesis meets.2 (kept s event here meets.1)⟩

theorem Meets.mono {other : State → Event → Prop}
    (implies : ∀ s event, condition s event → other s event) {s : State}
    {events : List Event} (meets : Meets step condition s events) :
    Meets step other s events := by
  induction events generalizing s with
  | nil => trivial
  | cons event rest inductionHypothesis =>
      exact ⟨implies s event meets.1, inductionHypothesis meets.2⟩

/-- What holds behind a run if a step keeps it under a condition and only then. -/
theorem foldl_iff_meets {holds : State → Prop}
    (turn : ∀ s event, holds (step s event) ↔ holds s ∧ condition s event)
    (events : List Event) (s : State) :
    holds (events.foldl step s) ↔ holds s ∧ Meets step condition s events := by
  induction events generalizing s with
  | nil => exact (and_iff_left trivial).symm
  | cons event rest inductionHypothesis =>
      rw [List.foldl_cons, inductionHypothesis, turn, Meets, and_assoc]

/-- A part of a condition that speaks about the events alone. -/
theorem meets_and {fixed : Event → Prop} {s : State} {events : List Event} :
    Meets step (fun s event => fixed event ∧ condition s event) s events ↔
      (∀ event ∈ events, fixed event) ∧ Meets step condition s events := by
  induction events generalizing s with
  | nil => simp [Meets]
  | cons event rest inductionHypothesis =>
      rw [Meets, inductionHypothesis, Meets, List.forall_mem_cons, and_and_and_comm]

/-- A condition that speaks about the events alone. -/
theorem meets_forall_iff {fixed : Event → Prop} {s : State} {events : List Event} :
    Meets step (fun _ event => fixed event) s events ↔ ∀ event ∈ events, fixed event := by
  induction events generalizing s with
  | nil => simp [Meets]
  | cons event rest inductionHypothesis =>
      rw [Meets, inductionHypothesis, List.forall_mem_cons]

/-- What the steps of a run put out. -/
def outputs {Output : Type*} (step : State → Event → State)
    (output : State → Event → List Output) : State → List Event → List Output
  | _, [] => []
  | s, event :: rest => output s event ++ outputs step output (step s event) rest

/-- All that a run puts out meets a rule if all that each of its steps puts out does. -/
theorem forall_mem_outputs_iff {Output : Type*} {output : State → Event → List Output}
    {rule : Output → Prop} {s : State} {events : List Event} :
    (∀ o ∈ outputs step output s events, rule o) ↔
      Meets step (fun s event => ∀ o ∈ output s event, rule o) s events := by
  induction events generalizing s with
  | nil => simp [outputs, Meets]
  | cons event rest inductionHypothesis =>
      rw [outputs, List.forall_mem_append, inductionHypothesis, Meets]

/-- A run of steps that may leave more than one state, all of which meet a
condition. -/
inductive Steps (step : State → Event → State → Prop)
    (condition : State → Event → Prop) : State → List Event → State → Prop where
  | nil (s : State) : Steps step condition s [] s
  | cons {s next last : State} {event : Event} {rest : List Event} :
      condition s event → step s event next → Steps step condition next rest last →
      Steps step condition s (event :: rest) last

/-- A run of calls that all return. -/
theorem steps_of_meets {call : State → Event → Option State}
    {condition : State → Event → Prop} {s : State} {events : List Event}
    (meets : Meets (fun s event => (call s event).getD s)
      (fun s event => condition s event ∧ (call s event).isSome) s events) :
    Steps (fun s event next => call s event = some next) condition s events
      (events.foldl (fun s event => (call s event).getD s) s) := by
  induction events generalizing s with
  | nil => exact .nil s
  | cons event rest inductionHypothesis =>
      obtain ⟨⟨met, returns⟩, later⟩ := meets
      obtain ⟨next, returned⟩ := Option.isSome_iff_exists.mp returns
      simp only [returned, Option.getD_some] at later
      simp only [List.foldl_cons, returned, Option.getD_some]
      exact .cons met returned (inductionHypothesis later)

/-- What every such step keeps holds after such a run. -/
theorem Steps.keeps {step : State → Event → State → Prop}
    {condition : State → Event → Prop} {holds : State → Prop}
    (kept : ∀ s event next, holds s → condition s event → step s event next →
      holds next)
    {s last : State} {events : List Event} (run : Steps step condition s events last)
    (here : holds s) : holds last := by
  induction run with
  | nil => exact here
  | cons met stepped _ inductionHypothesis =>
      exact inductionHypothesis (kept _ _ _ here met stepped)

/-- A run leads from one state to the other. -/
def Reaches (step : State → Event → State) (s last : State) : Prop :=
  ∃ events : List Event, events.foldl step s = last

namespace Reaches

variable {s next last : State}

theorem refl (step : State → Event → State) (s : State) : Reaches step s s := ⟨[], rfl⟩

theorem trans (first : Reaches step s next) (second : Reaches step next last) :
    Reaches step s last := by
  obtain ⟨before, reached⟩ := first
  obtain ⟨after, final⟩ := second
  exact ⟨before ++ after, by rw [List.foldl_append, reached, final]⟩

theorem single (step : State → Event → State) (s : State) (event : Event) :
    Reaches step s (step s event) := ⟨[event], rfl⟩

/-- What every step keeps holds in the states that are reached. -/
theorem keeps {holds : State → Prop}
    (kept : ∀ s event, holds s → holds (step s event))
    (reached : Reaches step s last) (here : holds s) : holds last := by
  obtain ⟨events, rfl⟩ := reached
  induction events generalizing s with
  | nil => exact here
  | cons event rest inductionHypothesis => exact inductionHypothesis (kept s event here)

end Reaches

end Gp2Firmware.Run
