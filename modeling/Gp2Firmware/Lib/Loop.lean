import Mathlib.Logic.Function.Basic

/-!
# Loops that leave from the middle

A loop `while (1) { … }` as a turn function: a turn goes on with a new state
or leaves with a result.  `run` carries out a bounded number of turns; a loop
returns a result if some number of turns is enough for it.
-/

namespace Gp2Firmware.Lib.Loop

variable {σ β : Type*}

/-- The loop, given up after a number of turns. -/
def run (turn : σ → σ ⊕ β) : Nat → σ → Option β
  | 0, _ => none
  | turns + 1, state =>
      match turn state with
      | .inl next => run turn turns next
      | .inr result => some result

/-- The number of turns that are carried out. -/
def count (turn : σ → σ ⊕ β) : Nat → σ → Nat
  | 0, _ => 0
  | turns + 1, state =>
      match turn state with
      | .inl next => count turn turns next + 1
      | .inr _ => 1

/-- Some turns lead from one state to another one. -/
def Goes (turn : σ → σ ⊕ β) (turns : Nat) (state next : σ) : Prop :=
  ∀ more, run turn (turns + more) state = run turn more next

/-- The loop leaves with a result. -/
def Returns (turn : σ → σ ⊕ β) (state : σ) (result : β) : Prop :=
  ∃ turns, run turn turns state = some result

/-- The loop leaves. -/
def Terminates (turn : σ → σ ⊕ β) (state : σ) : Prop :=
  ∃ result, Returns turn state result

variable {turn : σ → σ ⊕ β} {state next : σ} {result : β}

theorem run_of_leaves (leaves : turn state = .inr result) (turns : Nat) :
    run turn (turns + 1) state = some result := by
  rw [run, leaves]

theorem run_of_goes (goes : turn state = .inl next) (turns : Nat) :
    run turn (turns + 1) state = run turn turns next := by
  rw [run, goes]

theorem count_of_leaves (leaves : turn state = .inr result) (turns : Nat) :
    count turn (turns + 1) state = 1 := by
  rw [count, leaves]

theorem count_of_goes (goes : turn state = .inl next) (turns : Nat) :
    count turn (turns + 1) state = count turn turns next + 1 := by
  rw [count, goes]

theorem goes_of_turn (goes : turn state = .inl next) : Goes turn 1 state next := by
  intro more
  rw [Nat.add_comm, run_of_goes goes]

theorem goes_refl : Goes turn 0 state state := by
  intro more
  rw [Nat.zero_add]

theorem Goes.trans {first second : Nat} {last : σ} (here : Goes turn first state next)
    (there : Goes turn second next last) : Goes turn (first + second) state last := by
  intro more
  rw [Nat.add_assoc, here, there]

theorem returns_of_leaves (leaves : turn state = .inr result) :
    Returns turn state result :=
  ⟨1, run_of_leaves leaves 0⟩

/-- A turn that goes on does not change what the loop returns. -/
theorem returns_iff_of_goes (goes : turn state = .inl next) :
    Returns turn state result ↔ Returns turn next result := by
  constructor
  · intro returns
    obtain ⟨turns, ran⟩ := returns
    cases turns with
    | zero => cases ran
    | succ turns =>
        rw [run_of_goes goes] at ran
        exact ⟨turns, ran⟩
  · intro returns
    obtain ⟨turns, ran⟩ := returns
    refine ⟨turns + 1, ?_⟩
    rw [run_of_goes goes]
    exact ran

/-- More turns do not change the result. -/
theorem run_add {turns : Nat} (ran : run turn turns state = some result)
    (more : Nat) : run turn (turns + more) state = some result := by
  induction turns generalizing state with
  | zero => cases ran
  | succ turns inductionHypothesis =>
      rw [Nat.succ_add]
      cases step : turn state with
      | inl next =>
          rw [run_of_goes step] at ran ⊢
          exact inductionHypothesis ran
      | inr left =>
          rw [run_of_leaves step] at ran ⊢
          exact ran

/-- A loop returns one result at most. -/
theorem returns_unique {other : β}
    (first : Returns turn state result) (second : Returns turn state other) :
    result = other := by
  obtain ⟨turns, ran⟩ := first
  obtain ⟨more, ranOther⟩ := second
  have long := run_add ran more
  have longOther := run_add ranOther turns
  rw [Nat.add_comm] at longOther
  exact Option.some.inj (long.symm.trans longOther)

/-- What holds on entry and is kept by every turn that goes on holds at the
turn that leaves. -/
theorem returns_rule {holds : σ → Prop}
    (keeps : ∀ {state next}, holds state → turn state = .inl next → holds next)
    (start : holds state) (returns : Returns turn state result) :
    ∃ last, holds last ∧ turn last = .inr result := by
  obtain ⟨turns, ran⟩ := returns
  induction turns generalizing state with
  | zero => cases ran
  | succ turns inductionHypothesis =>
      cases step : turn state with
      | inl next =>
          rw [run_of_goes step] at ran
          exact inductionHypothesis (keeps start step) ran
      | inr left =>
          rw [run_of_leaves step] at ran
          refine ⟨state, start, ?_⟩
          rw [step, Option.some.inj ran]

/-- A loop that can always go on, and stays where it can, never leaves. -/
theorem not_terminates {stuck : σ → Prop}
    (stays : ∀ {state}, stuck state → ∃ next, turn state = .inl next ∧ stuck next)
    (start : stuck state) : ¬ Terminates turn state := by
  intro terminates
  obtain ⟨result, returns⟩ := terminates
  have keeps : ∀ {state next}, stuck state → turn state = .inl next →
      stuck next := by
    intro state next here step
    obtain ⟨other, goes, there⟩ := stays here
    rw [step, Sum.inl.injEq] at goes
    rwa [goes]
  obtain ⟨last, here, leaves⟩ := returns_rule keeps start returns
  obtain ⟨next, goes, _⟩ := stays here
  rw [goes] at leaves
  cases leaves

theorem terminates_of_leaves (leaves : turn state = .inr result) :
    Terminates turn state :=
  ⟨result, returns_of_leaves leaves⟩

theorem terminates_iff_of_goes (goes : turn state = .inl next) :
    Terminates turn state ↔ Terminates turn next :=
  exists_congr fun _ => returns_iff_of_goes goes

section Simulation

variable {τ γ : Type*} {abstractTurn : τ → τ ⊕ γ} {holds : σ → Prop}
  {view : σ → τ} {out : β → γ}

/-- A loop that an abstract loop follows turn by turn leaves whenever the
abstract one does, and only then. -/
theorem terminates_iff_of_simulation
    (keeps : ∀ {state next}, holds state → turn state = .inl next → holds next)
    (follows : ∀ {state}, holds state →
      abstractTurn (view state) = (turn state).map view out)
    (start : holds state) :
    Terminates turn state ↔ Terminates abstractTurn (view state) := by
  constructor
  · intro terminates
    obtain ⟨result, turns, ran⟩ := terminates
    refine ⟨out result, turns, ?_⟩
    induction turns generalizing state with
    | zero => cases ran
    | succ turns inductionHypothesis =>
        have followed := follows start
        cases step : turn state with
        | inl next =>
            rw [step, Sum.map_inl] at followed
            rw [run_of_goes step] at ran
            rw [run_of_goes followed]
            exact inductionHypothesis (keeps start step) ran
        | inr left =>
            rw [step, Sum.map_inr] at followed
            rw [run_of_leaves step, Option.some.injEq] at ran
            rw [run_of_leaves followed, ran]
  · intro terminates
    obtain ⟨abstractResult, turns, ran⟩ := terminates
    induction turns generalizing state with
    | zero => cases ran
    | succ turns inductionHypothesis =>
        have followed := follows start
        cases step : turn state with
        | inl next =>
            rw [step, Sum.map_inl] at followed
            rw [run_of_goes followed] at ran
            rw [terminates_iff_of_goes step]
            exact inductionHypothesis (keeps start step) ran
        | inr left => exact terminates_of_leaves step

end Simulation

end Gp2Firmware.Lib.Loop
