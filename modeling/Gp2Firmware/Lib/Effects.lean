import Mathlib.Tactic.Common

/-!
# Programs that take notes

A program changes a state and may not come to an end.  What it does to the state
is described together with the notes that it takes on the way: effects say which
changes go with which notes, and a program `Takes` the notes that are allowed
with its result.
-/

namespace Gp2Firmware.Lib

variable {σ ν α β : Type}

/-- The changes that go with some notes: none with no notes, and one behind the other. -/
structure Effects (σ ν : Type) where
  does : σ → List ν → σ → Prop
  refl : ∀ s, does s [] s
  trans : ∀ {s t u first second},
    does s first t → does t second u → does s (first ++ second) u

namespace Effects

variable {effects : Effects σ ν} {m : StateT σ Option α} {rest : α → StateT σ Option β}
  {before allowed : α → List ν → Prop} {behind : β → List ν → Prop}

/-- Whenever the program comes to an end, it has taken notes that are allowed with its
result. -/
def Takes (effects : Effects σ ν) (m : StateT σ Option α) (allowed : α → List ν → Prop) : Prop :=
  ∀ s a t, m s = some (a, t) → ∃ notes, effects.does s notes t ∧ allowed a notes

/-- A program that takes no notes. -/
def Silent (effects : Effects σ ν) (m : StateT σ Option α) : Prop :=
  effects.Takes m fun _ notes => notes = []

theorem Takes.imp (takes : effects.Takes m before)
    (implies : ∀ a notes, before a notes → allowed a notes) : effects.Takes m allowed := by
  intro s a t ran
  obtain ⟨notes, does, here⟩ := takes s a t ran
  exact ⟨notes, does, implies a notes here⟩

theorem takes_pure {a : α} (none : allowed a []) : effects.Takes (pure a) allowed := by
  intro s b t ran
  change some (a, s) = some (b, t) at ran
  rw [Option.some.injEq, Prod.mk.injEq] at ran
  obtain ⟨rfl, rfl⟩ := ran
  exact ⟨[], effects.refl s, none⟩

/-- A program behind another one; its notes come behind those that are taken already. -/
theorem Takes.bind (takes : effects.Takes m before)
    (later : ∀ a first, before a first →
      effects.Takes (rest a) fun b notes => behind b (first ++ notes)) :
    effects.Takes (m >>= rest) behind := by
  intro s b u ran
  simp only [Bind.bind, StateT.bind, Option.bind_eq_some_iff] at ran
  obtain ⟨⟨a, t⟩, ranFirst, ranLater⟩ := ran
  obtain ⟨first, doesFirst, here⟩ := takes s a t ranFirst
  obtain ⟨second, doesSecond, there⟩ := later a first here t b u ranLater
  exact ⟨first ++ second, effects.trans doesFirst doesSecond, there⟩

theorem silent_pure {a : α} : effects.Silent (pure a) := by
  apply takes_pure
  exact Eq.refl []

theorem Silent.bind (silent : effects.Silent m) (later : ∀ a, effects.Takes (rest a) behind) :
    effects.Takes (m >>= rest) behind := by
  apply Takes.bind silent
  intro a first none
  subst none
  exact later a

/-- A program that never comes to an end. -/
theorem takes_fails (fails : ∀ s, m s = none) : effects.Takes m allowed := by
  intro s a t ran
  rw [fails] at ran
  cases ran

/-- A program that does what it may do, whatever the notes are. -/
def Keeps (effects : Effects σ ν) (m : StateT σ Option α) : Prop :=
  effects.Takes m fun _ _ => True

theorem Takes.keeps (takes : effects.Takes m before) : effects.Keeps m :=
  takes.imp fun _ _ _ => trivial

theorem Keeps.bind (keeps : effects.Keeps m) (later : ∀ a, effects.Keeps (rest a)) :
    effects.Keeps (m >>= rest) := by
  apply Takes.bind keeps
  intro a first _
  exact later a

theorem keeps_pure {a : α} : effects.Keeps (pure a) :=
  takes_pure trivial

theorem silent_get : effects.Silent (get : StateT σ Option σ) := by
  intro s a t ran
  obtain ⟨rfl, rfl⟩ : s = a ∧ s = t := by simpa [get, getThe, MonadStateOf.get, StateT.get,
    pure] using ran
  exact ⟨[], effects.refl s, rfl⟩

theorem silent_modify {change : σ → σ} (does : ∀ s, effects.does s [] (change s)) :
    effects.Silent (modify change : StateT σ Option PUnit) := by
  intro s a t ran
  obtain rfl : change s = t := by simpa [modify, modifyGet, MonadStateOf.modifyGet,
    StateT.modifyGet, pure] using ran
  exact ⟨[], does s, rfl⟩

end Effects

end Gp2Firmware.Lib
