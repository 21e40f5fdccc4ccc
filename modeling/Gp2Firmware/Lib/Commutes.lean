import Mathlib.Tactic.Common

/-!
# Programs that do not see a change

A program `Commutes` with a change of the state if it does the same in a changed state and
leaves the change behind: it neither reads nor writes what is changed.
-/

namespace Gp2Firmware.Lib

variable {σ α β : Type} {change : σ → σ}

def Commutes (change : σ → σ) (m : StateT σ Option α) : Prop :=
  ∀ s, m (change s) = (m s).map fun result => (result.1, change result.2)

theorem commutes_pure {a : α} : Commutes change (pure a : StateT σ Option α) := by
  intro s
  rfl

theorem commutes_modify {f : σ → σ} (same : ∀ s, f (change s) = change (f s)) :
    Commutes change (modify f : StateT σ Option PUnit) := by
  intro s
  change some ((), f (change s)) = some ((), change (f s))
  rw [same]

theorem Commutes.bind {m : StateT σ Option α} {rest : α → StateT σ Option β}
    (first : Commutes change m) (later : ∀ a, Commutes change (rest a)) :
    Commutes change (m >>= rest) := by
  intro s
  change (m (change s)).bind _ = ((m s).bind _).map _
  rw [first s]
  cases m s with
  | none => rfl
  | some result => exact later result.1 result.2

/-- The state is read, but not what is changed. -/
theorem commutes_get_bind {rest : σ → StateT σ Option β} (same : ∀ s, rest (change s) = rest s)
    (later : ∀ s, Commutes change (rest s)) : Commutes change (get >>= rest) := by
  intro s
  change rest (change s) (change s) = (rest s s).map _
  rw [same]
  exact later s s

theorem Commutes.ite {p : Prop} [Decidable p] {m other : StateT σ Option α}
    (yes : Commutes change m) (no : Commutes change other) :
    Commutes change (if p then m else other) := by
  split
  · exact yes
  · exact no

/-- The result behind a change, and that in front of it. -/
theorem Commutes.some_iff {m : StateT σ Option α} (commutes : Commutes change m) {s : σ} {a : α}
    {t : σ} : m (change s) = some (a, t) ↔ ∃ u, m s = some (a, u) ∧ t = change u := by
  rw [commutes s, Option.map_eq_some_iff]
  constructor
  · intro ⟨result, ran, same⟩
    obtain ⟨rfl, rfl⟩ := Prod.mk.inj same
    exact ⟨result.2, ran, rfl⟩
  · intro ⟨u, ran, same⟩
    exact ⟨(a, u), ran, by rw [same]⟩

end Gp2Firmware.Lib
