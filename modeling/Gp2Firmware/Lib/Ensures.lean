import Mathlib.Tactic.Common

/-!
# Pre- and postconditions of partial programs

A program over a state that may not come to an end `Ensures` a postcondition from the states
with a precondition: whenever it comes to an end, its result and its last state are as the
postcondition says.  It `Achieves` the postcondition if it comes to an end as well.
-/

namespace Gp2Firmware.Lib

variable {σ α β : Type}

def Ensures (pre : σ → Prop) (m : StateT σ Option α) (post : α → σ → Prop) : Prop :=
  ∀ s a t, pre s → m s = some (a, t) → post a t

variable {pre : σ → Prop} {m other : StateT σ Option α} {post middle : α → σ → Prop}

theorem ensures_pure {a : α} (here : ∀ s, pre s → post a s) :
    Ensures pre (pure a : StateT σ Option α) post := by
  intro s b t holds ran
  obtain ⟨rfl, rfl⟩ := Prod.mk.inj (Option.some.inj ran)
  exact here s holds

theorem ensures_modify {f : σ → σ} {post : PUnit → σ → Prop}
    (here : ∀ s, pre s → post () (f s)) :
    Ensures pre (modify f : StateT σ Option PUnit) post := by
  intro s b t holds ran
  obtain ⟨rfl, rfl⟩ := Prod.mk.inj (Option.some.inj ran)
  exact here s holds

theorem Ensures.bind {rest : α → StateT σ Option β} {post : β → σ → Prop}
    (first : Ensures pre m middle) (later : ∀ a, Ensures (middle a) (rest a) post) :
    Ensures pre (m >>= rest) post := by
  intro s b u holds ran
  obtain ⟨⟨a, t⟩, ranFirst, ranLater⟩ := Option.bind_eq_some_iff.mp ran
  exact later a t b u (first s a t holds ranFirst) ranLater

theorem ensures_modify_bind {f : σ → σ} {rest : PUnit → StateT σ Option β}
    {post : β → σ → Prop} (between : σ → Prop) (here : ∀ s, pre s → between (f s))
    (later : Ensures between (rest ()) post) : Ensures pre (modify f >>= rest) post :=
  Ensures.bind (ensures_modify here) fun _ => later

theorem run_get_bind {rest : σ → StateT σ Option β} {s : σ} :
    (get >>= rest : StateT σ Option β) s = rest s s :=
  rfl

/-- What is read of the state holds of it behind as well. -/
theorem ensures_get_bind {rest : σ → StateT σ Option β} {post : β → σ → Prop}
    (later : ∀ s, pre s → Ensures (· = s) (rest s) post) : Ensures pre (get >>= rest) post := by
  intro s b u holds ran
  exact later s holds s b u rfl ran

theorem Ensures.ite {p : Prop} [Decidable p] (yes : p → Ensures pre m post)
    (no : ¬ p → Ensures pre other post) : Ensures pre (if p then m else other) post := by
  split
  · rename_i holds
    exact yes holds
  · rename_i fails
    exact no fails

/-- What a program comes to behind a precondition that is stronger, with a postcondition that
is weaker. -/
theorem Ensures.imp {stronger : σ → Prop} {weaker : α → σ → Prop} (ensures : Ensures pre m post)
    (before : ∀ s, stronger s → pre s) (behind : ∀ a s, post a s → weaker a s) :
    Ensures stronger m weaker := by
  intro s a t holds ran
  exact behind a t (ensures s a t (before s holds) ran)

/-- What is known of the state is all that matters. -/
theorem Ensures.at {s : σ} (holds : pre s) (later : Ensures pre m post) :
    Ensures (· = s) m post := by
  intro t a u same ran
  exact later t a u (same ▸ holds) ran

theorem Ensures.fact {fact : Prop} (later : fact → Ensures pre m post) :
    Ensures (fun s => fact ∧ pre s) m post :=
  fun s a t holds ran => later holds.1 s a t holds.2 ran

theorem Ensures.some {ι : Sort*} {pre : ι → σ → Prop} (later : ∀ i, Ensures (pre i) m post) :
    Ensures (fun s => ∃ i, pre i s) m post := by
  intro s a t ⟨i, holds⟩ ran
  exact later i s a t holds ran

section Achieves

def Achieves (pre : σ → Prop) (m : StateT σ Option α) (post : α → σ → Prop) : Prop :=
  ∀ s, pre s → ∃ a t, m s = some (a, t) ∧ post a t

theorem Achieves.ensures (achieves : Achieves pre m post) : Ensures pre m post := by
  intro s a t holds ran
  obtain ⟨b, u, comes, behind⟩ := achieves s holds
  rw [ran, Option.some.injEq, Prod.mk.injEq] at comes
  obtain ⟨rfl, rfl⟩ := comes
  exact behind

theorem Achieves.imp {stronger : σ → Prop} {weaker : α → σ → Prop}
    (achieves : Achieves pre m post) (before : ∀ s, stronger s → pre s)
    (behind : ∀ a s, post a s → weaker a s) : Achieves stronger m weaker := by
  intro s holds
  obtain ⟨a, t, ran, here⟩ := achieves s (before s holds)
  exact ⟨a, t, ran, behind a t here⟩

theorem achieves_pure {a : α} (here : ∀ s, pre s → post a s) :
    Achieves pre (pure a : StateT σ Option α) post :=
  fun s holds => ⟨a, s, rfl, here s holds⟩

theorem achieves_modify {f : σ → σ} {post : PUnit → σ → Prop}
    (here : ∀ s, pre s → post () (f s)) :
    Achieves pre (modify f : StateT σ Option PUnit) post :=
  fun s holds => ⟨(), f s, rfl, here s holds⟩

theorem Achieves.bind {rest : α → StateT σ Option β} {post : β → σ → Prop}
    (first : Achieves pre m middle) (later : ∀ a, Achieves (middle a) (rest a) post) :
    Achieves pre (m >>= rest) post := by
  intro s holds
  obtain ⟨a, t, ranFirst, between⟩ := first s holds
  obtain ⟨b, u, ranLater, behind⟩ := later a t between
  exact ⟨b, u, Option.bind_eq_some_iff.mpr ⟨(a, t), ranFirst, ranLater⟩, behind⟩

theorem achieves_get_bind {rest : σ → StateT σ Option β} {post : β → σ → Prop}
    (later : ∀ s, pre s → Achieves (· = s) (rest s) post) : Achieves pre (get >>= rest) post :=
  fun s holds => later s holds s rfl

theorem Achieves.ite {p : Prop} [Decidable p] (yes : p → Achieves pre m post)
    (no : ¬ p → Achieves pre other post) : Achieves pre (if p then m else other) post := by
  split
  · rename_i holds
    exact yes holds
  · rename_i fails
    exact no fails

theorem Achieves.at {s : σ} (holds : pre s) (later : Achieves pre m post) :
    Achieves (· = s) m post :=
  fun t same => later t (same ▸ holds)

theorem Achieves.fact {fact : Prop} (later : fact → Achieves pre m post) :
    Achieves (fun s => fact ∧ pre s) m post :=
  fun s holds => later holds.1 s holds.2

theorem Achieves.some {ι : Sort*} {pre : ι → σ → Prop} (later : ∀ i, Achieves (pre i) m post) :
    Achieves (fun s => ∃ i, pre i s) m post :=
  fun s ⟨i, holds⟩ => later i s holds

end Achieves

end Gp2Firmware.Lib
