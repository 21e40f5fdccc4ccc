import Mathlib.Data.Nat.Basic

/-!
# Scans that keep one place

A scan goes over the places from 0 on and keeps a candidate until a later one is
better.  If being better is transitive, the place that is kept is the last
*record*: a candidate that is better than every record before it.
-/

namespace Gp2Firmware.Lib.BestScan

section Definitions

variable (candidate : Nat → Prop) (better : Nat → Nat → Prop)

/-- What a scan over a number of places keeps. -/
def scan [DecidablePred candidate] [DecidableRel better] : Nat → Option Nat
  | 0 => none
  | place + 1 =>
      match scan place with
      | none => if candidate place then some place else none
      | some best => if candidate place ∧ better place best then some place else some best

/-- A candidate that is better than every record before it. -/
def IsRecord (place : Nat) : Prop :=
  candidate place ∧ ∀ before, before < place → IsRecord before → better place before
termination_by place

/-- No later place up to a bound is a record. -/
def IsLastRecord (bound place : Nat) : Prop :=
  place < bound ∧ IsRecord candidate better place ∧
    ∀ other < bound, IsRecord candidate better other → other ≤ place

end Definitions

variable {candidate : Nat → Prop} {better beats : Nat → Nat → Prop} {bound place best : Nat}

theorem isRecord_iff :
    IsRecord candidate better place ↔
      candidate place ∧
        ∀ before < place, IsRecord candidate better before → better place before := by
  rw [IsRecord]

theorem IsLastRecord.unique {other : Nat} (last : IsLastRecord candidate better bound place)
    (same : IsLastRecord candidate better bound other) : place = other :=
  Nat.le_antisymm (same.2.2 place last.1 last.2.1) (last.2.2 other same.1 same.2.1)

variable [DecidablePred candidate] [DecidableRel better]

/-- The induction over a scan that keeps a place. -/
theorem scan_induction {holds : Nat → Nat → Prop}
    (first : ∀ place, (∀ i < place, ¬ candidate i) → candidate place → holds (place + 1) place)
    (passes : ∀ place best, holds place best → (candidate place → ¬ better place best) →
      holds (place + 1) best)
    (takes : ∀ place best, holds place best → candidate place → better place best →
      holds (place + 1) place)
    (bound : Nat) :
    (scan candidate better bound = none ∧ ∀ i < bound, ¬ candidate i) ∨
      ∃ best, scan candidate better bound = some best ∧ holds bound best := by
  induction bound with
  | zero => simp [scan]
  | succ bound inductionHypothesis =>
      obtain ⟨empty, without⟩ | ⟨best, found, held⟩ := inductionHypothesis
      · by_cases here : candidate bound
        · exact Or.inr ⟨bound, by simp [scan, empty, here], first bound without here⟩
        · refine Or.inl ⟨by simp [scan, empty, here], fun i small => ?_⟩
          obtain before | rfl := Nat.lt_succ_iff_lt_or_eq.mp small
          · exact without i before
          · exact here
      · by_cases next : candidate bound ∧ better bound best
        · exact Or.inr ⟨bound, by simp [scan, found, next],
            takes bound best held next.1 next.2⟩
        · exact Or.inr ⟨best, by simp [scan, found, next],
            passes bound best held fun here closer => next ⟨here, closer⟩⟩

/-- The induction for a place that a scan has kept. -/
theorem holds_of_scan {holds : Nat → Nat → Prop}
    (first : ∀ place, (∀ i < place, ¬ candidate i) → candidate place → holds (place + 1) place)
    (passes : ∀ place best, holds place best → (candidate place → ¬ better place best) →
      holds (place + 1) best)
    (takes : ∀ place best, holds place best → candidate place → better place best →
      holds (place + 1) place)
    (found : scan candidate better bound = some best) : holds bound best := by
  obtain ⟨empty, _⟩ | ⟨other, same, held⟩ := scan_induction first passes takes bound
  · rw [empty] at found
    contradiction
  · rw [found] at same
    rwa [Option.some.inj same]

theorem scan_eq_none_iff :
    scan candidate better bound = none ↔ ∀ i < bound, ¬ candidate i := by
  obtain ⟨empty, without⟩ | ⟨best, found, below, chosen⟩ :=
    @scan_induction candidate better _ _ (fun bound best => best < bound ∧ candidate best)
      (fun place _ here => ⟨Nat.lt_succ_self place, here⟩)
      (fun _ _ held _ => ⟨Nat.lt_succ_of_lt held.1, held.2⟩)
      (fun place _ _ here _ => ⟨Nat.lt_succ_self place, here⟩) bound
  · exact iff_of_true empty without
  · exact iff_of_false (by simp [found]) fun without => without best below chosen

theorem mem_of_scan (found : scan candidate better bound = some best) :
    best < bound ∧ candidate best :=
  @holds_of_scan candidate better bound best _ _
    (fun bound best => best < bound ∧ candidate best) (fun place _ here => ⟨Nat.lt_succ_self place, here⟩)
    (fun _ _ held _ => ⟨Nat.lt_succ_of_lt held.1, held.2⟩)
    (fun place _ _ here _ => ⟨Nat.lt_succ_self place, here⟩) found

/-- No candidate beats the place that is kept, if one that is not better does not beat
it, and one that is better is beaten by no more places. -/
theorem not_beats_of_scan
    (passed : ∀ i best, candidate i → ¬ better i best → ¬ beats i best)
    (kept : ∀ i best other, candidate i → better i best → beats other i → beats other best)
    (irrefl : ∀ i, ¬ beats i i) (found : scan candidate better bound = some best) :
    ∀ i < bound, candidate i → ¬ beats i best := by
  refine @holds_of_scan candidate better bound best _ _
    (fun bound best => ∀ i < bound, candidate i → ¬ beats i best) ?_ ?_ ?_ found
  · intro place without here i below chosen
    obtain before | rfl := Nat.lt_succ_iff_lt_or_eq.mp below
    · exact absurd chosen (without i before)
    · exact irrefl i
  · intro place best held worse i below chosen
    obtain before | rfl := Nat.lt_succ_iff_lt_or_eq.mp below
    · exact held i before chosen
    · exact passed i best chosen (worse chosen)
  · intro place best held here closer i below chosen beaten
    obtain before | rfl := Nat.lt_succ_iff_lt_or_eq.mp below
    · exact held i before chosen (kept place best i here closer beaten)
    · exact irrefl i beaten

/-- The place that is kept is the last record. -/
theorem isLastRecord_of_scan
    (trans : ∀ i j k, better i j → better j k → better i k)
    (found : scan candidate better bound = some best) :
    IsLastRecord candidate better bound best := by
  have kept := @holds_of_scan candidate better bound best _ _
    (fun bound best => IsLastRecord candidate better bound best ∧
      ∀ other < best, IsRecord candidate better other → better best other) ?_ ?_ ?_ found
  · exact kept.1
  · intro place without here
    have none_before : ∀ i < place, ¬ IsRecord candidate better i := fun i before record =>
      without i before (isRecord_iff.mp record).1
    refine ⟨⟨Nat.lt_succ_self place, isRecord_iff.mpr ⟨here, ?_⟩, ?_⟩, ?_⟩
    · exact fun before below record => absurd record (none_before before below)
    · exact fun other below _ => Nat.lt_succ_iff.mp below
    · exact fun other below record => absurd record (none_before other below)
  · intro place best held worse
    refine ⟨⟨Nat.lt_succ_of_lt held.1.1, held.1.2.1, fun other below record => ?_⟩, held.2⟩
    obtain before | rfl := Nat.lt_succ_iff_lt_or_eq.mp below
    · exact held.1.2.2 other before record
    · have parts := isRecord_iff.mp record
      exact absurd (parts.2 best held.1.1 held.1.2.1) (worse parts.1)
  · intro place best held here closer
    have beatsRecords : ∀ other < place, IsRecord candidate better other →
        better place other := by
      intro other below record
      obtain before | rfl := Nat.lt_or_eq_of_le (held.1.2.2 other below record)
      · exact trans place best other closer (held.2 other before record)
      · exact closer
    exact ⟨⟨Nat.lt_succ_self place, isRecord_iff.mpr ⟨here, beatsRecords⟩,
      fun other below _ => Nat.lt_succ_iff.mp below⟩, beatsRecords⟩

end Gp2Firmware.Lib.BestScan
