import Mathlib.Tactic.SplitIfs
import Gp2Firmware.Lib.Run
import Gp2Firmware.Msmailbox.Registers

/-!
# Sending mails from several contexts

`hal_opFire` tests the registers and stores the mail under the lock and sets
FIRE after the lock is released.  Calls from any number of contexts interleave
with the coprocessor, which takes the words while FIRE is set.
-/

namespace Gp2Firmware.Msmailbox

/-- `hal_opFire` between `spin_lock_bh` and `spin_unlock_bh` -/
def opFireLocked (regs mail : Mail) : Except ErrCode Mail :=
  if regs.fire then .error .coprocessorNotReady
  else if regs.busy then .error .coprocessorBusy
  else .ok (fill regs.s1C mail)

/-- A register group and the contexts that send through it.  The mails that were
stored are numbered; `waiting` is the number of the mail for which a context has
yet to set FIRE, and the last one stored is in the registers. -/
structure Sends (Context : Type*) where
  regs : Mail
  waiting : Context → Option Nat
  stored : List Mail
  returned : List Nat
  taken : List (Nat × Mail)

inductive SendStep (Context : Type*) where
  | locked (c : Context) (mail : Mail)
  | fireS (c : Context)
  | take

variable {Context : Type*}

namespace Sends

/-- After `hal_opInit`. -/
def init : Sends Context := ⟨fun _ => 0, fun _ => none, [], [], []⟩

/-- The coprocessor takes the words and clears FIRE. -/
def take (s : Sends Context) : Sends Context :=
  if s.regs.fire then
    { s with
      regs := s.regs.fireC
      taken := s.taken ++ [(s.stored.length - 1, s.regs)] }
  else s

/-- Once the coprocessor has taken what FIRE offers, it has taken each mail whose
call returned `E_OK` once and with its own words. -/
def TakenOnce (s : Sends Context) : Prop :=
  ∀ n ∈ s.returned, ∃ mail, s.stored[n]? = some mail ∧
    s.take.taken.filter (fun entry => entry.1 = n) = [(n, mail.fireS)]

/-- FIRE is set for a mail that is still in the registers and was not taken, or
for one that was, because its own control word has FIRE set, and then it does
not offer again a mail whose call has returned. -/
def FiresOwn (s : Sends Context) : SendStep Context → Prop
  | .locked _ _ => True
  | .fireS c => ∀ n, s.waiting c = some n →
      if n + 1 = s.stored.length then (s.taken.map Prod.fst).count n = 0
      else (s.taken.map Prod.fst).count n = 1 ∧
        (s.regs.fire = true ∨ s.stored.length - 1 ∉ s.returned)
  | .take => True

variable [DecidableEq Context]

def store (s : Sends Context) (c : Context) (mail : Mail) : Sends Context :=
  match opFireLocked s.regs mail with
  | .error _ => s
  | .ok regs =>
      { s with
        regs := regs
        waiting := Function.update s.waiting c (some s.stored.length)
        stored := s.stored ++ [mail] }

/-- `_FIRE_S` for mail `n`, after which `hal_opFire` returns `E_OK`. -/
def fired (s : Sends Context) (c : Context) (n : Nat) : Sends Context :=
  { s with
    regs := s.regs.fireS
    waiting := Function.update s.waiting c none
    returned := s.returned ++ [n] }

/-- A context makes its calls one after the other. -/
def after (s : Sends Context) : SendStep Context → Sends Context
  | .locked c mail => if s.waiting c = none then s.store c mail else s
  | .fireS c =>
      match s.waiting c with
      | none => s
      | some n => s.fired c n
  | .take => s.take

end Sends

/-! ### Facts about every run -/

theorem opFireLocked_ok {regs mail next : Mail}
    (stored : opFireLocked regs mail = .ok next) : regs.fire = false ∧ next = mail := by
  unfold opFireLocked at stored
  split_ifs at stored with set
  cases stored
  exact ⟨by simpa using set, fill_eq _ _⟩

namespace Sends

/-- What the numbers say. -/
structure Numbered (s : Sends Context) : Prop where
  waits : ∀ c n, s.waiting c = some n → n < s.stored.length ∧ n ∉ s.returned
  apart : ∀ c d n, s.waiting c = some n → s.waiting d = some n → c = d
  returned : ∀ n ∈ s.returned, n < s.stored.length
  taken : ∀ entry ∈ s.taken, s.stored[entry.1]?.map Mail.fireS = some entry.2
  offered : s.regs.fire = true → s.stored ≠ []
  regs : ∀ mail, s.stored.getLast? = some mail → s.regs.fireS = mail.fireS

variable {s : Sends Context}

theorem take_of_fire (set : s.regs.fire = true) :
    s.take =
      { s with
        regs := s.regs.fireC
        taken := s.taken ++ [(s.stored.length - 1, s.regs)] } :=
  if_pos set

theorem take_of_clear (clear : s.regs.fire = false) : s.take = s :=
  if_neg (by simp [clear])

@[simp]
theorem take_take : s.take.take = s.take := by
  cases set : s.regs.fire with
  | false => rw [take_of_clear set, take_of_clear set]
  | true =>
      rw [take_of_fire set]
      exact take_of_clear Mail.fire_fireC

@[simp]
theorem take_stored : s.take.stored = s.stored := by
  unfold take
  split_ifs <;> rfl

@[simp]
theorem take_returned : s.take.returned = s.returned := by
  unfold take
  split_ifs <;> rfl

theorem Numbered.init : Numbered (init : Sends Context) where
  waits := fun _ _ waiting => by cases waiting
  apart := fun _ _ _ waiting => by cases waiting
  returned := fun _ member => by cases member
  taken := fun _ member => by cases member
  offered := fun set => Bool.noConfusion (set.symm.trans fire_zero)
  regs := fun _ last => by cases last

theorem Numbered.take (numbered : Numbered s) : Numbered s.take := by
  cases set : s.regs.fire with
  | false =>
      rw [take_of_clear set]
      exact numbered
  | true =>
      rw [take_of_fire set]
      refine ⟨numbered.waits, numbered.apart, numbered.returned, ?_, ?_, ?_⟩
      · intro entry member
        rcases List.mem_append.mp member with before | last
        · exact numbered.taken entry before
        · rw [List.mem_singleton] at last
          obtain ⟨mail, isLast⟩ : ∃ mail, s.stored.getLast? = some mail :=
            ⟨_, List.getLast?_eq_getLast_of_ne_nil (numbered.offered set)⟩
          have own := numbered.regs mail isLast
          rw [Mail.fireS_of_fire set] at own
          rw [List.getLast?_eq_getElem?] at isLast
          rw [last]
          change s.stored[s.stored.length - 1]?.map Mail.fireS = some s.regs
          rw [isLast, own]
          rfl
      · intro again
        simp at again
      · intro mail isLast
        exact Mail.fireS_fireC.trans (numbered.regs mail isLast)

/-- With their numbers, the mails are taken with their own words. -/
theorem filter_eq_iff {entries : List (Nat × Mail)} {n : Nat} {mail : Mail}
    (own : ∀ entry ∈ entries, entry.1 = n → entry.2 = mail) :
    entries.filter (fun entry => entry.1 = n) = [(n, mail)] ↔
      (entries.map Prod.fst).count n = 1 := by
  have counted : (entries.map Prod.fst).count n =
      (entries.filter (fun entry => entry.1 = n)).length := by
    rw [List.count_eq_countP, List.countP_map, List.countP_eq_length_filter]
    rfl
  rw [counted]
  constructor
  · intro one
    rw [one]
    rfl
  · intro one
    obtain ⟨entry, only⟩ := List.length_eq_one_iff.mp one
    have member : entry ∈ entries.filter (fun entry => entry.1 = n) := by
      rw [only]
      exact List.mem_singleton.mpr rfl
    obtain ⟨inside, number⟩ := List.mem_filter.mp member
    have number : entry.1 = n := by simpa using number
    rw [only, ← number, ← own entry inside number]

/-- How often the coprocessor has mail `n` once it has taken what FIRE offers. -/
def times (s : Sends Context) (n : Nat) : Nat := (s.take.taken.map Prod.fst).count n

theorem takenOnce_iff (numbered : Numbered s) :
    s.TakenOnce ↔ ∀ n ∈ s.returned, s.times n = 1 := by
  apply forall₂_congr
  intro n returned
  obtain ⟨mail, stored⟩ : ∃ mail, s.stored[n]? = some mail :=
    ⟨_, List.getElem?_eq_getElem (numbered.returned n returned)⟩
  have own : ∀ entry ∈ s.take.taken, entry.1 = n → entry.2 = mail.fireS := by
    intro entry member number
    have words := numbered.take.taken entry member
    rw [number, take_stored, stored, Option.map_some, Option.some_inj] at words
    exact words.symm
  rw [times, ← filter_eq_iff own]
  constructor
  · rintro ⟨other, same, once⟩
    rw [stored, Option.some_inj] at same
    rw [once, same]
  · exact fun once => ⟨mail, stored, once⟩

theorem times_of_fire (set : s.regs.fire = true) (n : Nat) :
    s.times n = (s.taken.map Prod.fst).count n +
      if n = s.stored.length - 1 then 1 else 0 := by
  rw [times, take_of_fire set]
  rw [List.map_append, List.count_append, List.map_singleton, List.count_singleton]
  simp only [beq_iff_eq, @eq_comm _ n]

theorem times_of_clear (clear : s.regs.fire = false) (n : Nat) :
    s.times n = (s.taken.map Prod.fst).count n := by
  rw [times, take_of_clear clear]

variable [DecidableEq Context]

theorem store_cases (s : Sends Context) (c : Context) (mail : Mail) :
    s.store c mail = s ∨ s.regs.fire = false ∧ s.store c mail =
      { s with
        regs := mail
        waiting := Function.update s.waiting c (some s.stored.length)
        stored := s.stored ++ [mail] } := by
  unfold store
  cases locked : opFireLocked s.regs mail with
  | error _ => exact Or.inl rfl
  | ok next =>
      obtain ⟨clear, rfl⟩ := opFireLocked_ok locked
      exact Or.inr ⟨clear, rfl⟩

namespace Numbered

theorem store {c : Context} (numbered : Numbered s) (mail : Mail) : Numbered (s.store c mail) := by
  rcases store_cases s c mail with same | ⟨clear, stored⟩
  · rw [same]
    exact numbered
  rw [stored]
  have longer : (s.stored ++ [mail]).length = s.stored.length + 1 := by simp
  refine ⟨?_, ?_, ?_, ?_, ?_, ?_⟩
  · intro d n waiting
    simp only [Function.update_apply] at waiting
    split_ifs at waiting with here
    · cases waiting
      exact ⟨by simp, fun returned => (numbered.returned _ returned).false⟩
    · obtain ⟨small, fresh⟩ := numbered.waits d n waiting
      exact ⟨by simp only [longer]; omega, fresh⟩
  · intro d e n first second
    simp only [Function.update_apply] at first second
    split_ifs at first second with hereFirst hereSecond hereSecond
    · rw [hereFirst, hereSecond]
    · cases first
      exact absurd (numbered.waits e _ second).1 (lt_irrefl _)
    · cases second
      exact absurd (numbered.waits d _ first).1 (lt_irrefl _)
    · exact numbered.apart d e n first second
  · intro n returned
    have small := numbered.returned n returned
    simp only [longer]
    omega
  · intro entry member
    have own := numbered.taken entry member
    have small : entry.1 < s.stored.length := by
      by_contra large
      rw [List.getElem?_eq_none (by omega)] at own
      cases own
    simp only [List.getElem?_append_left small]
    exact own
  · intro _
    simp
  · intro last isLast
    rw [List.getLast?_concat, Option.some_inj] at isLast
    rw [isLast]

theorem fired {c : Context} {n : Nat} (numbered : Numbered s)
    (waiting : s.waiting c = some n) : Numbered (s.fired c n) := by
  have small := (numbered.waits c n waiting).1
  refine ⟨?_, ?_, ?_, numbered.taken, ?_, ?_⟩
  · intro d other waits
    simp only [Sends.fired, Function.update_apply] at waits
    split_ifs at waits with here
    obtain ⟨below, fresh⟩ := numbered.waits d other waits
    refine ⟨below, fun member => ?_⟩
    rcases List.mem_append.mp member with before | last
    · exact fresh before
    · rw [List.mem_singleton] at last
      subst last
      exact here (numbered.apart d c _ waits waiting)
  · intro d e other first second
    simp only [Sends.fired, Function.update_apply] at first second
    split_ifs at first second
    exact numbered.apart d e other first second
  · intro other member
    rcases List.mem_append.mp member with before | last
    · exact numbered.returned other before
    · rw [List.mem_singleton] at last
      exact last ▸ small
  · intro _
    exact List.ne_nil_of_length_pos (by change 0 < s.stored.length; omega)
  · intro last isLast
    exact Mail.fireS_fireS.trans (numbered.regs last isLast)

theorem after (numbered : Numbered s) (step : SendStep Context) :
    Numbered (s.after step) := by
  cases step with
  | locked c mail =>
      rw [Sends.after]
      split_ifs
      · exact numbered.store mail
      · exact numbered
  | fireS c =>
      rw [Sends.after]
      split
      · exact numbered
      · exact numbered.fired (by assumption)
  | take => exact numbered.take

end Numbered

/-- A mail that is stored has not returned, and FIRE offered nothing. -/
theorem Numbered.takenOnce_store {c : Context} (numbered : Numbered s)
    (before : ∀ n ∈ s.returned, s.times n = 1) (mail : Mail) :
    (s.store c mail).TakenOnce := by
  rw [takenOnce_iff (numbered.store mail)]
  rcases store_cases s c mail with same | ⟨clear, stored⟩
  · rw [same]
    exact before
  rw [stored]
  intro n returned
  have one := before n returned
  rw [times_of_clear clear] at one
  have small := numbered.returned n returned
  cases set : mail.fire with
  | false =>
      rw [times_of_clear set]
      exact one
  | true =>
      rw [times_of_fire set, one, if_neg (by simp; omega)]

/-- What setting FIRE for mail `n` offers. -/
theorem Numbered.takenOnce_fired_iff {c : Context} {n : Nat} (numbered : Numbered s)
    (before : ∀ n ∈ s.returned, s.times n = 1) (waiting : s.waiting c = some n) :
    (s.fired c n).TakenOnce ↔
      if n + 1 = s.stored.length then (s.taken.map Prod.fst).count n = 0
      else (s.taken.map Prod.fst).count n = 1 ∧
        (s.regs.fire = true ∨ s.stored.length - 1 ∉ s.returned) := by
  obtain ⟨small, fresh⟩ := numbered.waits c n waiting
  have offered : ∀ other, (s.fired c n).times other =
      (s.taken.map Prod.fst).count other +
        if other = s.stored.length - 1 then 1 else 0 :=
    times_of_fire Mail.fire_fireS
  rw [takenOnce_iff (numbered.fired waiting)]
  constructor
  · intro after
    have own := after n (List.mem_append_right _ (List.mem_singleton.mpr rfl))
    rw [offered] at own
    split_ifs with last
    · rw [if_pos (by omega)] at own
      omega
    · rw [if_neg (by omega)] at own
      refine ⟨own, ?_⟩
      by_contra neither
      simp only [not_or, not_not, Bool.not_eq_true] at neither
      obtain ⟨clear, returned⟩ := neither
      have one := before _ returned
      have again := after _ (List.mem_append_left _ returned)
      rw [times_of_clear clear] at one
      rw [offered, one, if_pos rfl] at again
      omega
  · intro condition other member
    rw [offered]
    rcases List.mem_append.mp member with returned | own
    · have one := before other returned
      cases set : s.regs.fire with
      | true =>
          rw [times_of_fire set] at one
          exact one
      | false =>
          rw [times_of_clear set] at one
          have different : other ≠ s.stored.length - 1 := by
            intro same
            split_ifs at condition with last
            · exact fresh (by rwa [show n = s.stored.length - 1 by omega, ← same])
            · rcases condition.2 with lit | out
              · rw [set] at lit
                cases lit
              · exact out (same ▸ returned)
          rw [one, if_neg different]
    · rw [List.mem_singleton] at own
      subst own
      split_ifs at condition with last
      · rw [condition, if_pos (by omega)]
      · rw [condition.1, if_neg (by omega)]

/-- What a step does to a state in which each returned mail is taken once. -/
theorem takenOnce_after_iff (numbered : Numbered s) (once : s.TakenOnce)
    (step : SendStep Context) : (s.after step).TakenOnce ↔ s.FiresOwn step := by
  have before := (takenOnce_iff numbered).mp once
  cases step with
  | take =>
      refine iff_of_true ?_ trivial
      rw [after, takenOnce_iff numbered.take, take_returned]
      intro n returned
      rw [times, take_take]
      exact before n returned
  | locked c mail =>
      refine iff_of_true ?_ trivial
      rw [after]
      split_ifs with idle
      · exact numbered.takenOnce_store before mail
      · exact once
  | fireS c =>
      rw [after, FiresOwn]
      cases waiting : s.waiting c with
      | none => exact iff_of_true once fun n same => by cases same
      | some n =>
          simp only [Option.some_inj, forall_eq']
          exact numbered.takenOnce_fired_iff before waiting

/-- For every scheduling of any number of contexts and of the coprocessor, each
mail whose call returned `E_OK` is taken once with its own words if and only if
FIRE is set each time for the mail of the call. -/
theorem takenOnce_iff_firesOwn (steps : List (SendStep Context)) :
    Run.Meets after (fun s step => (s.after step).TakenOnce) init steps ↔
      Run.Meets after FiresOwn init steps :=
  @Run.meets_congr _ _ after _ _ (fun s => Numbered s ∧ s.TakenOnce)
    (fun _ step holds => takenOnce_after_iff holds.1 holds.2 step)
    (fun _ step holds once => ⟨holds.1.after step, once⟩) init steps
    ⟨Numbered.init, fun _ returned => by cases returned⟩

end Sends

/-- The mail of the first sender is overwritten before its FIRE is set. -/
theorem mail_overwritten :
    ¬ ∀ (Context : Type) (_ : DecidableEq Context) (steps : List (SendStep Context)),
      Run.Meets Sends.after (fun s step => (s.after step).TakenOnce) Sends.init
        steps := by
  intro always
  have run := always Bool inferInstance
    [.locked true (fun _ => 0x1100), .locked false (fun _ => 0x2200), .fireS true]
  obtain ⟨mail, stored, once⟩ := run.2.2.1 0 (by decide)
  have one : _ = 1 := congrArg List.length once
  revert one
  decide

end Gp2Firmware.Msmailbox
