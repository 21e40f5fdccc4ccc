import Mathlib.Logic.Function.Basic
import Gp2Firmware.Msmailbox.AeonQueue

/-!
# The wait queue of the mail box

`opWQWait` lets a thread sleep until a mail has come, and the handler of the mail
interrupt calls `opWQWakeup` behind `opMBPutAddr`.  The number `aNum` is to say whether
a thread waits; it is a flag, and both sides clear it.
-/

namespace Gp2Firmware.Msmailbox

open Lib

/-- The statement of `opWQWait` that a thread comes to next. -/
inductive WaitPc where
  | out
  | num
  | prepare
  | set
  | check
  | schedule
  | sleep
  | finish
  | clr
  deriving DecidableEq

/-- A thread: where it is, whether its state is `TASK_INTERRUPTIBLE` with its entry in
the queue, and the number of mails that had arrived when it evaluated `Check`. -/
structure Waiter where
  pc : WaitPc
  interruptible : Bool
  checked : Nat

/-- The thread has set the flag and is still to be woken. -/
def Waiter.Waiting (w : Waiter) : Prop :=
  (w.pc = .check ∨ w.pc = .schedule ∨ w.pc = .sleep) ∧ w.interruptible = true

/-- The statement that the interrupt handler comes to next. -/
inductive WakerPc where
  | idle
  | receive
  | num
  | wake
  | clr
  deriving DecidableEq

/-- The wait queue and the indices of the mails.  `arrived` counts the mails, and
`unwoken` are the numbers of those for which `opWQWakeup` has not called `wake_up`. -/
structure WaitQueue (Thread : Type*) where
  aNum : Nat
  waiter : Thread → Waiter
  waker : WakerPc
  u32GetAdr : Nat
  u32PutAdr : Nat
  arrived : Nat
  unwoken : List Nat

/-- A step: a statement of a thread, the end of its time or a signal, a statement of the
interrupt handler, or a read of the consumer in user space. -/
inductive WaitStep (Thread : Type*) where
  | thread (t : Thread)
  | timeout (t : Thread)
  | waker
  | read
  deriving DecidableEq

namespace WaitQueue

variable {Thread : Type*}

/-- After `opWQInit` and `opMBInit`. -/
def init : WaitQueue Thread where
  aNum := 0
  waiter := fun _ => ⟨.out, false, 0⟩
  waker := .idle
  u32GetAdr := 0
  u32PutAdr := 0
  arrived := 0
  unwoken := []

section Steps

variable [DecidableEq Thread]

/-- A thread changes. -/
def setWaiter (s : WaitQueue Thread) (t : Thread) (w : Waiter) : WaitQueue Thread :=
  { s with waiter := Function.update s.waiter t w }

/-- `callback_wq` -/
def callbackWq (s : WaitQueue Thread) : Bool := s.u32GetAdr != s.u32PutAdr

/-- The next statement of `opWQWait`, or the call of it. -/
def threadStep (s : WaitQueue Thread) (t : Thread) : WaitQueue Thread :=
  let w := s.waiter t
  match w.pc with
  | .out => s.setWaiter t { w with pc := .num }
  | .num => s.setWaiter t { w with pc := if s.aNum = 0 then .prepare else .out }
  | .prepare => s.setWaiter t { w with pc := .set, interruptible := true }
  | .set => { s.setWaiter t { w with pc := .check } with aNum := 1 }
  | .check =>
      s.setWaiter t
        { w with
          pc := if s.callbackWq then .finish else .schedule
          checked := s.arrived }
  | .schedule =>
      s.setWaiter t { w with pc := if w.interruptible then .sleep else .finish }
  | .sleep => if w.interruptible then s else s.setWaiter t { w with pc := .finish }
  | .finish => s.setWaiter t { w with pc := .clr, interruptible := false }
  | .clr => { s.setWaiter t { w with pc := .out } with aNum := 0 }

/-- `schedule_timeout` comes to its end, or a signal. -/
def timeout (s : WaitQueue Thread) (t : Thread) : WaitQueue Thread :=
  if (s.waiter t).pc = .sleep then s.setWaiter t { s.waiter t with interruptible := false }
  else s

/-- `wake_up`: every thread in the queue is runnable again. -/
def wakeUp (s : WaitQueue Thread) : WaitQueue Thread :=
  { s with waiter := fun t => { s.waiter t with interruptible := false } }

/-- The next statement of `callback_receive_mail_int`, or its start with a mail. -/
def wakerStep (s : WaitQueue Thread) : WaitQueue Thread :=
  match s.waker with
  | .idle =>
      { s with
        u32PutAdr := nextUnit s.u32PutAdr
        arrived := s.arrived + 1
        waker := .receive }
  | .receive => { s with waker := .num }
  | .num =>
      if s.aNum = 1 then { s with waker := .wake }
      else { s with waker := .idle, unwoken := s.arrived :: s.unwoken }
  | .wake => { s.wakeUp with waker := .clr }
  | .clr => { s with aNum := 0, waker := .idle }

/-- The consumer takes a mail. -/
def read (s : WaitQueue Thread) : WaitQueue Thread :=
  if s.u32GetAdr ≠ s.u32PutAdr then { s with u32GetAdr := nextUnit s.u32GetAdr } else s

/-- One step. -/
def after (s : WaitQueue Thread) : WaitStep Thread → WaitQueue Thread
  | .thread t => s.threadStep t
  | .timeout t => s.timeout t
  | .waker => s.wakerStep
  | .read => s.read

end Steps

/-- A thread sleeps in `schedule_timeout`. -/
def Sleeping (s : WaitQueue Thread) (t : Thread) : Prop :=
  (s.waiter t).pc = .sleep ∧ (s.waiter t).interruptible = true

/-- A thread sleeps although a mail arrived after its `Check`, and `opWQWakeup` of that
mail returned without `wake_up`. -/
def LostWakeup (s : WaitQueue Thread) : Prop :=
  ∃ t, s.Sleeping t ∧ ∃ mail ∈ s.unwoken, (s.waiter t).checked < mail

/-- A thread waits: it has set the flag, and is still to be woken. -/
def Waiting (s : WaitQueue Thread) (t : Thread) : Prop := (s.waiter t).Waiting

/-- The step is `Clr`, of a thread or of the interrupt handler. -/
def Clears (s : WaitQueue Thread) : WaitStep Thread → Prop
  | .thread t => (s.waiter t).pc = .clr
  | .waker => s.waker = .clr
  | _ => False

/-- The flag is cleared only when no thread waits, or all are about to be woken. -/
def ClearsAlone (s : WaitQueue Thread) (event : WaitStep Thread) : Prop :=
  s.Clears event → (∃ t, s.Waiting t) → s.waker = .wake

/-! ### No wake-up is lost -/

/-- What every step keeps that clears the flag in time: a waiting thread is seen, and
none waits past a mail for which no thread was woken. -/
structure Seen (s : WaitQueue Thread) : Prop where
  flag : ∀ t, s.Waiting t → s.aNum = 1 ∨ s.waker = .wake
  past : ∀ t, s.Waiting t → (s.waiter t).pc ≠ .check →
    ∀ mail ∈ s.unwoken, mail ≤ (s.waiter t).checked
  numbered : ∀ mail ∈ s.unwoken, mail ≤ s.arrived

theorem Seen.not_lostWakeup {s : WaitQueue Thread} (seen : Seen s) : ¬ s.LostWakeup := by
  intro ⟨t, asleep, mail, unwoken, late⟩
  have waiting : s.Waiting t := ⟨.inr (.inr asleep.1), asleep.2⟩
  have bound := seen.past t waiting (by rw [asleep.1]; decide) mail unwoken
  omega

theorem seen_init : Seen (init : WaitQueue Thread) where
  flag t waiting := by
    rcases waiting.1 with there | there | there <;> cases there
  past t waiting := by
    rcases waiting.1 with there | there | there <;> cases there
  numbered mail none := by cases none

theorem not_waiting_of_interruptible {w : Waiter} (awake : w.interruptible = false) :
    ¬ w.Waiting := by
  intro waiting
  exact Bool.noConfusion (awake.symm.trans waiting.2)

theorem not_waiting_of_pc {w : Waiter}
    (elsewhere : w.pc ≠ .check ∧ w.pc ≠ .schedule ∧ w.pc ≠ .sleep) : ¬ w.Waiting := by
  intro waiting
  rcases waiting.1 with check | schedule | sleep
  · exact elsewhere.1 check
  · exact elsewhere.2.1 schedule
  · exact elsewhere.2.2 sleep

theorem Seen.wakerStep {s : WaitQueue Thread} (seen : Seen s) (alone : s.ClearsAlone .waker) :
    Seen s.wakerStep := by
  cases waker : s.waker with
  | idle =>
      simp only [WaitQueue.wakerStep, waker]
      refine ⟨fun t waiting => ?_, seen.past, fun mail unwoken => ?_⟩
      · have flag := seen.flag t waiting
        rw [waker] at flag
        exact .inl (flag.resolve_right (by decide))
      · exact Nat.le_succ_of_le (seen.numbered mail unwoken)
  | receive =>
      simp only [WaitQueue.wakerStep, waker]
      refine ⟨fun t waiting => ?_, seen.past, seen.numbered⟩
      have flag := seen.flag t waiting
      rw [waker] at flag
      exact .inl (flag.resolve_right (by decide))
  | num =>
      simp only [WaitQueue.wakerStep, waker]
      split
      · exact ⟨fun t _ => .inr rfl, seen.past, seen.numbered⟩
      · rename_i clear
        have none : ∀ t, ¬ s.Waiting t := by
          intro t waiting
          have flag := seen.flag t waiting
          rw [waker] at flag
          exact flag.elim clear (by decide)
        refine ⟨fun t waiting => absurd waiting (none t),
          fun t waiting => absurd waiting (none t), fun mail unwoken => ?_⟩
        rcases List.mem_cons.mp unwoken with new | old
        · exact Nat.le_of_eq new
        · exact seen.numbered mail old
  | wake =>
      simp only [WaitQueue.wakerStep, waker]
      exact ⟨fun t waiting => absurd waiting (not_waiting_of_interruptible rfl),
        fun t waiting => absurd waiting (not_waiting_of_interruptible rfl), seen.numbered⟩
  | clr =>
      simp only [WaitQueue.wakerStep, waker]
      have none : ∀ t, ¬ s.Waiting t := by
        intro t waiting
        have wake := alone waker ⟨t, waiting⟩
        rw [waker] at wake
        cases wake
      exact ⟨fun t waiting => absurd waiting (none t),
        fun t waiting => absurd waiting (none t), seen.numbered⟩

section Keeps

variable [DecidableEq Thread] {s : WaitQueue Thread} {t : Thread} {w : Waiter} {aNum : Nat}

theorem waiter_setWaiter_self : (s.setWaiter t w).waiter t = w := Function.update_self ..

theorem waiter_setWaiter_of_ne {u : Thread} (other : u ≠ t) :
    (s.setWaiter t w).waiter u = s.waiter u := Function.update_of_ne other ..

/-- A change of one thread, and of the flag. -/
theorem Seen.setWaiter (seen : Seen s)
    (others : ∀ u, u ≠ t → s.Waiting u → aNum = 1 ∨ s.waker = .wake)
    (flag : w.Waiting → aNum = 1 ∨ s.waker = .wake)
    (past : w.Waiting → w.pc ≠ .check → ∀ mail ∈ s.unwoken, mail ≤ w.checked) :
    Seen { s.setWaiter t w with aNum := aNum } where
  flag u waiting := by
    by_cases same : u = t
    · change ((s.setWaiter t w).waiter u).Waiting at waiting
      rw [same, waiter_setWaiter_self] at waiting
      exact flag waiting
    · change ((s.setWaiter t w).waiter u).Waiting at waiting
      rw [waiter_setWaiter_of_ne same] at waiting
      exact others u same waiting
  past u waiting := by
    change ((s.setWaiter t w).waiter u).Waiting at waiting
    change ((s.setWaiter t w).waiter u).pc ≠ .check → ∀ mail ∈ s.unwoken,
      mail ≤ ((s.setWaiter t w).waiter u).checked
    by_cases same : u = t
    · rw [same, waiter_setWaiter_self] at waiting ⊢
      exact past waiting
    · rw [waiter_setWaiter_of_ne same] at waiting ⊢
      exact seen.past u waiting
  numbered := seen.numbered

/-- A thread that does not wait afterwards takes no other one out of sight. -/
theorem Seen.idle (seen : Seen s) (idle : ¬ w.Waiting) : Seen (s.setWaiter t w) :=
  @Seen.setWaiter Thread _ s t w s.aNum seen (fun u _ => seen.flag u)
    (fun waiting => absurd waiting idle) (fun waiting => absurd waiting idle)

theorem Seen.threadStep (seen : Seen s) (alone : s.ClearsAlone (.thread t)) :
    Seen (s.threadStep t) := by
  have others : ∀ u, u ≠ t → s.Waiting u → s.aNum = 1 ∨ s.waker = .wake :=
    fun u _ => seen.flag u
  cases pc : (s.waiter t).pc with
  | out =>
      simp only [WaitQueue.threadStep, pc]
      exact seen.idle (not_waiting_of_pc (by simp))
  | num =>
      simp only [WaitQueue.threadStep, pc]
      split
      · exact seen.idle (not_waiting_of_pc (by simp))
      · exact seen.idle (not_waiting_of_pc (by simp))
  | prepare =>
      simp only [WaitQueue.threadStep, pc]
      exact seen.idle (not_waiting_of_pc (by simp))
  | set =>
      simp only [WaitQueue.threadStep, pc]
      exact seen.setWaiter (fun _ _ _ => .inl rfl) (fun _ => .inl rfl)
        (fun _ later => absurd rfl later)
  | check =>
      simp only [WaitQueue.threadStep, pc]
      apply seen.setWaiter others
      · intro waiting
        exact seen.flag t ⟨.inl pc, waiting.2⟩
      · intro _ _
        exact seen.numbered
  | schedule =>
      simp only [WaitQueue.threadStep, pc]
      apply seen.setWaiter others
      · intro waiting
        exact seen.flag t ⟨.inr (.inl pc), waiting.2⟩
      · intro waiting _
        exact seen.past t ⟨.inr (.inl pc), waiting.2⟩ (by rw [pc]; decide)
  | sleep =>
      simp only [WaitQueue.threadStep, pc]
      split
      · exact seen
      · exact seen.idle (not_waiting_of_pc (by simp))
  | finish =>
      simp only [WaitQueue.threadStep, pc]
      exact seen.idle (not_waiting_of_pc (by simp))
  | clr =>
      simp only [WaitQueue.threadStep, pc]
      apply seen.setWaiter
      · intro u _ waiting
        exact .inr (alone pc ⟨u, waiting⟩)
      · exact fun waiting => absurd waiting (not_waiting_of_pc (by simp))
      · exact fun waiting => absurd waiting (not_waiting_of_pc (by simp))

theorem Seen.after (seen : Seen s) {event : WaitStep Thread}
    (alone : s.ClearsAlone event) : Seen (s.after event) := by
  cases event with
  | thread t => exact seen.threadStep alone
  | timeout t =>
      simp only [WaitQueue.after, timeout]
      split
      · exact seen.idle (not_waiting_of_interruptible rfl)
      · exact seen
  | waker => exact seen.wakerStep alone
  | read =>
      simp only [WaitQueue.after, WaitQueue.read]
      split
      · exact ⟨seen.flag, seen.past, seen.numbered⟩
      · exact seen

end Keeps

/-! ### A wake-up is lost -/

section Loses

variable [DecidableEq Thread] {s : WaitQueue Thread} {t : Thread}

/-- What every step keeps: the indices are those of slots, and nobody has counted more
mails than have arrived. -/
structure Bounded (s : WaitQueue Thread) : Prop where
  get : s.u32GetAdr < u32MaxMUnit
  put : s.u32PutAdr < u32MaxMUnit
  checked : ∀ t, (s.waiter t).checked ≤ s.arrived

omit [DecidableEq Thread] in
theorem bounded_init : Bounded (init : WaitQueue Thread) :=
  ⟨show 0 < u32MaxMUnit by decide, show 0 < u32MaxMUnit by decide,
    fun _ => Nat.le_refl 0⟩

theorem nextUnit_lt (u32Adr : Nat) : nextUnit u32Adr < u32MaxMUnit := by
  rw [nextUnit]
  split
  · decide
  · omega

theorem Bounded.setWaiter {w : Waiter} (bounded : Bounded s) (small : w.checked ≤ s.arrived) :
    Bounded (s.setWaiter t w) where
  get := bounded.get
  put := bounded.put
  checked u := by
    change ((s.setWaiter t w).waiter u).checked ≤ s.arrived
    by_cases same : u = t
    · rw [same, waiter_setWaiter_self]
      exact small
    · rw [waiter_setWaiter_of_ne same]
      exact bounded.checked u

theorem Bounded.after (bounded : Bounded s) (event : WaitStep Thread) :
    Bounded (s.after event) := by
  cases event with
  | thread t =>
      have same := bounded.checked t
      cases pc : (s.waiter t).pc with
      | set =>
          have moved := @Bounded.setWaiter _ _ s t { s.waiter t with pc := .check }
            bounded same
          simp only [WaitQueue.after, threadStep, pc]
          exact ⟨bounded.get, bounded.put, moved.checked⟩
      | clr =>
          have moved := @Bounded.setWaiter _ _ s t { s.waiter t with pc := .out }
            bounded same
          simp only [WaitQueue.after, threadStep, pc]
          exact ⟨bounded.get, bounded.put, moved.checked⟩
      | check =>
          simp only [WaitQueue.after, threadStep, pc]
          exact bounded.setWaiter (Nat.le_refl _)
      | sleep =>
          simp only [WaitQueue.after, threadStep, pc]
          split
          · exact bounded
          · exact bounded.setWaiter same
      | out | num | prepare | schedule | finish =>
          simp only [WaitQueue.after, threadStep, pc]
          exact bounded.setWaiter same
  | timeout t =>
      simp only [WaitQueue.after, timeout]
      split
      · exact bounded.setWaiter (bounded.checked t)
      · exact bounded
  | waker =>
      cases waker : s.waker with
      | idle =>
          simp only [WaitQueue.after, wakerStep, waker]
          exact ⟨bounded.get, nextUnit_lt _, fun t => Nat.le_succ_of_le (bounded.checked t)⟩
      | num =>
          simp only [WaitQueue.after, wakerStep, waker]
          split
          · exact ⟨bounded.get, bounded.put, bounded.checked⟩
          · exact ⟨bounded.get, bounded.put, bounded.checked⟩
      | receive | wake | clr =>
          simp only [WaitQueue.after, wakerStep, waker]
          exact ⟨bounded.get, bounded.put, bounded.checked⟩
  | read =>
      simp only [WaitQueue.after, WaitQueue.read]
      split
      · exact ⟨nextUnit_lt _, bounded.put, bounded.checked⟩
      · exact bounded

/-- A thread waits that `opWQWakeup` does not see. -/
structure Hidden (s : WaitQueue Thread) (t : Thread) : Prop where
  waiting : s.Waiting t
  flag : s.aNum = 0
  waker : s.waker ≠ .wake

/-- To clear the flag hides every thread that waits. -/
theorem hidden_of_clears {event : WaitStep Thread} (clears : s.Clears event)
    (waiting : s.Waiting t) (late : s.waker ≠ .wake) : Hidden (s.after event) t := by
  cases event with
  | thread u =>
      have pc : (s.waiter u).pc = .clr := clears
      have other : t ≠ u := by
        intro same
        rw [same] at waiting
        exact not_waiting_of_pc (by rw [pc]; decide) waiting
      simp only [WaitQueue.after, threadStep, pc]
      refine ⟨?_, rfl, late⟩
      change ((s.setWaiter u _).waiter t).Waiting
      rw [waiter_setWaiter_of_ne other]
      exact waiting
  | waker =>
      have pc : s.waker = .clr := clears
      simp only [WaitQueue.after, wakerStep, pc]
      exact ⟨waiting, rfl, by simp⟩
  | timeout u => exact clears.elim
  | read => exact clears.elim

/-- The handler comes to its end without waking the thread. -/
theorem Hidden.handlerEnds (hidden : Hidden s t) :
    ∃ next, Run.Reaches after s next ∧ Hidden next t ∧ next.waker = .idle := by
  have num : ∀ {s : WaitQueue Thread}, Hidden s t → s.waker = .num →
      Hidden (s.after .waker) t ∧ (s.after .waker).waker = .idle := by
    intro s hidden waker
    have clear : s.aNum ≠ 1 := by
      rw [hidden.flag]
      decide
    simp only [WaitQueue.after, wakerStep, waker, if_neg clear]
    exact ⟨⟨hidden.waiting, hidden.flag, by simp⟩, trivial⟩
  cases waker : s.waker with
  | idle => exact ⟨s, .refl _ s, hidden, waker⟩
  | receive =>
      have received : Hidden (s.after .waker) t ∧ (s.after .waker).waker = .num := by
        simp only [WaitQueue.after, wakerStep, waker]
        exact ⟨⟨hidden.waiting, hidden.flag, by simp⟩, trivial⟩
      exact ⟨_, (Run.Reaches.single after s .waker).trans (.single after _ .waker),
        num received.1 received.2⟩
  | num => exact ⟨_, .single after s .waker, num hidden waker⟩
  | wake => exact absurd waker hidden.waker
  | clr =>
      refine ⟨_, .single after s .waker, ?_⟩
      simp only [WaitQueue.after, wakerStep, waker]
      exact ⟨⟨hidden.waiting, rfl, by simp⟩, trivial⟩

/-- The consumer takes all mails. -/
theorem Hidden.consumed (hidden : Hidden s t) (idle : s.waker = .idle)
    (bounded : Bounded s) :
    ∃ next, Run.Reaches after s next ∧ Hidden next t ∧ next.waker = .idle ∧
      next.u32GetAdr = next.u32PutAdr := by
  induction left : IndexRing.used u32MaxMUnit s.u32GetAdr s.u32PutAdr
    generalizing s with
  | zero =>
      exact ⟨s, .refl _ s, hidden, idle,
        (IndexRing.used_eq_zero bounded.get bounded.put).mp left⟩
  | succ left inductionHypothesis =>
      have more : s.u32GetAdr ≠ s.u32PutAdr := by
        intro same
        rw [(IndexRing.used_eq_zero bounded.get bounded.put).mpr same] at left
        cases left
      have step : s.after .read = { s with u32GetAdr := nextUnit s.u32GetAdr } := if_pos more
      have popped := IndexRing.used_pop bounded.get bounded.put more
      rw [← nextUnit_eq bounded.get] at popped
      obtain ⟨next, reached, rest⟩ := @inductionHypothesis (s.after .read)
        (by rw [step]; exact ⟨hidden.waiting, hidden.flag, hidden.waker⟩)
        (by rw [step]; exact idle) (bounded.after .read) (by rw [step]; dsimp only; omega)
      exact ⟨next, (Run.Reaches.single after s .read).trans reached, rest⟩

theorem sleeping_of_schedule (pc : (s.waiter t).pc = .schedule)
    (interruptible : (s.waiter t).interruptible = true) :
    (s.after (.thread t)).Sleeping t ∧ (s.after (.thread t)).aNum = s.aNum ∧
      (s.after (.thread t)).waker = s.waker := by
  simp only [WaitQueue.after, threadStep, pc, interruptible, if_true]
  refine ⟨?_, rfl, rfl⟩
  rw [Sleeping, waiter_setWaiter_self]
  exact ⟨rfl, rfl⟩

/-- The thread goes to sleep. -/
theorem Hidden.sleeps (hidden : Hidden s t) (idle : s.waker = .idle)
    (empty : s.u32GetAdr = s.u32PutAdr) :
    ∃ next, Run.Reaches after s next ∧ next.Sleeping t ∧ next.aNum = 0 ∧
      next.waker = .idle := by
  have interruptible := hidden.waiting.2
  rcases hidden.waiting.1 with check | schedule | sleep
  · have none : s.callbackWq = false := by
      rw [callbackWq, empty]
      exact bne_self_eq_false _
    have checked : s.after (.thread t) =
        s.setWaiter t { s.waiter t with pc := .schedule, checked := s.arrived } := by
      simp only [WaitQueue.after, threadStep, check, none]
      rfl
    obtain ⟨asleep, flag, waker⟩ := @sleeping_of_schedule _ _ (s.after (.thread t)) t
      (by rw [checked, waiter_setWaiter_self])
      (by rw [checked, waiter_setWaiter_self]; exact interruptible)
    refine ⟨_, (Run.Reaches.single after s (.thread t)).trans (.single after _ (.thread t)),
      asleep, flag.trans ?_, waker.trans ?_⟩
    · rw [checked]
      exact hidden.flag
    · rw [checked]
      exact idle
  · obtain ⟨asleep, flag, waker⟩ := sleeping_of_schedule schedule interruptible
    exact ⟨_, .single after s (.thread t), asleep, flag.trans hidden.flag,
      waker.trans idle⟩
  · exact ⟨s, .refl _ s, ⟨sleep, interruptible⟩, hidden.flag, idle⟩

/-- The next mail does not wake it. -/
theorem lostWakeup_of_sleeping (asleep : s.Sleeping t) (flag : s.aNum = 0)
    (idle : s.waker = .idle) (bounded : Bounded s) :
    ∃ next, Run.Reaches after s next ∧ next.LostWakeup := by
  have missed : [.waker, .waker, .waker].foldl after s =
      { s with
        u32PutAdr := nextUnit s.u32PutAdr
        arrived := s.arrived + 1
        unwoken := (s.arrived + 1) :: s.unwoken } := by
    have clear : ¬ s.aNum = 1 := by
      rw [flag]
      decide
    simp only [List.foldl_cons, List.foldl_nil, WaitQueue.after, wakerStep, idle, clear]
    rfl
  refine ⟨_, ⟨[.waker, .waker, .waker], missed⟩, t, asleep, s.arrived + 1,
    List.mem_cons_self, Nat.lt_succ_of_le (bounded.checked t)⟩

/-- Where the flag is cleared while a thread waits and is not about to be woken, some
further steps lose a wake-up. -/
theorem loses_of_not_clearsAlone (bounded : Bounded s) {event : WaitStep Thread}
    (astray : ¬ s.ClearsAlone event) :
    ∃ last, Run.Reaches after (s.after event) last ∧ last.LostWakeup := by
  obtain ⟨clears, astray⟩ := Classical.not_imp.mp astray
  obtain ⟨⟨t, waiting⟩, late⟩ := Classical.not_imp.mp astray
  obtain ⟨ended, first, hidden, idle⟩ :=
    (hidden_of_clears clears waiting late).handlerEnds
  have there := first.keeps (fun _ event bounded => bounded.after event)
    (bounded.after event)
  obtain ⟨empty, second, hidden, idle, equal⟩ := hidden.consumed idle there
  have there := second.keeps (fun _ event bounded => bounded.after event) there
  obtain ⟨asleep, third, sleeping, flag, idle⟩ := hidden.sleeps idle equal
  have there := third.keeps (fun _ event bounded => bounded.after event) there
  obtain ⟨last, fourth, lost⟩ := lostWakeup_of_sleeping sleeping flag idle there
  exact ⟨last, first.trans (second.trans (third.trans fourth)), lost⟩

/-- Every run that clears the flag in time loses no wake-up; and where a run does not for
the first time, it can go on so that one is lost. -/
theorem wakeups_kept (events : List (WaitStep Thread)) :
    (Run.Meets after ClearsAlone (init : WaitQueue Thread) events →
        ¬ (events.foldl after (init : WaitQueue Thread)).LostWakeup) ∧
      ∀ event, ¬ (events.foldl after (init : WaitQueue Thread)).ClearsAlone event →
        ∃ later : List (WaitStep Thread), (later.foldl after
          ((events.foldl after (init : WaitQueue Thread)).after event)).LostWakeup := by
  constructor
  · intro alone
    exact (alone.keeps (fun s event seen alone => Seen.after seen alone)
      seen_init).not_lostWakeup
  · intro event astray
    have reached : Run.Reaches after (init : WaitQueue Thread)
        (events.foldl after (init : WaitQueue Thread)) := ⟨events, rfl⟩
    have bounded := reached.keeps
      (fun s event (bounded : Bounded s) => bounded.after event) bounded_init
    obtain ⟨last, ⟨later, reached⟩, lost⟩ := loses_of_not_clearsAlone bounded astray
    exact ⟨later, by rw [reached]; exact lost⟩

end Loses

/-- One thread is woken by a mail; the other one begins to wait before the first clears
the flag, and a second mail comes. -/
def lateClear : List (WaitStep Bool) :=
  List.replicate 6 (.thread false) ++ List.replicate 5 .waker ++ [.read] ++
    List.replicate 2 (.thread false) ++ List.replicate 6 (.thread true) ++
      [.thread false] ++ List.replicate 3 .waker

/-- The other thread sleeps on. -/
theorem lateClear_lost : (lateClear.foldl after (init : WaitQueue Bool)).LostWakeup := by
  refine ⟨true, ⟨?_, ?_⟩, 2, ?_, ?_⟩
  · decide
  · decide
  · decide
  · decide

end WaitQueue

end Gp2Firmware.Msmailbox
