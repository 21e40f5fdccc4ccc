import Gp2Firmware.Lib.IndexRing
import Gp2Firmware.Lib.Run
import Gp2Firmware.Msmailbox.Registers

/-!
# The ring of mails from the PM

`callback_receive_mail_int` moves the mail of the PM from the registers into
`PM_Mail`, or leaves it there and sets OVERFLOW when the ring is full;
`_receive_mail_fromPM` takes the mails out of the ring.
-/

namespace Gp2Firmware.Msmailbox

open Lib

/-- `hal_opFireLoopback` -/
def opFireLoopback (regs mail : Mail) : Except ErrCode Mail :=
  if regs.fire then .error .coprocessorNotReady
  else if regs.busy then .error .coprocessorBusy
  else if regs.overflow then .error .coprocessorOverflow
  else .ok (fill regs.s1C mail).fireS

/-- `hal_opReceive`: the mail and the registers after it, or none where the
assertion for an instant answer fails. -/
def opReceive (dst regs : Mail) : Option (Mail × Mail) :=
  if regs.busyS.instant then none
  else if regs.busyS.readback then none
  else some (fill dst regs.busyS, regs.busyS.busyC.fireC)

/-- The statements of `_receive_mail_fromPM`: before the test of the indexes, after
the copy, after `PMIndxG + 1`, after the wrap. -/
inductive Reader where
  | idle
  | copied (mail : Mail)
  | bumped (mail : Mail)
  | wrapped (mail : Mail)

/-- The ring, the registers of the PM, the pending interrupt and tasklet, and the
reader. -/
structure PmRing where
  regs : Mail
  pmMail : Nat → Mail
  pmIndxP : Nat
  pmIndxG : Nat
  irq : Bool
  tasklet : Bool
  reader : Reader
  halted : Bool
  fired : List Mail
  returned : List Mail

inductive PmStep where
  | fire (mail : Mail)
  | interrupt
  | tasklet
  | receive

namespace PmRing

def init (pmMail : Nat → Mail) : PmRing where
  regs := fun _ => 0
  pmMail := pmMail
  pmIndxP := 0
  pmIndxG := 0
  irq := false
  tasklet := false
  reader := .idle
  halted := false
  fired := []
  returned := []

/-- The PM fires a mail. -/
def fire (s : PmRing) (mail : Mail) : PmRing :=
  match opFireLoopback s.regs mail with
  | .error _ => s
  | .ok regs => { s with regs := regs, irq := true, fired := s.fired ++ [mail] }

/-- `PMIndxP + 1`, and 0 at 20 -/
def nextP (pmIndxP : Nat) : Nat := if pmIndxP + 1 = 20 then 0 else pmIndxP + 1

/-- `callback_receive_mail_int` for `CPUID_PM` -/
def callback (s : PmRing) : PmRing :=
  if (s.pmIndxP + 1) % 20 = s.pmIndxG then
    { s with regs := s.regs.overflowS, tasklet := false }
  else
    match opReceive (s.pmMail s.pmIndxP) s.regs with
    | none => { s with halted := true, tasklet := false }
    | some (mail, regs) =>
        { s with
          regs := regs
          pmMail := Function.update s.pmMail s.pmIndxP mail
          pmIndxP := nextP s.pmIndxP
          tasklet := false }

/-- The next statement of `_receive_mail_fromPM`. -/
def receive (s : PmRing) : PmRing :=
  match s.reader with
  | .idle =>
      if s.pmIndxG = s.pmIndxP then s
      else { s with reader := .copied (s.pmMail s.pmIndxG) }
  | .copied mail => { s with pmIndxG := s.pmIndxG + 1, reader := .bumped mail }
  | .bumped mail =>
      { s with
        pmIndxG := if s.pmIndxG = 20 then 0 else s.pmIndxG
        reader := .wrapped mail }
  | .wrapped mail =>
      { s with
        regs := s.regs.overflowC
        reader := .idle
        returned := s.returned ++ [mail] }

/-- The interrupt schedules the tasklet, which runs the callback. -/
def after (s : PmRing) : PmStep → PmRing
  | .fire mail => s.fire mail
  | .interrupt => if s.irq then { s with irq := false, tasklet := true } else s
  | .tasklet => if s.tasklet ∧ ¬ s.halted then s.callback else s
  | .receive => s.receive

/-- The slots that hold mails. -/
def unread (s : PmRing) : List Nat := IndexRing.cells 20 (s.pmIndxG % 20) s.pmIndxP

/-- The mail that `_receive_mail_fromPM` has taken out of the ring. -/
def hand (s : PmRing) : List Mail :=
  match s.reader with
  | .idle => []
  | .copied _ => []
  | .bumped mail => [mail]
  | .wrapped mail => [mail]

/-- The mail that waits in the registers. -/
def waiting (s : PmRing) : List Mail := if s.regs.fire then [s.regs] else []

def full (s : PmRing) : Prop := (s.pmIndxP + 1) % 20 = s.pmIndxG % 20

end PmRing

/-- A mail without the flags of the mailbox. -/
def Mail.payload (mail : Mail) : Mail := mail.fireC.busyC.overflowC

/-- The mails returned are the first of those fired, once each and in order; the
others are in the ring or, while it is full or an interrupt or a tasklet is
pending, in the registers. -/
structure PmLaw (s : PmRing) : Prop where
  running : s.halted = false
  once : (s.returned ++ s.hand ++ s.unread.map s.pmMail ++ s.waiting).map Mail.payload =
    s.fired.map Mail.payload
  collected : s.regs.fire = true → s.full ∨ s.irq = true ∨ s.tasklet = true

/-- The tasklet does not run between `PMIndxG + 1` and the wrap at 20 of a ring
that is full behind it, nor moves a mail that asks for an instant answer; and a
mail leaves the ring only while none is left behind in the registers. -/
def Collects (s : PmRing) : PmStep → Prop
  | .fire _ => True
  | .interrupt => True
  | .tasklet => s.tasklet = true →
      ¬ (s.pmIndxP = 19 ∧ s.pmIndxG = 20) ∧
        ((s.pmIndxP + 1) % 20 ≠ s.pmIndxG →
          s.regs.instant = false ∧ s.regs.readback = false)
  | .receive => ∀ mail, s.reader = .copied mail → s.regs.fire = true →
      s.irq = true ∨ s.tasklet = true

/-! ### Payloads -/

namespace Mail

variable {mail : Mail}

theorem testBit_payload {word : Fin 8} {bit : Fin 16} :
    mail.payload.testBit word bit = (mail.testBit word bit &&
      decide (¬ (word = 0 ∧ bit = 0)) && decide (¬ (word = 7 ∧ bit = 15)) &&
        decide (¬ (word = 7 ∧ bit = 13))) := by
  rw [payload, overflowC, testBit_clearBit, busyC, testBit_clearBit, fireC,
    testBit_clearBit]

@[simp]
theorem payload_fireS : mail.fireS.payload = mail.payload := by
  apply ext_testBit
  intro word bit
  rw [testBit_payload, testBit_payload, fireS, testBit_setBit]
  by_cases here : word = 0 ∧ bit = 0 <;> simp [here]

@[simp]
theorem payload_busyS : mail.busyS.payload = mail.payload := by
  apply ext_testBit
  intro word bit
  rw [testBit_payload, testBit_payload, busyS, testBit_setBit]
  by_cases here : word = 7 ∧ bit = 15 <;> simp [here]

@[simp]
theorem payload_overflowS : mail.overflowS.payload = mail.payload := by
  apply ext_testBit
  intro word bit
  rw [testBit_payload, testBit_payload, overflowS, testBit_setBit]
  by_cases here : word = 7 ∧ bit = 13 <;> simp [here]

@[simp]
theorem payload_overflowC : mail.overflowC.payload = mail.payload := by
  apply ext_testBit
  intro word bit
  rw [testBit_payload, testBit_payload, overflowC, testBit_clearBit]
  by_cases here : word = 7 ∧ bit = 13 <;> simp [here]

theorem map_payload_concat (mails : List Mail) {first second : Mail}
    (same : first.payload = second.payload) :
    (mails ++ [first]).map payload = (mails ++ [second]).map payload := by
  rw [List.map_append, List.map_append, List.map_singleton, same]
  rfl

@[simp]
theorem fire_overflowS : mail.overflowS.fire = mail.fire := by
  simp [fire, overflowS, testBit_setBit]

@[simp]
theorem fire_overflowC : mail.overflowC.fire = mail.fire := by
  simp [fire, overflowC, testBit_clearBit]

end Mail

theorem opFireLoopback_ok {regs mail next : Mail}
    (fired : opFireLoopback regs mail = .ok next) :
    regs.fire = false ∧ next = mail.fireS := by
  unfold opFireLoopback at fired
  split_ifs at fired with set
  cases fired
  exact ⟨by simpa using set, by rw [fill_eq]⟩

theorem opReceive_eq (dst regs : Mail) :
    opReceive dst regs =
      if regs.instant = false ∧ regs.readback = false then
        some (regs.busyS, regs.busyS.busyC.fireC)
      else none := by
  rw [opReceive, fill_eq, Mail.instant_busyS, Mail.readback_busyS]
  cases regs.instant <;> cases regs.readback <;> rfl

/-! ### The invariant of the runs -/

/-- Where `PMIndxG` is, and what a reader has copied. -/
def PmRing.Placed (s : PmRing) : Prop :=
  match s.reader with
  | .idle => s.pmIndxG < 20
  | .copied mail =>
      s.pmIndxG < 20 ∧ s.pmIndxG ≠ s.pmIndxP ∧ s.pmMail s.pmIndxG = mail
  | .bumped _ => s.pmIndxG ≤ 20
  | .wrapped _ => s.pmIndxG < 20

/-- What every run keeps that keeps the law. -/
structure Gathers (s : PmRing) : Prop where
  law : PmLaw s
  pLt : s.pmIndxP < 20
  placed : s.Placed
  pending : s.irq = true ∨ s.tasklet = true → s.regs.fire = true
  single : s.irq = true → s.tasklet = false

namespace PmRing

variable {s : PmRing}

theorem nextP_eq {pmIndxP : Nat} (small : pmIndxP < 20) :
    nextP pmIndxP = (pmIndxP + 1) % 20 :=
  (IndexRing.next_eq small).symm

theorem waiting_of_fire (set : s.regs.fire = true) : s.waiting = [s.regs] := if_pos set

theorem waiting_of_clear (clear : s.regs.fire = false) : s.waiting = [] :=
  if_neg (by simp [clear])

theorem Placed.le (placed : s.Placed) : s.pmIndxG ≤ 20 := by
  unfold Placed at placed
  split at placed <;> omega

theorem fire_cases (s : PmRing) (mail : Mail) :
    s.fire mail = s ∨ s.regs.fire = false ∧ s.fire mail =
      { s with regs := mail.fireS, irq := true, fired := s.fired ++ [mail] } := by
  unfold fire
  cases result : opFireLoopback s.regs mail with
  | error _ => exact Or.inl rfl
  | ok regs =>
      obtain ⟨clear, rfl⟩ := opFireLoopback_ok result
      exact Or.inr ⟨clear, rfl⟩

/-- The mail of the registers is in the ring. -/
def moved (s : PmRing) : PmRing :=
  { s with
    regs := s.regs.busyS.busyC.fireC
    pmMail := Function.update s.pmMail s.pmIndxP s.regs.busyS
    pmIndxP := nextP s.pmIndxP
    tasklet := false }

theorem callback_of_full (full : (s.pmIndxP + 1) % 20 = s.pmIndxG) :
    s.callback = { s with regs := s.regs.overflowS, tasklet := false } :=
  if_pos full

theorem callback_of_free (free : (s.pmIndxP + 1) % 20 ≠ s.pmIndxG) :
    s.callback =
      if s.regs.instant = false ∧ s.regs.readback = false then s.moved
      else { s with halted := true, tasklet := false } := by
  rw [callback, if_neg free, opReceive_eq]
  by_cases quiet : s.regs.instant = false ∧ s.regs.readback = false
  · rw [if_pos quiet, if_pos quiet]
    rfl
  · rw [if_neg quiet, if_neg quiet]

theorem waiting_moved : s.moved.waiting = [] := waiting_of_clear Mail.fire_fireC

/-- A ring with a free slot has fewer than 19 mails. -/
theorem used_of_not_full (pLt : s.pmIndxP < 20) (free : ¬ s.full) :
    IndexRing.used 20 (s.pmIndxG % 20) s.pmIndxP + 1 < 20 := by
  have below : IndexRing.used 20 (s.pmIndxG % 20) s.pmIndxP < 20 :=
    IndexRing.used_lt (by decide)
  by_contra least
  exact free (IndexRing.used_push_full (Nat.mod_lt _ (by decide)) pLt (by omega))

/-- The slot behind a mail that has left the ring is free. -/
theorem not_full_of_bump (pLt : s.pmIndxP < 20) (small : s.pmIndxG < 20)
    (some : s.pmIndxG ≠ s.pmIndxP) : (s.pmIndxP + 1) % 20 ≠ (s.pmIndxG + 1) % 20 := by
  intro same
  rw [IndexRing.next_eq pLt, IndexRing.next_eq small] at same
  split_ifs at same <;> omega

end PmRing

namespace Gathers

open PmRing

variable {s : PmRing}

theorem fire (gathers : Gathers s) (mail : Mail) : Gathers (s.fire mail) := by
  rcases fire_cases s mail with same | ⟨clear, fired⟩
  · rw [same]
    exact gathers
  obtain ⟨⟨running, once, -⟩, pLt, placed, pending, -⟩ := gathers
  have quiet : s.tasklet = false := by
    by_contra busy
    rw [pending (Or.inr (by simpa using busy))] at clear
    cases clear
  rw [fired]
  refine ⟨⟨running, ?_, fun _ => Or.inr (Or.inl rfl)⟩, pLt, placed,
    fun _ => Mail.fire_fireS, fun _ => quiet⟩
  rw [waiting_of_clear clear, List.append_nil] at once
  rw [waiting_of_fire Mail.fire_fireS]
  change (s.returned ++ s.hand ++ s.unread.map s.pmMail ++ [mail.fireS]).map Mail.payload =
    (s.fired ++ [mail]).map Mail.payload
  rw [List.map_append, once, List.map_append, List.map_singleton, List.map_singleton,
    Mail.payload_fireS]

theorem interrupt (gathers : Gathers s) : Gathers (s.after .interrupt) := by
  rw [PmRing.after]
  split_ifs with irq
  · obtain ⟨⟨running, once, _⟩, pLt, placed, pending, _⟩ := gathers
    exact ⟨⟨running, once, fun _ => Or.inr (Or.inr rfl)⟩, pLt, placed,
      fun _ => pending (Or.inl irq), fun none => by cases none⟩
  · exact gathers

/-! The callback, for a ring that is full, one that is full behind an index not yet
wrapped, and one with a free slot. -/

theorem no_irq (gathers : Gathers s) (tasklet : s.tasklet = true) : s.irq = false := by
  by_contra irq
  rw [gathers.single (by simpa using irq)] at tasklet
  cases tasklet

theorem callback_full (gathers : Gathers s) (tasklet : s.tasklet = true)
    (full : (s.pmIndxP + 1) % 20 = s.pmIndxG) : Gathers s.callback := by
  obtain ⟨⟨running, once, _⟩, pLt, placed, pending, _⟩ := gathers
  have set := pending (Or.inr tasklet)
  have lit : s.regs.overflowS.fire = true := by rwa [Mail.fire_overflowS]
  rw [callback_of_full full]
  refine ⟨⟨running, ?_, fun _ => Or.inl ?_⟩, pLt, placed, fun _ => lit, fun _ => rfl⟩
  · have left : PmRing.waiting { s with regs := s.regs.overflowS, tasklet := false } =
        [s.regs.overflowS] := waiting_of_fire lit
    rw [left]
    change (s.returned ++ s.hand ++ s.unread.map s.pmMail ++ [s.regs.overflowS]).map
      Mail.payload = s.fired.map Mail.payload
    rw [waiting_of_fire set] at once
    exact (Mail.map_payload_concat _ Mail.payload_overflowS).trans once
  · change (s.pmIndxP + 1) % 20 = s.pmIndxG % 20
    rw [← full, Nat.mod_mod]

theorem not_law_callback_unwrapped (gathers : Gathers s) (tasklet : s.tasklet = true)
    (last : s.pmIndxP = 19) (unwrapped : s.pmIndxG = 20) : ¬ PmLaw s.callback := by
  intro law
  rw [callback_of_free (by omega)] at law
  split_ifs at law with quiet
  · have before := congrArg List.length gathers.law.once
    have after := congrArg List.length law.once
    have many : s.unread.length = 19 := by
      rw [unread, IndexRing.length_cells, last, unwrapped]
      rfl
    have none : s.moved.unread = [] := by
      change IndexRing.cells 20 (s.pmIndxG % 20) (nextP s.pmIndxP) = []
      rw [last, unwrapped]
      rfl
    rw [waiting_of_fire (gathers.pending (Or.inr tasklet))] at before
    rw [none, waiting_moved] at after
    change ((s.returned ++ s.hand ++ [] ++ []).map _).length = (s.fired.map _).length
      at after
    simp only [List.length_map, List.length_append, many, List.length_nil,
      List.length_singleton] at before after
    omega
  · cases law.running

theorem callback_free (gathers : Gathers s) (tasklet : s.tasklet = true)
    (free : (s.pmIndxP + 1) % 20 ≠ s.pmIndxG) (wrapped : ¬ s.full) :
    Gathers s.moved := by
  have none := gathers.no_irq tasklet
  obtain ⟨⟨running, once, _⟩, pLt, placed, pending, _⟩ := gathers
  have set := pending (Or.inr tasklet)
  have unused : s.pmIndxP ∉ s.unread :=
    IndexRing.write_not_mem_cells (Nat.mod_lt s.pmIndxG (by decide)) pLt
  have more : s.moved.unread = s.unread ++ [s.pmIndxP] := by
    change IndexRing.cells 20 (s.pmIndxG % 20) (nextP s.pmIndxP) = _
    rw [nextP_eq pLt]
    exact IndexRing.cells_push (Nat.mod_lt _ (by decide)) pLt
      (used_of_not_full pLt wrapped)
  have kept : ∀ slot ∈ s.unread, s.moved.pmMail slot = s.pmMail slot := by
    intro slot member
    apply Function.update_of_ne
    rintro rfl
    exact unused member
  have copied : s.moved.pmMail s.pmIndxP = s.regs.busyS := Function.update_self _ _ _
  refine ⟨⟨running, ?_, ?_⟩, ?_, ?_, ?_, fun _ => rfl⟩
  · rw [waiting_moved, List.append_nil, more, @List.map_append _ _ s.moved.pmMail,
      List.map_congr_left kept, List.map_singleton, copied, ← List.append_assoc]
    change (s.returned ++ s.hand ++ s.unread.map s.pmMail ++ [s.regs.busyS]).map
      Mail.payload = s.fired.map Mail.payload
    rw [waiting_of_fire set] at once
    exact (Mail.map_payload_concat _ Mail.payload_busyS).trans once
  · intro lit
    exact absurd (lit.symm.trans Mail.fire_fireC) (by decide)
  · change nextP s.pmIndxP < 20
    rw [nextP_eq pLt]
    exact Nat.mod_lt _ (by decide)
  · unfold Placed at placed ⊢
    change match s.reader with
      | .idle => s.pmIndxG < 20
      | .copied mail => s.pmIndxG < 20 ∧ s.pmIndxG ≠ nextP s.pmIndxP ∧
          s.moved.pmMail s.pmIndxG = mail
      | .bumped _ => s.pmIndxG ≤ 20
      | .wrapped _ => s.pmIndxG < 20
    split at placed
    · exact placed
    · obtain ⟨small, apart, here⟩ := placed
      refine ⟨small, ?_, ?_⟩
      · rw [nextP_eq pLt]
        exact free.symm
      · rw [← here]
        exact Function.update_of_ne apart _ _
    · exact placed
    · exact placed
  · rintro (irq | busy)
    · exact absurd (none.symm.trans irq) (by decide)
    · cases busy

/-- Where the test of the callback sees a free slot, the ring is full only behind an
index that is not yet wrapped. -/
theorem full_iff (gathers : Gathers s) (free : (s.pmIndxP + 1) % 20 ≠ s.pmIndxG) :
    s.full ↔ s.pmIndxP = 19 ∧ s.pmIndxG = 20 := by
  have least := gathers.placed.le
  have small := gathers.pLt
  rw [PmRing.full]
  omega

theorem tasklet_iff (gathers : Gathers s) :
    PmLaw (s.after .tasklet) ↔ Collects s .tasklet := by
  rw [PmRing.after, Collects]
  by_cases tasklet : s.tasklet = true
  · rw [if_pos ⟨tasklet, by simp [gathers.law.running]⟩]
    by_cases full : (s.pmIndxP + 1) % 20 = s.pmIndxG
    · refine iff_of_true (gathers.callback_full tasklet full).law fun _ => ⟨?_, ?_⟩
      · rintro ⟨last, unwrapped⟩
        omega
      · exact fun free => absurd full free
    by_cases unwrapped : s.pmIndxP = 19 ∧ s.pmIndxG = 20
    · refine iff_of_false
        (gathers.not_law_callback_unwrapped tasklet unwrapped.1 unwrapped.2) ?_
      exact fun collects => (collects tasklet).1 unwrapped
    rw [callback_of_free full]
    by_cases quiet : s.regs.instant = false ∧ s.regs.readback = false
    · rw [if_pos quiet]
      have wrapped : ¬ s.full := mt (gathers.full_iff full).mp unwrapped
      exact iff_of_true (gathers.callback_free tasklet full wrapped).law
        fun _ => ⟨unwrapped, fun _ => quiet⟩
    · rw [if_neg quiet]
      refine iff_of_false (fun law => by cases law.running) ?_
      exact fun collects => quiet ((collects tasklet).2 full)
  · rw [if_neg fun both => tasklet both.1]
    exact iff_of_true gathers.law fun busy => absurd busy tasklet

theorem tasklet (gathers : Gathers s) (collects : Collects s .tasklet) :
    Gathers (s.after .tasklet) := by
  rw [PmRing.after]
  split_ifs with runs
  · obtain ⟨wrapped, quiet⟩ := collects runs.1
    by_cases full : (s.pmIndxP + 1) % 20 = s.pmIndxG
    · exact gathers.callback_full runs.1 full
    · rw [callback_of_free full, if_pos (quiet full)]
      exact gathers.callback_free runs.1 full (mt (gathers.full_iff full).mp wrapped)
  · exact gathers

/-! The statements of the reader. -/

theorem receive_idle (gathers : Gathers s) (reader : s.reader = .idle) :
    Gathers s.receive := by
  obtain ⟨⟨running, once, collected⟩, pLt, placed, pending, single⟩ := gathers
  rw [PmRing.receive, reader]
  dsimp only
  split_ifs with same
  · exact ⟨⟨running, once, collected⟩, pLt, placed, pending, single⟩
  · rw [Placed, reader] at placed
    rw [hand, reader] at once
    exact ⟨⟨running, once, collected⟩, pLt, ⟨placed, same, rfl⟩, pending, single⟩

theorem receive_copied {mail : Mail} (gathers : Gathers s)
    (reader : s.reader = .copied mail)
    (none : s.regs.fire = true → s.irq = true ∨ s.tasklet = true) :
    Gathers s.receive := by
  obtain ⟨⟨running, once, _⟩, pLt, placed, pending, single⟩ := gathers
  rw [Placed, reader] at placed
  obtain ⟨small, some, here⟩ := placed
  rw [PmRing.receive, reader]
  refine ⟨⟨running, ?_, fun lit => Or.inr (none lit)⟩, pLt, small, pending, single⟩
  have first : s.unread =
      s.pmIndxG :: IndexRing.cells 20 ((s.pmIndxG + 1) % 20) s.pmIndxP := by
    rw [unread, Nat.mod_eq_of_lt small]
    exact IndexRing.cells_pop small pLt some
  rw [hand, reader, first, List.map_cons, here, List.append_nil] at once
  rw [← once]
  change (s.returned ++ [mail] ++ _ ++ s.waiting).map _ = _
  rw [List.append_assoc s.returned]
  rfl

theorem receive_bumped {mail : Mail} (gathers : Gathers s)
    (reader : s.reader = .bumped mail) : Gathers s.receive := by
  obtain ⟨⟨running, once, collected⟩, pLt, placed, pending, single⟩ := gathers
  rw [Placed, reader] at placed
  rw [hand, reader] at once
  have wrap : (if s.pmIndxG = 20 then 0 else s.pmIndxG) = s.pmIndxG % 20 := by
    split_ifs with last
    · rw [last]
    · exact (Nat.mod_eq_of_lt (by omega)).symm
  rw [PmRing.receive, reader]
  dsimp only
  rw [wrap]
  refine ⟨⟨running, ?_, ?_⟩, pLt, Nat.mod_lt _ (by decide), pending, single⟩
  · change (s.returned ++ [mail] ++ List.map s.pmMail
      (IndexRing.cells 20 (s.pmIndxG % 20 % 20) s.pmIndxP) ++ s.waiting).map _ = _
    rw [Nat.mod_mod]
    exact once
  · intro lit
    rw [full, Nat.mod_mod]
    exact collected lit

theorem receive_wrapped {mail : Mail} (gathers : Gathers s)
    (reader : s.reader = .wrapped mail) : Gathers s.receive := by
  obtain ⟨⟨running, once, collected⟩, pLt, placed, pending, single⟩ := gathers
  rw [Placed, reader] at placed
  rw [hand, reader] at once
  have same : s.regs.overflowC.fire = s.regs.fire := Mail.fire_overflowC
  rw [PmRing.receive, reader]
  refine ⟨⟨running, ?_, fun lit => collected (same.symm.trans lit)⟩, pLt, placed,
    fun busy => same.trans (pending busy), single⟩
  change (s.returned ++ [mail] ++ [] ++ s.unread.map s.pmMail ++
    (if s.regs.overflowC.fire then [s.regs.overflowC] else [])).map _ = s.fired.map _
  rw [List.append_nil, same]
  rw [waiting] at once
  split_ifs at once ⊢
  · exact (Mail.map_payload_concat _ Mail.payload_overflowC).trans once
  · exact once

/-- A mail that leaves the ring frees a slot. -/
theorem not_full_receive {mail : Mail} (gathers : Gathers s)
    (reader : s.reader = .copied mail) : ¬ s.receive.full := by
  have placed := gathers.placed
  rw [Placed, reader] at placed
  rw [PmRing.receive, reader]
  exact not_full_of_bump gathers.pLt placed.1 placed.2.1

theorem receive_iff (gathers : Gathers s) :
    PmLaw s.receive ↔ Collects s .receive := by
  rw [Collects]
  cases reader : s.reader with
  | idle => exact iff_of_true (gathers.receive_idle reader).law fun _ same => by cases same
  | copied mail =>
      simp only [Reader.copied.injEq, forall_eq']
      constructor
      · intro law lit
        have free := gathers.not_full_receive reader
        have collected := law.collected
        rw [PmRing.receive, reader] at collected free
        exact (collected lit).resolve_left free
      · exact fun none => (gathers.receive_copied reader none).law
  | bumped mail =>
      exact iff_of_true (gathers.receive_bumped reader).law fun _ same => by cases same
  | wrapped mail =>
      exact iff_of_true (gathers.receive_wrapped reader).law fun _ same => by cases same

theorem receive (gathers : Gathers s) (collects : Collects s .receive) :
    Gathers s.receive := by
  cases reader : s.reader with
  | idle => exact gathers.receive_idle reader
  | copied mail => exact gathers.receive_copied reader (collects mail reader)
  | bumped mail => exact gathers.receive_bumped reader
  | wrapped mail => exact gathers.receive_wrapped reader

theorem after_iff (gathers : Gathers s) (step : PmStep) :
    PmLaw (s.after step) ↔ Collects s step := by
  cases step with
  | fire mail => exact iff_of_true (gathers.fire mail).law trivial
  | interrupt => exact iff_of_true gathers.interrupt.law trivial
  | tasklet => exact gathers.tasklet_iff
  | receive => exact gathers.receive_iff

theorem after (gathers : Gathers s) (step : PmStep) (collects : Collects s step) :
    Gathers (s.after step) := by
  cases step with
  | fire mail => exact gathers.fire mail
  | interrupt => exact gathers.interrupt
  | tasklet => exact gathers.tasklet collects
  | receive => exact gathers.receive collects

end Gathers

theorem law_init (pmMail : Nat → Mail) : PmLaw (.init pmMail) := by
  refine ⟨rfl, ?_, fun lit => absurd (fire_zero.symm.trans lit) (by decide)⟩
  have empty : (PmRing.init pmMail).unread = [] :=
    IndexRing.cells_of_eq (Nat.zero_lt_succ 19)
  rw [PmRing.waiting_of_clear fire_zero, empty]
  rfl

theorem gathers_init (pmMail : Nat → Mail) : Gathers (.init pmMail) where
  law := law_init pmMail
  pLt := Nat.zero_lt_succ 19
  placed := Nat.zero_lt_succ 19
  pending := fun busy => by rcases busy with none | none <;> cases none
  single := fun _ => rfl

/-- For every scheduling, the mails fired are returned once each and in order, with
none left behind in the registers, if and only if each step collects them. -/
theorem pmRing_iff (pmMail : Nat → Mail) (steps : List PmStep) :
    Run.Meets PmRing.after (fun s step => PmLaw (s.after step)) (.init pmMail) steps ↔
      Run.Meets PmRing.after Collects (.init pmMail) steps :=
  Run.meets_congr (fun _ step gathers => Gathers.after_iff gathers step)
    (fun _ step gathers law => gathers.after step ((gathers.after_iff step).mp law))
    (gathers_init pmMail)

/-- Nineteen mails fill the ring; the next one stays in the registers when a mail
leaves it. -/
theorem mail_left_behind :
    ¬ ∀ (pmMail : Nat → Mail) (steps : List PmStep),
      Run.Meets PmRing.after (fun s step => PmLaw (s.after step)) (.init pmMail)
        steps := by
  intro always
  have run := always (fun _ _ => 0)
    ((List.replicate 20 [.fire fun _ => 0, .interrupt, .tasklet]).flatten ++
      [.receive, .receive])
  have collected := ((Run.meets_append.mp run).2.2.1).collected
  revert collected
  unfold PmRing.full
  decide +kernel

end Gp2Firmware.Msmailbox
