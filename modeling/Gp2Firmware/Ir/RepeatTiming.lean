import Gp2Firmware.Lib.Run
import Gp2Firmware.Ir.TvLink
import Mathlib.Algebra.Group.Nat.Defs

/-!
# The timing of repeated keys

`_MDrv_IR_GetKey` of `mdrv_ir.c`, in its full decode mode, for keys that come at any time.
The header `mdrv_ir.h` says which repeats are sent: the first one is the fifth of those
that come every 200 ms with a first delay of 1000 ms.
-/

namespace Gp2Firmware.Ir

/-- What is read of the FIFO: a key, and whether `IR_RPT_FLAG` is set. -/
structure KeyEntry where
  key : U8
  flag : Bool
  deriving DecidableEq

/-- The static variables that `_MDrv_IR_GetKey` works with. -/
structure KeyTerm where
  u32FirstDelayTimeMs : U32
  u32SecondDelayTimeMs : U32
  ePrevKeyProperty : KeyProperty
  u8PrevKeyCode : U8
  ulPrevKeyTime : U32

namespace KeyTerm

/-- Behind `MDrv_IR_Init`, which leaves the previous key and its time as they are. -/
def init (u8PrevKeyCode : U8) (ulPrevKeyTime : U32) : KeyTerm :=
  ⟨0, 0, .init, u8PrevKeyCode, ulPrevKeyTime⟩

def setDelayTime (s : KeyTerm) (u32FirstDelayTimeMs u32SecondDelayTimeMs : U32) : KeyTerm :=
  { s with
    u32FirstDelayTimeMs := u32FirstDelayTimeMs
    u32SecondDelayTimeMs := u32SecondDelayTimeMs }

/-- `_ePrevKeyProperty` behind the first test. -/
def keyProperty (s : KeyTerm) (entry : KeyEntry) : KeyProperty :=
  if s.u8PrevKeyCode ≠ entry.key ∨ entry.flag = false then .init else s.ePrevKeyProperty

/-- The term of a key that was read at the time `i`, and `bRet`. -/
def passTerm (s : KeyTerm) (i : U32) (entry : KeyEntry) : Bool × KeyTerm :=
  match s.keyProperty entry with
  | .init =>
      (true, { s with
        u8PrevKeyCode := entry.key
        ulPrevKeyTime := i
        ePrevKeyProperty := .first })
  | .first =>
      if i - s.ulPrevKeyTime > s.u32FirstDelayTimeMs then
        (true, { s with ulPrevKeyTime := i, ePrevKeyProperty := .following })
      else
        (false, s)
  | .following =>
      if i - s.ulPrevKeyTime > s.u32SecondDelayTimeMs then
        (true, { s with ulPrevKeyTime := i })
      else
        (false, s)

/-- `_MDrv_IR_GetKey`; what is behind the first entry of the FIFO is thrown away. -/
def getKey (s : KeyTerm) (i : U32) : List KeyEntry → Bool × KeyTerm
  | [] => (false, s)
  | entry :: _ => s.passTerm i entry

end KeyTerm

/-! ### The law -/

/-- A key that is held down: when it was pressed, or its last repeat was sent. -/
structure HeldKey where
  key : U8
  since : Nat
  repeated : Bool

/-- What the documentation says about the repeats. -/
structure RepeatLaw where
  firstDelay : U32
  secondDelay : U32
  held : Option HeldKey

namespace RepeatLaw

def start : RepeatLaw := ⟨0, 0, none⟩

/-- The key of the entry is held down. -/
def repeats (law : RepeatLaw) (entry : KeyEntry) : Option HeldKey :=
  law.held.filter fun held => held.key == entry.key && entry.flag

/-- The delay of the next repeat. -/
def delay (law : RepeatLaw) (held : HeldKey) : U32 :=
  if held.repeated then law.secondDelay else law.firstDelay

def Sends (law : RepeatLaw) (now : Nat) (entry : KeyEntry) : Prop :=
  ∀ held ∈ law.repeats entry, (law.delay held).toNat ≤ now - held.since

instance (law : RepeatLaw) (now : Nat) (entry : KeyEntry) :
    Decidable (law.Sends now entry) := by
  unfold Sends
  infer_instance

/-- A press is held from now on, and so is a repeat that is sent. -/
def afterKey (law : RepeatLaw) (now : Nat) (entry : KeyEntry) : RepeatLaw :=
  if law.Sends now entry then
    { law with held := some ⟨entry.key, now, (law.repeats entry).isSome⟩ }
  else
    law

end RepeatLaw

inductive KeyEvent where
  | setDelayTime (firstDelay secondDelay : U32)
  /-- `_MDrv_IR_GetKey` some milliseconds later. -/
  | getKey (elapsed : Nat) (fifo : List KeyEntry)

/-- The driver beside the law, and the time in milliseconds, of which the driver reads the
lower 32 bits. -/
structure Keyboard where
  now : Nat
  term : KeyTerm
  law : RepeatLaw

namespace Keyboard

def start (now : Nat) (u8PrevKeyCode : U8) (ulPrevKeyTime : U32) : Keyboard :=
  ⟨now, .init u8PrevKeyCode ulPrevKeyTime, .start⟩

def after (s : Keyboard) : KeyEvent → Keyboard
  | .setDelayTime firstDelay secondDelay =>
      { s with
        term := s.term.setDelayTime firstDelay secondDelay
        law := { s.law with firstDelay := firstDelay, secondDelay := secondDelay } }
  | .getKey elapsed fifo =>
      { now := s.now + elapsed
        term := (s.term.getKey (BitVec.ofNat 32 (s.now + elapsed)) fifo).2
        law := fifo.head?.elim s.law (s.law.afterKey (s.now + elapsed)) }

/-- The key is delivered if and only if the law sends it. -/
def Obeys (s : Keyboard) : KeyEvent → Prop
  | .setDelayTime _ _ => True
  | .getKey _ [] => True
  | .getKey elapsed (entry :: rest) =>
      (s.term.getKey (BitVec.ofNat 32 (s.now + elapsed)) (entry :: rest)).1 = true ↔
        s.law.Sends (s.now + elapsed) entry

instance (s : Keyboard) : DecidablePred s.Obeys
  | .setDelayTime _ _ => .isTrue trivial
  | .getKey _ [] => .isTrue trivial
  | .getKey _ (_ :: _) => inferInstanceAs (Decidable (_ ↔ _))

/-- A repeat does not come when the delay is just over, and if it comes more than 2 ^ 32
milliseconds later, the remainder is longer than the delay. -/
def Apart (s : Keyboard) : KeyEvent → Prop
  | .setDelayTime _ _ => True
  | .getKey _ [] => True
  | .getKey elapsed (entry :: _) =>
      ∀ held ∈ s.law.repeats entry,
        s.now + elapsed - held.since ≠ (s.law.delay held).toNat ∧
          (2 ^ 32 ≤ s.now + elapsed - held.since →
            (s.law.delay held).toNat < (s.now + elapsed - held.since) % 2 ^ 32)

/-- The property of a key that is held down. -/
def heldProperty : Option HeldKey → KeyProperty
  | none => .init
  | some held => if held.repeated then .following else .first

/-- The driver remembers what the law does. -/
structure Agrees (s : Keyboard) : Prop where
  firstDelay : s.term.u32FirstDelayTimeMs = s.law.firstDelay
  secondDelay : s.term.u32SecondDelayTimeMs = s.law.secondDelay
  property : s.term.ePrevKeyProperty = heldProperty s.law.held
  held : ∀ held ∈ s.law.held, s.term.u8PrevKeyCode = held.key ∧
    s.term.ulPrevKeyTime = BitVec.ofNat 32 held.since ∧ held.since ≤ s.now

end Keyboard

/-! ### One call -/

theorem later_iff {since now : Nat} {delay : U32} (before : since ≤ now) :
    BitVec.ofNat 32 now - BitVec.ofNat 32 since > delay ↔
      delay.toNat < (now - since) % 2 ^ 32 := by
  have split : BitVec.ofNat 32 now - BitVec.ofNat 32 since = BitVec.ofNat 32 (now - since) := by
    apply BitVec.eq_of_toNat_eq
    simp only [BitVec.toNat_sub, BitVec.toNat_ofNat]
    omega
  rw [split, gt_iff_lt, BitVec.lt_def, BitVec.toNat_ofNat]

theorem RepeatLaw.mem_repeats {law : RepeatLaw} {entry : KeyEntry} {held : HeldKey} :
    held ∈ law.repeats entry ↔
      held ∈ law.held ∧ held.key = entry.key ∧ entry.flag = true := by
  simp [repeats, Option.mem_def, Option.filter_eq_some_iff]

namespace Keyboard

variable {s : Keyboard} {entry : KeyEntry}

theorem Agrees.keyProperty_of_none (agrees : s.Agrees) (press : s.law.repeats entry = none) :
    s.term.keyProperty entry = .init := by
  rw [KeyTerm.keyProperty]
  split
  · rfl
  · rename_i same
    push Not at same
    rw [agrees.property]
    cases holds : s.law.held with
    | none => rfl
    | some held =>
        have key := (agrees.held held holds).1
        have repeated : held ∈ s.law.repeats entry :=
          RepeatLaw.mem_repeats.mpr ⟨holds, key.symm.trans same.1, by simpa using same.2⟩
        rw [press] at repeated
        cases repeated

theorem Agrees.keyProperty_of_some (agrees : s.Agrees) {held : HeldKey}
    (repeated : held ∈ s.law.repeats entry) :
    s.term.keyProperty entry = heldProperty (some held) := by
  obtain ⟨holds, key, flag⟩ := RepeatLaw.mem_repeats.mp repeated
  have same := (agrees.held held holds).1
  rw [KeyTerm.keyProperty, if_neg, agrees.property, holds]
  simp [same, key, flag]

/-- The time of the driver is long enough. -/
def Late (s : Keyboard) (now : Nat) (entry : KeyEntry) : Prop :=
  ∀ held ∈ s.law.repeats entry, (s.law.delay held).toNat < (now - held.since) % 2 ^ 32

/-- What a call of the driver does in the terms of the law. -/
theorem Agrees.passTerm (agrees : s.Agrees) {now : Nat} (later : s.now ≤ now) :
    s.Late now entry ∧
        s.term.passTerm (BitVec.ofNat 32 now) entry =
          (true, { s.term with
            u8PrevKeyCode := entry.key
            ulPrevKeyTime := BitVec.ofNat 32 now
            ePrevKeyProperty :=
              heldProperty (some ⟨entry.key, now, (s.law.repeats entry).isSome⟩) }) ∨
      ¬ s.Late now entry ∧
        s.term.passTerm (BitVec.ofNat 32 now) entry = (false, s.term) := by
  rw [KeyTerm.passTerm]
  cases repeats : s.law.repeats entry with
  | none =>
      rw [agrees.keyProperty_of_none repeats]
      left
      refine ⟨?_, rfl⟩
      intro held member
      rw [repeats] at member
      cases member
  | some held =>
      obtain ⟨holds, key, -⟩ := RepeatLaw.mem_repeats.mp repeats
      obtain ⟨code, time, before⟩ := agrees.held held holds
      have late_iff : s.Late now entry ↔ (s.law.delay held).toNat < (now - held.since) % 2 ^ 32 := by
        simp [Late, repeats]
      have reached := @later_iff held.since now (s.law.delay held) (Nat.le_trans before later)
      rw [agrees.keyProperty_of_some repeats, heldProperty, time, late_iff, ← reached]
      rw [RepeatLaw.delay]
      by_cases again : held.repeated = true
      · simp only [again, if_true, agrees.secondDelay]
        split
        · rename_i late
          left
          have following : s.term.ePrevKeyProperty = .following := by
            rw [agrees.property, Option.mem_def.mp holds, heldProperty, if_pos again]
          exact ⟨late, by simp [heldProperty, ← key, ← code, ← following]⟩
        · rename_i early
          exact .inr ⟨early, rfl⟩
      · simp only [again, Bool.false_eq_true, if_false, agrees.firstDelay]
        split
        · rename_i late
          left
          exact ⟨late, by simp [heldProperty, ← key, code]⟩
        · rename_i early
          exact .inr ⟨early, rfl⟩

/-- The law is obeyed if and only if the two ways to compare the times agree. -/
theorem late_iff_sends_iff {elapsed : Nat} :
    (s.Late (s.now + elapsed) entry ↔ s.law.Sends (s.now + elapsed) entry) ↔
      s.Apart (.getKey elapsed [entry]) := by
  rw [Late, RepeatLaw.Sends, Apart]
  cases repeats : s.law.repeats entry with
  | none => simp
  | some held =>
      have bound := (s.law.delay held).isLt
      simp only [Option.mem_def, Option.some.injEq, forall_eq']
      omega

theorem obeys_iff_apart (agrees : s.Agrees) (event : KeyEvent) :
    s.Obeys event ↔ s.Apart event := by
  cases event with
  | setDelayTime firstDelay secondDelay => exact Iff.rfl
  | getKey elapsed fifo =>
      cases fifo with
      | nil => exact Iff.rfl
      | cons entry rest =>
          have single : s.Apart (.getKey elapsed (entry :: rest)) =
              s.Apart (.getKey elapsed [entry]) := rfl
          rw [single, ← late_iff_sends_iff, Obeys, KeyTerm.getKey]
          rcases @Agrees.passTerm s entry agrees _ (Nat.le_add_right s.now elapsed) with
            ⟨late, passed⟩ | ⟨early, passed⟩
          · simp [passed, late]
          · simp [passed, early]

/-- A call that obeys the law is remembered in the same way. -/
theorem agrees_after (agrees : s.Agrees) (event : KeyEvent) (obeys : s.Obeys event) :
    (s.after event).Agrees := by
  cases event with
  | setDelayTime firstDelay secondDelay =>
      exact ⟨rfl, rfl, agrees.property, agrees.held⟩
  | getKey elapsed fifo =>
      cases fifo with
      | nil =>
          refine ⟨agrees.firstDelay, agrees.secondDelay, agrees.property, ?_⟩
          intro held member
          obtain ⟨key, time, before⟩ := agrees.held held member
          exact ⟨key, time, Nat.le_add_right_of_le before⟩
      | cons entry rest =>
          rw [Obeys, KeyTerm.getKey] at obeys
          rcases @Agrees.passTerm s entry agrees _ (Nat.le_add_right s.now elapsed) with
            ⟨-, passed⟩ | ⟨-, passed⟩
          · have sends := obeys.mp (congrArg Prod.fst passed)
            simp only [after, KeyTerm.getKey, passed, List.head?_cons, Option.elim_some,
              RepeatLaw.afterKey, if_pos sends]
            refine ⟨agrees.firstDelay, agrees.secondDelay, rfl, ?_⟩
            intro held member
            obtain rfl := Option.some.inj member
            exact ⟨rfl, rfl, Nat.le_refl _⟩
          · have early : ¬ s.law.Sends (s.now + elapsed) entry := by
              intro sends
              have sent := obeys.mpr sends
              rw [passed] at sent
              cases sent
            simp only [after, KeyTerm.getKey, passed, List.head?_cons, Option.elim_some,
              RepeatLaw.afterKey, if_neg early]
            refine ⟨agrees.firstDelay, agrees.secondDelay, agrees.property, ?_⟩
            intro held member
            obtain ⟨key, time, before⟩ := agrees.held held member
            exact ⟨key, time, Nat.le_add_right_of_le before⟩

/-! ### Runs -/

theorem agrees_start {now : Nat} {u8PrevKeyCode : U8} {ulPrevKeyTime : U32} :
    (start now u8PrevKeyCode ulPrevKeyTime).Agrees := by
  refine ⟨rfl, rfl, rfl, ?_⟩
  intro held member
  cases member

/-- The keys of a run are delivered as the law says if and only if its repeats are apart
from their delays. -/
theorem obeys_law_iff (now : Nat) (u8PrevKeyCode : U8) (ulPrevKeyTime : U32)
    (events : List KeyEvent) :
    Run.Meets after Obeys (start now u8PrevKeyCode ulPrevKeyTime) events ↔
      Run.Meets after Apart (start now u8PrevKeyCode ulPrevKeyTime) events := by
  apply @Run.meets_congr _ _ _ _ _ Agrees
  · exact fun s event agrees => obeys_iff_apart agrees event
  · exact fun s event agrees obeys => agrees_after agrees event obeys
  · exact agrees_start

/-- A key that is held for a second: the fifth repeat after 1000 ms is not delivered. -/
theorem law_not_obeyed :
    ¬ ∀ (now : Nat) (u8PrevKeyCode : U8) (ulPrevKeyTime : U32) (events : List KeyEvent),
      Run.Meets after Obeys (start now u8PrevKeyCode ulPrevKeyTime) events := by
  intro always
  have failed : ¬ Run.Meets after Obeys (start 0 0 0)
      (.setDelayTime 1000 500 :: .getKey 200 [⟨0x12, false⟩] ::
        List.replicate 5 (.getKey 200 [⟨0x12, true⟩])) := by
    decide
  exact failed (always 0 0 0 _)

end Keyboard

end Gp2Firmware.Ir
