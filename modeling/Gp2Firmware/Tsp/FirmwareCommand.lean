import Gp2Firmware.Lib.Run
import Gp2Firmware.Tsp.Packet

/-!
# The command mailbox of the TSP firmware

`MHal_TSP_SendFWCmd` of `mhal_tsp.c` and `ProcCmd` of `fw_tsp.c` share the word
`shm_cmd`: the host stores a command and polls until the firmware has stored
`TSP_CMD_CLEAR`, at most `TSP_CMD_TIMEOUT_MS` times.
-/

namespace Gp2Firmware.Tsp

/-- The arguments of `MHal_TSP_SendFWCmd`. -/
structure Command where
  id : BitVec 8
  param1 : BitVec 8
  param2 : BitVec 8
  param3 : BitVec 8

/-- The word that `MHal_TSP_SendFWCmd` stores. -/
def Command.word (c : Command) : U32 :=
  c.id.setWidth 32 ||| (c.param1.setWidth 32 <<< 8) |||
    (c.param2.setWidth 32 <<< 16) ||| (c.param3.setWidth 32 <<< 24)

/-- What a case of `ProcCmd` calls. -/
inductive FwCall where
  | resetFlt (eng fid type : BitVec 8)
  | setNotVersion (fid ver : BitVec 8) (enable : Bool)
  | setFltMapping (eng secfltid pidfltid : BitVec 8)
  | setPcrOfs (ofs : U32)
  deriving DecidableEq

/-- What a command asks for, with its own parameters. -/
def Command.call (c : Command) : Option FwCall :=
  if c.id = 0xC0 then some (.resetFlt c.param1 c.param2 c.param3)
  else if c.id = 0xC1 ∨ c.id = 0xC2 then
    some (.setNotVersion c.param1 c.param2 (c.id == 0xC1))
  else if c.id = 0xC3 then some (.setFltMapping c.param1 c.param2 c.param3)
  else if c.id = 0xC4 then some (.setPcrOfs (c.word.sshiftRight 8))
  else none

/-- `cmd[k]` for the firmware, which is big-endian. -/
def cmdByte (word : U32) (k : Nat) : BitVec 8 := (word >>> (8 * (3 - k))).setWidth 8

/-- The case of `ProcCmd` for a value of `cmd[3]`, run while `shm_cmd` holds a
word. -/
def procCase (case : BitVec 8) (word : U32) : Option FwCall :=
  if case = 0xC0 then
    some (.resetFlt (cmdByte word 2) (cmdByte word 1) (cmdByte word 0))
  else if case = 0xC1 ∨ case = 0xC2 then
    some (.setNotVersion (cmdByte word 2) (cmdByte word 1) (cmdByte word 3 == 0xC1))
  else if case = 0xC3 then
    some (.setFltMapping (cmdByte word 2) (cmdByte word 1) (cmdByte word 0))
  else if case = 0xC4 then some (.setPcrOfs (word.sshiftRight 8))
  else none

/-- Where the firmware is in `ProcCmd`. -/
inductive FwState where
  | idle
  | dispatched (case : BitVec 8)
  | executed

/-- The shared word, the polls that a call on the host has left, the firmware,
and what was sent and executed so far. -/
structure Mailbox where
  shmCmd : U32
  host : Option Nat
  fw : FwState
  mcuData1 : U32
  sent : List Command
  done : List FwCall

/-- `TSP_CMD_CLEAR` -/
def cmdClear : U32 := 0

/-- `TSP_CMD_TIMEOUT_MS` -/
def cmdTimeoutMs : Nat := 100

/-- After `FwTSP_Init`. -/
def Mailbox.init (mcuData1 : U32) : Mailbox := ⟨cmdClear, none, .idle, mcuData1, [], []⟩

/-- The end of `ProcCmd`: the host asks whether the firmware is alive. -/
def Mailbox.alive (s : Mailbox) : Mailbox :=
  if s.mcuData1 = 0xAB then { s with mcuData1 := 0xCD } else s

inductive MailStep where
  | send (c : Command)
  | poll
  | firmware

/-- The next step of the firmware: the switch on `cmd[3]`, the call of its case,
the store of `TSP_CMD_CLEAR`. -/
def Mailbox.firmwareStep (s : Mailbox) : Mailbox :=
  match s.fw with
  | .idle =>
      if (procCase (cmdByte s.shmCmd 3) s.shmCmd).isSome then
        { s with fw := .dispatched (cmdByte s.shmCmd 3) }
      else s.alive
  | .dispatched case =>
      { s with
        done := s.done ++ (procCase case s.shmCmd).toList
        fw := .executed }
  | .executed => { s with shmCmd := cmdClear, fw := .idle }.alive

/-- One poll of `MHal_TSP_SendFWCmd`. -/
def Mailbox.pollStep (s : Mailbox) : Mailbox :=
  match s.host with
  | none => s
  | some u32TimeOut =>
      if u32TimeOut - 1 ≠ 0 ∧ s.shmCmd ≠ cmdClear then
        { s with host := some (u32TimeOut - 1) }
      else { s with host := none }

/-- The store with which `MHal_TSP_SendFWCmd` starts. -/
def Mailbox.posted (s : Mailbox) (c : Command) : Mailbox :=
  { s with shmCmd := c.word, host := some cmdTimeoutMs, sent := s.sent ++ [c] }

/-- The host makes its calls one after the other. -/
def Mailbox.after (s : Mailbox) : MailStep → Mailbox
  | .send c => if s.host = none then s.posted c else s
  | .poll => s.pollStep
  | .firmware => s.firmwareStep

/-- The commands executed are the first ones sent, in order and with their own
parameters, and after two more steps of the firmware they are all of them. -/
structure CommandLaw (s : Mailbox) : Prop where
  inOrder : s.done.map some <+: s.sent.map Command.call
  served : s.firmwareStep.firmwareStep.done.map some = s.sent.map Command.call

/-- A call starts while the mailbox reads `TSP_CMD_CLEAR`, with a command that
the firmware knows. -/
def StartsClear (s : Mailbox) : MailStep → Prop
  | .send c => s.host = none → s.shmCmd = cmdClear ∧ c.call ≠ none
  | .poll => True
  | .firmware => True

/-! ### The bytes of a command -/

theorem cmdByte_word_id (c : Command) : cmdByte c.word 3 = c.id := by
  ext i small
  simp [cmdByte, Command.word]

theorem cmdByte_word_param1 (c : Command) : cmdByte c.word 2 = c.param1 := by
  ext i small
  have below : 8 + i < 16 := by omega
  have inside : 8 + i < 24 := by omega
  have top : 8 + i < 32 := by omega
  have wide : i < 32 := by omega
  have apart : ¬ 8 + i < 8 := by omega
  simp [cmdByte, Command.word, below, inside, top, wide, apart,
    BitVec.getLsbD_eq_getElem small]

theorem cmdByte_word_param2 (c : Command) : cmdByte c.word 1 = c.param2 := by
  ext i small
  have below : 16 + i < 24 := by omega
  have noId : c.id.getLsbD (16 + i) = false := BitVec.getLsbD_of_ge _ _ (by omega)
  have noParam1 : c.param1.getLsbD (16 + i - 8) = false :=
    BitVec.getLsbD_of_ge _ _ (by omega)
  have inside : 16 + i < 32 := by omega
  simp [cmdByte, Command.word, below, inside, noId, noParam1,
    BitVec.getLsbD_eq_getElem small]

theorem cmdByte_word_param3 (c : Command) : cmdByte c.word 0 = c.param3 := by
  ext i small
  have below : 24 + i < 32 := by omega
  have noId : c.id.getLsbD (24 + i) = false := BitVec.getLsbD_of_ge _ _ (by omega)
  have noParam1 : c.param1.getLsbD (24 + i - 8) = false :=
    BitVec.getLsbD_of_ge _ _ (by omega)
  have noParam2 : c.param2.getLsbD (24 + i - 16) = false :=
    BitVec.getLsbD_of_ge _ _ (by omega)
  simp [cmdByte, Command.word, below, noId, noParam1, noParam2,
    BitVec.getLsbD_eq_getElem small]

/-- The firmware calls what the command asks for. -/
theorem procCase_word (c : Command) : procCase c.id c.word = c.call := by
  rw [procCase, cmdByte_word_id, cmdByte_word_param1, cmdByte_word_param2,
    cmdByte_word_param3]
  rfl

theorem word_ne_clear {c : Command} (known : c.call ≠ none) : c.word ≠ cmdClear := by
  intro clear
  have id : c.id = 0 := by
    rw [← cmdByte_word_id, clear]
    decide
  rw [Command.call, id] at known
  exact known (by simp)

/-! ### The invariant of the runs -/

/-- All commands are executed, and the mailbox is clear or about to be cleared;
or all but the last are, which waits in the mailbox. -/
inductive Served (s : Mailbox) : Prop where
  | all (done : s.done.map some = s.sent.map Command.call)
      (rest : (s.shmCmd = cmdClear ∧ s.fw = .idle) ∨
        (s.shmCmd ≠ cmdClear ∧ s.fw = .executed))
  | waits (before : List Command) (last : Command) (sent : s.sent = before ++ [last])
      (done : s.done.map some = before.map Command.call) (known : last.call ≠ none)
      (word : s.shmCmd = last.word) (fw : s.fw = .idle ∨ s.fw = .dispatched last.id)

variable {s : Mailbox}

@[simp]
theorem alive_done : s.alive.done = s.done := by
  unfold Mailbox.alive
  split_ifs <;> rfl

@[simp]
theorem alive_sent : s.alive.sent = s.sent := by
  unfold Mailbox.alive
  split_ifs <;> rfl

@[simp]
theorem alive_shmCmd : s.alive.shmCmd = s.shmCmd := by
  unfold Mailbox.alive
  split_ifs <;> rfl

@[simp]
theorem alive_fw : s.alive.fw = s.fw := by
  unfold Mailbox.alive
  split_ifs <;> rfl

/-! One lemma for each step of the firmware. -/

theorem firmwareStep_clear (clear : s.shmCmd = cmdClear) (idle : s.fw = .idle) :
    s.firmwareStep = s.alive := by
  rw [Mailbox.firmwareStep, idle, clear]
  rfl

theorem firmwareStep_idle {c : Command} (word : s.shmCmd = c.word)
    (idle : s.fw = .idle) :
    s.firmwareStep =
      if c.call ≠ none then { s with fw := .dispatched c.id } else s.alive := by
  rw [Mailbox.firmwareStep, idle, word]
  simp only [cmdByte_word_id, procCase_word, Option.isSome_iff_ne_none]

theorem firmwareStep_dispatched {c : Command} (word : s.shmCmd = c.word)
    (dispatched : s.fw = .dispatched c.id) :
    s.firmwareStep = { s with done := s.done ++ c.call.toList, fw := .executed } := by
  rw [Mailbox.firmwareStep, dispatched, word]
  simp only [procCase_word]

@[simp]
theorem firmwareStep_sent : s.firmwareStep.sent = s.sent := by
  unfold Mailbox.firmwareStep
  split
  · split_ifs <;> simp
  · rfl
  · simp

/-- In two steps the firmware executes at most one command. -/
theorem length_done_two_steps :
    s.firmwareStep.firmwareStep.done.length ≤ s.done.length + 1 := by
  have quiet : ∀ t : Mailbox, (∀ case, t.fw ≠ .dispatched case) →
      t.firmwareStep.done = t.done := by
    intro t other
    unfold Mailbox.firmwareStep
    split
    · split_ifs <;> simp
    · exact absurd (by assumption) (other _)
    · simp
  have one : ∀ t : Mailbox, t.firmwareStep.done.length ≤ t.done.length + 1 := by
    intro t
    unfold Mailbox.firmwareStep
    split
    · split_ifs <;> simp
    · rw [List.length_append]
      exact Nat.add_le_add_left Option.length_toList_le _
    · simp
  cases fw : s.fw with
  | dispatched case =>
      have executed : s.firmwareStep.fw = .executed := by
        rw [Mailbox.firmwareStep, fw]
      rw [quiet s.firmwareStep (by simp [executed])]
      exact one s
  | idle =>
      rw [← quiet s (by simp [fw])]
      exact one s.firmwareStep
  | executed =>
      rw [← quiet s (by simp [fw])]
      exact one s.firmwareStep

theorem firmwareStep_executed (executed : s.fw = .executed) :
    s.firmwareStep = { s with shmCmd := cmdClear, fw := .idle }.alive := by
  rw [Mailbox.firmwareStep, executed]

theorem toList_map_some {call : Option FwCall} (known : call ≠ none) :
    call.toList.map some = [call] := by
  cases call with
  | none => exact absurd rfl known
  | some call => rfl

namespace Served

theorem law (served : Served s) : CommandLaw s := by
  cases served with
  | all done rest =>
      refine ⟨done ▸ List.prefix_rfl, ?_⟩
      rcases rest with ⟨clear, idle⟩ | ⟨_, executed⟩
      · rw [firmwareStep_clear clear idle,
          firmwareStep_clear (alive_shmCmd.trans clear) (alive_fw.trans idle),
          alive_done, alive_done, done]
      · rw [firmwareStep_executed executed,
          firmwareStep_clear alive_shmCmd alive_fw, alive_done, alive_done, done]
  | waits before last sent done known word fw =>
      have whole : (s.done ++ last.call.toList).map some = s.sent.map Command.call := by
        rw [List.map_append, done, toList_map_some known, sent, List.map_append]
        rfl
      refine ⟨?_, ?_⟩
      · rw [sent, List.map_append, done]
        exact List.prefix_append _ _
      · rcases fw with idle | dispatched
        · rw [firmwareStep_idle word idle, if_pos known]
          exact (congrArg (List.map some) (congrArg Mailbox.done
            (@firmwareStep_dispatched { s with fw := .dispatched last.id } last word
              rfl))).trans whole
        · rw [firmwareStep_dispatched word dispatched, firmwareStep_executed rfl,
            alive_done]
          exact whole

theorem firmware (served : Served s) : Served s.firmwareStep := by
  cases served with
  | all done rest =>
      rcases rest with ⟨clear, idle⟩ | ⟨_, executed⟩
      · rw [firmwareStep_clear clear idle]
        refine .all (by simpa using done) (Or.inl ?_)
        simpa using And.intro clear idle
      · rw [firmwareStep_executed executed]
        exact .all (by simpa using done) (Or.inl (by simp))
  | waits before last sent done known word fw =>
      rcases fw with idle | dispatched
      · rw [firmwareStep_idle word idle, if_pos known]
        exact .waits before last sent done known word (Or.inr rfl)
      · rw [firmwareStep_dispatched word dispatched]
        refine .all ?_ (Or.inr ⟨word ▸ word_ne_clear known, rfl⟩)
        rw [List.map_append, done, toList_map_some known]
        simp [sent]

theorem poll (served : Served s) : Served s.pollStep := by
  have same : s.pollStep.shmCmd = s.shmCmd ∧ s.pollStep.fw = s.fw ∧
      s.pollStep.sent = s.sent ∧ s.pollStep.done = s.done := by
    unfold Mailbox.pollStep
    split
    · exact ⟨rfl, rfl, rfl, rfl⟩
    · split_ifs <;> exact ⟨rfl, rfl, rfl, rfl⟩
  obtain ⟨word, fw, sent, done⟩ := same
  cases served with
  | all finished rest => exact .all (by rw [done, sent, finished]) (by rwa [word, fw])
  | waits before last last' finished known here there =>
      exact .waits before last (sent.trans last') (by rw [done, finished]) known
        (word.trans here) (by rwa [fw])

theorem send {c : Command} (served : Served s) (clear : s.shmCmd = cmdClear)
    (known : c.call ≠ none) :
    Served (s.posted c) := by
  cases served with
  | all done rest =>
      rcases rest with ⟨_, idle⟩ | ⟨busy, _⟩
      · exact .waits s.sent c rfl done known rfl (Or.inl idle)
      · exact absurd clear busy
  | waits before last sent done lastKnown word fw =>
      exact absurd (word.symm.trans clear) (word_ne_clear lastKnown)

/-- A call that starts over an unfinished command loses one. -/
theorem not_law_send {c : Command} (served : Served s)
    (early : ¬ (s.shmCmd = cmdClear ∧ c.call ≠ none)) :
    ¬ CommandLaw (s.posted c) := by
  intro law
  have lengths := congrArg List.length law.served
  have posted : (s.posted c).sent.length = s.sent.length + 1 := List.length_append
  rw [List.length_map, List.length_map, posted] at lengths
  cases served with
  | all done rest =>
      have count := congrArg List.length done
      simp only [List.length_map] at count
      rcases rest with ⟨clear, idle⟩ | ⟨_, executed⟩
      · have unknown : ¬ c.call ≠ none := fun known => early ⟨clear, known⟩
        rw [@firmwareStep_idle (s.posted c) c rfl idle, if_neg unknown,
          @firmwareStep_idle (s.posted c).alive c alive_shmCmd (alive_fw.trans idle),
          if_neg unknown, alive_done, alive_done] at lengths
        change s.done.length = _ at lengths
        omega
      · rw [@firmwareStep_executed (s.posted c) executed,
          firmwareStep_clear alive_shmCmd alive_fw, alive_done, alive_done] at lengths
        change s.done.length = _ at lengths
        omega
  | waits before last sent done known word fw =>
      have count := congrArg List.length done
      have sentCount := congrArg List.length sent
      simp only [List.length_map, List.length_append, List.length_singleton]
        at count sentCount
      have most := @length_done_two_steps (s.posted c)
      change _ ≤ s.done.length + 1 at most
      omega

theorem law_after_iff (served : Served s) (step : MailStep) :
    CommandLaw (s.after step) ↔ StartsClear s step := by
  cases step with
  | send c =>
      rw [Mailbox.after]
      by_cases idle : s.host = none
      · rw [if_pos idle]
        constructor
        · intro law _
          by_contra early
          exact served.not_law_send early law
        · intro starts
          obtain ⟨clear, known⟩ := starts idle
          exact (served.send clear known).law
      · rw [if_neg idle]
        exact iff_of_true served.law fun free => absurd free idle
  | poll => exact iff_of_true served.poll.law trivial
  | firmware => exact iff_of_true served.firmware.law trivial

theorem after (served : Served s) (step : MailStep) (starts : StartsClear s step) :
    Served (s.after step) := by
  cases step with
  | send c =>
      rw [Mailbox.after]
      by_cases idle : s.host = none
      · rw [if_pos idle]
        exact served.send (starts idle).1 (starts idle).2
      · rw [if_neg idle]
        exact served
  | poll => exact served.poll
  | firmware => exact served.firmware

end Served

theorem served_init (mcuData1 : U32) : Served (.init mcuData1) :=
  .all rfl (Or.inl ⟨rfl, rfl⟩)

/-- From the start of the firmware, for every scheduling, the commands are all
executed once and in order if and only if each call starts while the mailbox is
clear. -/
theorem commands_iff (mcuData1 : U32) (steps : List MailStep) :
    Run.Meets Mailbox.after (fun s step => CommandLaw (s.after step)) (.init mcuData1)
        steps ↔
      Run.Meets Mailbox.after StartsClear (.init mcuData1) steps :=
  Run.meets_congr (fun _ step served => Served.law_after_iff served step)
    (fun _ step served law =>
      served.after step ((served.law_after_iff step).mp law))
    (served_init mcuData1)

/-- After a time-out the next call overwrites the command. -/
theorem command_overwritten :
    ¬ ∀ (mcuData1 : U32) (steps : List MailStep),
      Run.Meets Mailbox.after (fun s step => CommandLaw (s.after step))
        (.init mcuData1) steps := by
  intro always
  have run := always 0
    (.send ⟨0xC3, 0, 1, 1⟩ :: (List.replicate 100 .poll ++ [.send ⟨0xC3, 0, 2, 2⟩]))
  have served := ((Run.meets_append.mp run.2).2.1).served
  have lengths := congrArg List.length served
  revert lengths
  decide +kernel

end Gp2Firmware.Tsp
