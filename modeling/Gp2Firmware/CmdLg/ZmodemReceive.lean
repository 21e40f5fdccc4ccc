import Mathlib.Logic.Relation
import Mathlib.Tactic.Common
import Gp2Firmware.CmdLg.ZmodemLink
import Gp2Firmware.Lib.WordMemory

/-!
# A file received over ZMODEM

`rzfile` asks for data from a position on, and takes subpackets as long as they
continue each other.  A run is followed from label to label; beside its variables
a state keeps what has been read from the line and sent back.
-/

namespace Gp2Firmware.CmdLg.Zmodem

open Gp2Firmware.Lib.WordMemory

/-- The file that is received, and where it goes. -/
structure FileInfo where
  addr : Address
  modtime : U32
  mode : U32
  bytesTotal : U32
  bytesReceived : U32
  bytesSkipped : U32
  seekAdr : Address
  eofSeen : Bool

/-- What is read and what is sent: a header with its position, a subpacket with the kind of
its frame, its end and its bytes, and a header to the sender. -/
inductive Event where
  | header (c : S32) (pos : U32)
  | subpacket (frame c : S32) (payload : List U8)
  | sent (type : S32) (hdr : List U8)

/-- The labels of `rzfile`, and its returns. -/
inductive Label where
  | top
  | nxthdr
  | resync
  | moredata
  | done (c : S32)
  deriving DecidableEq

structure Receiver where
  label : Label
  n : Int
  modem : Modem
  zi : FileInfo
  memory : Memory
  history : List Event

section Code

def MAX_BLOCK : Nat := 8192
def DEFBYTL : U32 := 2000000000

def stohdr (pos : U32) : List U8 :=
  [pos.setWidth 8, (pos >>> 8).setWidth 8, (pos >>> 16).setWidth 8, (pos >>> 24).setWidth 8]

def rclhdr (hdr : Nat → U8) : U32 :=
  [2, 1, 0].foldl (fun l i => (l <<< 8) ||| (hdr i).setWidth 32) ((hdr 3).setWidth 32)

/-- What `sscanf` finds behind the name in the first block: size, time and mode. -/
abbrev Scan := List U8 → U32 × U32 × U32

def procheader (sscanf : Scan) (name : List U8) (zi : FileInfo) : FileInfo :=
  let zi := { zi with bytesTotal := DEFBYTL, mode := 0, eofSeen := false, modtime := 0 }
  let nameend := (name.dropWhile (· ≠ 0)).drop 1
  let zi :=
    if nameend.headD 0 ≠ 0 then
      let (bytesTotal, modtime, mode) := sscanf nameend
      { zi with bytesTotal := bytesTotal, modtime := modtime, mode := mode }
    else
      zi
  { zi with seekAdr := zi.addr, bytesReceived := zi.bytesSkipped }

/-- The bytes of a subpacket written to the place of the file. -/
def putsec (buf : List U8) (zi : FileInfo) (memory : Memory) : FileInfo × Memory :=
  buf.foldl
    (fun (zi, memory) byte =>
      ({ zi with seekAdr := zi.seekAdr + 1 }, Function.update memory zi.seekAdr byte))
    (zi, memory)

/-- The string for the sender; nothing if it has one of the characters for a pause or a
break, which are never passed. -/
def zmputs (s : List U8) : Option (List U8) :=
  if 0xDD ∈ s ∨ 0xDE ∈ s then none else some s

/-- A header sent with the position of the file. -/
def Receiver.zshhdr (type : S32) (s : Receiver) : Receiver :=
  { s with history := s.history ++ [Event.sent (type &&& 0x7f) (stohdr s.zi.bytesReceived)] }

/-- One error more; `next` if there were not too many. -/
def Receiver.fail (s : Receiver) (next : Receiver → Option Receiver) : Option Receiver :=
  let s := { s with n := s.n - 1 }
  if s.n < 0 then some { s with label := .done ERROR } else next s

/-- Back to the request for data, with the string for the sender in front of it. -/
def Receiver.attention (attn : List U8) (s : Receiver) : Option Receiver :=
  (zmputs attn).map fun _ => { s with label := .top }

/-- The bytes of a subpacket taken. -/
def Receiver.take (payload : List U8) (s : Receiver) : Receiver :=
  let (zi, memory) := putsec payload s.zi s.memory
  { s with
    n := 20
    zi := { zi with bytesReceived := zi.bytesReceived + BitVec.ofNat 32 payload.length }
    memory := memory }

/-- From a label to the next one; nothing while a character is still to come, and behind
the return. -/
def step (attn : List U8) (s : Receiver) : Option Receiver :=
  match s.label with
  | .done _ => none
  | .top => some { s.zshhdr ZRPOS with label := .nxthdr }
  | .nxthdr => do
      let (c, modem) ← zgethdr s.modem
      let pos := rclhdr modem.rxhdr
      let s := { s with modem := modem, history := s.history ++ [Event.header c pos] }
      if c = ZNAK ∨ c = TIMEOUT then
        s.fail fun s => some { s with label := .resync }
      else if c = ZFILE then
        some { s with label := .resync }
      else if c = ZEOF then
        if pos ≠ s.zi.bytesReceived then
          some { s with label := .nxthdr }
        else
          some { s with label := .done c }
      else if c = ERROR then
        s.fail fun s => s.attention attn
      else if c = ZSKIP then
        some { s with label := .done c }
      else if c = ZDATA then
        if pos ≠ s.zi.bytesReceived then
          s.fail fun s => s.attention attn
        else
          some { s with label := .moredata }
      else
        some { s with label := .done ERROR }
  | .resync => do
      let (c, payload, modem) ← zrdata MAX_BLOCK s.modem
      some { s with
        modem := modem
        history := s.history ++ [Event.subpacket s.modem.rxframeind c payload]
        label := .top }
  | .moredata => do
      let (c, payload, modem) ← zrdata MAX_BLOCK s.modem
      let s := { s with
        modem := modem
        history := s.history ++ [Event.subpacket s.modem.rxframeind c payload] }
      if c = ZCAN then
        some { s with label := .done ERROR }
      else if c = ERROR then
        s.fail fun s => s.attention attn
      else if c = TIMEOUT then
        s.fail fun s => some { s with label := .top }
      else if c = GOTCRCW then
        some { (s.take payload).zshhdr (ZACK ||| 0x80) with label := .nxthdr }
      else if c = GOTCRCQ then
        some { (s.take payload).zshhdr ZACK with label := .moredata }
      else if c = GOTCRCG then
        some { s.take payload with label := .moredata }
      else if c = GOTCRCE then
        some { s.take payload with label := .nxthdr }
      else
        some { s with label := .top }

/-- `rzfile` in front of its loop. -/
def start (sscanf : Scan) (secbuf : List U8) (zi : FileInfo) (modem : Modem) (memory : Memory) :
    Receiver :=
  ⟨.top, 20, modem, procheader sscanf secbuf { zi with eofSeen := false }, memory, []⟩

end Code

section Accepted

/-- Whether the next subpacket is expected, and the bytes of those before it. -/
structure Accepting where
  receiving : Bool
  bytes : List U8

/-- A data header at the position reached opens, an end that promises more leaves open, and
all else closes; the bytes of a subpacket with an end are taken while it is open. -/
def Accepting.next (a : Accepting) : Event → Accepting
  | .header c pos =>
      { a with receiving := decide (c = ZDATA ∧ pos = BitVec.ofNat 32 a.bytes.length) }
  | .subpacket _ c payload =>
      if a.receiving = true ∧ isEnd c = true then
        ⟨decide (c = GOTCRCQ ∨ c = GOTCRCG), a.bytes ++ payload⟩
      else
        { a with receiving := false }
  | .sent _ _ => a

def accepted (history : List Event) : Accepting :=
  history.foldl Accepting.next ⟨false, []⟩

/-- The file is what has been accepted so far, and the sender is told so. -/
structure Kept (addr : Address) (before : Memory) (zi : FileInfo) (memory : Memory)
    (history : List Event) : Prop where
  position : zi.seekAdr - zi.addr = zi.bytesReceived
  received : zi.bytesReceived = BitVec.ofNat 32 (accepted history).bytes.length
  place : zi.addr = addr
  stored : memory = putBytes before addr (accepted history).bytes
  checked : ∀ frame c payload, .subpacket frame c payload ∈ history → isEnd c = true →
    Checked frame payload c
  sent : ∀ earlier type hdr later, history = earlier ++ .sent type hdr :: later →
    type = ZRPOS ∨ type = ZACK →
    hdr = stohdr (BitVec.ofNat 32 (accepted earlier).bytes.length)

/-- At the end of the file the sender has named the position that is reached. -/
structure Integrity (addr : Address) (before : Memory) (s : Receiver) : Prop where
  kept : Kept addr before s.zi s.memory s.history
  opened : s.label = .moredata → (accepted s.history).receiving = true
  closed : s.label = .resync → (accepted s.history).receiving = false
  eof : s.label = .done ZEOF →
    ∃ earlier, s.history = earlier ++ [.header ZEOF s.zi.bytesReceived]

end Accepted

section Events

variable {addr : Address} {before memory : Memory} {zi : FileInfo} {history : List Event}
  {event : Event}

theorem accepted_append : accepted (history ++ [event]) = (accepted history).next event := by
  rw [accepted, List.foldl_append]
  rfl

theorem mem_subpacket_append {frame c : S32} {payload : List U8}
    (member : .subpacket frame c payload ∈ history ++ [event]) :
    .subpacket frame c payload ∈ history ∨ event = .subpacket frame c payload := by
  rcases List.mem_append.mp member with old | new
  · exact .inl old
  · exact .inr (List.mem_singleton.mp new).symm

/-- A header that is sent is an earlier one or the last event. -/
theorem eq_append_sent {earlier later : List Event} {type : S32} {hdr : List U8}
    (split : history ++ [event] = earlier ++ .sent type hdr :: later) :
    (earlier = history ∧ event = .sent type hdr) ∨
      ∃ between, history = earlier ++ .sent type hdr :: between := by
  rcases List.eq_nil_or_concat later with rfl | ⟨between, last, rfl⟩
  · obtain ⟨same, new⟩ := List.append_inj' split rfl
    exact .inl ⟨same.symm, List.singleton_inj.mp new⟩
  · rw [List.concat_eq_append, ← List.cons_append, ← List.append_assoc] at split
    exact .inr ⟨between, (List.append_inj' split rfl).1⟩

theorem putsec_eq {buf : List U8} :
    putsec buf zi memory = ({ zi with seekAdr := zi.seekAdr + BitVec.ofNat 32 buf.length },
      putBytes memory zi.seekAdr buf) := by
  induction buf generalizing zi memory with
  | nil => simp [putsec, putBytes]
  | cons byte buf inductionHypothesis =>
      simp only [putsec] at inductionHypothesis ⊢
      rw [List.foldl_cons, inductionHypothesis, putBytes, List.length_cons, BitVec.add_assoc,
        Nat.add_comm, BitVec.ofNat_add]
      rfl

variable (kept : Kept addr before zi memory history)

include kept

theorem Kept.header {c : S32} {pos : U32} :
    Kept addr before zi memory (history ++ [.header c pos]) := by
  have same : (accepted (history ++ [.header c pos])).bytes = (accepted history).bytes := by
    rw [accepted_append]
    rfl
  refine ⟨kept.position, by rw [same]; exact kept.received, kept.place,
    by rw [same]; exact kept.stored, ?_, ?_⟩
  · intro frame c payload member
    rcases mem_subpacket_append member with old | new
    · exact kept.checked frame c payload old
    · cases new
  · intro earlier type hdr later split
    rcases eq_append_sent split with ⟨-, new⟩ | ⟨between, old⟩
    · cases new
    · exact kept.sent earlier type hdr between old

theorem Kept.send {type : S32} :
    Kept addr before zi memory (history ++ [.sent type (stohdr zi.bytesReceived)]) := by
  have same : accepted (history ++ [.sent type (stohdr zi.bytesReceived)]) = accepted history :=
    accepted_append
  refine ⟨kept.position, by rw [same]; exact kept.received, kept.place,
    by rw [same]; exact kept.stored, ?_, ?_⟩
  · intro frame c payload member
    rcases mem_subpacket_append member with old | new
    · exact kept.checked frame c payload old
    · cases new
  · intro earlier type hdr later split
    rcases eq_append_sent split with ⟨rfl, new⟩ | ⟨between, old⟩
    · cases new
      intro _
      rw [← kept.received]
    · exact kept.sent earlier type hdr between old

/-- A subpacket that is not taken. -/
theorem Kept.skip {frame c : S32} {payload : List U8}
    (closed : ¬ ((accepted history).receiving = true ∧ isEnd c = true))
    (checked : isEnd c = true → Checked frame payload c) :
    Kept addr before zi memory (history ++ [.subpacket frame c payload]) := by
  have same : (accepted (history ++ [.subpacket frame c payload])).bytes =
      (accepted history).bytes := by
    rw [accepted_append, Accepting.next, if_neg closed]
  refine ⟨kept.position, by rw [same]; exact kept.received, kept.place,
    by rw [same]; exact kept.stored, ?_, ?_⟩
  · intro otherFrame other otherPayload member
    rcases mem_subpacket_append member with old | new
    · exact kept.checked otherFrame other otherPayload old
    · cases new
      exact checked
  · intro earlier type hdr later split
    rcases eq_append_sent split with ⟨-, new⟩ | ⟨between, old⟩
    · cases new
    · exact kept.sent earlier type hdr between old

/-- A subpacket that is taken. -/
theorem Kept.take {frame c : S32} {payload : List U8}
    (opened : (accepted history).receiving = true) (ends : isEnd c = true)
    (checked : Checked frame payload c) :
    Kept addr before
      { zi with
        seekAdr := zi.seekAdr + BitVec.ofNat 32 payload.length
        bytesReceived := zi.bytesReceived + BitVec.ofNat 32 payload.length }
      (putBytes memory zi.seekAdr payload) (history ++ [.subpacket frame c payload]) := by
  have more : (accepted (history ++ [.subpacket frame c payload])).bytes =
      (accepted history).bytes ++ payload := by
    rw [accepted_append, Accepting.next, if_pos ⟨opened, ends⟩]
  have seek : zi.seekAdr = addr + BitVec.ofNat 32 (accepted history).bytes.length := by
    rw [← kept.received, ← kept.position, kept.place]
    bv_omega
  refine ⟨?_, ?_, kept.place, ?_, ?_, ?_⟩
  · have position := kept.position
    simp only
    bv_omega
  · simp only [more, List.length_append, BitVec.ofNat_add, kept.received]
  · rw [more, putBytes_append, ← kept.stored, ← seek]
  · intro otherFrame other otherPayload member
    rcases mem_subpacket_append member with old | new
    · exact kept.checked otherFrame other otherPayload old
    · cases new
      exact fun _ => checked
  · intro earlier type hdr later split
    rcases eq_append_sent split with ⟨-, new⟩ | ⟨between, old⟩
    · cases new
    · exact kept.sent earlier type hdr between old

end Events

section Steps

variable {addr : Address} {before : Memory} {attn : List U8} {s next : Receiver}
  {label : Label} {n : Int} {modem : Modem} {history : List Event}

/-- Labels at which nothing has to be known of the events. -/
def Free : Label → Prop
  | .top => True
  | .nxthdr => True
  | .resync => False
  | .moredata => False
  | .done c => c ≠ ZEOF

/-- A state with a free label. -/
theorem integrity_of_kept (kept : Kept addr before s.zi s.memory s.history) (free : Free s.label) :
    Integrity addr before s := by
  refine ⟨kept, ?_, ?_, ?_⟩
  · intro at_
    rw [at_] at free
    exact free.elim
  · intro at_
    rw [at_] at free
    exact free.elim
  · intro at_
    rw [at_] at free
    exact absurd rfl free

/-- One error more leaves all as it was, and returns or goes on. -/
theorem integrity_of_fail {go : Receiver → Option Receiver} (failed : s.fail go = some next)
    (kept : Kept addr before s.zi s.memory s.history)
    (goes : ∀ n, go { s with n := n } = some next → Integrity addr before next) :
    Integrity addr before next := by
  rw [Receiver.fail] at failed
  simp only at failed
  split at failed
  · cases failed
    exact integrity_of_kept kept (show ERROR ≠ ZEOF by decide)
  · exact goes _ failed

theorem integrity_of_attention (back : s.attention attn = some next)
    (kept : Kept addr before s.zi s.memory s.history) : Integrity addr before next := by
  rw [Receiver.attention, Option.map_eq_some_iff] at back
  obtain ⟨-, -, rfl⟩ := back
  exact integrity_of_kept kept trivial

/-- A header other than one for data closes. -/
theorem receiving_of_header {c : S32} {pos : U32} (other : c ≠ ZDATA) :
    (accepted (history ++ [.header c pos])).receiving = false := by
  rw [accepted_append, Accepting.next]
  exact decide_eq_false fun data => other data.1

/-- The label behind which a subpacket is passed over. -/
theorem integrity_of_resync (kept : Kept addr before s.zi s.memory s.history)
    (at_ : s.label = .resync) (closed : (accepted s.history).receiving = false) :
    Integrity addr before s := by
  refine ⟨kept, ?_, fun _ => closed, ?_⟩
  · intro other
    rw [at_] at other
    cases other
  · intro other
    rw [at_] at other
    cases other

/-- A header from the line. -/
theorem integrity_of_nxthdr (at_ : s.label = .nxthdr) (steps : step attn s = some next)
    (here : Integrity addr before s) : Integrity addr before next := by
  rw [step, at_] at steps
  simp only [Option.bind_eq_bind, Option.bind_eq_some_iff] at steps
  obtain ⟨⟨c, modem⟩, -, goes⟩ := steps
  have kept := @Kept.header addr before s.memory s.zi s.history here.kept c (rclhdr modem.rxhdr)
  simp only at goes
  split at goes
  · rename_i again
    apply integrity_of_fail goes kept
    intro n goes
    cases goes
    refine integrity_of_resync kept rfl (receiving_of_header ?_)
    rcases again with rfl | rfl
    · decide
    · decide
  split at goes
  · rename_i file
    cases goes
    refine integrity_of_resync kept rfl (receiving_of_header ?_)
    rw [file]
    decide
  split at goes
  · rename_i eof
    split at goes
    · cases goes
      exact integrity_of_kept kept trivial
    · rename_i here'
      cases goes
      refine ⟨kept, by simp, by simp, fun _ => ⟨s.history, ?_⟩⟩
      rw [eof, not_not.mp here']
  split at goes
  · apply integrity_of_fail goes kept
    intro n back
    exact integrity_of_attention back kept
  split at goes
  · rename_i skip
    cases goes
    apply integrity_of_kept kept
    rw [skip]
    exact (show ZSKIP ≠ ZEOF by decide)
  split at goes
  · rename_i data
    split at goes
    · apply integrity_of_fail goes kept
      intro n back
      exact integrity_of_attention back kept
    · rename_i reached
      cases goes
      refine ⟨kept, fun _ => ?_, by simp, by simp⟩
      rw [accepted_append, Accepting.next]
      exact decide_eq_true ⟨data, (not_not.mp reached).trans here.kept.received⟩
  · cases goes
    exact integrity_of_kept kept (show ERROR ≠ ZEOF by decide)

/-- A subpacket that is passed over. -/
theorem integrity_behind_resync (at_ : s.label = .resync) (steps : step attn s = some next)
    (here : Integrity addr before s) : Integrity addr before next := by
  rw [step, at_] at steps
  simp only [Option.bind_eq_bind, Option.bind_eq_some_iff] at steps
  obtain ⟨⟨c, payload, modem⟩, read, goes⟩ := steps
  cases goes
  refine integrity_of_kept ?_ (show Free .top from trivial)
  apply here.kept.skip
  · rintro ⟨opened, -⟩
    rw [here.closed at_] at opened
    cases opened
  · exact zrdata_checked read

/-- A subpacket of the file. -/
theorem integrity_of_moredata (at_ : s.label = .moredata) (steps : step attn s = some next)
    (here : Integrity addr before s) : Integrity addr before next := by
  rw [step, at_] at steps
  simp only [Option.bind_eq_bind, Option.bind_eq_some_iff] at steps
  obtain ⟨⟨c, payload, modem⟩, read, goes⟩ := steps
  have opened := here.opened at_
  have skipped : isEnd c = false → Kept addr before s.zi s.memory
      (s.history ++ [.subpacket s.modem.rxframeind c payload]) := by
    intro other
    apply here.kept.skip
    · simp [other]
    · simp [other]
  have taken : isEnd c = true → Kept addr before _ _
      (s.history ++ [.subpacket s.modem.rxframeind c payload]) := fun ends =>
    here.kept.take opened ends (zrdata_checked read ends)
  have receiving : isEnd c = true →
      (accepted (s.history ++ [.subpacket s.modem.rxframeind c payload])).receiving =
        decide (c = GOTCRCQ ∨ c = GOTCRCG) := by
    intro ends
    rw [accepted_append, Accepting.next, if_pos ⟨opened, ends⟩]
  simp only [Receiver.take, putsec_eq, Receiver.zshhdr] at goes
  split at goes
  · rename_i cancelled
    cases goes
    exact integrity_of_kept (skipped (by rw [cancelled]; decide)) (show ERROR ≠ ZEOF by decide)
  split at goes
  · rename_i error
    have kept := skipped (by rw [error]; decide)
    apply integrity_of_fail goes kept
    intro n back
    exact integrity_of_attention back kept
  split at goes
  · rename_i timeout
    have kept := skipped (by rw [timeout]; decide)
    apply integrity_of_fail goes kept
    intro n goes
    cases goes
    exact integrity_of_kept kept trivial
  split at goes
  · rename_i wait
    cases goes
    exact integrity_of_kept (taken (by rw [wait]; decide)).send trivial
  split at goes
  · rename_i ask
    have ends : isEnd c = true := by rw [ask]; decide
    cases goes
    refine ⟨(taken ends).send, fun _ => ?_, by simp, by simp⟩
    rw [accepted_append, Accepting.next, receiving ends, ask]
    decide
  split at goes
  · rename_i more
    have ends : isEnd c = true := by rw [more]; decide
    cases goes
    refine ⟨taken ends, fun _ => ?_, by simp, by simp⟩
    rw [receiving ends, more]
    decide
  split at goes
  · rename_i last
    cases goes
    exact integrity_of_kept (taken (by rw [last]; decide)) trivial
  · rename_i wait ask more last
    cases goes
    refine integrity_of_kept (skipped ?_) (show Free .top from trivial)
    simp [isEnd, wait, ask, more, last]

theorem integrity_step (steps : step attn s = some next) (here : Integrity addr before s) :
    Integrity addr before next := by
  cases at_ : s.label with
  | top =>
      rw [step, at_] at steps
      cases steps
      exact integrity_of_kept here.kept.send trivial
  | nxthdr => exact integrity_of_nxthdr at_ steps here
  | resync => exact integrity_behind_resync at_ steps here
  | moredata => exact integrity_of_moredata at_ steps here
  | done c =>
      rw [step, at_] at steps
      cases steps

end Steps

section Run

variable {sscanf : Scan} {secbuf attn : List U8} {zi : FileInfo} {modem : Modem}
  {memory : Memory} {s next : Receiver}

/-- A state of a run of `rzfile`. -/
def Reaches (attn : List U8) : Receiver → Receiver → Prop :=
  Relation.ReflTransGen fun s next => step attn s = some next

theorem procheader_spec : (procheader sscanf secbuf zi).addr = zi.addr ∧
    (procheader sscanf secbuf zi).seekAdr = zi.addr ∧
    (procheader sscanf secbuf zi).bytesReceived = zi.bytesSkipped := by
  simp only [procheader]
  split
  · exact ⟨rfl, rfl, rfl⟩
  · exact ⟨rfl, rfl, rfl⟩

/-- At every label of every run the file is the bytes accepted so far. -/
theorem rzfile_integrity (unskipped : zi.bytesSkipped = 0)
    (reaches : Reaches attn (start sscanf secbuf zi modem memory) s) :
    Integrity zi.addr memory s := by
  induction reaches with
  | refl =>
      obtain ⟨addr, seekAdr, bytesReceived⟩ :=
        @procheader_spec sscanf secbuf { zi with eofSeen := false }
      refine integrity_of_kept ⟨?_, ?_, addr, rfl, by simp [start], by simp [start]⟩
        (show Free .top from trivial)
      · simp only [start, addr, seekAdr, bytesReceived]
        rw [unskipped]
        exact BitVec.sub_self _
      · simp only [start, bytesReceived]
        rw [unskipped]
        rfl
  | tail _ steps inductionHypothesis => exact integrity_step steps inductionHypothesis

/-- Some steps one after the other. -/
def steps (attn : List U8) : Nat → Receiver → Option Receiver
  | 0, s => some s
  | count + 1, s => (step attn s).bind (steps attn count)

theorem reaches_of_steps {count : Nat} (run : steps attn count s = some next) :
    Reaches attn s next := by
  induction count generalizing s with
  | zero =>
      cases run
      exact .refl
  | succ count inductionHypothesis =>
      obtain ⟨between, first, rest⟩ := Option.bind_eq_some_iff.mp run
      exact .head first (inductionHypothesis rest)

/-- A header for data, three bytes with an end, and a header for the end of the file. -/
def sampleLine : List S32 :=
  [0x2A, 0x2A, 0x18, 0x42, 0x30, 0x61, 0x30, 0x30, 0x30, 0x30, 0x30, 0x30, 0x30, 0x30, 0x34,
    0x36, 0x61, 0x65, 0x0D, 0x0A, 0x61, 0x62, 0x63, 0x18, 0x68, 0x69, 0xBA, 0x2A, 0x2A, 0x18,
    0x42, 0x30, 0x62, 0x30, 0x33, 0x30, 0x30, 0x30, 0x30, 0x30, 0x30, 0x37, 0x37, 0x32, 0x33,
    0x0D, 0x0A]

def sampleStart : Receiver :=
  start (fun _ => (0, 0, 0)) [] ⟨0x1000, 0, 0, 0, 0, 0, 0, false⟩
    ⟨sampleLine, fun _ => 0, 0, 0, 0, false, false⟩ (fun _ => 0)

theorem sampleSteps_isSome : (steps [] 4 sampleStart).isSome = true := by decide +kernel

theorem rzfile_integrity_sample :
    ((steps [] 4 sampleStart).get sampleSteps_isSome).label = .done ZEOF ∧
      ((steps [] 4 sampleStart).get sampleSteps_isSome).zi.bytesReceived = 3 ∧
      Integrity 0x1000 (fun _ => 0) ((steps [] 4 sampleStart).get sampleSteps_isSome) :=
  ⟨by decide +kernel, by decide +kernel,
    @rzfile_integrity (fun _ => (0, 0, 0)) [] [] ⟨0x1000, 0, 0, 0, 0, 0, 0, false⟩
      ⟨sampleLine, fun _ => 0, 0, 0, 0, false, false⟩ (fun _ => 0) _ rfl
      (reaches_of_steps (Option.some_get sampleSteps_isSome).symm)⟩

end Run

end Gp2Firmware.CmdLg.Zmodem
