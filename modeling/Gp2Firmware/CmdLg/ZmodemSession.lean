import Gp2Firmware.CmdLg.ZmodemHexHeader
import Gp2Firmware.CmdLg.ZmodemReceive

/-!
# A session of ZMODEM

`rz` waits in `tryz` for a file, receives it with `rzfile` and waits again, until the sender
has no more of them.  The size that it returns is the one that the sender has told.
-/

namespace Gp2Firmware.CmdLg.Zmodem

open Gp2Firmware.Lib.WordMemory

section Constants

def ZRQINIT : S32 := 0
def ZRINIT : S32 := 1
def ZSINIT : S32 := 2
def ZCOMPL : S32 := 15
def ZFREECNT : S32 := 17
def ZCOMMAND : S32 := 18

def CANFDX : U8 := 0x01
def CANBRK : U8 := 0x04
def CANFC32 : U8 := 0x20
def TESCCTL : U8 := 0x40
def ZF1_ZMSKNOLOC : U8 := 0x80

def ZATTNLEN : Nat := 32

end Constants

/-- In front of the loop of `tryz` and at its label `again`, in `ackbibi`, in `rzfile`, and
behind `rz`.  `first` tells the call of `tryz` in `rz` from the one in `rzfiles`. -/
inductive Place where
  | tryz (first : Bool) (n zrqinitsReceived : Int)
  | again (first : Bool) (n zrqinitsReceived : Int)
  | ackbibi (first : Bool) (left : Nat)
  | rzfile (r : Receiver)
  | done (c : S32)

/-- The file that was taken up last: its information block, the memory in front of it and
what `rzfile` has read and sent. -/
structure TakenFile where
  block : List U8
  before : Memory
  history : List Event

structure Session where
  place : Place
  modem : Modem
  secbuf : List U8
  attn : List U8
  tryzhdrtype : S32
  txhdr : List U8
  zi : FileInfo
  memory : Memory
  sent : List (S32 × List U8)
  last : Option TakenFile

section Code

variable (sscanf : Scan)

/-- Bytes stored at the beginning of a buffer. -/
def overwrite (bytes buf : List U8) : List U8 :=
  bytes ++ buf.drop bytes.length

/-- The string in a buffer. -/
def cstring (buf : List U8) : List U8 :=
  buf.takeWhile (· ≠ 0)

def Session.zshhdr (type : S32) (s : Session) : Session :=
  { s with sent := s.sent ++ [(type, s.txhdr)] }

/-- The call of `tryz`. -/
def Session.tryz (first : Bool) (s : Session) : Session :=
  { s with place := .tryz first (if s.modem.zmodemRequested then 15 else 5) 0 }

/-- The call of `rzfile`. -/
def Session.rzfile (s : Session) : Session :=
  { s with
    place := .rzfile (start sscanf s.secbuf s.zi s.modem s.memory)
    last := some ⟨s.secbuf, s.memory, []⟩ }

/-- What `rz` and `rzfiles` do with the result of `tryz`. -/
def Session.behindTryz (first : Bool) (c : S32) (s : Session) : Session :=
  if c = ZCOMPL then { s with place := .done s.zi.bytesTotal }
  else if first = true ∧ c ≠ 0 ∧ c ≠ ERROR ∨ c = ZFILE then s.rzfile sscanf
  else { s with place := .done ERROR }

/-- What `rzfiles` and `rz` do with the result of `rzfile`. -/
def Session.behindRzfile (c : S32) (r : Receiver) (s : Session) : Session :=
  let secbuf := r.history.foldl
    (fun secbuf event =>
      match event with
      | .subpacket _ _ payload => overwrite payload secbuf
      | _ => secbuf)
    s.secbuf
  let s := { s with
    modem := r.modem
    secbuf := secbuf
    zi := r.zi
    memory := r.memory
    last := s.last.map fun (file : TakenFile) => ⟨file.block, file.before, r.history⟩ }
  if c = ZEOF ∨ c = ZSKIP then s.tryz false
  else if c = 0 then { s with place := .done s.zi.bytesTotal }
  else { s with place := .done ERROR }

/-- `tryz` behind the label `again`. -/
def Session.again (first : Bool) (n zrqinitsReceived : Int) (s : Session) : Option Session := do
  let (c, modem) ← zgethdr s.modem
  let s := { s with modem := modem, place := .again first n zrqinitsReceived }
  if c = ZRQINIT then
    some { s with place := .tryz first n (zrqinitsReceived + 1) }
  else if c = ZFILE then
    let rxhdr := Function.update modem.rxhdr 2 (modem.rxhdr 2 &&& ~~~ZF1_ZMSKNOLOC)
    let (c, stored, modem) ← zrdata MAX_BLOCK { modem with rxhdr := rxhdr }
    let s := { s with
      modem := modem
      secbuf := overwrite stored s.secbuf
      tryzhdrtype := ZRINIT }
    if c = GOTCRCW then some (s.behindTryz sscanf first ZFILE) else some (s.zshhdr ZNAK)
  else if c = ZSINIT then
    let zctlesc := modem.zctlesc || (TESCCTL &&& modem.rxhdr 3) ≠ 0
    let (c, stored, modem) ← zrdata ZATTNLEN { modem with zctlesc := zctlesc }
    let s := { s with modem := modem, attn := overwrite stored s.attn }
    if c = GOTCRCW then some (({ s with txhdr := stohdr 1 } : Session).zshhdr ZACK)
    else some (s.zshhdr ZNAK)
  else if c = ZFREECNT then
    some (({ s with txhdr := stohdr (~~~0) } : Session).zshhdr ZACK)
  else if c = ZCOMMAND then
    let (c, stored, modem) ← zrdata MAX_BLOCK modem
    let s := { s with modem := modem, secbuf := overwrite stored s.secbuf }
    if c = GOTCRCW then some ((s.zshhdr ZCOMPL).behindTryz sscanf first ZCOMPL)
    else some (s.zshhdr ZNAK)
  else if c = ZCOMPL then
    some s
  else if c = ZFIN then
    some { s with txhdr := stohdr 0, place := .ackbibi first 3 }
  else if c = ZRINIT ∨ c = ZCAN then
    some (s.behindTryz sscanf first ERROR)
  else
    some { s with place := .tryz first n zrqinitsReceived }

/-- From one place to the next, with the number of characters that `purgeline` finds;
nothing while a character is still to come, and behind the return. -/
def rzStep (purged : Nat) (s : Session) : Option Session :=
  match s.place with
  | .done _ => none
  | .tryz first n zrqinitsReceived =>
      let n := n - 1
      if n + zrqinitsReceived ≥ 0 ∧ zrqinitsReceived < 10 then
        let flags := CANFC32 ||| CANFDX ||| CANBRK ||| if s.modem.zctlesc then TESCCTL else 0
        let s := ({ s with txhdr := (stohdr 0).set 3 flags } : Session).zshhdr s.tryzhdrtype
        some { s with
          tryzhdrtype := if s.tryzhdrtype = ZSKIP then ZRINIT else s.tryzhdrtype
          place := .again first n zrqinitsReceived }
      else
        some (s.behindTryz sscanf first 0)
  | .again first n zrqinitsReceived => s.again sscanf first n zrqinitsReceived
  | .ackbibi first 0 => some (s.behindTryz sscanf first ZCOMPL)
  | .ackbibi first (left + 1) => do
      let s := s.zshhdr ZFIN
      let (c, modem) ← readline { s.modem with line := s.modem.line.drop purged }
      if c = 0x4F then
        let (_, modem) ← readline modem
        some (({ s with modem := modem } : Session).behindTryz sscanf first ZCOMPL)
      else if c = RCDO then
        some (({ s with modem := modem } : Session).behindTryz sscanf first ZCOMPL)
      else
        some { s with modem := modem, place := .ackbibi first left }
  | .rzfile r =>
      match r.label with
      | .done c => some (s.behindRzfile c r)
      | _ => (step (cstring s.attn) r).map fun r => { s with place := .rzfile r }

/-- `rz` in front of its first step, with what earlier calls have left. -/
def rz (addr : Address) (earlier : Session) : Session :=
  ({ earlier with
    zi := ⟨addr, 0, 0, 0, 0, 0, earlier.zi.seekAdr, false⟩
    last := none } : Session).tryz true

end Code

/-- The states of a call of `rz`. -/
def Session.Reaches (sscanf : Scan) : Session → Session → Prop :=
  Relation.ReflTransGen fun s next => ∃ purged, rzStep sscanf purged s = some next

/-- The size of a file in its information block. -/
def claimedSize (sscanf : Scan) (block : List U8) : U32 :=
  let nameend := (block.dropWhile (· ≠ 0)).drop 1
  if nameend.headD 0 ≠ 0 then (sscanf nameend).1 else DEFBYTL

/-- The number of the payload bytes of the last file. -/
def Session.received (s : Session) : Nat :=
  match s.last with
  | none => 0
  | some file => (accepted file.history).bytes.length

/-! ### The claimed size in `rzfile` -/

section Claim

variable {attn : List U8} {s next : Receiver}

/-- What the information block has said is the same. -/
structure SameClaim (zi next : FileInfo) : Prop where
  bytesTotal : next.bytesTotal = zi.bytesTotal
  bytesSkipped : next.bytesSkipped = zi.bytesSkipped

theorem SameClaim.refl (zi : FileInfo) : SameClaim zi zi := ⟨rfl, rfl⟩

theorem sameClaim_fail {go : Receiver → Option Receiver} {zi : FileInfo}
    (failed : s.fail go = some next) (same : s.zi = zi)
    (goes : ∀ n, go { s with n := n } = some next → SameClaim zi next.zi) :
    SameClaim zi next.zi := by
  rw [Receiver.fail] at failed
  simp only at failed
  split at failed
  · cases failed
    exact same ▸ .refl _
  · exact goes _ failed

theorem sameClaim_attention {zi : FileInfo} (back : s.attention attn = some next)
    (same : s.zi = zi) : SameClaim zi next.zi := by
  rw [Receiver.attention, Option.map_eq_some_iff] at back
  obtain ⟨-, -, rfl⟩ := back
  exact same ▸ .refl _

theorem sameClaim_nxthdr (at_ : s.label = .nxthdr) (steps : step attn s = some next) :
    SameClaim s.zi next.zi := by
  rw [step, at_] at steps
  simp only [Option.bind_eq_bind, Option.bind_eq_some_iff] at steps
  obtain ⟨⟨c, modem⟩, -, goes⟩ := steps
  simp only at goes
  split at goes
  · refine sameClaim_fail goes rfl fun n goes => ?_
    cases goes
    exact .refl _
  split at goes
  · cases goes
    exact .refl _
  split at goes
  · split at goes
    · cases goes
      exact .refl _
    · cases goes
      exact .refl _
  split at goes
  · exact sameClaim_fail goes rfl fun n back => sameClaim_attention back rfl
  split at goes
  · cases goes
    exact .refl _
  split at goes
  · split at goes
    · exact sameClaim_fail goes rfl fun n back => sameClaim_attention back rfl
    · cases goes
      exact .refl _
  · cases goes
    exact .refl _

theorem sameClaim_moredata (at_ : s.label = .moredata) (steps : step attn s = some next) :
    SameClaim s.zi next.zi := by
  rw [step, at_] at steps
  simp only [Option.bind_eq_bind, Option.bind_eq_some_iff] at steps
  obtain ⟨⟨c, payload, modem⟩, -, goes⟩ := steps
  simp only [Receiver.take, putsec_eq, Receiver.zshhdr] at goes
  split at goes
  · cases goes
    exact .refl _
  split at goes
  · exact sameClaim_fail goes rfl fun n back => sameClaim_attention back rfl
  split at goes
  · refine sameClaim_fail goes rfl fun n goes => ?_
    cases goes
    exact .refl _
  split at goes
  · cases goes
    exact ⟨rfl, rfl⟩
  split at goes
  · cases goes
    exact ⟨rfl, rfl⟩
  split at goes
  · cases goes
    exact ⟨rfl, rfl⟩
  split at goes
  · cases goes
    exact ⟨rfl, rfl⟩
  · cases goes
    exact .refl _

theorem sameClaim_step (steps : step attn s = some next) : SameClaim s.zi next.zi := by
  cases at_ : s.label with
  | top =>
      rw [step, at_] at steps
      cases steps
      exact .refl _
  | nxthdr => exact sameClaim_nxthdr at_ steps
  | resync =>
      rw [step, at_] at steps
      simp only [Option.bind_eq_bind, Option.bind_eq_some_iff] at steps
      obtain ⟨⟨c, payload, modem⟩, -, goes⟩ := steps
      cases goes
      exact .refl _
  | moredata => exact sameClaim_moredata at_ steps
  | done c =>
      rw [step, at_] at steps
      cases steps

end Claim

/-! ### The last file of a session -/

section Session

variable {sscanf : Scan} {addr : Address} {s next : Session}

/-- The file that was taken up last is stored at the address, and the size is the claimed
one. -/
structure Holds (sscanf : Scan) (addr : Address) (s : Session) : Prop where
  place : s.zi.addr = addr
  unskipped : s.zi.bytesSkipped = 0
  nothing : s.last = none → s.zi.bytesTotal = 0
  claimed : ∀ file, s.last = some file → s.zi.bytesTotal = claimedSize sscanf file.block
  stored : ∀ file, s.last = some file →
    s.memory = putBytes file.before addr (accepted file.history).bytes

/-- The invariant of a session.  In `rzfile` the file is that of the receiver. -/
def Reporting (sscanf : Scan) (addr : Address) (s : Session) : Prop :=
  match s.place with
  | .rzfile r => ∃ file, s.last = some file ∧ Integrity addr file.before r ∧
      r.zi.bytesTotal = claimedSize sscanf file.block ∧ r.zi.bytesSkipped = 0
  | .done c => Holds sscanf addr s ∧ (c = ERROR ∨ c = s.zi.bytesTotal)
  | _ => Holds sscanf addr s

theorem procheader_bytesTotal (secbuf : List U8) (zi : FileInfo) :
    (procheader sscanf secbuf zi).bytesTotal = claimedSize sscanf secbuf ∧
      (procheader sscanf secbuf zi).bytesSkipped = zi.bytesSkipped := by
  simp only [procheader, claimedSize]
  split
  · exact ⟨rfl, rfl⟩
  · exact ⟨rfl, rfl⟩

theorem reporting_rzfile (holds : Holds sscanf addr s) :
    Reporting sscanf addr (s.rzfile sscanf) := by
  obtain ⟨place, seekAdr, bytesReceived⟩ :=
    @procheader_spec sscanf s.secbuf { s.zi with eofSeen := false }
  obtain ⟨claimed, skipped⟩ :=
    @procheader_bytesTotal sscanf s.secbuf { s.zi with eofSeen := false }
  have unskipped : ({ s.zi with eofSeen := false } : FileInfo).bytesSkipped = 0 :=
    holds.unskipped
  refine ⟨⟨s.secbuf, s.memory, []⟩, rfl, integrity_of_kept ?_ trivial, claimed,
    skipped.trans unskipped⟩
  refine ⟨?_, ?_, place.trans holds.place, rfl, by simp [start], by simp [start]⟩
  · simp only [start, place, seekAdr, bytesReceived]
    rw [holds.unskipped]
    exact BitVec.sub_self _
  · simp only [start, bytesReceived]
    rw [holds.unskipped]
    rfl

theorem reporting_behindTryz (holds : Holds sscanf addr s) (first : Bool) (c : S32) :
    Reporting sscanf addr (s.behindTryz sscanf first c) := by
  rw [Session.behindTryz]
  split
  · exact ⟨⟨holds.place, holds.unskipped, holds.nothing, holds.claimed, holds.stored⟩,
      Or.inr rfl⟩
  split
  · exact reporting_rzfile holds
  · exact ⟨⟨holds.place, holds.unskipped, holds.nothing, holds.claimed, holds.stored⟩,
      Or.inl rfl⟩

/-- What the invariant says of a session between two files. -/
theorem Holds.congr (holds : Holds sscanf addr s) (zi : next.zi = s.zi)
    (memory : next.memory = s.memory) (last : next.last = s.last) :
    Holds sscanf addr next := by
  constructor
  · exact zi ▸ holds.place
  · exact zi ▸ holds.unskipped
  · exact zi ▸ last ▸ holds.nothing
  · exact zi ▸ last ▸ holds.claimed
  · exact memory ▸ last ▸ holds.stored

theorem reporting_again (holds : Holds sscanf addr s) {first : Bool} {n zrqinits : Int}
    (steps : s.again sscanf first n zrqinits = some next) : Reporting sscanf addr next := by
  rw [Session.again] at steps
  simp only [Option.bind_eq_bind, Option.bind_eq_some_iff] at steps
  obtain ⟨⟨c, modem⟩, -, goes⟩ := steps
  simp only at goes
  split at goes
  · cases goes
    exact holds.congr rfl rfl rfl
  split at goes
  · simp only [Option.bind_eq_some_iff] at goes
    obtain ⟨⟨c, stored, modem⟩, -, goes⟩ := goes
    simp only at goes
    split at goes
    · cases goes
      refine reporting_behindTryz ?_ first ZFILE
      exact holds.congr rfl rfl rfl
    · cases goes
      exact holds.congr rfl rfl rfl
  split at goes
  · simp only [Option.bind_eq_some_iff] at goes
    obtain ⟨⟨c, stored, modem⟩, -, goes⟩ := goes
    simp only at goes
    split at goes
    · cases goes
      exact holds.congr rfl rfl rfl
    · cases goes
      exact holds.congr rfl rfl rfl
  split at goes
  · cases goes
    exact holds.congr rfl rfl rfl
  split at goes
  · simp only [Option.bind_eq_some_iff] at goes
    obtain ⟨⟨c, stored, modem⟩, -, goes⟩ := goes
    simp only at goes
    split at goes
    · cases goes
      refine reporting_behindTryz ?_ first ZCOMPL
      exact holds.congr rfl rfl rfl
    · cases goes
      exact holds.congr rfl rfl rfl
  split at goes
  · cases goes
    exact holds.congr rfl rfl rfl
  split at goes
  · cases goes
    exact holds.congr rfl rfl rfl
  split at goes
  · cases goes
    refine reporting_behindTryz ?_ first ERROR
    exact holds.congr rfl rfl rfl
  · cases goes
    exact holds.congr rfl rfl rfl

theorem reporting_behindRzfile {r : Receiver} {file : TakenFile} (c : S32)
    (last : s.last = some file) (integrity : Integrity addr file.before r)
    (claimed : r.zi.bytesTotal = claimedSize sscanf file.block)
    (unskipped : r.zi.bytesSkipped = 0) : Reporting sscanf addr (s.behindRzfile c r) := by
  have holds : ∀ {next : Session}, next.zi = r.zi → next.memory = r.memory →
      next.last = some ⟨file.block, file.before, r.history⟩ → Holds sscanf addr next := by
    intro next zi memory behind
    constructor
    · rw [zi]
      exact integrity.kept.place
    · rw [zi]
      exact unskipped
    · intro nothing
      rw [behind] at nothing
      cases nothing
    · intro other same
      rw [behind] at same
      cases same
      rw [zi]
      exact claimed
    · intro other same
      rw [behind] at same
      cases same
      rw [memory]
      exact integrity.kept.stored
  rw [Session.behindRzfile, last]
  dsimp only
  split
  · exact holds rfl rfl rfl
  split
  · exact ⟨holds rfl rfl rfl, Or.inr rfl⟩
  · exact ⟨holds rfl rfl rfl, Or.inl rfl⟩

theorem reporting_step {purged : Nat} (steps : rzStep sscanf purged s = some next)
    (here : Reporting sscanf addr s) : Reporting sscanf addr next := by
  cases at_ : s.place with
  | done c =>
      rw [rzStep, at_] at steps
      cases steps
  | tryz first n zrqinits =>
      rw [Reporting, at_] at here
      simp only [rzStep, at_] at steps
      split at steps
      · cases steps
        exact here.congr rfl rfl rfl
      · cases steps
        exact reporting_behindTryz here first 0
  | again first n zrqinits =>
      rw [Reporting, at_] at here
      rw [rzStep, at_] at steps
      exact reporting_again here steps
  | ackbibi first left =>
      rw [Reporting, at_] at here
      cases left with
      | zero =>
          rw [rzStep, at_] at steps
          cases steps
          exact reporting_behindTryz here first ZCOMPL
      | succ left =>
          simp only [rzStep, at_, Option.bind_eq_bind, Option.bind_eq_some_iff] at steps
          obtain ⟨⟨c, modem⟩, -, goes⟩ := steps
          simp only at goes
          split at goes
          · simp only [Option.bind_eq_some_iff] at goes
            obtain ⟨⟨c, modem⟩, -, goes⟩ := goes
            cases goes
            refine reporting_behindTryz ?_ first ZCOMPL
            exact here.congr rfl rfl rfl
          split at goes
          · cases goes
            refine reporting_behindTryz ?_ first ZCOMPL
            exact here.congr rfl rfl rfl
          · cases goes
            exact here.congr rfl rfl rfl
  | rzfile r =>
      rw [Reporting, at_] at here
      obtain ⟨file, last, integrity, claimed, unskipped⟩ := here
      simp only [rzStep, at_] at steps
      split at steps
      · cases steps
        exact reporting_behindRzfile _ last integrity claimed unskipped
      · rw [Option.map_eq_some_iff] at steps
        obtain ⟨next, goes, rfl⟩ := steps
        have same := sameClaim_step goes
        exact ⟨file, last, integrity_step goes integrity, same.bytesTotal.trans claimed,
          same.bytesSkipped.trans unskipped⟩

theorem reporting_of_reaches {earlier : Session}
    (reaches : (rz addr earlier).Reaches sscanf s) : Reporting sscanf addr s := by
  induction reaches with
  | refl =>
      refine ⟨rfl, rfl, fun _ => rfl, ?_, ?_⟩
      · intro file last
        cases last
      · intro file last
        cases last
  | tail _ steps inductionHypothesis =>
      obtain ⟨purged, steps⟩ := steps
      exact reporting_step steps inductionHypothesis

end Session

/-- What `rz` returns, where it is no error, is the number of the payload bytes of the last
file, and these are stored, if and only if no file was taken up or its information block
claims that number. -/
theorem rz_size_iff {sscanf : Scan} {addr : Address} {earlier s : Session} {size : S32}
    (reaches : (rz addr earlier).Reaches sscanf s) (returns : s.place = .done size)
    (fine : size ≠ ERROR) :
    (size.toInt = s.received ∧ ∀ file, s.last = some file →
        s.memory = putBytes file.before addr (accepted file.history).bytes) ↔
      ∀ file, s.last = some file →
        (claimedSize sscanf file.block).toInt = (accepted file.history).bytes.length := by
  have reporting := reporting_of_reaches reaches
  rw [Reporting, returns] at reporting
  obtain ⟨holds, failed | total⟩ := reporting
  · exact absurd failed fine
  rw [and_iff_left holds.stored, total, Session.received]
  cases last : s.last with
  | none =>
      rw [holds.nothing last]
      exact iff_of_true rfl fun file other => by cases other
  | some file =>
      rw [holds.claimed file last]
      constructor
      · intro same other taken
        cases taken
        exact same
      · intro same
        exact same file rfl

/-! ### A file of three bytes -/

section Sample

/-- Some steps one after the other, where `purgeline` finds nothing. -/
def rzSteps (sscanf : Scan) : Nat → Session → Option Session
  | 0, s => some s
  | count + 1, s => (rzStep sscanf 0 s).bind (rzSteps sscanf count)

theorem reaches_of_rzSteps {sscanf : Scan} {count : Nat} {s next : Session}
    (run : rzSteps sscanf count s = some next) : s.Reaches sscanf next := by
  induction count generalizing s with
  | zero =>
      cases run
      exact .refl
  | succ count inductionHypothesis =>
      obtain ⟨between, first, rest⟩ := Option.bind_eq_some_iff.mp run
      exact .head ⟨0, first⟩ (inductionHypothesis rest)

/-- A size in decimal digits. -/
def sampleScan : Scan := fun text =>
  ((text.takeWhile (· ≠ 0)).foldl
    (fun total digit => 10 * total + (digit.setWidth 32 - 0x30)) 0, 0, 0)

/-- The name `a` with a size of one digit, the bytes `abc`, and the end of the session. -/
def sampleFile (digit : S32) (crc : List S32) : List S32 :=
  zshhdr ZFILE (fun _ => 0) ++ [0x61, 0, digit, 0, ZDLE, ZCRCW] ++ crc ++
    zshhdr ZDATA (fun _ => 0) ++ [0x61, 0x62, 0x63, ZDLE, ZCRCE, 0x69, 0xBA] ++
    zshhdr ZEOF (fun i => if i.val = 0 then 3 else 0) ++ zshhdr ZFIN (fun _ => 0) ++ [0x4F, 0x4F]

def sampleRz (line : List S32) : Session :=
  rz 0x80000000
    { place := .done 0
      modem := ⟨line, fun _ => 0, 0, 0, 0, false, false⟩
      secbuf := []
      attn := []
      tryzhdrtype := ZRINIT
      txhdr := []
      zi := ⟨0, 0, 0, 0, 0, 0, 0, false⟩
      memory := fun _ => 0
      sent := []
      last := none }

def threeClaimed : Option Session :=
  rzSteps sampleScan 10 (sampleRz (sampleFile 0x33 [0xF2, 0xB5]))

def twoClaimed : Option Session :=
  rzSteps sampleScan 10 (sampleRz (sampleFile 0x32 [0xC5, 0x85]))

def Session.result (s : Session) : Option S32 :=
  match s.place with
  | .done c => some c
  | _ => none

theorem place_of_result {s : Session} {c : S32} (result : s.result = some c) :
    s.place = .done c := by
  rw [Session.result] at result
  split at result
  · rename_i at_
    rw [at_, Option.some.inj result]
  · cases result

theorem threeClaimed_isSome : threeClaimed.isSome = true := by decide +kernel

theorem twoClaimed_isSome : twoClaimed.isSome = true := by decide +kernel

theorem rz_size_three :
    let s := threeClaimed.get threeClaimed_isSome
    s.received = 3 ∧ s.place = .done 3 ∧
      (((3 : S32).toInt = s.received ∧ ∀ file, s.last = some file →
        s.memory = putBytes file.before 0x80000000 (accepted file.history).bytes) ↔
      ∀ file, s.last = some file →
        (claimedSize sampleScan file.block).toInt = (accepted file.history).bytes.length) := by
  have returns : (threeClaimed.get threeClaimed_isSome).place = .done 3 :=
    place_of_result (by decide +kernel)
  exact ⟨by decide +kernel, returns,
    rz_size_iff (reaches_of_rzSteps (Option.some_get threeClaimed_isSome).symm) returns
      (by decide)⟩

/-- Three bytes are stored and two are returned, as the information block says. -/
theorem two_returned_of_three :
    ∃ s, (sampleRz (sampleFile 0x32 [0xC5, 0x85])).Reaches sampleScan s ∧
      s.place = .done 2 ∧ (2 : S32) ≠ ERROR ∧ s.received = 3 ∧ (2 : S32).toInt ≠ s.received :=
  ⟨twoClaimed.get twoClaimed_isSome,
    reaches_of_rzSteps (Option.some_get twoClaimed_isSome).symm,
    place_of_result (by decide +kernel), by decide, by decide +kernel, by decide +kernel⟩

end Sample

end Gp2Firmware.CmdLg.Zmodem
