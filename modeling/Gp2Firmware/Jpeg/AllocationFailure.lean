import Gp2Firmware.Jpeg.CoeffBuffers
import Gp2Firmware.Jpeg.ScanErrors

/-!
# Images that do not fit into the pool

Whether there is room for the coefficient buffers does not depend on the stream.  A buffer
without its data is not noticed, and the scans of the image may be over before it is used.
-/

namespace Gp2Firmware.Jpeg.Decoder

open Gp2Firmware.Lib (Commutes commutes_pure commutes_modify commutes_get_bind)
open Gp2Firmware.Lib.WordMemory Gp2Firmware.Jpeg.BitReader Gp2Firmware.Jpeg.Mcu

/-- The same state in front of another stream. -/
def State.readAs (r : Reader) (s : State) : State :=
  { s with reader := { r with memory := s.reader.memory } }

section Stream

variable {machine : Machine} {r : Reader}

theorem commutes_setMemory {change : Memory → Memory} :
    Commutes (State.readAs r) (setMemory change) :=
  commutes_modify fun _ => rfl

theorem commutes_note {n : Note} : Commutes (State.readAs r) (note n) :=
  commutes_modify fun _ => rfl

theorem commutes_mallocBlock {size : U32} :
    Commutes (State.readAs r) (mallocBlock machine size) := by
  intro s
  change Option.map _ (MemoryPool.malloc machine.avail size s.reader.memory) =
    Option.map _ (Option.map _ (MemoryPool.malloc machine.avail size s.reader.memory))
  rw [Option.map_map]
  rfl

theorem commutes_freeBlock {q : Address} : Commutes (State.readAs r) (freeBlock machine q) := by
  intro s
  change Option.map _ (MemoryPool.free machine.avail q s.reader.memory) =
    Option.map _ (Option.map _ (MemoryPool.free machine.avail q s.reader.memory))
  rw [Option.map_map]
  rfl

theorem commutes_freeBlocks {blocks : List Address} :
    Commutes (State.readAs r) (freeBlocks machine blocks) := by
  induction blocks with
  | nil => exact commutes_pure
  | cons q rest inductionHypothesis =>
      apply Commutes.ite inductionHypothesis
      exact commutes_freeBlock.bind fun _ => inductionHypothesis

theorem commutes_freeAllBlocks : Commutes (State.readAs r) (freeAllBlocks machine) := by
  refine commutes_get_bind (fun _ => rfl) ?_
  intro s
  exact commutes_freeBlocks.bind fun _ => commutes_modify fun _ => rfl

theorem commutes_terminate {status : JpegError} :
    Commutes (State.readAs r) (terminate machine status) :=
  commutes_note.bind fun _ => commutes_freeAllBlocks

theorem commutes_noBlock {status : JpegError} :
    Commutes (State.readAs r) (noBlock machine status) :=
  commutes_terminate.bind fun _ => commutes_note.bind fun _ => commutes_pure

theorem commutes_enterBlock {i : Nat} {q : Address} {size : U32} :
    Commutes (State.readAs r) (enterBlock i q size) := by
  apply commutes_setMemory.bind
  intro _
  refine Commutes.bind (commutes_modify fun _ => rfl) ?_
  intro _
  exact commutes_note.bind fun _ => commutes_pure

theorem commutes_alloc {n : U32} : Commutes (State.readAs r) (alloc machine n) := by
  refine commutes_get_bind (fun _ => rfl) ?_
  intro s
  cases s.books.blocks.findIdx? (· = 0) with
  | none => exact commutes_noBlock
  | some i =>
      apply commutes_mallocBlock.bind
      intro q
      exact commutes_noBlock.ite commutes_enterBlock

theorem commutes_coeffBufOpen {blockNumX blockNumY : U16} {blockLenX blockLenY : U8} :
    Commutes (State.readAs r) (coeffBufOpen machine blockNumX blockNumY blockLenX blockLenY) := by
  apply commutes_alloc.bind
  intro cb
  apply Commutes.ite (commutes_terminate.bind fun _ => commutes_pure)
  apply commutes_setMemory.bind
  intro _
  apply commutes_alloc.bind
  intro data
  apply commutes_setMemory.bind
  intro _
  exact Commutes.ite (commutes_terminate.bind fun _ => commutes_pure) commutes_pure

theorem commutes_openComponent {i : Nat} :
    Commutes (State.readAs r) (openComponent machine i) := by
  refine commutes_get_bind (fun _ => rfl) ?_
  intro s
  refine Commutes.bind (commutes_coeffBufOpen.bind fun _ =>
    Commutes.bind (commutes_modify fun _ => rfl) fun _ => commutes_pure) ?_
  intro dc
  refine Commutes.bind (commutes_coeffBufOpen.bind fun _ =>
    Commutes.bind (commutes_modify fun _ => rfl) fun _ => commutes_pure) ?_
  intro ac
  exact Commutes.ite (commutes_freeAllBlocks.bind fun _ => commutes_pure)
    (commutes_note.bind fun _ => commutes_pure)

theorem commutes_forEachOk {part : Nat → Program State Bool}
    (commutes : ∀ i, Commutes (State.readAs r) (part i)) {i count : Nat} :
    Commutes (State.readAs r) (forEachOk part i count) := by
  induction count generalizing i with
  | zero => exact commutes_pure
  | succ count inductionHypothesis =>
      apply (commutes i).bind
      intro ok
      exact inductionHypothesis.ite commutes_pure

def Opening.readAs (r : Reader) (o : Opening) : Opening :=
  { o with before := o.before.readAs r }

theorem openings_readAs {i count : Nat} {s : State} :
    openings machine i count (s.readAs r) =
      (openings machine i count s).map (Opening.readAs r) := by
  induction count generalizing i s with
  | zero => rfl
  | succ count inductionHypothesis =>
      rw [openings, openings, List.map_append]
      congr 1
      · have same : (openingAt (s.readAs r) i 1 (s.readAs r)).run machine =
            ((openingAt s i 1 s).run machine).map fun result => (result.1, result.2.readAs r) :=
          commutes_coeffBufOpen s
        rw [openingsOf, openingsOf, same]
        cases (openingAt s i 1 s).run machine with
        | none => rfl
        | some result => rfl
      · rw [commutes_openComponent s]
        rcases openComponent machine i s with none | ⟨opened, t⟩
        · rfl
        · cases opened with
          | false => rfl
          | true => exact inductionHypothesis

theorem Opening.dataDenied_readAs {o : Opening} :
    (o.readAs r).DataDenied machine ↔ o.DataDenied machine := by
  constructor
  · intro ⟨cb, s, given, nonzero, noRoom⟩
    obtain ⟨u, ran, rfl⟩ := commutes_alloc.some_iff.mp given
    exact ⟨cb, u, ran, nonzero, noRoom⟩
  · intro ⟨cb, s, given, nonzero, noRoom⟩
    exact ⟨cb, s.readAs r, commutes_alloc.some_iff.mpr ⟨s, given, rfl⟩, nonzero, noRoom⟩

end Stream

section AtEnd

variable {machine : Machine} {s : State}

/-- The buffer is empty and there is no further part of the stream. -/
structure AtEnd (r : Reader) : Prop where
  left : r.inBufLeft = 0
  eof : r.eofFlag = true
  padded : r.temFlag = 0

theorem getChar_atEnd {wait : Wait} {r : Reader} (left : r.inBufLeft = 0)
    (eof : r.eofFlag = true) :
    BitReader.getChar wait r = padding { r with inBufLeft := 0, inBufOfs := r.inBuf } := by
  rw [BitReader.getChar, getCharP, if_pos left, fillReadBuffer]
  simp only [eof, if_true]

theorem markerTurn_goes {r : Reader} (atEnd : AtEnd r) :
    ∃ r', markerTurn machine (false, r) = .inl (true, r') ∧ r'.inBufLeft = 0 ∧
      r'.eofFlag = true ∧ r'.temFlag ≠ 0 := by
  refine ⟨(padding { r with inBufLeft := 0, inBufOfs := r.inBuf }).2, ?_, rfl, atEnd.eof, ?_⟩
  · rw [markerTurn, getChar_atEnd atEnd.left atEnd.eof, padding]
    simp only [atEnd.padded]
    rfl
  · simp [padding, atEnd.padded]

theorem markerTurn_leaves {r : Reader} (left : r.inBufLeft = 0) (eof : r.eofFlag = true)
    (odd : r.temFlag ≠ 0) : ∃ r', markerTurn machine (true, r) = .inr (M_EOI, r') := by
  refine ⟨(padding { r with inBufLeft := 0, inBufOfs := r.inBuf }).2, ?_⟩
  rw [markerTurn, getChar_atEnd left eof, padding]
  simp only [odd, ne_eq, not_false_eq_true, if_true]
  rfl

/-- The marker behind the last byte of a stream is `EOI`. -/
theorem nextMarker_atEnd (atEnd : AtEnd s.reader) (turns : 2 ≤ machine.turns) :
    ∃ t, nextMarker machine s = some (M_EOI, t) := by
  obtain ⟨count, enough⟩ : ∃ count, machine.turns = count + 1 + 1 :=
    ⟨machine.turns - 2, by omega⟩
  obtain ⟨r, goes, left, eof, odd⟩ := @markerTurn_goes machine s.reader atEnd
  obtain ⟨r', leaves⟩ := @markerTurn_leaves machine r left eof odd
  refine ⟨{ s with reader := r' }, ?_⟩
  change Option.map _ (Lib.Loop.run (markerTurn machine) machine.turns (false, s.reader)) = _
  rw [enough, Lib.Loop.run_of_goes goes, Lib.Loop.run_of_leaves leaves]
  rfl

theorem initScan_atEnd (atEnd : AtEnd s.reader) (turns : 2 ≤ machine.turns) :
    ∃ t, initScan machine s = some (false, t) := by
  obtain ⟨t, marker⟩ := nextMarker_atEnd atEnd turns
  obtain ⟨count, enough⟩ : ∃ count, machine.turns = count + 1 := ⟨machine.turns - 1, by omega⟩
  have found : processMarkers machine machine.turns s = some (some M_EOI,
      { t with books := { t.books with log := t.books.log ++ [.marker M_EOI] } }) := by
    rw [enough]
    change (nextMarker machine s).bind _ = _
    rw [marker]
    rfl
  have none : locateSosMarker machine s = some (false,
      { t with books := { t.books with log := t.books.log ++ [.marker M_EOI] } }) := by
    change (processMarkers machine machine.turns s).bind _ = _
    rw [found]
    rfl
  refine ⟨{ t with books := { t.books with log := t.books.log ++ [.marker M_EOI] } }, ?_⟩
  change (locateSosMarker machine s).bind _ = _
  rw [none]
  rfl

theorem decodeScans_atEnd (atEnd : AtEnd s.reader) (turns : 2 ≤ machine.turns) :
    ∃ t, decodeScans machine machine.turns s = some (true, t) := by
  obtain ⟨t, none⟩ := initScan_atEnd atEnd turns
  obtain ⟨count, enough⟩ : ∃ count, machine.turns = count + 1 := ⟨machine.turns - 1, by omega⟩
  refine ⟨t, ?_⟩
  rw [enough]
  change (initScan machine s).bind _ = _
  rw [none]
  rfl

end AtEnd

section Claim

variable {machine : Machine} {site : MemoryPool.Site} {s : State}

/-- Without room for a buffer `FALSE` is returned, and behind the loop all buffers are live and
have their data. -/
def NoticesFailures (machine : Machine) (s : State) : Prop :=
  ((∃ o ∈ openings machine 0 s.frame.compsInFrame s,
      o.StructureDenied machine ∨ o.DataDenied machine) →
    ∃ t, initProgressive machine s = some (false, t)) ∧
  ∀ t, forEachOk (openComponent machine) 0 s.frame.compsInFrame s = some (true, t) →
    ∀ c < s.frame.compsInFrame,
      (t.dcCoeffs c ∈ t.books.live ∧ pu8Data t.reader.memory (t.dcCoeffs c) ≠ 0) ∧
        t.acCoeffs c ∈ t.books.live ∧ pu8Data t.reader.memory (t.acCoeffs c) ≠ 0

/-- Whatever stream the decoder stands in front of, no failure of `alloc` goes unnoticed. -/
def DetectsFailures (machine : Machine) (s : State) : Prop :=
  ∀ r, NoticesFailures machine (s.readAs r)

/-- The last byte of a stream has been read. -/
def ended (s : State) : Reader :=
  { s.reader with inBufLeft := 0, eofFlag := true, temFlag := 0 }

theorem initProgressive_atEnd {t : State} (comps : s.frame.compsInFrame ≠ 4)
    (turns : 2 ≤ machine.turns)
    (ran : forEachOk (openComponent machine) 0 s.frame.compsInFrame s = some (true, t)) :
    ∃ u, initProgressive machine (s.readAs (ended s)) = some (true, u) := by
  have opened : forEachOk (openComponent machine) 0 s.frame.compsInFrame (s.readAs (ended s)) =
      some (true, t.readAs (ended s)) :=
    (commutes_forEachOk fun _ => commutes_openComponent).some_iff.mpr ⟨t, ran, rfl⟩
  obtain ⟨u, scans⟩ := @decodeScans_atEnd machine (t.readAs (ended s)) ⟨rfl, rfl, rfl⟩ turns
  have start : initProgressive machine (s.readAs (ended s)) =
      (if s.frame.compsInFrame = 4 then fail machine .unsupportedColorspace
        else decodeComponents machine s.frame.compsInFrame) (s.readAs (ended s)) := rfl
  refine ⟨allComps u, ?_⟩
  rw [start, if_neg comps]
  change (forEachOk (openComponent machine) 0 s.frame.compsInFrame _).bind _ = _
  rw [opened]
  change (decodeScans machine machine.turns _).bind _ = _
  rw [scans]
  rfl

theorem initProgressive_of_false {t : State} (comps : s.frame.compsInFrame ≠ 4)
    (ran : forEachOk (openComponent machine) 0 s.frame.compsInFrame s = some (false, t)) :
    initProgressive machine s = some (false, t) := by
  have start : initProgressive machine s =
      (if s.frame.compsInFrame = 4 then fail machine .unsupportedColorspace
        else decodeComponents machine s.frame.compsInFrame) s := rfl
  rw [start, if_neg comps]
  change (forEachOk (openComponent machine) 0 s.frame.compsInFrame s).bind _ = _
  rw [ran]
  rfl

/-- Where some structure is denied whenever data is, the loop over the components is left. -/
theorem noticesFailures_of_covered (avail : site.avail = machine.avail) (remote : Remote site)
    (inOrder : InOrder site s) (comps : s.frame.compsInFrame ≠ 4)
    (covered : (∃ o ∈ openings machine 0 s.frame.compsInFrame s, o.DataDenied machine) →
      ∃ o ∈ openings machine 0 s.frame.compsInFrame s, o.StructureDenied machine) :
    NoticesFailures machine s := by
  constructor
  · intro ⟨o, member, denied⟩
    obtain ⟨ok, t, ran, -⟩ := @openComponents_returns machine site s 0 s.frame.compsInFrame avail
      remote inOrder
    have failed : ok = false := by
      rw [openComponents_false_iff ran]
      rcases denied with structureDenied | dataDenied
      · exact ⟨o, member, structureDenied⟩
      · exact covered ⟨o, member, dataDenied⟩
    subst failed
    exact ⟨t, initProgressive_of_false comps ran⟩
  · intro t ran c inFrame
    have noStructure := (openComponents_false_iff ran).not.mp (by decide)
    have noData : ∀ o ∈ openings machine 0 s.frame.compsInFrame s, ¬ o.DataDenied machine := by
      intro o member denied
      exact noStructure (covered ⟨o, member, denied⟩)
    obtain ⟨-, -, usable, -⟩ := openComponents_usable avail remote inOrder ran noData
    obtain ⟨dc, ac⟩ := usable c (Nat.zero_le c) (by omega)
    exact ⟨⟨dc.live, dc.data⟩, ac.live, ac.data⟩

/-- What is denied in front of one stream is denied in front of every stream. -/
theorem exists_denied_readAs {r : Reader} :
    ((∃ o ∈ openings machine 0 s.frame.compsInFrame (s.readAs r), o.DataDenied machine) ↔
        ∃ o ∈ openings machine 0 s.frame.compsInFrame s, o.DataDenied machine) ∧
      ((∃ o ∈ openings machine 0 s.frame.compsInFrame (s.readAs r), o.StructureDenied machine) ↔
        ∃ o ∈ openings machine 0 s.frame.compsInFrame s, o.StructureDenied machine) := by
  rw [openings_readAs]
  simp only [List.mem_map, exists_exists_and_eq_and]
  constructor
  · simp only [Opening.dataDenied_readAs]
  · rfl

/-- A buffer that finds no room is noticed if and only if no data is denied unless a structure
is. -/
theorem detectsFailures_iff (machine : Machine) (site : MemoryPool.Site) (s : State)
    (avail : site.avail = machine.avail) (remote : Remote site) (inOrder : InOrder site s)
    (accepted : Mcu.initFrame s.frame = .ok s.layout) (turns : 2 ≤ machine.turns) :
    DetectsFailures machine s ↔
      ((∃ o ∈ openings machine 0 s.frame.compsInFrame s, o.DataDenied machine) →
        ∃ o ∈ openings machine 0 s.frame.compsInFrame s, o.StructureDenied machine) := by
  have comps : s.frame.compsInFrame ≠ 4 := by
    rcases shape_of_initFrame accepted with ⟨one, -, -⟩ | ⟨three, -, -, -, -, -⟩
    · omega
    · omega
  constructor
  · intro detects denied
    obtain ⟨ok, t, ran, -⟩ := @openComponents_returns machine site s 0 s.frame.compsInFrame avail
      remote inOrder
    rw [← openComponents_false_iff ran]
    cases ok with
    | false => rfl
    | true =>
        obtain ⟨o, member, here⟩ := exists_denied_readAs.1.mpr denied
        obtain ⟨u, goesOn⟩ := initProgressive_atEnd comps turns ran
        obtain ⟨v, failed⟩ := (detects (ended s)).1 ⟨o, member, .inr here⟩
        rw [goesOn] at failed
        cases failed
  · intro covered r
    have inOrder' : InOrder site (s.readAs r) := inOrder.of_same rfl inOrder.kept
    apply noticesFailures_of_covered avail remote inOrder' comps
    obtain ⟨data, structure_⟩ := @exists_denied_readAs machine s r
    intro denied
    exact structure_.mpr (covered (data.mp denied))

end Claim

section Samples

theorem remote_of_before {site : MemoryPool.Site}
    (before : site.avail.toNat + site.size + 8 < site.pool) : Remote site := by
  intro place above below same
  have room := site.room
  have number := congrArg BitVec.toNat same
  rw [BitVec.toNat_add, BitVec.toNat_add, MemoryPool.at'_toNat (by omega),
    MemoryPool.at'_toNat (by omega), show MemoryPool.HLEN.toNat = 8 by decide] at number
  omega

/-- An image of one component without a scan, and a new pool. -/
def noScans (buffer : MemoryPool.Buffer) : State :=
  { sampleImage [] with
    reader := { sampleReader [] with
      memory := (buffer.initial MemoryPool.emptyMemory).memory }
    layout := ⟨.grayscale, 1, 8, 8, 8, 8, 8, 64⟩ }

theorem noScans_inOrder (buffer : MemoryPool.Buffer) :
    InOrder buffer.site (noScans buffer) where
  pooled := ⟨_, buffer.represents MemoryPool.emptyMemory⟩
  bytes := by
    intro q member
    cases member
  kept := kept_of_empty rfl rfl rfl

/-- A pool that has room for the first buffer and no structure behind it. -/
def oneBuffer : MemoryPool.Buffer where
  avail := 0x100
  pool := 0x1000
  size := 192
  large := by decide
  room := by decide
  outside := ⟨by decide, by decide⟩

theorem detectsFailures_oneBuffer :
    DetectsFailures sampleMachine (noScans oneBuffer) := by
  have ran : (forEachOk (openComponent sampleMachine) 0 1 (noScans oneBuffer)).map Prod.fst =
      some false := by
    decide +kernel
  obtain ⟨⟨ok, t⟩, returns, failed⟩ := Option.map_eq_some_iff.mp ran
  refine (detectsFailures_iff sampleMachine oneBuffer.site (noScans oneBuffer) rfl
    (remote_of_before (by decide)) (noScans_inOrder oneBuffer) (by decide) (by decide)).mpr ?_
  intro _
  exact (openComponents_false_iff returns).mp failed

/-- The pool is too small for the data of both buffers, and the image is taken for complete. -/
theorem failures_not_always_detected :
    ¬ ∀ (machine : Machine) (site : MemoryPool.Site) (s : State), site.avail = machine.avail →
      Remote site → InOrder site s → Mcu.initFrame s.frame = .ok s.layout →
      2 ≤ machine.turns → DetectsFailures machine s := by
  intro always
  have ran : (forEachOk (openComponent sampleMachine) 0 1
      (noScans MemoryPool.smallBuffer)).map (fun result => (result.1, result.2.books.live)) =
        some (true, []) := by
    decide +kernel
  obtain ⟨⟨ok, t⟩, returns, result⟩ := Option.map_eq_some_iff.mp ran
  obtain ⟨rfl, live⟩ := Prod.mk.inj result
  have detects := always sampleMachine MemoryPool.smallBuffer.site
    (noScans MemoryPool.smallBuffer) rfl (remote_of_before (by decide)) (noScans_inOrder _)
    (by decide) (by decide)
  obtain ⟨⟨isLive, -⟩, -⟩ := (detects (noScans MemoryPool.smallBuffer).reader).2 t returns 0 (by decide)
  rw [live] at isLive
  cases isLive

end Samples

end Gp2Firmware.Jpeg.Decoder
