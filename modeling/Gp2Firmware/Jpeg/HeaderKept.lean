import Gp2Firmware.Jpeg.DriverCalls

/-!
# What is known from the headers

The frame header and the scan headers say how many components there are, how
they are sampled, and which tables they use.  Nothing else of the decoder
changes that, apart from `MDrv_JPEG_init`, which clears it.
-/

namespace Gp2Firmware.Jpeg.Decoder

open Gp2Firmware.Lib (Effects)
open Gp2Firmware.Lib.WordMemory Gp2Firmware.Jpeg.BitReader
  Gp2Firmware.Jpeg.HuffmanTable Gp2Firmware.Jpeg.Mcu

section Effect

/-- The components of the frame and their tables. -/
structure Header where
  progressiveFlag : Bool
  compsInFrame : Nat
  hSamp : Nat → Nat
  vSamp : Nat → Nat
  compQuant : Nat → Nat
  compIdent : Nat → Nat
  lumaCi : Nat
  chromaCi : Nat
  compDcTab : Nat → Nat
  compAcTab : Nat → Nat

def State.header (s : State) : Header where
  progressiveFlag := s.progressiveFlag
  compsInFrame := s.frame.compsInFrame
  hSamp := s.frame.hSamp
  vSamp := s.frame.vSamp
  compQuant := s.compQuant
  compIdent := s.compIdent
  lumaCi := s.lumaCi
  chromaCi := s.chromaCi
  compDcTab := s.compDcTab
  compAcTab := s.compAcTab

def sameHeader : Effects State Note where
  does s _ t := t.header = s.header
  refl _ := rfl
  trans before behind := behind.trans before

variable {α β : Type} {m : Program State α}

theorem sameHeader_of (same : ∀ s a t, m s = some (a, t) → t.header = s.header) :
    sameHeader.Keeps m := by
  intro s a t ran
  exact ⟨[], same s a t ran, trivial⟩

theorem header_eq {s t : State} {a : α} (keeps : sameHeader.Keeps m) (ran : m s = some (a, t)) :
    t.header = s.header := by
  obtain ⟨notes, same, -⟩ := keeps s a t ran
  exact same

theorem sameHeader_get_bind {rest : State → Program State β}
    (later : ∀ s, sameHeader.Keeps (rest s)) : sameHeader.Keeps (get >>= rest) :=
  Effects.silent_get.keeps.bind later

theorem sameHeader_modify {change : State → State} (same : ∀ s, (change s).header = s.header) :
    sameHeader.Keeps (modify change : Program State PUnit) :=
  (Effects.silent_modify same).keeps

theorem sameHeader_modify_bind {change : State → State} {rest : PUnit → Program State β}
    (same : ∀ s, (change s).header = s.header) (later : sameHeader.Keeps (rest ())) :
    sameHeader.Keeps (modify change >>= rest) :=
  (sameHeader_modify same).bind fun _ => later

theorem sameHeader_none : sameHeader.Keeps (fun _ => none : Program State α) :=
  Effects.takes_fails fun _ => rfl

theorem sameHeader_reading {read : Reader → α × Reader} : sameHeader.Keeps (reading read) := by
  apply sameHeader_of
  intro s a t ran
  obtain ⟨-, rfl⟩ := Prod.mk.inj (Option.some.inj ran)
  rfl

theorem sameHeader_and {first second : Program State Bool} (before : sameHeader.Keeps first)
    (later : sameHeader.Keeps second) :
    sameHeader.Keeps (do if ← first then second else pure false) := by
  apply before.bind
  intro ok
  split
  · exact later
  · exact Effects.keeps_pure

theorem sameHeader_forEach {part : Nat → Program State Unit}
    (keeps : ∀ i, sameHeader.Keeps (part i)) {i count : Nat} :
    sameHeader.Keeps (forEach part i count) := by
  induction count generalizing i with
  | zero => exact Effects.keeps_pure
  | succ count inductionHypothesis => exact (keeps i).bind fun _ => inductionHypothesis

theorem sameHeader_forEachOk {part : Nat → Program State Bool}
    (keeps : ∀ i, sameHeader.Keeps (part i)) {i count : Nat} :
    sameHeader.Keeps (forEachOk part i count) := by
  induction count generalizing i with
  | zero => exact Effects.keeps_pure
  | succ count inductionHypothesis => exact sameHeader_and (keeps i) inductionHypothesis

end Effect

section Blocks

variable {machine : Machine}

theorem sameHeader_note {n : Note} : sameHeader.Keeps (note n) :=
  sameHeader_modify fun _ => rfl

theorem sameHeader_setMemory {change : Memory → Memory} : sameHeader.Keeps (setMemory change) :=
  sameHeader_modify fun _ => rfl

theorem sameHeader_freeBlocks {blocks : List Address} :
    sameHeader.Keeps (freeBlocks machine blocks) := by
  induction blocks with
  | nil => exact Effects.keeps_pure
  | cons q rest inductionHypothesis =>
      rw [freeBlocks]
      split
      · exact inductionHypothesis
      · have free : sameHeader.Keeps (freeBlock machine q) := by
          apply sameHeader_of
          intro s a t ran
          obtain ⟨memory, -, freed⟩ := Option.map_eq_some_iff.mp ran
          obtain ⟨-, rfl⟩ := Prod.mk.inj freed
          rfl
        exact free.bind fun _ => inductionHypothesis

theorem sameHeader_freeAllBlocks : sameHeader.Keeps (freeAllBlocks machine) := by
  apply sameHeader_get_bind
  intro s
  exact sameHeader_freeBlocks.bind fun _ => sameHeader_modify fun _ => rfl

theorem sameHeader_finalize : sameHeader.Keeps (finalize machine) :=
  sameHeader_freeAllBlocks

theorem sameHeader_terminate {status : JpegError} :
    sameHeader.Keeps (terminate machine status) :=
  sameHeader_note.bind fun _ => sameHeader_freeAllBlocks

theorem sameHeader_fail {status : JpegError} : sameHeader.Keeps (fail machine status) :=
  sameHeader_terminate.bind fun _ => Effects.keeps_pure

theorem sameHeader_alloc {n : U32} : sameHeader.Keeps (alloc machine n) := by
  have noBlock : ∀ status, sameHeader.Keeps (noBlock machine status) := by
    intro status
    apply sameHeader_terminate.bind
    intro _
    exact sameHeader_note.bind fun _ => Effects.keeps_pure
  have malloc : sameHeader.Keeps (mallocBlock machine (n + 8)) := by
    apply sameHeader_of
    intro s a t ran
    obtain ⟨⟨q, memory⟩, -, took⟩ := Option.map_eq_some_iff.mp ran
    obtain ⟨-, rfl⟩ := Prod.mk.inj took
    rfl
  apply sameHeader_get_bind
  intro s
  cases s.books.blocks.findIdx? (· = 0) with
  | none => exact noBlock _
  | some i =>
      apply malloc.bind
      intro q
      split
      · exact noBlock _
      · apply sameHeader_setMemory.bind
        intro _
        refine sameHeader_modify_bind (fun _ => rfl) ?_
        exact sameHeader_note.bind fun _ => Effects.keeps_pure

theorem sameHeader_coeffBufOpen {blockNumX blockNumY : U16} {blockLenX blockLenY : U8} :
    sameHeader.Keeps (coeffBufOpen machine blockNumX blockNumY blockLenX blockLenY) := by
  have noMem : ∀ cb : Address, sameHeader.Keeps (do
      terminate machine .notEnoughMem
      pure cb) := fun cb => sameHeader_terminate.bind fun _ => Effects.keeps_pure
  apply sameHeader_alloc.bind
  intro cb
  split
  · exact noMem 0
  · apply sameHeader_setMemory.bind
    intro _
    apply sameHeader_alloc.bind
    intro data
    apply sameHeader_setMemory.bind
    intro _
    split
    · exact noMem cb
    · exact Effects.keeps_pure

theorem sameHeader_coeffBufGetp {cb : Address} {blockX blockY : Nat} :
    sameHeader.Keeps (coeffBufGetp machine cb blockX blockY) := by
  have noBlock : sameHeader.Keeps (do
      terminate machine .assertionError
      pure (0 : Address)) := sameHeader_terminate.bind fun _ => Effects.keeps_pure
  apply sameHeader_get_bind
  intro s
  dsimp only
  split
  · exact sameHeader_none
  split
  · exact noBlock
  split
  · exact noBlock
  · exact Effects.keeps_pure

end Blocks

section Markers

variable {machine : Machine}

theorem sameHeader_getChar : sameHeader.Keeps (getChar machine) :=
  sameHeader_reading

theorem sameHeader_getShort : sameHeader.Keeps (getShort machine) := by
  apply sameHeader_getChar.bind
  intro _
  exact sameHeader_getChar.bind fun _ => Effects.keeps_pure

theorem sameHeader_readDhtMarker : sameHeader.Keeps (readDhtMarker machine) := by
  have tables : sameHeader.Keeps (readDhtTables machine) := by
    apply sameHeader_of
    intro s a t ran
    obtain ⟨-, rfl⟩ := Prod.mk.inj (Option.some.inj ran)
    rfl
  apply tables.bind
  intro result
  cases result with
  | ok _ => exact Effects.keeps_pure
  | error _ => exact sameHeader_fail

theorem sameHeader_readQuantValue {prec n i : Nat} :
    sameHeader.Keeps (readQuantValue machine prec n i) := by
  have low : sameHeader.Keeps (readLowByte machine prec) := by
    unfold readLowByte
    split
    · exact sameHeader_getChar
    · exact Effects.keeps_pure
  apply sameHeader_getChar.bind
  intro _
  exact low.bind fun _ => sameHeader_modify fun _ => rfl

theorem sameHeader_readQuantTables {turns left : Nat} :
    sameHeader.Keeps (readQuantTables machine turns left) := by
  induction turns generalizing left with
  | zero => exact Effects.keeps_pure
  | succ turns inductionHypothesis =>
      rw [readQuantTables]
      split
      · exact Effects.keeps_pure
      apply sameHeader_getChar.bind
      intro c
      dsimp only
      split
      · exact sameHeader_fail
      refine sameHeader_modify_bind (fun _ => rfl) ?_
      apply (sameHeader_forEach fun _ => sameHeader_readQuantValue).bind
      intro _
      split
      · exact sameHeader_fail
      · exact inductionHypothesis

theorem sameHeader_readDqtMarker : sameHeader.Keeps (readDqtMarker machine) := by
  apply sameHeader_getShort.bind
  intro left
  split
  · exact sameHeader_fail
  · exact sameHeader_readQuantTables

theorem sameHeader_readDriMarker : sameHeader.Keeps (readDriMarker machine) := by
  apply sameHeader_getShort.bind
  intro length
  split
  · exact sameHeader_fail
  apply sameHeader_getShort.bind
  intro interval
  exact sameHeader_modify_bind (fun _ => rfl) Effects.keeps_pure

theorem sameHeader_readApp1Marker : sameHeader.Keeps (readApp1Marker machine) := by
  have exifByte : ∀ i, sameHeader.Keeps (readExifByte machine i) :=
    fun i => sameHeader_getChar.bind fun _ => sameHeader_modify fun _ => rfl
  apply sameHeader_getShort.bind
  intro length
  split
  · exact sameHeader_fail
  apply (sameHeader_forEach exifByte).bind
  intro _
  refine sameHeader_modify_bind ?_ Effects.keeps_pure
  intro s
  unfold decodeExif
  dsimp only
  split <;> rfl

theorem sameHeader_nextIf {read : Program State Bool} (keeps : sameHeader.Keeps read) :
    sameHeader.Keeps (nextIf read) := by
  apply keeps.bind
  intro ok
  split
  · exact Effects.keeps_pure
  · exact Effects.keeps_pure

theorem sameHeader_nextAfterSkip : sameHeader.Keeps (nextAfterSkip machine) := by
  have skips : sameHeader.Keeps (skipVariableMarker machine) := by
    apply sameHeader_getShort.bind
    intro left
    apply sameHeader_note.bind
    intro _
    split
    · exact sameHeader_fail
    · exact sameHeader_reading.bind fun _ => Effects.keeps_pure
  exact skips.bind fun _ => Effects.keeps_pure

theorem sameHeader_processMarker {c : U8} : sameHeader.Keeps (processMarker machine c) := by
  unfold processMarker
  split
  · apply sameHeader_get_bind
    intro s
    split
    · exact sameHeader_nextIf sameHeader_readApp1Marker
    · exact sameHeader_nextAfterSkip
  split
  · exact Effects.keeps_pure
  split
  · exact sameHeader_nextIf sameHeader_readDhtMarker
  split
  · exact sameHeader_nextIf sameHeader_fail
  split
  · exact sameHeader_nextIf sameHeader_readDqtMarker
  split
  · exact sameHeader_nextIf sameHeader_readDriMarker
  split
  · exact sameHeader_nextIf sameHeader_fail
  · exact sameHeader_nextAfterSkip

theorem sameHeader_processMarkers {turns : Nat} :
    sameHeader.Keeps (processMarkers machine turns) := by
  have next : sameHeader.Keeps (nextMarker machine) := by
    apply sameHeader_of
    intro s a t ran
    obtain ⟨⟨c, r⟩, -, took⟩ := Option.map_eq_some_iff.mp ran
    obtain ⟨-, rfl⟩ := Prod.mk.inj took
    rfl
  induction turns with
  | zero => exact sameHeader_none
  | succ turns inductionHypothesis =>
      apply next.bind
      intro c
      apply sameHeader_note.bind
      intro _
      apply sameHeader_processMarker.bind
      intro step
      cases step with
      | next => exact inductionHypothesis
      | found => exact Effects.keeps_pure
      | failed => exact Effects.keeps_pure

theorem sameHeader_soiSearch {bytesleft : Nat} {lastchar : U8} :
    sameHeader.Keeps (soiSearch machine bytesleft lastchar) := by
  induction bytesleft generalizing lastchar with
  | zero => exact Effects.keeps_pure
  | succ bytesleft inductionHypothesis =>
      apply sameHeader_getChar.bind
      intro thischar
      split
      · exact Effects.keeps_pure
      · exact inductionHypothesis

theorem sameHeader_locateSoiMarker : sameHeader.Keeps (locateSoiMarker machine) := by
  apply sameHeader_getChar.bind
  intro lastchar
  apply sameHeader_getChar.bind
  intro thischar
  split
  · exact Effects.keeps_pure
  apply sameHeader_soiSearch.bind
  intro found
  split
  · apply sameHeader_get_bind
    intro s
    split
    · exact sameHeader_fail
    · exact Effects.keeps_pure
  · exact sameHeader_fail

end Markers

section Scan

variable {machine : Machine}

theorem sameHeader_calcMcuBlockOrder : sameHeader.Keeps calcMcuBlockOrder :=
  sameHeader_modify fun _ => rfl

theorem sameHeader_makeHuffTable {index : Nat} : sameHeader.Keeps (makeHuffTable machine index) := by
  have software : ∀ huffsize huffcode lastp,
      sameHeader.Keeps (makeSoftwareTable index huffsize huffcode lastp) := by
    intro huffsize huffcode lastp
    apply sameHeader_get_bind
    intro s
    split
    · exact Effects.keeps_pure
    split
    · exact sameHeader_none
    · exact sameHeader_modify_bind (fun _ => rfl) Effects.keeps_pure
  apply sameHeader_get_bind
  intro s
  dsimp only
  split
  · exact sameHeader_fail
  split
  · exact sameHeader_fail
  · exact sameHeader_modify_bind (fun _ => rfl) (software _ _ _)

theorem sameHeader_checkTables : sameHeader.Keeps (checkTables machine) := by
  have huffComponent : ∀ i, sameHeader.Keeps (checkHuffComponent machine i) := by
    intro i
    apply sameHeader_get_bind
    intro s
    split
    · exact sameHeader_fail
    split
    · exact sameHeader_fail
    · exact Effects.keeps_pure
  have validTable : ∀ i, sameHeader.Keeps (makeValidTable machine i) := by
    intro i
    apply sameHeader_get_bind
    intro s
    split
    · exact sameHeader_makeHuffTable
    · exact Effects.keeps_pure
  have quantComponent : ∀ i, sameHeader.Keeps (checkQuantComponent machine i) := by
    intro i
    apply sameHeader_get_bind
    intro s
    split
    · exact sameHeader_fail
    · exact Effects.keeps_pure
  apply sameHeader_and
  · apply sameHeader_get_bind
    intro s
    exact sameHeader_and (sameHeader_forEachOk huffComponent) (sameHeader_forEachOk validTable)
  · apply sameHeader_get_bind
    intro s
    exact sameHeader_forEachOk quantComponent

theorem startScan_header {s : State} : (startScan machine s).header = s.header := by
  unfold startScan noPrediction
  dsimp only
  split <;> split <;> simp only [State.header]

theorem restart_header {s : State} : (restart machine s).header = s.header := by
  simp only [restart, noPrediction, State.header]

theorem sameHeader_restartIfDue : sameHeader.Keeps (restartIfDue machine) := by
  have seek : ∀ count, sameHeader.Keeps (seekFF machine count) := by
    intro count
    induction count with
    | zero => exact Effects.keeps_pure
    | succ count inductionHypothesis =>
        apply sameHeader_getChar.bind
        intro c
        split
        · exact Effects.keeps_pure
        · exact inductionHypothesis
  have pass : ∀ count, sameHeader.Keeps (passFF machine count) := by
    intro count
    induction count with
    | zero => exact Effects.keeps_pure
    | succ count inductionHypothesis =>
        apply sameHeader_getChar.bind
        intro c
        split
        · exact Effects.keeps_pure
        · exact inductionHypothesis
  apply sameHeader_get_bind
  intro s
  split
  · apply (seek 1536).bind
    intro i
    apply (pass i).bind
    intro found
    cases found with
    | none => exact sameHeader_fail
    | some c =>
        apply sameHeader_get_bind
        intro s
        split
        · exact sameHeader_fail
        · exact sameHeader_modify_bind (fun _ => restart_header) Effects.keeps_pure
  · exact Effects.keeps_pure

end Scan

section Coefficients

variable {machine : Machine} {componentId blockX blockY k : Nat} {p : Address}

theorem sameHeader_getBits {numbits : Nat} : sameHeader.Keeps (getBits machine numbits) :=
  sameHeader_reading

theorem sameHeader_huffSymbol {index : Nat} : sameHeader.Keeps (huffSymbol machine index) := by
  apply sameHeader_of
  intro s a t ran
  obtain ⟨⟨symbol, r⟩, -, took⟩ := Option.map_eq_some_iff.mp ran
  obtain ⟨-, rfl⟩ := Prod.mk.inj took
  rfl

theorem sameHeader_getExtended {s : Nat} : sameHeader.Keeps (getExtended machine s) := by
  unfold getExtended
  split
  · exact sameHeader_getBits.bind fun _ => Effects.keeps_pure
  · exact Effects.keeps_pure

theorem sameHeader_loadCoef : sameHeader.Keeps (loadCoef p k) :=
  sameHeader_get_bind fun _ => Effects.keeps_pure

theorem sameHeader_startEobRun {r : Nat} : sameHeader.Keeps (startEobRun machine r) := by
  have runBits : sameHeader.Keeps (getRunBits machine r) := by
    unfold getRunBits
    split
    · exact sameHeader_getBits
    · exact Effects.keeps_pure
  exact runBits.bind fun _ => sameHeader_modify fun _ => rfl

theorem sameHeader_takeEobRun : sameHeader.Keeps takeEobRun :=
  sameHeader_modify fun _ => rfl

theorem sameHeader_decodeBlockDcFirst :
    sameHeader.Keeps (decodeBlockDcFirst machine componentId blockX blockY) := by
  apply sameHeader_get_bind
  intro _
  apply sameHeader_coeffBufGetp.bind
  intro p
  split
  · exact Effects.keeps_pure
  apply sameHeader_get_bind
  intro _
  apply sameHeader_huffSymbol.bind
  intro _
  apply sameHeader_getExtended.bind
  intro _
  apply sameHeader_get_bind
  intro _
  refine sameHeader_modify_bind (fun _ => rfl) ?_
  exact sameHeader_setMemory.bind fun _ => Effects.keeps_pure

theorem sameHeader_decodeBlockDcRefine :
    sameHeader.Keeps (decodeBlockDcRefine machine componentId blockX blockY) := by
  apply sameHeader_getBits.bind
  intro bit
  split
  · apply sameHeader_get_bind
    intro _
    apply sameHeader_coeffBufGetp.bind
    intro p
    split
    · exact Effects.keeps_pure
    apply sameHeader_loadCoef.bind
    intro _
    apply sameHeader_get_bind
    intro _
    exact sameHeader_setMemory.bind fun _ => Effects.keeps_pure
  · exact Effects.keeps_pure

theorem sameHeader_acFirst {turns : Nat} :
    sameHeader.Keeps (acFirst machine componentId p turns k) := by
  induction turns generalizing k with
  | zero => exact Effects.keeps_pure
  | succ turns inductionHypothesis =>
      apply sameHeader_get_bind
      intro _
      split
      · exact Effects.keeps_pure
      apply sameHeader_get_bind
      intro _
      apply sameHeader_huffSymbol.bind
      intro symbol
      dsimp only
      split
      · split
        · exact sameHeader_fail
        apply sameHeader_getExtended.bind
        intro _
        apply sameHeader_get_bind
        intro _
        exact sameHeader_setMemory.bind fun _ => inductionHypothesis
      split
      · split
        · exact sameHeader_fail
        · exact inductionHypothesis
      · apply sameHeader_startEobRun.bind
        intro _
        exact sameHeader_takeEobRun.bind fun _ => Effects.keeps_pure

theorem sameHeader_decodeBlockAcFirst :
    sameHeader.Keeps (decodeBlockAcFirst machine componentId blockX blockY) := by
  apply sameHeader_get_bind
  intro _
  split
  · exact sameHeader_takeEobRun.bind fun _ => Effects.keeps_pure
  apply sameHeader_get_bind
  intro _
  apply sameHeader_coeffBufGetp.bind
  intro p
  split
  · exact Effects.keeps_pure
  · exact sameHeader_get_bind fun _ => sameHeader_acFirst

theorem sameHeader_refineCoef {value : U16} :
    sameHeader.Keeps (refineCoef machine p k value) := by
  apply sameHeader_getBits.bind
  intro _
  apply sameHeader_get_bind
  intro _
  dsimp only
  split
  · exact sameHeader_setMemory
  · exact Effects.keeps_pure

theorem sameHeader_refineRun {turns r : Nat} :
    sameHeader.Keeps (refineRun machine p turns r k) := by
  induction turns generalizing r k with
  | zero => exact Effects.keeps_pure
  | succ turns inductionHypothesis =>
      apply sameHeader_loadCoef.bind
      intro _
      split
      · apply sameHeader_refineCoef.bind
        intro _
        apply sameHeader_get_bind
        intro _
        split
        · exact inductionHypothesis
        · exact Effects.keeps_pure
      split
      · exact Effects.keeps_pure
      · apply sameHeader_get_bind
        intro _
        split
        · exact inductionHypothesis
        · exact Effects.keeps_pure

theorem sameHeader_newCoef {s : Nat} : sameHeader.Keeps (newCoef machine s) := by
  unfold newCoef
  split
  · apply sameHeader_getBits.bind
    intro _
    exact sameHeader_get_bind fun _ => Effects.keeps_pure
  · exact Effects.keeps_pure

theorem sameHeader_storeNewCoef {value : Option U32} :
    sameHeader.Keeps (storeNewCoef p k value) := by
  unfold storeNewCoef
  split
  · split
    · exact sameHeader_setMemory
    · exact Effects.keeps_pure
  · exact Effects.keeps_pure

theorem sameHeader_acRefine {turns : Nat} :
    sameHeader.Keeps (acRefine machine componentId p turns k) := by
  induction turns generalizing k with
  | zero => exact Effects.keeps_pure
  | succ turns inductionHypothesis =>
      apply sameHeader_get_bind
      intro _
      split
      · exact Effects.keeps_pure
      apply sameHeader_get_bind
      intro _
      apply sameHeader_huffSymbol.bind
      intro symbol
      dsimp only
      split
      · exact sameHeader_terminate.bind fun _ => Effects.keeps_pure
      split
      · exact sameHeader_startEobRun.bind fun _ => Effects.keeps_pure
      · apply sameHeader_newCoef.bind
        intro _
        apply sameHeader_refineRun.bind
        intro _
        exact sameHeader_storeNewCoef.bind fun _ => inductionHypothesis

theorem sameHeader_refineRest {turns : Nat} :
    sameHeader.Keeps (refineRest machine p turns k) := by
  induction turns generalizing k with
  | zero => exact Effects.keeps_pure
  | succ turns inductionHypothesis =>
      apply sameHeader_get_bind
      intro _
      split
      · exact Effects.keeps_pure
      apply sameHeader_loadCoef.bind
      intro _
      split
      · exact sameHeader_refineCoef.bind fun _ => inductionHypothesis
      · exact inductionHypothesis

theorem sameHeader_refineInRun : sameHeader.Keeps (refineInRun machine p k) := by
  apply sameHeader_get_bind
  intro _
  split
  · apply sameHeader_refineRest.bind
    intro _
    exact sameHeader_takeEobRun.bind fun _ => Effects.keeps_pure
  · exact Effects.keeps_pure

theorem sameHeader_decodeBlockAcRefine :
    sameHeader.Keeps (decodeBlockAcRefine machine componentId blockX blockY) := by
  apply sameHeader_get_bind
  intro _
  apply sameHeader_coeffBufGetp.bind
  intro p
  split
  · exact Effects.keeps_pure
  apply sameHeader_get_bind
  intro _
  apply sameHeader_get_bind
  intro _
  split
  · apply sameHeader_acRefine.bind
    intro behind
    cases behind with
    | none => exact Effects.keeps_pure
    | some k => exact sameHeader_refineInRun
  · exact sameHeader_refineInRun

end Coefficients

section Scans

variable {machine : Machine} {f : Frame} {compsInScan : Nat} {restart : Program State Bool}
  {count : Program State Unit} {decodeBlock : Nat → Nat → Nat → Program State Bool}

theorem sameHeader_scanMcu (blocks : ∀ c x y, sameHeader.Keeps (decodeBlock c x y))
    {blockYMcu : Nat → Nat} {mcuOrg : List Nat} {cursor : Cursor} :
    sameHeader.Keeps (scanMcu f compsInScan decodeBlock blockYMcu mcuOrg cursor) := by
  induction mcuOrg generalizing cursor with
  | nil => exact Effects.keeps_pure
  | cons c mcuOrg inductionHypothesis =>
      apply (blocks c _ _).bind
      intro ok
      split
      · exact inductionHypothesis
      · exact Effects.keeps_pure

theorem sameHeader_scanRow (restarts : sameHeader.Keeps restart) (counts : sameHeader.Keeps count)
    (blocks : ∀ c x y, sameHeader.Keeps (decodeBlock c x y)) {mcuOrg : List Nat}
    {blockYMcu blockXMcu : Nat → Nat} {mcus : Nat} :
    sameHeader.Keeps (scanRow f compsInScan restart count decodeBlock mcuOrg blockYMcu mcus
      blockXMcu) := by
  induction mcus generalizing blockXMcu with
  | zero => exact Effects.keeps_pure
  | succ mcus inductionHypothesis =>
      apply restarts.bind
      intro ok
      split
      · apply (sameHeader_scanMcu blocks).bind
        intro cursor
        cases cursor with
        | none => exact Effects.keeps_pure
        | some cursor => exact counts.bind fun _ => inductionHypothesis
      · exact Effects.keeps_pure

theorem sameHeader_scanRows (restarts : sameHeader.Keeps restart)
    (counts : sameHeader.Keeps count) (blocks : ∀ c x y, sameHeader.Keeps (decodeBlock c x y))
    {order : McuOrder} {compList : List Nat} {rows : Nat} {blockYMcu : Nat → Nat} :
    sameHeader.Keeps (scanRows f compsInScan restart count decodeBlock order compList rows
      blockYMcu) := by
  induction rows generalizing blockYMcu with
  | zero => exact Effects.keeps_pure
  | succ rows inductionHypothesis =>
      exact sameHeader_and (sameHeader_scanRow restarts counts blocks) inductionHypothesis

theorem sameHeader_decodeNextScan : sameHeader.Keeps (decodeNextScan machine) := by
  have blocks : ∀ s c x y, sameHeader.Keeps (decodeBlockFunc machine s c x y) := by
    intro s c x y
    unfold decodeBlockFunc
    split <;> split
    · exact sameHeader_decodeBlockDcRefine
    · exact sameHeader_decodeBlockDcFirst
    · exact sameHeader_decodeBlockAcRefine
    · exact sameHeader_decodeBlockAcFirst
  have counts : sameHeader.Keeps countMcu := by
    apply sameHeader_modify
    intro s
    simp only [State.header]
  apply sameHeader_get_bind
  intro s
  split
  · exact sameHeader_fail
  · apply sameHeader_get_bind
    intro t
    exact sameHeader_scanRows sameHeader_restartIfDue counts (blocks s)

theorem sameHeader_openComponent {i : Nat} : sameHeader.Keeps (openComponent machine i) := by
  have openDc : ∀ x y, sameHeader.Keeps (openDc machine i x y) := fun x y =>
    sameHeader_coeffBufOpen.bind fun _ => sameHeader_modify_bind (fun _ => rfl) Effects.keeps_pure
  have openAc : ∀ x y, sameHeader.Keeps (openAc machine i x y) := fun x y =>
    sameHeader_coeffBufOpen.bind fun _ => sameHeader_modify_bind (fun _ => rfl) Effects.keeps_pure
  apply sameHeader_get_bind
  intro s
  apply (openDc _ _).bind
  intro dc
  apply (openAc _ _).bind
  intro ac
  split
  · exact sameHeader_freeAllBlocks.bind fun _ => Effects.keeps_pure
  · exact sameHeader_note.bind fun _ => Effects.keeps_pure

theorem sameHeader_initFrame : sameHeader.Keeps (initFrame machine) := by
  apply sameHeader_get_bind
  intro s
  cases Mcu.initFrame s.frame with
  | error error => exact sameHeader_fail
  | ok layout => exact sameHeader_modify_bind (fun _ => rfl) Effects.keeps_pure

end Scans

section Picture

variable {machine : Machine}

theorem sameHeader_readJpdStatus : sameHeader.Keeps (readJpdStatus machine) := by
  apply sameHeader_of
  intro s status t ran
  obtain ⟨-, rfl⟩ := Prod.mk.inj (Option.some.inj ran)
  rfl

theorem sameHeader_waitRle {count : Nat} : sameHeader.Keeps (waitRle machine count) := by
  induction count with
  | zero => exact Effects.keeps_pure
  | succ count inductionHypothesis =>
      apply sameHeader_readJpdStatus.bind
      intro status
      split
      · exact Effects.keeps_pure
      split
      · exact sameHeader_fail
      split
      · exact Effects.keeps_pure
      · exact inductionHypothesis

theorem startDecode_header {s : State} : (startDecode machine s).header = s.header := by
  unfold startDecode waitForRest
  split <;> rfl

theorem sameHeader_flushRle {last : Bool} : sameHeader.Keeps (flushRle machine last) := by
  refine sameHeader_modify_bind ?_ ?_
  · intro s
    split
    · rfl
    · exact startDecode_header
  · split
    · exact Effects.keeps_pure
    apply sameHeader_waitRle.bind
    intro ready
    split
    · exact sameHeader_modify fun _ => rfl
    · exact Effects.keeps_pure

theorem sameHeader_writeRles {symbols : List RunLength.Svld} :
    sameHeader.Keeps (writeRles machine symbols) := by
  induction symbols with
  | nil => exact Effects.keeps_pure
  | cons myVld rest inductionHypothesis =>
      have first : sameHeader.Keeps (writeRle machine myVld) := by
        refine sameHeader_modify_bind (fun _ => rfl) ?_
        apply sameHeader_get_bind
        intro s
        split
        · exact sameHeader_flushRle
        · exact Effects.keeps_pure
      exact first.bind fun _ => inductionHypothesis

theorem sameHeader_loadBlock {eop : Bool} {c x y : Nat} :
    sameHeader.Keeps (loadBlock machine eop c x y) := by
  have doRle : ∀ p, sameHeader.Keeps (doRle machine p eop c) := by
    intro p
    apply sameHeader_get_bind
    intro s
    exact sameHeader_writeRles.bind fun _ => sameHeader_modify fun _ => rfl
  apply sameHeader_get_bind
  intro s
  apply sameHeader_coeffBufGetp.bind
  intro pAC
  split
  · exact Effects.keeps_pure
  apply sameHeader_get_bind
  intro s
  apply sameHeader_coeffBufGetp.bind
  intro pDC
  split
  · exact Effects.keeps_pure
  apply sameHeader_get_bind
  intro s
  exact (doRle _).bind fun _ => Effects.keeps_pure

theorem sameHeader_loadMcu {f : Frame} {compsInScan : Nat} {blockYMcu : Nat → Nat}
    {lastMcu : Bool} {mcuOrg : List Nat} {cursor : Cursor} :
    sameHeader.Keeps (loadMcu machine f compsInScan blockYMcu lastMcu mcuOrg cursor) := by
  induction mcuOrg generalizing cursor with
  | nil => exact Effects.keeps_pure
  | cons c mcuOrg inductionHypothesis =>
      apply sameHeader_loadBlock.bind
      intro found
      split
      · exact inductionHypothesis
      · exact inductionHypothesis

theorem sameHeader_loadMcus {f : Frame} {compsInScan : Nat} {mcuOrg : List Nat}
    {blockYMcu blockXMcu : Nat → Nat} {lastRow : Bool} {mcus : Nat} :
    sameHeader.Keeps
      (loadMcus machine f compsInScan mcuOrg blockYMcu lastRow mcus blockXMcu) := by
  induction mcus generalizing blockXMcu with
  | zero => exact Effects.keeps_pure
  | succ mcus inductionHypothesis => exact sameHeader_loadMcu.bind fun _ => inductionHypothesis

theorem sameHeader_loadRows {turns : Nat} : sameHeader.Keeps (loadRows machine turns) := by
  induction turns with
  | zero => exact sameHeader_none
  | succ turns inductionHypothesis =>
      have row : sameHeader.Keeps (loadNextRow machine) := by
        apply sameHeader_get_bind
        intro s
        exact sameHeader_loadMcus.bind fun _ => sameHeader_modify fun _ => rfl
      apply sameHeader_get_bind
      intro s
      split
      · exact Effects.keeps_pure
      apply row.bind
      intro _
      refine sameHeader_modify_bind ?_ inductionHypothesis
      intro s
      simp only [State.header]

theorem sameHeader_progressiveDecode : sameHeader.Keeps (progressiveDecode machine) := by
  apply sameHeader_get_bind
  intro s
  split
  · exact Effects.keeps_pure
  split
  · exact Effects.keeps_pure
  · exact sameHeader_loadRows.bind fun _ => Effects.keeps_pure

theorem sameHeader_waitDone : sameHeader.Keeps (waitDone machine) := by
  have finalized : ∀ status : JpdStatus, sameHeader.Keeps (do
      finalize machine
      pure status) := fun status => sameHeader_finalize.bind fun _ => Effects.keeps_pure
  apply sameHeader_readJpdStatus.bind
  intro status
  split
  · exact finalized .decodeDone
  split
  · exact finalized .decodeError
  apply sameHeader_get_bind
  intro s
  split
  · exact sameHeader_modify_bind (fun _ => rfl) Effects.keeps_pure
  split
  · exact sameHeader_modify_bind (fun _ => rfl) Effects.keeps_pure
  · exact Effects.keeps_pure

theorem sameHeader_setInitParameter {rBufAddr iBufAddr : Address} {rBufSize iBufSize : U32}
    {fileEnd : Bool} :
    sameHeader.Keeps (setInitParameter machine rBufAddr rBufSize iBufAddr iBufSize fileEnd) := by
  unfold setInitParameter
  split
  · exact sameHeader_fail
  · refine sameHeader_modify_bind (fun _ => rfl) ?_
    exact sameHeader_modify_bind (fun _ => rfl) Effects.keeps_pure

end Picture

end Gp2Firmware.Jpeg.Decoder
