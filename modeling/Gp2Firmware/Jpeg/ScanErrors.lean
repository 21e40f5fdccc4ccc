import Gp2Firmware.Jpeg.Progressive

/-!
# The errors of a progressive image

An error in a scan frees the coefficient buffers.  `MDrv_JPEG_DecodeHeader` should
return `FALSE` then; it tells a header that cannot be read from the end of the
image by nothing, and goes on behind a segment that is too short and with a
buffer without data.
-/

namespace Gp2Firmware.Jpeg.Decoder

open Gp2Firmware.Lib (Effects)
open Gp2Firmware.Lib.WordMemory Gp2Firmware.Jpeg.BitReader
  Gp2Firmware.Jpeg.HuffmanTable Gp2Firmware.Jpeg.Mcu

section Opening

variable {machine : Machine} {notes first second : List Note}

theorem Opens.balanced {cb : Address} (opens : Opens cb notes) (nonzero : cb ≠ 0) :
    Balanced notes ∧ lastMarker notes = none ∧ .alloc cb ∈ notes := by
  rcases opens with ⟨zero, -⟩ | ⟨-, data, behind, rfl, failed | ⟨some, rfl⟩⟩
  · exact absurd zero nonzero
  · obtain ⟨-, status, rfl⟩ := failed
    refine ⟨?_, rfl, by simp⟩
    have loud : ¬ Quiet [.alloc cb, .terminate status, .alloc 0, .terminate .notEnoughMem] :=
      @not_quiet_of_mem status _ (by simp)
    exact iff_of_false loud (by simp [Fair])
  · refine ⟨?_, rfl, by simp⟩
    simpa [Balanced, Fair, Quiet] using And.intro nonzero some

theorem Opens.not_quiet (opens : Opens 0 notes) : ¬ Quiet notes := by
  rcases opens with ⟨-, loud⟩ | ⟨nonzero, -⟩
  · exact loud
  · exact absurd rfl nonzero

/-- Where an opening is quiet its buffer is live. -/
theorem coeffBufOpen_live {blockNumX blockNumY : U16} {blockLenX blockLenY : U8} {s t : State}
    {cb : Address}
    (opened : coeffBufOpen machine blockNumX blockNumY blockLenX blockLenY s = some (cb, t)) :
    ∃ notes, Does s notes t ∧ Opens cb notes ∧ (Quiet notes → cb ∈ t.books.live) := by
  obtain ⟨notes, does, opens⟩ := takes_coeffBufOpen s cb t opened
  refine ⟨notes, does, opens, fun quiet => ?_⟩
  apply does.given quiet
  refine (opens.balanced ?_).2.2
  intro zero
  subst zero
  exact opens.not_quiet quiet

theorem openDc_spec {i : Nat} {blockNumX blockNumY : U16} {s t : State} {dc : Address}
    (ran : openDc machine i blockNumX blockNumY s = some (dc, t)) :
    ∃ notes, Does s notes t ∧ Opens dc notes ∧
      (Quiet notes → t.dcCoeffs i ∈ t.books.live) := by
  obtain ⟨⟨dc', t'⟩, opened, stored⟩ := Option.bind_eq_some_iff.mp ran
  obtain ⟨rfl, rfl⟩ := Prod.mk.inj (Option.some.inj stored)
  obtain ⟨notes, does, opens, inPlace⟩ := coeffBufOpen_live opened
  refine ⟨notes, ?_, opens, ?_⟩
  · refine ⟨does.log, does.kept, does.leaks, does.live, does.given, ?_, does.acOpen⟩
    intro quiet c here
    by_cases same : c = i
    · subst same
      simpa using inPlace quiet
    · simpa [same] using does.dcOpen quiet c here
  · simpa using inPlace

theorem openAc_spec {i : Nat} {blockNumX blockNumY : U16} {s t : State} {ac : Address}
    (ran : openAc machine i blockNumX blockNumY s = some (ac, t)) :
    ∃ notes, Does s notes t ∧ Opens ac notes ∧
      (Quiet notes → t.acCoeffs i ∈ t.books.live) := by
  obtain ⟨⟨ac', t'⟩, opened, stored⟩ := Option.bind_eq_some_iff.mp ran
  obtain ⟨rfl, rfl⟩ := Prod.mk.inj (Option.some.inj stored)
  obtain ⟨notes, does, opens, inPlace⟩ := coeffBufOpen_live opened
  refine ⟨notes, ?_, opens, ?_⟩
  · refine ⟨does.log, does.kept, does.leaks, does.live, does.given, does.dcOpen, ?_⟩
    intro quiet c here
    by_cases same : c = i
    · subst same
      simpa using inPlace quiet
    · simpa [same] using does.acOpen quiet c here
  · simpa using inPlace

/-- A component whose buffers are open is noted. -/
theorem Does.opened {s t : State} {i : Nat} (does : Does s notes t)
    (dc : Quiet notes → t.dcCoeffs i ∈ t.books.live)
    (ac : Quiet notes → t.acCoeffs i ∈ t.books.live) :
    Does s (notes ++ [.opened i])
      { t with books := { t.books with log := t.books.log ++ [.opened i] } } := by
  have before : Quiet (notes ++ [.opened i]) → Quiet notes :=
    fun quiet => (quiet_append.mp quiet).1
  constructor
  · change t.books.log ++ [.opened i] = _
    rw [does.log, List.append_assoc]
  · exact fun kept => ⟨(does.kept kept).same, (does.kept kept).noStray⟩
  · exact does.leaks
  · exact fun quiet => does.live (before quiet)
  · intro quiet q member
    exact does.given (before quiet) q (by simpa using member)
  · intro quiet c here
    by_cases same : c = i
    · subst same
      exact dc (before quiet)
    · exact does.dcOpen (before quiet) c (by simpa [same] using here)
  · intro quiet c here
    by_cases same : c = i
    · subst same
      exact ac (before quiet)
    · exact does.acOpen (before quiet) c (by simpa [same] using here)

/-- What is noted of components whose buffers are open. -/
def OpenNotes (components : Nat → Prop) (ok : Bool) (notes : List Note) : Prop :=
  ok = true → Balanced notes ∧ lastMarker notes = none ∧
    ∀ i, components i → .opened i ∈ notes

theorem takes_openComponent {i : Nat} :
    effects.Takes (openComponent machine i) (OpenNotes (· = i)) := by
  intro s ok t ran
  obtain ⟨⟨dc, s1⟩, openedDc, ranAc⟩ := Option.bind_eq_some_iff.mp ran
  obtain ⟨⟨ac, s2⟩, openedAc, ranEnd⟩ := Option.bind_eq_some_iff.mp ranAc
  obtain ⟨first, doesDc, opensDc, liveDc⟩ := openDc_spec openedDc
  obtain ⟨second, doesAc, opensAc, liveAc⟩ := openAc_spec openedAc
  have does : Does s (first ++ second) s2 := effects.trans doesDc doesAc
  dsimp only at ranEnd
  split at ranEnd
  · rename_i zero
    obtain ⟨⟨u, s3⟩, freed, returned⟩ := Option.bind_eq_some_iff.mp ranEnd
    obtain ⟨rfl, rfl⟩ := Prod.mk.inj (Option.some.inj returned)
    have loud : ¬ Quiet (first ++ second) := by
      intro quiet
      obtain ⟨quietFirst, quietSecond⟩ := quiet_append.mp quiet
      rcases zero with rfl | rfl
      · exact opensDc.not_quiet quietFirst
      · exact opensAc.not_quiet quietSecond
    exact ⟨_, does.freed loud freed, fun done => absurd done Bool.false_ne_true⟩
  · rename_i nonzero
    obtain ⟨someDc, someAc⟩ := not_or.mp nonzero
    obtain ⟨rfl, rfl⟩ := Prod.mk.inj (Option.some.inj ranEnd)
    obtain ⟨balancedDc, noneDc, -⟩ := opensDc.balanced someDc
    obtain ⟨balancedAc, noneAc, -⟩ := opensAc.balanced someAc
    have dcHere : Quiet (first ++ second) → s2.dcCoeffs i ∈ s2.books.live := by
      intro quiet
      obtain ⟨quietFirst, quietSecond⟩ := quiet_append.mp quiet
      exact doesAc.dcOpen quietSecond i (.inl (liveDc quietFirst))
    have acHere : Quiet (first ++ second) → s2.acCoeffs i ∈ s2.books.live :=
      fun quiet => liveAc (quiet_append.mp quiet).2
    have whole := @Does.opened (first ++ second) s s2 i does dcHere acHere
    refine ⟨_, whole, ?_⟩
    intro _
    have noted : Balanced [.opened i] := by simp [Balanced, Quiet, Fair]
    refine ⟨(balancedDc.append balancedAc).append noted, ?_, by simp⟩
    rw [lastMarker_append, lastMarker_append, noneDc, noneAc]
    rfl

theorem takes_openComponents {i count : Nat} :
    effects.Takes (forEachOk (openComponent machine) i count)
      (OpenNotes fun j => i ≤ j ∧ j < i + count) := by
  induction count generalizing i with
  | zero =>
      apply Effects.takes_pure
      intro _
      refine ⟨balanced_nil, rfl, ?_⟩
      intro j inside
      omega
  | succ count inductionHypothesis =>
      apply takes_openComponent.bind
      intro ok first opened
      split
      · rename_i done
        obtain ⟨balanced, none, here⟩ := opened done
        apply inductionHypothesis.imp
        intro ok second later done
        obtain ⟨balancedLater, noneLater, there⟩ := later done
        refine ⟨balanced.append balancedLater, ?_, ?_⟩
        · rw [lastMarker_append_of_none noneLater, none]
        · intro j inside
          apply List.mem_append.mpr
          by_cases same : j = i
          · exact .inl (here j same)
          · exact .inr (there j (by omega))
      · apply Effects.takes_pure
        exact fun done => absurd done Bool.false_ne_true

end Opening

section Scans

variable {machine : Machine}

theorem silent_countMcu : effects.Silent countMcu :=
  silent_change fun _ => ⟨rfl, rfl, rfl⟩

theorem strict_decodeNextScan : effects.Takes (decodeNextScan machine) Strict := by
  unfold decodeNextScan decodeScan Mcu.decodeScan
  apply Effects.silent_get.bind
  intro s
  split
  · exact strict_fail
  · apply Effects.silent_get.bind
    intro _
    apply strict_scanRows strict_restartIfDue silent_countMcu
    intro c x y
    unfold decodeBlockFunc
    split
    · split
      · exact strict_decodeBlockDcRefine
      · exact strict_decodeBlockDcFirst
    · split
      · exact strict_decodeBlockAcRefine
      · exact strict_decodeBlockAcFirst

/-- What is noted up to a header that ends the image: no error is handled if and only if
nothing is wrong that is not told, and the header is the end. -/
def ScanNotes (ok : Bool) (notes : List Note) : Prop :=
  ok = true → (∃ c, lastMarker notes = some c) ∧
    (Quiet notes ↔ Fair notes ∧ lastMarker notes = some M_EOI)

theorem ScanNotes.behind {ok : Bool} {first second : List Note} (balanced : Balanced first)
    (scans : ScanNotes ok second) : ScanNotes ok (first ++ second) := by
  intro done
  obtain ⟨⟨c, last⟩, same⟩ := scans done
  have marker := @lastMarker_append_of_some first second c last
  refine ⟨⟨c, marker⟩, ?_⟩
  rw [quiet_append, fair_append, marker, same, last, and_assoc]
  exact and_congr_left fun _ => balanced

theorem takes_decodeScans {turns : Nat} :
    effects.Takes (decodeScans machine turns) ScanNotes := by
  induction turns with
  | zero => exact Effects.takes_fails fun _ => rfl
  | succ turns inductionHypothesis =>
      apply takes_initScan.bind
      intro ok first header
      cases ok with
      | false =>
          obtain ⟨⟨c, last, -⟩, same⟩ := header
          apply Effects.takes_pure
          rw [List.append_nil]
          intro _
          exact ⟨⟨c, last⟩, same⟩
      | true =>
          obtain ⟨-, balanced⟩ := header
          apply strict_decodeNextScan.bind
          intro ok second strict
          split
          · rename_i done
            rw [strict done]
            exact inductionHypothesis.imp fun ok later scans => scans.behind balanced
          · apply Effects.takes_pure
            exact fun done => absurd done Bool.false_ne_true

end Scans

section Header

variable {machine : Machine} {s t : State} {ok : Bool}

/-- What is noted of an image whose header is decoded. -/
def ImageNotes (comps : Nat) (ok : Bool) (notes : List Note) : Prop :=
  ok = true → (Quiet notes ↔ Fair notes ∧ lastMarker notes = some M_EOI) ∧
    ∀ i < comps, .opened i ∈ notes

theorem takes_enterFrame {layout : Except FrameError Layout} :
    effects.Takes (enterFrame machine layout) Checked := by
  cases layout with
  | error _ => exact checked_fail
  | ok _ => exact takes_change (fun _ => ⟨rfl, rfl, rfl⟩) checked_pure

theorem not_fail {status : JpegError} : fail machine status s ≠ some (true, t) := by
  intro ran
  obtain ⟨⟨u, s'⟩, -, returned⟩ := Option.bind_eq_some_iff.mp ran
  exact absurd (Prod.mk.inj (Option.some.inj returned)).1 (by simp)

/-- What a frame that is admitted leaves as it is. -/
theorem enterFrame_same {layout : Except FrameError Layout}
    (ran : enterFrame machine layout s = some (true, t)) :
    t.progressiveFlag = s.progressiveFlag ∧ t.frame = s.frame := by
  cases layout with
  | error _ => exact absurd ran not_fail
  | ok layout =>
      obtain ⟨-, rfl⟩ := Prod.mk.inj (Option.some.inj ran)
      exact ⟨rfl, rfl⟩

theorem takes_decodeComponents {comps : Nat} :
    effects.Takes (decodeComponents machine comps) (ImageNotes comps) := by
  apply takes_openComponents.bind
  intro ok first opens
  split
  · rename_i done
    obtain ⟨balanced, -, opened⟩ := opens done
    apply takes_decodeScans.bind
    intro ok second scans
    split
    · rename_i done
      obtain ⟨-, same⟩ := scans.behind balanced done
      refine takes_change (fun _ => ⟨rfl, rfl, rfl⟩) ?_
      apply Effects.takes_pure
      rw [List.append_nil]
      intro _
      refine ⟨same, ?_⟩
      intro i inside
      exact List.mem_append_left second (opened i (by omega))
    · apply Effects.takes_pure
      exact fun done => absurd done Bool.false_ne_true
  · apply Effects.takes_pure
    exact fun done => absurd done Bool.false_ne_true

/-- The notes that are taken between two states. -/
def notesOf (s t : State) : List Note :=
  t.books.log.drop s.books.log.length

/-- The buffers of all components are live, and so are all blocks that were given out for
them. -/
def BuffersLive (s t : State) : Prop :=
  (∀ c < s.frame.compsInFrame, t.dcCoeffs c ∈ t.books.live ∧ t.acCoeffs c ∈ t.books.live) ∧
    ∀ q, .alloc q ∈ notesOf s t → q ∈ t.books.live

/-- The image is read without an error, or `FALSE` is returned. -/
def Reports (s t : State) (ok : Bool) : Prop :=
  (¬ Quiet (notesOf s t) → ok = false) ∧ (ok = true → BuffersLive s t)

/-- Behind `TRUE`: `alloc` has found room each time, no segment that was skipped is too
short, and the last marker is the end of the image. -/
def Clean (s t : State) (ok : Bool) : Prop :=
  ok = true → Fair (notesOf s t) ∧ lastMarker (notesOf s t) = some M_EOI

theorem decodeHeader_spec (progressive : s.progressiveFlag = true)
    (ran : decodeHeader machine s = some (ok, t)) :
    ∃ notes, Does s notes t ∧ ImageNotes s.frame.compsInFrame ok notes := by
  obtain ⟨⟨admitted, s1⟩, framed, later⟩ := Option.bind_eq_some_iff.mp ran
  obtain ⟨first, doesFirst, checked⟩ := takes_enterFrame s admitted s1 framed
  cases admitted with
  | false =>
      obtain ⟨rfl, rfl⟩ := Prod.mk.inj (Option.some.inj later)
      exact ⟨first, doesFirst, fun done => absurd done Bool.false_ne_true⟩
  | true =>
      obtain ⟨flag, frame⟩ := enterFrame_same framed
      have scans : (if s1.progressiveFlag = true then initProgressive machine
          else initSequential machine) s1 = some (ok, t) := later
      rw [flag, if_pos progressive] at scans
      have image : (if s1.frame.compsInFrame = 4 then fail machine .unsupportedColorspace
          else decodeComponents machine s1.frame.compsInFrame) s1 = some (ok, t) := scans
      rw [frame] at image
      obtain ⟨-, rfl⟩ | ⟨impossible, -⟩ := checked
      · split at image
        · obtain ⟨notes, does, failed⟩ := checked_fail s1 ok t image
          refine ⟨notes, effects.trans doesFirst does, ?_⟩
          rcases failed with ⟨rfl, -⟩ | ⟨rfl, -⟩
          · exact absurd image not_fail
          · exact fun done => absurd done Bool.false_ne_true
        · obtain ⟨notes, does, found⟩ := takes_decodeComponents s1 ok t image
          exact ⟨notes, effects.trans doesFirst does, found⟩
      · cases impossible

end Header

section Samples

/-- Nobody brings a further part of the stream. -/
def sampleMachine : Machine where
  avail := 0x100
  wait := id
  beyond _ := (0, 0)
  jpdStatus _ := 1
  progressiveSize := (1920, 1440)
  baselineSize := (3832, 2152)
  turns := 8

/-- A reader in front of some bytes, in a memory with a pool. -/
def sampleReader (bytes : List U8) : Reader where
  memory := putBytes (MemoryPool.initMempool 0x100 0x10000 0x8000 fun _ => 0).2 0x1000 bytes
  inBuf := 0x1000
  inBufOfs := 0x1000
  inBufLeft := BitVec.ofNat 32 bytes.length
  temFlag := 0
  eofFlag := true
  bitsLeft := 16
  bitBuf := 0
  totalBytesRead := 0
  thumbnailAccessMode := false
  thumbnailBufferOffset := 0
  thumbnailBufferSize := 0
  mrcBufferAddr := 0x1000
  mrcBufferSize := 0x800
  internalBufferAddr := 0x8000

/-- A progressive image of one component and some bytes behind its frame header. -/
def sampleImage (bytes : List U8) : State :=
  { State.start (sampleReader bytes) with
    progressiveFlag := true
    frame := ⟨64, 64, 1, fun _ => 1, fun _ => 1⟩ }

end Samples

end Gp2Firmware.Jpeg.Decoder
