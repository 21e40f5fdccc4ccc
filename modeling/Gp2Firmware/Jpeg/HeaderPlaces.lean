import Gp2Firmware.Jpeg.HeaderKept
import Gp2Firmware.Jpeg.McuBound

/-!
# Where the headers are read and used

A call of the driver comes to some places of the decoder: to the readers of the
frame header and of a scan header, and to what is done with the numbers of these
headers.  What the two readers and `MDrv_JPEG_init` keep of the headers holds at
all of these places.
-/

namespace Gp2Firmware.Jpeg.Decoder

open Gp2Firmware.Lib (Effects Ensures)
open Gp2Firmware.Lib.WordMemory Gp2Firmware.Jpeg.BitReader
  Gp2Firmware.Jpeg.HuffmanTable Gp2Firmware.Jpeg.Mcu

section Places

/-- `read_sof_marker`, `read_sos_marker`, `calc_mcu_block_order`, the checks of the tables in
`init_scan`, the functions that decode a block, and `StartDecode`. -/
inductive Place where
  | frameHeader
  | scanHeader
  | mcuBlockOrder
  | tableChecks
  | blocks
  | startDecode
  deriving DecidableEq

variable (machine : Machine)

/-- What `MDrv_JPEG_locate_sof_marker` comes to, with the states there. -/
inductive LocateSofAt (s : State) : Place → State → Prop where
  | sequential {t u : State} {c : U8} : locateSoiMarker machine s = some (true, t) →
      processMarkers machine machine.turns t = some (some c, u) → c = M_SOF0 ∨ c = M_SOF1 →
      LocateSofAt s .frameHeader u
  | progressive {t u : State} : locateSoiMarker machine s = some (true, t) →
      processMarkers machine machine.turns t = some (some M_SOF2, u) →
      LocateSofAt s .frameHeader { u with progressiveFlag := true }

/-- `MDrv_JPEG_decode_init` in front of the frame header of the thumbnail. -/
def restartForThumbnail : Program State Unit := do
  let s ← get
  modify fun s => { s with reader := { s.reader with thumbnailAccessMode := true } }
  finalize machine
  modify (init machine)
  modify fun t => { t with originalImageSize := s.originalImageSize }

def startImage (decodeType : DecodeType) (s : State) : State :=
  init machine (initThumbnail { s with decodeType := decodeType })

def keepSize (s : State) : State :=
  { s with originalImageSize := (s.frame.imageXSize, s.frame.imageYSize) }

inductive ConstructorAt (decodeType : DecodeType) (s : State) : Place → State → Prop where
  | image {place : Place} {t : State} :
      LocateSofAt machine (startImage machine decodeType s) place t →
      ConstructorAt decodeType s place t
  | thumbnail {place : Place} {t u v : State} :
      locateSofMarker machine (startImage machine decodeType s) = some (true, t) →
      tooBig machine (keepSize t) = false → t.decodeType = .thumbnail →
      t.thumbnail.thumbnailFound = true →
      restartForThumbnail machine (keepSize t) = some ((), u) →
      LocateSofAt machine u place v → ConstructorAt decodeType s place v

inductive InitScanAt (s : State) : Place → State → Prop where
  | scanHeader {t : State} : processMarkers machine machine.turns s = some (some M_SOS, t) →
      InitScanAt s .scanHeader t
  | mcuBlockOrder {t : State} : locateSosMarker machine s = some (true, t) →
      InitScanAt s .mcuBlockOrder t
  | tableChecks {t u : State} : locateSosMarker machine s = some (true, t) →
      calcMcuBlockOrder t = some ((), u) → InitScanAt s .tableChecks u

/-- What the loop over the scans comes to. -/
inductive DecodeScansAt : State → Place → State → Prop where
  | initScan {s t : State} {place : Place} : InitScanAt machine s place t →
      DecodeScansAt s place t
  | blocks {s t : State} : initScan machine s = some (true, t) → checkSpectral t = none →
      DecodeScansAt s .blocks t
  | later {s t u v : State} {place : Place} : initScan machine s = some (true, t) →
      decodeNextScan machine t = some (true, u) → DecodeScansAt u place v →
      DecodeScansAt s place v

inductive DecodeHeaderAt (s : State) : Place → State → Prop where
  | sequential {place : Place} {t u : State} : initFrame machine s = some (true, t) →
      t.progressiveFlag = false → InitScanAt machine t place u → DecodeHeaderAt s place u
  | progressive {place : Place} {t u v : State} : initFrame machine s = some (true, t) →
      t.progressiveFlag = true → t.frame.compsInFrame ≠ 4 →
      forEachOk (openComponent machine) 0 t.frame.compsInFrame t = some (true, u) →
      DecodeScansAt machine u place v → DecodeHeaderAt s place v
  | allComponents {t u v : State} : initFrame machine s = some (true, t) →
      t.progressiveFlag = true → t.frame.compsInFrame ≠ 4 →
      forEachOk (openComponent machine) 0 t.frame.compsInFrame t = some (true, u) →
      decodeScans machine machine.turns u = some (true, v) →
      DecodeHeaderAt s .mcuBlockOrder (allComps v)

end Places

section Steps

/-- A call of the driver, or of `MDrv_JPEG_StartDecode`. -/
inductive Step where
  | call (event : Event)
  | startDecode (machine : Machine)

def Step.run : Step → State → Option State
  | .call event, s => event.run s
  | .startDecode machine, s => some (Decoder.startDecode machine s)

/-- What a call comes to.  The hardware is started for a frame that was admitted, or from
within the rows of a progressive image, which leave the headers alone. -/
inductive Step.At : Step → State → Place → State → Prop where
  | constructor {machine : Machine} {decodeType : DecodeType} {s t : State} {place : Place} :
      ConstructorAt machine decodeType s place t →
      Step.At (.call ⟨machine, .constructor decodeType⟩) s place t
  | decodeHeader {machine : Machine} {s t : State} {place : Place} :
      DecodeHeaderAt machine s place t → Step.At (.call ⟨machine, .decodeHeader⟩) s place t
  | progressiveDecode {machine : Machine} {s t : State} : s.progressiveFlag = true →
      t.header = s.header → Step.At (.call ⟨machine, .progressiveDecode⟩) s .startDecode t
  | startDecode {machine : Machine} {s : State} {layout : Layout} :
      Mcu.initFrame s.frame = .ok layout → Step.At (.startDecode machine) s .startDecode s

/-- The state behind a call, the same one if it does not return. -/
def afterStep (s : State) (step : Step) : State :=
  (step.run s).getD s

def Step.machine : Step → Machine
  | .call event => event.machine
  | .startDecode machine => machine

def Step.BeginsImage : Step → Prop
  | .call ⟨_, .constructor _⟩ => True
  | _ => False

end Steps

section Invariants

variable {machine : Machine} {holds : Header → Prop} {named : State → Prop} {s t : State}
  {place : Place}

theorem constructorAt_place {decodeType : DecodeType}
    (at_ : ConstructorAt machine decodeType s place t) : place = .frameHeader := by
  cases at_ with
  | image at_ => cases at_ <;> rfl
  | thumbnail _ _ _ _ _ at_ => cases at_ <;> rfl

theorem initScanAt_place (at_ : InitScanAt machine s place t) : place ≠ .frameHeader := by
  cases at_ <;> simp

theorem decodeScansAt_place (at_ : DecodeScansAt machine s place t) : place ≠ .frameHeader := by
  induction at_ with
  | initScan at_ => exact initScanAt_place at_
  | blocks => simp
  | later _ _ _ inductionHypothesis => exact inductionHypothesis

theorem decodeHeaderAt_place (at_ : DecodeHeaderAt machine s place t) :
    place ≠ .frameHeader := by
  cases at_ with
  | sequential _ _ at_ => exact initScanAt_place at_
  | progressive _ _ _ _ at_ => exact decodeScansAt_place at_
  | allComponents => simp

/-- What a reader keeps, if what it reads is as it should be. -/
def ReaderKeeps (holds : Header → Prop) (named : State → Prop) (read : Program State Bool) :
    Prop :=
  ∀ s ok t, named s → holds s.header → read s = some (ok, t) → holds t.header

theorem ran_modify_bind {α : Type} {change : State → State} {rest : PUnit → Program State α}
    {result : α × State} (ran : (modify change >>= rest) s = some result) :
    rest () (change s) = some result := ran

theorem locateSosMarker_cases {ok : Bool} (ran : locateSosMarker machine s = some (ok, t)) :
    t.header = s.header ∨ ∃ u, processMarkers machine machine.turns s = some (some M_SOS, u) ∧
      u.header = s.header ∧ readSosMarker machine u = some (ok, t) := by
  obtain ⟨⟨found, u⟩, markers, later⟩ := Option.bind_eq_some_iff.mp ran
  have same := header_eq sameHeader_processMarkers markers
  cases found with
  | none =>
      obtain ⟨-, rfl⟩ := Prod.mk.inj (Option.some.inj later)
      exact .inl same
  | some c =>
      dsimp only at later
      split at later
      · obtain ⟨-, rfl⟩ := Prod.mk.inj (Option.some.inj later)
        exact .inl same
      split at later
      · exact .inl ((header_eq sameHeader_fail later).trans same)
      · rename_i isSos
        obtain rfl := not_not.mp isSos
        exact .inr ⟨u, markers, same, later⟩

section Scans

variable (scanHeader : ReaderKeeps holds named (readSosMarker machine))

include scanHeader

theorem holds_locateSosMarker {ok : Bool} (here : holds s.header)
    (visited : ∀ t, InitScanAt machine s .scanHeader t → named t)
    (ran : locateSosMarker machine s = some (ok, t)) : holds t.header := by
  rcases locateSosMarker_cases ran with same | ⟨u, markers, same, read⟩
  · rwa [same]
  · exact scanHeader u ok t (visited u (.scanHeader markers)) (same ▸ here) read

theorem holds_initScan {ok : Bool} (here : holds s.header)
    (visited : ∀ t, InitScanAt machine s .scanHeader t → named t)
    (ran : initScan machine s = some (ok, t)) : holds t.header := by
  obtain ⟨⟨found, u⟩, located, later⟩ := Option.bind_eq_some_iff.mp ran
  have header := holds_locateSosMarker scanHeader here visited located
  cases found with
  | false =>
      obtain ⟨-, rfl⟩ := Prod.mk.inj (Option.some.inj later)
      exact header
  | true =>
      have rest : sameHeader.Keeps (do
          calcMcuBlockOrder
          if ← checkTables machine then
            modify (startScan machine)
            pure true
          else
            pure false) := by
        apply sameHeader_calcMcuBlockOrder.bind
        intro _
        apply sameHeader_and sameHeader_checkTables
        exact sameHeader_modify_bind (fun _ => startScan_header) Effects.keeps_pure
      rwa [header_eq rest later]

theorem holds_initScanAt (here : holds s.header)
    (visited : ∀ t, InitScanAt machine s .scanHeader t → named t)
    (at_ : InitScanAt machine s place t) : holds t.header := by
  cases at_ with
  | scanHeader markers => rwa [header_eq sameHeader_processMarkers markers]
  | mcuBlockOrder located => exact holds_locateSosMarker scanHeader here visited located
  | tableChecks located order =>
      rw [header_eq sameHeader_calcMcuBlockOrder order]
      exact holds_locateSosMarker scanHeader here visited located

theorem holds_decodeScans {turns : Nat} {ok : Bool} (here : holds s.header)
    (visited : ∀ t, DecodeScansAt machine s .scanHeader t → named t)
    (ran : decodeScans machine turns s = some (ok, t)) : holds t.header := by
  induction turns generalizing s with
  | zero => cases ran
  | succ turns inductionHypothesis =>
      obtain ⟨⟨found, u⟩, started, later⟩ := Option.bind_eq_some_iff.mp ran
      have header := holds_initScan scanHeader here
        (fun t at_ => visited t (.initScan at_)) started
      cases found with
      | false =>
          obtain ⟨-, rfl⟩ := Prod.mk.inj (Option.some.inj later)
          exact header
      | true =>
          obtain ⟨⟨decoded, v⟩, scan, last⟩ := Option.bind_eq_some_iff.mp later
          have same := header_eq sameHeader_decodeNextScan scan
          cases decoded with
          | false =>
              obtain ⟨-, rfl⟩ := Prod.mk.inj (Option.some.inj last)
              rwa [same]
          | true =>
              apply inductionHypothesis (same ▸ header) _ last
              intro t at_
              exact visited t (.later started scan at_)

theorem holds_decodeScansAt (here : holds s.header)
    (visited : ∀ t, DecodeScansAt machine s .scanHeader t → named t)
    (at_ : DecodeScansAt machine s place t) : holds t.header := by
  induction at_ with
  | initScan at_ =>
      exact holds_initScanAt scanHeader here (fun t at_ => visited t (.initScan at_)) at_
  | blocks started _ =>
      exact holds_initScan scanHeader here (fun t at_ => visited t (.initScan at_)) started
  | later started scan _ inductionHypothesis =>
      have header := holds_initScan scanHeader here
        (fun t at_ => visited t (.initScan at_)) started
      apply inductionHypothesis
      · rwa [header_eq sameHeader_decodeNextScan scan]
      · intro t at_
        exact visited t (.later started scan at_)

theorem holds_decodeHeaderAt (here : holds s.header)
    (visited : ∀ t, DecodeHeaderAt machine s .scanHeader t → named t)
    (at_ : DecodeHeaderAt machine s place t) : holds t.header := by
  cases at_ with
  | sequential admitted sequential at_ =>
      apply holds_initScanAt scanHeader _ _ at_
      · rwa [header_eq sameHeader_initFrame admitted]
      · exact fun t at_ => visited t (.sequential admitted sequential at_)
  | progressive admitted progressive four opened at_ =>
      apply holds_decodeScansAt scanHeader _ _ at_
      · rwa [header_eq (sameHeader_forEachOk fun _ => sameHeader_openComponent) opened,
          header_eq sameHeader_initFrame admitted]
      · exact fun t at_ => visited t (.progressive admitted progressive four opened at_)
  | allComponents admitted progressive four opened decoded =>
      apply @holds_decodeScans machine holds named _ _ scanHeader _ _ _ _ decoded
      · rwa [header_eq (sameHeader_forEachOk fun _ => sameHeader_openComponent) opened,
          header_eq sameHeader_initFrame admitted]
      · exact fun t at_ => visited t (.progressive admitted progressive four opened at_)

theorem holds_decodeHeader {ok : Bool} (here : holds s.header)
    (visited : ∀ t, DecodeHeaderAt machine s .scanHeader t → named t)
    (ran : decodeHeader machine s = some (ok, t)) : holds t.header := by
  obtain ⟨⟨framed, u⟩, admitted, later⟩ := Option.bind_eq_some_iff.mp ran
  have header : holds u.header := by rwa [header_eq sameHeader_initFrame admitted]
  cases framed with
  | false =>
      obtain ⟨-, rfl⟩ := Prod.mk.inj (Option.some.inj later)
      exact header
  | true =>
      have scans : (if u.progressiveFlag then initProgressive machine else initSequential machine) u
          = some (ok, t) := later
      split at scans
      · rename_i progressive
        have components : (if u.frame.compsInFrame = 4 then fail machine .unsupportedColorspace
            else decodeComponents machine u.frame.compsInFrame) u = some (ok, t) := scans
        split at components
        · rwa [header_eq sameHeader_fail components]
        rename_i four
        obtain ⟨⟨opened, v⟩, open_, last⟩ := Option.bind_eq_some_iff.mp components
        have same := header_eq (sameHeader_forEachOk fun _ => sameHeader_openComponent) open_
        cases opened with
        | false =>
            obtain ⟨-, rfl⟩ := Prod.mk.inj (Option.some.inj last)
            rwa [same]
        | true =>
            obtain ⟨⟨decoded, w⟩, loop, lastOrder⟩ := Option.bind_eq_some_iff.mp last
            have behind := holds_decodeScans scanHeader (same ▸ header)
              (fun t at_ => visited t (.progressive admitted progressive four open_ at_)) loop
            cases decoded with
            | false =>
                obtain ⟨-, rfl⟩ := Prod.mk.inj (Option.some.inj lastOrder)
                exact behind
            | true =>
                obtain ⟨-, rfl⟩ := Prod.mk.inj (Option.some.inj lastOrder)
                exact behind
      · rename_i sequential
        obtain ⟨⟨started, v⟩, scan, last⟩ := Option.bind_eq_some_iff.mp scans
        have behind := holds_initScan scanHeader header
          (fun t at_ => visited t (.sequential admitted (by simpa using sequential) at_)) scan
        cases started with
        | false => rwa [header_eq sameHeader_fail last]
        | true =>
            obtain ⟨-, rfl⟩ := Prod.mk.inj (Option.some.inj last)
            exact behind

end Scans

section Images

/-- What the functions keep that begin an image. -/
structure ImageKeeps (machine : Machine) (holds : Header → Prop) (named : State → Prop) :
    Prop where
  frameHeader : ReaderKeeps holds named (readSofMarker machine)
  init : ∀ s, holds s.header → holds (init machine s).header
  progressive : ∀ s : State, holds s.header → holds { s with progressiveFlag := true }.header

variable {decodeType : DecodeType} (keeps : ImageKeeps machine holds named)

include keeps

theorem holds_locateSofMarker {ok : Bool} (here : holds s.header)
    (visited : ∀ t, LocateSofAt machine s .frameHeader t → named t)
    (ran : locateSofMarker machine s = some (ok, t)) : holds t.header := by
  obtain ⟨⟨found, u⟩, soi, later⟩ := Option.bind_eq_some_iff.mp ran
  have header : holds u.header := by rwa [header_eq sameHeader_locateSoiMarker soi]
  cases found with
  | false =>
      obtain ⟨-, rfl⟩ := Prod.mk.inj (Option.some.inj later)
      exact header
  | true =>
      obtain ⟨⟨marker, v⟩, markers, last⟩ := Option.bind_eq_some_iff.mp later
      have behind : holds v.header := by rwa [header_eq sameHeader_processMarkers markers]
      cases marker with
      | none =>
          obtain ⟨-, rfl⟩ := Prod.mk.inj (Option.some.inj last)
          exact behind
      | some c =>
          dsimp only at last
          split at last
          · rename_i isProgressive
            subst isProgressive
            exact keeps.frameHeader _ ok t (visited _ (.progressive soi markers))
              (keeps.progressive v behind) (ran_modify_bind last)
          split at last
          · rename_i isSequential
            exact keeps.frameHeader v ok t (visited v (.sequential soi markers isSequential)) behind
              last
          split at last
          · rwa [header_eq sameHeader_fail last]
          · rwa [header_eq sameHeader_fail last]

theorem holds_locateSofAt (here : holds s.header) (at_ : LocateSofAt machine s place t) :
    holds t.header := by
  cases at_ with
  | sequential soi markers _ =>
      rwa [header_eq sameHeader_processMarkers markers, header_eq sameHeader_locateSoiMarker soi]
  | @progressive t u soi markers =>
      apply keeps.progressive u
      rwa [header_eq sameHeader_processMarkers markers, header_eq sameHeader_locateSoiMarker soi]

theorem holds_restartForThumbnail {v : Unit} (here : holds s.header)
    (ran : restartForThumbnail machine s = some (v, t)) : holds t.header := by
  obtain ⟨⟨_, u⟩, freed, last⟩ := Option.bind_eq_some_iff.mp ran
  obtain ⟨-, rfl⟩ := Prod.mk.inj (Option.some.inj last)
  have same := header_eq sameHeader_finalize freed
  apply keeps.init u
  rwa [same]

theorem holds_constructorAt (here : holds s.header)
    (visited : ∀ t, ConstructorAt machine decodeType s .frameHeader t → named t)
    (at_ : ConstructorAt machine decodeType s place t) : holds t.header := by
  have start : holds (startImage machine decodeType s).header := keeps.init _ here
  cases at_ with
  | image at_ => exact holds_locateSofAt keeps start at_
  | thumbnail located _ _ _ restarted at_ =>
      have header := holds_locateSofMarker keeps start (fun t at_ => visited t (.image at_)) located
      have again := @holds_restartForThumbnail _ _ _ (keepSize _) _ keeps _ header restarted
      exact holds_locateSofAt keeps again at_

omit keeps in
theorem initForThumbnail_eq :
    initForThumbnail machine = (do
      restartForThumbnail machine
      if ← locateSofMarker machine then
        if (← get).progressiveFlag then
          fail machine .badApp1Marker
        else
          pure true
      else
        pure false) := by
  simp only [initForThumbnail, restartForThumbnail, bind_assoc]

theorem holds_initForThumbnail {ok : Bool} (here : holds s.header)
    (visited : ∀ u v, restartForThumbnail machine s = some ((), u) →
      LocateSofAt machine u .frameHeader v → named v)
    (ran : initForThumbnail machine s = some (ok, t)) : holds t.header := by
  rw [initForThumbnail_eq] at ran
  obtain ⟨⟨_, u⟩, restarted, later⟩ := Option.bind_eq_some_iff.mp ran
  obtain ⟨⟨found, v⟩, located, last⟩ := Option.bind_eq_some_iff.mp later
  have header := holds_locateSofMarker keeps (holds_restartForThumbnail keeps here restarted)
    (fun v at_ => visited u v restarted at_) located
  have rest : sameHeader.Keeps (if found = true then (do
      if (← get).progressiveFlag then
        fail machine .badApp1Marker
      else
        pure true) else pure false : Program State Bool) := by
    split
    · apply sameHeader_get_bind
      intro s
      split
      · exact sameHeader_fail
      · exact Effects.keeps_pure
    · exact Effects.keeps_pure
  rwa [header_eq rest last]

theorem holds_readImage {ok : Bool} (here : holds s.header)
    (visited : ∀ t, ConstructorAt machine decodeType s .frameHeader t → named t)
    (ran : readImage machine (startImage machine decodeType s) = some (ok, t)) :
    holds t.header := by
  have start : holds (startImage machine decodeType s).header := keeps.init _ here
  obtain ⟨⟨located, v⟩, locates, later⟩ := Option.bind_eq_some_iff.mp ran
  have behind := holds_locateSofMarker keeps start (fun t at_ => visited t (.image at_)) locates
  cases located with
  | false =>
      obtain ⟨-, rfl⟩ := Prod.mk.inj (Option.some.inj later)
      exact behind
  | true =>
      have checked : (if tooBig machine (keepSize v) then pure false
        else if (keepSize v).decodeType = .thumbnail ∧
          (keepSize v).thumbnail.thumbnailFound = true then initForThumbnail machine
        else pure true : Program State Bool) (keepSize v) = some (ok, t) := later
      split at checked
      · obtain ⟨-, rfl⟩ := Prod.mk.inj (Option.some.inj checked)
        exact behind
      rename_i fits
      split at checked
      · rename_i found
        obtain ⟨isThumbnail, found⟩ := found
        apply @holds_initForThumbnail machine holds named (keepSize v) t keeps ok behind _ checked
        intro u w restarted at_
        exact visited w (.thumbnail locates (by simpa using fits) isThumbnail found restarted at_)
      · obtain ⟨-, rfl⟩ := Prod.mk.inj (Option.some.inj checked)
        exact behind

theorem holds_constructor {ok : Bool} (here : holds s.header)
    (visited : ∀ t, ConstructorAt machine decodeType s .frameHeader t → named t)
    (ran : constructor machine decodeType s = some (ok, t)) : holds t.header := by
  obtain ⟨⟨found, u⟩, image, last⟩ := Option.bind_eq_some_iff.mp (ran_modify_bind ran)
  have header := holds_readImage keeps here visited image
  cases found with
  | false =>
      obtain ⟨-, rfl⟩ := Prod.mk.inj (Option.some.inj last)
      exact header
  | true =>
      obtain ⟨-, rfl⟩ := Prod.mk.inj (Option.some.inj last)
      exact header

end Images

section Run

/-- What a step keeps. -/
structure StepKeeps (holds : Header → Prop) (named : Place → State → Prop) (step : Step) :
    Prop where
  image : step.BeginsImage → ImageKeeps step.machine holds (named .frameHeader)
  scanHeader : ReaderKeeps holds (named .scanHeader) (readSosMarker step.machine)

variable {named : Place → State → Prop} {step : Step} (keeps : StepKeeps holds named step)
  (here : holds s.header) (visited : ∀ place t, step.At s place t → named place t)

include keeps here visited

theorem holds_at (at_ : step.At s place t) : holds t.header := by
  cases at_ with
  | constructor at_ =>
      exact holds_constructorAt (keeps.image trivial) here
        (fun t at_ => visited _ t (.constructor at_)) at_
  | decodeHeader at_ =>
      exact holds_decodeHeaderAt keeps.scanHeader here
        (fun t at_ => visited _ t (.decodeHeader at_)) at_
  | progressiveDecode _ same => rwa [same]
  | startDecode _ => exact here

theorem holds_run (ran : step.run s = some t) : holds t.header := by
  cases step with
  | startDecode machine =>
      obtain rfl := Option.some.inj ran
      rwa [startDecode_header]
  | call event =>
      obtain ⟨machine, call⟩ := event
      have event : Event.run ⟨machine, call⟩ s = some t := ran
      cases call with
      | constructor decodeType =>
          obtain ⟨⟨ok, u⟩, returned, rfl⟩ := Option.map_eq_some_iff.mp event
          exact holds_constructor (keeps.image trivial) here
            (fun t at_ => visited _ t (.constructor at_)) returned
      | decodeHeader =>
          obtain ⟨⟨ok, u⟩, returned, rfl⟩ := Option.map_eq_some_iff.mp event
          exact holds_decodeHeader keeps.scanHeader here
            (fun t at_ => visited _ t (.decodeHeader at_)) returned
      | setInitParameter rBufAddr rBufSize iBufAddr iBufSize fileEnd =>
          obtain ⟨⟨ok, u⟩, returned, rfl⟩ := Option.map_eq_some_iff.mp event
          rwa [header_eq sameHeader_setInitParameter returned]
      | progressiveDecode =>
          obtain ⟨⟨result, u⟩, returned, rfl⟩ := Option.map_eq_some_iff.mp event
          rwa [header_eq sameHeader_progressiveDecode returned]
      | waitDone =>
          obtain ⟨⟨status, u⟩, returned, rfl⟩ := Option.map_eq_some_iff.mp event
          rwa [header_eq sameHeader_waitDone returned]
      | finalize =>
          obtain ⟨⟨_, u⟩, returned, rfl⟩ := Option.map_eq_some_iff.mp event
          rwa [header_eq sameHeader_finalize returned]

end Run

/-- What is kept holds wherever a run comes to. -/
theorem meets_holds {named : Machine → Place → State → Prop} {steps : List Step}
    (here : holds s.header)
    (meets : Run.Meets afterStep
      (fun s step => StepKeeps holds (named step.machine) step ∧
        ∀ place t, step.At s place t → named step.machine place t) s steps) :
    Run.Meets afterStep (fun s step => ∀ place t, step.At s place t → holds t.header) s steps := by
  refine @Run.Meets.imp _ _ afterStep _ _ (fun s => holds s.header) ?_ ?_ s steps meets here
  · intro s step here ⟨keeps, visited⟩ place t at_
    exact holds_at keeps here visited at_
  · intro s step here ⟨keeps, visited⟩
    unfold afterStep
    cases ran : step.run s with
    | none => exact here
    | some t => exact holds_run keeps here visited ran

end Invariants

end Gp2Firmware.Jpeg.Decoder
