import Gp2Firmware.Jpeg.Selectors

/-!
# The sampling factors as divisors

`MDrv_JPEG_calc_mcu_block_order` divides by the greatest sampling factors and
`MDrv_JPEG_StartDecode` by those of the first component.  `MDrv_JPEG_init_frame`
checks the factors of a frame with three components; those of a single component
are any half bytes.
-/

namespace Gp2Firmware.Jpeg.Decoder

open Gp2Firmware.Lib (Effects Ensures ensures_pure ensures_modify)
open Gp2Firmware.Lib.WordMemory Gp2Firmware.Jpeg.BitReader
  Gp2Firmware.Jpeg.HuffmanTable Gp2Firmware.Jpeg.Mcu

section Divisors

/-- `max_h_samp` and `max_v_samp`, and `Y_HSF * 8` and `Y_VSF * 8` -/
def Place.divisors (s : State) : Place → List Nat
  | .mcuBlockOrder => [maxSamp s.frame.hSamp s.frame.compsInFrame,
      maxSamp s.frame.vSamp s.frame.compsInFrame]
  | .startDecode => [s.frame.hSamp 0 * 8, s.frame.vSamp 0 * 8]
  | .frameHeader | .scanHeader | .tableChecks | .blocks => []

/-- Wherever a call comes to, nothing is divided by zero. -/
def DividesByNonzero (s : State) (step : Step) : Prop :=
  ∀ place t, step.At s place t → 0 ∉ place.divisors t

/-- A frame header of one component has two factors that are not zero. -/
def Sampled (stream : Nat → U8) : Prop :=
  (stream 7).toNat = 1 → (stream 9).toNat / 16 ≠ 0 ∧ (stream 9).toNat % 16 ≠ 0

variable {f : Frame} {layout : Layout}

/-- The factors of the first component of a frame that is admitted, and the greatest ones. -/
theorem maxSamp_of_initFrame (accepted : Mcu.initFrame f = .ok layout) :
    maxSamp f.hSamp f.compsInFrame = f.hSamp 0 ∧ maxSamp f.vSamp f.compsInFrame = f.vSamp 0 := by
  rcases shape_of_initFrame accepted with ⟨comps, -, -⟩ | ⟨comps, -, -, luma, hChroma, vChroma⟩
  · rw [comps]
    exact ⟨maxSamp_one _, maxSamp_one _⟩
  · rw [comps]
    exact ⟨maxSamp_three (by omega) hChroma, maxSamp_three (by omega) vChroma⟩

theorem sampled_of_initFrame (accepted : Mcu.initFrame f = .ok layout)
    (single : f.compsInFrame = 1 → f.hSamp 0 ≠ 0 ∧ f.vSamp 0 ≠ 0) :
    f.hSamp 0 ≠ 0 ∧ f.vSamp 0 ≠ 0 := by
  rcases shape_of_initFrame accepted with ⟨comps, -, -⟩ | ⟨-, -, -, luma, -, -⟩
  · exact single comps
  · omega

end Divisors

section Kept

/-- The components of the frame and their factors. -/
def Header.factors (h : Header) : Nat × (Nat → Nat) × (Nat → Nat) :=
  (h.compsInFrame, h.hSamp, h.vSamp)

def sameFactors : Effects State Note where
  does s _ t := t.header.factors = s.header.factors
  refl _ := rfl
  trans before behind := behind.trans before

theorem sameFactors_of_sameHeader {α : Type} {m : Program State α} (keeps : sameHeader.Keeps m) :
    sameFactors.Keeps m := by
  intro s a t ran
  exact ⟨[], congrArg Header.factors (header_eq keeps ran), trivial⟩

theorem sameFactors_modify_bind {β : Type} {change : State → State}
    {rest : PUnit → Program State β}
    (same : ∀ s, (change s).header.factors = s.header.factors)
    (later : sameFactors.Keeps (rest ())) : sameFactors.Keeps (modify change >>= rest) :=
  (Effects.silent_modify same).keeps.bind fun _ => later

variable {machine : Machine}

theorem sameFactors_forEachOk {part : Nat → Program State Bool}
    (keeps : ∀ i, sameFactors.Keeps (part i)) {i count : Nat} :
    sameFactors.Keeps (forEachOk part i count) := by
  induction count generalizing i with
  | zero => exact Effects.keeps_pure
  | succ count inductionHypothesis =>
      apply (keeps i).bind
      intro ok
      split
      · exact inductionHypothesis
      · exact Effects.keeps_pure

theorem sameFactors_readSosMarker : sameFactors.Keeps (readSosMarker machine) := by
  have getChar := sameFactors_of_sameHeader (@sameHeader_getChar machine)
  have getShort := sameFactors_of_sameHeader (@sameHeader_getShort machine)
  have failed : ∀ status, sameFactors.Keeps (fail machine status) :=
    fun status => sameFactors_of_sameHeader sameHeader_fail
  have component : ∀ i, sameFactors.Keeps (readSosComponent machine i) := by
    intro i
    apply getChar.bind
    intro cc
    apply getChar.bind
    intro c
    apply Effects.silent_get.keeps.bind
    intro s
    split
    · exact failed _
    · exact sameFactors_modify_bind (fun _ => rfl) Effects.keeps_pure
  apply getShort.bind
  intro length
  apply getChar.bind
  intro n
  refine sameFactors_modify_bind (fun _ => rfl) ?_
  dsimp only
  split
  · exact failed _
  apply (sameFactors_forEachOk component).bind
  intro ok
  split
  · apply getChar.bind
    intro spectralStart
    apply getChar.bind
    intro spectralEnd
    apply getChar.bind
    intro tmp
    refine sameFactors_modify_bind (fun _ => rfl) ?_
    exact (sameFactors_of_sameHeader sameHeader_reading).bind fun _ => Effects.keeps_pure
  · exact Effects.keeps_pure

/-- The factors stay the same up to the next image. -/
theorem stepKeeps_factors {h : Header} {named : Place → State → Prop} {step : Step}
    (same : ¬ step.BeginsImage) :
    StepKeeps (fun header => header.factors = h.factors) named step where
  image begins := absurd begins same
  scanHeader s ok t _ here ran := by
    obtain ⟨_, kept, -⟩ := sameFactors_readSosMarker s ok t ran
    exact kept.trans here

end Kept

section FrameHeader

variable {machine : Machine} {r : Reader}

/-- The number of the components, and the factors of the first one if it has been read. -/
def FirstFactors (stream : Nat → U8) (i : Nat) (s : State) : Prop :=
  s.frame.compsInFrame = (stream 7).toNat ∧ (0 < i →
    s.frame.hSamp 0 = (stream 9).toNat / 16 ∧ s.frame.vSamp 0 = (stream 9).toNat % 16)

theorem ensures_readSofComponent_first {i : Nat} :
    Ensures (ReadOf machine r (8 + 3 * i) (FirstFactors (chars machine.wait r) i))
      (readSofComponent machine i) fun _ =>
        ReadOf machine r (8 + 3 * (i + 1)) (FirstFactors (chars machine.wait r) (i + 1)) := by
  have unread : Unread (FirstFactors (chars machine.wait r) i) := fun _ _ here => here
  refine ensures_getChar_bind unread ?_
  refine ensures_modify_next (FirstFactors (chars machine.wait r) i) (fun _ => rfl)
    (fun _ here => here) ?_
  refine ensures_getChar_bind unread ?_
  refine ensures_getChar_bind unread ?_
  refine ensures_modify ?_
  intro s here
  refine ⟨here.reader, here.holds.1, ?_⟩
  intro _
  change Function.update s.frame.hSamp i _ 0 = _ ∧ Function.update s.frame.vSamp i _ 0 = _
  by_cases first : i = 0
  · subst first
    rw [Function.update_self, Function.update_self]
    exact ⟨rfl, rfl⟩
  · rw [Function.update_of_ne (Ne.symm first), Function.update_of_ne (Ne.symm first)]
    exact here.holds.2 (Nat.pos_of_ne_zero first)

/-- What an accepted frame header says of the first component. -/
theorem ensures_readSofMarker_first :
    Ensures (ReadOf machine r 0 fun _ => True) (readSofMarker machine) fun ok t => ok = true →
      FirstFactors (chars machine.wait r) (chars machine.wait r 7).toNat t := by
  have unread : Unread fun _ => True := fun _ _ _ => trivial
  refine ensures_getShort_bind unread ?_
  intro left
  refine ensures_getChar_bind unread ?_
  refine ensures_modify_next (fun _ => True) (fun _ => rfl) (fun _ _ => trivial) ?_
  refine Ensures.ite (fun _ => ensures_fail) ?_
  intro _
  refine ensures_getShort_bind unread ?_
  intro height
  refine ensures_modify_next (fun _ => True) (fun _ => rfl) (fun _ _ => trivial) ?_
  refine Ensures.ite (fun _ => ensures_fail) ?_
  intro _
  refine ensures_getShort_bind unread ?_
  intro width
  refine ensures_modify_next (fun _ => True) (fun _ => rfl) (fun _ _ => trivial) ?_
  refine Ensures.ite (fun _ => ensures_fail) ?_
  intro _
  refine ensures_getChar_bind unread ?_
  refine ensures_modify_next (FirstFactors (chars machine.wait r) 0) (fun _ => rfl) ?_ ?_
  · intro s _
    constructor
    · dsimp only
    · intro below
      exact absurd below (Nat.lt_irrefl 0)
  refine Ensures.ite (fun _ => ensures_fail) ?_
  intro _
  refine Ensures.ite (fun _ => ensures_fail) ?_
  intro _
  have components := @ensures_forEach_upTo (readSofComponent machine)
    (fun i => ReadOf machine r (8 + 3 * i) (FirstFactors (chars machine.wait r) i))
    (chars machine.wait r 7).toNat (fun i _ => ensures_readSofComponent_first) 0
    (chars machine.wait r 7).toNat (Nat.zero_add _)
  refine Ensures.bind components ?_
  intro _
  exact ensures_pure fun _ here _ => here.holds

/-- The frame header that an image is decoded by. -/
structure FrameHeaderOf (machine : Machine) (decodeType : DecodeType) (s t sof : State) : Prop where
  at_ : ConstructorAt machine decodeType s .frameHeader sof
  read : ∃ v, readSofMarker machine sof = some (true, v) ∧ t.header = v.header

theorem frameHeader_of_locateSofMarker {s t : State}
    (ran : locateSofMarker machine s = some (true, t)) :
    ∃ sof, LocateSofAt machine s .frameHeader sof ∧ readSofMarker machine sof = some (true, t) := by
  obtain ⟨⟨found, u⟩, soi, later⟩ := Option.bind_eq_some_iff.mp ran
  cases found with
  | false => cases later
  | true =>
      obtain ⟨⟨marker, v⟩, markers, last⟩ := Option.bind_eq_some_iff.mp later
      cases marker with
      | none => cases last
      | some c =>
          dsimp only at last
          split at last
          · rename_i isProgressive
            subst isProgressive
            exact ⟨_, .progressive soi markers, ran_modify_bind last⟩
          split at last
          · rename_i isSequential
            exact ⟨v, .sequential soi markers isSequential, last⟩
          split at last
          · exact absurd last not_fail
          · exact absurd last not_fail

theorem frameHeader_of_initForThumbnail {decodeType : DecodeType} {s t u : State}
    (located : locateSofMarker machine (startImage machine decodeType s) = some (true, t))
    (fits : tooBig machine (keepSize t) = false) (isThumbnail : t.decodeType = .thumbnail)
    (found : t.thumbnail.thumbnailFound = true)
    (ran : initForThumbnail machine (keepSize t) = some (true, u)) :
    ∃ sof, FrameHeaderOf machine decodeType s u sof := by
  rw [initForThumbnail_eq] at ran
  obtain ⟨⟨_, v⟩, restarted, later⟩ := Option.bind_eq_some_iff.mp ran
  obtain ⟨⟨again, w⟩, locates, last⟩ := Option.bind_eq_some_iff.mp later
  cases again with
  | false => cases last
  | true =>
      obtain ⟨sof, at_, read⟩ := frameHeader_of_locateSofMarker locates
      have sequential : (if w.progressiveFlag then fail machine .badApp1Marker else pure true) w =
          some (true, u) := last
      split at sequential
      · exact absurd sequential not_fail
      · obtain ⟨-, rfl⟩ := Prod.mk.inj (Option.some.inj sequential)
        exact ⟨sof, .thumbnail located fits isThumbnail found restarted at_, w, read, rfl⟩

theorem frameHeader_of_constructor {decodeType : DecodeType} {s t : State}
    (ran : constructor machine decodeType s = some (true, t)) :
    ∃ sof, FrameHeaderOf machine decodeType s t sof := by
  obtain ⟨⟨found, u⟩, image, last⟩ := Option.bind_eq_some_iff.mp (ran_modify_bind ran)
  cases found with
  | false => cases last
  | true =>
      obtain ⟨-, rfl⟩ := Prod.mk.inj (Option.some.inj last)
      obtain ⟨⟨located, v⟩, locates, later⟩ := Option.bind_eq_some_iff.mp image
      cases located with
      | false => cases later
      | true =>
          obtain ⟨sof, at_, read⟩ := frameHeader_of_locateSofMarker locates
          have checked : (if tooBig machine (keepSize v) then pure false
            else if (keepSize v).decodeType = .thumbnail ∧
              (keepSize v).thumbnail.thumbnailFound = true then initForThumbnail machine
            else pure true : Program State Bool) (keepSize v) = some (true, u) := later
          split at checked
          · cases checked
          rename_i fits
          split at checked
          · rename_i found
            obtain ⟨isThumbnail, found⟩ := found
            exact frameHeader_of_initForThumbnail locates (by simpa using fits) isThumbnail found
              checked
          · obtain ⟨-, rfl⟩ := Prod.mk.inj (Option.some.inj checked)
            exact ⟨sof, .image at_, v, read, rfl⟩

end FrameHeader

section Claim

variable {machine : Machine} {decodeType : DecodeType} {s t u sof : State}

theorem firstFactors_of_frameHeader (header : FrameHeaderOf machine decodeType s t sof) :
    FirstFactors (chars machine.wait sof.reader) (chars machine.wait sof.reader 7).toNat t := by
  obtain ⟨-, v, read, same⟩ := header
  have first := ensures_readSofMarker_first sof true v ⟨rfl, trivial⟩ read rfl
  obtain ⟨comps, factors⟩ := first
  have compsSame : t.frame.compsInFrame = v.frame.compsInFrame := congrArg Header.compsInFrame same
  have hSame : t.frame.hSamp = v.frame.hSamp := congrArg Header.hSamp same
  have vSame : t.frame.vSamp = v.frame.vSamp := congrArg Header.vSamp same
  refine ⟨compsSame.trans comps, ?_⟩
  rw [hSame, vSame]
  exact factors

theorem layout_of_initFrame (admitted : initFrame machine t = some (true, u)) :
    ∃ layout, Mcu.initFrame t.frame = .ok layout := by
  have entered : enterFrame machine (Mcu.initFrame t.frame) t = some (true, u) := admitted
  cases result : Mcu.initFrame t.frame with
  | error error =>
      rw [result] at entered
      exact absurd entered not_fail
  | ok layout => exact ⟨layout, rfl⟩

theorem divisors_of_factors {layout : Layout} (accepted : Mcu.initFrame t.frame = .ok layout)
    (sampled : t.frame.hSamp 0 ≠ 0 ∧ t.frame.vSamp 0 ≠ 0)
    (same : u.header.factors = t.header.factors) (place : Place) : 0 ∉ place.divisors u := by
  obtain ⟨comps, factors⟩ := Prod.mk.inj same
  obtain ⟨hSame, vSame⟩ := Prod.mk.inj factors
  have compsSame : u.frame.compsInFrame = t.frame.compsInFrame := comps
  have hFrame : u.frame.hSamp = t.frame.hSamp := hSame
  have vFrame : u.frame.vSamp = t.frame.vSamp := vSame
  obtain ⟨hMost, vMost⟩ := maxSamp_of_initFrame accepted
  cases place with
  | mcuBlockOrder =>
      rw [Place.divisors, compsSame, hFrame, vFrame, hMost, vMost]
      simp [sampled.1.symm, sampled.2.symm]
  | startDecode =>
      rw [Place.divisors, hFrame, vFrame]
      simpa using sampled
  | frameHeader | scanHeader | tableChecks | blocks => exact List.not_mem_nil

/-- Nothing is divided by zero behind a frame that is admitted, up to the next image, just if
both factors of a single component are there in the header of that frame. -/
theorem divisors_nonzero_iff (machine : Machine) (decodeType : DecodeType)
    (s constructed framed : State)
    (ran : constructor machine decodeType s = some (true, constructed))
    (admitted : initFrame machine constructed = some (true, framed)) :
    ∃ sof, FrameHeaderOf machine decodeType s constructed sof ∧
      ((∀ steps, (∀ step ∈ steps, ¬ step.BeginsImage) →
        Run.Meets afterStep DividesByNonzero constructed steps) ↔
          Sampled (chars machine.wait sof.reader)) := by
  obtain ⟨sof, header⟩ := frameHeader_of_constructor ran
  obtain ⟨layout, accepted⟩ := layout_of_initFrame admitted
  obtain ⟨comps, first⟩ := firstFactors_of_frameHeader header
  refine ⟨sof, header, ?_⟩
  constructor
  · intro always single
    have positive : 0 < (chars machine.wait sof.reader 7).toNat := by omega
    obtain ⟨hFirst, vFirst⟩ := first positive
    obtain ⟨starts, -⟩ := always [.startDecode machine] (by simp [Step.BeginsImage])
    have nonzero := starts .startDecode constructed (.startDecode accepted)
    rw [Place.divisors, hFirst, vFirst] at nonzero
    simp only [List.mem_cons, not_or] at nonzero
    omega
  · intro sampled steps noImage
    have single : constructed.frame.compsInFrame = 1 →
        constructed.frame.hSamp 0 ≠ 0 ∧ constructed.frame.vSamp 0 ≠ 0 := by
      intro one
      have isOne : (chars machine.wait sof.reader 7).toNat = 1 := comps.symm.trans one
      rw [(first (by omega)).1, (first (by omega)).2]
      exact sampled isOne
    have factors := sampled_of_initFrame accepted single
    have kept : Run.Meets afterStep (fun s step =>
        StepKeeps (fun h => h.factors = constructed.header.factors) (fun _ _ => True) step ∧
          ∀ place t, step.At s place t → True) constructed steps := by
      have fixed : Run.Meets afterStep (fun _ step => ¬ step.BeginsImage) constructed steps :=
        Run.meets_forall_iff.mpr noImage
      exact fixed.mono fun s step same => ⟨stepKeeps_factors same, fun _ _ _ => trivial⟩
    have everywhere := @meets_holds (fun h => h.factors = constructed.header.factors) constructed
      (fun _ _ _ => True) steps rfl kept
    apply everywhere.mono
    intro s step same place t at_
    exact divisors_of_factors accepted factors (same place t at_) place

end Claim

section Samples

/-- The header of an image of one component with some factors. -/
def sampledImage (factors : U8) : Reader :=
  sampleReader [0xFF, 0xD8, 0xFF, 0xC0, 0, 11, 8, 0, 64, 0, 64, 1, 1, factors, 0]

/-- What is known of the header of the image when it has been admitted. -/
theorem admitted_sampledImage {factors : U8} {known : Nat × Nat}
    (ran : ((constructor sampleMachine .main (behindInit (sampledImage factors))).bind
      fun constructed => (initFrame sampleMachine constructed.2).map fun framed =>
        (constructed.1, framed.1, constructed.2.frame.hSamp 0, constructed.2.frame.vSamp 0)) =
          some (true, true, known)) :
    ∃ constructed framed,
      constructor sampleMachine .main (behindInit (sampledImage factors)) =
        some (true, constructed) ∧
      initFrame sampleMachine constructed = some (true, framed) ∧
      (constructed.frame.hSamp 0, constructed.frame.vSamp 0) = known := by
  obtain ⟨⟨ok, constructed⟩, returned, rest⟩ := Option.bind_eq_some_iff.mp ran
  obtain ⟨⟨ok', framed⟩, admitted, values⟩ := Option.map_eq_some_iff.mp rest
  obtain ⟨rfl, more⟩ := Prod.mk.inj values
  obtain ⟨rfl, same⟩ := Prod.mk.inj more
  exact ⟨constructed, framed, returned, admitted, same⟩

theorem divisors_nonzero_sampledImage :
    ∃ constructed, constructor sampleMachine .main (behindInit (sampledImage 0x11)) =
      some (true, constructed) ∧ ∀ steps, (∀ step ∈ steps, ¬ step.BeginsImage) →
        Run.Meets afterStep DividesByNonzero constructed steps := by
  obtain ⟨constructed, framed, ran, admitted, known⟩ :=
    @admitted_sampledImage 0x11 (1, 1) (by decide +kernel)
  obtain ⟨hOne, vOne⟩ := Prod.mk.inj known
  obtain ⟨sof, header, same⟩ := divisors_nonzero_iff _ _ _ _ _ ran admitted
  refine ⟨constructed, ran, same.mpr ?_⟩
  intro single
  obtain ⟨-, first⟩ := firstFactors_of_frameHeader header
  obtain ⟨hFirst, vFirst⟩ := first (by omega)
  omega

/-- Both factors of the only component are zero. -/
theorem divisors_not_always_nonzero :
    ¬ ∀ (machine : Machine) (decodeType : DecodeType) (s constructed framed : State),
      constructor machine decodeType s = some (true, constructed) →
      initFrame machine constructed = some (true, framed) →
      ∀ steps, (∀ step ∈ steps, ¬ step.BeginsImage) →
        Run.Meets afterStep DividesByNonzero constructed steps := by
  intro always
  obtain ⟨constructed, framed, ran, admitted, known⟩ :=
    @admitted_sampledImage 0x00 (0, 0) (by decide +kernel)
  obtain ⟨layout, accepted⟩ := layout_of_initFrame admitted
  obtain ⟨starts, -⟩ := always _ _ _ _ _ ran admitted [.startDecode sampleMachine]
    (by simp [Step.BeginsImage])
  have nonzero := starts .startDecode constructed (.startDecode accepted)
  rw [Place.divisors, (Prod.mk.inj known).1] at nonzero
  exact absurd nonzero (by simp)

end Samples

end Gp2Firmware.Jpeg.Decoder
