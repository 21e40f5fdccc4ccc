import Gp2Firmware.Jpeg.HeaderPlaces
import Gp2Firmware.Jpeg.OverSubscribed

/-!
# The tables that the headers name

The components name a quantisation table by a whole byte and Huffman tables by
half bytes.  `MDrv_JPEG_read_dqt_marker` and `MDrv_JPEG_read_dht_marker` refuse
tables that there is no room for; the readers of the headers take any number.
-/

namespace Gp2Firmware.Jpeg.Decoder

open Gp2Firmware.Lib (Effects Ensures ensures_pure ensures_modify ensures_modify_bind
  ensures_get_bind)
open Gp2Firmware.Lib.WordMemory Gp2Firmware.Jpeg.BitReader
  Gp2Firmware.Jpeg.HuffmanTable Gp2Firmware.Jpeg.Mcu

section Lookups

/-- An element of `_Huff_info`, `_Huff_tbls` or `_QuantTables`, or of `comp`. -/
inductive Lookup where
  | huffInfo (index : Nat)
  | huffTbls (index : Nat)
  | quantTables (index : Nat)
  | comp (index : Nat)
  deriving DecidableEq

def Lookup.Inside : Lookup → Prop
  | .huffInfo index => index < JPEG_MAXHUFFTABLES
  | .huffTbls index => index < JPEG_MAXHUFFTABLES
  | .quantTables index => index < JPEG_MAXQUANTTABLES
  | .comp index => index < JPEG_MAXCOMPONENTS

variable (s : State)

/-- What is looked up up to the first table that is not valid. -/
def upToInvalid : List (Lookup × Bool) → List Lookup
  | [] => []
  | (lookup, valid) :: rest => if valid then lookup :: upToInvalid rest else [lookup]

def dcCheck (c : Nat) : List (Lookup × Bool) :=
  if s.spectralStart = 0 then
    [(.huffInfo (s.compDcTab c), (s.huffInfo (s.compDcTab c)).valid)]
  else
    []

def acCheck (c : Nat) : List (Lookup × Bool) :=
  if 0 < s.spectralEnd then
    [(.huffInfo (s.compAcTab c), (s.huffInfo (s.compAcTab c)).valid)]
  else
    []

def quantCheck (c : Nat) : Lookup × Bool :=
  (.quantTables (s.compQuant c), (s.quantTables (s.compQuant c)).valid)

/-- What `check_huff_tables` and `check_quant_tables` look up for the components of a scan. -/
def checkLookups : List Lookup :=
  upToInvalid ((s.scanComps.flatMap fun c => dcCheck s c ++ acCheck s c) ++
    s.scanComps.map (quantCheck s))

/-- The tables that the blocks of a scan are decoded by. -/
def blockLookups : List Lookup :=
  s.scanComps.flatMap fun c =>
    if s.spectralStart = 0 then
      if s.successiveHigh ≠ 0 then [] else [.huffTbls (s.compDcTab c)]
    else
      [.huffTbls (s.compAcTab c)]

/-- The component with an identifier, the first one if there is none. -/
def componentOf (ident : Nat) : Nat :=
  ((List.range s.frame.compsInFrame).find? fun ci => s.compIdent ci = ident).getD 0

/-- `MDrv_JPEG_write_Scwgif` and `MDrv_JPEG_write_symidx` -/
def codeLookups : List Lookup :=
  [s.compDcTab (componentOf s s.lumaCi), s.compDcTab (componentOf s s.chromaCi),
    s.compAcTab (componentOf s s.lumaCi), s.compAcTab (componentOf s s.chromaCi)].map .huffInfo

/-- `com_num`, the number of the elements of `comp` that are set. -/
def comNum : Nat :=
  (List.range JPEG_MAXCOMPONENTS).countP fun table =>
    (List.range s.frame.compsInFrame).any fun i => s.compQuant i = table

def compLookups : List Lookup :=
  (List.range s.frame.compsInFrame).map fun i => .comp (s.compQuant i)

/-- `MDrv_JPEG_write_Qtbl` -/
def quantLookups : List Lookup :=
  compLookups s ++ (List.range (comNum s)).map fun i => .quantTables (s.compQuant i)

def startDecodeLookups : List Lookup :=
  compLookups s ++ (if s.progressiveFlag then [] else codeLookups s) ++ quantLookups s

def Place.lookups : Place → List Lookup
  | .tableChecks => checkLookups s
  | .blocks => blockLookups s
  | .startDecode => startDecodeLookups s
  | .frameHeader | .scanHeader | .mcuBlockOrder => []

end Lookups

section Inside

/-- All tables are there that the components name. -/
structure Selectors (h : Header) : Prop where
  compDcTab : ∀ c, h.compDcTab c < JPEG_MAXHUFFTABLES
  compAcTab : ∀ c, h.compAcTab c < JPEG_MAXHUFFTABLES
  compQuant : ∀ c, h.compQuant c < JPEG_MAXQUANTTABLES

variable {s : State}

theorem mem_upToInvalid {lookup : Lookup} {checks : List (Lookup × Bool)}
    (member : lookup ∈ upToInvalid checks) : lookup ∈ checks.map Prod.fst := by
  induction checks with
  | nil => exact member
  | cons check rest inductionHypothesis =>
      rw [upToInvalid] at member
      rw [List.map_cons, List.mem_cons]
      split at member
      · rcases List.mem_cons.mp member with here | later
        · exact .inl here
        · exact .inr (inductionHypothesis later)
      · exact .inl (List.mem_singleton.mp member)

variable (selectors : Selectors s.header)

include selectors

theorem checkLookups_inside : ∀ lookup ∈ checkLookups s, lookup.Inside := by
  intro lookup looked
  obtain ⟨check, member, rfl⟩ := List.mem_map.mp (mem_upToInvalid looked)
  rcases List.mem_append.mp member with huff | quant
  · obtain ⟨c, -, either⟩ := List.mem_flatMap.mp huff
    rcases List.mem_append.mp either with dc | ac
    · rw [dcCheck] at dc
      split at dc
      · rw [List.mem_singleton.mp dc]
        exact selectors.compDcTab c
      · cases dc
    · rw [acCheck] at ac
      split at ac
      · rw [List.mem_singleton.mp ac]
        exact selectors.compAcTab c
      · cases ac
  · obtain ⟨c, -, rfl⟩ := List.mem_map.mp quant
    exact selectors.compQuant c

theorem blockLookups_inside : ∀ lookup ∈ blockLookups s, lookup.Inside := by
  intro lookup looked
  obtain ⟨c, -, member⟩ := List.mem_flatMap.mp looked
  split at member
  · split at member
    · cases member
    · rw [List.mem_singleton.mp member]
      exact selectors.compDcTab c
  · rw [List.mem_singleton.mp member]
    exact selectors.compAcTab c

theorem compLookups_inside : ∀ lookup ∈ compLookups s, lookup.Inside := by
  intro lookup looked
  obtain ⟨i, -, rfl⟩ := List.mem_map.mp looked
  exact selectors.compQuant i

theorem startDecodeLookups_inside : ∀ lookup ∈ startDecodeLookups s, lookup.Inside := by
  have comps := compLookups_inside selectors
  rw [startDecodeLookups, quantLookups]
  simp only [List.forall_mem_append]
  refine ⟨⟨comps, ?_⟩, comps, ?_⟩
  · intro lookup looked
    split at looked
    · cases looked
    · simp only [codeLookups, List.map_cons, List.map_nil, List.mem_cons, List.not_mem_nil,
        or_false] at looked
      rcases looked with rfl | rfl | rfl | rfl
      · exact selectors.compDcTab _
      · exact selectors.compDcTab _
      · exact selectors.compAcTab _
      · exact selectors.compAcTab _
  · intro lookup looked
    obtain ⟨i, -, rfl⟩ := List.mem_map.mp looked
    exact selectors.compQuant i

theorem lookups_inside (place : Place) : ∀ lookup ∈ place.lookups s, lookup.Inside := by
  cases place with
  | tableChecks => exact checkLookups_inside selectors
  | blocks => exact blockLookups_inside selectors
  | startDecode => exact startDecodeLookups_inside selectors
  | frameHeader | scanHeader | mcuBlockOrder =>
      intro lookup looked
      cases looked

end Inside

section Readers

/-- The components of a frame header name quantisation tables that there are. -/
def FrameNames (stream : Nat → U8) : Prop :=
  ∀ i < (stream 7).toNat, (stream (10 + 3 * i)).toNat < JPEG_MAXQUANTTABLES

/-- The components of a scan header name Huffman tables that there are. -/
def ScanNames (stream : Nat → U8) : Prop :=
  ∀ i < (stream 2).toNat, (stream (4 + 2 * i)).toNat / 16 < JPEG_MAXHUFFTABLES ∧
    (stream (4 + 2 * i)).toNat % 16 < JPEG_MAXHUFFTABLES / 2

variable {machine : Machine} {r : Reader} {n : Nat} {holds : State → Prop}

/-- A number of bytes has been read of a stream. -/
structure ReadOf (machine : Machine) (r : Reader) (n : Nat) (holds : State → Prop) (s : State) :
    Prop where
  reader : s.reader = HuffmanTable.skip machine.wait n r
  holds : holds s

theorem ensures_getChar_bind {β : Type} {rest : U8 → Program State β} {post : β → State → Prop}
    (unread : Unread holds)
    (later : Ensures (ReadOf machine r (n + 1) holds) (rest (chars machine.wait r n)) post) :
    Ensures (ReadOf machine r n holds) (getChar machine >>= rest) post := by
  have next : Ensures (ReadOf machine r n holds) (getChar machine) fun c s =>
      c = chars machine.wait r n ∧ ReadOf machine r (n + 1) holds s := by
    intro s c t here ran
    obtain ⟨rfl, rfl⟩ := Prod.mk.inj (Option.some.inj ran)
    rw [here.reader]
    refine ⟨rfl, ?_, unread s _ here.holds⟩
    rw [← HuffmanTable.skip_skip]
    rfl
  refine next.bind ?_
  intro c s b t here ran
  obtain ⟨rfl, here⟩ := here
  exact later s b t here ran

/-- The value of two bytes, whatever it is. -/
theorem ensures_getShort_bind {β : Type} {rest : Nat → Program State β}
    {post : β → State → Prop} (unread : Unread holds)
    (later : ∀ short, Ensures (ReadOf machine r (n + 2) holds) (rest short) post) :
    Ensures (ReadOf machine r n holds) (getShort machine >>= rest) post := by
  rw [getShort, bind_assoc]
  refine ensures_getChar_bind unread ?_
  rw [bind_assoc]
  refine ensures_getChar_bind unread ?_
  exact later _

/-- What is changed apart from the reader. -/
theorem ensures_modify_next {β : Type} {change : State → State} {rest : PUnit → Program State β}
    {post : β → State → Prop} (between : State → Prop)
    (same : ∀ s, (change s).reader = s.reader) (keeps : ∀ s, holds s → between (change s))
    (later : Ensures (ReadOf machine r n between) (rest ()) post) :
    Ensures (ReadOf machine r n holds) (modify change >>= rest) post :=
  ensures_modify_bind (ReadOf machine r n between)
    (fun s here => ⟨(same s).trans here.reader, keeps s here.holds⟩) later

def SelectorsOf (s : State) : Prop :=
  Selectors s.header

theorem selectorsOf_unread : Unread SelectorsOf := fun _ _ here => here

theorem ensures_fail_selectors {status : JpegError} :
    Ensures (ReadOf machine r n SelectorsOf) (fail machine status) fun _ => SelectorsOf := by
  intro s ok t here ran
  rw [SelectorsOf, header_eq sameHeader_fail ran]
  exact here.holds

theorem ensures_readSofComponent_selectors {i : Nat}
    (named : (chars machine.wait r (10 + 3 * i)).toNat < JPEG_MAXQUANTTABLES) :
    Ensures (ReadOf machine r (8 + 3 * i) SelectorsOf) (readSofComponent machine i) fun _ =>
      ReadOf machine r (8 + 3 * (i + 1)) SelectorsOf := by
  have place : 8 + 3 * i + 1 + 1 = 10 + 3 * i := by omega
  refine ensures_getChar_bind selectorsOf_unread ?_
  refine ensures_modify_next SelectorsOf (fun _ => rfl)
    (fun _ here => ⟨here.compDcTab, here.compAcTab, here.compQuant⟩) ?_
  refine ensures_getChar_bind selectorsOf_unread ?_
  refine ensures_getChar_bind selectorsOf_unread ?_
  refine ensures_modify ?_
  intro s here
  refine ⟨here.reader, here.holds.compDcTab, here.holds.compAcTab, ?_⟩
  intro c
  change Function.update s.compQuant i _ c < _
  rw [place]
  by_cases same : c = i
  · rwa [same, Function.update_self]
  · rw [Function.update_of_ne same]
    exact here.holds.compQuant c

/-- A part for the numbers from one on, up to another one. -/
theorem ensures_forEach_upTo {part : Nat → Program State Unit} {upTo : Nat → State → Prop}
    {total : Nat} (step : ∀ i < total, Ensures (upTo i) (part i) fun _ => upTo (i + 1))
    {i count : Nat} (inside : i + count = total) :
    Ensures (upTo i) (forEach part i count) fun _ => upTo total := by
  induction count generalizing i with
  | zero =>
      obtain rfl : i = total := inside
      exact ensures_pure fun _ here => here
  | succ count inductionHypothesis =>
      refine (step i (by omega)).bind ?_
      intro _
      exact inductionHypothesis (by omega)

theorem ensures_readSofMarker_selectors (named : FrameNames (chars machine.wait r)) :
    Ensures (ReadOf machine r 0 SelectorsOf) (readSofMarker machine) fun _ => SelectorsOf := by
  refine ensures_getShort_bind selectorsOf_unread ?_
  intro left
  refine ensures_getChar_bind selectorsOf_unread ?_
  refine ensures_modify_next SelectorsOf (fun _ => rfl) (fun _ here => here) ?_
  refine Ensures.ite (fun _ => ensures_fail_selectors) ?_
  intro _
  refine ensures_getShort_bind selectorsOf_unread ?_
  intro height
  refine ensures_modify_next SelectorsOf (fun _ => rfl) (fun _ here => here) ?_
  refine Ensures.ite (fun _ => ensures_fail_selectors) ?_
  intro _
  refine ensures_getShort_bind selectorsOf_unread ?_
  intro width
  refine ensures_modify_next SelectorsOf (fun _ => rfl) (fun _ here => here) ?_
  refine Ensures.ite (fun _ => ensures_fail_selectors) ?_
  intro _
  refine ensures_getChar_bind selectorsOf_unread ?_
  refine ensures_modify_next SelectorsOf (fun _ => rfl)
    (fun _ here => ⟨here.compDcTab, here.compAcTab, here.compQuant⟩) ?_
  refine Ensures.ite (fun _ => ensures_fail_selectors) ?_
  intro _
  refine Ensures.ite (fun _ => ensures_fail_selectors) ?_
  intro _
  have components := @ensures_forEach_upTo (readSofComponent machine)
    (fun i => ReadOf machine r (8 + 3 * i) SelectorsOf) (chars machine.wait r 7).toNat
    (fun i inFrame => ensures_readSofComponent_selectors (named i inFrame)) 0
    (chars machine.wait r 7).toNat (Nat.zero_add _)
  refine Ensures.bind components ?_
  intro _
  exact ensures_pure fun _ here => here.holds

theorem ensures_readSosComponent_selectors {i : Nat}
    (named : (chars machine.wait r (4 + 2 * i)).toNat / 16 < JPEG_MAXHUFFTABLES ∧
      (chars machine.wait r (4 + 2 * i)).toNat % 16 < JPEG_MAXHUFFTABLES / 2) :
    Ensures (ReadOf machine r (3 + 2 * i) SelectorsOf) (readSosComponent machine i) fun ok s =>
      SelectorsOf s ∧ (ok = true → ReadOf machine r (3 + 2 * (i + 1)) SelectorsOf s) := by
  have place : 3 + 2 * i + 1 = 4 + 2 * i := by omega
  refine ensures_getChar_bind selectorsOf_unread ?_
  refine ensures_getChar_bind selectorsOf_unread ?_
  rw [place]
  refine ensures_get_bind ?_
  intro s here
  split
  · intro t ok u same ran
    subst same
    have failed := ensures_fail_selectors t ok u here ran
    refine ⟨failed, ?_⟩
    intro done
    exact absurd (done ▸ ran) not_fail
  · rename_i ci found
    refine ensures_modify_bind (ReadOf machine r (3 + 2 * (i + 1)) SelectorsOf) ?_
      (ensures_pure fun _ behind => ⟨behind.holds, fun _ => behind⟩)
    intro t same
    subst same
    have next : 3 + 2 * (i + 1) = 4 + 2 * i + 1 := by omega
    rw [next]
    refine ⟨here.reader, ?_, ?_, here.holds.compQuant⟩
    · intro c
      change Function.update t.compDcTab ci _ c < _
      by_cases other : c = ci
      · rw [other, Function.update_self]
        exact named.1
      · rw [Function.update_of_ne other]
        exact here.holds.compDcTab c
    · intro c
      change Function.update t.compAcTab ci _ c < _
      by_cases other : c = ci
      · rw [other, Function.update_self]
        unfold JPEG_MAXHUFFTABLES at named ⊢
        omega
      · rw [Function.update_of_ne other]
        exact here.holds.compAcTab c

/-- A part that may fail for the numbers from one on, up to another one. -/
theorem ensures_forEachOk_upTo {part : Nat → Program State Bool} {upTo : Nat → State → Prop}
    {always : State → Prop} {total : Nat} (atLast : ∀ s, upTo total s → always s)
    (step : ∀ i < total, Ensures (upTo i) (part i) fun ok s =>
      always s ∧ (ok = true → upTo (i + 1) s))
    {i count : Nat} (inside : i + count = total) :
    Ensures (upTo i) (forEachOk part i count) fun _ => always := by
  induction count generalizing i with
  | zero =>
      obtain rfl : i = total := inside
      exact ensures_pure atLast
  | succ count inductionHypothesis =>
      refine (step i (by omega)).bind ?_
      intro ok
      cases ok with
      | false => exact ensures_pure fun _ here => here.1
      | true =>
          intro s b t here ran
          exact inductionHypothesis (by omega) s b t (here.2 rfl) ran

theorem ensures_readSosMarker_selectors (named : ScanNames (chars machine.wait r)) :
    Ensures (ReadOf machine r 0 SelectorsOf) (readSosMarker machine) fun _ => SelectorsOf := by
  have parameters : ∀ left, sameHeader.Keeps (readSosParameters machine left) := by
    intro left
    apply sameHeader_getChar.bind
    intro spectralStart
    apply sameHeader_getChar.bind
    intro spectralEnd
    apply sameHeader_getChar.bind
    intro tmp
    refine sameHeader_modify_bind (fun _ => rfl) ?_
    exact sameHeader_reading.bind fun _ => Effects.keeps_pure
  refine ensures_getShort_bind selectorsOf_unread ?_
  intro length
  refine ensures_getChar_bind selectorsOf_unread ?_
  refine ensures_modify_next SelectorsOf (fun _ => rfl) (fun _ here => here) ?_
  refine Ensures.ite (fun _ => ensures_fail_selectors) ?_
  intro _
  have components := @ensures_forEachOk_upTo (readSosComponent machine)
    (fun i => ReadOf machine r (3 + 2 * i) SelectorsOf) SelectorsOf (chars machine.wait r 2).toNat
    (fun s here => here.holds)
    (fun i inScan => ensures_readSosComponent_selectors (named i inScan)) 0
    (chars machine.wait r 2).toNat (Nat.zero_add _)
  refine Ensures.bind components ?_
  intro ok
  split
  · intro s ok t here ran
    rwa [SelectorsOf, header_eq (parameters _) ran]
  · exact ensures_pure fun _ here => here

end Readers

section Claim

/-- The headers at a place name tables that there are. -/
def Place.NamesTables (machine : Machine) : Place → State → Prop
  | .frameHeader, s => FrameNames (chars machine.wait s.reader)
  | .scanHeader, s => ScanNames (chars machine.wait s.reader)
  | _, _ => True

theorem stepKeeps_selectors (step : Step) :
    StepKeeps Selectors (Place.NamesTables step.machine) step where
  image _ :=
    { frameHeader := fun s ok t named here ran =>
        ensures_readSofMarker_selectors named s ok t ⟨rfl, here⟩ ran
      init := fun s here => by
        have cleared : ∀ {array : Nat → Nat} {bound : Nat}, (∀ c, array c < bound) → ∀ c,
            clearFirst JPEG_MAXCOMPONENTS 0 array c < bound := by
          intro array bound below c
          have here := below c
          rw [clearFirst]
          split
          · omega
          · exact here
        exact ⟨cleared here.compDcTab, cleared here.compAcTab, cleared here.compQuant⟩
      progressive := fun s here => ⟨here.compDcTab, here.compAcTab, here.compQuant⟩ }
  scanHeader s ok t named here ran :=
    ensures_readSosMarker_selectors named s ok t ⟨rfl, here⟩ ran

/-- All headers that a call reads name tables that there are. -/
def NamesTables (s : State) (step : Step) : Prop :=
  ∀ place t, step.At s place t → place.NamesTables step.machine t

/-- All elements are there that a call uses by what the headers name. -/
def LooksInside (s : State) (step : Step) : Prop :=
  ∀ place t, step.At s place t → ∀ lookup ∈ place.lookups t, lookup.Inside

theorem selectors_start {reader : Reader} : Selectors (State.start reader).header where
  compDcTab _ := Nat.succ_pos 7
  compAcTab _ := Nat.succ_pos 7
  compQuant _ := Nat.succ_pos 3

/-- In a run whose headers name only tables that there are, nothing else is looked up. -/
theorem lookups_inside_of_names (reader : Reader) (steps : List Step)
    (named : Run.Meets afterStep NamesTables (State.start reader) steps) :
    Run.Meets afterStep LooksInside (State.start reader) steps := by
  have kept : Run.Meets afterStep (fun s step =>
      StepKeeps Selectors (Place.NamesTables step.machine) step ∧ NamesTables s step)
      (State.start reader) steps :=
    named.mono fun s step visited => ⟨stepKeeps_selectors step, visited⟩
  have selectors := meets_holds selectors_start kept
  apply selectors.mono
  intro s step holds place t at_
  exact lookups_inside (holds place t at_) place

end Claim

section Samples

/-- An image of one component whose scan names its Huffman tables. -/
def grayImage (tables : U8) : Reader :=
  sampleReader [0xFF, 0xD8, 0xFF, 0xC0, 0, 11, 8, 0, 64, 0, 64, 1, 1, 0x11, 0, 0xFF, 0xDA, 0, 8, 1,
    1, tables, 0, 63, 0]

def initStep : Step :=
  .call ⟨sampleMachine, .setInitParameter 0x1000 0x800 0x8000 0x20080 true⟩

def constructorStep : Step :=
  .call ⟨sampleMachine, .constructor .main⟩

def headerStep : Step :=
  .call ⟨sampleMachine, .decodeHeader⟩

def behindInit (reader : Reader) : State :=
  afterStep (State.start reader) initStep

def behindConstructor (reader : Reader) : State :=
  afterStep (behindInit reader) constructorStep

theorem frameNames_of_one {stream : Nat → U8} (one : (stream 7, stream 10) = (1, 0)) :
    FrameNames stream := by
  obtain ⟨count, table⟩ := Prod.mk.inj one
  intro i below
  rw [count] at below
  obtain rfl : i = 0 := Nat.lt_one_iff.mp below
  rw [table]
  decide

theorem scanNames_of_one {stream : Nat → U8} (one : (stream 2, stream 4) = (1, 0)) :
    ScanNames stream := by
  obtain ⟨count, tables⟩ := Prod.mk.inj one
  intro i below
  rw [count] at below
  obtain rfl : i = 0 := Nat.lt_one_iff.mp below
  rw [tables]
  decide

theorem frameNames_grayImage {t : State}
    (at_ : ConstructorAt sampleMachine .main (behindInit (grayImage 0x00)) .frameHeader t) :
    FrameNames (chars sampleMachine.wait t.reader) := by
  cases at_ with
  | image at_ =>
      have ran : ((locateSoiMarker sampleMachine
          (startImage sampleMachine .main (behindInit (grayImage 0x00)))).bind fun found =>
            (processMarkers sampleMachine sampleMachine.turns found.2).map fun marker =>
              (chars sampleMachine.wait marker.2.reader 7,
                chars sampleMachine.wait marker.2.reader 10)) = some (1, 0) := by
        decide +kernel
      cases at_ with
      | sequential soi markers _ =>
          rw [soi, Option.bind_some, markers, Option.map_some] at ran
          exact frameNames_of_one (Option.some.inj ran)
      | progressive soi markers =>
          rw [soi, Option.bind_some, markers, Option.map_some] at ran
          exact frameNames_of_one (Option.some.inj ran)
  | thumbnail located _ isThumbnail _ _ _ =>
      have ran : (locateSofMarker sampleMachine
          (startImage sampleMachine .main (behindInit (grayImage 0x00)))).map
            (fun found => found.2.decodeType) = some .main := by
        decide +kernel
      rw [located, Option.map_some] at ran
      exact absurd (isThumbnail.symm.trans (Option.some.inj ran)) (by decide)

theorem scanNames_grayImage {t : State}
    (at_ : DecodeHeaderAt sampleMachine (behindConstructor (grayImage 0x00)) .scanHeader t) :
    ScanNames (chars sampleMachine.wait t.reader) := by
  have ran : ((initFrame sampleMachine (behindConstructor (grayImage 0x00))).bind fun framed =>
      (processMarkers sampleMachine sampleMachine.turns framed.2).map fun marker =>
        (framed.2.progressiveFlag, chars sampleMachine.wait marker.2.reader 2,
          chars sampleMachine.wait marker.2.reader 4)) = some (false, 1, 0) := by
    decide +kernel
  cases at_ with
  | sequential admitted _ at_ =>
      cases at_ with
      | scanHeader markers =>
          rw [admitted, Option.bind_some, markers, Option.map_some] at ran
          exact scanNames_of_one (Prod.mk.inj (Option.some.inj ran)).2
  | progressive admitted progressive _ _ _ =>
      rw [admitted, Option.bind_some] at ran
      obtain ⟨marker, -, values⟩ := Option.map_eq_some_iff.mp ran
      exact absurd (progressive.symm.trans (Prod.mk.inj values).1) (by decide)

theorem meets_headerStep {condition : State → Step → Prop} {reader : Reader} :
    Run.Meets afterStep condition (State.start reader) [initStep, constructorStep, headerStep] ↔
      condition (State.start reader) initStep ∧ condition (behindInit reader) constructorStep ∧
        condition (behindConstructor reader) headerStep := by
  simp only [Run.Meets, behindInit, behindConstructor, and_true]

theorem lookups_inside_of_names_grayImage :
    Run.Meets afterStep LooksInside (State.start (grayImage 0x00))
      [initStep, constructorStep, headerStep] := by
  apply lookups_inside_of_names
  rw [meets_headerStep]
  refine ⟨?_, ?_, ?_⟩
  · intro place t at_
    cases at_
  · intro place t at_
    cases at_ with
    | constructor at_ =>
        cases place with
        | frameHeader => exact frameNames_grayImage at_
        | scanHeader => exact absurd (constructorAt_place at_) (by decide)
        | _ => trivial
  · intro place t at_
    cases at_ with
    | decodeHeader at_ =>
        cases place with
        | frameHeader => exact absurd rfl (decodeHeaderAt_place at_)
        | scanHeader => exact scanNames_grayImage at_
        | _ => trivial

/-- The scan names the Huffman table 15. -/
theorem lookups_not_always_inside :
    ¬ ∀ (reader : Reader) (steps : List Step),
      Run.Meets afterStep LooksInside (State.start reader) steps := by
  intro always
  obtain ⟨-, -, inside⟩ := meets_headerStep.mp
    (always (grayImage 0xF0) [initStep, constructorStep, headerStep])
  have ran : ((initFrame sampleMachine (behindConstructor (grayImage 0xF0))).bind fun framed =>
      (locateSosMarker sampleMachine framed.2).map fun located =>
        (framed.1, framed.2.progressiveFlag, located.1, checkLookups located.2)) =
      some (true, false, true, [.huffInfo 15]) := by
    decide +kernel
  obtain ⟨⟨ok, framed⟩, admitted, rest⟩ := Option.bind_eq_some_iff.mp ran
  obtain ⟨⟨ok', located⟩, found, values⟩ := Option.map_eq_some_iff.mp rest
  simp only [Prod.mk.injEq] at values
  obtain ⟨rfl, sequential, rfl, lookups⟩ := values
  have looked := inside _ _ (.decodeHeader (.sequential admitted sequential
    (.tableChecks found rfl))) (.huffInfo 15)
  have member : Lookup.huffInfo 15 ∈ checkLookups located := by
    rw [lookups]
    exact List.mem_cons_self
  have below : 15 < JPEG_MAXHUFFTABLES := looked member
  exact absurd below (by decide)

end Samples

end Gp2Firmware.Jpeg.Decoder
