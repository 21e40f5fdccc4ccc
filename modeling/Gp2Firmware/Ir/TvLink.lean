import Mathlib.Logic.Function.Basic
import Gp2Firmware.Lib.Run

/-!
# The software decoder of the TV-link mode

`_MDrv_IR_ISR` in its TV-link mode and `_MDrv_IR_GetKeyOfTVLink` of `mdrv_ir.c`, for pulses
of any width at any time.
-/

namespace Gp2Firmware.Ir

abbrev U8 := BitVec 8

abbrev U32 := BitVec 32

/-- `IR_SWDECODE_MODE_BUF_LEN` -/
def irSwdecodeModeBufLen : Nat := 100

/-- `IR_RAW_DATA_NUM` -/
def irRawDataNum : Nat := 4

/-- `IR_TV_LINK_DATA_NUM` -/
def irTvLinkDataNum : Nat := 10

/-- `IR_HEADER_CODE0`, `IR_HEADER_CODE1` -/
def irHeaderCode0 : U8 := 0x04
def irHeaderCode1 : U8 := 0xFB

/-- `IR_TIMEOUT_CYC / 1000` -/
def irTimeout : U32 := 140

/-- `_LSB`, which at every byte has its bits in the other order. -/
def lsb (byte : U8) : U8 := byte.reverse

/-- The bounds on pulse widths, in counts of the timer: `IR_HDC_LOB`, the sums of
`IR_OFC_RP_LOB` and `IR_LG01H_LOB`, `IR_OFC_RP_UPB` and `IR_LG01H_UPB`, `IR_OFC_LOB` and
`IR_LG01H_LOB`, `IR_OFC_UPB` and `IR_LG01H_UPB`, then `IR_LG0_UPB` and `IR_LG1_UPB`. -/
structure Timing where
  hdcLob : U32
  ofcRpLob : U32
  ofcRpUpb : U32
  ofcLob : U32
  ofcUpb : U32
  lg0Upb : U32
  lg1Upb : U32

namespace Timing

/-- The second pulse of a repeat code. -/
def RepeatCode (timing : Timing) (width : U32) : Prop :=
  width > timing.ofcRpLob ∧ width < timing.ofcRpUpb

instance (timing : Timing) (width : U32) : Decidable (timing.RepeatCode width) :=
  inferInstanceAs (Decidable (_ ∧ _))

/-- The second pulse of a frame. -/
def OffCode (timing : Timing) (width : U32) : Prop :=
  width > timing.ofcLob ∧ width < timing.ofcUpb

instance (timing : Timing) (width : U32) : Decidable (timing.OffCode width) :=
  inferInstanceAs (Decidable (_ ∧ _))

/-- What a pulse adds to its byte; a pulse that is too long adds nothing. -/
def bit (timing : Timing) (width : U32) : U8 :=
  if width < timing.lg0Upb then 0
  else if width < timing.lg1Upb then 1
  else 0

def Waveform (timing : Timing) (width : U32) : Prop :=
  width < timing.lg0Upb ∨ width < timing.lg1Upb

instance (timing : Timing) (width : U32) : Decidable (timing.Waveform width) :=
  inferInstanceAs (Decidable (_ ∨ _))

/-- The byte of a list of pulses, the first one in front. -/
def byteOf (timing : Timing) (widths : List U32) : U8 :=
  widths.foldl (fun byte width => (byte <<< 1) ||| timing.bit width) 0

end Timing

/-- An index into one of the buffers. -/
inductive Access where
  | data (index : Nat)
  | dataTmp (index : Nat)
  | codeBuf (index : Nat)

def Access.InBounds : Access → Prop
  | data index => index < irSwdecodeModeBufLen
  | dataTmp index => index < irSwdecodeModeBufLen
  | codeBuf index => index < irTvLinkDataNum

instance : DecidablePred Access.InBounds := fun access => by
  cases access <;> unfold Access.InBounds <;> infer_instance

/-- What `_MDrv_IR_GetKeyOfTVLink` reports: `_IR_READ_TYPE_SINGLE`, `_IR_READ_TYPE_REPEAT`
and `_IR_READ_TYPE_TV_LINK`. -/
inductive Report where
  | single (key : U8)
  | repeatKey (key : U8)
  | tvLink (data : List U8)
  deriving DecidableEq

/-- `IRKeyProperty` -/
inductive KeyProperty where
  | init
  | first
  | following
  deriving DecidableEq

/-- A pulse, with the system time where the handler tests for a time-out, where it stores
the time, and in the term of the repeat codes. -/
structure Pulse where
  width : U32
  now : U32
  later : U32
  term : U32

inductive IrEvent where
  | pulse (pulse : Pulse)
  | setDelayTime (firstDelay secondDelay : U32)

/-- The static variables.  `reports` have been stored in `_TvLinkReceived`, oldest first,
and `accesses` are the indices used.  `thirdByte` are the widths that went into
`u8CodeBuf[2]` since it was set to 0, and `lastSingle` those of the last SINGLE. -/
structure Decoder where
  u32IRData : Nat → U32
  u32IRDataTmp : Nat → U32
  u32IRCount : Nat
  u32IRAllCount : Nat
  u8CodeBuf : Nat → U8
  ulPreTime : U32
  u32FirstDelayTimeMs : U32
  u32SecondDelayTimeMs : U32
  ePrevKeyProperty : KeyProperty
  u8PrevKeyCode : U8
  ulPrevKeyTime : U32
  reports : List Report
  accesses : List Access
  thirdByte : List U32
  lastSingle : Option (List U32)

namespace Decoder

/-- After `MDrv_IR_Config` has set the TV-link mode for the first time.  The previous key
is of the mode before. -/
def init (u8PrevKeyCode : U8) (ulPrevKeyTime : U32) : Decoder where
  u32IRData := fun _ => 0
  u32IRDataTmp := fun _ => 0
  u32IRCount := 0
  u32IRAllCount := 0
  u8CodeBuf := fun _ => 0
  ulPreTime := 0
  u32FirstDelayTimeMs := 0
  u32SecondDelayTimeMs := 0
  ePrevKeyProperty := .init
  u8PrevKeyCode := u8PrevKeyCode
  ulPrevKeyTime := ulPrevKeyTime
  reports := []
  accesses := []
  thirdByte := []
  lastSingle := none

def touch (s : Decoder) (accesses : List Access) : Decoder :=
  { s with accesses := s.accesses ++ accesses }

def reset (s : Decoder) : Decoder := { s with u32IRCount := 0, u32IRAllCount := 0 }

/-- `_ePrevKeyProperty` of a key that is reported. -/
def keyProperty (s : Decoder) (key : U8) (single : Bool) : KeyProperty :=
  if s.u8PrevKeyCode ≠ key ∨ single then .init else s.ePrevKeyProperty

/-- The time since the previous key is long enough. -/
def termOver (s : Decoder) (key : U8) (single : Bool) (time : U32) : Bool :=
  match s.keyProperty key single with
  | .init => true
  | .first => decide (time - s.ulPrevKeyTime > s.u32FirstDelayTimeMs)
  | .following => decide (time - s.ulPrevKeyTime > s.u32SecondDelayTimeMs)

/-- A key passes its term. -/
def passTerm (s : Decoder) (key : U8) (single : Bool) (time : U32) : Decoder :=
  match s.keyProperty key single with
  | .init =>
      { s with u8PrevKeyCode := key, ulPrevKeyTime := time, ePrevKeyProperty := .first }
  | .first => { s with ulPrevKeyTime := time, ePrevKeyProperty := .following }
  | .following => { s with ulPrevKeyTime := time }

/-- `done`, with `bRet` set. -/
def done (s : Decoder) (report : Report) (time : U32) : Decoder :=
  match report with
  | .single key =>
      if s.termOver key true time then
        { (s.passTerm key true time).reset with
          reports := s.reports ++ [report]
          lastSingle := some s.thirdByte }
      else s.reset
  | .repeatKey key =>
      if s.termOver key false time then
        { (s.passTerm key false time).reset with reports := s.reports ++ [report] }
      else s.reset
  | .tvLink _ => { s.reset with reports := s.reports ++ [report] }

/-- A pulse is shifted into its byte. -/
def shiftBit (timing : Timing) (s : Decoder) : Decoder :=
  let index := (s.u32IRCount - 3) / 8
  let width := s.u32IRData (s.u32IRCount - 1)
  let byte : U8 := if (s.u32IRCount - 3) % 8 = 0 then 0 else s.u8CodeBuf index <<< 1
  { s.touch [.codeBuf index, .data (s.u32IRCount - 1)] with
    u8CodeBuf := Function.update s.u8CodeBuf index (byte ||| timing.bit width)
    thirdByte :=
      if index = 2 then
        (if (s.u32IRCount - 3) % 8 = 0 then [] else s.thirdByte) ++ [width]
      else s.thirdByte }

/-- The end of `_MDrv_IR_GetKeyOfTVLink`. -/
def complete (s : Decoder) (time : U32) : Decoder :=
  if s.u32IRCount < 2 + irRawDataNum * 8 then s
  else if s.u32IRCount = 2 + irRawDataNum * 8 then
    let s := s.touch [.codeBuf 0, .codeBuf 1, .codeBuf 2, .codeBuf 3]
    if s.u8CodeBuf 0 = lsb irHeaderCode0 ∧ s.u8CodeBuf 1 = lsb irHeaderCode1 then
      if s.u8CodeBuf 2 = ~~~s.u8CodeBuf 3 then s.done (.single (lsb (s.u8CodeBuf 2))) time
      else s.reset
    else if s.u8CodeBuf 0 = lsb 0x7F ∧ s.u8CodeBuf 1 = lsb 0x5F ∧
        s.u8CodeBuf 2 = lsb 0x3F ∧ s.u8CodeBuf 3 = lsb 0x1F then s.reset
    else s
  else if s.u32IRCount < 2 + irTvLinkDataNum * 8 then s
  else
    (s.touch ((List.range irTvLinkDataNum).map .codeBuf)).done
      (.tvLink ((List.range irTvLinkDataNum).map s.u8CodeBuf)) time

/-- `_MDrv_IR_GetKeyOfTVLink` -/
def getKeyOfTVLink (timing : Timing) (s : Decoder) (time : U32) : Decoder :=
  if s.u32IRCount = 1 then
    let s := s.touch [.data 0]
    if s.u32IRData 0 > timing.hdcLob then s else s.reset
  else if s.u32IRCount = 2 then
    let s := s.touch [.data 1]
    if timing.RepeatCode (s.u32IRData 1) then
      (s.touch [.codeBuf 2]).done (.repeatKey (lsb (s.u8CodeBuf 2))) time
    else if timing.OffCode (s.u32IRData 1) then s
    else s.reset
  else if s.u32IRCount > 2 then
    if timing.Waveform (s.u32IRData (s.u32IRCount - 1)) then
      (s.shiftBit timing).complete time
    else (s.shiftBit timing).reset
  else s

/-- `_MDrv_IR_ISR` up to its test for a time-out. -/
def timeOut (s : Decoder) (pulse : Pulse) : Decoder :=
  if pulse.now - s.ulPreTime > irTimeout then s.reset else s

/-- `bPass` -/
def bPass (s : Decoder) : Bool :=
  decide (s.u32IRCount < irSwdecodeModeBufLen) && decide (s.u32IRAllCount % 2 ≠ 0)

/-- The handler stores a width. -/
def take (s : Decoder) (pulse : Pulse) : Decoder :=
  if s.u32IRCount < irSwdecodeModeBufLen then
    if s.u32IRAllCount % 2 = 0 then
      { s.touch [.dataTmp s.u32IRCount] with
        u32IRDataTmp := Function.update s.u32IRDataTmp s.u32IRCount pulse.width
        u32IRAllCount := s.u32IRAllCount + 1
        ulPreTime := pulse.later }
    else
      { s.touch [.data s.u32IRCount] with
        u32IRData := Function.update s.u32IRData s.u32IRCount pulse.width
        u32IRCount := s.u32IRCount + 1
        u32IRAllCount := s.u32IRAllCount + 1
        ulPreTime := pulse.later }
  else { s with ulPreTime := pulse.later }

/-- `_MDrv_IR_ISR` in the TV-link mode. -/
def isr (timing : Timing) (s : Decoder) (pulse : Pulse) : Decoder :=
  if (s.timeOut pulse).bPass then
    ((s.timeOut pulse).take pulse).getKeyOfTVLink timing pulse.term
  else (s.timeOut pulse).take pulse

def after (timing : Timing) (s : Decoder) : IrEvent → Decoder
  | .pulse pulse => s.isr timing pulse
  | .setDelayTime firstDelay secondDelay =>
      { s with u32FirstDelayTimeMs := firstDelay, u32SecondDelayTimeMs := secondDelay }

end Decoder

/-! ### The law -/

/-- The key of the last SINGLE. -/
def singleKey (reports : List Report) : Option U8 :=
  reports.foldl (fun last report =>
    match report with
    | .single key => some key
    | _ => last) none

/-- Every REPEAT has the key of the last SINGLE before it. -/
def NamesKeys (reports : List Report) : Prop :=
  ∀ before key rest, reports = before ++ Report.repeatKey key :: rest →
    singleKey before = some key

/-- The reports name the right keys, and all indices are in their bounds. -/
structure TvLinkLaw (s : Decoder) : Prop where
  names : NamesKeys s.reports
  inBounds : ∀ access ∈ s.accesses, access.InBounds

/-- The pulse is the second one of a repeat code. -/
def Decoder.GetsRepeat (timing : Timing) (s : Decoder) (pulse : Pulse) : Prop :=
  (s.timeOut pulse).bPass = true ∧ (s.timeOut pulse).u32IRCount = 1 ∧
    timing.RepeatCode pulse.width

/-- There was a SINGLE, and the third byte that was begun last is as it was in it. -/
def Decoder.SameThird (timing : Timing) (s : Decoder) : Prop :=
  ∃ single, s.lastSingle = some single ∧ timing.byteOf single = timing.byteOf s.thirdByte

/-- No other third byte stands between a repeat code and its SINGLE. -/
def Decoder.Undisturbed (timing : Timing) (s : Decoder) : IrEvent → Prop
  | .pulse pulse => s.GetsRepeat timing pulse → s.SameThird timing
  | .setDelayTime _ _ => True

/-! ### Keys -/

theorem lsb_inj {byte other : U8} (same : lsb byte = lsb other) : byte = other := by
  have again : ∀ byte : U8, lsb (lsb byte) = byte := by
    intro byte
    rw [lsb, lsb]
    ext i inside
    rw [BitVec.getElem_reverse, BitVec.getMsbD_reverse, BitVec.getLsbD_eq_getElem]
  rw [← again byte, same, again]

theorem singleKey_append (reports : List Report) (report : Report) :
    singleKey (reports ++ [report]) =
      match report with
      | .single key => some key
      | _ => singleKey reports := by
  rw [singleKey, List.foldl_append]
  rfl

theorem namesKeys_append (reports : List Report) (report : Report) :
    NamesKeys (reports ++ [report]) ↔
      NamesKeys reports ∧ ∀ key, report = .repeatKey key → singleKey reports = some key := by
  constructor
  · intro names
    constructor
    · intro before key rest split
      exact names before key (rest ++ [report]) (by rw [split]; simp)
    · rintro key rfl
      exact names reports key [] rfl
  · rintro ⟨names, last⟩ before key rest split
    rcases List.eq_nil_or_concat rest with rfl | ⟨front, final, rfl⟩
    · obtain ⟨rfl, same⟩ := List.append_inj' split rfl
      exact last key (List.singleton_inj.mp same)
    · rw [List.concat_eq_append, ← List.cons_append, ← List.append_assoc] at split
      exact names before key front (List.append_inj' split rfl).1

namespace Timing

variable {timing : Timing}

theorem byteOf_append (widths : List U32) (width : U32) :
    timing.byteOf (widths ++ [width]) = (timing.byteOf widths <<< 1) ||| timing.bit width := by
  rw [byteOf, List.foldl_append]
  rfl

end Timing

/-! ### What a call keeps -/

theorem Decoder.count_reset (s : Decoder) :
    s.reset.u32IRCount < 2 + irTvLinkDataNum * 8 := by
  change 0 < 2 + irTvLinkDataNum * 8
  decide

theorem Decoder.count_done (s : Decoder) (report : Report) (time : U32) :
    (s.done report time).u32IRCount = 0 := by
  cases report with
  | single key =>
      rw [Decoder.done]
      split
      · rfl
      · rfl
  | repeatKey key =>
      rw [Decoder.done]
      split
      · rfl
      · rfl
  | tvLink data => rfl

/-- What holds between two statements of the decoder in a run that keeps the law. -/
structure Decoding (timing : Timing) (s : Decoder) : Prop extends TvLinkLaw s where
  third : s.u8CodeBuf 2 = timing.byteOf s.thirdByte
  single : singleKey s.reports = s.lastSingle.map fun widths => lsb (timing.byteOf widths)
  prev : s.ePrevKeyProperty = .init ∨
    ∃ widths, s.lastSingle = some widths ∧ s.u8PrevKeyCode = lsb (timing.byteOf widths)

namespace Decoding

variable {timing : Timing} {s : Decoder}

theorem touch (decoding : Decoding timing s) {accesses : List Access}
    (inBounds : ∀ access ∈ accesses, access.InBounds) : Decoding timing (s.touch accesses) where
  names := decoding.names
  inBounds := by
    intro access member
    rcases List.mem_append.mp member with old | new
    · exact decoding.inBounds access old
    · exact inBounds access new
  third := decoding.third
  single := decoding.single
  prev := decoding.prev

theorem touch_one (decoding : Decoding timing s) {access : Access} (inBounds : access.InBounds) :
    Decoding timing (s.touch [access]) :=
  decoding.touch fun _ member => List.mem_singleton.mp member ▸ inBounds

theorem reset (decoding : Decoding timing s) : Decoding timing s.reset :=
  ⟨⟨decoding.names, decoding.inBounds⟩, decoding.third, decoding.single, decoding.prev⟩

theorem timeOut (decoding : Decoding timing s) (pulse : Pulse) :
    Decoding timing (s.timeOut pulse) := by
  rw [Decoder.timeOut]
  split
  · exact decoding.reset
  · exact decoding

theorem take (decoding : Decoding timing s) (pulse : Pulse) :
    Decoding timing (s.take pulse) := by
  rw [Decoder.take]
  split
  · rename_i room
    split
    · have touched := @touch_one _ _ decoding (.dataTmp s.u32IRCount) room
      exact ⟨⟨touched.names, touched.inBounds⟩, touched.third, touched.single, touched.prev⟩
    · have touched := @touch_one _ _ decoding (.data s.u32IRCount) room
      exact ⟨⟨touched.names, touched.inBounds⟩, touched.third, touched.single, touched.prev⟩
  · exact ⟨⟨decoding.names, decoding.inBounds⟩, decoding.third, decoding.single, decoding.prev⟩

/-- While a frame is not longer than a link message, its bits go into the buffer. -/
theorem shiftBit (decoding : Decoding timing s) (some : 2 < s.u32IRCount)
    (few : s.u32IRCount ≤ 2 + irTvLinkDataNum * 8) : Decoding timing (s.shiftBit timing) := by
  rw [irTvLinkDataNum] at few
  have touched := @touch _ _ decoding
    [.codeBuf ((s.u32IRCount - 3) / 8), .data (s.u32IRCount - 1)] (by
      intro access member
      rcases List.mem_cons.mp member with rfl | member
      · change (s.u32IRCount - 3) / 8 < 10
        omega
      · rw [List.mem_singleton.mp member]
        change s.u32IRCount - 1 < 100
        omega)
  refine ⟨⟨touched.names, touched.inBounds⟩, ?_, touched.single, touched.prev⟩
  simp only [Decoder.shiftBit]
  by_cases third : (s.u32IRCount - 3) / 8 = 2
  · rw [third, Function.update_self, if_pos rfl, Timing.byteOf_append]
    congr 1
    split
    · rfl
    · rw [decoding.third]
  · rw [if_neg third, Function.update_of_ne (Ne.symm third)]
    exact decoding.third

/-- A SINGLE always passes its term. -/
theorem done_single (decoding : Decoding timing s) (time : U32) :
    Decoding timing (s.done (.single (lsb (s.u8CodeBuf 2))) time) := by
  have first : ∀ key, s.keyProperty key true = .init := fun key => if_pos (Or.inr rfl)
  simp only [Decoder.done, Decoder.termOver, Decoder.passTerm, first, if_true]
  refine ⟨⟨?_, decoding.inBounds⟩, decoding.third, ?_, Or.inr ⟨s.thirdByte, rfl, ?_⟩⟩
  · exact (namesKeys_append _ _).mpr ⟨decoding.names, fun key impossible => Report.noConfusion impossible⟩
  · rw [singleKey_append, decoding.third]
    rfl
  · exact congrArg lsb decoding.third

theorem done_tvLink (decoding : Decoding timing s) (data : List U8) (time : U32) :
    Decoding timing (s.done (.tvLink data) time) := by
  refine ⟨⟨?_, decoding.inBounds⟩, decoding.third, ?_, decoding.prev⟩
  · exact (namesKeys_append _ _).mpr ⟨decoding.names, fun key impossible => Report.noConfusion impossible⟩
  · simp only [Decoder.done]
    rw [singleKey_append]
    exact decoding.single

/-- A repeat code keeps the law if, and only if, the byte in the buffer is that of the last
SINGLE. -/
theorem done_repeatKey (decoding : Decoding timing s) (time : U32) :
    (TvLinkLaw (s.done (.repeatKey (lsb (s.u8CodeBuf 2))) time) ↔ s.SameThird timing) ∧
      (s.SameThird timing →
        Decoding timing (s.done (.repeatKey (lsb (s.u8CodeBuf 2))) time)) := by
  have held : s.SameThird timing →
      Decoding timing (s.done (.repeatKey (lsb (s.u8CodeBuf 2))) time) := by
    rintro ⟨single, last, same⟩
    have key : lsb (s.u8CodeBuf 2) = lsb (timing.byteOf single) := by
      rw [decoding.third, same]
    have names : NamesKeys (s.reports ++ [.repeatKey (lsb (s.u8CodeBuf 2))]) := by
      refine (namesKeys_append _ _).mpr ⟨decoding.names, fun other equal => ?_⟩
      rw [← Report.repeatKey.inj equal, decoding.single, last, key]
      rfl
    have keeps : singleKey (s.reports ++ [.repeatKey (lsb (s.u8CodeBuf 2))]) =
        s.lastSingle.map fun widths => lsb (timing.byteOf widths) := by
      rw [singleKey_append]
      exact decoding.single
    simp only [Decoder.done]
    split
    · rw [Decoder.passTerm]
      split
      · exact ⟨⟨names, decoding.inBounds⟩, decoding.third, keeps, Or.inr ⟨single, last, key⟩⟩
      · rename_i first
        have code : s.u8PrevKeyCode = lsb (s.u8CodeBuf 2) := by
          by_contra other
          rw [Decoder.keyProperty, if_pos (Or.inl other)] at first
          exact KeyProperty.noConfusion first
        exact ⟨⟨names, decoding.inBounds⟩, decoding.third, keeps,
          Or.inr ⟨single, last, code.trans key⟩⟩
      · exact ⟨⟨names, decoding.inBounds⟩, decoding.third, keeps, decoding.prev⟩
    · exact decoding.reset
  refine ⟨⟨fun law => ?_, fun same => (held same).toTvLinkLaw⟩, held⟩
  by_contra disturbed
  -- a key that is not the previous one has no term to wait for
  have fresh : s.keyProperty (lsb (s.u8CodeBuf 2)) false = .init := by
    rw [Decoder.keyProperty]
    split
    · rfl
    · rename_i repeated
      rcases decoding.prev with first | ⟨single, last, code⟩
      · exact first
      · refine absurd ⟨single, last, ?_⟩ disturbed
        rw [← decoding.third]
        exact lsb_inj (code.symm.trans (not_not.mp (not_or.mp repeated).1))
  have names := law.names
  simp only [Decoder.done, Decoder.termOver, Decoder.passTerm, fresh, if_true] at names
  have last := ((namesKeys_append _ _).mp names).2 _ rfl
  rw [decoding.single, decoding.third] at last
  obtain ⟨single, there, equal⟩ := Option.map_eq_some_iff.mp last
  exact disturbed ⟨single, there, lsb_inj equal⟩

/-- The end of a call starts a new frame, or leaves a frame that is not complete yet. -/
theorem complete (decoding : Decoding timing s) (time : U32) :
    Decoding timing (s.complete time) ∧
      (s.complete time).u32IRCount < 2 + irTvLinkDataNum * 8 := by
  rw [Decoder.complete]
  split
  · rename_i short
    exact ⟨decoding, Nat.lt_trans short (by decide)⟩
  · split
    · rename_i whole
      have touched := @touch _ _ decoding [.codeBuf 0, .codeBuf 1, .codeBuf 2, .codeBuf 3]
        (by decide)
      dsimp only
      split
      · split
        · exact ⟨touched.done_single time, by rw [Decoder.count_done]; decide⟩
        · exact ⟨touched.reset, Decoder.count_reset _⟩
      · split
        · exact ⟨touched.reset, Decoder.count_reset _⟩
        · refine ⟨touched, ?_⟩
          change s.u32IRCount < _
          rw [whole]
          decide
    · split
      · rename_i short
        exact ⟨decoding, short⟩
      · refine ⟨(decoding.touch fun access member => ?_).done_tvLink _ time, ?_⟩
        · obtain ⟨index, inside, rfl⟩ := List.mem_map.mp member
          exact List.mem_range.mp inside
        · rw [Decoder.count_done]
          decide

/-- A call keeps the law if, and only if, it does not get a repeat code whose SINGLE is
disturbed. -/
theorem getKey_spec (decoding : Decoding timing s)
    (few : s.u32IRCount ≤ 2 + irTvLinkDataNum * 8) (time : U32) :
    let repeated := s.u32IRCount = 2 → timing.RepeatCode (s.u32IRData 1) → s.SameThird timing
    (TvLinkLaw (s.getKeyOfTVLink timing time) ↔ repeated) ∧
      (repeated → Decoding timing (s.getKeyOfTVLink timing time) ∧
        (s.getKeyOfTVLink timing time).u32IRCount < 2 + irTvLinkDataNum * 8) := by
  intro repeated
  have short : ∀ {count}, count ≤ 2 → count < 2 + irTvLinkDataNum * 8 := fun small =>
    Nat.lt_of_le_of_lt small (by decide)
  by_cases code : s.u32IRCount = 2 ∧ timing.RepeatCode (s.u32IRData 1)
  · have touched := (decoding.touch_one (show (Access.data 1).InBounds by decide)).touch_one
      (show (Access.codeBuf 2).InBounds by decide)
    have call : s.getKeyOfTVLink timing time =
        ((s.touch [.data 1]).touch [.codeBuf 2]).done (.repeatKey (lsb (s.u8CodeBuf 2))) time := by
      rw [Decoder.getKeyOfTVLink, if_neg (by rw [code.1]; decide), if_pos code.1]
      exact if_pos code.2
    obtain ⟨same, kept⟩ := touched.done_repeatKey time
    have needs : repeated ↔ s.SameThird timing :=
      ⟨fun holds => holds code.1 code.2, fun holds _ _ => holds⟩
    rw [call, needs]
    exact ⟨same, fun holds => ⟨kept holds, by rw [Decoder.count_done]; decide⟩⟩
  · have free : repeated := fun two width => absurd ⟨two, width⟩ code
    suffices kept : Decoding timing (s.getKeyOfTVLink timing time) ∧
        (s.getKeyOfTVLink timing time).u32IRCount < 2 + irTvLinkDataNum * 8 from
      ⟨iff_of_true kept.1.toTvLinkLaw free, fun _ => kept⟩
    rw [Decoder.getKeyOfTVLink]
    split
    · rename_i one
      have touched := decoding.touch_one (show (Access.data 0).InBounds by decide)
      dsimp only
      split
      · exact ⟨touched, short (le_of_eq_of_le one (by decide))⟩
      · exact ⟨touched.reset, Decoder.count_reset _⟩
    · split
      · rename_i two
        have touched := decoding.touch_one (show (Access.data 1).InBounds by decide)
        dsimp only
        split
        · rename_i width
          exact absurd ⟨two, width⟩ code
        · split
          · exact ⟨touched, short (Nat.le_of_eq two)⟩
          · exact ⟨touched.reset, Decoder.count_reset _⟩
      · split
        · rename_i more
          have shifted := decoding.shiftBit more few
          split
          · exact shifted.complete time
          · exact ⟨shifted.reset, Decoder.count_reset _⟩
        · rename_i none
          exact ⟨decoding, short (Nat.not_lt.mp none)⟩

end Decoding

/-! ### Runs -/

section Runs

variable {timing : Timing} {s : Decoder}

/-- The state between two interrupts. -/
def Framed (timing : Timing) (s : Decoder) : Prop :=
  Decoding timing s ∧ s.u32IRCount < 2 + irTvLinkDataNum * 8

theorem framed_init (u8PrevKeyCode : U8) (ulPrevKeyTime : U32) :
    Framed timing (.init u8PrevKeyCode ulPrevKeyTime) := by
  refine ⟨⟨⟨fun before key rest split => ?_, fun access none => ?_⟩, rfl, rfl, Or.inl rfl⟩, ?_⟩
  · exact absurd split (by simp [Decoder.init])
  · exact absurd none List.not_mem_nil
  · change 0 < 2 + irTvLinkDataNum * 8
    decide

theorem sameThird_timeOut (pulse : Pulse) :
    (s.timeOut pulse).SameThird timing ↔ s.SameThird timing := by
  rw [Decoder.timeOut]
  split
  · exact Iff.rfl
  · exact Iff.rfl

/-- The handler passes the second width of a pair on. -/
theorem take_of_bPass (passes : s.bPass = true) (pulse : Pulse) :
    (s.take pulse).u32IRCount = s.u32IRCount + 1 ∧
      (s.take pulse).u32IRData s.u32IRCount = pulse.width ∧
      ((s.take pulse).SameThird timing ↔ s.SameThird timing) := by
  rw [Decoder.bPass, Bool.and_eq_true, decide_eq_true_iff, decide_eq_true_iff] at passes
  rw [Decoder.take, if_pos passes.1, if_neg passes.2]
  exact ⟨rfl, Function.update_self .., Iff.rfl⟩

theorem count_take_of_not_bPass (passes : ¬ s.bPass = true) (pulse : Pulse) :
    (s.take pulse).u32IRCount = s.u32IRCount := by
  rw [Decoder.take]
  split
  · rename_i room
    split
    · rfl
    · rename_i odd
      rw [Decoder.bPass, decide_eq_true room, decide_eq_true odd] at passes
      exact absurd rfl passes
  · rfl

theorem Framed.spec (framed : Framed timing s) (event : IrEvent) :
    (TvLinkLaw (s.after timing event) ↔ s.Undisturbed timing event) ∧
      (s.Undisturbed timing event → Framed timing (s.after timing event)) := by
  obtain ⟨decoding, few⟩ := framed
  cases event with
  | setDelayTime firstDelay secondDelay =>
      have kept : Framed timing (s.after timing (.setDelayTime firstDelay secondDelay)) :=
        ⟨⟨⟨decoding.names, decoding.inBounds⟩, decoding.third, decoding.single, decoding.prev⟩,
          few⟩
      exact ⟨iff_of_true kept.1.toTvLinkLaw trivial, fun _ => kept⟩
  | pulse pulse =>
      have started := decoding.timeOut pulse
      have fewer : (s.timeOut pulse).u32IRCount < 2 + irTvLinkDataNum * 8 := by
        rw [Decoder.timeOut]
        split
        · exact Decoder.count_reset s
        · exact few
      have taken := started.take pulse
      rw [Decoder.after, Decoder.isr]
      by_cases passes : (s.timeOut pulse).bPass = true
      · obtain ⟨count, width, same⟩ := @take_of_bPass timing _ passes pulse
        have gets : s.Undisturbed timing (.pulse pulse) ↔
            (((s.timeOut pulse).take pulse).u32IRCount = 2 →
              timing.RepeatCode (((s.timeOut pulse).take pulse).u32IRData 1) →
              ((s.timeOut pulse).take pulse).SameThird timing) := by
          rw [same, sameThird_timeOut]
          constructor
          · intro undisturbed two code
            have one : (s.timeOut pulse).u32IRCount = 1 := by omega
            rw [one] at width
            exact undisturbed ⟨passes, one, width ▸ code⟩
          · rintro met ⟨-, one, code⟩
            rw [one] at width
            exact met (by omega) (width.symm ▸ code)
        have spec := taken.getKey_spec (by omega) pulse.term
        rw [if_pos passes, gets]
        exact spec
      · rw [if_neg passes]
        have kept : Framed timing ((s.timeOut pulse).take pulse) :=
          ⟨taken, by rw [count_take_of_not_bPass passes]; exact fewer⟩
        exact ⟨iff_of_true kept.1.toTvLinkLaw fun gets => absurd gets.1 passes, fun _ => kept⟩

/-- In every run of the TV-link mode, all indices are in their bounds and every REPEAT has
the key of the last SINGLE, if and only if no repeat code comes before a SINGLE or behind
another third byte. -/
theorem repeats_name_iff (timing : Timing) (u8PrevKeyCode : U8) (ulPrevKeyTime : U32)
    (events : List IrEvent) :
    Run.Meets (Decoder.after timing) (fun s event => TvLinkLaw (s.after timing event))
        (.init u8PrevKeyCode ulPrevKeyTime) events ↔
      Run.Meets (Decoder.after timing) (Decoder.Undisturbed timing)
        (.init u8PrevKeyCode ulPrevKeyTime) events :=
  Run.meets_congr (fun _ event framed => (Framed.spec framed event).1)
    (fun _ event framed law => (Framed.spec framed event).2 ((Framed.spec framed event).1.mp law))
    (framed_init u8PrevKeyCode ulPrevKeyTime)

end Runs

/-- The bounds for a timer of 12 MHz that is divided by 13. -/
def timing12MHz : Timing where
  hdcLob := 6646
  ofcRpLob := 2207
  ofcRpUpb := 3466
  ofcLob := 3684
  ofcUpb := 5681
  lg0Upb := 1246
  lg1Upb := 2492

/-- The pulses of a frame with its widths, each behind one that is not measured. -/
def frame (widths : List U32) (now : U32) : List IrEvent :=
  widths.flatMap fun width => [.pulse ⟨560, now, now, now⟩, .pulse ⟨width, now, now, now⟩]

/-- The widths of a byte, its first bit in front. -/
def byteWidths (bits : List Bool) : List U32 := bits.map fun bit => if bit then 2077 else 1038

/-- The bytes 0x04 and 0xFB of the header, behind the two pulses that start a frame. -/
def headerWidths : List U32 :=
  [8500, 4700] ++
    byteWidths [false, false, true, false, false, false, false, false,
      true, true, false, true, true, true, true, true]

/-- The frame of the key 0, then one that is cut off in its third byte. -/
def cutOff : List IrEvent :=
  frame (headerWidths ++ byteWidths (List.replicate 8 false ++ List.replicate 8 true)) 0 ++
    frame (headerWidths ++ byteWidths [true]) 0

/-- The repeat code behind the frame that was cut off names a key that was not pressed. -/
theorem repeat_of_cutOff :
    ¬ ∀ (timing : Timing) (u8PrevKeyCode : U8) (ulPrevKeyTime : U32) (events : List IrEvent),
      Run.Meets (Decoder.after timing) (fun s event => TvLinkLaw (s.after timing event))
        (.init u8PrevKeyCode ulPrevKeyTime) events := by
  intro always
  have run := always timing12MHz 0 0
    ((cutOff ++ [.pulse ⟨560, 200, 200, 200⟩, .pulse ⟨8500, 200, 200, 200⟩,
      .pulse ⟨560, 200, 200, 200⟩]) ++ [.pulse ⟨2800, 200, 200, 200⟩])
  have named := (Run.meets_append.mp run).2.1.names [.single 0] 0x80 [] (by decide +kernel)
  exact absurd named (by decide)

end Gp2Firmware.Ir
