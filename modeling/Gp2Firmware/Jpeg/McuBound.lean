import Gp2Firmware.Jpeg.ScanErrors
import Gp2Firmware.Lib.Ensures

/-!
# The blocks of an MCU

`_u8Mcu_org` has room for ten blocks.  A frame has six at most in an MCU, but a scan may name a
component again, and the sampling factors of a single component are not checked.
-/

namespace Gp2Firmware.Jpeg.Mcu

def JPEG_MAXBLOCKSPERMCU : Nat := 10

/-- `_u8Blocks_per_mcu`, and what has been stored into `_u8Mcu_org` with the places. -/
structure McuList where
  blocksPerMcu : BitVec 8
  writes : List (Nat × Nat)
  deriving DecidableEq

section Code

/-- `_u8Mcu_org[_u8Blocks_per_mcu++] = component_id` -/
def McuList.put (l : McuList) (c : Nat) : McuList where
  blocksPerMcu := l.blocksPerMcu + 1
  writes := l.writes ++ [(l.blocksPerMcu.toNat, c)]

def McuList.putBlocks (c : Nat) : Nat → McuList → McuList
  | 0, l => l
  | numBlocks + 1, l => McuList.putBlocks c numBlocks (l.put c)

def numBlocks (f : Frame) (c : Nat) : Nat :=
  f.hSamp c * f.vSamp c % 2 ^ 8

def McuList.putComponents (f : Frame) : List Nat → McuList → McuList
  | [], l => l
  | c :: rest, l => McuList.putComponents f rest (l.putBlocks c (numBlocks f c))

/-- The part of `MDrv_JPEG_calc_mcu_block_order` that lists the blocks. -/
def mcuList (f : Frame) (compList : List Nat) : McuList :=
  match compList with
  | [c] => ⟨1, [(0, c)]⟩
  | _ => McuList.putComponents f compList ⟨0, []⟩

end Code

/-- All blocks are stored inside of `_u8Mcu_org`, and their number does not wrap around. -/
structure McuList.Bounded (l : McuList) : Prop where
  inside : ∀ write ∈ l.writes, write.1 < JPEG_MAXBLOCKSPERMCU
  noWrap : l.blocksPerMcu.toNat = l.writes.length

/-- Each place is the number of the blocks before, as far as a byte holds it. -/
structure McuList.Counted (l : McuList) : Prop where
  count : l.blocksPerMcu.toNat = l.writes.length % 2 ^ 8
  places : l.writes.map Prod.fst = (List.range l.writes.length).map (· % 2 ^ 8)

section Lists

variable {l : McuList} {f : Frame} {c n : Nat} {compList : List Nat}

theorem McuList.Counted.put (counted : l.Counted) : (l.put c).Counted := by
  constructor
  · rw [McuList.put, BitVec.toNat_add, counted.count, List.length_append]
    simp
  · rw [McuList.put, List.map_append, counted.places, List.length_append, List.length_singleton,
      List.range_succ, List.map_append, counted.count]
    rfl

theorem McuList.Counted.putBlocks (counted : l.Counted) : (l.putBlocks c n).Counted := by
  induction n generalizing l with
  | zero => exact counted
  | succ n inductionHypothesis => exact inductionHypothesis counted.put

theorem McuList.Counted.putComponents (counted : l.Counted) :
    (McuList.putComponents f compList l).Counted := by
  induction compList generalizing l with
  | nil => exact counted
  | cons c rest inductionHypothesis => exact inductionHypothesis counted.putBlocks

theorem McuList.putBlocks_comps :
    (McuList.putBlocks c n l).writes.map Prod.snd =
      l.writes.map Prod.snd ++ List.replicate n c := by
  induction n generalizing l with
  | zero => simp [McuList.putBlocks]
  | succ n inductionHypothesis =>
      rw [McuList.putBlocks, inductionHypothesis, McuList.put, List.map_append, List.append_assoc,
        List.replicate_succ]
      rfl

theorem McuList.putComponents_comps :
    (McuList.putComponents f compList l).writes.map Prod.snd =
      l.writes.map Prod.snd ++ compList.flatMap fun c => List.replicate (numBlocks f c) c := by
  induction compList generalizing l with
  | nil => simp [McuList.putComponents]
  | cons c rest inductionHypothesis =>
      rw [McuList.putComponents, inductionHypothesis, McuList.putBlocks_comps, List.append_assoc,
        List.flatMap_cons]

theorem mcuList_counted : (mcuList f compList).Counted := by
  unfold mcuList
  split
  · exact ⟨rfl, rfl⟩
  · exact McuList.Counted.putComponents ⟨rfl, rfl⟩

theorem mcuList_comps :
    (mcuList f compList).writes.map Prod.snd = (calcMcuBlockOrder f compList).mcuOrg := by
  rcases compList with none | ⟨c, none | ⟨d, rest⟩⟩
  · rfl
  · rfl
  · exact McuList.putComponents_comps

/-- Ten blocks at most are stored where they belong; the eleventh is stored behind the array. -/
theorem McuList.Counted.bounded_iff (counted : l.Counted) :
    l.Bounded ↔ l.writes.length ≤ JPEG_MAXBLOCKSPERMCU := by
  have places := counted.places
  constructor
  · intro bounded
    by_contra more
    have member : 10 ∈ l.writes.map Prod.fst := by
      rw [places, List.mem_map]
      refine ⟨10, List.mem_range.mpr ?_, rfl⟩
      rw [JPEG_MAXBLOCKSPERMCU] at more
      omega
    obtain ⟨write, isWrite, at_⟩ := List.mem_map.mp member
    have inside := bounded.inside write isWrite
    rw [at_] at inside
    exact absurd inside (by decide)
  · intro few
    rw [JPEG_MAXBLOCKSPERMCU] at few
    constructor
    · intro write isWrite
      have member := List.mem_map_of_mem (f := Prod.fst) isWrite
      rw [places, List.mem_map] at member
      obtain ⟨place, inRange, same⟩ := member
      have less := List.mem_range.mp inRange
      rw [JPEG_MAXBLOCKSPERMCU]
      omega
    · rw [counted.count]
      omega

theorem length_mcuList (several : compList.length ≠ 1) :
    (mcuList f compList).writes.length = (compList.map (numBlocks f)).sum := by
  have comps := congrArg List.length (@mcuList_comps f compList)
  rw [List.length_map] at comps
  rw [comps]
  rcases compList with none | ⟨c, none | ⟨d, rest⟩⟩
  · rfl
  · exact absurd rfl several
  · rw [calcMcuBlockOrder]
    simp only [List.length_flatMap, List.length_replicate]
    rfl
    intro c same
    cases same

end Lists

section Fits

variable {f : Frame} {layout : Layout} {compList : List Nat}

/-- A scan of one component; or the component of a frame named so often that its blocks are ten
at most; or, in a frame of three, at most two blocks of the first component or at most two names
of it. -/
def ScanFits (f : Frame) (compList : List Nat) : Prop :=
  compList.length = 1 ∨
    f.compsInFrame = 1 ∧ compList.length * (f.hSamp 0 * f.vSamp 0) ≤ JPEG_MAXBLOCKSPERMCU ∨
      f.compsInFrame = 3 ∧ (f.hSamp 0 * f.vSamp 0 ≤ 2 ∨ compList.count 0 ≤ 2)

theorem sum_numBlocks_single (all : ∀ c ∈ compList, c = 0) (small : f.hSamp 0 * f.vSamp 0 < 2 ^ 8) :
    (compList.map (numBlocks f)).sum = compList.length * (f.hSamp 0 * f.vSamp 0) := by
  have same : compList.map (numBlocks f) =
      List.replicate compList.length (f.hSamp 0 * f.vSamp 0) := by
    rw [List.eq_replicate_iff, List.length_map]
    refine ⟨rfl, ?_⟩
    intro blocks member
    obtain ⟨c, inList, rfl⟩ := List.mem_map.mp member
    rw [all c inList, numBlocks, Nat.mod_eq_of_lt small]
  rw [same, List.sum_replicate, smul_eq_mul]

/-- The blocks of a scan of a frame with three components, all but the first of one block. -/
theorem sum_numBlocks_three (inFrame : ∀ c ∈ compList, c < 3)
    (chroma : numBlocks f 1 = 1 ∧ numBlocks f 2 = 1) :
    (compList.map (numBlocks f)).sum + compList.count 0 =
      compList.length + compList.count 0 * numBlocks f 0 := by
  induction compList with
  | nil => simp
  | cons c rest inductionHypothesis =>
      have here := inFrame c List.mem_cons_self
      have later := inductionHypothesis fun c member => inFrame c (List.mem_cons_of_mem _ member)
      have cases_ : c = 0 ∨ c = 1 ∨ c = 2 := by omega
      rcases cases_ with rfl | rfl | rfl
      · rw [List.map_cons, List.sum_cons, List.count_cons_self, List.length_cons, Nat.add_mul]
        omega
      · rw [List.map_cons, List.sum_cons, List.count_cons_of_ne (by decide), List.length_cons,
          chroma.1]
        omega
      · rw [List.map_cons, List.sum_cons, List.count_cons_of_ne (by decide), List.length_cons,
          chroma.2]
        omega

theorem luma_blocks (accepted : initFrame f = .ok layout) (three : f.compsInFrame = 3) :
    f.hSamp 0 * f.vSamp 0 = 1 ∨ f.hSamp 0 * f.vSamp 0 = 2 ∨ f.hSamp 0 * f.vSamp 0 = 4 := by
  have types := (initFrame_spec accepted).1
  rcases shape_of_initFrame accepted with ⟨comps, -, -⟩ | ⟨-, -, -, ⟨h, v⟩, hChroma, vChroma⟩
  · omega
  · rcases h with h | h | h <;> rcases v with v | v <;> rw [h, v] <;> try decide
    simp [scanTypeOf, three, h, v, hChroma, vChroma] at types

theorem bounded_iff_scanFits (accepted : initFrame f = .ok layout)
    (factors : ∀ c < f.compsInFrame, f.hSamp c < 2 ^ 4 ∧ f.vSamp c < 2 ^ 4)
    (some : 1 ≤ compList.length) (few : compList.length ≤ 4)
    (inFrame : ∀ c ∈ compList, c < f.compsInFrame) :
    (mcuList f compList).Bounded ↔ ScanFits f compList := by
  rw [mcuList_counted.bounded_iff, ScanFits, JPEG_MAXBLOCKSPERMCU]
  by_cases one : compList.length = 1
  · obtain ⟨c, rfl⟩ := List.length_eq_one_iff.mp one
    simp [mcuList]
  rw [length_mcuList one, or_iff_right one]
  rcases shape_of_initFrame accepted with ⟨comps, -, -⟩ | ⟨comps, -, -, luma, hChroma, vChroma⟩
  · obtain ⟨h, v⟩ := factors 0 (by omega)
    have small : f.hSamp 0 * f.vSamp 0 < 2 ^ 8 := by
      calc f.hSamp 0 * f.vSamp 0 < 2 ^ 4 * 2 ^ 4 := Nat.mul_lt_mul'' h v
        _ = 2 ^ 8 := rfl
    rw [sum_numBlocks_single (by
      intro c member
      have := inFrame c member
      omega) small]
    simp [comps]
  · have chroma : numBlocks f 1 = 1 ∧ numBlocks f 2 = 1 := by
      rw [numBlocks, numBlocks, hChroma.1, hChroma.2, vChroma.1, vChroma.2]
      exact ⟨rfl, rfl⟩
    rw [comps] at inFrame
    have sum := sum_numBlocks_three inFrame chroma
    have atMost := @List.count_le_length _ _ 0 compList
    have first : numBlocks f 0 = f.hSamp 0 * f.vSamp 0 := by
      rw [numBlocks]
      have blocks := luma_blocks accepted comps
      omega
    rw [first] at sum
    simp only [comps, OfNat.ofNat_ne_one, false_and, false_or, true_and]
    rcases luma_blocks accepted comps with blocks | blocks | blocks
    all_goals
      rw [blocks] at sum ⊢
      omega

end Fits

end Gp2Firmware.Jpeg.Mcu

namespace Gp2Firmware.Jpeg.Decoder

open Gp2Firmware.Lib (Ensures ensures_pure ensures_modify ensures_modify_bind ensures_get_bind)
open Gp2Firmware.Lib.WordMemory Gp2Firmware.Jpeg.BitReader Gp2Firmware.Jpeg.Mcu

section Headers

variable {machine : Machine} {holds : State → Prop}

/-- What does not depend on the reader. -/
def Unread (holds : State → Prop) : Prop :=
  ∀ s r, holds s → holds { s with reader := r }

theorem ensures_reading {α : Type} {read : Reader → α × Reader} (unread : Unread holds) :
    Ensures holds (reading read) fun _ => holds := by
  intro s a t here ran
  obtain ⟨-, rfl⟩ := Prod.mk.inj (Option.some.inj ran)
  exact unread s _ here

theorem ensures_getChar (unread : Unread holds) :
    Ensures holds (getChar machine) fun _ => holds :=
  ensures_reading unread

theorem ensures_getShort (unread : Unread holds) :
    Ensures holds (getShort machine) fun _ => holds :=
  (ensures_getChar unread).bind fun _ =>
    (ensures_getChar unread).bind fun _ => ensures_pure fun _ here => here

theorem ensures_fail {status : JpegError} {after : State → Prop} :
    Ensures holds (fail machine status) fun ok t => ok = true → after t := by
  intro s ok t _ ran done
  subst done
  exact absurd ran not_fail

theorem ensures_forEach {part : Nat → Program State Unit} (upTo : Nat → State → Prop)
    (step : ∀ i, Ensures (upTo i) (part i) fun _ => upTo (i + 1)) {i count : Nat} :
    Ensures (upTo i) (forEach part i count) fun _ => upTo (i + count) := by
  induction count generalizing i with
  | zero => exact ensures_pure fun _ here => here
  | succ count inductionHypothesis =>
      refine (step i).bind ?_
      intro _
      rw [Nat.add_comm count 1, ← Nat.add_assoc]
      exact inductionHypothesis

theorem ensures_forEachOk {part : Nat → Program State Bool} (upTo : Nat → State → Prop)
    (step : ∀ i, Ensures (upTo i) (part i) fun ok t => ok = true → upTo (i + 1) t)
    {i count : Nat} :
    Ensures (upTo i) (forEachOk part i count) fun ok t => ok = true → upTo (i + count) t := by
  induction count generalizing i with
  | zero => exact ensures_pure fun _ here _ => here
  | succ count inductionHypothesis =>
      refine (step i).bind ?_
      intro ok
      cases ok with
      | false => exact ensures_pure fun _ _ impossible => absurd impossible Bool.false_ne_true
      | true =>
          rw [if_pos rfl, Nat.add_comm count 1, ← Nat.add_assoc]
          intro s ok t here
          exact inductionHypothesis s ok t (here rfl)

/-- The factors of the components below a number are half bytes. -/
def FactorsUpTo (comps i : Nat) (s : State) : Prop :=
  s.frame.compsInFrame = comps ∧ ∀ c < i, s.frame.hSamp c < 2 ^ 4 ∧ s.frame.vSamp c < 2 ^ 4

theorem ensures_readSofComponent {comps i : Nat} :
    Ensures (FactorsUpTo comps i) (readSofComponent machine i) fun _ =>
      FactorsUpTo comps (i + 1) := by
  have unread : Unread (FactorsUpTo comps i) := fun _ _ here => here
  refine (ensures_getChar unread).bind ?_
  intro ident
  refine ensures_modify_bind (FactorsUpTo comps i) (fun _ here => here) ?_
  refine (ensures_getChar unread).bind ?_
  intro tmp
  refine (ensures_getChar unread).bind ?_
  intro quant
  refine ensures_modify ?_
  intro s here
  refine ⟨here.1, ?_⟩
  intro c below
  have byte := tmp.isLt
  dsimp only
  by_cases same : c = i
  · rw [same, Function.update_self, Function.update_self]
    omega
  · rw [Function.update_of_ne same, Function.update_of_ne same]
    exact here.2 c (by omega)

theorem ensures_readSofMarker :
    Ensures (fun _ => True) (readSofMarker machine) fun ok t =>
      ok = true → FactorsUpTo t.frame.compsInFrame t.frame.compsInFrame t := by
  have unread : Unread fun _ => True := fun _ _ _ => trivial
  refine (ensures_getShort unread).bind ?_
  intro left
  refine (ensures_getChar unread).bind ?_
  intro precision
  refine ensures_modify_bind (fun _ => True) (fun _ _ => trivial) ?_
  refine Ensures.ite (fun _ => ensures_fail) ?_
  intro _
  refine (ensures_getShort unread).bind ?_
  intro height
  refine ensures_modify_bind (fun _ => True) (fun _ _ => trivial) ?_
  refine Ensures.ite (fun _ => ensures_fail) ?_
  intro _
  refine (ensures_getShort unread).bind ?_
  intro width
  refine ensures_modify_bind (fun _ => True) (fun _ _ => trivial) ?_
  refine Ensures.ite (fun _ => ensures_fail) ?_
  intro _
  refine (ensures_getChar unread).bind ?_
  intro comps
  refine ensures_modify_bind (FactorsUpTo comps.toNat 0) (fun s _ =>
    ⟨rfl, fun c below => absurd below (Nat.not_lt_zero c)⟩) ?_
  refine Ensures.ite (fun _ => ensures_fail) ?_
  intro _
  refine Ensures.ite (fun _ => ensures_fail) ?_
  intro _
  refine (ensures_forEach (FactorsUpTo comps.toNat) fun _ => ensures_readSofComponent).bind ?_
  intro _
  refine ensures_pure ?_
  intro s here _
  rw [Nat.zero_add] at here
  rw [here.1]
  exact here

/-- The first components that a scan names are components of the frame. -/
structure NamedUpTo (f : Frame) (n i : Nat) (s : State) : Prop where
  frame : s.frame = f
  compsInScan : s.compsInScan = n
  inFrame : ∀ j < i, s.compList j < f.compsInFrame

theorem ensures_readSosComponent {f : Frame} {n i : Nat} :
    Ensures (NamedUpTo f n i) (readSosComponent machine i) fun ok t =>
      ok = true → NamedUpTo f n (i + 1) t := by
  have unread : Unread (NamedUpTo f n i) := fun _ _ here => ⟨here.frame, here.compsInScan,
    here.inFrame⟩
  refine (ensures_getChar unread).bind ?_
  intro cc
  refine (ensures_getChar unread).bind ?_
  intro c
  refine ensures_get_bind ?_
  intro s here
  cases found : (List.range s.frame.compsInFrame).find? fun ci => s.compIdent ci = cc.toNat with
  | none => exact ensures_fail
  | some ci =>
      have below := List.mem_range.mp (List.mem_of_find?_eq_some found)
      rw [here.frame] at below
      refine ensures_modify_bind (NamedUpTo f n (i + 1)) ?_ (ensures_pure fun _ named _ => named)
      intro t same
      subst same
      refine ⟨here.frame, here.compsInScan, ?_⟩
      intro j upTo
      dsimp only
      by_cases last : j = i
      · rw [last, Function.update_self]
        exact below
      · rw [Function.update_of_ne last]
        exact here.inFrame j (by omega)

theorem ensures_readSosParameters {f : Frame} {n : Nat} {left : U32} :
    Ensures (NamedUpTo f n n) (readSosParameters machine left) fun _ => NamedUpTo f n n := by
  have unread : Unread (NamedUpTo f n n) := fun _ _ here => ⟨here.frame, here.compsInScan,
    here.inFrame⟩
  refine (ensures_getChar unread).bind ?_
  intro spectralStart
  refine (ensures_getChar unread).bind ?_
  intro spectralEnd
  refine (ensures_getChar unread).bind ?_
  intro tmp
  refine ensures_modify_bind (NamedUpTo f n n)
    (fun _ here => ⟨here.frame, here.compsInScan, here.inFrame⟩) ?_
  refine Ensures.bind (ensures_reading unread) ?_
  intro _
  exact ensures_pure fun _ here => here

theorem ensures_readSosMarker {f : Frame} :
    Ensures (fun s => s.frame = f) (readSosMarker machine) fun ok t => ok = true →
      (1 ≤ t.compsInScan ∧ t.compsInScan ≤ JPEG_MAXCOMPSINSCAN) ∧
        NamedUpTo f t.compsInScan t.compsInScan t := by
  have unread : Unread fun s => s.frame = f := fun _ _ here => here
  refine (ensures_getShort unread).bind ?_
  intro length
  refine (ensures_getChar unread).bind ?_
  intro n
  refine ensures_modify_bind (NamedUpTo f n.toNat 0)
    (fun _ here => ⟨here, rfl, fun j below => absurd below (Nat.not_lt_zero j)⟩) ?_
  refine Ensures.ite (fun _ => ensures_fail) ?_
  intro checked
  refine (ensures_forEachOk (NamedUpTo f n.toNat) fun _ => ensures_readSosComponent).bind ?_
  intro ok
  cases ok with
  | false => exact ensures_pure fun _ _ impossible => absurd impossible Bool.false_ne_true
  | true =>
      intro s ok t here ran _
      have named := here rfl
      rw [Nat.zero_add] at named
      have after := ensures_readSosParameters s ok t named ran
      rw [after.compsInScan]
      exact ⟨by omega, after⟩

end Headers

section Claim

/-- All blocks of an MCU are stored inside of `_u8Mcu_org` if and only if the scan fits to the
frame. -/
theorem mcuOrg_bounded_iff (machine : Machine) (s sof framed before sos : State)
    (sofRead : readSofMarker machine s = some (true, sof))
    (accepted : initFrame machine sof = some (true, framed))
    (between : before.frame = framed.frame)
    (sosRead : readSosMarker machine before = some (true, sos)) :
    (mcuList sos.frame sos.scanComps).Bounded ↔ ScanFits sos.frame sos.scanComps := by
  have factors := ensures_readSofMarker s true sof trivial sofRead rfl
  obtain ⟨layout, fits⟩ : ∃ layout, Mcu.initFrame sof.frame = .ok layout := by
    have entered : enterFrame machine (Mcu.initFrame sof.frame) sof = some (true, framed) :=
      accepted
    cases result : Mcu.initFrame sof.frame with
    | error error =>
        rw [result] at entered
        exact absurd entered not_fail
    | ok layout => exact ⟨layout, rfl⟩
  have framedFrame := (enterFrame_same accepted).2
  obtain ⟨⟨some, few⟩, named⟩ := ensures_readSosMarker before true sos rfl sosRead rfl
  have frame : sos.frame = sof.frame := by
    rw [named.frame, between, framedFrame]
  have inFrame := named.inFrame
  rw [between, framedFrame] at inFrame
  rw [frame]
  apply bounded_iff_scanFits fits factors.2
  · simpa [State.scanComps] using some
  · simpa [State.scanComps, JPEG_MAXCOMPSINSCAN] using few
  · intro c member
    obtain ⟨j, inRange, rfl⟩ := List.mem_map.mp member
    exact inFrame j (List.mem_range.mp inRange)

/-- The frame header, and the header of the first scan. -/
def readHeaders (machine : Machine) : Program State Bool := do
  if ← readSofMarker machine then
    if ← initFrame machine then
      readSosMarker machine
    else
      pure false
  else
    pure false

theorem both_of_true {first second : Program State Bool} {s t : State}
    (ran : (do if ← first then second else pure false : Program State Bool) s = some (true, t)) :
    ∃ u, first s = some (true, u) ∧ second u = some (true, t) := by
  obtain ⟨⟨ok, u⟩, ranFirst, later⟩ := Option.bind_eq_some_iff.mp ran
  cases ok with
  | false => cases later
  | true => exact ⟨u, ranFirst, later⟩

theorem readHeaders_true {machine : Machine} {s t : State}
    (ran : readHeaders machine s = some (true, t)) :
    ∃ sof framed, readSofMarker machine s = some (true, sof) ∧
      initFrame machine sof = some (true, framed) ∧
      readSosMarker machine framed = some (true, t) := by
  obtain ⟨sof, sofRead, later⟩ := both_of_true ran
  obtain ⟨framed, accepted, last⟩ := both_of_true later
  exact ⟨sof, framed, sofRead, accepted, last⟩

/-- A frame of 64 by 64 pixels whose first component has four blocks, and a scan header. -/
def headersOf (scan : List U8) : State :=
  State.start (sampleReader ([0x00, 0x11, 0x08, 0x00, 0x40, 0x00, 0x40, 0x03, 0x01, 0x22, 0x00,
    0x02, 0x11, 0x01, 0x03, 0x11, 0x01] ++ scan))

end Claim

section Samples

theorem mcuOrg_bounded_three : ∃ t,
    readHeaders sampleMachine (headersOf [0x00, 0x0C, 0x03, 0x01, 0x00, 0x02, 0x11, 0x03, 0x11,
      0x00, 0x3F, 0x00]) = some (true, t) ∧ (mcuList t.frame t.scanComps).Bounded := by
  have ran : (readHeaders sampleMachine (headersOf [0x00, 0x0C, 0x03, 0x01, 0x00, 0x02, 0x11,
      0x03, 0x11, 0x00, 0x3F, 0x00])).map (fun result => (result.1,
        result.2.frame.compsInFrame, result.2.scanComps)) = some (true, 3, [0, 1, 2]) := by
    decide +kernel
  obtain ⟨⟨ok, t⟩, returns, result⟩ := Option.map_eq_some_iff.mp ran
  obtain ⟨rfl, values⟩ := Prod.mk.inj result
  obtain ⟨comps, named⟩ := Prod.mk.inj values
  dsimp only at returns comps named
  obtain ⟨sof, framed, sofRead, accepted, sosRead⟩ := readHeaders_true returns
  refine ⟨t, returns, (mcuOrg_bounded_iff sampleMachine _ sof framed framed t sofRead accepted rfl
    sosRead).mpr ?_⟩
  rw [named]
  exact .inr (.inr ⟨comps, .inr (by decide)⟩)

/-- The first component is named four times: sixteen blocks. -/
theorem mcuOrg_not_always_bounded :
    ¬ ∀ (machine : Machine) (s sof framed before sos : State),
      readSofMarker machine s = some (true, sof) → initFrame machine sof = some (true, framed) →
      before.frame = framed.frame → readSosMarker machine before = some (true, sos) →
      (mcuList sos.frame sos.scanComps).Bounded := by
  intro always
  have ran : (readHeaders sampleMachine (headersOf [0x00, 0x0E, 0x04, 0x01, 0x00, 0x01, 0x00,
      0x01, 0x00, 0x01, 0x00, 0x00, 0x3F, 0x00])).map (fun result => (result.1,
        (mcuList result.2.frame result.2.scanComps).writes.map Prod.fst)) =
          some (true, List.range 16) := by
    decide +kernel
  obtain ⟨⟨ok, t⟩, returns, result⟩ := Option.map_eq_some_iff.mp ran
  obtain ⟨rfl, places⟩ := Prod.mk.inj result
  dsimp only at returns places
  obtain ⟨sof, framed, sofRead, accepted, sosRead⟩ := readHeaders_true returns
  have bounded := always sampleMachine _ sof framed framed t sofRead accepted rfl sosRead
  have eleventh : 10 ∈ (mcuList t.frame t.scanComps).writes.map Prod.fst := by
    rw [places]
    decide
  obtain ⟨write, isWrite, at_⟩ := List.mem_map.mp eleventh
  have inside := bounded.inside write isWrite
  rw [at_] at inside
  exact absurd inside (by decide)

end Samples

end Gp2Firmware.Jpeg.Decoder
