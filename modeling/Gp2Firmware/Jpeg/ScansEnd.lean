import Gp2Firmware.Jpeg.HeaderEnds
import Gp2Firmware.Jpeg.HeaderKept
import Gp2Firmware.Jpeg.McuBound
import Gp2Firmware.Jpeg.ScanTables

/-!
# The end of the scans

Each header of a scan is read from what the stream still has, and the blocks behind it put no
more back than was taken.  So the loop over the scans ends, unless the tables for one of them
leave their places.
-/

namespace Gp2Firmware.Jpeg.Decoder

open Gp2Firmware.Lib (Achieves achieves_pure achieves_modify achieves_get_bind run_get_bind)
open Gp2Firmware.Lib.WordMemory Gp2Firmware.Jpeg.BitReader Gp2Firmware.Jpeg.HuffmanTable
  Gp2Firmware.Jpeg.Mcu

section Restarts

variable {machine : Machine} {s v : State} {count : Nat}

theorem scans_seekFF : Scans machine s v (seekFF machine count) := by
  induction count with
  | zero => exact scans_pure
  | succ count inductionHypothesis =>
      apply scans_getChar.bind
      intro c
      exact Achieves.ite (fun _ => scans_pure) fun _ => inductionHypothesis

theorem scans_passFF : Scans machine s v (passFF machine count) := by
  induction count with
  | zero => exact scans_pure
  | succ count inductionHypothesis =>
      apply scans_getChar.bind
      intro c
      exact Achieves.ite (fun _ => scans_pure) fun _ => inductionHypothesis

/-- Behind a restart marker the bits begin anew. -/
theorem scans_restart : Scans machine s v (modify (restart machine)) := by
  apply achieves_modify
  intro t scanning
  have primed := scanning.takes Takes.start.prime
  obtain ⟨n, reads⟩ := primed.reads
  exact ⟨⟨n, reads.changes ⟨rfl, rfl, rfl, rfl, rfl, rfl⟩⟩, primed.huffTbls, primed.compDcTab,
    primed.compAcTab, primed.spectralEnd⟩

theorem scans_countMcu : Scans machine s v countMcu :=
  scans_modify (fun _ => ⟨rfl, rfl, rfl, rfl, rfl, rfl⟩) fun _ => ⟨rfl, rfl, rfl, rfl⟩

variable (intact : Intact machine s)

include intact

theorem scans_processRestart : Scans machine s v (processRestart machine) := by
  apply scans_seekFF.bind
  intro i
  apply scans_passFF.bind
  intro found
  cases found with
  | none => exact scans_fail intact
  | some c =>
      apply scans_get_bind
      intro t _
      refine Achieves.ite (fun _ => scans_fail intact) ?_
      exact fun _ => scans_restart.bind fun _ => scans_pure

theorem scans_restartIfDue : Scans machine s v (restartIfDue machine) := by
  apply scans_get_bind
  intro t _
  exact Achieves.ite (fun _ => scans_processRestart intact) fun _ => scans_pure

end Restarts

section Rows

variable {machine : Machine} {s v : State} {f : Frame} {compsInScan : Nat}
  {decodeBlock : Nat → Nat → Nat → Program State Bool} {restart : Program State Bool}
  {counted : Program State Unit} {blockYMcu : Nat → Nat} {mcuOrg : List Nat}

theorem scans_scanMcu {cursor : Cursor}
    (blocks : ∀ c ∈ mcuOrg, ∀ x y, Scans machine s v (decodeBlock c x y)) :
    Scans machine s v (scanMcu f compsInScan decodeBlock blockYMcu mcuOrg cursor) := by
  induction mcuOrg generalizing cursor with
  | nil => exact scans_pure
  | cons c mcuOrg inductionHypothesis =>
      apply (blocks c (List.mem_cons_self ..) _ _).bind
      intro ok
      refine Achieves.ite ?_ (fun _ => scans_pure)
      exact fun _ => inductionHypothesis fun d listed => blocks d (List.mem_cons_of_mem c listed)

variable (restarts : Scans machine s v restart) (counts : Scans machine s v counted)

include restarts counts

theorem scans_scanRow {mcus : Nat} {blockXMcu : Nat → Nat}
    (blocks : ∀ c ∈ mcuOrg, ∀ x y, Scans machine s v (decodeBlock c x y)) :
    Scans machine s v (scanRow f compsInScan restart counted decodeBlock mcuOrg blockYMcu mcus
      blockXMcu) := by
  induction mcus generalizing blockXMcu with
  | zero => exact scans_pure
  | succ mcus inductionHypothesis =>
      apply restarts.bind
      intro ok
      refine Achieves.ite ?_ (fun _ => scans_pure)
      intro _
      apply (scans_scanMcu blocks).bind
      intro cursor
      cases cursor with
      | none => exact scans_pure
      | some cursor => exact counts.bind fun _ => inductionHypothesis

theorem scans_scanRows {order : McuOrder} {compList : List Nat} {rows : Nat}
    (blocks : ∀ c ∈ order.mcuOrg, ∀ x y, Scans machine s v (decodeBlock c x y)) :
    Scans machine s v (scanRows f compsInScan restart counted decodeBlock order compList rows
      blockYMcu) := by
  induction rows generalizing blockYMcu with
  | zero => exact scans_pure
  | succ rows inductionHypothesis =>
      apply (scans_scanRow restarts counts blocks).bind
      intro ok
      exact Achieves.ite (fun _ => inductionHypothesis) fun _ => scans_pure

end Rows

section Scan

variable {machine : Machine} {v : State}

/-- A scan whose components are open, and whose tables have been made. -/
structure Decodable (v : State) : Prop where
  dcOpen : ∀ c ∈ v.order.mcuOrg, v.dcCoeffs c ≠ 0
  acOpen : ∀ c ∈ v.order.mcuOrg, v.acCoeffs c ≠ 0
  dcMade : v.spectralStart = 0 → ∀ c ∈ v.order.mcuOrg, Made v (v.compDcTab c)
  acMade : 0 < v.spectralEnd → ∀ c ∈ v.order.mcuOrg, Made v (v.compAcTab c)

variable (intact : Intact machine v) (decodable : Decodable v)

include intact decodable

theorem scans_decodeBlockFunc (checked : checkSpectral v = none) {c : Nat}
    (listed : c ∈ v.order.mcuOrg) {x y : Nat} :
    Scans machine v v (decodeBlockFunc machine v c x y) := by
  have parameters : v.spectralStart ≤ v.spectralEnd ∧ v.spectralEnd ≤ 63 := by
    rw [checkSpectral] at checked
    split at checked
    · cases checked
    · omega
  rw [decodeBlockFunc]
  split
  · rename_i dc
    split
    · exact scans_decodeBlockDcRefine intact (decodable.dcOpen c listed)
    · exact scans_decodeBlockDcFirst intact (decodable.dcOpen c listed)
        (decodable.dcMade dc c listed)
  · have made := decodable.acMade (by omega) c listed
    split
    · exact scans_decodeBlockAcRefine intact (decodable.acOpen c listed) parameters.2 made
    · exact scans_decodeBlockAcFirst intact (decodable.acOpen c listed) made

/-- A scan ends, and takes its part of the stream. -/
theorem decodeNextScan_ends :
    ∃ ok t, decodeNextScan machine v = some (ok, t) ∧ ∃ n, Reads machine v n t := by
  have start : Scanning machine v v v := ⟨⟨0, .start⟩, rfl, rfl, rfl, rfl⟩
  have ends : ∀ {m : Program State Bool}, Scans machine v v m →
      ∃ ok t, m v = some (ok, t) ∧ ∃ n, Reads machine v n t := by
    intro m scans
    obtain ⟨ok, t, ran, scanning⟩ := scans v start
    exact ⟨ok, t, ran, scanning.reads⟩
  rw [decodeNextScan, run_get_bind]
  cases checked : checkSpectral v with
  | some status => exact ends (scans_fail intact)
  | none =>
      have blocks : ∀ c ∈ v.order.mcuOrg, ∀ x y,
          Scans machine v v (decodeBlockFunc machine v c x y) :=
        fun c listed x y => scans_decodeBlockFunc intact decodable checked listed
      have scan : Scans machine v v (Mcu.decodeScan v.frame v.order v.scanComps
          (restartIfDue machine) countMcu (decodeBlockFunc machine v)) :=
        scans_scanRows (scans_restartIfDue intact) scans_countMcu blocks
      obtain ⟨ok, t, ran, reads⟩ := ends scan
      exact ⟨ok, t, ran, reads⟩

end Scan

section Header

variable {machine : Machine} {s t : State} {n count i : Nat}

/-- The header of a scan is read without a change to whether the image is progressive. -/
structure Heads (machine : Machine) (s t : State) : Prop where
  reads : ∃ n, Reads machine s n t
  progressive : t.progressiveFlag = s.progressiveFlag

theorem Heads.takes {r : Reader} (heads : Heads machine s t)
    (takes : Takes machine.wait t.reader count r) : Heads machine s { t with reader := r } := by
  obtain ⟨n, reads⟩ := heads.reads
  exact ⟨⟨n + count, reads.takes takes⟩, heads.progressive⟩

theorem heads_getChar :
    Achieves (Heads machine s) (getChar machine) fun _ => Heads machine s :=
  fun _ heads => ⟨_, _, rfl, heads.takes Takes.start.char⟩

theorem heads_modify {change : State → State} (same : ∀ t, SameStream t (change t))
    (progressive : ∀ t, (change t).progressiveFlag = t.progressiveFlag) :
    Achieves (Heads machine s) (modify change) fun _ => Heads machine s := by
  apply achieves_modify
  intro t heads
  obtain ⟨n, reads⟩ := heads.reads
  exact ⟨⟨n, reads.changes (same t)⟩, (progressive t).trans heads.progressive⟩

theorem heads_skip :
    Achieves (Heads machine s) (skip machine count) fun _ => Heads machine s :=
  fun _ heads => ⟨_, _, rfl, heads.takes takes_skipBytes⟩

theorem heads_pure {ok : Bool} :
    Achieves (Heads machine s) (pure ok) fun _ => Heads machine s :=
  achieves_pure fun _ heads => heads

theorem heads_readSosParameters {left : U32} :
    Achieves (Heads machine s) (readSosParameters machine left) fun _ => Heads machine s := by
  refine heads_getChar.bind ?_
  intro spectralStart
  refine heads_getChar.bind ?_
  intro spectralEnd
  refine heads_getChar.bind ?_
  intro tmp
  refine Achieves.bind (heads_modify (fun _ => ⟨rfl, rfl, rfl, rfl, rfl, rfl⟩) fun _ => rfl) ?_
  intro _
  exact heads_skip.bind fun _ => heads_pure

variable (intact : Intact machine s)

include intact

theorem heads_fail {status : JpegError} :
    Achieves (Heads machine s) (fail machine status) fun _ => Heads machine s := by
  intro t heads
  obtain ⟨n, reads⟩ := heads.reads
  obtain ⟨u, handled, readsThen⟩ := intact.terminate reads status
  have only := onlyPool_of_terminate handled
  rw [OnlyPool] at only
  refine ⟨false, u, ?_, ⟨n, readsThen⟩, ?_⟩
  · change (terminate machine status t).bind _ = _
    rw [handled]
    rfl
  · rw [only]
    exact heads.progressive

theorem heads_readSosComponent :
    Achieves (Heads machine s) (readSosComponent machine i) fun _ => Heads machine s := by
  refine heads_getChar.bind ?_
  intro cc
  refine heads_getChar.bind ?_
  intro c
  apply achieves_get_bind
  intro t heads
  apply Achieves.at heads
  cases (List.range t.frame.compsInFrame).find? fun ci => t.compIdent ci = cc.toNat with
  | none => exact heads_fail intact
  | some ci =>
      refine Achieves.bind (heads_modify (fun _ => ⟨rfl, rfl, rfl, rfl, rfl, rfl⟩) fun _ => rfl) ?_
      exact fun _ => heads_pure

theorem heads_readSosComponents :
    Achieves (Heads machine s) (forEachOk (readSosComponent machine) i count) fun _ =>
      Heads machine s := by
  induction count generalizing i with
  | zero => exact heads_pure
  | succ count inductionHypothesis =>
      refine (heads_readSosComponent intact).bind ?_
      intro ok
      exact Achieves.ite (fun _ => inductionHypothesis) fun _ => heads_pure

theorem heads_readSosMarker :
    Achieves (Heads machine s) (readSosMarker machine) fun _ => Heads machine s := by
  have short : Achieves (Heads machine s) (getShort machine) fun _ => Heads machine s := by
    refine heads_getChar.bind ?_
    intro high
    refine heads_getChar.bind ?_
    intro low
    exact achieves_pure fun _ heads => heads
  refine short.bind ?_
  intro length
  refine heads_getChar.bind ?_
  intro comps
  refine Achieves.bind (heads_modify (fun _ => ⟨rfl, rfl, rfl, rfl, rfl, rfl⟩) fun _ => rfl) ?_
  intro _
  refine Achieves.ite (fun _ => heads_fail intact) ?_
  intro _
  refine (heads_readSosComponents intact).bind ?_
  intro ok
  exact Achieves.ite (fun _ => heads_readSosParameters) fun _ => heads_pure

end Header

section Loop

variable {machine : Machine} {left : Reader → Nat} {s t u v : State} {turns : Nat}

theorem mem_mcuOrg {f : Frame} {compList : List Nat} {c : Nat}
    (listed : c ∈ (Mcu.calcMcuBlockOrder f compList).mcuOrg) : c ∈ compList := by
  match compList with
  | [] => exact listed
  | [d] => exact listed
  | first :: second :: rest =>
      obtain ⟨d, member, repeated⟩ := List.mem_flatMap.mp listed
      rw [List.eq_of_mem_replicate repeated]
      exact member

/-- A scan behind another one. -/
def NextScan (machine : Machine) (s t : State) : Prop :=
  ∃ u, initScan machine s = some (true, u) ∧ decodeNextScan machine u = some (true, t)

/-- A header of a scan, which is read out of the stream. -/
structure ScanHeader (left : Reader → Nat) (machine : Machine) (s u : State) : Prop where
  heads : Heads machine s u
  comps : u.frame.compsInFrame = s.frame.compsInFrame
  inFrame : ∀ i < u.compsInScan, u.compList i < s.frame.compsInFrame
  less : remaining left u.reader < remaining left s.reader

variable (finite : FiniteStream machine.wait left)

include finite

/-- A header of a scan is found, or the image ends, or an error is found. -/
theorem locateSosMarker_ends (ready : Ready s) (intact : Intact machine s)
    (enough : remaining left s.reader + 3 ≤ machine.turns) :
    ∃ ok u, locateSosMarker machine s = some (ok, u) ∧ Heads machine s u ∧
      (ok = true → ScanHeader left machine s u) := by
  obtain ⟨found, t, markers, reads, returned, -⟩ := @processMarkers_ends _ _ machine.turns _ finite
    ready intact enough (by omega)
  have header := header_eq sameHeader_processMarkers markers
  have progressive : t.progressiveFlag = s.progressiveFlag :=
    congrArg Header.progressiveFlag header
  have heads : Heads machine s t := ⟨⟨_, reads⟩, progressive⟩
  cases found with
  | none =>
      have located : locateSosMarker machine s = some (false, t) := by
        change (processMarkers machine machine.turns s).bind _ = _
        rw [markers]
        rfl
      exact ⟨false, t, located, heads, fun impossible => absurd impossible Bool.false_ne_true⟩
  | some c =>
      have located : locateSosMarker machine s = (if c = M_EOI then pure false
          else if c ≠ M_SOS then fail machine .unexpectedMarker
          else readSosMarker machine : Program State Bool) t := by
        change (processMarkers machine machine.turns s).bind _ = _
        rw [markers]
        rfl
      rw [located]
      split
      · exact ⟨false, t, rfl, heads, fun impossible => absurd impossible Bool.false_ne_true⟩
      rename_i notEoi
      split
      · obtain ⟨ok, u, ran, headsThen⟩ := heads_fail intact t heads
        refine ⟨ok, u, ran, headsThen, ?_⟩
        intro done
        rw [done] at ran
        exact absurd ran not_fail
      · obtain ⟨ok, u, ran, headsThen⟩ := heads_readSosMarker (intact.behind reads) t
          ⟨⟨0, .start⟩, rfl⟩
        obtain ⟨n, readsThen⟩ := headsThen.reads
        have both : Heads machine s u :=
          ⟨⟨_, reads.trans readsThen⟩, headsThen.progressive.trans progressive⟩
        refine ⟨ok, u, ran, both, ?_⟩
        intro done
        rw [done] at ran
        obtain ⟨-, named⟩ := ensures_readSosMarker t true u rfl ran rfl
        have comps : t.frame.compsInFrame = s.frame.compsInFrame :=
          congrArg Header.compsInFrame header
        have inFrame := named.inFrame
        rw [comps] at inFrame
        refine ⟨both, ?_, inFrame, ?_⟩
        · rw [named.frame, comps]
        · have less := (readsThen.spends finite (reads.spends finite ready).ready).less
          obtain ⟨-, isEoi | fewer⟩ := returned c rfl
          · exact absurd isEoi notEoi
          · omega

omit finite in
theorem startScan_eq (progressive : s.progressiveFlag = true) :
    ∃ lastDcVal eobRun restartsLeft nextRestartNum, startScan machine s = { s with
      reader := prime machine.wait s.reader
      lastDcVal := lastDcVal
      eobRun := eobRun
      restartsLeft := restartsLeft
      nextRestartNum := nextRestartNum } := by
  rw [startScan]
  split
  · rw [if_pos (show (noPrediction s).progressiveFlag = true from progressive)]
    exact ⟨_, _, _, _, rfl⟩
  · rw [if_pos (show (noPrediction s).progressiveFlag = true from progressive)]
    exact ⟨_, _, _, _, rfl⟩

/-- The buffers of all components of the frame are open, and the image is progressive. -/
structure Opened (s : State) : Prop where
  progressive : s.progressiveFlag = true
  coeffs : ∀ c < s.frame.compsInFrame, s.dcCoeffs c ≠ 0 ∧ s.acCoeffs c ≠ 0

omit finite in
theorem Opened.behind (opened : Opened s) {n : Nat} (reads : Reads machine s n t)
    (progressive : t.progressiveFlag = s.progressiveFlag)
    (comps : t.frame.compsInFrame = s.frame.compsInFrame) : Opened t := by
  obtain ⟨dc, ac⟩ := reads.coeffs
  refine ⟨progressive.trans opened.progressive, ?_⟩
  rw [comps, dc, ac]
  exact opened.coeffs

omit finite in
/-- What is made for a scan is enough for its components. -/
theorem decodable_of_making (making : Making v JPEG_MAXHUFFTABLES t)
    (valid : ∀ i < v.compsInScan, ComponentValid v i) (inside : ¬ NamesBehind v)
    (order : v.order = Mcu.calcMcuBlockOrder v.frame v.scanComps)
    (opened : ∀ i < v.compsInScan, v.dcCoeffs (v.compList i) ≠ 0 ∧ v.acCoeffs (v.compList i) ≠ 0) :
    Decodable t := by
  have listed : ∀ c ∈ v.order.mcuOrg, ∃ i < v.compsInScan, v.compList i = c := by
    intro c member
    rw [order] at member
    obtain ⟨i, below, same⟩ := List.mem_map.mp (mem_mcuOrg member)
    exact ⟨i, List.mem_range.mp below, same⟩
  have made : ∀ index < JPEG_MAXHUFFTABLES, (v.huffInfo index).valid = true → Made t index :=
    fun index below isValid => (making.made index below isValid).2
  rw [NamesBehind] at inside
  rw [making.only]
  refine ⟨?_, ?_, ?_, ?_⟩
  · intro c member
    obtain ⟨i, below, same⟩ := listed c member
    rw [← same]
    exact (opened i below).1
  · intro c member
    obtain ⟨i, below, same⟩ := listed c member
    rw [← same]
    exact (opened i below).2
  · intro dc c member
    obtain ⟨i, below, same⟩ := listed c member
    rw [← same]
    have isValid := (valid i below).1 dc
    refine made _ ?_ isValid
    by_contra behind
    exact inside ⟨i, below, .inl ⟨dc, not_lt.mp behind, isValid⟩⟩
  · intro ac c member
    obtain ⟨i, below, same⟩ := listed c member
    rw [← same]
    have isValid := (valid i below).2 ac
    refine made _ ?_ isValid
    by_contra behind
    exact inside ⟨i, below, .inr ⟨ac, not_lt.mp behind, isValid⟩⟩

/-- A scan that can be decoded is in front of the blocks, or there is none. -/
theorem initScan_ends (ready : Ready s) (intact : Intact machine s)
    (enough : remaining left s.reader + 3 ≤ machine.turns) (opened : Opened s)
    (inside : ∀ v, locateSosMarker machine s = some (true, v) → ¬ LeavesTree v ∧ ¬ NamesBehind v) :
    ∃ ok u, initScan machine s = some (ok, u) ∧ (∃ n, Reads machine s n u) ∧
      (ok = true → Opened u ∧ Decodable u ∧ remaining left u.reader < remaining left s.reader) := by
  obtain ⟨located, v, locates, heads, header⟩ := locateSosMarker_ends finite ready intact enough
  obtain ⟨n, reads⟩ := heads.reads
  cases located with
  | false =>
      have none : initScan machine s = some (false, v) := by
        change (locateSosMarker machine s).bind _ = _
        rw [locates]
        rfl
      exact ⟨false, v, none, ⟨n, reads⟩, fun impossible => absurd impossible Bool.false_ne_true⟩
  | true =>
      obtain ⟨stays, before⟩ := inside v locates
      have header := header rfl
      have ordered : Reads machine s n
          { v with order := Mcu.calcMcuBlockOrder v.frame v.scanComps } :=
        reads.changes ⟨rfl, rfl, rfl, rfl, rfl, rfl⟩
      have progressive : v.progressiveFlag = true := heads.progressive.trans opened.progressive
      have behind : initScan machine s = (do
          if ← checkTables machine then
            modify (startScan machine)
            pure true
          else
            pure false : Program State Bool)
          { v with order := Mcu.calcMcuBlockOrder v.frame v.scanComps } := by
        change (locateSosMarker machine s).bind _ = _
        rw [locates]
        rfl
      obtain ⟨ok, w, checks, passes, more, readsThen⟩ := achieves_checkTables
        (intact.behind ordered) progressive stays _ rfl
      have both := ordered.trans readsThen
      rw [behind]
      cases ok with
      | false =>
          refine ⟨false, w, ?_, ⟨_, both⟩, fun impossible => absurd impossible Bool.false_ne_true⟩
          change (checkTables machine _).bind _ = _
          rw [checks]
          rfl
      | true =>
          obtain ⟨making, valid⟩ := passes rfl
          have openedBefore : Opened v := opened.behind reads heads.progressive header.comps
          have decodable : Decodable w := by
            refine decodable_of_making making valid before rfl ?_
            intro i below
            apply openedBefore.coeffs
            rw [header.comps]
            exact header.inFrame i below
          have kept : w.progressiveFlag = v.progressiveFlag := making.progressive
          have comps : w.frame = v.frame := by
            rw [making.only]
          have openedThen : Opened w := opened.behind both (kept.trans heads.progressive) (by
            rw [comps, header.comps])
          obtain ⟨lastDcVal, eobRun, restartsLeft, nextRestartNum, started⟩ :=
            @startScan_eq machine w openedThen.progressive
          have primed : Reads machine w 0 (startScan machine w) := by
            rw [started]
            exact (Reads.start.takes Takes.start.prime).changes ⟨rfl, rfl, rfl, rfl, rfl, rfl⟩
          refine ⟨true, startScan machine w, ?_, ⟨_, both.trans primed⟩, fun _ => ⟨?_, ?_, ?_⟩⟩
          · change (checkTables machine _).bind _ = _
            rw [checks]
            rfl
          · rw [started]
            exact ⟨openedThen.progressive, openedThen.coeffs⟩
          · rw [started]
            exact ⟨decodable.dcOpen, decodable.acOpen, decodable.dcMade, decodable.acMade⟩
          · have less := header.less
            have readyThen := (ordered.spends finite ready).ready
            have spends := (readsThen.trans primed).spends finite readyThen
            exact spends.less.trans_lt less

/-- In each turn of the loop a header is taken out of the stream. -/
theorem decodeScans_ends (ready : Ready s) (intact : Intact machine s)
    (enough : remaining left s.reader + 3 ≤ machine.turns) (opened : Opened s)
    (inside : ∀ u v, Relation.ReflTransGen (NextScan machine) s u →
      locateSosMarker machine u = some (true, v) → ¬ LeavesTree v ∧ ¬ NamesBehind v)
    (rounds : remaining left s.reader < turns) :
    ∃ ok t, decodeScans machine turns s = some (ok, t) := by
  induction turns generalizing s with
  | zero => exact absurd rounds (Nat.not_lt_zero _)
  | succ turns inductionHypothesis =>
      obtain ⟨found, u, starts, ⟨n, reads⟩, started⟩ := initScan_ends finite ready intact enough
        opened fun v => inside s v .refl
      change ∃ ok t, (initScan machine s).bind _ = some (ok, t)
      rw [starts]
      cases found with
      | false => exact ⟨true, u, rfl⟩
      | true =>
          obtain ⟨openedThen, decodable, less⟩ := started rfl
          obtain ⟨decoded, v, scans, more, readsThen⟩ := decodeNextScan_ends (intact.behind reads)
            decodable
          change ∃ ok t, (decodeNextScan machine u).bind _ = some (ok, t)
          rw [scans]
          cases decoded with
          | false => exact ⟨false, v, rfl⟩
          | true =>
              have spends := reads.spends finite ready
              have spendsThen := readsThen.spends finite spends.ready
              have lessThen := spendsThen.less
              have header := header_eq sameHeader_decodeNextScan scans
              have next : NextScan machine s v := ⟨u, starts, scans⟩
              exact inductionHypothesis spendsThen.ready (intact.behind (reads.trans readsThen))
                (by omega) (openedThen.behind readsThen (congrArg Header.progressiveFlag header)
                  (congrArg Header.compsInFrame header))
                (fun w x later => inside w x (.head next later)) (by omega)

omit finite in
/-- Nothing is known of the loop behind a table that leaves its tree. -/
theorem decodeScans_leave (leaves : ∃ u v, Relation.ReflTransGen (NextScan machine) s u ∧
    locateSosMarker machine u = some (true, v) ∧ LeavesTree v) :
    decodeScans machine turns s = none := by
  obtain ⟨u, v, scans, locates, leavesTree⟩ := leaves
  have ordered : LeavesTree { v with order := Mcu.calcMcuBlockOrder v.frame v.scanComps } :=
    leavesTree
  have starts : initScan machine u = none := by
    change (locateSosMarker machine u).bind _ = _
    rw [locates]
    change (checkTables machine _).bind _ = none
    rw [checkTables_leave ordered]
    rfl
  induction scans using Relation.ReflTransGen.head_induction_on generalizing turns with
  | refl =>
      cases turns with
      | zero => rfl
      | succ turns =>
          change (initScan machine u).bind _ = none
          rw [starts]
          rfl
  | head next later inductionHypothesis =>
      obtain ⟨w, started, decoded⟩ := next
      cases turns with
      | zero => rfl
      | succ turns =>
          change (initScan machine _).bind _ = none
          rw [started]
          change (decodeNextScan machine w).bind _ = none
          rw [decoded]
          exact inductionHypothesis

end Loop

section Main

/-- A header that the loop over the scans comes to. -/
def ReachesHeader (machine : Machine) (s v : State) : Prop :=
  ∃ u, Relation.ReflTransGen (NextScan machine) s u ∧
    locateSosMarker machine u = some (true, v)

variable {machine : Machine} {left : Reader → Nat} {s : State}

/-- A stream of some bytes in front of a scan of one component. -/
def scanStream (stream : List U8) (info : HuffInfo) : State :=
  { State.start { BitReader.sampleReader with
      memory := fun address => stream.getD address.toNat 0
      inBufLeft := BitVec.ofNat 32 stream.length } with
    progressiveFlag := true
    frame := ⟨64, 64, 1, fun _ => 1, fun _ => 1⟩
    dcCoeffs := fun _ => 1
    acCoeffs := fun _ => 1
    huffInfo := fun index => if index = 0 then info else noHuffInfo }

theorem opened_scanStream {stream : List U8} {info : HuffInfo} :
    Opened (scanStream stream info) := by
  have nonzero : (1 : Address) ≠ 0 := by decide
  exact ⟨rfl, fun _ _ => ⟨nonzero, nonzero⟩⟩

theorem ready_scanStream {stream : List U8} {info : HuffInfo} :
    Ready (scanStream stream info) := by
  refine ⟨⟨.inl rfl, fun thumbnail => ?_⟩, fun thumbnail => ?_⟩
  · cases thumbnail
  · cases thumbnail

theorem finiteStream_id : FiniteStream id fun _ => 0 :=
  ⟨fun _ empty => by simp [empty], fun _ _ _ => rfl, fun _ => rfl, fun _ => rfl,
    fun _ _ _ _ _ _ _ _ _ => rfl⟩

/-- Three codes of 14 bits, one of 15 bits and 251 codes of 16 bits. -/
def endlessNum (size : Nat) : U8 :=
  if size = 14 then 3 else if size = 15 then 1 else if size = 16 then 251 else 0

def endlessScan : State :=
  scanStream [0xFF, 0xDA, 0, 8, 1, 0, 0, 0, 0, 0, 0x01, 0x0F, 0xFF, 0xD9]
    { noHuffInfo with valid := true, huffNum := endlessNum, huffVal := sampleVal }

/-- The header of the scan, and the room that its table needs. -/
theorem endlessScan_header :
    ((locateSosMarker wholeMachine endlessScan).map fun found =>
        (found.1, found.2.compsInScan, found.2.compDcTab (found.2.compList 0),
          found.2.spectralEnd)) = some (true, 1, 0, 0) ∧
      ((locateSosMarker wholeMachine endlessScan).map fun found =>
        (found.2.progressiveFlag, (found.2.huffInfo 0).valid)) = some (true, true) ∧
      ((locateSosMarker wholeMachine endlessScan).map fun found =>
        (kraftUpTo (found.2.huffInfo 0).huffNum 16, codesUpTo (found.2.huffInfo 0).huffNum 16,
          pairs (found.2.huffInfo 0).huffNum)) = some (265, 255, 260) := by
  decide +kernel

theorem endlessScan_leaves :
    ∃ v, locateSosMarker wholeMachine endlessScan = some (true, v) ∧ LeavesTree v := by
  obtain ⟨header, flags, room⟩ := endlessScan_header
  cases located : locateSosMarker wholeMachine endlessScan with
  | none =>
      rw [located] at header
      cases header
  | some found =>
      obtain ⟨ok, v⟩ := found
      rw [located] at header flags room
      simp only [Option.map_some, Option.some.injEq, Prod.mk.injEq] at header flags room
      obtain ⟨rfl, comps, dcTab, last⟩ := header
      obtain ⟨progressive, valid⟩ := flags
      obtain ⟨kraft, codes, needed⟩ := room
      refine ⟨v, rfl, ?_, 0, by decide, valid, ?_, fun j below => absurd below (Nat.not_lt_zero j)⟩
      · intro i below
        have first : i = 0 := by omega
        subst first
        refine ⟨fun _ => ?_, fun used => ?_⟩
        · rw [dcTab]
          exact valid
        · omega
      · intro fits
        have few : codesUpTo (v.huffInfo 0).huffNum 16 ≤ 255 := by omega
        obtain ⟨huffcode, makes, enough⟩ := @exists_codes (v.huffInfo 0).huffNum
          (v.huffInfo 0).huffVal (by omega) few
        have most := enough.mp (fits _ _ huffcode (makeSizes_eq few) makes progressive)
        omega

end Main

end Gp2Firmware.Jpeg.Decoder
