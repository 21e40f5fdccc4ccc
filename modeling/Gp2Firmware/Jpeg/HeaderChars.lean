import Gp2Firmware.Lib.Ensures
import Gp2Firmware.Jpeg.StreamRuns
import Mathlib.Algebra.Group.Nat.Defs

/-!
# The characters of the headers

How many characters `MDrv_JPEG_process_markers` takes: those up to a marker, and those of the
segment behind it.  No segment takes more than its length and one of its tables.
-/

namespace Gp2Firmware.Jpeg.Decoder

open Gp2Firmware.Lib (Achieves achieves_pure achieves_modify achieves_get_bind)
open Gp2Firmware.Lib.WordMemory Gp2Firmware.Jpeg.BitReader Gp2Firmware.Jpeg.HuffmanTable
  Gp2Firmware.Jpeg.Mcu

section Count

/-- The characters of the tables in a DHT segment, the last of which may be refused. -/
def dhtChars : Nat → Nat → (Nat → U8) → Nat
  | 0, _, _ => 0
  | turns + 1, left, stream =>
      let table := tableAt left stream
      if left = 0 then
        0
      else if 255 < codesUpTo table.huffNum 16 then
        17
      else if left < table.size ∨ JPEG_MAXHUFFTABLES ≤ table.index then
        table.size
      else
        table.size + dhtChars turns (left - table.size) fun byte => stream (table.size + byte)

/-- The same for a DQT segment. -/
def dqtChars : Nat → Nat → (Nat → U8) → Nat
  | 0, _, _ => 0
  | turns + 1, left, stream =>
      let i := quantLength ((stream 0).toNat / 16)
      if left = 0 then
        0
      else if JPEG_MAXQUANTTABLES ≤ (stream 0).toNat % 16 then
        1
      else if left < i then
        i
      else
        i + dqtChars turns (left - i) fun byte => stream (i + byte)

variable (machine : Machine)

/-- The bytes that are skipped out of a number of them. -/
def skippedChars : Nat → Nat → Reader → Nat
  | 0, _, _ => 0
  | turns + 1, count, r =>
      if count = 0 then
        0
      else
        let r := if r.inBufLeft = 0 then fillReadBuffer machine.wait r else r
        if r.inBufLeft = 0 then
          0
        else if count < r.inBufLeft.toNat then
          count
        else
          r.inBufLeft.toNat +
            skippedChars turns (count - r.inBufLeft.toNat) { r with inBufLeft := 0 }

/-- The characters of the segment behind a marker. -/
def segmentChars (c : U8) (s : State) : Nat :=
  let stream := chars machine.wait s.reader
  let rest := segmentLength stream - 2
  let body := fun byte => stream (2 + byte)
  let skipped := 2 + skippedChars machine rest rest (HuffmanTable.skip machine.wait 2 s.reader)
  if c = M_APP1 then
    if ReadsApp1 s then 2 + rest else skipped
  else if c ∈ returnedMarkers then
    0
  else if c = M_DHT then
    2 + dhtChars rest rest body
  else if c = M_DAC then
    0
  else if c = M_DQT then
    2 + dqtChars rest rest body
  else if c = M_DRI then
    if segmentLength stream ≠ 4 then 2 else 4
  else if c ∈ unexpectedMarkers then
    0
  else
    skipped

/-- The characters that `MDrv_JPEG_process_markers` takes: those up to a marker, and those of the
segment behind it. -/
def headerChars : Nat → State → Nat
  | 0, _ => 0
  | turns + 1, s =>
      Lib.Loop.count (markerTurn machine) machine.turns (false, s.reader) +
        match nextMarker machine s with
        | none => 0
        | some (c, t) =>
            segmentChars machine c t +
              match (do
                note (.marker c)
                processMarker machine c : Program State MarkerStep) t with
              | some (.next, u) => headerChars turns u
              | _ => 0

/-- The longest segment, and a table of 16 counts and 255 symbols behind it. -/
def mostChars : Nat := 65535 + 272

variable {machine} {turns left : Nat} {stream : Nat → U8}

theorem dhtChars_le : dhtChars turns left stream ≤ left + 272 := by
  induction turns generalizing left stream with
  | zero => exact Nat.zero_le _
  | succ turns inductionHypothesis =>
      rw [dhtChars]
      split
      · exact Nat.zero_le _
      split
      · omega
      rename_i few
      have size : (tableAt left stream).size =
        1 + 16 + codesUpTo (tableAt left stream).huffNum 16 := rfl
      split
      · omega
      rename_i fits
      have rest := @inductionHypothesis (left - (tableAt left stream).size) fun byte =>
        stream ((tableAt left stream).size + byte)
      omega

theorem dqtChars_le : dqtChars turns left stream ≤ left + 129 := by
  induction turns generalizing left stream with
  | zero => exact Nat.zero_le _
  | succ turns inductionHypothesis =>
      have most : quantLength ((stream 0).toNat / 16) ≤ 129 := by
        rw [quantLength]
        split
        · exact le_rfl
        · decide
      rw [dqtChars]
      split
      · exact Nat.zero_le _
      split
      · omega
      split
      · omega
      have rest := @inductionHypothesis (left - quantLength ((stream 0).toNat / 16)) fun byte =>
        stream (quantLength ((stream 0).toNat / 16) + byte)
      omega

theorem skippedChars_le {count : Nat} {r : Reader} :
    skippedChars machine turns count r ≤ count := by
  induction turns generalizing count r with
  | zero => exact Nat.zero_le _
  | succ turns inductionHypothesis =>
      rw [skippedChars]
      dsimp only
      generalize (if r.inBufLeft = 0 then fillReadBuffer machine.wait r else r) = r
      split
      · exact Nat.zero_le _
      split
      · exact Nat.zero_le _
      split
      · exact le_rfl
      have rest := @inductionHypothesis (count - r.inBufLeft.toNat) { r with inBufLeft := 0 }
      omega

theorem segmentChars_le {c : U8} {s : State} : segmentChars machine c s ≤ mostChars := by
  have length : segmentLength (chars machine.wait s.reader) < 65536 := Nat.mod_lt _ (by decide)
  have dht := @dhtChars_le (segmentLength (chars machine.wait s.reader) - 2)
    (segmentLength (chars machine.wait s.reader) - 2)
    fun byte => chars machine.wait s.reader (2 + byte)
  have dqt := @dqtChars_le (segmentLength (chars machine.wait s.reader) - 2)
    (segmentLength (chars machine.wait s.reader) - 2)
    fun byte => chars machine.wait s.reader (2 + byte)
  have skipped := @skippedChars_le machine (segmentLength (chars machine.wait s.reader) - 2)
    (segmentLength (chars machine.wait s.reader) - 2) (HuffmanTable.skip machine.wait 2 s.reader)
  rw [segmentChars, mostChars]
  split
  · split
    · omega
    · omega
  split
  · omega
  split
  · omega
  split
  · omega
  split
  · omega
  split
  · split
    · omega
    · omega
  split
  · omega
  · omega

end Count

section Skips

/-- A number of characters is read, and nothing else is done to the stream. -/
structure Skips (machine : Machine) (count : Nat) (s t : State) : Prop where
  reader : t.reader = HuffmanTable.skip machine.wait count s.reader
  blocks : t.books.blocks = s.books.blocks
  decodeType : t.decodeType = s.decodeType
  thumbnail : t.thumbnail = s.thumbnail
  dcCoeffs : t.dcCoeffs = s.dcCoeffs
  acCoeffs : t.acCoeffs = s.acCoeffs

variable {machine : Machine} {n count more : Nat} {s t u : State}

theorem Skips.refl : Skips machine 0 s s :=
  ⟨rfl, rfl, rfl, rfl, rfl, rfl⟩

theorem Skips.trans (first : Skips machine count s t) (second : Skips machine more t u) :
    Skips machine (count + more) s u := by
  refine ⟨?_, second.blocks.trans first.blocks, second.decodeType.trans first.decodeType,
    second.thumbnail.trans first.thumbnail, second.dcCoeffs.trans first.dcCoeffs,
    second.acCoeffs.trans first.acCoeffs⟩
  rw [second.reader, first.reader, HuffmanTable.skip_skip]

theorem Skips.chars (skips : Skips machine count s t) :
    chars machine.wait t.reader = fun byte => chars machine.wait s.reader (count + byte) := by
  rw [skips.reader, chars_skip]

theorem Reads.skips (reads : Reads machine s n t) (skips : Skips machine count t u) :
    Reads machine s (n + count) u :=
  (reads.takes .skip).changes ⟨skips.reader, skips.blocks, skips.decodeType, skips.thumbnail,
    skips.dcCoeffs, skips.acCoeffs⟩

theorem achieves_getChar : Achieves (· = s) (getChar machine) fun c t =>
    c = chars machine.wait s.reader 0 ∧ Skips machine 1 s t := by
  intro t same
  subst same
  exact ⟨_, _, rfl, rfl, rfl, rfl, rfl, rfl, rfl, rfl⟩

/-- What is read behind some characters. -/
theorem Achieves.skips {α : Type} {m : Program State α} {fact : State → α → Prop}
    {post : α → State → Prop}
    (achieves : ∀ t, Achieves (· = t) m fun a u => fact t a ∧ Skips machine more t u)
    (behind : ∀ t a u, Skips machine count s t → fact t a → Skips machine (count + more) s u →
      post a u) :
    Achieves (Skips machine count s) m post := by
  intro t skips
  obtain ⟨a, u, ran, here, skipped⟩ := achieves t t rfl
  exact ⟨a, u, ran, behind t a u skips here (skips.trans skipped)⟩

theorem achieves_getShort : Achieves (· = s) (getShort machine) fun length t =>
    length = segmentLength (chars machine.wait s.reader) ∧ Skips machine 2 s t := by
  unfold getShort
  refine achieves_getChar.bind ?_
  intro high
  apply Achieves.fact
  intro same
  subst same
  refine Achieves.bind (Achieves.skips (fun _ => achieves_getChar)
    fun t low u skips same both => (⟨?_, both⟩ :
      low = chars machine.wait s.reader 1 ∧ Skips machine 2 s u)) ?_
  · rw [same, skips.chars]
  intro low
  apply Achieves.fact
  intro same
  subst same
  exact achieves_pure fun _ skips => ⟨rfl, skips⟩

/-- A part of the decoder that reads a number of characters. -/
def SkipsBy {α : Type} (machine : Machine) (m : Program State α) (count : Nat) : Prop :=
  ∀ s, Achieves (· = s) m fun _ t => Skips machine count s t

theorem SkipsBy.bind {α β : Type} {m : Program State α} {rest : α → Program State β}
    (first : SkipsBy machine m count) (later : ∀ a, SkipsBy machine (rest a) more) :
    SkipsBy machine (m >>= rest) (count + more) := by
  intro s
  refine (first s).bind ?_
  intro a t skips
  obtain ⟨b, u, ran, both⟩ := later a t t rfl
  exact ⟨b, u, ran, skips.trans both⟩

theorem skipsBy_getChar : SkipsBy machine (getChar machine) 1 :=
  fun _ => achieves_getChar.imp (fun _ same => same) fun _ _ both => both.2

theorem skipsBy_pure {α : Type} {a : α} : SkipsBy machine (pure a) 0 := by
  intro s
  apply achieves_pure
  intro t same
  subst same
  exact .refl

theorem skipsBy_modify {change : State → State} (same : ∀ s, Skips machine 0 s (change s)) :
    SkipsBy machine (modify change) 0 := by
  intro s
  apply achieves_modify
  intro t here
  subst here
  exact same t

theorem skipsBy_readQuantValue {prec n i : Nat} :
    SkipsBy machine (readQuantValue machine prec n i) (if prec ≠ 0 then 2 else 1) := by
  have low : SkipsBy machine (readLowByte machine prec) (if prec ≠ 0 then 1 else 0) := by
    unfold readLowByte
    split
    · exact skipsBy_getChar
    · exact skipsBy_pure
  have value : SkipsBy machine (readQuantValue machine prec n i)
      (1 + ((if prec ≠ 0 then 1 else 0) + 0)) := by
    apply skipsBy_getChar.bind
    intro high
    apply low.bind
    intro _
    exact skipsBy_modify fun _ => ⟨rfl, rfl, rfl, rfl, rfl, rfl⟩
  convert value using 1
  split
  · rfl
  · rfl

theorem SkipsBy.forEach {part : Nat → Program State Unit} {each i : Nat}
    (skips : ∀ i, SkipsBy machine (part i) each) :
    SkipsBy machine (forEach part i count) (count * each) := by
  induction count generalizing i with
  | zero =>
      rw [Nat.zero_mul]
      exact skipsBy_pure
  | succ count inductionHypothesis =>
      rw [Nat.succ_mul, Nat.add_comm (count * each)]
      exact (skips i).bind fun _ => inductionHypothesis

end Skips

section Tables

variable {wait : Wait} {r : Reader} {turns left : Nat} {infos : Nat → HuffInfo}

theorem readDhtTables_skips : (HuffmanTable.readDhtTables wait turns left infos r).2.2 =
    HuffmanTable.skip wait (dhtChars turns left (chars wait r)) r := by
  induction turns generalizing left infos r with
  | zero => rfl
  | succ turns inductionHypothesis =>
      rw [HuffmanTable.readDhtTables, dhtChars]
      by_cases none : left = 0
      · rw [if_pos none, if_pos none]
        rfl
      rw [if_neg none, if_neg none, getChar_eq]
      dsimp only
      rw [@readBytes_huffNum wait r left]
      dsimp only
      rw [readBytes_eq, HuffmanTable.skip_skip]
      dsimp only
      by_cases many : 255 < codesUpTo (tableAt left (chars wait r)).huffNum 16
      · rw [if_pos many, if_pos many]
      rw [if_neg many, if_neg many]
      have size : 17 + codesUpTo (tableAt left (chars wait r)).huffNum 16 =
        (tableAt left (chars wait r)).size := rfl
      have index : (chars wait r 0).toNat % 16 +
        (chars wait r 0).toNat / 16 % 2 * (JPEG_MAXHUFFTABLES / 2) =
          (tableAt left (chars wait r)).index := rfl
      rw [size, index]
      by_cases short : left < (tableAt left (chars wait r)).size
      · rw [if_pos short, if_pos (.inl short)]
      by_cases noPlace : JPEG_MAXHUFFTABLES ≤ (tableAt left (chars wait r)).index
      · rw [if_neg short, if_pos noPlace, if_pos (.inr noPlace)]
      rw [if_neg short, if_neg noPlace, if_neg (not_or.mpr ⟨short, noPlace⟩), inductionHypothesis,
        HuffmanTable.skip_skip, chars_skip]

theorem readDhtMarker_skips : (HuffmanTable.readDhtMarker wait infos r).2.2 =
    HuffmanTable.skip wait (2 + dhtChars (segmentLength (chars wait r) - 2)
      (segmentLength (chars wait r) - 2) fun byte => chars wait r (2 + byte)) r := by
  have marker : HuffmanTable.readDhtMarker wait infos r =
      if segmentLength (chars wait r) < 2 then
        (.error .badDhtMarker, infos, HuffmanTable.skip wait 2 r)
      else
        HuffmanTable.readDhtTables wait (segmentLength (chars wait r) - 2)
          (segmentLength (chars wait r) - 2) infos (HuffmanTable.skip wait 2 r) := rfl
  rw [marker]
  split
  · rename_i short
    rw [Nat.sub_eq_zero_of_le (by omega)]
    rfl
  · rw [readDhtTables_skips, HuffmanTable.skip_skip, chars_skip]

theorem takes_skipBytes {machine : Machine} {count : Nat} :
    Takes machine.wait r (skippedChars machine turns count r)
      (skipBytes machine turns count r) := by
  induction turns generalizing count r with
  | zero => exact .start
  | succ turns inductionHypothesis =>
      rw [skippedChars, skipBytes]
      by_cases none : count = 0
      · rw [if_pos none, if_pos none]
        exact .start
      rw [if_neg none, if_neg none]
      have filled : Takes machine.wait r 0
          (if r.inBufLeft = 0 then fillReadBuffer machine.wait r else r) := by
        split
        · rename_i empty
          exact Takes.start.fill empty
        · exact .start
      revert filled
      generalize (if r.inBufLeft = 0 then fillReadBuffer machine.wait r else r) = u
      intro filled
      dsimp only
      by_cases ended : u.inBufLeft = 0
      · rw [if_pos ended, if_pos ended]
        exact filled
      rw [if_neg ended, if_neg ended]
      by_cases less : count < u.inBufLeft.toNat
      · rw [if_pos less, if_pos less]
        have dropped := filled.drop less.le
        rwa [Nat.zero_add] at dropped
      · rw [if_neg less, if_neg less]
        have emptied := filled.empty
        rw [Nat.zero_add] at emptied
        exact emptied.trans inductionHypothesis

end Tables

section Segments

variable {machine : Machine} {n count more : Nat} {s t : State}

theorem SkipsBy.behind {α : Type} {m : Program State α} (skips : SkipsBy machine m more) :
    Achieves (Skips machine count t) m fun _ => Skips machine (count + more) t := by
  intro u before
  obtain ⟨a, v, ran, then_⟩ := skips u u rfl
  exact ⟨a, v, ran, before.trans then_⟩

variable (intact : Intact machine s) (reads : Reads machine s n t)

include intact reads

theorem achieves_fail {status : JpegError} :
    Achieves (· = t) (fail machine status) fun ok u => ok = false ∧ Reads machine s n u := by
  intro u same
  subst same
  obtain ⟨v, handled, readsThen⟩ := intact.terminate reads status
  refine ⟨false, v, ?_, rfl, readsThen⟩
  change (terminate machine status u).bind _ = _
  rw [handled]
  rfl

theorem achieves_fail_skips {status : JpegError} :
    Achieves (Skips machine count t) (fail machine status) fun _ u =>
      Reads machine s (n + count) u := by
  intro u skips
  obtain ⟨ok, v, ran, -, readsThen⟩ := @achieves_fail _ _ _ u intact (reads.skips skips) status u
    rfl
  exact ⟨ok, v, ran, readsThen⟩

theorem achieves_readDhtMarker : Achieves (· = t) (readDhtMarker machine) fun _ u =>
    Reads machine s (n + (2 + dhtChars (segmentLength (chars machine.wait t.reader) - 2)
      (segmentLength (chars machine.wait t.reader) - 2)
      fun byte => chars machine.wait t.reader (2 + byte))) u := by
  unfold readDhtMarker
  have tables : Achieves (· = t) (readDhtTables machine) fun _ => Skips machine
      (2 + dhtChars (segmentLength (chars machine.wait t.reader) - 2)
        (segmentLength (chars machine.wait t.reader) - 2)
        fun byte => chars machine.wait t.reader (2 + byte)) t := by
    intro u same
    subst same
    exact ⟨_, _, rfl, readDhtMarker_skips, rfl, rfl, rfl, rfl, rfl⟩
  refine tables.bind ?_
  intro result
  cases result with
  | ok => exact achieves_pure fun _ skips => reads.skips skips
  | error error => exact achieves_fail_skips intact reads

theorem achieves_readQuantTables {turns left : Nat} :
    Achieves (· = t) (readQuantTables machine turns left) fun _ u =>
      Reads machine s (n + dqtChars turns left (chars machine.wait t.reader)) u := by
  induction turns generalizing left n t with
  | zero =>
      apply achieves_pure
      intro u same
      subst same
      exact reads
  | succ turns inductionHypothesis =>
      rw [readQuantTables, dqtChars]
      by_cases none : left = 0
      · rw [if_pos none, if_pos none]
        apply achieves_pure
        intro u same
        subst same
        exact reads
      rw [if_neg none, if_neg none]
      refine achieves_getChar.bind ?_
      intro c
      apply Achieves.fact
      intro same
      subst same
      by_cases bad : JPEG_MAXQUANTTABLES ≤ (chars machine.wait t.reader 0).toNat % 16
      · rw [if_pos bad, if_pos bad]
        exact achieves_fail_skips intact reads
      rw [if_neg bad, if_neg bad]
      refine Achieves.bind (SkipsBy.behind (skipsBy_modify fun _ =>
        ⟨rfl, rfl, rfl, rfl, rfl, rfl⟩)) ?_
      intro _
      refine (SkipsBy.behind (SkipsBy.forEach fun _ => skipsBy_readQuantValue)).bind ?_
      intro _
      have length : 1 + 0 + 64 * (if (chars machine.wait t.reader 0).toNat / 16 ≠ 0 then 2 else 1) =
          quantLength ((chars machine.wait t.reader 0).toNat / 16) := by
        rw [quantLength]
        split
        · rfl
        · rfl
      rw [length]
      by_cases short : left < quantLength ((chars machine.wait t.reader 0).toNat / 16)
      · rw [if_pos short, if_pos short]
        exact achieves_fail_skips intact reads
      rw [if_neg short, if_neg short]
      intro u skips
      obtain ⟨ok, v, ran, readsThen⟩ := @inductionHypothesis _ u (reads.skips skips)
        (left - quantLength ((chars machine.wait t.reader 0).toNat / 16)) u rfl
      rw [skips.chars, Nat.add_assoc] at readsThen
      exact ⟨ok, v, ran, readsThen⟩

theorem achieves_readDqtMarker : Achieves (· = t) (readDqtMarker machine) fun _ u =>
    Reads machine s (n + (2 + dqtChars (segmentLength (chars machine.wait t.reader) - 2)
      (segmentLength (chars machine.wait t.reader) - 2)
      fun byte => chars machine.wait t.reader (2 + byte))) u := by
  unfold readDqtMarker
  refine achieves_getShort.bind ?_
  intro length
  apply Achieves.fact
  intro same
  subst same
  refine Achieves.ite ?_ ?_
  · intro short
    rw [Nat.sub_eq_zero_of_le (by omega)]
    exact achieves_fail_skips intact reads
  · intro _ u skips
    obtain ⟨ok, v, ran, readsThen⟩ := @achieves_readQuantTables _ _ _ u intact (reads.skips skips)
      (segmentLength (chars machine.wait t.reader) - 2)
      (segmentLength (chars machine.wait t.reader) - 2) u rfl
    rw [skips.chars, Nat.add_assoc] at readsThen
    exact ⟨ok, v, ran, readsThen⟩

theorem achieves_readDriMarker : Achieves (· = t) (readDriMarker machine) fun _ u =>
    Reads machine s (n + if segmentLength (chars machine.wait t.reader) ≠ 4 then 2 else 4) u := by
  unfold readDriMarker
  refine achieves_getShort.bind ?_
  intro length
  apply Achieves.fact
  intro same
  subst same
  refine Achieves.ite ?_ ?_
  · intro other
    rw [if_pos other]
    exact achieves_fail_skips intact reads
  · intro four
    rw [if_neg four]
    refine Achieves.bind (Achieves.skips (fun _ => achieves_getShort)
      fun t _ u _ _ both => (both : Skips machine 4 _ u)) ?_
    intro interval
    refine Achieves.bind (SkipsBy.behind (skipsBy_modify fun _ =>
      ⟨rfl, rfl, rfl, rfl, rfl, rfl⟩)) ?_
    intro _
    exact achieves_pure fun _ skips => reads.skips skips

/-- A segment is skipped as far as there is one. -/
theorem achieves_skipVariableMarker : Achieves (· = t) (skipVariableMarker machine) fun _ u =>
    Reads machine s (n + (2 + skippedChars machine (segmentLength (chars machine.wait t.reader) - 2)
      (segmentLength (chars machine.wait t.reader) - 2)
      (HuffmanTable.skip machine.wait 2 t.reader))) u := by
  unfold skipVariableMarker
  refine achieves_getShort.bind ?_
  intro length
  apply Achieves.fact
  intro same
  subst same
  refine Achieves.bind (SkipsBy.behind (skipsBy_modify fun _ =>
    ⟨rfl, rfl, rfl, rfl, rfl, rfl⟩)) ?_
  intro _
  refine Achieves.ite ?_ ?_
  · intro short
    rw [Nat.sub_eq_zero_of_le (by omega)]
    exact achieves_fail_skips intact reads
  · intro _ u skips
    refine ⟨true, _, rfl, ?_⟩
    have skipped := (reads.skips skips).takes (@takes_skipBytes u.reader
      (segmentLength (chars machine.wait t.reader) - 2) machine
      (segmentLength (chars machine.wait t.reader) - 2))
    rw [skips.reader, Nat.add_assoc] at skipped
    rw [skips.reader]
    exact skipped

omit intact reads in
theorem achieves_readExifBytes {i : Nat} (inside : i + count ≤ 65533) :
    Achieves (fun t => Reads machine s n t ∧ ReadsApp1 t) (forEach (readExifByte machine) i count)
      fun _ t => Reads machine s (n + count) t ∧ ReadsApp1 t := by
  induction count generalizing i n with
  | zero => exact achieves_pure fun _ here => here
  | succ count inductionHypothesis =>
      have byte : Achieves (fun t => Reads machine s n t ∧ ReadsApp1 t) (readExifByte machine i)
          fun _ t => Reads machine s (n + 1) t ∧ ReadsApp1 t := by
        intro t ⟨reads, app1⟩
        have next : Takes machine.wait t.reader 1 (HuffmanTable.skip machine.wait 1 t.reader) :=
          .skip
        exact ⟨(), _, rfl, (reads.takes next).exifByte app1 (show i < 65533 by omega), app1⟩
      rw [show n + (count + 1) = n + 1 + count by omega]
      exact byte.bind fun _ => inductionHypothesis (show i + 1 + count ≤ 65533 by omega)

theorem achieves_readApp1Marker (app1 : ReadsApp1 t) :
    Achieves (· = t) (readApp1Marker machine) fun _ u =>
      Reads machine s (n + (2 + (segmentLength (chars machine.wait t.reader) - 2))) u := by
  have small : segmentLength (chars machine.wait t.reader) < 65536 := Nat.mod_lt _ (by decide)
  unfold readApp1Marker
  refine achieves_getShort.bind ?_
  intro length
  apply Achieves.fact
  intro same
  subst same
  refine Achieves.ite ?_ ?_
  · intro short
    rw [Nat.sub_eq_zero_of_le (by omega)]
    exact achieves_fail_skips intact reads
  · intro _ u skips
    have here : ReadsApp1 u := ⟨skips.decodeType.trans app1.1,
      (congrArg Thumbnail.State.thumbnailFound skips.thumbnail).trans app1.2⟩
    obtain ⟨done, v, ran, readsThen, app1Then⟩ := @achieves_readExifBytes machine _
      (segmentLength (chars machine.wait t.reader) - 2) s 0 (by omega) u ⟨reads.skips skips, here⟩
    refine ⟨true, decodeExif (segmentLength (chars machine.wait t.reader) - 2) v, ?_, ?_⟩
    · change (forEach (readExifByte machine) 0 _ u).bind _ = _
      rw [ran]
      rfl
    · rw [← Nat.add_assoc]
      exact readsThen.exif app1Then

omit intact reads in
theorem achieves_nextIf {read : Program State Bool}
    (achieves : Achieves (· = t) read fun _ u => Reads machine s count u) :
    Achieves (· = t) (nextIf read) fun step u => step ≠ .found ∧ Reads machine s count u := by
  refine achieves.bind ?_
  intro ok
  refine Achieves.ite ?_ ?_
  · exact fun _ => achieves_pure fun _ readsThen => ⟨by decide, readsThen⟩
  · exact fun _ => achieves_pure fun _ readsThen => ⟨by decide, readsThen⟩

theorem achieves_nextAfterSkip : Achieves (· = t) (nextAfterSkip machine) fun step u =>
    step ≠ .found ∧
      Reads machine s (n + (2 + skippedChars machine
        (segmentLength (chars machine.wait t.reader) - 2)
        (segmentLength (chars machine.wait t.reader) - 2)
        (HuffmanTable.skip machine.wait 2 t.reader))) u := by
  refine (achieves_skipVariableMarker intact reads).bind ?_
  exact fun _ => achieves_pure fun _ readsThen => ⟨by decide, readsThen⟩

/-- Just the markers that are looked for are found. -/
theorem achieves_processMarker {c : U8} : Achieves (· = t) (processMarker machine c) fun step u =>
    (step = .found ↔ c ∈ returnedMarkers) ∧ Reads machine s (n + segmentChars machine c t) u := by
  have others : ∀ {m : Program State MarkerStep} {k}, c ∉ returnedMarkers →
      Achieves (· = t) m (fun step u => step ≠ .found ∧ Reads machine s (n + k) u) →
      Achieves (· = t) m fun step u =>
        (step = .found ↔ c ∈ returnedMarkers) ∧ Reads machine s (n + k) u := by
    intro m k other achieves
    exact achieves.imp (fun _ same => same) fun step u here =>
      ⟨iff_of_false here.1 other, here.2⟩
  have failed : ∀ {status}, c ∉ returnedMarkers → Achieves (· = t) (nextIf (fail machine status))
      fun step u => (step = .found ↔ c ∈ returnedMarkers) ∧ Reads machine s (n + 0) u := by
    intro status other
    exact others other (achieves_nextIf ((achieves_fail intact reads).imp (fun _ same => same)
      fun _ _ here => here.2))
  rw [processMarker, segmentChars]
  by_cases app1 : c = M_APP1
  · rw [if_pos app1, if_pos app1]
    have other : c ∉ returnedMarkers := by
      rw [app1]
      decide
    unfold processApp1
    apply achieves_get_bind
    intro u same
    subst same
    by_cases isRead : ReadsApp1 u
    · rw [if_pos isRead]
      refine Achieves.ite ?_ (fun skipped => absurd isRead skipped)
      exact fun _ => others other (achieves_nextIf (achieves_readApp1Marker intact reads isRead))
    · rw [if_neg isRead]
      refine Achieves.ite (fun here => absurd here isRead) ?_
      exact fun _ => others other (achieves_nextAfterSkip intact reads)
  rw [if_neg app1, if_neg app1]
  by_cases returned : c ∈ returnedMarkers
  · rw [if_pos returned, if_pos returned]
    apply achieves_pure
    intro u same
    subst same
    exact ⟨iff_of_true rfl returned, reads⟩
  rw [if_neg returned, if_neg returned]
  by_cases dht : c = M_DHT
  · rw [if_pos dht, if_pos dht]
    exact others returned (achieves_nextIf (achieves_readDhtMarker intact reads))
  rw [if_neg dht, if_neg dht]
  by_cases dac : c = M_DAC
  · rw [if_pos dac, if_pos dac]
    exact failed returned
  rw [if_neg dac, if_neg dac]
  by_cases dqt : c = M_DQT
  · rw [if_pos dqt, if_pos dqt]
    exact others returned (achieves_nextIf (achieves_readDqtMarker intact reads))
  rw [if_neg dqt, if_neg dqt]
  by_cases dri : c = M_DRI
  · rw [if_pos dri, if_pos dri]
    exact others returned (achieves_nextIf (achieves_readDriMarker intact reads))
  rw [if_neg dri, if_neg dri]
  by_cases unexpected : c ∈ unexpectedMarkers
  · rw [if_pos unexpected, if_pos unexpected]
    exact failed returned
  · rw [if_neg unexpected, if_neg unexpected]
    exact others returned (achieves_nextAfterSkip intact reads)

end Segments

end Gp2Firmware.Jpeg.Decoder
