import Gp2Firmware.Jpeg.HuffmanTree

/-!
# Over-subscribed Huffman tables

The counts of a table may want more room than there is in a window.  What the reader of a
DHT segment and the maker of the tables check is told by the bytes of the segment alone, and
the room is not among it.
-/

namespace Gp2Firmware.Jpeg.HuffmanTable

open Gp2Firmware.Lib Gp2Firmware.Lib.CanonicalCode Gp2Firmware.Jpeg.BitReader

section LookUp

/-- The elements of `s16Look_up` that a code uses. -/
def lookUpIndexes (code : U16) (codeSize : Nat) : List Nat :=
  if codeSize ≤ 8 then
    List.range' (code <<< (8 - codeSize)).toNat (2 ^ (8 - codeSize))
  else
    [(code >>> (codeSize - 8) &&& 0xFF).toNat]

/-- The elements of `s16Look_up` that `MDrv_JPEG_make_huff_table` uses; nothing if it returns
`FALSE`, which it does before the first of them. -/
def tableIndexes (progressive : Bool) (info : HuffInfo) : Option (List Nat) := do
  let (huffsize, lastp) ← makeSizes info.huffNum
  let huffsize := Function.update huffsize lastp 0
  let huffcode ← makeCodes huffsize
  if progressive then
    some ((List.range lastp).flatMap fun p => lookUpIndexes (huffcode p) (huffsize p))
  else
    some []

/-- Some call of `MDrv_JPEG_make_huff_table` returns `FALSE`, and the calls up to it use no
element of `s16Look_up` that is not there. -/
def ReportsInTime (progressive : Bool) (infos : Nat → HuffInfo) : List Nat → Prop
  | [] => False
  | index :: rest =>
      if (infos index).valid then
        match tableIndexes progressive (infos index) with
        | none => True
        | some indexes => (∀ place ∈ indexes, place < 256) ∧ ReportsInTime progressive infos rest
      else
        ReportsInTime progressive infos rest

variable {place : Nat}

theorem putCode_lookUp {symbol : U8} {code : U16} {codeSize : Nat}
    {s newTables : HuffTables × Int} (put : putCode symbol code codeSize s = some newTables)
    (outside : place ∉ lookUpIndexes code codeSize) :
    newTables.1.lookUp place = s.1.lookUp place := by
  rw [putCode] at put
  dsimp only at put
  rw [lookUpIndexes] at outside
  split at put
  · rename_i short
    rw [if_pos short, List.mem_range'_1] at outside
    cases put
    exact fillLookUp_eq.trans (if_neg outside)
  · rename_i long
    rw [if_neg long, List.mem_singleton] at outside
    simp only [Option.map_eq_some_iff] at put
    obtain ⟨_, -, tables_eq⟩ := put
    cases tables_eq
    dsimp only
    split
    · exact Function.update_of_ne outside _ _
    · rfl

/-- The tables are written at these elements only. -/
theorem makeHuffTable_lookUp {progressive : Bool} {info made : HuffInfo}
    {hs tables : HuffTables} {indexes : List Nat}
    (uses : tableIndexes progressive info = some indexes)
    (makes : makeHuffTable progressive info hs = some (made, tables))
    (outside : place ∉ indexes) :
    tables.lookUp place = if progressive then 0 else hs.lookUp place := by
  simp only [tableIndexes, makeHuffTable, Option.bind_eq_bind, Option.bind_eq_some_iff] at uses makes
  obtain ⟨⟨huffsize, lastp⟩, sized, huffcode, coded, listed⟩ := uses
  obtain ⟨_, sameSizes, _, sameCodes, filled⟩ := makes
  cases sized.symm.trans sameSizes
  cases coded.symm.trans sameCodes
  cases progressive with
  | false =>
      cases filled
      rfl
  | true =>
      simp only [if_true, Option.bind_eq_some_iff] at filled listed ⊢
      obtain ⟨⟨newTables, last⟩, put, same⟩ := filled
      cases same
      cases listed
      have steps : ∀ count ≤ lastp, ∀ tables, (List.range count).foldlM
          (fun s p => putCode (info.huffVal p) (huffcode p)
            (Function.update huffsize lastp 0 p) s)
          (⟨fun _ => 0, fun _ => 0, fun _ => 0⟩, -1) = some tables →
          tables.1.lookUp place = 0 := by
        intro count le
        induction count with
        | zero =>
            intro tables made
            cases made
            rfl
        | succ count inductionHypothesis =>
            intro tables made
            obtain ⟨before, madeBefore, put⟩ := foldlM_range_succ.mp made
            rw [putCode_lookUp put, inductionHypothesis (by omega) before madeBefore]
            intro used
            exact outside (List.mem_flatMap.mpr ⟨count, List.mem_range.mpr le, used⟩)
      exact steps lastp le_rfl _ put

end LookUp

section Segment

/-- A table in a segment: the bytes that are left from it on, its place and its counts. -/
structure SegmentTable where
  left : Nat
  index : Nat
  huffNum : Nat → U8

/-- The table that begins with a byte of the stream. -/
def tableAt (left : Nat) (stream : Nat → U8) : SegmentTable where
  left := left
  index := (stream 0).toNat % 16 + ((stream 0).toNat / 16 % 2) * (JPEG_MAXHUFFTABLES / 2)
  huffNum := fun size => if 1 ≤ size ∧ size < 17 then stream size else 0

def SegmentTable.size (table : SegmentTable) : Nat :=
  1 + 16 + codesUpTo table.huffNum 16

/-- The tables of a segment; each takes at least one of the bytes that are left. -/
def tablesFrom : Nat → Nat → (Nat → U8) → List SegmentTable
  | 0, _, _ => []
  | turns + 1, left, stream =>
      if left = 0 then
        []
      else
        tableAt left stream :: tablesFrom turns (left - (tableAt left stream).size)
          fun byte => stream ((tableAt left stream).size + byte)

/-- The length that a segment tells. -/
def segmentLength (stream : Nat → U8) : Nat :=
  ((stream 0).toNat * 256 + (stream 1).toNat) % 65536

def segmentTables (stream : Nat → U8) : List SegmentTable :=
  tablesFrom (segmentLength stream - 2) (segmentLength stream - 2) fun byte => stream (2 + byte)

/-- No prefix code has the counts of some table. -/
def OverSubscribed (stream : Nat → U8) : Prop :=
  ∃ table ∈ segmentTables stream, 2 ^ 16 < kraftUpTo table.huffNum 16

/-- More codes than an array holds, more bytes than are left, or a place that is not there. -/
def SegmentTable.Bad (table : SegmentTable) : Prop :=
  255 < codesUpTo table.huffNum 16 ∨ table.left < table.size ∨ JPEG_MAXHUFFTABLES ≤ table.index

def BadSegment (stream : Nat → U8) : Prop :=
  segmentLength stream < 2 ∨ ∃ table ∈ segmentTables stream, table.Bad

instance (table : SegmentTable) : Decidable table.Bad :=
  inferInstanceAs (Decidable (_ ∨ _ ∨ _))

instance (stream : Nat → U8) : Decidable (OverSubscribed stream) :=
  inferInstanceAs (Decidable (∃ table ∈ segmentTables stream, _))

instance (stream : Nat → U8) : Decidable (BadSegment stream) :=
  inferInstanceAs (Decidable (_ ∨ ∃ table ∈ segmentTables stream, table.Bad))

end Segment

section Stream

variable (wait : Wait)

/-- The reader behind a number of bytes. -/
def skip (count : Nat) (r : Reader) : Reader :=
  (fun r => (getChar wait r).2)^[count] r

/-- The bytes that a reader gives. -/
def chars (r : Reader) (byte : Nat) : U8 :=
  (getChar wait (skip wait byte r)).1

variable {wait} {r : Reader}

theorem skip_skip {first second : Nat} :
    skip wait second (skip wait first r) = skip wait (first + second) r := by
  rw [skip, skip, ← Function.iterate_add_apply, Nat.add_comm]
  rfl

theorem chars_skip {first : Nat} :
    chars wait (skip wait first r) = fun byte => chars wait r (first + byte) := by
  funext byte
  rw [chars, chars, skip_skip]

theorem getChar_eq : getChar wait r = (chars wait r 0, skip wait 1 r) := rfl

theorem readBytes_eq {first count : Nat} {bytes : Nat → U8} :
    readBytes wait first count (bytes, r) =
      (fun place => if first ≤ place ∧ place < first + count then chars wait r (place - first)
        else bytes place, skip wait count r) := by
  induction count generalizing first bytes r with
  | zero =>
      have none : ∀ place, ¬ (first ≤ place ∧ place < first) := by omega
      simp only [readBytes, Nat.add_zero, none, if_false]
      rfl
  | succ count inductionHypothesis =>
      rw [readBytes, getChar_eq]
      dsimp only
      rw [inductionHypothesis, chars_skip, skip_skip, Nat.add_comm 1 count]
      congr 1
      funext place
      rcases Nat.lt_trichotomy place first with before | here | behind
      · rw [if_neg (by omega), if_neg (by omega), Function.update_of_ne (by omega)]
      · rw [here, if_neg (by omega), if_pos (by omega), Function.update_self, Nat.sub_self]
      · dsimp only
        rw [Function.update_of_ne (by omega),
          show 1 + (place - (first + 1)) = place - first by omega]
        congr 1
        simp only [eq_iff_iff]
        omega

theorem readBytes_huffNum {left : Nat} :
    readBytes wait 1 16 (fun _ => 0, skip wait 1 r) =
      ((tableAt left (chars wait r)).huffNum, skip wait 17 r) := by
  rw [readBytes_eq, chars_skip, skip_skip]
  congr 1
  funext size
  dsimp only [tableAt]
  split
  · rw [show 1 + (size - 1) = size by omega]
  · rfl

/-- Whether a marker is refused follows from its tables, each of them by itself. -/
theorem readDhtTables_error_iff {turns left : Nat} {infos : Nat → HuffInfo} :
    (∃ error, (readDhtTables wait turns left infos r).1 = .error error) ↔
      ∃ table ∈ tablesFrom turns left (chars wait r), table.Bad := by
  induction turns generalizing left infos r with
  | zero => simp [readDhtTables, tablesFrom]
  | succ turns inductionHypothesis =>
      rw [readDhtTables, tablesFrom]
      split
      · simp
      rw [getChar_eq]
      dsimp only
      rw [@readBytes_huffNum wait r left]
      dsimp only
      rw [readBytes_eq, skip_skip]
      dsimp only
      rw [List.exists_mem_cons_iff, ← chars_skip]
      have bad : (tableAt left (chars wait r)).Bad ↔
          255 < codesUpTo (tableAt left (chars wait r)).huffNum 16 ∨
            left < 1 + 16 + codesUpTo (tableAt left (chars wait r)).huffNum 16 ∨
            JPEG_MAXHUFFTABLES ≤ (chars wait r 0).toNat % 16 +
              (chars wait r 0).toNat / 16 % 2 * (JPEG_MAXHUFFTABLES / 2) := Iff.rfl
      rw [bad]
      split
      · rename_i many
        exact iff_of_true ⟨_, rfl⟩ (.inl (.inl many))
      rename_i few
      split
      · rename_i short
        exact iff_of_true ⟨_, rfl⟩ (.inl (.inr (.inl short)))
      rename_i long
      split
      · rename_i outside
        exact iff_of_true ⟨_, rfl⟩ (.inl (.inr (.inr outside)))
      rename_i inside
      rw [inductionHypothesis, or_iff_right]
      · rfl
      · intro refused
        rcases refused with many | short | outside
        · exact few many
        · exact long short
        · exact inside outside

/-- A segment is refused for its length or for one of its tables. -/
theorem readDhtMarker_error_iff {infos : Nat → HuffInfo} :
    (∃ error, (readDhtMarker wait infos r).1 = .error error) ↔ BadSegment (chars wait r) := by
  have marker : readDhtMarker wait infos r =
      if segmentLength (chars wait r) < 2 then (.error .badDhtMarker, infos, skip wait 2 r)
      else readDhtTables wait (segmentLength (chars wait r) - 2)
        (segmentLength (chars wait r) - 2) infos (skip wait 2 r) := rfl
  rw [marker, BadSegment, segmentTables, ← chars_skip]
  split
  · rename_i short
    exact iff_of_true ⟨_, rfl⟩ (.inl short)
  · rename_i long
    rw [readDhtTables_error_iff]
    exact (or_iff_right long).symm

end Stream

section Codes

variable {sizes : Nat → Nat} {total : Nat}

/-- The loop that gives out the codes comes to their end whatever the codes are. -/
theorem run_codeTurn_ends (ascending : Ascending 16 sizes total)
    (ended : ∀ p, total ≤ p → sizes p = 0) (few : total ≤ 255) {count : Nat} {s : CodeLoop}
    (inside : s.p ≤ total) (positive : 1 ≤ s.si) (size : s.p < total → s.si ≤ sizes s.p)
    (enough : (total - s.p) + (16 - s.si) < count) :
    ∃ huffcode, Loop.run (codeTurn sizes) count s = some (some huffcode) := by
  induction count generalizing s with
  | zero => omega
  | succ count inductionHypothesis =>
      rcases Nat.lt_or_ge s.p total with more | last
      · have fits := ascending.fits _ more
        have least := size more
        by_cases same : sizes s.p = s.si
        · have goes : codeTurn sizes s = .inl { s with
              huffcode := Function.update s.huffcode s.p s.code
              p := s.p + 1
              code := s.code + 1 } := by
            rw [codeTurn, if_pos same, if_neg (by omega)]
          rw [Loop.run_of_goes goes]
          refine inductionHypothesis more positive ?_ (by dsimp only; omega)
          intro next
          rw [← same]
          exact ascending.le_succ _ next
        · have goes : codeTurn sizes s =
              .inl { s with code := s.code <<< 1, si := s.si + 1 } := by
            rw [codeTurn, if_neg same, if_neg (by omega)]
          rw [Loop.run_of_goes goes]
          exact inductionHypothesis inside (Nat.le_succ_of_le positive)
            (fun _ => by dsimp only; omega) (by dsimp only; omega)
      · have zero := ended _ last
        have leaves : codeTurn sizes s = .inr (some s.huffcode) := by
          rw [codeTurn, if_neg (by omega), if_pos zero]
        exact ⟨s.huffcode, Loop.run_of_leaves leaves count⟩

variable {huffNum : Nat → U8} {progressive : Bool} {info : HuffInfo}

/-- With 255 codes at most `MDrv_JPEG_make_huff_table` does not return `FALSE`. -/
theorem tableIndexes_isSome (few : codesUpTo info.huffNum 16 ≤ 255) :
    ∃ indexes, tableIndexes progressive info = some indexes := by
  have ended : Function.update (sizesUpTo info.huffNum 16) (codesUpTo info.huffNum 16) 0 =
      sizesUpTo info.huffNum 16 := by
    rw [← sizesUpTo_of_le (le_refl (codesUpTo info.huffNum 16)), Function.update_eq_self]
  obtain ⟨huffcode, makes⟩ : ∃ huffcode,
      makeCodes (sizesUpTo info.huffNum 16) = some huffcode := by
    rw [makeCodes]
    split
    · exact ⟨_, rfl⟩
    · rename_i some
      have more : 0 < codesUpTo info.huffNum 16 := by
        by_contra none
        exact some (sizesUpTo_of_le (by omega))
      obtain ⟨huffcode, ends⟩ := @run_codeTurn_ends _ _ sizes_ascending
        (fun _ => sizesUpTo_of_le) few 65536 ⟨0, sizesUpTo info.huffNum 16 0, 0, fun _ => 0⟩
        (Nat.zero_le _) (sizes_positive more) (fun _ => le_rfl) (by dsimp only; omega)
      rw [ends]
      exact ⟨huffcode, rfl⟩
  cases progressive with
  | false =>
      rw [tableIndexes, makeSizes_eq few]
      simp only [Option.bind_eq_bind, Option.bind_some, ended, makes]
      exact ⟨_, rfl⟩
  | true =>
      rw [tableIndexes, makeSizes_eq few]
      simp only [Option.bind_eq_bind, Option.bind_some, ended, makes]
      exact ⟨_, rfl⟩

end Codes

section Reached

/-- The tables that a decoder can have: none at first, then those of the segments, and what
is told to the hardware about them. -/
inductive Reached (wait : Wait) : (Nat → HuffInfo) → Prop where
  | start {infos : Nat → HuffInfo} : (∀ index, (infos index).valid = false) → Reached wait infos
  | segment {infos : Nat → HuffInfo} (r : Reader) : Reached wait infos →
      Reached wait (readDhtMarker wait infos r).2.1
  | table {infos : Nat → HuffInfo} {progressive : Bool} {index : Nat} {made : HuffInfo}
      {hs tables : HuffTables} : Reached wait infos →
      makeHuffTable progressive (infos index) hs = some (made, tables) →
      Reached wait (Function.update infos index made)

variable {wait : Wait} {progressive : Bool} {infos : Nat → HuffInfo}

theorem made_eq {info made : HuffInfo} {hs tables : HuffTables}
    (makes : makeHuffTable progressive info hs = some (made, tables)) :
    made.huffNum = info.huffNum ∧ made.valid = info.valid := by
  simp only [makeHuffTable, Option.bind_eq_bind, Option.bind_eq_some_iff] at makes
  obtain ⟨⟨huffsize, lastp⟩, -, huffcode, -, filled⟩ := makes
  split at filled
  · simp only [Option.bind_eq_some_iff] at filled
    obtain ⟨_, -, same⟩ := filled
    cases same
    exact ⟨rfl, rfl⟩
  · cases filled
    exact ⟨rfl, rfl⟩

/-- Each of them has 255 codes at most. -/
theorem Reached.few (reached : Reached wait infos) {index : Nat}
    (valid : (infos index).valid = true) : codesUpTo (infos index).huffNum 16 ≤ 255 := by
  induction reached with
  | start none =>
      rw [none] at valid
      cases valid
  | @segment infos r _ inductionHypothesis =>
      rcases @readDhtMarker_loaded wait infos r index with same | ⟨huffNum, huffVal, earlier, few, same⟩
      · rw [same] at valid ⊢
        exact inductionHypothesis valid
      · rw [same]
        exact few
  | @table infos progressive other made hs tables _ makes inductionHypothesis =>
      by_cases here : index = other
      · subst here
        rw [Function.update_self] at valid ⊢
        obtain ⟨sameNum, sameValid⟩ := made_eq makes
        rw [sameValid] at valid
        rw [sameNum]
        exact inductionHypothesis valid
      · rw [Function.update_of_ne here] at valid ⊢
        exact inductionHypothesis valid

/-- No call of `MDrv_JPEG_make_huff_table` reports an error. -/
theorem Reached.not_reportsInTime (reached : Reached wait infos) {indexes : List Nat} :
    ¬ ReportsInTime progressive infos indexes := by
  induction indexes with
  | nil => exact not_false
  | cons index rest inductionHypothesis =>
      rw [ReportsInTime]
      split
      · rename_i valid
        obtain ⟨places, made⟩ :=
          @tableIndexes_isSome progressive (infos index) (reached.few valid)
        rw [made]
        intro ⟨_, later⟩
        exact inductionHypothesis later
      · exact inductionHypothesis

end Reached

section Main

variable (wait : Wait) (progressive : Bool) (infos : Nat → HuffInfo) (r : Reader)

/-- An over-subscribed segment is refused by the reader of the marker, or by the maker of the
tables, which is called for all of them, before an element of `s16Look_up` is used that is not
there. -/
def RefusesOverSubscribed : Prop :=
  OverSubscribed (chars wait r) →
    (∃ error, (readDhtMarker wait infos r).1 = .error error) ∨
      ReportsInTime progressive (readDhtMarker wait infos r).2.1 (List.range JPEG_MAXHUFFTABLES)

variable {wait progressive infos r}

/-- An over-subscribed segment is refused only for something else. -/
theorem refusesOverSubscribed_iff (reached : Reached wait infos) :
    RefusesOverSubscribed wait progressive infos r ↔
      (OverSubscribed (chars wait r) → BadSegment (chars wait r)) := by
  rw [RefusesOverSubscribed, readDhtMarker_error_iff,
    or_iff_left (reached.segment r).not_reportsInTime]

def noTables (_ : Nat) : HuffInfo :=
  ⟨false, fun _ => 0, fun _ => 0, fun _ => 0, fun _ => 0⟩

/-- A segment of one table with three codes of one bit. -/
def threeCodes (length : U8) : Reader :=
  { sampleReader with
    memory := fun address =>
      ([0, length, 0, 3] ++ List.replicate 15 0 ++ [1, 2, 3]).getD address.toNat 0
    inBufLeft := 22 }

/-- With a byte less than the table takes, the segment is refused. -/
theorem refusesOverSubscribed_short :
    RefusesOverSubscribed id true noTables (threeCodes 21) :=
  (@refusesOverSubscribed_iff id true noTables (threeCodes 21) (.start fun _ => rfl)).mpr
    fun _ => by decide +kernel

/-- The third code begins behind the last element. -/
theorem not_refusesOverSubscribed :
    ¬ RefusesOverSubscribed id true noTables (threeCodes 22) ∧
      256 ∈ (tableIndexes true
        ((readDhtMarker id noTables (threeCodes 22)).2.1 0)).getD [] := by
  refine ⟨?_, by decide +kernel⟩
  intro refuses
  have wanting : OverSubscribed (chars id (threeCodes 22)) := by decide +kernel
  rcases refuses wanting with error | reports
  · rw [readDhtMarker_error_iff] at error
    exact absurd error (by decide +kernel)
  · have reached : Reached id noTables := .start fun _ => rfl
    exact (reached.segment (threeCodes 22)).not_reportsInTime reports

end Main

end Gp2Firmware.Jpeg.HuffmanTable
