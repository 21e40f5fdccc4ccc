import Gp2Firmware.Jpeg.BlockEnds

/-!
# The tables for a scan

In front of a scan the tables that its components name have to be valid, and all that are valid
are made.  This ends as well, unless one of them does not fit into its tree.
-/

namespace Gp2Firmware.Jpeg.Decoder

open Gp2Firmware.Lib (Achieves achieves_pure achieves_modify achieves_get_bind run_get_bind)
open Gp2Firmware.Lib.WordMemory Gp2Firmware.Jpeg.BitReader Gp2Firmware.Jpeg.HuffmanTable
  Gp2Firmware.Jpeg.Mcu

section Conditions

/-- The tables that a component of a scan names are valid, as far as the scan uses them. -/
def ComponentValid (s : State) (i : Nat) : Prop :=
  (s.spectralStart = 0 → (s.huffInfo (s.compDcTab (s.compList i))).valid = true) ∧
    (0 < s.spectralEnd → (s.huffInfo (s.compAcTab (s.compList i))).valid = true)

/-- The codes of a table are not refused. -/
def Coded (huffNum : Nat → U8) : Prop :=
  ∃ huffsize lastp huffcode, makeSizes huffNum = some (huffsize, lastp) ∧
    makeCodes (Function.update huffsize lastp 0) = some huffcode

/-- A table is made for the scan that leaves its tree. -/
def LeavesTree (s : State) : Prop :=
  (∀ i < s.compsInScan, ComponentValid s i) ∧ ∃ index < JPEG_MAXHUFFTABLES,
    (s.huffInfo index).valid = true ∧
    ¬ TreeFits s.progressiveFlag (s.huffInfo index).huffNum (s.huffInfo index).huffVal ∧
    ∀ j < index, (s.huffInfo j).valid = true → Coded (s.huffInfo j).huffNum

/-- What is behind the tables is taken for a valid one. -/
def NamesBehind (s : State) : Prop :=
  ∃ i < s.compsInScan,
    (s.spectralStart = 0 ∧ JPEG_MAXHUFFTABLES ≤ s.compDcTab (s.compList i) ∧
        (s.huffInfo (s.compDcTab (s.compList i))).valid = true) ∨
      (0 < s.spectralEnd ∧ JPEG_MAXHUFFTABLES ≤ s.compAcTab (s.compList i) ∧
        (s.huffInfo (s.compAcTab (s.compList i))).valid = true)

end Conditions

section Making

/-- What a table has been read as. -/
def segmentOf (info : HuffInfo) : Bool × (Nat → U8) × (Nat → U8) :=
  (info.valid, info.huffNum, info.huffVal)

/-- The tables up to one are made, and those that are valid have codes. -/
structure Making (v : State) (i : Nat) (t : State) : Prop where
  only : t = { v with huffInfo := t.huffInfo, huffTbls := t.huffTbls }
  read : ∀ index, segmentOf (t.huffInfo index) = segmentOf (v.huffInfo index)
  made : ∀ j < i, (v.huffInfo j).valid = true → Coded (v.huffInfo j).huffNum ∧ Made t j

variable {machine : Machine} {v t : State} {i count : Nat}

theorem Making.start : Making v 0 v :=
  ⟨rfl, fun _ => rfl, fun j below => absurd below (Nat.not_lt_zero j)⟩

theorem Making.reads (making : Making v i t) : Reads machine v 0 t := by
  have only := making.only
  refine Reads.start.changes ⟨?_, ?_, ?_, ?_, ?_, ?_⟩
  · rw [only]
  · rw [only]
  · rw [only]
  · rw [only]
  · rw [only]
  · rw [only]

theorem Making.progressive (making : Making v i t) : t.progressiveFlag = v.progressiveFlag := by
  rw [making.only]

theorem Making.valid (making : Making v i t) (index : Nat) :
    (t.huffInfo index).valid = (v.huffInfo index).valid :=
  congrArg Prod.fst (making.read index)

theorem Making.huffNum (making : Making v i t) (index : Nat) :
    (t.huffInfo index).huffNum = (v.huffInfo index).huffNum :=
  congrArg (fun read => read.2.1) (making.read index)

theorem Making.huffVal (making : Making v i t) (index : Nat) :
    (t.huffInfo index).huffVal = (v.huffInfo index).huffVal :=
  congrArg (fun read => read.2.2) (making.read index)

/-- A table that is not valid is not made. -/
theorem Making.skip (making : Making v i t) (other : ¬ (t.huffInfo i).valid = true) :
    Making v (i + 1) t := by
  refine ⟨making.only, making.read, ?_⟩
  intro j below valid
  by_cases last : j = i
  · rw [last, ← making.valid] at valid
    exact absurd valid other
  · exact making.made j (by omega) valid

/-- A table is made from its codes. -/
theorem Making.next (making : Making v i t) {info : HuffInfo} {hs : HuffTables} {next : Int}
    (read : segmentOf info = segmentOf (t.huffInfo i)) (coded : Coded (v.huffInfo i).huffNum)
    (descends : Descends (hs, next)) :
    Making v (i + 1) { t with
      huffInfo := Function.update t.huffInfo i info
      huffTbls := Function.update t.huffTbls i hs } := by
  refine ⟨?_, ?_, ?_⟩
  · rw [making.only]
  · intro index
    dsimp only
    by_cases here : index = i
    · rw [here, Function.update_self, read]
      exact making.read i
    · rw [Function.update_of_ne here]
      exact making.read index
  · intro j below valid
    by_cases last : j = i
    · rw [last]
      refine ⟨coded, next, ?_⟩
      dsimp only
      rw [Function.update_self]
      exact descends
    · obtain ⟨codedBefore, before, descendsBefore⟩ := making.made j (by omega) valid
      refine ⟨codedBefore, before, ?_⟩
      dsimp only
      rw [Function.update_of_ne last]
      exact descendsBefore

theorem makeHuffTable_refused (refused : ¬ Coded (t.huffInfo i).huffNum) :
    makeHuffTable machine i t = fail machine .undefinedHuffTable t := by
  simp only [makeHuffTable, run_get_bind]
  cases sizes : makeSizes (t.huffInfo i).huffNum with
  | none => rfl
  | some sized =>
      obtain ⟨huffsize, lastp⟩ := sized
      dsimp only
      cases codes : makeCodes (Function.update huffsize lastp 0) with
      | none => rfl
      | some huffcode => exact absurd ⟨huffsize, lastp, huffcode, sizes, codes⟩ refused

/-- A table with codes, whose symbols of each length are known from then on. -/
def withCodes (info : HuffInfo) (huffcode : Nat → U16) : HuffInfo :=
  { info with code := fun i => huffcode (info.symbol i).toNat <<< (15 - (i - 1)) }

theorem makeHuffTable_coded {huffsize : Nat → Nat} {lastp : Nat} {huffcode : Nat → U16}
    (progressive : t.progressiveFlag = true)
    (sizes : makeSizes (t.huffInfo i).huffNum = some (huffsize, lastp))
    (codes : makeCodes (Function.update huffsize lastp 0) = some huffcode) :
    makeHuffTable machine i t =
      (makeTables (t.huffInfo i).huffVal (Function.update huffsize lastp 0) huffcode lastp).map
        fun made => (true, { t with
          huffInfo := Function.update t.huffInfo i (withCodes (t.huffInfo i) huffcode)
          huffTbls := Function.update t.huffTbls i made.1 }) := by
  simp only [makeHuffTable, run_get_bind]
  rw [sizes]
  dsimp only
  rw [codes]
  change makeSoftwareTable i (Function.update huffsize lastp 0) huffcode lastp { t with
    huffInfo := Function.update t.huffInfo i (withCodes (t.huffInfo i) huffcode) } = _
  unfold makeSoftwareTable
  change (if t.progressiveFlag = false then _ else _ : Program State Bool) _ = _
  rw [progressive, if_neg (by decide)]
  dsimp only
  have same : (withCodes (t.huffInfo i) huffcode).huffVal = (t.huffInfo i).huffVal := rfl
  rw [Function.update_self, same]
  cases makeTables (t.huffInfo i).huffVal (Function.update huffsize lastp 0) huffcode lastp with
  | none => rfl
  | some made => rfl

/-- A check passes with some of the tables made, or an error is found. -/
def TablesPass (machine : Machine) (v : State) (i : Nat) (ok : Bool) (t : State) : Prop :=
  (ok = true → Making v i t) ∧ ∃ n, Reads machine v n t

theorem Making.tablesPass (making : Making v i t) (ok : Bool) : TablesPass machine v i ok t :=
  ⟨fun _ => making, 0, making.reads⟩

variable (intact : Intact machine v)

include intact

theorem achieves_fail_tablesPass {status : JpegError} {more : Nat} :
    Achieves (Making v i) (fail machine status) (TablesPass machine v more) := by
  intro t making
  obtain ⟨ok, u, ran, failed, reads⟩ := @achieves_fail _ _ _ t intact making.reads status t rfl
  refine ⟨ok, u, ran, ?_, 0, reads⟩
  rw [failed]
  exact fun impossible => absurd impossible Bool.false_ne_true

/-- A table that fits is made, or refused for its codes. -/
theorem achieves_makeHuffTable (progressive : v.progressiveFlag = true)
    (fits : TreeFits v.progressiveFlag (v.huffInfo i).huffNum (v.huffInfo i).huffVal) :
    Achieves (Making v i) (makeHuffTable machine i) (TablesPass machine v (i + 1)) := by
  intro t making
  by_cases coded : Coded (v.huffInfo i).huffNum
  · obtain ⟨huffsize, lastp, huffcode, sizes, codes⟩ := coded
    have made := fits huffsize lastp huffcode sizes codes progressive
    obtain ⟨⟨hs, next⟩, tables⟩ := Option.isSome_iff_exists.mp made
    have descends := descends_makeTables tables
    rw [← making.progressive] at progressive
    rw [← making.huffNum] at sizes
    rw [← making.huffVal] at tables
    have coded : Coded (v.huffInfo i).huffNum := ⟨huffsize, lastp, huffcode,
      by rw [← making.huffNum]; exact sizes, codes⟩
    have read : segmentOf (withCodes (t.huffInfo i) huffcode) = segmentOf (t.huffInfo i) := rfl
    refine ⟨true, _, ?_, (making.next read coded descends).tablesPass true⟩
    rw [makeHuffTable_coded progressive sizes codes, tables]
    rfl
  · have refused : ¬ Coded (t.huffInfo i).huffNum := by
      rw [making.huffNum]
      exact coded
    rw [makeHuffTable_refused refused]
    exact achieves_fail_tablesPass intact t making

theorem achieves_makeValidTable (progressive : v.progressiveFlag = true)
    (fits : (v.huffInfo i).valid = true →
      TreeFits v.progressiveFlag (v.huffInfo i).huffNum (v.huffInfo i).huffVal) :
    Achieves (Making v i) (makeValidTable machine i) (TablesPass machine v (i + 1)) := by
  unfold makeValidTable
  apply achieves_get_bind
  intro t making
  refine Achieves.ite ?_ ?_
  · intro valid
    rw [making.valid] at valid
    exact Achieves.at making (achieves_makeHuffTable intact progressive (fits valid))
  · intro other
    apply achieves_pure
    intro u same
    subst same
    exact (making.skip other).tablesPass true

theorem achieves_makeValidTables (progressive : v.progressiveFlag = true) (stays : ¬ LeavesTree v)
    (valid : ∀ i < v.compsInScan, ComponentValid v i) (upTo : i + count ≤ JPEG_MAXHUFFTABLES) :
    Achieves (Making v i) (forEachOk (makeValidTable machine) i count)
      (TablesPass machine v (i + count)) := by
  induction count generalizing i with
  | zero => exact achieves_pure fun _ making => making.tablesPass true
  | succ count inductionHypothesis =>
      intro t making
      have fits : (v.huffInfo i).valid = true →
          TreeFits v.progressiveFlag (v.huffInfo i).huffNum (v.huffInfo i).huffVal := by
        intro isValid
        by_contra leaves
        exact stays ⟨valid, i, by omega, isValid, leaves, fun j below isValid =>
          (making.made j below isValid).1⟩
      refine Achieves.bind (achieves_makeValidTable intact progressive fits) ?_ t making
      intro ok
      rw [show i + (count + 1) = i + 1 + count by omega]
      cases ok with
      | false =>
          exact achieves_pure fun _ passes => ⟨fun failed => absurd failed Bool.false_ne_true,
            passes.2⟩
      | true =>
          exact (inductionHypothesis (by omega)).imp (fun _ passes => passes.1 rfl)
            fun _ _ passes => passes

omit intact in
/-- The tables are made up to one that leaves its tree. -/
theorem makeValidTables_leave {index : Nat} (valid : (v.huffInfo index).valid = true)
    (leaves : ¬ TreeFits v.progressiveFlag (v.huffInfo index).huffNum (v.huffInfo index).huffVal)
    (coded : ∀ j < index, (v.huffInfo j).valid = true → Coded (v.huffInfo j).huffNum)
    (behind : i ≤ index) (upTo : index < i + count) (making : Making v i t) :
    forEachOk (makeValidTable machine) i count t = none := by
  have progressive : t.progressiveFlag = true := by
    rw [making.progressive]
    by_contra other
    exact leaves fun _ _ _ _ _ progressive => absurd progressive other
  induction count generalizing i t with
  | zero => omega
  | succ count inductionHypothesis =>
      change (makeValidTable machine i t).bind _ = _
      change ((if (t.huffInfo i).valid = true then makeHuffTable machine i else pure true :
        Program State Bool) t).bind _ = _
      by_cases last : i = index
      · subst last
        have made : makeHuffTable machine i t = none := by
          simp only [TreeFits, not_forall] at leaves
          obtain ⟨huffsize, lastp, huffcode, sizes, codes, -, none⟩ := leaves
          rw [Option.not_isSome_iff_eq_none] at none
          rw [← making.huffNum] at sizes
          rw [← making.huffVal] at none
          rw [makeHuffTable_coded progressive sizes codes, none]
          rfl
        rw [if_pos (by rw [making.valid]; exact valid), made]
        rfl
      by_cases isValid : (t.huffInfo i).valid = true
      · rw [if_pos isValid]
        rw [making.valid] at isValid
        have codedHere := coded i (by omega) isValid
        obtain ⟨huffsize, lastp, huffcode, sizes, codes⟩ := codedHere
        rw [← making.huffNum] at sizes
        rw [makeHuffTable_coded progressive sizes codes]
        cases tables : makeTables (t.huffInfo i).huffVal (Function.update huffsize lastp 0)
            huffcode lastp with
        | none => rfl
        | some made =>
            have read : segmentOf (withCodes (t.huffInfo i) huffcode) =
              segmentOf (t.huffInfo i) := rfl
            exact inductionHypothesis (by omega) (by omega)
              (making.next read (coded i (by omega) isValid) (descends_makeTables tables))
              progressive
      · rw [if_neg isValid]
        exact inductionHypothesis (by omega) (by omega) (making.skip isValid) progressive

end Making

section Checking

variable {machine : Machine} {v t : State} {i count : Nat} {status : JpegError}

/-- Checks that leave the state as it is pass all, or one of them fails. -/
theorem forEachOk_checks {part : Nat → Program State Bool} {holds : Nat → Prop}
    (passes : ∀ i, holds i → part i v = some (true, v))
    (fails : ∀ i, ¬ holds i → part i v = fail machine status v) :
    ((∀ j, i ≤ j → j < i + count → holds j) ∧ forEachOk part i count v = some (true, v)) ∨
      ((∃ j, i ≤ j ∧ j < i + count ∧ ¬ holds j) ∧
        forEachOk part i count v = fail machine status v) := by
  induction count generalizing i with
  | zero => exact .inl ⟨fun j behind upTo => by omega, rfl⟩
  | succ count inductionHypothesis =>
      by_cases here : holds i
      · have later : forEachOk part i (count + 1) v = forEachOk part (i + 1) count v := by
          change (part i v).bind _ = _
          rw [passes i here]
          rfl
        rw [later]
        rcases @inductionHypothesis (i + 1) with
          ⟨all, passesThen⟩ | ⟨⟨j, behind, upTo, not⟩, failsThen⟩
        · refine .inl ⟨?_, passesThen⟩
          intro j behind upTo
          by_cases first : j = i
          · rw [first]
            exact here
          · exact all j (by omega) (by omega)
        · exact .inr ⟨⟨j, by omega, by omega, not⟩, failsThen⟩
      · refine .inr ⟨⟨i, le_rfl, by omega, here⟩, ?_⟩
        change (part i v).bind _ = _
        rw [fails i here]
        change ((terminate machine status v).bind _).bind _ = (terminate machine status v).bind _
        cases terminate machine status v with
        | none => rfl
        | some handled => rfl

theorem checkHuffComponent_valid (valid : ComponentValid v i) :
    checkHuffComponent machine i v = some (true, v) := by
  change (if v.spectralStart = 0 ∧ (v.huffInfo (v.compDcTab (v.compList i))).valid = false then _
    else if 0 < v.spectralEnd ∧ (v.huffInfo (v.compAcTab (v.compList i))).valid = false then _
    else _ : Program State Bool) v = _
  obtain ⟨dc, ac⟩ := valid
  rw [if_neg, if_neg]
  · rfl
  · intro ⟨used, invalid⟩
    rw [ac used] at invalid
    cases invalid
  · intro ⟨used, invalid⟩
    rw [dc used] at invalid
    cases invalid

theorem checkHuffComponent_refused (refused : ¬ ComponentValid v i) :
    checkHuffComponent machine i v = fail machine .undefinedHuffTable v := by
  change (if v.spectralStart = 0 ∧ (v.huffInfo (v.compDcTab (v.compList i))).valid = false then _
    else if 0 < v.spectralEnd ∧ (v.huffInfo (v.compAcTab (v.compList i))).valid = false then _
    else _ : Program State Bool) v = _
  split
  · rfl
  split
  · rfl
  · rename_i dc ac
    simp only [not_and, Bool.not_eq_false] at dc ac
    exact absurd ⟨dc, ac⟩ refused

theorem checkQuantComponent_valid
    (valid : (v.quantTables (v.compQuant (v.compList i))).valid = true) :
    checkQuantComponent machine i v = some (true, v) := by
  change (if (v.quantTables (v.compQuant (v.compList i))).valid = false then _ else _ :
    Program State Bool) v = _
  rw [valid, if_neg (by decide)]
  rfl

theorem checkQuantComponent_refused
    (refused : ¬ (v.quantTables (v.compQuant (v.compList i))).valid = true) :
    checkQuantComponent machine i v = fail machine .undefinedQuantTable v := by
  change (if (v.quantTables (v.compQuant (v.compList i))).valid = false then _ else _ :
    Program State Bool) v = _
  rw [if_pos (Bool.not_eq_true _ ▸ refused)]

/-- The tables of all components are valid, or the first that is not is an error. -/
theorem checkHuffComponents_cases :
    ((∀ j < count, ComponentValid v j) ∧
        forEachOk (checkHuffComponent machine) 0 count v = some (true, v)) ∨
      ((∃ j < count, ¬ ComponentValid v j) ∧
        forEachOk (checkHuffComponent machine) 0 count v =
          fail machine .undefinedHuffTable v) := by
  rcases @forEachOk_checks _ _ 0 count _ _ _ (fun _ => checkHuffComponent_valid)
      (fun _ => @checkHuffComponent_refused machine v _) with
    ⟨all, passes⟩ | ⟨⟨j, -, upTo, refused⟩, fails⟩
  · exact .inl ⟨fun j below => all j (Nat.zero_le j) (by omega), passes⟩
  · exact .inr ⟨⟨j, by omega, refused⟩, fails⟩

/-- Where a table leaves its tree, nothing is known of what comes behind it. -/
theorem checkTables_leave (leaves : LeavesTree v) : checkTables machine v = none := by
  obtain ⟨valid, index, below, isValid, leavesTree, coded⟩ := leaves
  have passes : forEachOk (checkHuffComponent machine) 0 v.compsInScan v = some (true, v) := by
    rcases @checkHuffComponents_cases machine v v.compsInScan with
      ⟨-, passes⟩ | ⟨⟨j, inside, refused⟩, -⟩
    · exact passes
    · exact absurd (valid j inside) refused
  have made := @makeValidTables_leave machine v v 0 JPEG_MAXHUFFTABLES index isValid leavesTree
    coded (Nat.zero_le index) (by omega) .start
  have tables : checkHuffTables machine v = none := by
    change (forEachOk (checkHuffComponent machine) 0 v.compsInScan v).bind _ = none
    rw [passes, Option.bind_some]
    exact (congrFun (if_pos rfl) v).trans made
  change (checkHuffTables machine v).bind _ = none
  rw [tables]
  rfl

variable (intact : Intact machine v)

include intact

/-- Both kinds of tables are checked, and nothing is left but the tables that were made. -/
theorem achieves_checkTables (progressive : v.progressiveFlag = true) (stays : ¬ LeavesTree v) :
    Achieves (· = v) (checkTables machine) fun ok t =>
      (ok = true → Making v JPEG_MAXHUFFTABLES t ∧ ∀ i < v.compsInScan, ComponentValid v i) ∧
        ∃ n, Reads machine v n t := by
  have huffTables : Achieves (· = v) (checkHuffTables machine) fun ok t =>
      (ok = true → Making v JPEG_MAXHUFFTABLES t ∧ ∀ i < v.compsInScan, ComponentValid v i) ∧
        ∃ n, Reads machine v n t := by
    intro t same
    subst same
    change ∃ ok u, (forEachOk (checkHuffComponent machine) 0 t.compsInScan t).bind _ =
      some (ok, u) ∧ _
    rcases @checkHuffComponents_cases machine t t.compsInScan with ⟨valid, passes⟩ | ⟨-, fails⟩
    · rw [passes, Option.bind_some]
      obtain ⟨ok, u, ran, made, reads⟩ := @achieves_makeValidTables machine t 0
        JPEG_MAXHUFFTABLES intact progressive stays valid (by decide) t .start
      exact ⟨ok, u, (congrFun (if_pos rfl) t).trans ran, fun done => ⟨made done, valid⟩, reads⟩
    · rw [fails]
      obtain ⟨ok, u, ran, failed, reads⟩ := @achieves_fail _ _ _ t intact .start
        .undefinedHuffTable t rfl
      rw [ran, failed]
      exact ⟨false, u, rfl, fun impossible => absurd impossible Bool.false_ne_true, 0, reads⟩
  refine huffTables.bind ?_
  intro ok
  cases ok with
  | false =>
      exact achieves_pure fun _ checked => ⟨fun failed => absurd failed Bool.false_ne_true,
        checked.2⟩
  | true =>
      intro t checked
      obtain ⟨making, valid⟩ := checked.1 rfl
      change ∃ ok u, (forEachOk (checkQuantComponent machine) 0 t.compsInScan t) = some (ok, u) ∧ _
      rcases @forEachOk_checks machine t 0 t.compsInScan .undefinedQuantTable _ _
          (fun _ => checkQuantComponent_valid) (fun _ => checkQuantComponent_refused) with
        ⟨-, passes⟩ | ⟨-, fails⟩
      · exact ⟨true, t, passes, fun _ => ⟨making, valid⟩, 0, making.reads⟩
      · obtain ⟨ok, u, ran, failed, readsThen⟩ := @achieves_fail _ _ _ t intact making.reads
          .undefinedQuantTable t rfl
        rw [fails, ran, failed]
        exact ⟨false, u, rfl, fun impossible => absurd impossible Bool.false_ne_true, 0, readsThen⟩

end Checking

end Gp2Firmware.Jpeg.Decoder
