import Gp2Firmware.Lib.Ensures
import Gp2Firmware.Jpeg.OverSubscribed
import Gp2Firmware.Jpeg.Progressive

/-!
# The sizes of DC differences

A symbol of a DC table is the number of bits of a difference, and no mask is put on it.  The
decoder finds in its tables only what the table of the stream has, zeroes and links.
-/

namespace Gp2Firmware.Jpeg.HuffmanTable

open Gp2Firmware.Lib Gp2Firmware.Lib.CanonicalCode Gp2Firmware.Jpeg.BitReader

section Entries

/-- No entry is a symbol of `bound` or more, and the pairs have negative numbers. -/
structure EntriesBelow (bound : Nat) (s : HuffTables × Int) : Prop where
  look : ∀ index, s.1.lookUp index < bound
  pair : ∀ index, s.1.tree index < bound
  next : s.2 < 0

variable {bound : Nat}

theorem update_below {entries : Nat → Int} {value : Int} {place : Nat}
    (below : ∀ index, entries index < bound) (small : value < bound) (index : Nat) :
    Function.update entries place value index < bound := by
  rw [Function.update_apply]
  split
  · exact small
  · exact below index

theorem fillLookUp_below {symbol : Int} (small : symbol < bound) {count code : Nat}
    {lookUp : Nat → Int} (below : ∀ index, lookUp index < bound) (index : Nat) :
    fillLookUp symbol count code lookUp index < bound := by
  induction count generalizing code lookUp with
  | zero => exact below index
  | succ count inductionHypothesis => exact inductionHypothesis (update_below below small)

theorem insertCode_below {symbol : Int} (small : symbol < bound) {turns : Nat} {code : U16}
    {currententry : Int} {s after : (Nat → Int) × Int}
    (inserted : insertCode symbol turns code currententry s = some after)
    (below : ∀ index, s.1 index < bound) (negative : s.2 < 0) :
    (∀ index, after.1 index < bound) ∧ after.2 < 0 := by
  induction turns generalizing code currententry s with
  | zero =>
      simp only [insertCode, Option.bind_eq_bind, Option.bind_eq_some_iff] at inserted
      obtain ⟨place, -, same⟩ := inserted
      cases same
      exact ⟨update_below below small, negative⟩
  | succ turns inductionHypothesis =>
      simp only [insertCode, Option.bind_eq_bind, Option.bind_eq_some_iff] at inserted
      obtain ⟨place, -, inserted⟩ := inserted
      split at inserted
      · exact inductionHypothesis inserted (update_below below (by omega)) (by dsimp only; omega)
      · exact inductionHypothesis inserted below negative

theorem putCode_below {symbol : U8} (small : symbol.toNat < bound) {code : U16} {codeSize : Nat}
    {s after : HuffTables × Int} (put : putCode symbol code codeSize s = some after)
    (below : EntriesBelow bound s) : EntriesBelow bound after := by
  have smallInt : (symbol.toNat : Int) < bound := by omega
  have negative := below.next
  rw [putCode] at put
  dsimp only at put
  split at put
  · cases put
    exact ⟨fillLookUp_below smallInt below.look, below.pair, negative⟩
  · simp only [Option.map_eq_some_iff] at put
    obtain ⟨⟨newTree, newNext⟩, inserted, same⟩ := put
    cases same
    split at inserted
    · obtain ⟨pairs, last⟩ :=
        insertCode_below smallInt inserted below.pair (by dsimp only; omega)
      rename_i empty
      refine ⟨?_, pairs, last⟩
      dsimp only
      rw [if_pos empty]
      exact update_below below.look (by omega)
    · obtain ⟨pairs, last⟩ := insertCode_below smallInt inserted below.pair negative
      rename_i full
      refine ⟨?_, pairs, last⟩
      dsimp only
      rw [if_neg full]
      exact below.look

/-- The tables hold no more than the symbols that are put into them. -/
theorem makeTables_below {huffVal : Nat → U8} {huffsize : Nat → Nat} {huffcode : Nat → U16}
    {lastp : Nat} {after : HuffTables × Int} (positive : 0 < bound)
    (made : makeTables huffVal huffsize huffcode lastp = some after)
    (small : ∀ p < lastp, (huffVal p).toNat < bound) : EntriesBelow bound after := by
  rw [makeTables] at made
  induction lastp generalizing after with
  | zero =>
      cases made
      have zero : (0 : Int) < bound := by omega
      exact ⟨fun _ => zero, fun _ => zero, by decide⟩
  | succ lastp inductionHypothesis =>
      obtain ⟨before, madeBefore, put⟩ := foldlM_range_succ.mp made
      exact putCode_below (small lastp (Nat.lt_succ_self _)) put
        (inductionHypothesis madeBefore fun p less => small p (by omega))

/-- What is decoded is an entry. -/
theorem huffDecode_below {wait : Wait} {s : HuffTables × Int} {r after : Reader} {symbol : Int}
    (below : EntriesBelow bound s) (decoded : huffDecode wait s.1 r = some (symbol, after)) :
    symbol < bound := by
  rw [huffDecode] at decoded
  split at decoded
  · obtain ⟨last, -, leaves⟩ := @Loop.returns_rule _ _ (huffTurn wait s.1) _ _ (fun _ => True)
      (fun _ _ => trivial) trivial ⟨_, decoded⟩
    rw [huffTurn] at leaves
    dsimp only at leaves
    split at leaves
    · cases leaves
    · cases leaves
      exact below.pair _
  · cases decoded
    exact below.look _

end Entries

section Made

variable {info made : HuffInfo} {hs tables : HuffTables}

/-- The tables are those of the sizes and of the codes of the counts. -/
theorem makeHuffTable_filled (few : codesUpTo info.huffNum 16 ≤ 255)
    (makes : makeHuffTable true info hs = some (made, tables)) :
    ∃ huffcode next, makeCodes (sizesUpTo info.huffNum 16) = some huffcode ∧
      makeTables info.huffVal (sizesUpTo info.huffNum 16) huffcode
        (codesUpTo info.huffNum 16) = some (tables, next) := by
  have ended : Function.update (sizesUpTo info.huffNum 16) (codesUpTo info.huffNum 16) 0 =
      sizesUpTo info.huffNum 16 := by
    rw [← sizesUpTo_of_le (le_refl (codesUpTo info.huffNum 16)), Function.update_eq_self]
  simp only [makeHuffTable, makeSizes_eq few, ended, Option.bind_eq_bind, Option.bind_some,
    if_true, Option.bind_eq_some_iff] at makes
  obtain ⟨huffcode, codes, ⟨newTables, next⟩, filled, same⟩ := makes
  cases same
  exact ⟨huffcode, next, codes, filled⟩

def SmallSymbols (info : HuffInfo) : Prop :=
  ∀ p < codesUpTo info.huffNum 16, (info.huffVal p).toNat < 16

instance : Decidable (SmallSymbols info) :=
  inferInstanceAs (Decidable (∀ p < codesUpTo info.huffNum 16, _))

/-- A reader whose register begins with a code. -/
def atCode (sizes : Nat → Nat) (p : Nat) : Reader :=
  { sampleReader with
    memory := fun _ => 1
    bitsLeft := 16
    bitBuf := BitVec.ofNat 32 (start 16 sizes p) }

/-- Each symbol of a table that is not over-subscribed can be the next one. -/
theorem huffDecode_atCode (few : codesUpTo info.huffNum 16 ≤ 255)
    (kraft : kraftUpTo info.huffNum 16 ≤ 2 ^ 16)
    (makes : makeHuffTable true info hs = some (made, tables)) {p : Nat}
    (inside : p < codesUpTo info.huffNum 16) :
    ∃ after, huffDecode id tables (atCode (sizesUpTo info.huffNum 16) p) =
      some (((info.huffVal p).toNat : Int), after) := by
  have coded := coded_of_kraft kraft few
  obtain ⟨huffcode, next, makesCodes, filled⟩ := makeHuffTable_filled few makes
  obtain ⟨sameCodes, returns, codes, -⟩ := makeCodes_eq coded
  cases makesCodes.symm.trans returns
  obtain ⟨nodes, linked⟩ := putCodes_linked coded codes le_rfl filled
  have below := coded.start_lt inside
  have here : pre 16 (sizesUpTo info.huffNum 16 p)
      (window (atCode (sizesUpTo info.huffNum 16) p)) = word (sizesUpTo info.huffNum 16) p := by
    have window_eq : window (atCode (sizesUpTo info.huffNum 16) p) =
        start 16 (sizesUpTo info.huffNum 16) p := by
      rw [window, atCode, BitVec.toNat_ofNat]
      omega
    rw [window_eq, coded.ascending.pre_start inside]
  have bits : (atCode (sizesUpTo info.huffNum 16) p).bitsLeft = 16 := rfl
  exact ⟨_, huffDecode_reads coded linked inside here (fun _ _ _ => rfl) (by omega) (by omega)⟩

end Made

section Sample

/-- A segment of one table with one code of one bit. -/
def oneCode (symbol : U8) : Reader :=
  { sampleReader with
    memory := fun address =>
      ([0, 20, 0, 1] ++ List.replicate 15 0 ++ [symbol]).getD address.toNat 0
    inBufLeft := 20 }

def oneCodeTables (symbol : U8) : Nat → HuffInfo :=
  (readDhtMarker id noTables (oneCode symbol)).2.1

theorem oneCode_reached (symbol : U8) : Reached id (oneCodeTables symbol) :=
  (Reached.start fun _ => rfl).segment (oneCode symbol)

def oneCodeMade (symbol : U8) : Option (HuffInfo × HuffTables) :=
  makeHuffTable true (oneCodeTables symbol 0) ⟨fun _ => 0, fun _ => 0, fun _ => 0⟩

theorem oneCodeMade_fifteen : (oneCodeMade 15).isSome = true := by decide +kernel

theorem oneCodeMade_sixteen : (oneCodeMade 16).isSome = true := by decide +kernel

end Sample

end Gp2Firmware.Jpeg.HuffmanTable

namespace Gp2Firmware.Jpeg.Decoder

open Gp2Firmware.Lib (Ensures ensures_pure ensures_get_bind)
open Gp2Firmware.Lib.WordMemory Gp2Firmware.Jpeg.BitReader Gp2Firmware.Jpeg.HuffmanTable
  Gp2Firmware.Jpeg.Mcu

section DcFirst

variable (machine : Machine)

/-- The place of a block and the symbol of its difference; nothing behind an error. -/
def dcFirstSymbol (componentId blockX blockY : Nat) : Program State (Option (Address × Nat)) := do
  let p ← coeffBufGetp machine ((← get).dcCoeffs componentId) blockX blockY
  if p = 0 then
    pure none
  else do
    let symbol ← huffSymbol machine ((← get).compDcTab componentId)
    pure (some (p, symbol.toNat))

/-- What is done with the symbol: `symbol` bits as an `U8` are read, if there are any, and
the elements `symbol` of `extend_test` and `extend_offset` are used. -/
def dcFirstWith (componentId : Nat) : Option (Address × Nat) → Program State Bool
  | none => pure false
  | some (p, symbol) => do
      let difference ← getExtended machine symbol
      let st ← get
      let s := difference + st.lastDcVal componentId
      modify fun st => { st with lastDcVal := Function.update st.lastDcVal componentId s }
      storeCoef p 0 (s <<< st.successiveLow)
      pure true

variable {machine} {componentId blockX blockY : Nat} {s t : State}

theorem decodeBlockDcFirst_eq :
    decodeBlockDcFirst machine componentId blockX blockY =
      dcFirstSymbol machine componentId blockX blockY >>= dcFirstWith machine componentId := by
  rw [decodeBlockDcFirst, dcFirstSymbol]
  simp only [bind_assoc]
  congr 1
  funext s
  congr 1
  funext p
  split
  · rfl
  · simp only [bind_assoc, pure_bind]
    rfl

/-- A block is found without a change. -/
theorem coeffBufGetp_found {cb : Address} :
    Ensures (· = s) (coeffBufGetp machine cb blockX blockY) fun p t => p ≠ 0 → t = s := by
  have denied : ∀ error, Ensures (· = s) (do
      terminate machine error
      pure (0 : Address)) fun p t => p ≠ 0 → t = s := by
    intro error
    have freed : Ensures (· = s) (terminate machine error) fun _ _ => True :=
      fun _ _ _ _ _ => trivial
    refine freed.bind ?_
    intro _
    exact ensures_pure fun _ _ nonzero => absurd rfl nonzero
  unfold coeffBufGetp
  apply ensures_get_bind
  intro u same
  subst same
  dsimp only
  refine Ensures.ite (fun _ _ _ _ _ ran => by cases ran) ?_
  intro _
  refine Ensures.ite (fun _ => denied _) ?_
  intro _
  refine Ensures.ite (fun _ => denied _) ?_
  exact fun _ => ensures_pure fun _ same _ => same

theorem coeffBufGetp_eq {cb : Address} (nonzero : cb ≠ 0)
    (column : blockX < (blockNumX s.reader.memory cb).toNat)
    (row : blockY < (blockNumY s.reader.memory cb).toNat) :
    coeffBufGetp machine cb blockX blockY s =
      some (pu8Data s.reader.memory cb +
        BitVec.ofNat 32 blockX * (blockSize s.reader.memory cb).setWidth 32 +
        BitVec.ofNat 32 blockY * ((blockSize s.reader.memory cb).setWidth 32 *
          (blockNumX s.reader.memory cb).setWidth 32), s) := by
  unfold coeffBufGetp
  change (if cb = 0 then _ else _ : Program State Address) s = _
  rw [if_neg nonzero, if_neg (by omega), if_neg (by omega)]
  rfl

/-- The symbol is decoded by the table of the component. -/
theorem dcFirstSymbol_decoded :
    Ensures (· = s) (dcFirstSymbol machine componentId blockX blockY) fun result _ =>
      ∀ p symbol, result = some (p, symbol) → ∃ decoded after,
        huffDecode machine.wait (s.huffTbls (s.compDcTab componentId)) s.reader =
          some (decoded, after) ∧ symbol = decoded.toNat := by
  unfold dcFirstSymbol
  apply ensures_get_bind
  intro u same
  subst same
  refine coeffBufGetp_found.bind ?_
  intro p
  refine Ensures.ite (fun _ => ensures_pure fun _ _ _ _ none => by cases none) ?_
  intro some
  apply ensures_get_bind
  intro t found
  rw [found some]
  have symbolRead : Ensures (· = u) (huffSymbol machine (u.compDcTab componentId))
      fun decoded _ => ∃ after, huffDecode machine.wait (u.huffTbls (u.compDcTab componentId))
        u.reader = .some (decoded, after) := by
    intro v decoded w same ran
    subst same
    rw [huffSymbol, Option.map_eq_some_iff] at ran
    obtain ⟨⟨_, after⟩, decodes, same⟩ := ran
    cases same
    exact ⟨after, decodes⟩
  refine symbolRead.bind ?_
  intro decoded
  apply ensures_pure
  intro v read p symbol same
  cases same
  obtain ⟨after, decodes⟩ := read
  exact ⟨decoded, after, decodes, rfl⟩

theorem dcFirstSymbol_found {p : Address} {decoded : Int} {after : Reader}
    (found : coeffBufGetp machine (s.dcCoeffs componentId) blockX blockY s = some (p, s))
    (nonzero : p ≠ 0)
    (decodes : huffDecode machine.wait (s.huffTbls (s.compDcTab componentId)) s.reader =
      some (decoded, after)) :
    dcFirstSymbol machine componentId blockX blockY s =
      some (some (p, decoded.toNat), { s with reader := after }) := by
  have read : huffSymbol machine (s.compDcTab componentId) s =
      some (decoded, { s with reader := after }) := by
    rw [huffSymbol, decodes]
    rfl
  have blocks : (coeffBufGetp machine (s.dcCoeffs componentId) blockX blockY).run s =
      some (p, s) := found
  have symbols : (huffSymbol machine (s.compDcTab componentId)).run s =
      some (decoded, { s with reader := after }) := read
  unfold dcFirstSymbol
  change StateT.run _ s = _
  simp only [StateT.run_bind, StateT.run_get, Option.pure_def, Option.bind_eq_bind,
    Option.bind_some, blocks, if_neg nonzero, symbols, StateT.run_pure]

/-- For whatever is in the stream, 16 bits at most are read for a difference, and the elements
that are used are there. -/
def SizesInside (tables : HuffTables) : Prop :=
  ∀ (machine : Machine) (componentId blockX blockY : Nat) (s t : State) (p : Address)
    (symbol : Nat), s.huffTbls (s.compDcTab componentId) = tables →
    dcFirstSymbol machine componentId blockX blockY s = some (some (p, symbol), t) →
    symbol % 256 ≤ 16 ∧ symbol < 16

end DcFirst

section Main

/-- A machine whose stream is in the buffer as a whole. -/
def wholeMachine : Machine :=
  ⟨0, id, fun _ => (0, 0), fun _ => 0, (0, 0), (0, 0), 65536⟩

/-- A decoder in front of a block. -/
def atBlock (tables : HuffTables) (r : Reader) : State :=
  { State.start r with
    huffTbls := fun _ => tables
    dcCoeffs := fun _ => 1 }

theorem dcFirstSymbol_atBlock {tables : HuffTables} {r after : Reader} {decoded : Int}
    (memory : r.memory = fun _ => 1) (decodes : huffDecode id tables r = some (decoded, after)) :
    dcFirstSymbol wholeMachine 0 0 0 (atBlock tables r) =
      some (some (0x01010101, decoded.toNat), { atBlock tables r with reader := after }) := by
  have column : 0 < (blockNumX r.memory 1).toNat := by
    rw [memory]
    decide
  have row : 0 < (blockNumY r.memory 1).toNat := by
    rw [memory]
    decide
  have place : pu8Data r.memory 1 + BitVec.ofNat 32 0 * (blockSize r.memory 1).setWidth 32 +
      BitVec.ofNat 32 0 * ((blockSize r.memory 1).setWidth 32 *
        (blockNumX r.memory 1).setWidth 32) = 0x01010101 := by
    rw [memory]
    decide
  have found := @coeffBufGetp_eq wholeMachine 0 0 (atBlock tables r) 1 (by decide) column row
  exact dcFirstSymbol_found (found.trans (congrArg (fun p => some (p, atBlock tables r)) place))
    (by decide) decodes

variable {wait : Wait} {infos : Nat → HuffInfo} {index : Nat} {made : HuffInfo}
  {hs tables : HuffTables}

/-- A DC table is safe if all its symbols are below 16, and one that is not over-subscribed
only then. -/
theorem dcSizes_inside_iff (reached : Reached wait infos) (valid : (infos index).valid = true)
    (makes : HuffmanTable.makeHuffTable true (infos index) hs = some (made, tables)) :
    (SmallSymbols (infos index) → SizesInside tables) ∧
      (kraftUpTo (infos index).huffNum 16 ≤ 2 ^ 16 →
        (SizesInside tables ↔ SmallSymbols (infos index))) := by
  have few := reached.few valid
  have enough : SmallSymbols (infos index) → SizesInside tables := by
    intro small machine componentId blockX blockY s t p symbol same ran
    obtain ⟨huffcode, next, -, filled⟩ := makeHuffTable_filled few makes
    obtain ⟨decoded, after, decodes, symbol_eq⟩ :=
      dcFirstSymbol_decoded s _ t rfl ran p symbol rfl
    rw [same] at decodes
    have below : decoded < (16 : Nat) :=
      huffDecode_below (makeTables_below (by decide) filled small) decodes
    omega
  refine ⟨enough, ?_⟩
  intro kraft
  refine ⟨?_, enough⟩
  intro sizesInside p inside
  obtain ⟨after, decodes⟩ := huffDecode_atCode few kraft makes inside
  have used := sizesInside wholeMachine 0 0 0 _ _ _ _ rfl (dcFirstSymbol_atBlock rfl decodes)
  exact used.2

/-- The code of a difference of 15 bits. -/
theorem dcSizes_inside_oneCode :
    SizesInside ((oneCodeMade 15).get oneCodeMade_fifteen).2 := by
  have valid : (oneCodeTables 15 0).valid = true := by decide +kernel
  have small : SmallSymbols (oneCodeTables 15 0) := by decide +kernel
  have makes : oneCodeMade 15 = some ((oneCodeMade 15).get oneCodeMade_fifteen) :=
    (Option.some_get oneCodeMade_fifteen).symm
  generalize (oneCodeMade 15).get oneCodeMade_fifteen = made at makes
  exact (dcSizes_inside_iff (oneCode_reached 15) valid makes).1 small

/-- A symbol of 16 is taken for one, and there are no elements for it. -/
theorem dcSizes_not_always_inside :
    (HuffmanTable.readDhtMarker id noTables (oneCode 16)).1 = .ok () ∧
      ¬ SizesInside ((oneCodeMade 16).get oneCodeMade_sixteen).2 := by
  refine ⟨by rfl, ?_⟩
  intro inside
  have decodes : (huffDecode id ((oneCodeMade 16).get oneCodeMade_sixteen).2
      { sampleReader with memory := fun _ => 1 }).map (fun decoded => decoded.1) = some 16 := by
    decide +kernel
  obtain ⟨⟨decoded, after⟩, decodes, same⟩ := Option.map_eq_some_iff.mp decodes
  dsimp only at same
  rw [same] at decodes
  have used := inside wholeMachine 0 0 0 _ _ _ _ rfl (dcFirstSymbol_atBlock rfl decodes)
  exact absurd used.2 (by decide)

end Main

end Gp2Firmware.Jpeg.Decoder
