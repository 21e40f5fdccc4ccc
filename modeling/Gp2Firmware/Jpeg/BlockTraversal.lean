import Mathlib.Data.List.Nodup
import Mathlib.Data.List.Range
import Mathlib.Tactic.Ring
import Gp2Firmware.Jpeg.Mcu

/-!
# The order of the blocks

`MDrv_JPEG_decode_scan` goes through the blocks of a scan and
`MDrv_JPEG_load_next_row` through those of a row of the picture, both with
counters for the columns of each component and offsets inside of an MCU.
-/

namespace Gp2Firmware.Jpeg.Mcu

/-- A part of the decoder: it changes the state and may not come to an end. -/
abbrev Program (σ : Type) := StateT σ Option

/-- `block_x_mcu` with `block_x_mcu_ofs` and `block_y_mcu_ofs`. -/
structure Cursor where
  blockXMcu : Nat → Nat
  blockXMcuOfs : Nat
  blockYMcuOfs : Nat

section Code

variable (f : Frame) (compsInScan : Nat)

/-- The counters behind a block; `ofsBits` and `xBits` are the widths of their types. -/
def Cursor.advance (ofsBits xBits : Nat) (c : Nat) (cursor : Cursor) : Cursor :=
  if compsInScan = 1 then
    { cursor with
      blockXMcu := Function.update cursor.blockXMcu c ((cursor.blockXMcu c + 1) % 2 ^ xBits) }
  else
    let x := (cursor.blockXMcuOfs + 1) % 2 ^ ofsBits
    if x = f.hSamp c then
      let y := (cursor.blockYMcuOfs + 1) % 2 ^ ofsBits
      if y = f.vSamp c then
        { blockXMcu :=
            Function.update cursor.blockXMcu c ((cursor.blockXMcu c + f.hSamp c) % 2 ^ xBits)
          blockXMcuOfs := 0
          blockYMcuOfs := 0 }
      else
        { cursor with blockXMcuOfs := 0, blockYMcuOfs := y }
    else
      { cursor with blockXMcuOfs := x }

/-- `block_y_mcu` behind a row of MCUs. -/
def advanceRow (compList : List Nat) (blockYMcu : Nat → Nat) : Nat → Nat :=
  match compList with
  | [c] => Function.update blockYMcu c ((blockYMcu c + 1) % 2 ^ 32)
  | _ =>
      compList.foldl
        (fun blockYMcu c => Function.update blockYMcu c ((blockYMcu c + f.vSamp c) % 2 ^ 32))
        blockYMcu

/-- The block at the cursor, as the arguments of type `U16` of a call. -/
def Cursor.block (cursor : Cursor) (blockYMcu : Nat → Nat) (c : Nat) : Nat × Nat :=
  ((cursor.blockXMcu c + cursor.blockXMcuOfs) % 2 ^ 16,
    (blockYMcu c + cursor.blockYMcuOfs) % 2 ^ 16)

section Scan

variable {σ : Type} (processRestart : Program σ Bool) (countMcu : Program σ Unit)
  (decodeBlock : Nat → Nat → Nat → Program σ Bool)

/-- The blocks of an MCU; nothing if one of them cannot be decoded. -/
def scanMcu (blockYMcu : Nat → Nat) : List Nat → Cursor → Program σ (Option Cursor)
  | [], cursor => pure (some cursor)
  | c :: mcuOrg, cursor => do
      let (x, y) := cursor.block blockYMcu c
      if ← decodeBlock c x y then
        scanMcu blockYMcu mcuOrg (cursor.advance f compsInScan 8 32 c)
      else
        pure none

/-- A number of MCUs of a row. -/
def scanRow (mcuOrg : List Nat) (blockYMcu : Nat → Nat) : Nat → (Nat → Nat) → Program σ Bool
  | 0, _ => pure true
  | mcus + 1, blockXMcu => do
      if ← processRestart then
        match ← scanMcu f compsInScan decodeBlock blockYMcu mcuOrg ⟨blockXMcu, 0, 0⟩ with
        | none => pure false
        | some cursor =>
            countMcu
            scanRow mcuOrg blockYMcu mcus cursor.blockXMcu
      else
        pure false

/-- A number of rows of MCUs. -/
def scanRows (order : McuOrder) (compList : List Nat) : Nat → (Nat → Nat) → Program σ Bool
  | 0, _ => pure true
  | rows + 1, blockYMcu => do
      if ← scanRow f compsInScan processRestart countMcu decodeBlock order.mcuOrg blockYMcu
          order.mcusPerRow (fun _ => 0) then
        scanRows order compList rows (advanceRow f compList blockYMcu)
      else
        pure false

end Scan

/-- `decode_scan`: `processRestart` is what is done about a restart interval in front of an
MCU, and `countMcu` counts it. -/
def decodeScan {σ : Type} (order : McuOrder) (compList : List Nat)
    (processRestart : Program σ Bool) (countMcu : Program σ Unit)
    (decodeBlock : Nat → Nat → Nat → Program σ Bool) : Program σ Bool :=
  scanRows f compList.length processRestart countMcu decodeBlock order compList
    order.mcusPerCol (fun _ => 0)

section Block

variable {σ : Type} (dcCoeffs acCoeffs : Nat → CoeffBuf)
  (doRle : Nat → Nat → Nat → Program σ Unit)

/-- What `load_next_row` does about a block: `do_RLE` gets its coefficients, unless there is
`NULL` in their place. -/
def loadBlock (c x y : Nat) : Program σ Bool :=
  match (acCoeffs c).getp x y with
  | none => pure false
  | some pAC =>
      match (dcCoeffs c).getp x y with
      | none => pure false
      | some pDC => do
          doRle c pDC pAC
          pure true

end Block

section Load

variable {σ : Type} (loadBlock : Nat → Nat → Nat → Program σ Bool)

/-- The blocks of an MCU of the picture.  The counters stay where `coeff_buf_getp` gives
`NULL`. -/
def loadMcu (blockYMcu : Nat → Nat) : List Nat → Cursor → Program σ Cursor
  | [], cursor => pure cursor
  | c :: mcuOrg, cursor => do
      let (x, y) := cursor.block blockYMcu c
      if ← loadBlock c x y then
        loadMcu blockYMcu mcuOrg (cursor.advance f compsInScan 16 16 c)
      else
        loadMcu blockYMcu mcuOrg cursor

def loadMcus (mcuOrg : List Nat) (blockYMcu : Nat → Nat) :
    Nat → (Nat → Nat) → Program σ Unit
  | 0, _ => pure ()
  | mcus + 1, blockXMcu => do
      let cursor ← loadMcu f compsInScan loadBlock blockYMcu mcuOrg ⟨blockXMcu, 0, 0⟩
      loadMcus mcuOrg blockYMcu mcus cursor.blockXMcu

/-- `load_next_row`, with `_u32Block_y_mcu` behind it. -/
def loadNextRow (order : McuOrder) (compList : List Nat) (blockYMcu : Nat → Nat) :
    Program σ (Nat → Nat) := do
  loadMcus f compList.length loadBlock order.mcuOrg blockYMcu order.mcusPerRow (fun _ => 0)
  pure (advanceRow f compList blockYMcu)

/-- The loop of `MDrv_JPEG_Progressive_Decode`; every turn takes a row of MCUs from the
lines that are left. -/
def loadRows (order : McuOrder) (compList : List Nat) (maxMcuYSize : Nat) :
    Nat → Nat → (Nat → Nat) → Program σ Unit
  | 0, _, _ => pure ()
  | turns + 1, totalLinesLeft, blockYMcu =>
      if totalLinesLeft = 0 then
        pure ()
      else do
        let blockYMcu ← loadNextRow f loadBlock order compList blockYMcu
        loadRows order compList maxMcuYSize turns
          ((totalLinesLeft + 2 ^ 16 - maxMcuYSize) % 2 ^ 16) blockYMcu

/-- `MDrv_JPEG_Progressive_Decode` of an image that has been read. -/
def progressiveDecode (layout : Layout) (order : McuOrder) (compList : List Nat) :
    Program σ Unit :=
  loadRows f loadBlock order compList layout.maxMcuYSize layout.totalLinesLeft
    layout.totalLinesLeft (fun _ => 0)

end Load

end Code

/-! ### The calls in their order -/

/-- A call for a block: the component and the two coordinates. -/
abbrev Call := Nat × Nat × Nat

section Traces

variable (f : Frame) (compsInScan ofsBits xBits : Nat)

/-- The calls for an MCU if none fails, and the counters behind it. -/
def mcuTrace (blockYMcu : Nat → Nat) : List Nat → Cursor → List Call × Cursor
  | [], cursor => ([], cursor)
  | c :: mcuOrg, cursor =>
      let rest := mcuTrace blockYMcu mcuOrg (cursor.advance f compsInScan ofsBits xBits c)
      ((c, cursor.block blockYMcu c) :: rest.1, rest.2)

def rowTrace (mcuOrg : List Nat) (blockYMcu : Nat → Nat) : Nat → (Nat → Nat) → List Call
  | 0, _ => []
  | mcus + 1, blockXMcu =>
      let mcu := mcuTrace f compsInScan ofsBits xBits blockYMcu mcuOrg ⟨blockXMcu, 0, 0⟩
      mcu.1 ++ rowTrace mcuOrg blockYMcu mcus mcu.2.blockXMcu

def rowsTrace (order : McuOrder) (compList : List Nat) : Nat → (Nat → Nat) → List Call
  | 0, _ => []
  | rows + 1, blockYMcu =>
      rowTrace f compList.length ofsBits xBits order.mcuOrg blockYMcu order.mcusPerRow
          (fun _ => 0) ++
        rowsTrace order compList rows (advanceRow f compList blockYMcu)

end Traces

section Visits

variable {σ α β : Type}

/-- A program returns a value and makes some calls on the way, which are logged behind
those before it. -/
def Visits (m : Program (σ × List Call) α) (value : α) (calls : List Call) : Prop :=
  ∀ s log, ∃ s', m (s, log) = some (value, (s', log ++ calls))

theorem visits_pure (value : α) : Visits (σ := σ) (pure value) value [] := by
  intro s log
  exact ⟨s, by rw [List.append_nil]; rfl⟩

theorem Visits.bind {m : Program (σ × List Call) α} {rest : α → Program (σ × List Call) β}
    {value : α} {result : β} {first second : List Call} (visits : Visits m value first)
    (later : Visits (rest value) result second) :
    Visits (m >>= rest) result (first ++ second) := by
  intro s log
  obtain ⟨s1, ran⟩ := visits s log
  obtain ⟨s2, ranLater⟩ := later s1 (log ++ first)
  refine ⟨s2, ?_⟩
  rw [List.append_assoc] at ranLater
  simpa [Bind.bind, StateT.bind, ran] using ranLater

theorem Visits.bind_cons {m : Program (σ × List Call) α}
    {rest : α → Program (σ × List Call) β} {value : α} {result : β} {which : Call}
    {calls : List Call} (visits : Visits m value [which])
    (later : Visits (rest value) result calls) :
    Visits (m >>= rest) result (which :: calls) :=
  visits.bind later

/-- A call that is logged and succeeds. -/
def Logs (call : Nat → Nat → Nat → Program (σ × List Call) Bool) (which : Call) : Prop :=
  Visits (call which.1 which.2.1 which.2.2) true [which]

variable {f : Frame} {compsInScan : Nat} {blockYMcu blockXMcu : Nat → Nat}
  {call : Nat → Nat → Nat → Program (σ × List Call) Bool}

theorem visits_scanMcu {mcuOrg : List Nat} {cursor : Cursor}
    (logs : ∀ which ∈ (mcuTrace f compsInScan 8 32 blockYMcu mcuOrg cursor).1, Logs call which) :
    Visits (scanMcu f compsInScan call blockYMcu mcuOrg cursor)
      (some (mcuTrace f compsInScan 8 32 blockYMcu mcuOrg cursor).2)
      (mcuTrace f compsInScan 8 32 blockYMcu mcuOrg cursor).1 := by
  induction mcuOrg generalizing cursor with
  | nil => exact visits_pure _
  | cons c mcuOrg inductionHypothesis =>
      simp only [mcuTrace, List.forall_mem_cons] at logs ⊢
      exact Visits.bind_cons logs.1 (inductionHypothesis logs.2)

theorem visits_loadMcu {mcuOrg : List Nat} {cursor : Cursor}
    (logs : ∀ which ∈ (mcuTrace f compsInScan 16 16 blockYMcu mcuOrg cursor).1,
      Logs call which) :
    Visits (loadMcu f compsInScan call blockYMcu mcuOrg cursor)
      (mcuTrace f compsInScan 16 16 blockYMcu mcuOrg cursor).2
      (mcuTrace f compsInScan 16 16 blockYMcu mcuOrg cursor).1 := by
  induction mcuOrg generalizing cursor with
  | nil => exact visits_pure _
  | cons c mcuOrg inductionHypothesis =>
      simp only [mcuTrace, List.forall_mem_cons] at logs ⊢
      exact Visits.bind_cons logs.1 (inductionHypothesis logs.2)

section Loops

variable {restart : Program (σ × List Call) Bool} {count : Program (σ × List Call) Unit}
  {order : McuOrder} {compList : List Nat}

theorem visits_scanRow (restarts : Visits restart true []) (counts : Visits count () [])
    {mcuOrg : List Nat} {mcus : Nat}
    (logs : ∀ which ∈ rowTrace f compsInScan 8 32 mcuOrg blockYMcu mcus blockXMcu,
      Logs call which) :
    Visits (scanRow f compsInScan restart count call mcuOrg blockYMcu mcus blockXMcu) true
      (rowTrace f compsInScan 8 32 mcuOrg blockYMcu mcus blockXMcu) := by
  induction mcus generalizing blockXMcu with
  | zero => exact visits_pure _
  | succ mcus inductionHypothesis =>
      simp only [rowTrace, List.forall_mem_append] at logs ⊢
      have mcu := visits_scanMcu logs.1
      have rest := inductionHypothesis logs.2
      exact restarts.bind (mcu.bind (counts.bind rest))

theorem visits_scanRows (restarts : Visits restart true []) (counts : Visits count () [])
    {rows : Nat}
    (logs : ∀ which ∈ rowsTrace f 8 32 order compList rows blockYMcu, Logs call which) :
    Visits (scanRows f compList.length restart count call order compList rows blockYMcu) true
      (rowsTrace f 8 32 order compList rows blockYMcu) := by
  induction rows generalizing blockYMcu with
  | zero => exact visits_pure _
  | succ rows inductionHypothesis =>
      simp only [rowsTrace, List.forall_mem_append] at logs ⊢
      exact (visits_scanRow restarts counts logs.1).bind (inductionHypothesis logs.2)

theorem visits_loadMcus {mcuOrg : List Nat} {mcus : Nat}
    (logs : ∀ which ∈ rowTrace f compsInScan 16 16 mcuOrg blockYMcu mcus blockXMcu,
      Logs call which) :
    Visits (loadMcus f compsInScan call mcuOrg blockYMcu mcus blockXMcu) ()
      (rowTrace f compsInScan 16 16 mcuOrg blockYMcu mcus blockXMcu) := by
  induction mcus generalizing blockXMcu with
  | zero => exact visits_pure _
  | succ mcus inductionHypothesis =>
      simp only [rowTrace, List.forall_mem_append] at logs ⊢
      exact (visits_loadMcu logs.1).bind (inductionHypothesis logs.2)

/-- As many rows as there are lines for. -/
theorem visits_loadRows {maxMcuYSize rows turns : Nat} (some : 0 < maxMcuYSize)
    (few : rows * maxMcuYSize < 2 ^ 16) (enough : rows * maxMcuYSize ≤ turns)
    (logs : ∀ which ∈ rowsTrace f 16 16 order compList rows blockYMcu, Logs call which) :
    Visits (loadRows f call order compList maxMcuYSize turns (rows * maxMcuYSize) blockYMcu) ()
      (rowsTrace f 16 16 order compList rows blockYMcu) := by
  induction rows generalizing turns blockYMcu with
  | zero =>
      cases turns with
      | zero => exact visits_pure _
      | succ turns =>
          rw [loadRows, if_pos (Nat.zero_mul _)]
          exact visits_pure _
  | succ rows inductionHypothesis =>
      rw [Nat.add_mul, Nat.one_mul] at few enough ⊢
      obtain ⟨turns, rfl⟩ : ∃ before, turns = before + 1 := ⟨turns - 1, by omega⟩
      have left : (rows * maxMcuYSize + maxMcuYSize + 2 ^ 16 - maxMcuYSize) % 2 ^ 16 =
          rows * maxMcuYSize := by
        rw [Nat.mod_eq_sub_mod (by omega), Nat.mod_eq_of_lt (by omega)]
        omega
      simp only [rowsTrace, List.forall_mem_append] at logs ⊢
      rw [loadRows, if_neg (by omega), left]
      have row : Visits (loadNextRow f call order compList blockYMcu) _ _ :=
        (visits_loadMcus logs.1).bind (visits_pure _)
      rw [List.append_nil] at row
      exact row.bind (inductionHypothesis (by omega) (by omega) logs.2)

end Loops

end Visits

/-! ### The blocks of a scan -/

section Blocks

variable {f : Frame} {compsInScan ofsBits xBits : Nat} {blockYMcu blockXMcu : Nat → Nat}
  {mcuOrg : List Nat} {c : Nat}

/-- The blocks of a component in an MCU, row by row. -/
def componentCalls (h v x y c : Nat) : List Call :=
  (List.range v).flatMap fun j => (List.range h).map fun i => (c, x + i, y + j)

/-- A component that is sampled, by factors of type `U8`. -/
structure Sampled (f : Frame) (compsInScan : Nat) (c : Nat) : Prop where
  hPos : 0 < scanSamp compsInScan f.hSamp c
  vPos : 0 < scanSamp compsInScan f.vSamp c
  hSmall : scanSamp compsInScan f.hSamp c < 2 ^ 8
  vSmall : scanSamp compsInScan f.vSamp c < 2 ^ 8

/-- A component whose counters do not wrap in an MCU. -/
structure Roomy (f : Frame) (compsInScan : Nat) (blockXMcu blockYMcu : Nat → Nat) (c : Nat) :
    Prop extends Sampled f compsInScan c where
  xRoom : blockXMcu c + scanSamp compsInScan f.hSamp c < 2 ^ 16
  yRoom : blockYMcu c + scanSamp compsInScan f.vSamp c < 2 ^ 16

/-- The counters are wide enough. -/
structure Wide (ofsBits xBits : Nat) : Prop where
  ofs : 8 ≤ ofsBits
  x : 16 ≤ xBits

theorem Wide.ofs_lt (wide : Wide ofsBits xBits) {n : Nat} (small : n < 2 ^ 8) :
    n < 2 ^ ofsBits :=
  small.trans_le (Nat.pow_le_pow_right (by omega) wide.ofs)

theorem Wide.x_lt (wide : Wide ofsBits xBits) {n : Nat} (small : n < 2 ^ 16) :
    n < 2 ^ xBits :=
  small.trans_le (Nat.pow_le_pow_right (by omega) wide.x)

/-- The counters behind the block at an offset in its component. -/
theorem Roomy.advance (roomy : Roomy f compsInScan blockXMcu blockYMcu c)
    (wide : Wide ofsBits xBits) {i j : Nat} (iLess : i < scanSamp compsInScan f.hSamp c)
    (jLess : j < scanSamp compsInScan f.vSamp c) :
    Cursor.advance f compsInScan ofsBits xBits c ⟨blockXMcu, i, j⟩ =
      if i + 1 = scanSamp compsInScan f.hSamp c then
        if j + 1 = scanSamp compsInScan f.vSamp c then
          ⟨Function.update blockXMcu c (blockXMcu c + scanSamp compsInScan f.hSamp c), 0, 0⟩
        else ⟨blockXMcu, 0, j + 1⟩
      else ⟨blockXMcu, i + 1, j⟩ := by
  have xRoom := wide.x_lt roomy.xRoom
  have hSmall := roomy.hSmall
  have vSmall := roomy.vSmall
  have iMod : (i + 1) % 2 ^ ofsBits = i + 1 := Nat.mod_eq_of_lt (wide.ofs_lt (by omega))
  have jMod : (j + 1) % 2 ^ ofsBits = j + 1 := Nat.mod_eq_of_lt (wide.ofs_lt (by omega))
  have xMod := Nat.mod_eq_of_lt xRoom
  unfold Cursor.advance
  by_cases one : compsInScan = 1
  · simp only [scanSamp, one, if_true] at iLess jLess xMod ⊢
    obtain rfl : i = 0 := by omega
    obtain rfl : j = 0 := by omega
    simp [xMod]
  · simp only [scanSamp, one, if_false, iMod, jMod] at xMod ⊢
    rw [xMod]

/-- The rest of a row of blocks. -/
theorem mcuTrace_line (roomy : Roomy f compsInScan blockXMcu blockYMcu c)
    (wide : Wide ofsBits xBits) {i j k : Nat}
    (whole : i + (k + 1) = scanSamp compsInScan f.hSamp c)
    (jLess : j < scanSamp compsInScan f.vSamp c) :
    mcuTrace f compsInScan ofsBits xBits blockYMcu (List.replicate (k + 1) c ++ mcuOrg)
        ⟨blockXMcu, i, j⟩ =
      let rest := mcuTrace f compsInScan ofsBits xBits blockYMcu mcuOrg
        (if j + 1 = scanSamp compsInScan f.vSamp c then
          ⟨Function.update blockXMcu c (blockXMcu c + scanSamp compsInScan f.hSamp c), 0, 0⟩
        else ⟨blockXMcu, 0, j + 1⟩)
      ((List.range' i (k + 1)).map (fun i => (c, blockXMcu c + i, blockYMcu c + j)) ++ rest.1,
        rest.2) := by
  have xRoom := roomy.xRoom
  have yRoom := roomy.yRoom
  have block : Cursor.block ⟨blockXMcu, i, j⟩ blockYMcu c =
      (blockXMcu c + i, blockYMcu c + j) := by
    simp only [Cursor.block]
    rw [Nat.mod_eq_of_lt (by omega), Nat.mod_eq_of_lt (by omega)]
  induction k generalizing i with
  | zero =>
      have last : i + 1 = scanSamp compsInScan f.hSamp c := whole
      have iLess : i < scanSamp compsInScan f.hSamp c := by omega
      have advanced := roomy.advance wide iLess jLess
      rw [if_pos last] at advanced
      rw [List.replicate_one, List.singleton_append, mcuTrace, block, advanced]
      rfl
  | succ k inductionHypothesis =>
      have more : i + 1 ≠ scanSamp compsInScan f.hSamp c := by omega
      have nextBlock : Cursor.block ⟨blockXMcu, i + 1, j⟩ blockYMcu c =
          (blockXMcu c + (i + 1), blockYMcu c + j) := by
        simp only [Cursor.block]
        rw [Nat.mod_eq_of_lt (by omega), Nat.mod_eq_of_lt (by omega)]
      have later := @inductionHypothesis (i + 1) (by omega) nextBlock
      have iLess : i < scanSamp compsInScan f.hSamp c := by omega
      have advanced := roomy.advance wide iLess jLess
      rw [if_neg more] at advanced
      rw [List.replicate_succ, List.cons_append, mcuTrace, block, advanced, later]
      rfl

/-- The rest of a component. -/
theorem mcuTrace_component (roomy : Roomy f compsInScan blockXMcu blockYMcu c)
    (wide : Wide ofsBits xBits) {j k : Nat}
    (whole : j + (k + 1) = scanSamp compsInScan f.vSamp c) :
    mcuTrace f compsInScan ofsBits xBits blockYMcu
        (List.replicate ((k + 1) * scanSamp compsInScan f.hSamp c) c ++ mcuOrg)
        ⟨blockXMcu, 0, j⟩ =
      let rest := mcuTrace f compsInScan ofsBits xBits blockYMcu mcuOrg
        ⟨Function.update blockXMcu c (blockXMcu c + scanSamp compsInScan f.hSamp c), 0, 0⟩
      ((List.range' j (k + 1)).flatMap (fun j =>
          (List.range (scanSamp compsInScan f.hSamp c)).map fun i =>
            (c, blockXMcu c + i, blockYMcu c + j)) ++ rest.1,
        rest.2) := by
  obtain ⟨h, width⟩ : ∃ h, scanSamp compsInScan f.hSamp c = h + 1 :=
    ⟨_, (Nat.sub_add_cancel roomy.hPos).symm⟩
  have line := fun (j : Nat) (less : j < scanSamp compsInScan f.vSamp c) (rest : List Nat) =>
    @mcuTrace_line f compsInScan ofsBits xBits blockYMcu blockXMcu rest c roomy wide 0 j h
      (by omega) less
  rw [width] at line ⊢
  induction k generalizing j with
  | zero =>
      have last : j + 1 = scanSamp compsInScan f.vSamp c := whole
      have here := line j (by omega) mcuOrg
      rw [if_pos last] at here
      simp only [Nat.zero_add, Nat.one_mul, here, List.range'_one, List.flatMap_singleton,
        List.range_eq_range']
  | succ k inductionHypothesis =>
      have more : j + 1 ≠ scanSamp compsInScan f.vSamp c := by omega
      have later := @inductionHypothesis (j + 1) (by omega)
      have here := line j (by omega) (List.replicate ((k + 1) * (h + 1)) c ++ mcuOrg)
      rw [if_neg more, later] at here
      have split : List.replicate ((k + 1 + 1) * (h + 1)) c =
          List.replicate (h + 1) c ++ List.replicate ((k + 1) * (h + 1)) c := by
        rw [List.replicate_append_replicate]
        congr 1
        ring
      rw [split, List.append_assoc, here]
      simp only [List.range'_succ (s := j), List.flatMap_cons, List.append_assoc,
        List.range_eq_range']

/-- The counters behind the blocks of some components. -/
def movedX (compsInScan : Nat) (f : Frame) (compList : List Nat) (blockXMcu : Nat → Nat) :
    Nat → Nat :=
  fun c => if c ∈ compList then blockXMcu c + scanSamp compsInScan f.hSamp c else blockXMcu c

theorem mcuTrace_orgOf {compList : List Nat} (distinct : compList.Nodup)
    (roomy : ∀ c ∈ compList, Roomy f compsInScan blockXMcu blockYMcu c)
    (wide : Wide ofsBits xBits) :
    mcuTrace f compsInScan ofsBits xBits blockYMcu (orgOf compsInScan f compList)
        ⟨blockXMcu, 0, 0⟩ =
      (compList.flatMap fun c =>
          componentCalls (scanSamp compsInScan f.hSamp c) (scanSamp compsInScan f.vSamp c)
            (blockXMcu c) (blockYMcu c) c,
        ⟨movedX compsInScan f compList blockXMcu, 0, 0⟩) := by
  induction compList generalizing blockXMcu with
  | nil =>
      have unmoved : movedX compsInScan f [] blockXMcu = blockXMcu := by
        funext c
        simp [movedX]
      simp [orgOf, mcuTrace, unmoved]
  | cons c compList inductionHypothesis =>
      have here := roomy c List.mem_cons_self
      obtain ⟨v, height⟩ : ∃ v, scanSamp compsInScan f.vSamp c = v + 1 :=
        ⟨_, (Nat.sub_add_cancel here.vPos).symm⟩
      obtain ⟨absent, distinctRest⟩ := List.nodup_cons.mp distinct
      let moved :=
        Function.update blockXMcu c (blockXMcu c + scanSamp compsInScan f.hSamp c)
      have same : ∀ other ∈ compList, moved other = blockXMcu other := by
        intro other mem
        refine Function.update_of_ne (fun equal => ?_) _ _
        rw [equal] at mem
        exact absent mem
      have roomyRest : ∀ other ∈ compList, Roomy f compsInScan moved blockYMcu other := by
        intro other mem
        have roomyOther := roomy other (List.mem_cons_of_mem _ mem)
        exact { roomyOther with xRoom := by rw [same other mem]; exact roomyOther.xRoom }
      have first := @mcuTrace_component f compsInScan ofsBits xBits blockYMcu blockXMcu
        (orgOf compsInScan f compList) c here wide 0 v (by omega)
      have rest := inductionHypothesis distinctRest roomyRest
      have org : orgOf compsInScan f (c :: compList) =
          List.replicate ((v + 1) * scanSamp compsInScan f.hSamp c) c ++
            orgOf compsInScan f compList := by
        rw [← height]
        rfl
      rw [org, first, rest]
      have later : (compList.flatMap fun other =>
            componentCalls (scanSamp compsInScan f.hSamp other)
              (scanSamp compsInScan f.vSamp other) (moved other) (blockYMcu other) other) =
          compList.flatMap fun other =>
            componentCalls (scanSamp compsInScan f.hSamp other)
              (scanSamp compsInScan f.vSamp other) (blockXMcu other) (blockYMcu other) other :=
        List.flatMap_congr fun other mem => by rw [same other mem]
      have movedAll : movedX compsInScan f compList moved =
          movedX compsInScan f (c :: compList) blockXMcu := by
        funext other
        by_cases mem : other ∈ compList
        · simp [movedX, mem, same other mem]
        · by_cases equal : other = c
          · simp [movedX, equal, absent, moved]
          · simp [movedX, mem, equal, moved]
      simp only [List.flatMap_cons, later, movedAll]
      simp only [componentCalls, height, List.range_eq_range']

/-- The blocks of an MCU whose first blocks are at some columns and rows. -/
def mcuCalls (f : Frame) (compsInScan : Nat) (compList : List Nat)
    (blockXMcu blockYMcu : Nat → Nat) : List Call :=
  compList.flatMap fun c =>
    componentCalls (scanSamp compsInScan f.hSamp c) (scanSamp compsInScan f.vSamp c)
      (blockXMcu c) (blockYMcu c) c

/-- A component whose counters do not wrap in some MCUs. -/
structure RoomyRow (f : Frame) (compsInScan mcus : Nat) (blockXMcu blockYMcu : Nat → Nat)
    (c : Nat) : Prop extends Sampled f compsInScan c where
  xRoom : blockXMcu c + mcus * scanSamp compsInScan f.hSamp c < 2 ^ 16
  yRoom : blockYMcu c + scanSamp compsInScan f.vSamp c < 2 ^ 16

theorem rowTrace_orgOf {compList : List Nat} (distinct : compList.Nodup)
    (wide : Wide ofsBits xBits) {mcus : Nat}
    (roomy : ∀ c ∈ compList, RoomyRow f compsInScan mcus blockXMcu blockYMcu c) :
    rowTrace f compsInScan ofsBits xBits (orgOf compsInScan f compList) blockYMcu mcus
        blockXMcu =
      (List.range mcus).flatMap fun col =>
        mcuCalls f compsInScan compList
          (fun c => blockXMcu c + col * scanSamp compsInScan f.hSamp c) blockYMcu := by
  induction mcus generalizing blockXMcu with
  | zero => rfl
  | succ mcus inductionHypothesis =>
      have first : ∀ c ∈ compList, Roomy f compsInScan blockXMcu blockYMcu c := by
        intro c mem
        have row := roomy c mem
        have room := row.xRoom
        rw [Nat.add_mul] at room
        exact { row with xRoom := by omega }
      have rest : ∀ c ∈ compList,
          RoomyRow f compsInScan mcus (movedX compsInScan f compList blockXMcu) blockYMcu c := by
        intro c mem
        have row := roomy c mem
        have room := row.xRoom
        rw [Nat.add_mul] at room
        exact { row with xRoom := by simp only [movedX, mem, if_true]; omega }
      have later (col : Nat) :
          mcuCalls f compsInScan compList
              (fun c => movedX compsInScan f compList blockXMcu c +
                col * scanSamp compsInScan f.hSamp c) blockYMcu =
            mcuCalls f compsInScan compList
              (fun c => blockXMcu c + (col + 1) * scanSamp compsInScan f.hSamp c)
              blockYMcu := by
        apply List.flatMap_congr
        intro c mem
        have same : movedX compsInScan f compList blockXMcu c +
            col * scanSamp compsInScan f.hSamp c =
              blockXMcu c + (col + 1) * scanSamp compsInScan f.hSamp c := by
          simp only [movedX, mem, if_true]
          ring
        simp only [same]
      simp only [rowTrace, mcuTrace_orgOf distinct first wide, inductionHypothesis rest, later]
      rw [List.range_succ_eq_map, List.flatMap_cons, List.flatMap_map]
      simp [mcuCalls]

end Blocks

section Scan

variable {f : Frame} {ofsBits xBits : Nat} {compList : List Nat}

/-- Every component of a list without duplicates is moved once. -/
theorem foldl_update_of_mem {step : Nat → Nat → Nat} (distinct : compList.Nodup)
    (blockYMcu : Nat → Nat) (c : Nat) :
    compList.foldl (fun blockYMcu c => Function.update blockYMcu c (step c (blockYMcu c)))
        blockYMcu c =
      if c ∈ compList then step c (blockYMcu c) else blockYMcu c := by
  induction compList generalizing blockYMcu with
  | nil => simp
  | cons other compList inductionHypothesis =>
      obtain ⟨absent, distinctRest⟩ := List.nodup_cons.mp distinct
      rw [List.foldl_cons, inductionHypothesis distinctRest]
      by_cases equal : c = other
      · simp [equal, absent]
      · simp [equal]

theorem advanceRow_of_mem (distinct : compList.Nodup) {blockYMcu : Nat → Nat} {c : Nat}
    (mem : c ∈ compList)
    (room : blockYMcu c + scanSamp compList.length f.vSamp c < 2 ^ 32) :
    advanceRow f compList blockYMcu c =
      blockYMcu c + scanSamp compList.length f.vSamp c := by
  match compList, mem with
  | [other], mem =>
      obtain rfl : c = other := List.mem_singleton.mp mem
      simp only [scanSamp, List.length_singleton, if_true] at room ⊢
      rw [advanceRow, Function.update_self, Nat.mod_eq_of_lt room]
  | first :: second :: rest, mem =>
      have several : (first :: second :: rest).length ≠ 1 := by simp
      simp only [scanSamp, several, if_false] at room ⊢
      have moved := @foldl_update_of_mem _
        (fun c before => (before + f.vSamp c) % 2 ^ 32) distinct blockYMcu c
      rw [if_pos mem, Nat.mod_eq_of_lt room] at moved
      exact moved

/-- The blocks of some rows of MCUs. -/
def rowsCalls (f : Frame) (compList : List Nat) (rows cols : Nat) : List Call :=
  (List.range rows).flatMap fun row =>
    (List.range cols).flatMap fun col =>
      mcuCalls f compList.length compList
        (fun c => col * scanSamp compList.length f.hSamp c)
        (fun c => row * scanSamp compList.length f.vSamp c)

theorem rowsTrace_eq (distinct : compList.Nodup) (wide : Wide ofsBits xBits)
    {order : McuOrder} (org : order.mcuOrg = orgOf compList.length f compList)
    (sampled : ∀ c ∈ compList, Sampled f compList.length c)
    (xRoom : ∀ c ∈ compList, order.mcusPerRow * scanSamp compList.length f.hSamp c < 2 ^ 16)
    {rows : Nat} {blockYMcu : Nat → Nat}
    (yRoom : ∀ c ∈ compList,
      blockYMcu c + rows * scanSamp compList.length f.vSamp c < 2 ^ 16) :
    rowsTrace f ofsBits xBits order compList rows blockYMcu =
      (List.range rows).flatMap fun row =>
        (List.range order.mcusPerRow).flatMap fun col =>
          mcuCalls f compList.length compList
            (fun c => col * scanSamp compList.length f.hSamp c)
            (fun c => blockYMcu c + row * scanSamp compList.length f.vSamp c) := by
  induction rows generalizing blockYMcu with
  | zero => rfl
  | succ rows inductionHypothesis =>
      simp only [Nat.add_mul, Nat.one_mul] at yRoom
      have moved : ∀ c ∈ compList, advanceRow f compList blockYMcu c =
          blockYMcu c + scanSamp compList.length f.vSamp c := by
        intro c mem
        have room := yRoom c mem
        exact advanceRow_of_mem distinct mem (by omega)
      have first : ∀ c ∈ compList,
          RoomyRow f compList.length order.mcusPerRow (fun _ => 0) blockYMcu c := by
        intro c mem
        have room := yRoom c mem
        exact
          { sampled c mem with
            xRoom := by simpa only [Nat.zero_add] using xRoom c mem
            yRoom := by omega }
      have rest := @inductionHypothesis (advanceRow f compList blockYMcu) (by
        intro c mem
        have room := yRoom c mem
        rw [moved c mem]
        omega)
      have later (row : Nat) (blockXMcu : Nat → Nat) :
          mcuCalls f compList.length compList blockXMcu
              (fun c => advanceRow f compList blockYMcu c +
                row * scanSamp compList.length f.vSamp c) =
            mcuCalls f compList.length compList blockXMcu
              (fun c => blockYMcu c + (row + 1) * scanSamp compList.length f.vSamp c) := by
        apply List.flatMap_congr
        intro c mem
        have same : advanceRow f compList blockYMcu c +
            row * scanSamp compList.length f.vSamp c =
              blockYMcu c + (row + 1) * scanSamp compList.length f.vSamp c := by
          rw [moved c mem]
          ring
        simp only [same]
      simp only [rowsTrace, org, rowTrace_orgOf distinct wide first, rest, later]
      rw [List.range_succ_eq_map, List.flatMap_cons, List.flatMap_map]
      simp [mcuCalls]

/-! ### Every block is there once -/

theorem nodup_flatMap_of_key {α β : Type} {l : List α} {part : α → List β} (key : β → α)
    (distinct : l.Nodup) (each : ∀ a ∈ l, (part a).Nodup)
    (keys : ∀ a ∈ l, ∀ b ∈ part a, key b = a) : (l.flatMap part).Nodup := by
  refine List.nodup_flatMap.mpr ⟨each, distinct.imp_of_mem ?_⟩
  intro a other memA memOther different b memB memOtherB
  apply different
  rw [← keys a memA b memB, keys other memOther b memOtherB]

theorem mem_componentCalls {h v x y c : Nat} {which : Call} :
    which ∈ componentCalls h v x y c ↔
      which.1 = c ∧ (x ≤ which.2.1 ∧ which.2.1 < x + h) ∧
        (y ≤ which.2.2 ∧ which.2.2 < y + v) := by
  obtain ⟨c', x', y'⟩ := which
  simp only [componentCalls, List.mem_flatMap, List.mem_map, List.mem_range, Prod.mk.injEq]
  constructor
  · intro ⟨j, jLess, i, iLess, sameC, sameX, sameY⟩
    omega
  · intro ⟨sameC, xIn, yIn⟩
    exact ⟨y' - y, by omega, x' - x, by omega, by omega, by omega, by omega⟩

theorem nodup_componentCalls (h v x y c : Nat) : (componentCalls h v x y c).Nodup := by
  apply nodup_flatMap_of_key (fun which : Call => which.2.2 - y) List.nodup_range
  · intro j mem
    apply List.Nodup.map _ List.nodup_range
    intro i other same
    simpa using same
  · intro j mem which memWhich
    obtain ⟨i, -, rfl⟩ := List.mem_map.mp memWhich
    simp

/-- A block of a component in some rows and columns of MCUs. -/
def InRows (f : Frame) (compList : List Nat) (rows cols : Nat) (which : Call) : Prop :=
  which.1 ∈ compList ∧ which.2.1 < cols * scanSamp compList.length f.hSamp which.1 ∧
    which.2.2 < rows * scanSamp compList.length f.vSamp which.1

theorem between_iff {h n col : Nat} (pos : 0 < h) :
    (col * h ≤ n ∧ n < col * h + h) ↔ n / h = col := by
  rw [← Nat.le_div_iff_mul_le pos, ← Nat.succ_mul, ← Nat.div_lt_iff_lt_mul pos]
  omega

variable (sampled : ∀ c ∈ compList, Sampled f compList.length c)
include sampled

/-- A block tells in which MCU of which row it is. -/
theorem mem_mcuCalls {row col : Nat} {which : Call} :
    which ∈ mcuCalls f compList.length compList
        (fun c => col * scanSamp compList.length f.hSamp c)
        (fun c => row * scanSamp compList.length f.vSamp c) ↔
      which.1 ∈ compList ∧ which.2.1 / scanSamp compList.length f.hSamp which.1 = col ∧
        which.2.2 / scanSamp compList.length f.vSamp which.1 = row := by
  simp only [mcuCalls, List.mem_flatMap, mem_componentCalls]
  constructor
  · intro ⟨c, mem, same, inCol, inRow⟩
    rw [← same] at mem inCol inRow
    have here := sampled _ mem
    exact ⟨mem, (between_iff here.hPos).mp inCol, (between_iff here.vPos).mp inRow⟩
  · intro ⟨mem, inCol, inRow⟩
    have here := sampled _ mem
    exact ⟨_, mem, rfl, (between_iff here.hPos).mpr inCol, (between_iff here.vPos).mpr inRow⟩

theorem mem_rowsCalls {rows cols : Nat} {which : Call} :
    which ∈ rowsCalls f compList rows cols ↔ InRows f compList rows cols which := by
  simp only [rowsCalls, List.mem_flatMap, List.mem_range, mem_mcuCalls sampled, InRows]
  constructor
  · intro ⟨row, rowLess, col, colLess, mem, inCol, inRow⟩
    have here := sampled _ mem
    refine ⟨mem, (Nat.div_lt_iff_lt_mul here.hPos).mp ?_,
      (Nat.div_lt_iff_lt_mul here.vPos).mp ?_⟩
    · rw [inCol]
      exact colLess
    · rw [inRow]
      exact rowLess
  · intro ⟨mem, xLess, yLess⟩
    have here := sampled _ mem
    exact ⟨_, (Nat.div_lt_iff_lt_mul here.vPos).mpr yLess, _,
      (Nat.div_lt_iff_lt_mul here.hPos).mpr xLess, mem, rfl, rfl⟩

theorem nodup_rowsCalls (distinct : compList.Nodup) (rows cols : Nat) :
    (rowsCalls f compList rows cols).Nodup := by
  refine nodup_flatMap_of_key
    (fun which : Call => which.2.2 / scanSamp compList.length f.vSamp which.1)
    List.nodup_range (fun row _ => ?_) ?_
  · refine nodup_flatMap_of_key
      (fun which : Call => which.2.1 / scanSamp compList.length f.hSamp which.1)
      List.nodup_range (fun col _ => ?_) ?_
    · refine nodup_flatMap_of_key (fun which : Call => which.1) distinct
        (fun c _ => nodup_componentCalls _ _ _ _ _) ?_
      intro c _ which mem
      exact (mem_componentCalls.mp mem).1
    · intro col _ which mem
      exact ((mem_mcuCalls sampled).mp mem).2.1
  · intro row _ which mem
    obtain ⟨col, -, memCol⟩ := List.mem_flatMap.mp mem
    exact ((mem_mcuCalls sampled).mp memCol).2.2

end Scan

/-! ### Runs with a log -/

section Logged

variable {σ α β : Type}

/-- A call is put into the log behind those before it. -/
def logged (call : Nat → Nat → Nat → Program σ Bool) (c x y : Nat) :
    Program (σ × List Call) Bool :=
  fun (s, log) => (call c x y s).map fun (ok, s') => (ok, (s', log ++ [(c, x, y)]))

def unlogged (m : Program σ α) : Program (σ × List Call) α :=
  fun (s, log) => (m s).map fun (value, s') => (value, (s', log))

/-- A program comes to an end, with a value. -/
def Returns (m : Program σ α) (value : α) : Prop :=
  ∀ s, ∃ s', m s = some (value, s')

theorem Returns.logs {call : Nat → Nat → Nat → Program σ Bool} {which : Call}
    (returns : Returns (call which.1 which.2.1 which.2.2) true) : Logs (logged call) which := by
  intro s log
  obtain ⟨s', ran⟩ := returns s
  exact ⟨s', by simp [logged, ran]⟩

theorem Returns.visits {m : Program σ α} {value : α} (returns : Returns m value) :
    Visits (unlogged m) value [] := by
  intro s log
  obtain ⟨s', ran⟩ := returns s
  exact ⟨s', by simp [unlogged, ran]⟩

theorem Program.of_bind {m : Program σ α} {rest : α → Program σ β} {s : σ} {out : β × σ}
    (ran : (m >>= rest) s = some out) : ∃ a s1, m s = some (a, s1) ∧ rest a s1 = some out := by
  obtain ⟨⟨a, s1⟩, first, later⟩ := Option.bind_eq_some_iff.mp ran
  exact ⟨a, s1, first, later⟩

theorem Program.of_pure {value : α} {s : σ} {out : α × σ}
    (ran : (pure value : Program σ α) s = some out) : out = (value, s) :=
  (Option.some.inj ran).symm

theorem log_of_logged {call : Nat → Nat → Nat → Program σ Bool} {c x y : Nat} {ok : Bool}
    {before after : σ × List Call} (ran : logged call c x y before = some (ok, after)) :
    after.2 = before.2 ++ [(c, x, y)] := by
  obtain ⟨_, -, equal⟩ := Option.map_eq_some_iff.mp ran
  cases equal
  rfl

theorem log_of_unlogged {m : Program σ α} {value : α} {before after : σ × List Call}
    (ran : unlogged m before = some (value, after)) : after.2 = before.2 := by
  obtain ⟨_, -, equal⟩ := Option.map_eq_some_iff.mp ran
  cases equal
  rfl

variable {f : Frame} {compsInScan : Nat} {blockYMcu : Nat → Nat}
  {call : Nat → Nat → Nat → Program σ Bool}

/-- Behind an MCU without an error every block of it has been called for. -/
theorem scanMcu_log {mcuOrg : List Nat} {cursor behind : Cursor}
    {before after : σ × List Call}
    (ran : scanMcu f compsInScan (logged call) blockYMcu mcuOrg cursor before =
      some (some behind, after)) :
    behind = (mcuTrace f compsInScan 8 32 blockYMcu mcuOrg cursor).2 ∧
      after.2 = before.2 ++ (mcuTrace f compsInScan 8 32 blockYMcu mcuOrg cursor).1 := by
  induction mcuOrg generalizing cursor before with
  | nil =>
      cases Program.of_pure ran
      exact ⟨rfl, (List.append_nil _).symm⟩
  | cons c mcuOrg inductionHypothesis =>
      obtain ⟨ok, between, called, rest⟩ := Program.of_bind ran
      cases ok with
      | false => cases Program.of_pure rest
      | true =>
          obtain ⟨last, log⟩ := inductionHypothesis rest
          rw [log_of_logged called, List.append_assoc] at log
          exact ⟨last, log⟩

section Loops

variable {restart : Program σ Bool} {count : Program σ Unit} {order : McuOrder}
  {compList : List Nat}

theorem scanRow_log {mcuOrg : List Nat} {mcus : Nat} {blockXMcu : Nat → Nat}
    {before after : σ × List Call}
    (ran : scanRow f compsInScan (unlogged restart) (unlogged count) (logged call) mcuOrg
      blockYMcu mcus blockXMcu before = some (true, after)) :
    after.2 = before.2 ++ rowTrace f compsInScan 8 32 mcuOrg blockYMcu mcus blockXMcu := by
  induction mcus generalizing blockXMcu before with
  | zero =>
      cases Program.of_pure ran
      exact (List.append_nil _).symm
  | succ mcus inductionHypothesis =>
      obtain ⟨ok, restarted, restarts, ran⟩ := Program.of_bind ran
      cases ok with
      | false => cases Program.of_pure ran
      | true =>
          obtain ⟨cursor, between, scanned, ran⟩ := Program.of_bind ran
          cases cursor with
          | none => cases Program.of_pure ran
          | some cursor =>
              obtain ⟨_, counted, counts, ran⟩ := Program.of_bind ran
              obtain ⟨behind, log⟩ := scanMcu_log scanned
              rw [inductionHypothesis ran, log_of_unlogged counts, log,
                log_of_unlogged restarts, behind, List.append_assoc]
              rfl

theorem scanRows_log {rows : Nat} {before after : σ × List Call}
    (ran : scanRows f compList.length (unlogged restart) (unlogged count) (logged call) order
      compList rows blockYMcu before = some (true, after)) :
    after.2 = before.2 ++ rowsTrace f 8 32 order compList rows blockYMcu := by
  induction rows generalizing blockYMcu before with
  | zero =>
      cases Program.of_pure ran
      exact (List.append_nil _).symm
  | succ rows inductionHypothesis =>
      obtain ⟨ok, between, row, ran⟩ := Program.of_bind ran
      cases ok with
      | false => cases Program.of_pure ran
      | true =>
          rw [inductionHypothesis ran, scanRow_log row, List.append_assoc]
          rfl

end Loops

end Logged

/-! ### Frames that are admitted -/

section Accepted

variable {f : Frame} {layout : Layout} {compList : List Nat}

/-- Calls for every block of the components of a scan, for each once. -/
def Covers (f : Frame) (compList : List Nat) (calls : List Call) : Prop :=
  let order := calcMcuBlockOrder f compList
  calls.Nodup ∧
    ∀ which, which ∈ calls ↔ InRows f compList order.mcusPerCol order.mcusPerRow which

/-- A block that both buffers of its component have. -/
def InBuffers (f : Frame) (layout : Layout) (which : Call) : Prop :=
  ((dcCoeffs f layout which.1).getp which.2.1 which.2.2).isSome ∧
    ((acCoeffs f layout which.1).getp which.2.1 which.2.2).isSome

theorem Fits.sampled {c : Nat} (fits : Fits f layout compList c) :
    Sampled f compList.length c where
  hPos := fits.x.pos
  vPos := fits.y.pos
  hSmall := Nat.lt_trans fits.x.small (by decide)
  vSmall := Nat.lt_trans fits.y.small (by decide)

theorem getp_isSome {cb : CoeffBuf} {x y : Nat} (xLess : x < cb.blockNumX)
    (yLess : y < cb.blockNumY) : (cb.getp x y).isSome := by
  rw [CoeffBuf.getp, if_neg (by omega), if_neg (by omega)]
  rfl

section Scan

variable (accepted : initFrame f = .ok layout) (checked : Checked f)
  (scan : ScanOf f compList)
include accepted checked scan

theorem inBuffers_of_inRows {which : Call}
    (inRows : InRows f compList (calcMcuBlockOrder f compList).mcusPerCol
      (calcMcuBlockOrder f compList).mcusPerRow which) : InBuffers f layout which := by
  obtain ⟨mem, xLess, yLess⟩ := inRows
  have fits := initFrame_fits accepted checked scan mem
  have xIn : which.2.1 < roundEven layout.maxMcusPerRow * f.hSamp which.1 % 2 ^ 16 := by
    rw [Nat.mod_eq_of_lt fits.x.room]
    exact Nat.lt_of_lt_of_le xLess fits.x.inside
  have yIn : which.2.2 < roundEven layout.maxMcusPerCol * f.vSamp which.1 % 2 ^ 16 := by
    rw [Nat.mod_eq_of_lt fits.y.room]
    exact Nat.lt_of_lt_of_le yLess fits.y.inside
  exact ⟨getp_isSome xIn yIn, getp_isSome xIn yIn⟩

theorem rowsTrace_of_accepted {ofsBits xBits : Nat} (wide : Wide ofsBits xBits) :
    rowsTrace f ofsBits xBits (calcMcuBlockOrder f compList) compList
        (calcMcuBlockOrder f compList).mcusPerCol (fun _ => 0) =
      rowsCalls f compList (calcMcuBlockOrder f compList).mcusPerCol
        (calcMcuBlockOrder f compList).mcusPerRow := by
  have fits := fun c (mem : c ∈ compList) => initFrame_fits accepted checked scan mem
  have yRoom : ∀ c ∈ compList, 0 + (calcMcuBlockOrder f compList).mcusPerCol *
      scanSamp compList.length f.vSamp c < 2 ^ 16 := by
    intro c mem
    rw [Nat.zero_add]
    exact Nat.lt_of_le_of_lt (fits c mem).y.inside (fits c mem).y.room
  have trace := rowsTrace_eq scan.distinct wide (initFrame_org accepted checked scan)
    (fun c mem => (fits c mem).sampled)
    (fun c mem => Nat.lt_of_le_of_lt (fits c mem).x.inside (fits c mem).x.room) yRoom
  simpa only [Nat.zero_add, rowsCalls] using trace

theorem covers_rowsTrace {ofsBits xBits : Nat} (wide : Wide ofsBits xBits) :
    Covers f compList (rowsTrace f ofsBits xBits (calcMcuBlockOrder f compList) compList
      (calcMcuBlockOrder f compList).mcusPerCol (fun _ => 0)) := by
  have sampled := fun c (mem : c ∈ compList) =>
    (initFrame_fits accepted checked scan mem).sampled
  rw [rowsTrace_of_accepted accepted checked scan wide]
  exact ⟨nodup_rowsCalls sampled scan.distinct _ _, fun _ => mem_rowsCalls sampled⟩

/-- A scan that comes to its end has called for every block. -/
theorem decodeScan_covers {σ : Type} {restart : Program σ Bool} {count : Program σ Unit}
    {call : Nat → Nat → Nat → Program σ Bool} {s s' : σ} {calls : List Call}
    (ran : decodeScan f (calcMcuBlockOrder f compList) compList (unlogged restart)
      (unlogged count) (logged call) (s, []) = some (true, (s', calls))) :
    Covers f compList calls := by
  have log : calls = _ := scanRows_log ran
  rw [log, List.nil_append]
  exact covers_rowsTrace accepted checked scan ⟨by decide, by decide⟩

end Scan

section Whole

variable {σ : Type}

/-- It does come to its end if nothing that it calls fails. -/
theorem decodeScan_returns {order : McuOrder} {restart : Program σ Bool}
    {count : Program σ Unit} {call : Nat → Nat → Nat → Program σ Bool}
    (restarts : Returns restart true) (counts : Returns count ())
    (decodes : ∀ c x y, Returns (call c x y) true) (s : σ) :
    ∃ s' calls, decodeScan f order compList (unlogged restart) (unlogged count) (logged call)
      (s, []) = some (true, (s', calls)) := by
  have visits : Visits (decodeScan f order compList (unlogged restart) (unlogged count)
      (logged call)) true _ :=
    visits_scanRows restarts.visits counts.visits fun which _ => (decodes _ _ _).logs
  obtain ⟨s', ran⟩ := visits s []
  exact ⟨s', _, ran⟩

theorem scanOf_range (accepted : initFrame f = .ok layout) :
    ScanOf f (List.range f.compsInFrame) where
  distinct := List.nodup_range
  some := by
    cases shape_of_initFrame accepted with
    | single comps x y => simp [comps]
    | three comps x y luma hChroma vChroma => simp [comps]
  inFrame := fun _ mem => List.mem_range.mp mem

theorem loadBlock_returns {doRle : Nat → Nat → Nat → Program σ Unit}
    (loads : ∀ c pDC pAC, Returns (doRle c pDC pAC) ()) {which : Call}
    (inBuffers : InBuffers f layout which) :
    Returns (loadBlock (dcCoeffs f layout) (acCoeffs f layout) doRle which.1 which.2.1
      which.2.2) true := by
  obtain ⟨pDC, dc⟩ := Option.isSome_iff_exists.mp inBuffers.1
  obtain ⟨pAC, ac⟩ := Option.isSome_iff_exists.mp inBuffers.2
  intro s
  obtain ⟨s', ran⟩ := loads which.1 pDC pAC s
  refine ⟨s', ?_⟩
  simp only [loadBlock, ac, dc]
  simp only [Bind.bind, StateT.bind, ran, Option.bind_some]
  rfl

theorem progressiveDecode_covers (accepted : initFrame f = .ok layout) (checked : Checked f)
    {doRle : Nat → Nat → Nat → Program σ Unit}
    (loads : ∀ c pDC pAC, Returns (doRle c pDC pAC) ()) (s : σ) :
    ∃ s' calls,
      progressiveDecode f (logged (loadBlock (dcCoeffs f layout) (acCoeffs f layout) doRle))
          layout (calcMcuBlockOrder f (List.range f.compsInFrame))
          (List.range f.compsInFrame) (s, []) = some ((), (s', calls)) ∧
        Covers f (List.range f.compsInFrame) calls := by
  have rows := initFrame_rows accepted checked
  have scan := scanOf_range accepted
  have covers := @covers_rowsTrace _ _ _ accepted checked scan 16 16 ⟨by decide, by decide⟩
  have visits := visits_loadRows rows.pos (rows.lines ▸ rows.small) rows.lines.ge
    (fun which mem => (loadBlock_returns loads
      (inBuffers_of_inRows accepted checked scan ((covers.2 which).mp mem))).logs)
  obtain ⟨s', ran⟩ := visits s []
  refine ⟨s', _, ?_, covers⟩
  rw [← rows.lines] at ran
  exact ran

/-- Every scan goes through the blocks of its components once, and the whole image is read
block by block; no call is for a block outside of the buffers. -/
theorem blocks_visited_once (accepted : initFrame f = .ok layout) (checked : Checked f) :
    (∀ compList, ScanOf f compList →
      (∀ (σ : Type) (restart : Program σ Bool) (count : Program σ Unit)
        (decodeBlock : Nat → Nat → Nat → Program σ Bool) (s s' : σ) (calls : List Call),
        decodeScan f (calcMcuBlockOrder f compList) compList (unlogged restart)
            (unlogged count) (logged decodeBlock) (s, []) = some (true, (s', calls)) →
          Covers f compList calls ∧ ∀ which ∈ calls, InBuffers f layout which) ∧
      (∀ (σ : Type) (restart : Program σ Bool) (count : Program σ Unit)
        (decodeBlock : Nat → Nat → Nat → Program σ Bool) (s : σ),
        Returns restart true → Returns count () →
          (∀ c x y, Returns (decodeBlock c x y) true) →
          ∃ s' calls,
            decodeScan f (calcMcuBlockOrder f compList) compList (unlogged restart)
              (unlogged count) (logged decodeBlock) (s, []) = some (true, (s', calls)))) ∧
    (∀ (σ : Type) (doRle : Nat → Nat → Nat → Program σ Unit) (s : σ),
      (∀ c pDC pAC, Returns (doRle c pDC pAC) ()) →
        ∃ s' calls,
          progressiveDecode f
              (logged (loadBlock (dcCoeffs f layout) (acCoeffs f layout) doRle)) layout
              (calcMcuBlockOrder f (List.range f.compsInFrame))
              (List.range f.compsInFrame) (s, []) = some ((), (s', calls)) ∧
            Covers f (List.range f.compsInFrame) calls ∧
            ∀ which ∈ calls, InBuffers f layout which) := by
  refine ⟨fun compList scan => ⟨?_, ?_⟩, ?_⟩
  · intro σ restart count decodeBlock s s' calls ran
    have covers := decodeScan_covers accepted checked scan ran
    refine ⟨covers, fun which mem => ?_⟩
    exact inBuffers_of_inRows accepted checked scan ((covers.2 which).mp mem)
  · intro σ restart count decodeBlock s restarts counts decodes
    exact decodeScan_returns restarts counts decodes s
  · intro σ doRle s loads
    obtain ⟨s', calls, ran, covers⟩ := progressiveDecode_covers accepted checked loads s
    refine ⟨s', calls, ran, covers, fun which mem => ?_⟩
    exact inBuffers_of_inRows accepted checked (scanOf_range accepted)
      ((covers.2 which).mp mem)

end Whole

end Accepted

/-- A picture with half as many colours as points in both directions. -/
def sampleFrame : Frame where
  imageXSize := 17
  imageYSize := 33
  compsInFrame := 3
  hSamp c := if c = 0 then 2 else 1
  vSamp c := if c = 0 then 2 else 1

def sampleLayout : Layout where
  scanType := .yH2V2
  maxBlocksPerMcu := 6
  maxMcuXSize := 16
  maxMcuYSize := 16
  maxMcusPerRow := 2
  maxMcusPerCol := 3
  maxBlocksPerRow := 12
  totalLinesLeft := 48

theorem checked_sampleFrame : Checked sampleFrame where
  xSize := by decide
  ySize := by decide
  hSamp c := by
    simp only [sampleFrame]
    split <;> decide
  vSamp c := by
    simp only [sampleFrame]
    split <;> decide
  single := by decide

theorem sampleFrame_visited :
    (∃ s' calls,
      decodeScan sampleFrame (calcMcuBlockOrder sampleFrame [1, 2]) [1, 2]
          (unlogged (pure true)) (unlogged (pure ())) (logged fun _ _ _ => pure true)
          ((), []) = some (true, (s', calls)) ∧
        Covers sampleFrame [1, 2] calls) ∧
    ∃ s' calls,
      progressiveDecode sampleFrame
          (logged (loadBlock (dcCoeffs sampleFrame sampleLayout)
            (acCoeffs sampleFrame sampleLayout) fun _ _ _ => pure ()))
          sampleLayout (calcMcuBlockOrder sampleFrame (List.range 3)) (List.range 3)
          ((), []) = some ((), (s', calls)) ∧
        Covers sampleFrame (List.range 3) calls ∧
        ∀ which ∈ calls, InBuffers sampleFrame sampleLayout which := by
  have accepted : initFrame sampleFrame = .ok sampleLayout := by decide
  have visited := @blocks_visited_once sampleFrame sampleLayout accepted checked_sampleFrame
  have scan : ScanOf sampleFrame [1, 2] :=
    { distinct := by decide, some := by decide, inFrame := by decide }
  constructor
  · obtain ⟨s', calls, ran⟩ := (visited.1 [1, 2] scan).2 Unit (pure true) (pure ())
      (fun _ _ _ => pure true) () (fun s => ⟨s, rfl⟩) (fun s => ⟨s, rfl⟩)
      (fun _ _ _ s => ⟨s, rfl⟩)
    exact ⟨s', calls, ran, ((visited.1 [1, 2] scan).1 _ _ _ _ _ _ _ ran).1⟩
  · exact visited.2 Unit (fun _ _ _ => pure ()) () (fun _ _ _ s => ⟨s, rfl⟩)

end Gp2Firmware.Jpeg.Mcu
