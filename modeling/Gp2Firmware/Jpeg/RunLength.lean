import Mathlib.Data.List.Range
import Mathlib.Logic.Function.Basic
import Mathlib.Tactic.Common
import Mathlib.Algebra.GroupWithZero.Nat

/-!
# The run length symbols of the JPEG decoder

A progressive picture is decoded by the software down to its coefficients, which
go to the hardware as run length symbols.  Each block gives the difference of its
first coefficient to the one before it of the same kind, then the others as runs
of zeros with an amplitude behind them.
-/

namespace Gp2Firmware.Jpeg.RunLength

abbrev U8 := BitVec 8
abbrev U16 := BitVec 16
abbrev S16 := BitVec 16

/-- A symbol with its bit fields. -/
structure Svld where
  amp : BitVec 11
  sign : BitVec 1
  run : BitVec 4
  symType : BitVec 2
  blkType : BitVec 2
  eop : BitVec 1
  deriving DecidableEq, Repr

def RLE_DC : BitVec 2 := 0
def RLE_AC : BitVec 2 := 1
def RLE_ZRL : BitVec 2 := 2
def RLE_EOB : BitVec 2 := 3

section Code

/-- All bytes zero, and the kind of the block. -/
def cleared (curBlk : BitVec 2) : Svld :=
  ⟨0, 0, 0, 0, curBlk, 0⟩

def curBlkOf (compId : U8) : BitVec 2 :=
  if compId = 0 then 1 else if compId = 1 then 3 else 2

/-- `ABS` of a number as it is stored in the field `amp`. -/
def absAmp (value : S16) : BitVec 11 :=
  BitVec.ofNat 11 value.toInt.natAbs

def signOf (value : S16) : BitVec 1 :=
  if value.toInt < 0 then 1 else 0

/-- A coefficient other than zero and the run in front of it. -/
def acSymbol (myVld : Svld) (value : S16) (run : U16) : Svld :=
  { myVld with
    sign := signOf value
    amp := absAmp value
    symType := RLE_AC
    run := run.setWidth 4 }

/-- The variables of the loop, and what is written. -/
structure RleLoop where
  myVld : Svld
  run : U16
  out : List Svld

/-- Runs of sixteen zeros; the run falls with each turn. -/
def writeZrls (curBlk : BitVec 2) : Nat → RleLoop → RleLoop
  | 0, s => s
  | turns + 1, s =>
      if 15 < s.run then
        let myVld := { s.myVld with sign := 0, amp := 0, symType := RLE_ZRL, run := 15 }
        writeZrls curBlk turns ⟨cleared curBlk, s.run - 16, s.out ++ [myVld]⟩
      else
        s

/-- The coefficients behind the first one; it returns at the last one of the picture. -/
def acLoop (p : Nat → S16) (eop : Bool) (curBlk : BitVec 2) :
    Nat → Nat → RleLoop → RleLoop ⊕ List Svld
  | 0, _, s => .inl s
  | turns + 1, counter, s =>
      if p counter = 0 then
        acLoop p eop curBlk turns (counter + 1) { s with run := s.run + 1 }
      else
        let s := writeZrls curBlk s.run.toNat s
        let myVld := acSymbol s.myVld (p counter) s.run
        if counter = 63 ∧ eop = true ∧ p 63 ≠ 0 then
          .inr (s.out ++ [{ myVld with eop := 1 }])
        else
          acLoop p eop curBlk turns (counter + 1) ⟨cleared curBlk, 0, s.out ++ [myVld]⟩

/-- The end of a block behind the loop. -/
def blockEnd (p : Nat → S16) (eop : Bool) (s : RleLoop) : List Svld :=
  if p 63 = 0 then
    let myVld := { s.myVld with
      amp := absAmp (p 63), sign := signOf (p 63), symType := RLE_EOB, run := 0 }
    if eop then s.out ++ [{ myVld with eop := 1 }] else s.out ++ [myVld]
  else
    s.out

/-- The symbols of a block, and the predictors behind it. -/
def doRle (dcPred : Nat → S16) (p : Nat → S16) (eop : Bool) (compId : U8)
    (blockInRange : Bool) : List Svld × (Nat → S16) :=
  let curBlk := curBlkOf compId
  let predictor := dcPred (curBlk.toNat - 1)
  let myVld := cleared curBlk
  let myVld := { myVld with run := if blockInRange then 8 else 0 }
  let value := p 0 - predictor
  let myVld := { myVld with sign := signOf value, amp := absAmp value, symType := RLE_DC }
  let out := [myVld]
  if blockInRange = false then
    (out, dcPred)
  else
    let out :=
      match acLoop p eop curBlk 63 1 ⟨cleared curBlk, 0, out⟩ with
      | .inr out => out
      | .inl s => blockEnd p eop s
    (out, Function.update dcPred (curBlk.toNat - 1) (p 0))

/-- A call for a block of the picture. -/
structure Call where
  p : Nat → S16
  eop : Bool
  compId : U8

/-- The symbols of each call of a picture, and the predictors behind it. -/
def encode (dcPred : Nat → S16) : List Call → List (List Svld) × (Nat → S16)
  | [] => ([], dcPred)
  | call :: calls =>
      let (symbols, dcPred) := doRle dcPred call.p call.eop call.compId true
      let (rest, dcPred) := encode dcPred calls
      (symbols :: rest, dcPred)

end Code

section Expansion

/-- The number that the sign and the amplitude of a symbol stand for. -/
def amplitude (symbol : Svld) : S16 :=
  if symbol.sign = 1 then -symbol.amp.setWidth 16 else symbol.amp.setWidth 16

/-- The predictors, the coefficients of the block at hand, and the blocks before it. -/
structure Expander where
  dcPred : Nat → S16
  current : List S16
  blocks : List (List S16)

/-- A block with all its coefficients goes to the others. -/
def Expander.complete (e : Expander) : Expander :=
  if e.current.length = 64 then
    { e with current := [], blocks := e.blocks ++ [e.current] }
  else
    e

/-- A symbol taken as what its type says. -/
def Expander.take (e : Expander) (symbol : Svld) : Expander :=
  if symbol.symType = RLE_DC then
    let dc := e.dcPred (symbol.blkType.toNat - 1) + amplitude symbol
    { e with
      dcPred := Function.update e.dcPred (symbol.blkType.toNat - 1) dc
      current := [dc] }
  else if symbol.symType = RLE_AC then
    { e with current := e.current ++
      List.replicate symbol.run.toNat 0 ++ [amplitude symbol] }.complete
  else if symbol.symType = RLE_ZRL then
    { e with current := e.current ++ List.replicate 16 0 }.complete
  else
    { e with current := e.current ++ List.replicate (64 - e.current.length) 0 }.complete

def Expander.run (e : Expander) (symbols : List Svld) : Expander :=
  symbols.foldl Expander.take e

/-- The coefficients of a block. -/
def coefficients (p : Nat → S16) : List S16 :=
  (List.range 64).map p

/-- The number of coefficients that a symbol behind the first one stands for. -/
def width (symbol : Svld) : Nat :=
  if symbol.symType = RLE_ZRL then 16 else symbol.run.toNat + 1

/-- A symbol between the first and the last one of a block. -/
def Between (symbol : Svld) : Prop :=
  (symbol.symType = RLE_AC ∨ symbol.symType = RLE_ZRL) ∧ symbol.eop = 0

/-- The symbols of a block: one for the first coefficient, some behind it, and at the end
either an end of block or the last coefficient, and the end of the picture only there. -/
def Shaped (eop : Bool) (symbols : List Svld) : Prop :=
  ∃ dc middle last, symbols = dc :: middle ++ [last] ∧
    dc.symType = RLE_DC ∧ dc.eop = 0 ∧ (∀ symbol ∈ middle, Between symbol) ∧
    (last.symType = RLE_EOB ∨
      last.symType = RLE_AC ∧ 1 + (middle.map width).sum + last.run.toNat = 63) ∧
    last.eop = BitVec.ofBool eop

/-- Coefficients and differences of the first ones that fit into the amplitudes. -/
def Bounded (dcPred : Nat → S16) : List Call → Prop
  | [] => True
  | call :: calls =>
      ((call.p 0).toInt - (dcPred ((curBlkOf call.compId).toNat - 1)).toInt).natAbs ≤ 2047 ∧
        (∀ k, 1 ≤ k → k < 64 → (call.p k).toInt.natAbs ≤ 2047) ∧
        Bounded (Function.update dcPred ((curBlkOf call.compId).toNat - 1) (call.p 0)) calls

end Expansion

section Amplitudes

variable {value other : S16} {symbol : Svld}

/-- Sign and amplitude give back a number of at most eleven bits. -/
theorem amplitude_eq (small : value.toInt.natAbs ≤ 2047) (sign : symbol.sign = signOf value)
    (amp : symbol.amp = absAmp value) : amplitude symbol = value := by
  have stored : (symbol.amp.setWidth 16).toNat = value.toInt.natAbs := by
    rw [amp, absAmp, BitVec.toNat_setWidth, BitVec.toNat_ofNat]
    omega
  have cond := BitVec.toInt_eq_toNat_cond value
  apply BitVec.eq_of_toNat_eq
  rw [amplitude, sign, signOf]
  have bound := value.isLt
  by_cases negative : value.toInt < 0
  · rw [if_pos negative, if_pos rfl, BitVec.toNat_neg, stored]
    split at cond
    · omega
    · omega
  · rw [if_neg negative, if_neg (by decide), stored]
    split at cond
    · omega
    · omega

/-- A small difference does not overflow. -/
theorem toInt_sub_of_small (small : (value.toInt - other.toInt).natAbs ≤ 2047) :
    (value - other).toInt = value.toInt - other.toInt := by
  rw [BitVec.toInt_sub]
  apply Int.bmod_eq_of_le
  · omega
  · omega

end Amplitudes

section Blocks

variable {dcPred : Nat → S16} {p : Nat → S16} {blocks : List (List S16)}

/-- The expansion of a block in front of a coefficient, or behind the whole block. -/
def expandedTo (dcPred : Nat → S16) (blocks : List (List S16)) (p : Nat → S16) (count : Nat) :
    Expander :=
  Expander.complete ⟨dcPred, (List.range count).map p, blocks⟩

theorem expandedTo_of_lt {count : Nat} (inside : count < 64) :
    expandedTo dcPred blocks p count = ⟨dcPred, (List.range count).map p, blocks⟩ := by
  rw [expandedTo, Expander.complete, if_neg (by simp; omega)]

theorem expandedTo_last :
    expandedTo dcPred blocks p 64 = ⟨dcPred, [], blocks ++ [coefficients p]⟩ := by
  rw [expandedTo, Expander.complete, if_pos (by simp)]
  rfl

/-- Zeros behind some coefficients. -/
theorem map_range_add {count more : Nat} (zero : ∀ k, count ≤ k → k < count + more → p k = 0) :
    (List.range (count + more)).map p = (List.range count).map p ++ List.replicate more 0 := by
  rw [List.range_add, List.map_append, List.append_cancel_left_eq, List.map_map,
    List.eq_replicate_iff]
  constructor
  · simp
  · intro value member
    obtain ⟨k, inside, rfl⟩ := List.mem_map.mp member
    exact zero _ (Nat.le_add_right _ _) (Nat.add_lt_add_left (List.mem_range.mp inside) _)

variable {count more : Nat} {symbol : Svld}

theorem take_zrl (inside : count + 16 < 64) (zrl : symbol.symType = RLE_ZRL)
    (zero : ∀ k, count ≤ k → k < count + 16 → p k = 0) :
    (expandedTo dcPred blocks p count).take symbol = expandedTo dcPred blocks p (count + 16) := by
  rw [expandedTo_of_lt (by omega), Expander.take, zrl, if_neg (by decide), if_neg (by decide),
    if_pos rfl, expandedTo, map_range_add zero]

theorem take_ac (inside : count + more < 64) (ac : symbol.symType = RLE_AC)
    (run : symbol.run.toNat = more) (value : amplitude symbol = p (count + more))
    (zero : ∀ k, count ≤ k → k < count + more → p k = 0) :
    (expandedTo dcPred blocks p count).take symbol =
      expandedTo dcPred blocks p (count + more + 1) := by
  rw [expandedTo_of_lt (by omega), Expander.take, ac, if_neg (by decide), if_pos rfl, expandedTo,
    run, value, List.range_succ, List.map_append, map_range_add zero]
  rfl

theorem take_eob (inside : count < 64) (eob : symbol.symType = RLE_EOB)
    (zero : ∀ k, count ≤ k → k < 64 → p k = 0) :
    (expandedTo dcPred blocks p count).take symbol = expandedTo dcPred blocks p 64 := by
  obtain ⟨more, whole⟩ := Nat.exists_eq_add_of_le inside.le
  have behind : ∀ k, count ≤ k → k < count + more → p k = 0 := fun k above below =>
    zero k above (by omega)
  rw [expandedTo_of_lt inside, Expander.take, eob, if_neg (by decide), if_neg (by decide),
    if_neg (by decide), expandedTo, whole, map_range_add behind]
  simp

end Blocks

section Loop

variable {dcPred : Nat → S16} {p : Nat → S16} {blocks : List (List S16)} {eop : Bool}
  {curBlk : BitVec 2} {counter turns : Nat} {s : RleLoop}

/-- The loop in front of a coefficient with a run of zeros behind it. -/
structure InRun (p : Nat → S16) (curBlk : BitVec 2) (counter : Nat) (s : RleLoop) : Prop where
  fresh : s.myVld = cleared curBlk
  inside : s.run.toNat < counter
  zero : ∀ k, counter - s.run.toNat ≤ k → k < counter → p k = 0

/-- Some symbols inside of a block bring the expansion on from one coefficient to
another one. -/
structure Moves (p : Nat → S16) (before after : Nat) (symbols : List Svld) : Prop where
  between : ∀ symbol ∈ symbols, Between symbol
  width : before + (symbols.map width).sum = after
  run : ∀ dcPred blocks, (expandedTo dcPred blocks p before).run symbols =
    expandedTo dcPred blocks p after

theorem Moves.nil : Moves p counter counter [] :=
  ⟨by simp, by simp, fun _ _ => rfl⟩

theorem Moves.append {first second third : Nat} {symbols more : List Svld}
    (moves : Moves p first second symbols) (then_ : Moves p second third more) :
    Moves p first third (symbols ++ more) := by
  refine ⟨?_, ?_, ?_⟩
  · intro symbol member
    rcases List.mem_append.mp member with inFirst | inSecond
    · exact moves.between symbol inFirst
    · exact then_.between symbol inSecond
  · rw [List.map_append, List.sum_append, ← Nat.add_assoc, moves.width, then_.width]
  · intro dcPred blocks
    rw [Expander.run, List.foldl_append]
    exact (congrArg (fun e => more.foldl Expander.take e) (moves.run dcPred blocks)).trans
      (then_.run dcPred blocks)

/-- The runs of sixteen zeros leave a run that fits into its field. -/
theorem writeZrls_moves (inRun : InRun p curBlk counter s) (few : counter < 64)
    (enough : s.run.toNat ≤ turns) :
    ∃ symbols, (writeZrls curBlk turns s).out = s.out ++ symbols ∧
      InRun p curBlk counter (writeZrls curBlk turns s) ∧
      (writeZrls curBlk turns s).run.toNat ≤ 15 ∧
      Moves p (counter - s.run.toNat) (counter - (writeZrls curBlk turns s).run.toNat) symbols := by
  induction turns generalizing s with
  | zero => exact ⟨[], by simp [writeZrls], inRun, by
      rw [writeZrls]; omega, .nil⟩
  | succ turns inductionHypothesis =>
      rw [writeZrls]
      split
      · rename_i long
        have more : 15 < s.run.toNat := long
        have fewer : (s.run - 16).toNat = s.run.toNat - 16 := by
          rw [BitVec.toNat_sub_of_le (by bv_omega)]
          rfl
        have inside := inRun.inside
        have next : InRun p curBlk counter ⟨cleared curBlk, s.run - 16, s.out ++
            [{ s.myVld with sign := 0, amp := 0, symType := RLE_ZRL, run := 15 }]⟩ := by
          refine ⟨rfl, by simp only [fewer]; omega, ?_⟩
          intro k above below
          simp only [fewer] at above
          exact inRun.zero k (by omega) below
        obtain ⟨symbols, out, after, fits, moves⟩ :=
          inductionHypothesis next (by simp only [fewer]; omega)
        refine ⟨_ :: symbols, by rw [out, List.append_assoc]; rfl, after, fits, ?_⟩
        simp only [fewer] at moves
        have further : counter - (s.run.toNat - 16) = counter - s.run.toNat + 16 := by omega
        apply @Moves.append p _ _ _ [_] _ ?_ moves
        refine ⟨?_, ?_, ?_⟩
        · simp [Between, inRun.fresh, cleared]
        · simp [width, further]
        · intro dcPred blocks
          rw [further, Expander.run, List.foldl_cons, List.foldl_nil]
          apply take_zrl (by omega) rfl
          intro k above below
          exact inRun.zero k above (by omega)
      · rename_i short
        have fits : s.run.toNat ≤ 15 := by bv_omega
        exact ⟨[], by simp, inRun, fits, .nil⟩

/-- The symbol of a coefficient other than zero, with the end of the picture or not. -/
theorem InRun.take_nonzero (inRun : InRun p curBlk counter s) (inside : counter < 64)
    (fits : s.run.toNat ≤ 15) (small : (p counter).toInt.natAbs ≤ 2047) (final : BitVec 1) :
    (acSymbol s.myVld (p counter) s.run).run.toNat = s.run.toNat ∧
    (expandedTo dcPred blocks p (counter - s.run.toNat)).take
        { acSymbol s.myVld (p counter) s.run with eop := final } =
      expandedTo dcPred blocks p (counter + 1) := by
  have less := inRun.inside
  have same : (acSymbol s.myVld (p counter) s.run).run.toNat = s.run.toNat := by
    rw [acSymbol, BitVec.toNat_setWidth]
    omega
  have place : counter - s.run.toNat + s.run.toNat = counter := by omega
  have taken := @take_ac dcPred p blocks (counter - s.run.toNat) s.run.toNat
    { acSymbol s.myVld (p counter) s.run with eop := final } (by omega) rfl same
    (by rw [place]; exact amplitude_eq small rfl rfl) (by rw [place]; exact inRun.zero)
  rw [place] at taken
  exact ⟨same, taken⟩

/-- What the loop and the end of the block write. -/
structure Written (p : Nat → S16) (eop : Bool) (before : Nat) (old new : List Svld) : Prop where
  shape : ∃ middle last at_, new = old ++ middle ++ [last] ∧ Moves p before at_ middle ∧
    (last.symType = RLE_EOB ∨ last.symType = RLE_AC ∧ at_ + last.run.toNat = 63) ∧
    last.eop = BitVec.ofBool eop ∧
    ∀ dcPred blocks, (expandedTo dcPred blocks p at_).take last = expandedTo dcPred blocks p 64

theorem Written.after {before between : Nat} {old middle new : List Svld}
    (moves : Moves p before between middle) (written : Written p eop between (old ++ middle) new) :
    Written p eop before old new := by
  obtain ⟨more, last, at_, new_eq, then_, ends⟩ := written
  exact ⟨middle ++ more, last, at_, by simp [new_eq], moves.append then_, ends⟩

/-- The end of a block that ends with zeros. -/
theorem blockEnd_written (inRun : InRun p curBlk 64 s) (some : 0 < s.run.toNat) :
    Written p eop (64 - s.run.toNat) s.out (blockEnd p eop s) := by
  have inside := inRun.inside
  have zero := inRun.zero 63 (by omega) (by omega)
  refine ⟨[], ?_⟩
  rw [blockEnd, if_pos zero]
  cases eop with
  | true =>
      refine ⟨_, _, by simp; rfl, .nil, .inl rfl, rfl, fun _ _ => ?_⟩
      exact take_eob (by omega) rfl inRun.zero
  | false =>
      refine ⟨_, _, by simp; rfl, .nil, .inl rfl, by simp [inRun.fresh, cleared], fun _ _ => ?_⟩
      exact take_eob (by omega) rfl inRun.zero

/-- What is written from a coefficient on to the end of the block. -/
theorem acLoop_written (inRun : InRun p curBlk counter s) (rest : counter + turns = 64)
    (more : counter - s.run.toNat < 64)
    (small : ∀ k, counter ≤ k → k < 64 → (p k).toInt.natAbs ≤ 2047) :
    Written p eop (counter - s.run.toNat) s.out
      (match acLoop p eop curBlk turns counter s with
        | .inr out => out
        | .inl s => blockEnd p eop s) := by
  induction turns generalizing counter s with
  | zero =>
      obtain rfl : counter = 64 := rest
      simp only [acLoop]
      exact blockEnd_written inRun (by omega)
  | succ turns inductionHypothesis =>
      have inside := inRun.inside
      rw [acLoop]
      by_cases zero : p counter = 0
      · rw [if_pos zero]
        have longer : (s.run + 1).toNat = s.run.toNat + 1 := by
          rw [BitVec.toNat_add, Nat.mod_eq_of_lt (by simp; omega)]
          rfl
        have next : InRun p curBlk (counter + 1) { s with run := s.run + 1 } := by
          refine ⟨inRun.fresh, by simp only [longer]; omega, ?_⟩
          intro k above below
          simp only [longer] at above
          rcases Nat.lt_succ_iff_lt_or_eq.mp below with earlier | rfl
          · exact inRun.zero k (by omega) earlier
          · exact zero
        have written := inductionHypothesis next (by omega) (by simp only [longer]; omega)
          (fun k above below => small k (by omega) below)
        simp only [longer, Nat.add_sub_add_right] at written
        exact written
      · rw [if_neg zero]
        obtain ⟨symbols, out, after, fits, moves⟩ := writeZrls_moves inRun (by omega) le_rfl
        simp only
        generalize writeZrls curBlk s.run.toNat s = later at out after fits moves ⊢
        have place := after.inside
        have eop_eq : later.myVld.eop = 0 := by rw [after.fresh, cleared]
        apply Written.after moves
        rw [← out]
        have taken := fun dcPred blocks => @InRun.take_nonzero dcPred p blocks curBlk counter later
          after (by omega) fits (small counter le_rfl (by omega))
        have run_eq := (taken p [] 0).1
        have same : ({ acSymbol later.myVld (p counter) later.run with eop := 0 } : Svld) =
            acSymbol later.myVld (p counter) later.run := by rw [← eop_eq]; rfl
        rcases Nat.eq_zero_or_pos turns with last | some
        · -- the last coefficient ends the block by itself
          obtain rfl : counter = 63 := by omega
          subst last
          cases eop with
          | true =>
              rw [if_pos ⟨rfl, rfl, zero⟩]
              exact ⟨[], _, _, by simp, .nil, .inr ⟨rfl, by rw [run_eq]; omega⟩, rfl,
                fun dcPred blocks => (taken dcPred blocks 1).2⟩
          | false =>
              rw [if_neg (by simp), acLoop]
              simp only [blockEnd, if_neg zero]
              exact ⟨[], acSymbol later.myVld (p 63) later.run, _, by simp, .nil,
                .inr ⟨rfl, by rw [run_eq]; omega⟩, eop_eq,
                fun dcPred blocks => same ▸ (taken dcPred blocks 0).2⟩
        · rw [if_neg (by omega)]
          have next : InRun p curBlk (counter + 1)
              ⟨cleared curBlk, 0, later.out ++ [acSymbol later.myVld (p counter) later.run]⟩ := by
            refine ⟨rfl, by simp, ?_⟩
            intro k above below
            simp only [show (0 : U16).toNat = 0 from rfl] at above
            omega
          have written := inductionHypothesis next (by omega)
            (by simp only [show (0 : U16).toNat = 0 from rfl]; omega)
            (fun k above below => small k (by omega) below)
          apply Written.after ?_ written
          refine ⟨?_, ?_, ?_⟩
          · intro symbol member
            rw [List.mem_singleton.mp member]
            exact ⟨.inl rfl, eop_eq⟩
          · simp only [List.map_singleton, List.sum_singleton, width,
              show (0 : U16).toNat = 0 from rfl]
            rw [if_neg (by simp [acSymbol, RLE_AC, RLE_ZRL]), run_eq]
            omega
          · intro dcPred blocks
            exact same ▸ (taken dcPred blocks 0).2

end Loop

section Picture

variable {dcPred : Nat → S16} {p : Nat → S16} {blocks : List (List S16)} {eop : Bool}
  {compId : U8}

/-- The first symbol of a block. -/
theorem take_dc {symbol : Svld} {place : Nat} (dc : symbol.symType = RLE_DC)
    (kind : symbol.blkType.toNat - 1 = place) (value : amplitude symbol = p 0 - dcPred place) :
    (⟨dcPred, [], blocks⟩ : Expander).take symbol =
      expandedTo (Function.update dcPred place (p 0)) blocks p 1 := by
  rw [expandedTo_of_lt (by decide), Expander.take, if_pos dc]
  simp only [kind, value]
  rw [BitVec.add_comm, BitVec.sub_add_cancel]
  rfl

/-- The symbols of a block expand to the block. -/
theorem doRle_block
    (first : ((p 0).toInt - (dcPred ((curBlkOf compId).toNat - 1)).toInt).natAbs ≤ 2047)
    (small : ∀ k, 1 ≤ k → k < 64 → (p k).toInt.natAbs ≤ 2047) :
    Shaped eop (doRle dcPred p eop compId true).1 ∧
      (⟨dcPred, [], blocks⟩ : Expander).run (doRle dcPred p eop compId true).1 =
        ⟨(doRle dcPred p eop compId true).2, [], blocks ++ [coefficients p]⟩ := by
  simp only [doRle, if_true, Bool.true_eq_false, if_false]
  generalize curBlkOf compId = curBlk at first ⊢
  obtain ⟨dc, dc_eq⟩ : ∃ dc : Svld, dc = { cleared curBlk with
      run := 8
      sign := signOf (p 0 - dcPred (curBlk.toNat - 1))
      amp := absAmp (p 0 - dcPred (curBlk.toNat - 1))
      symType := RLE_DC } := ⟨_, rfl⟩
  have start : InRun p curBlk 1 ⟨cleared curBlk, 0, [dc]⟩ := by
    refine ⟨rfl, by simp, ?_⟩
    intro k above below
    simp only [show (0 : U16).toNat = 0 from rfl] at above
    omega
  obtain ⟨middle, last, at_, out, moves, kinds, final, whole⟩ :=
    @acLoop_written p eop curBlk 1 63 _ start rfl (by simp) small
  have value : amplitude dc = p 0 - dcPred (curBlk.toNat - 1) := by
    apply amplitude_eq
    · rw [toInt_sub_of_small first]
      exact first
    · rw [dc_eq]
    · rw [dc_eq]
  rw [← dc_eq, out]
  simp only [show (0 : U16).toNat = 0 from rfl, Nat.sub_zero] at moves
  constructor
  · refine ⟨dc, middle, last, by simp, by rw [dc_eq], by rw [dc_eq]; rfl, moves.between, ?_, final⟩
    rw [moves.width]
    exact kinds
  · have ran := moves.run (Function.update dcPred (curBlk.toNat - 1) (p 0)) blocks
    rw [Expander.run] at ran
    rw [Expander.run, List.foldl_append, List.foldl_append]
    simp only [List.foldl_cons, List.foldl_nil]
    rw [take_dc (by rw [dc_eq]) (by rw [dc_eq]; rfl) value, ran, whole, expandedTo_last]

/-- The end of the picture is in the last symbol of a block or nowhere in it. -/
theorem Shaped.filter_eop {symbols : List Svld} (shaped : Shaped eop symbols) :
    (symbols.filter fun symbol => symbol.eop = 1).length = if eop then 1 else 0 := by
  obtain ⟨dc, middle, last, rfl, -, first, between, -, final⟩ := shaped
  have none : middle.filter (fun symbol => decide (symbol.eop = 1)) = [] := by
    rw [List.filter_eq_nil_iff]
    intro symbol member
    simp [(between symbol member).2]
  rw [List.filter_append, List.filter_cons, none]
  cases eop with
  | true => simp [first, final]
  | false => simp [first, final]

/-- The symbols of a picture expand to its blocks; each block has its symbols, and the end
of the picture is where a call says it. -/
theorem encode_lossless {calls : List Call} (bounded : Bounded dcPred calls) :
    List.Forall₂ (fun call symbols => Shaped call.eop symbols) calls (encode dcPred calls).1 ∧
      (⟨dcPred, [], blocks⟩ : Expander).run (encode dcPred calls).1.flatten =
        ⟨(encode dcPred calls).2, [], blocks ++ calls.map fun call => coefficients call.p⟩ ∧
      ((encode dcPred calls).1.flatten.filter fun symbol => symbol.eop = 1).length =
        (calls.filter fun call => call.eop).length := by
  induction calls generalizing dcPred blocks with
  | nil => simp [encode, Expander.run]
  | cons call calls inductionHypothesis =>
      obtain ⟨first, small, rest⟩ := bounded
      obtain ⟨shaped, block⟩ := @doRle_block dcPred call.p blocks call.eop call.compId first small
      have later : (doRle dcPred call.p call.eop call.compId true).2 =
          Function.update dcPred ((curBlkOf call.compId).toNat - 1) (call.p 0) := rfl
      obtain ⟨shapes, ran, ends⟩ :=
        @inductionHypothesis _ (blocks ++ [coefficients call.p]) rest
      simp only [encode, List.flatten_cons, later] at block ⊢
      refine ⟨.cons shaped shapes, ?_, ?_⟩
      · rw [Expander.run] at block ran ⊢
        rw [List.foldl_append, block, ran, List.map_cons, List.append_assoc]
        rfl
      · rw [List.filter_append, List.length_append, shaped.filter_eop, ends, List.filter_cons]
        cases call.eop with
        | true => simp [Nat.add_comm]
        | false => simp

/-- A block with a long run of zeros, and one that ends with a coefficient. -/
def sampleCalls : List Call :=
  [⟨fun k => if k = 40 then -2047 else 0, false, 0⟩,
    ⟨fun k => if k = 63 then 7 else if k = 0 then 100 else 0, true, 1⟩]

theorem encode_lossless_sample :
    (⟨fun _ => 0, [], []⟩ : Expander).run (encode (fun _ => 0) sampleCalls).1.flatten =
        ⟨(encode (fun _ => 0) sampleCalls).2, [], sampleCalls.map fun call => coefficients call.p⟩ ∧
      ((encode (fun _ => 0) sampleCalls).1.flatten.filter fun symbol => symbol.eop = 1).length =
        1 := by
  apply (@encode_lossless (fun _ => 0) [] sampleCalls ⟨by decide, ?_, by decide, ?_, trivial⟩).2
  · intro k _ _
    simp only
    split
    · decide
    · decide
  · intro k _ _
    simp only
    split
    · decide
    · split
      · decide
      · decide

end Picture

end Gp2Firmware.Jpeg.RunLength
