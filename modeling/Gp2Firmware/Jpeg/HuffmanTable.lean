import Mathlib.Data.List.Range
import Mathlib.Tactic.Ring
import Gp2Firmware.Lib.CanonicalCode
import Gp2Firmware.Lib.Loop
import Gp2Firmware.Jpeg.BitReader

/-!
# The Huffman tables of the JPEG decoder

A table in the stream has the number of codes of each size and their symbols.
The decoder keeps three descriptions of it: a look-up table for the codes of up
to eight bits, a tree of linked pairs for the longer ones, and for the hardware
the least code of each size with the number of its first symbol.
-/

namespace Gp2Firmware.Jpeg.HuffmanTable

open Gp2Firmware.Lib Gp2Firmware.Lib.CanonicalCode Gp2Firmware.Jpeg.BitReader

/-- A table as it is read, and what the hardware is told about it. -/
structure HuffInfo where
  valid : Bool
  huffNum : Nat → U8
  huffVal : Nat → U8
  symbol : Nat → U8
  code : Nat → U16

/-- The tables of the software decoder. -/
structure HuffTables where
  lookUp : Nat → Int
  codeSize : Nat → Nat
  tree : Nat → Int

section ReadDht

/-- The numbers of the first symbols, from the last size down; `0xFF` where there is
no code of a size. -/
def inverseOrder (huffNum : Nat → U8) (count : Nat) : Nat → U8 :=
  ((List.range' 1 16).foldl
    (fun (count, table) i =>
      if table (17 - i) ≠ 0 then
        let count := count - (table (17 - i)).toNat
        (count, Function.update table (17 - i) (BitVec.ofNat 8 count))
      else
        (count, Function.update table (17 - i) 0xFF))
    (count, huffNum)).2

/-- The number of codes of the sizes up to one. -/
def codesUpTo (huffNum : Nat → U8) : Nat → Nat
  | 0 => 0
  | size + 1 => codesUpTo huffNum size + (huffNum (size + 1)).toNat

/-- A table put into its place. -/
def HuffInfo.load (huffNum huffVal : Nat → U8) (info : HuffInfo) : HuffInfo :=
  { info with
    valid := true
    huffNum := huffNum
    huffVal := huffVal
    symbol := inverseOrder huffNum (codesUpTo huffNum 16) }

inductive DhtError where
  | badDhtMarker
  | badDhtCounts
  | badDhtIndex
  deriving DecidableEq, Repr

def JPEG_MAXHUFFTABLES : Nat := 8

variable (wait : Wait)

/-- A number of bytes of the stream, stored from an index on. -/
def readBytes (start : Nat) : Nat → (Nat → U8) × Reader → (Nat → U8) × Reader
  | 0, s => s
  | count + 1, (bytes, r) =>
      let (c, r) := getChar wait r
      readBytes (start + 1) count (Function.update bytes start c, r)

/-- The tables of a marker one after the other; `left` falls by 17 at least with each. -/
def readDhtTables : Nat → Nat → (Nat → HuffInfo) → Reader →
    Except DhtError Unit × (Nat → HuffInfo) × Reader
  | 0, _, infos, r => (.ok (), infos, r)
  | turns + 1, left, infos, r =>
      if left = 0 then
        (.ok (), infos, r)
      else
        let (index, r) := getChar wait r
        let (huffNum, r) := readBytes wait 1 16 (fun _ => 0, r)
        let count := codesUpTo huffNum 16
        if 255 < count then
          (.error .badDhtCounts, infos, r)
        else
          let (huffVal, r) := readBytes wait 0 count (fun _ => 0, r)
          if left < 1 + 16 + count then
            (.error .badDhtMarker, infos, r)
          else
            let index := index.toNat % 16 + (index.toNat / 16 % 2) * (JPEG_MAXHUFFTABLES / 2)
            if JPEG_MAXHUFFTABLES ≤ index then
              (.error .badDhtIndex, infos, r)
            else
              readDhtTables turns (left - (1 + 16 + count))
                (Function.update infos index ((infos index).load huffNum huffVal)) r

def readDhtMarker (infos : Nat → HuffInfo) (r : Reader) :
    Except DhtError Unit × (Nat → HuffInfo) × Reader :=
  let (high, r) := getChar wait r
  let (low, r) := getChar wait r
  let left := (high.toNat * 256 + low.toNat) % 65536
  if left < 2 then
    (.error .badDhtMarker, infos, r)
  else
    readDhtTables wait (left - 2) (left - 2) infos r

/-- The tables of a marker are replaced as a whole, by ones with few enough codes. -/
theorem readDhtTables_loaded {turns left : Nat} {infos : Nat → HuffInfo} {r : Reader}
    (index : Nat) :
    (readDhtTables wait turns left infos r).2.1 index = infos index ∨
      ∃ huffNum huffVal earlier, codesUpTo huffNum 16 ≤ 255 ∧
        (readDhtTables wait turns left infos r).2.1 index =
          HuffInfo.load huffNum huffVal earlier := by
  induction turns generalizing left infos r with
  | zero => exact .inl rfl
  | succ turns inductionHypothesis =>
      simp only [readDhtTables]
      split
      · exact .inl rfl
      split
      · exact .inl rfl
      rename_i few
      split
      · exact .inl rfl
      split
      · exact .inl rfl
      rcases inductionHypothesis with same | loaded
      · rw [same, Function.update_apply]
        split
        · exact .inr ⟨_, _, _, by omega, rfl⟩
        · exact .inl rfl
      · exact .inr loaded

theorem readDhtMarker_loaded {infos : Nat → HuffInfo} {r : Reader} (index : Nat) :
    (readDhtMarker wait infos r).2.1 index = infos index ∨
      ∃ huffNum huffVal earlier, codesUpTo huffNum 16 ≤ 255 ∧
        (readDhtMarker wait infos r).2.1 index = HuffInfo.load huffNum huffVal earlier := by
  simp only [readDhtMarker]
  split
  · exact .inl rfl
  · exact readDhtTables_loaded wait index

end ReadDht

section MakeHuffTable

/-- The sizes of some codes of one size stored from `p` on; nothing at the end of the
array. -/
def putSizes (l : Nat) : Nat → (Nat → Nat) × Nat → Option ((Nat → Nat) × Nat)
  | 0, s => some s
  | count + 1, (huffsize, p) =>
      if 257 ≤ p + 1 then none
      else putSizes l count (Function.update huffsize p l, p + 1)

/-- The size of each code, and the number of codes. -/
def makeSizes (huffNum : Nat → U8) : Option ((Nat → Nat) × Nat) :=
  (List.range' 1 16).foldlM (fun s l => putSizes l (huffNum l).toNat s) (fun _ => 0, 0)

/-- The variables of the loop that gives out the codes. -/
structure CodeLoop where
  p : Nat
  si : Nat
  code : U16
  huffcode : Nat → U16

/-- A turn of the inner loop, or its end and a turn of the outer one; it leaves without
codes at the end of the array. -/
def codeTurn (huffsize : Nat → Nat) (s : CodeLoop) : CodeLoop ⊕ Option (Nat → U16) :=
  if huffsize s.p = s.si then
    if 257 ≤ s.p + 1 then
      .inr none
    else
      .inl { s with
        huffcode := Function.update s.huffcode s.p s.code
        p := s.p + 1
        code := s.code + 1 }
  else if huffsize s.p = 0 then
    .inr (some s.huffcode)
  else
    .inl { s with code := s.code <<< 1, si := s.si + 1 }

/-- The codes of all sizes; the sizes ascend, so a turn either gives out a code or goes
on to the next one of at most 16 sizes. -/
def makeCodes (huffsize : Nat → Nat) : Option (Nat → U16) :=
  if huffsize 0 = 0 then some fun _ => 0
  else (Loop.run (codeTurn huffsize) 65536 ⟨0, huffsize 0, 0, fun _ => 0⟩).join

/-- Entries of the look-up table from a code on. -/
def fillLookUp (symbol : Int) : Nat → Nat → (Nat → Int) → Nat → Int
  | 0, _, lookUp => lookUp
  | count + 1, code, lookUp =>
      fillLookUp symbol count (code + 1) (Function.update lookUp code symbol)

/-- The element of `s16Tree` for the entry of a pair and the bit at the top of a code;
nothing outside of the array. -/
def treeIndex (currententry : Int) (code : U16) : Option Nat :=
  let currententry := if code &&& 0x8000 = 0 then currententry - 1 else currententry
  let index := -currententry - 1
  if 0 ≤ index ∧ index < 512 then some index.toNat else none

/-- The way of a code through the tree, with new pairs where there is none, and the
symbol at its end. -/
def insertCode (symbol : Int) :
    Nat → U16 → Int → (Nat → Int) × Int → Option ((Nat → Int) × Int)
  | 0, code, currententry, (tree, nextfreeentry) => do
      let index ← treeIndex currententry code
      some (Function.update tree index symbol, nextfreeentry)
  | turns + 1, code, currententry, (tree, nextfreeentry) => do
      let index ← treeIndex currententry code
      if tree index = 0 then
        insertCode symbol turns (code <<< 1) nextfreeentry
          (Function.update tree index nextfreeentry, nextfreeentry - 2)
      else
        insertCode symbol turns (code <<< 1) (tree index) (tree, nextfreeentry)

/-- One code put into the tables. -/
def putCode (symbol : U8) (code : U16) (codeSize : Nat) (s : HuffTables × Int) :
    Option (HuffTables × Int) :=
  let (hs, nextfreeentry) := s
  let hs := { hs with codeSize := Function.update hs.codeSize symbol.toNat codeSize }
  if codeSize ≤ 8 then
    let code := code <<< (8 - codeSize)
    some ({ hs with
      lookUp := fillLookUp symbol.toNat (2 ^ (8 - codeSize)) code.toNat hs.lookUp },
      nextfreeentry)
  else
    let subtree := (code >>> (codeSize - 8) &&& 0xFF).toNat
    let (lookUp, currententry, nextfreeentry) :=
      if hs.lookUp subtree = (0 : Int) then
        (Function.update hs.lookUp subtree nextfreeentry, nextfreeentry, nextfreeentry - 2)
      else
        (hs.lookUp, hs.lookUp subtree, nextfreeentry)
    (insertCode symbol.toNat (codeSize - 9) (code <<< (16 - (codeSize - 8))) currententry
      (hs.tree, nextfreeentry)).map fun (tree, nextfreeentry) =>
        ({ hs with lookUp := lookUp, tree := tree }, nextfreeentry)

/-- The tables of the software decoder. -/
def makeTables (huffVal : Nat → U8) (huffsize : Nat → Nat) (huffcode : Nat → U16)
    (lastp : Nat) : Option (HuffTables × Int) :=
  (List.range lastp).foldlM
    (fun s p => putCode (huffVal p) (huffcode p) (huffsize p) s)
    (⟨fun _ => 0, fun _ => 0, fun _ => 0⟩, -1)

/-- Nothing if the source returns `FALSE` or leaves the bounds of `s16Tree`. -/
def makeHuffTable (progressive : Bool) (info : HuffInfo) (hs : HuffTables) :
    Option (HuffInfo × HuffTables) := do
  let (huffsize, lastp) ← makeSizes info.huffNum
  let huffsize := Function.update huffsize lastp 0
  let huffcode ← makeCodes huffsize
  let info := { info with
    code := fun i => huffcode (info.symbol i).toNat <<< (15 - (i - 1)) }
  if progressive then
    let (hs, _) ← makeTables info.huffVal huffsize huffcode lastp
    some (info, hs)
  else
    some (info, hs)

end MakeHuffTable

/-- The last turn of a loop over the first numbers, and the turns before it. -/
theorem foldlM_range_succ {σ : Type*} {turn : σ → Nat → Option σ} {first last : σ}
    {count : Nat} :
    (List.range (count + 1)).foldlM turn first = some last ↔
      ∃ before, (List.range count).foldlM turn first = some before ∧
        turn before count = some last := by
  rw [List.range_succ, List.foldlM_append]
  simp only [List.foldlM_cons, List.foldlM_nil, Option.pure_def, Option.bind_eq_bind,
    Option.bind_fun_some, Option.bind_eq_some_iff]

section Decode

variable (wait : Wait)

/-- A turn through the tree with the next bit. -/
def huffTurn (ph : HuffTables) (s : Int × Reader) : Int × Reader ⊕ Int × Reader :=
  let (bit, r) := getBits2 wait 1 s.2
  let symbol := ph.tree ((-s.1 - 1) + (1 - bit.toNat)).toNat
  if symbol < 0 then .inl (symbol, r) else .inr (symbol, r)

/-- The decoded symbol; nothing if the way through the tree does not end. -/
def huffDecode (ph : HuffTables) (r : Reader) : Option (Int × Reader) :=
  let symbol := ph.lookUp ((r.bitBuf >>> 8) &&& 0xFF).toNat
  if symbol < 0 then
    Loop.run (huffTurn wait ph) 65536 (symbol, (getBits2 wait 8 r).2)
  else
    some (symbol, (getBits2 wait (ph.codeSize symbol.toNat) r).2)

/-- The symbol and the size of the code that a window of 16 bits starts with, as the
hardware finds it: a size that has codes, a code not below the least one of the size,
and no more codes of the size below it than there are. -/
def hardwareDecode (info : HuffInfo) (window : Nat) : Option (Nat × Nat) :=
  (List.range' 1 16).findSome? fun size =>
    if info.symbol size ≠ 0xFF ∧ (info.code size).toNat ≤ window ∧
        (window - (info.code size).toNat) / 2 ^ (16 - size) < (info.huffNum size).toNat then
      some ((info.huffVal ((info.symbol size).toNat +
        (window - (info.code size).toNat) / 2 ^ (16 - size))).toNat, size)
    else
      none

end Decode

section Sizes

variable {huffNum : Nat → U8}

/-- The size of each code as far as the sizes up to one are known. -/
def sizesUpTo (huffNum : Nat → U8) : Nat → Nat → Nat
  | 0, _ => 0
  | size + 1, q =>
      if codesUpTo huffNum size ≤ q ∧ q < codesUpTo huffNum (size + 1) then size + 1
      else sizesUpTo huffNum size q

/-- The room in a window of 16 bits that the codes of the sizes up to one take up. -/
def kraftUpTo (huffNum : Nat → U8) : Nat → Nat
  | 0 => 0
  | size + 1 => kraftUpTo huffNum size + (huffNum (size + 1)).toNat * 2 ^ (16 - (size + 1))

theorem codesUpTo_le_of_le {fewer more : Nat} (le : fewer ≤ more) :
    codesUpTo huffNum fewer ≤ codesUpTo huffNum more := by
  induction le with
  | refl => exact le_rfl
  | step _ inductionHypothesis => exact inductionHypothesis.trans (Nat.le_add_right _ _)

theorem putSizes_eq {l count p : Nat} {huffsize : Nat → Nat} (room : p + count ≤ 256) :
    putSizes l count (huffsize, p) =
      some (fun q => if p ≤ q ∧ q < p + count then l else huffsize q, p + count) := by
  induction count generalizing p huffsize with
  | zero =>
      have none : ∀ q, ¬ (p ≤ q ∧ q < p) := by omega
      simp [putSizes, none]
  | succ count inductionHypothesis =>
      rw [putSizes, if_neg (by omega), inductionHypothesis (by omega)]
      simp only [Option.some.injEq, Prod.mk.injEq]
      refine ⟨?_, by omega⟩
      funext q
      by_cases here : q = p
      · subst here
        simp
      · rw [Function.update_of_ne here]
        congr 1
        simp only [eq_iff_iff]
        omega

theorem makeSizes_eq (few : codesUpTo huffNum 16 ≤ 255) :
    makeSizes huffNum = some (sizesUpTo huffNum 16, codesUpTo huffNum 16) := by
  have steps : ∀ m ≤ 16,
      (List.range' 1 m).foldlM (fun s l => putSizes l (huffNum l).toNat s) (fun _ => 0, 0) =
        some (sizesUpTo huffNum m, codesUpTo huffNum m) := by
    intro m inside
    induction m with
    | zero => rfl
    | succ m inductionHypothesis =>
        have less := @codesUpTo_le_of_le huffNum (m + 1) 16 inside
        rw [codesUpTo] at less
        rw [List.range'_concat, List.foldlM_append, inductionHypothesis (by omega)]
        simp only [Option.bind_eq_bind, Option.bind_some, List.foldlM_cons, List.foldlM_nil,
          Nat.one_mul, Nat.add_comm 1 m]
        rw [putSizes_eq (by omega)]
        rfl
  exact steps 16 le_rfl

/-- A code is of the size whose codes it is among. -/
theorem sizesUpTo_eq {size last q : Nat} (fits : size + 1 ≤ last)
    (above : codesUpTo huffNum size ≤ q) (below : q < codesUpTo huffNum (size + 1)) :
    sizesUpTo huffNum last q = size + 1 := by
  induction fits with
  | refl => rw [sizesUpTo, if_pos ⟨above, below⟩]
  | @step last fits inductionHypothesis =>
      have less := @codesUpTo_le_of_le huffNum _ _ fits
      rw [sizesUpTo, if_neg (by omega), inductionHypothesis]

theorem sizesUpTo_of_le {last q : Nat} (behind : codesUpTo huffNum last ≤ q) :
    sizesUpTo huffNum last q = 0 := by
  induction last with
  | zero => rfl
  | succ last inductionHypothesis =>
      rw [codesUpTo] at behind
      rw [sizesUpTo, if_neg (by rw [codesUpTo]; omega), inductionHypothesis (by omega)]

theorem exists_size {last q : Nat} (inside : q < codesUpTo huffNum last) :
    ∃ size < last, codesUpTo huffNum size ≤ q ∧ q < codesUpTo huffNum (size + 1) := by
  induction last with
  | zero => exact absurd inside (Nat.not_lt_zero _)
  | succ last inductionHypothesis =>
      rcases Nat.lt_or_ge q (codesUpTo huffNum last) with earlier | here
      · obtain ⟨size, less, between⟩ := inductionHypothesis earlier
        exact ⟨size, by omega, between⟩
      · exact ⟨last, by omega, here, inside⟩

theorem sizes_ascending : Ascending 16 (sizesUpTo huffNum 16) (codesUpTo huffNum 16) := by
  constructor
  · intro p inside
    obtain ⟨size, less, above, below⟩ := exists_size inside
    rw [sizesUpTo_eq less above below]
    omega
  · intro p inside
    obtain ⟨size, less, above, below⟩ := @exists_size huffNum 16 p (by omega)
    obtain ⟨next, nextLess, nextAbove, nextBelow⟩ := exists_size inside
    rw [sizesUpTo_eq less above below, sizesUpTo_eq nextLess nextAbove nextBelow]
    by_contra greater
    have := @codesUpTo_le_of_le huffNum (next + 1) size (by omega)
    omega

theorem sizes_positive {p : Nat} (inside : p < codesUpTo huffNum 16) :
    1 ≤ sizesUpTo huffNum 16 p := by
  obtain ⟨size, less, above, below⟩ := exists_size inside
  rw [sizesUpTo_eq less above below]
  omega

/-- The start of a code among those of its size. -/
theorem start_add {size count : Nat} (fits : size < 16)
    (inside : count ≤ (huffNum (size + 1)).toNat) :
    start 16 (sizesUpTo huffNum 16) (codesUpTo huffNum size + count) =
      start 16 (sizesUpTo huffNum 16) (codesUpTo huffNum size) + count * 2 ^ (16 - (size + 1)) := by
  induction count with
  | zero => simp
  | succ count inductionHypothesis =>
      have here : sizesUpTo huffNum 16 (codesUpTo huffNum size + count) = size + 1 := by
        apply sizesUpTo_eq fits (by omega)
        rw [codesUpTo]
        omega
      rw [← Nat.add_assoc, start, inductionHypothesis (by omega), here]
      ring

theorem start_codesUpTo {last : Nat} (fits : last ≤ 16) :
    start 16 (sizesUpTo huffNum 16) (codesUpTo huffNum last) = kraftUpTo huffNum last := by
  induction last with
  | zero => rfl
  | succ last inductionHypothesis =>
      rw [codesUpTo, kraftUpTo, start_add (by omega) le_rfl, inductionHypothesis (by omega)]

end Sizes

section Codes

variable {sizes : Nat → Nat} {total : Nat}

/-- The sizes of some codes: they ascend and end with a zero, and all codes together
fit into a window. -/
structure Coded (sizes : Nat → Nat) (total : Nat) : Prop where
  ascending : Ascending 16 sizes total
  positive : ∀ p < total, 1 ≤ sizes p
  ended : ∀ p, total ≤ p → sizes p = 0
  kraft : start 16 sizes total ≤ 2 ^ 16
  few : total ≤ 255

theorem Coded.start_lt (coded : Coded sizes total) {p : Nat} (inside : p < total) :
    start 16 sizes p < 2 ^ 16 := by
  have next := @start_le_of_le 16 sizes (p + 1) total inside
  have positive := Nat.two_pow_pos (16 - sizes p)
  have kraft := coded.kraft
  rw [start] at next
  omega

theorem Coded.word_lt (coded : Coded sizes total) {p : Nat} (inside : p < total) :
    word sizes p < 2 ^ sizes p := by
  have fits := coded.ascending.fits p inside
  have below := coded.start_lt inside
  rw [← coded.ascending.word_mul inside,
    show 2 ^ 16 = 2 ^ sizes p * 2 ^ (16 - sizes p) by rw [← pow_add]; congr 1; omega] at below
  exact Nat.lt_of_mul_lt_mul_right below

/-- The loop that gives out the codes, in front of a code or behind the last one. -/
structure AtCode (sizes : Nat → Nat) (total : Nat) (s : CodeLoop) : Prop where
  inside : s.p ≤ total
  positive : 1 ≤ s.si
  codes : ∀ q < s.p, (s.huffcode q).toNat = word sizes q
  none : ∀ q, s.p ≤ q → s.huffcode q = 0
  code : s.p < total →
    s.si ≤ sizes s.p ∧ s.code.toNat * 2 ^ (16 - s.si) = start 16 sizes s.p

theorem AtCode.give {s : CodeLoop} (coded : Coded sizes total) (at_ : AtCode sizes total s)
    (more : s.p < total) (same : sizes s.p = s.si) :
    AtCode sizes total { s with
      huffcode := Function.update s.huffcode s.p s.code
      p := s.p + 1
      code := s.code + 1 } := by
  obtain ⟨-, code⟩ := at_.code more
  have fits := coded.ascending.fits _ more
  rw [← same] at code
  have given : s.code.toNat = word sizes s.p := by
    rw [← coded.ascending.word_mul more] at code
    exact Nat.eq_of_mul_eq_mul_right (Nat.two_pow_pos _) code
  refine ⟨more, at_.positive, ?_, ?_, ?_⟩
  · intro q earlier
    simp only at earlier ⊢
    by_cases here : q = s.p
    · simp only [here, Function.update_self, given]
    · rw [Function.update_of_ne here]
      exact at_.codes q (by omega)
  · intro q later
    simp only at later ⊢
    rw [Function.update_of_ne (by omega)]
    exact at_.none q (by omega)
  · intro next
    simp only at next ⊢
    refine ⟨same ▸ coded.ascending.le_succ _ next, ?_⟩
    have below := coded.start_lt next
    have room := Nat.two_pow_pos (16 - sizes s.p)
    rw [start, ← code, ← Nat.succ_mul] at below
    have small : s.code.toNat + 1 < 2 ^ 16 :=
      Nat.lt_of_le_of_lt (Nat.le_mul_of_pos_right _ room) below
    rw [start, ← code, ← same, BitVec.toNat_add, show (1 : U16).toNat = 1 from rfl,
      Nat.mod_eq_of_lt small]
    ring

theorem AtCode.shift {s : CodeLoop} (coded : Coded sizes total) (at_ : AtCode sizes total s)
    (more : s.p < total) (other : sizes s.p ≠ s.si) :
    AtCode sizes total { s with code := s.code <<< 1, si := s.si + 1 } := by
  obtain ⟨le, code⟩ := at_.code more
  have fits := coded.ascending.fits _ more
  refine ⟨at_.inside, Nat.le_add_left _ _, at_.codes, at_.none, ?_⟩
  intro _
  simp only
  refine ⟨by omega, ?_⟩
  have below := coded.start_lt more
  have half : 2 ^ (16 - s.si) = 2 * 2 ^ (16 - (s.si + 1)) := by
    rw [← pow_succ']
    congr 1
    omega
  rw [← code, half] at below
  have room := Nat.two_pow_pos (16 - (s.si + 1))
  have small : 2 * s.code.toNat < 2 ^ 16 := by
    apply Nat.lt_of_le_of_lt (Nat.le_mul_of_pos_right _ room)
    rw [← Nat.mul_assoc, Nat.mul_comm s.code.toNat 2] at below
    exact below
  rw [← code, half, BitVec.toNat_shiftLeft, Nat.shiftLeft_eq, pow_one,
    Nat.mod_eq_of_lt (by omega)]
  ring

theorem run_codeTurn (coded : Coded sizes total) {count : Nat} {s : CodeLoop}
    (at_ : AtCode sizes total s) (enough : (total - s.p) + (16 - s.si) < count) :
    ∃ huffcode, Loop.run (codeTurn sizes) count s = some (some huffcode) ∧
      (∀ q < total, (huffcode q).toNat = word sizes q) ∧ ∀ q, total ≤ q → huffcode q = 0 := by
  induction count generalizing s with
  | zero => omega
  | succ count inductionHypothesis =>
      have few := coded.few
      have inside := at_.inside
      have positive := at_.positive
      rcases Nat.lt_or_ge s.p total with more | last
      · have fits := coded.ascending.fits _ more
        have least := coded.positive _ more
        by_cases same : sizes s.p = s.si
        · have goes : codeTurn sizes s = .inl { s with
              huffcode := Function.update s.huffcode s.p s.code
              p := s.p + 1
              code := s.code + 1 } := by
            rw [codeTurn, if_pos same, if_neg (by omega)]
          rw [Loop.run_of_goes goes]
          exact inductionHypothesis (at_.give coded more same) (by simp only; omega)
        · have le := (at_.code more).1
          have goes : codeTurn sizes s =
              .inl { s with code := s.code <<< 1, si := s.si + 1 } := by
            rw [codeTurn, if_neg same, if_neg (by omega)]
          rw [Loop.run_of_goes goes]
          exact inductionHypothesis (at_.shift coded more same) (by simp only; omega)
      · have zero := coded.ended _ last
        have leaves : codeTurn sizes s = .inr (some s.huffcode) := by
          rw [codeTurn, if_neg (by omega), if_pos zero]
        refine ⟨s.huffcode, Loop.run_of_leaves leaves count, ?_, ?_⟩
        · intro q earlier
          exact at_.codes q (by omega)
        · intro q later
          exact at_.none q (by omega)

theorem makeCodes_eq (coded : Coded sizes total) :
    ∃ huffcode, makeCodes sizes = some huffcode ∧
      (∀ q < total, (huffcode q).toNat = word sizes q) ∧ ∀ q, total ≤ q → huffcode q = 0 := by
  rw [makeCodes]
  split
  · rename_i empty
    have none : total = 0 := by
      by_contra nonzero
      have := coded.positive 0 (by omega)
      omega
    exact ⟨_, rfl, by simp [none], fun _ _ => rfl⟩
  · rename_i some
    have more : 0 < total := by
      by_contra none
      exact some (coded.ended 0 (by omega))
    have few := coded.few
    obtain ⟨huffcode, returns, codes⟩ := @run_codeTurn sizes total coded 65536
      ⟨0, sizes 0, 0, fun _ => 0⟩
      ⟨Nat.zero_le _, coded.positive 0 more, by simp, fun _ _ => rfl,
        fun _ => ⟨le_rfl, by simp [start]⟩⟩ (by simp only; omega)
    exact ⟨huffcode, by rw [returns]; rfl, codes⟩

end Codes

section Hardware

variable {huffNum : Nat → U8}

theorem inverseOrder_eq {size : Nat} (fits : size < 16) :
    inverseOrder huffNum (codesUpTo huffNum 16) (size + 1) =
      if huffNum (size + 1) ≠ 0 then BitVec.ofNat 8 (codesUpTo huffNum size) else 0xFF := by
  have steps : ∀ m ≤ 16,
      (List.range' 1 m).foldl
        (fun (count, table) i =>
          if table (17 - i) ≠ 0 then
            let count := count - (table (17 - i)).toNat
            (count, Function.update table (17 - i) (BitVec.ofNat 8 count))
          else
            (count, Function.update table (17 - i) 0xFF))
        (codesUpTo huffNum 16, huffNum) =
      (codesUpTo huffNum (16 - m), fun size =>
        if 16 - m < size ∧ size ≤ 16 then
          if huffNum size ≠ 0 then BitVec.ofNat 8 (codesUpTo huffNum (size - 1)) else 0xFF
        else huffNum size) := by
    intro m inside
    induction m with
    | zero =>
        have none : ∀ size, ¬ (16 < size ∧ size ≤ 16) := by omega
        simp [none]
    | succ m inductionHypothesis =>
        obtain ⟨k, place⟩ : ∃ k, 16 - m = k + 1 := ⟨16 - m - 1, by omega⟩
        rw [List.range'_concat, List.foldl_append, inductionHypothesis (by omega)]
        simp only [List.foldl_cons, List.foldl_nil, Nat.one_mul,
          show 17 - (1 + m) = k + 1 by omega, place, show 16 - (m + 1) = k by omega,
          lt_irrefl, false_and, if_false]
        by_cases empty : huffNum (k + 1) = 0
        · rw [if_neg (by simpa using empty)]
          simp only [Prod.mk.injEq]
          refine ⟨by rw [codesUpTo, empty]; rfl, ?_⟩
          funext size
          by_cases here : size = k + 1
          · subst here
            rw [Function.update_self, if_pos (by omega), if_neg (by simpa using empty)]
          · rw [Function.update_of_ne here]
            congr 1
            simp only [eq_iff_iff]
            omega
        · rw [if_pos empty]
          have count : codesUpTo huffNum (k + 1) - (huffNum (k + 1)).toNat =
              codesUpTo huffNum k := by
            rw [codesUpTo]
            omega
          simp only [count, Prod.mk.injEq, true_and]
          funext size
          by_cases here : size = k + 1
          · subst here
            rw [Function.update_self, if_pos (by omega), if_pos empty, Nat.add_sub_cancel]
          · rw [Function.update_of_ne here]
            congr 1
            simp only [eq_iff_iff]
            omega
  rw [inverseOrder, steps 16 le_rfl]
  simp only
  rw [if_pos (by omega), Nat.add_sub_cancel]

theorem findSome_unique {α β : Type*} {f : α → Option β} {items : List α} {item : α}
    {found : β} (member : item ∈ items) (here : f item = some found)
    (others : ∀ other ∈ items, other ≠ item → f other = none) :
    items.findSome? f = some found := by
  induction items with
  | nil => simp at member
  | cons first rest inductionHypothesis =>
      by_cases same : first = item
      · rw [same, List.findSome?_cons, here]
      · rw [List.findSome?_cons, others first (by simp) same]
        apply inductionHypothesis
        · exact (List.mem_cons.mp member).resolve_left (Ne.symm same)
        · intro other inRest
          exact others other (List.mem_cons_of_mem _ inRest)

variable {huffVal : Nat → U8} {huffcode : Nat → U16} {info : HuffInfo}

/-- What the hardware is told about a table. -/
structure Described (huffNum huffVal : Nat → U8) (info : HuffInfo) : Prop where
  num : info.huffNum = huffNum
  val : info.huffVal = huffVal
  empty : ∀ size < 16, huffNum (size + 1) = 0 → info.symbol (size + 1) = 0xFF
  symbol : ∀ size < 16, huffNum (size + 1) ≠ 0 →
    (info.symbol (size + 1)).toNat = codesUpTo huffNum size ∧ info.symbol (size + 1) ≠ 0xFF
  code : ∀ size < 16, huffNum (size + 1) ≠ 0 →
    (info.code (size + 1)).toNat =
      start 16 (sizesUpTo huffNum 16) (codesUpTo huffNum size)

/-- The first code of a size that has codes. -/
theorem first_inside {size : Nat} (fits : size < 16) (some : huffNum (size + 1) ≠ 0) :
    codesUpTo huffNum size < codesUpTo huffNum 16 ∧
      sizesUpTo huffNum 16 (codesUpTo huffNum size) = size + 1 := by
  have positive : 0 < (huffNum (size + 1)).toNat := by
    apply Nat.pos_of_ne_zero
    intro zero
    exact some (BitVec.eq_of_toNat_eq zero)
  have more := @codesUpTo_le_of_le huffNum (size + 1) 16 fits
  have next : codesUpTo huffNum size < codesUpTo huffNum (size + 1) := by
    rw [codesUpTo]
    omega
  exact ⟨by omega, sizesUpTo_eq fits le_rfl next⟩

variable (coded : Coded (sizesUpTo huffNum 16) (codesUpTo huffNum 16))

include coded

theorem described_of (num : info.huffNum = huffNum) (val : info.huffVal = huffVal)
    (symbol : info.symbol = inverseOrder huffNum (codesUpTo huffNum 16))
    (code : ∀ i, info.code i = huffcode (info.symbol i).toNat <<< (15 - (i - 1)))
    (codes : ∀ q < codesUpTo huffNum 16,
      (huffcode q).toNat = word (sizesUpTo huffNum 16) q) :
    Described huffNum huffVal info := by
  have few := coded.few
  have first : ∀ size < 16, huffNum (size + 1) ≠ 0 →
      (info.symbol (size + 1)).toNat = codesUpTo huffNum size := by
    intro size fits some
    have inside := (first_inside fits some).1
    rw [symbol, inverseOrder_eq fits, if_pos some, BitVec.toNat_ofNat,
      Nat.mod_eq_of_lt (by omega)]
  refine ⟨num, val, ?_, ?_, ?_⟩
  · intro size fits none
    rw [symbol, inverseOrder_eq fits, if_neg (by simpa using none)]
  · intro size fits some
    have inside := (first_inside fits some).1
    have here := first size fits some
    refine ⟨here, ?_⟩
    intro invalid
    rw [invalid, show (0xFF : U8).toNat = 255 by decide] at here
    omega
  · intro size fits some
    obtain ⟨inside, here⟩ := first_inside fits some
    have below := coded.start_lt inside
    rw [code, first size fits some, BitVec.toNat_shiftLeft, Nat.shiftLeft_eq, codes _ inside,
      show 15 - (size + 1 - 1) = 16 - sizesUpTo huffNum 16 (codesUpTo huffNum size) by omega,
      coded.ascending.word_mul inside, Nat.mod_eq_of_lt below]

/-- The hardware finds the code that the window starts with. -/
theorem Described.hardwareDecode (described : Described huffNum huffVal info) {p window : Nat}
    (inside : p < codesUpTo huffNum 16)
    (here : pre 16 (sizesUpTo huffNum 16 p) window = word (sizesUpTo huffNum 16) p) :
    HuffmanTable.hardwareDecode info window =
      some ((huffVal p).toNat, sizesUpTo huffNum 16 p) := by
  have ascending := coded.ascending
  -- a size for which the test holds is that of the code
  have found : ∀ size < 16, huffNum (size + 1) ≠ 0 →
      start 16 (sizesUpTo huffNum 16) (codesUpTo huffNum size) ≤ window →
      (window - start 16 (sizesUpTo huffNum 16) (codesUpTo huffNum size)) /
        2 ^ (16 - (size + 1)) < (huffNum (size + 1)).toNat →
      codesUpTo huffNum size +
        (window - start 16 (sizesUpTo huffNum 16) (codesUpTo huffNum size)) /
          2 ^ (16 - (size + 1)) = p ∧ sizesUpTo huffNum 16 p = size + 1 := by
    intro size fits some above fewer
    obtain ⟨-, here'⟩ := first_inside fits some
    have room := Nat.two_pow_pos (16 - (size + 1))
    generalize split : (window - start 16 (sizesUpTo huffNum 16) (codesUpTo huffNum size)) /
      2 ^ (16 - (size + 1)) = k at fewer ⊢
    have more := @codesUpTo_le_of_le huffNum (size + 1) 16 fits
    have next : codesUpTo huffNum size + k < codesUpTo huffNum (size + 1) := by
      rw [codesUpTo]
      omega
    have sameSize := sizesUpTo_eq fits (Nat.le_add_right _ k) next
    have there : pre 16 (sizesUpTo huffNum 16 (codesUpTo huffNum size + k)) window =
        word (sizesUpTo huffNum 16) (codesUpTo huffNum size + k) := by
      rw [ascending.pre_eq_word_iff (by omega), Nat.add_assoc, start_add fits (by omega),
        start_add fits (by omega)]
      rw [Nat.div_eq_iff room] at split
      rw [Nat.succ_mul]
      omega
    have same := ascending.unique (by omega) inside there here
    exact ⟨same, by rw [← same, sameSize]⟩
  have test : ∀ size < 16, (info.symbol (size + 1) ≠ 0xFF ∧
      (info.code (size + 1)).toNat ≤ window ∧
      (window - (info.code (size + 1)).toNat) / 2 ^ (16 - (size + 1)) <
        (info.huffNum (size + 1)).toNat) →
      (info.symbol (size + 1)).toNat +
        (window - (info.code (size + 1)).toNat) / 2 ^ (16 - (size + 1)) = p ∧
        sizesUpTo huffNum 16 p = size + 1 := by
    rintro size fits ⟨valid, above, fewer⟩
    have some : huffNum (size + 1) ≠ 0 := fun none => valid (described.empty size fits none)
    rw [described.code size fits some] at above fewer ⊢
    rw [described.num] at fewer
    rw [(described.symbol size fits some).1]
    exact found size fits some above fewer
  have member : ∀ {size}, size ∈ List.range' 1 16 ↔ ∃ k < 16, size = k + 1 := by
    intro size
    rw [List.mem_range'_1]
    constructor
    · intro between
      exact ⟨size - 1, by omega, by omega⟩
    · rintro ⟨k, less, rfl⟩
      omega
  obtain ⟨size, fits, above, below⟩ := exists_size inside
  have sameSize := sizesUpTo_eq fits above below
  have some : huffNum (size + 1) ≠ 0 := by
    intro none
    rw [codesUpTo, none, show (0 : U8).toNat = 0 from rfl] at below
    omega
  have holds : info.symbol (size + 1) ≠ 0xFF ∧ (info.code (size + 1)).toNat ≤ window ∧
      (window - (info.code (size + 1)).toNat) / 2 ^ (16 - (size + 1)) <
        (info.huffNum (size + 1)).toNat := by
    obtain ⟨first, valid⟩ := described.symbol size fits some
    obtain ⟨k, place⟩ := Nat.exists_eq_add_of_le above
    rw [codesUpTo] at below
    rw [ascending.pre_eq_word_iff inside, place, Nat.add_assoc, start_add fits (by omega),
      start_add fits (by omega), Nat.succ_mul] at here
    refine ⟨valid, ?_, ?_⟩
    · rw [described.code size fits some]
      omega
    · have room := Nat.two_pow_pos (16 - (size + 1))
      have next : k + 1 ≤ (huffNum (size + 1)).toNat := by omega
      have all := Nat.mul_le_mul_right (2 ^ (16 - (size + 1))) next
      rw [described.code size fits some, described.num, Nat.div_lt_iff_lt_mul room]
      rw [Nat.succ_mul] at all
      omega
  apply findSome_unique (member.mpr ⟨size, fits, rfl⟩)
  · rw [if_pos holds, (test size fits holds).1, described.val, sameSize]
  · intro other inRange different
    obtain ⟨k, less, rfl⟩ := member.mp inRange
    apply if_neg
    intro also
    have := (test k less also).2
    omega

end Hardware

end Gp2Firmware.Jpeg.HuffmanTable
