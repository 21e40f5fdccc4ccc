import Gp2Firmware.Lib.BackReference
import Gp2Firmware.Lib.Loop
import Mathlib.Algebra.Group.Nat.Defs

/-!
# Decompression of LZO1X

`lzo1x_decompress` reads a memory from the start of the compressed data on.  What it has
written is kept as a list, from `out` up to `op`.  The places that its jumps go to are the
labels of a loop, each turn of which ends with the next jump.
-/

namespace Gp2Firmware.Minilzo

open Gp2Firmware.Lib Gp2Firmware.Lib.BackReference

abbrev U8 := BitVec 8
abbrev U32 := BitVec 32

/-- The head of the outer loop, and the labels `first_literal_run`, `match` and `match_next`,
the last two with `t`. -/
inductive Label where
  | top
  | firstLiteralRun
  | found (t : Nat)
  | matchNext (t : Nat)
deriving DecidableEq, Repr

structure Cursor where
  ip : Nat
  out : List U8
deriving DecidableEq, Repr

abbrev Decoder := Label × Cursor

/-- `M2_MAX_OFFSET`, `M3_MAX_OFFSET`, `M4_MAX_OFFSET` -/
def m2MaxOffset : Nat := 0x800
def m3MaxOffset : Nat := 0x4000
def m4MaxOffset : Nat := 0xbfff

/-- `LZO_E_OK`, `LZO_E_ERROR`, `LZO_E_INPUT_OVERRUN`, `LZO_E_INPUT_NOT_CONSUMED` -/
def LZO_E_OK : Int := 0
def LZO_E_ERROR : Int := -1
def LZO_E_INPUT_OVERRUN : Int := -4
def LZO_E_INPUT_NOT_CONSUMED : Int := -8

section Code

variable (src : Nat → U8) (turns : Nat)

/-- `while (*ip == 0) { t += 255; ip++; }`, given up after some turns. -/
def skipZeros : Nat → Nat → Nat → Option (Nat × Nat)
  | 0, _, _ => none
  | turns + 1, t, ip =>
      if src ip = 0 then skipZeros turns ((t + 255) % 2 ^ 32) (ip + 1) else some (t, ip)

/-- The length behind a zero, which is added to what the zero stands for. -/
def longCount (base ip : Nat) : Option (Nat × Nat) :=
  (skipZeros src turns 0 ip).map fun (t, ip) =>
    ((t + (base + (src ip).toNat)) % 2 ^ 32, ip + 1)

/-- The turns of `do … while (--t > 0)`. -/
def doTurns (t : Nat) : Nat :=
  if t = 0 then 2 ^ 32 else t

def literalRun (count : Nat) (c : Cursor) : Cursor :=
  ⟨c.ip + count, c.out ++ slice src c.ip count⟩

/-- `match_done` -/
def matchDone (c : Cursor) : Decoder :=
  let t := (src (c.ip - 2) &&& 3).toNat
  (if t = 0 then .top else .matchNext t, c)

/-- Some bytes from a distance before `op`, then `match_done`; the loop is left without a
result where they lie in front of `out`. -/
def copyThen (distance count ip : Nat) (out : List U8) : Decoder ⊕ Option Cursor :=
  match copyBack distance count out with
  | none => .inr none
  | some out => .inl (matchDone src ⟨ip, out⟩)

/-- The two bytes of an offset. -/
def offsetAt (ip : Nat) : Nat :=
  (src ip).toNat >>> 2 + (src (ip + 1)).toNat <<< 6

/-- `match` -/
def foundTurn (t : Nat) (c : Cursor) : Decoder ⊕ Option Cursor :=
  if 64 ≤ t then
    copyThen src (1 + (t >>> 2 &&& 7) + (src c.ip).toNat <<< 3) (2 + doTurns (t >>> 5 - 1))
      (c.ip + 1) c.out
  else if 32 ≤ t then
    match if t &&& 31 = 0 then longCount src turns 31 c.ip else some (t &&& 31, c.ip) with
    | none => .inr none
    | some (t, ip) => copyThen src (1 + offsetAt src ip) (2 + doTurns t) (ip + 2) c.out
  else if 16 ≤ t then
    match if t &&& 7 = 0 then longCount src turns 7 c.ip else some (t &&& 7, c.ip) with
    | none => .inr none
    | some (count, ip) =>
        let offset := (t &&& 8) <<< 11 + offsetAt src ip
        -- `eof_found`
        if offset = 0 then .inr (some ⟨ip + 2, c.out⟩)
        else copyThen src (offset + 0x4000) (2 + doTurns count) (ip + 2) c.out
  else copyThen src (1 + t >>> 2 + (src c.ip).toNat <<< 2) 2 (c.ip + 1) c.out

def turn : Decoder → Decoder ⊕ Option Cursor
  | (.top, c) =>
      let t := (src c.ip).toNat
      if 16 ≤ t then .inl (.found t, { c with ip := c.ip + 1 })
      else
        match if t = 0 then longCount src turns 15 (c.ip + 1) else some (t, c.ip + 1) with
        | none => .inr none
        | some (t, ip) =>
            .inl (.firstLiteralRun, literalRun src (3 + doTurns t) { c with ip := ip })
  | (.firstLiteralRun, c) =>
      let t := (src c.ip).toNat
      if 16 ≤ t then .inl (.found t, { c with ip := c.ip + 1 })
      else
        copyThen src (1 + m2MaxOffset + t >>> 2 + (src (c.ip + 1)).toNat <<< 2) 3 (c.ip + 2)
          c.out
  | (.found t, c) => foundTurn src turns t c
  | (.matchNext t, c) =>
      let c := literalRun src t c
      .inl (.found (src c.ip).toNat, { c with ip := c.ip + 1 })

def start : Decoder :=
  let first := (src 0).toNat
  if 17 < first then
    if first - 17 < 4 then (.matchNext (first - 17), ⟨1, []⟩)
    else (.firstLiteralRun, literalRun src (first - 17) ⟨1, []⟩)
  else (.top, ⟨0, []⟩)

/-- The result and what is written; `none` where the loop is not left within the turns, or
reads in front of `out`. -/
def lzo1xDecompress (inLen : Nat) : Option (Int × List U8) :=
  match Loop.run (turn src turns) turns (start src) with
  | some (some c) =>
      some (if c.ip = inLen then LZO_E_OK
        else if c.ip < inLen then LZO_E_INPUT_NOT_CONSUMED else LZO_E_INPUT_OVERRUN, c.out)
  | _ => none

end Code

end Gp2Firmware.Minilzo
