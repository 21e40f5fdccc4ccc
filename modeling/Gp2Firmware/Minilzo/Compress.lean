import Gp2Firmware.Minilzo.Decompress

/-!
# Compression by LZO1X-1

`lzo1x_1_compress` looks for a repetition with a dictionary of pointers into the input, of
which nothing is known on entry: what a pointer leads to is checked before it is used.
Pointers are addresses; places in the input are counted from `in`.
-/

namespace Gp2Firmware.Minilzo

open Gp2Firmware.Lib Gp2Firmware.Lib.BackReference

/-- Literals from `ii` up to `ip` are not written yet. -/
structure Compressor where
  ip : Nat
  ii : Nat
  dict : U32 → U32
  out : List U8

/-- `while (tt > 255) { tt -= 255; *op++ = 0; } *op++ = tt;` -/
def lengthBytes : Nat → Nat → List U8
  | 0, _ => []
  | turns + 1, tt => if 255 < tt then 0 :: lengthBytes turns (tt - 255) else [BitVec.ofNat 8 tt]

/-- What precedes a run of `t` literals; a run of up to three is noted in the byte before the
last one. -/
def runHeader (t : Nat) (out : List U8) : List U8 :=
  if t ≤ 3 then out.modify (out.length - 2) (· ||| BitVec.ofNat 8 t)
  else if t ≤ 18 then out ++ [BitVec.ofNat 8 (t - 3)]
  else out ++ 0 :: lengthBytes (t - 18) (t - 18)

def offsetBytes (offset : Nat) : List U8 :=
  [BitVec.ofNat 8 ((offset &&& 63) <<< 2), BitVec.ofNat 8 (offset >>> 6)]

def M2_MAX_LEN : Nat := 8
def M3_MARKER : Nat := 32
def M4_MARKER : Nat := 16

/-- A match of up to `M2_MAX_LEN` bytes, or of more. -/
def matchBytes (mOff mLen : Nat) : List U8 :=
  let near := mOff - 1
  let far := mOff - 0x4000
  let high := (far &&& 0x4000) >>> 11
  if mLen ≤ M2_MAX_LEN then
    if mOff ≤ m2MaxOffset then
      [BitVec.ofNat 8 ((mLen - 1) <<< 5 ||| (near &&& 7) <<< 2), BitVec.ofNat 8 (near >>> 3)]
    else if mOff ≤ m3MaxOffset then BitVec.ofNat 8 (M3_MARKER ||| (mLen - 2)) :: offsetBytes near
    else BitVec.ofNat 8 (M4_MARKER ||| high ||| (mLen - 2)) :: offsetBytes far
  else if mOff ≤ m3MaxOffset then
    (if mLen ≤ 33 then [BitVec.ofNat 8 (M3_MARKER ||| (mLen - 2))]
      else BitVec.ofNat 8 M3_MARKER :: lengthBytes (mLen - 33) (mLen - 33)) ++ offsetBytes near
  else
    (if mLen ≤ 9 then [BitVec.ofNat 8 (M4_MARKER ||| high ||| (mLen - 2))]
      else BitVec.ofNat 8 (M4_MARKER ||| high) :: lengthBytes (mLen - 9) (mLen - 9)) ++
      offsetBytes far

section Code

variable (src : Nat → U8) (base : U32) (inLen : Nat)

/-- `DINDEX1` -/
def dindex1 (p : Nat) : U32 :=
  let byte i := (src (p + i)).setWidth 32
  let dx3 := ((((byte 3 <<< 6) ^^^ byte 2) <<< 5 ^^^ byte 1) <<< 5) ^^^ byte 0
  (0x21 * dx3) >>> 5 &&& 0x3fff

/-- `DINDEX2` -/
def dindex2 (d : U32) : U32 :=
  (d &&& (0x3fff &&& 0x7ff)) ^^^ (0x2000 ||| 0x1f)

/-- `LZO_CHECK_MPOS_NON_DET` with `M4_MAX_OFFSET`: `m_pos` and `m_off`, unless the pointer is
of no use. -/
def checkMpos (ip : Nat) (pointer : U32) : Option (Nat × Nat) :=
  let mOff := base + BitVec.ofNat 32 ip - pointer
  if pointer < base ∨ mOff = 0 ∨ m4MaxOffset < mOff.toNat then none
  else some ((pointer - base).toNat, mOff.toNat)

/-- `m_off <= M2_MAX_OFFSET || m_pos[3] == ip[3]` -/
def worthTrying (ip : Nat) (place : Nat × Nat) : Bool :=
  decide (place.2 ≤ m2MaxOffset ∨ src (place.1 + 3) = src (ip + 3))

/-- The index that is looked at last, and the place to try. -/
def lookUp (dict : U32 → U32) (ip : Nat) : U32 × Option (Nat × Nat) :=
  let first := dindex1 src ip
  match checkMpos base ip (dict first) with
  | none => (first, none)
  | some place =>
      if worthTrying src ip place then (first, some place)
      else
        let second := dindex2 first
        (second, (checkMpos base ip (dict second)).filter (worthTrying src ip))

/-- `try_match` -/
def startsMatch (mPos ip : Nat) : Bool :=
  decide (src mPos = src ip ∧ src (mPos + 1) = src (ip + 1) ∧ src (mPos + 2) = src (ip + 2))

/-- `while (ip < end && *m == *ip) m++, ip++;`, with the number of bytes up to `end`. -/
def extend (m ip : Nat) : Nat → Nat
  | 0 => 0
  | left + 1 => if src m = src ip then extend (m + 1) (ip + 1) left + 1 else 0

/-- `m_len` -/
def matchLength (mPos ip : Nat) : Nat :=
  match [3, 4, 5, 6, 7, 8].find? fun i => src (mPos + i) ≠ src (ip + i) with
  | some i => i
  | none => 9 + extend src (mPos + 9) (ip + 9) (inLen - (ip + 9))

/-- The literals from `ii` on, with what precedes them. -/
def putLiterals (t ii : Nat) (out : List U8) : List U8 :=
  if 0 < t then runHeader t out ++ slice src ii t else out

/-- The loop is left at `ip_end`. -/
def next (c : Compressor) : Compressor ⊕ Compressor :=
  if inLen - (M2_MAX_LEN + 5) ≤ c.ip then .inr c else .inl c

def compressTurn (c : Compressor) : Compressor ⊕ Compressor :=
  let (dindex, place) := lookUp src base c.dict c.ip
  let dict := Function.update c.dict dindex (base + BitVec.ofNat 32 c.ip)
  match place.filter fun place => startsMatch src place.1 c.ip with
  -- `literal`
  | none => next inLen { c with ip := c.ip + 1, dict := dict }
  -- `match`
  | some (mPos, mOff) =>
      let mLen := matchLength src inLen mPos c.ip
      next inLen
        { ip := c.ip + mLen
          ii := c.ip + mLen
          dict := dict
          out := putLiterals src (c.ip - c.ii) c.ii c.out ++ matchBytes mOff mLen }

/-- What is written, and the number of bytes that are left. -/
def doCompress (wrkmem : U32 → U32) : Option (List U8 × Nat) :=
  (Loop.run (compressTurn src base inLen) inLen ⟨4, 0, wrkmem, []⟩).map fun c =>
    (c.out, inLen - c.ii)

/-- The literals at the end, which a byte of its own precedes where nothing else does. -/
def putRest (t : Nat) (out : List U8) : List U8 :=
  if 0 < t ∧ out = [] ∧ t ≤ 238 then BitVec.ofNat 8 (17 + t) :: slice src (inLen - t) t
  else putLiterals src t (inLen - t) out

def lzo1x1Compress (wrkmem : U32 → U32) : Option (List U8) :=
  (if inLen ≤ M2_MAX_LEN + 5 then some ([], inLen) else doCompress src base inLen wrkmem).map
    fun (out, t) => putRest src inLen t out ++ [BitVec.ofNat 8 (M4_MARKER ||| 1), 0, 0]

end Code

end Gp2Firmware.Minilzo
