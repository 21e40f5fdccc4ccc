import Gp2Firmware.CmdLg.ZmodemLink

/-!
# Hexadecimal headers

`zshhdr` sends a header in digits that pass every line, and `zgethdr` takes it back.
-/

namespace Gp2Firmware.CmdLg.Zmodem

/-! ### The sender -/

def ZFIN : S32 := 8

def digits : List S32 :=
  [0x30, 0x31, 0x32, 0x33, 0x34, 0x35, 0x36, 0x37, 0x38, 0x39,
    0x61, 0x62, 0x63, 0x64, 0x65, 0x66]

def zputhex (c : S32) : List S32 :=
  [digits.getD ((c &&& 0xF0) >>> 4).toNat 0, digits.getD (c &&& 0x0F).toNat 0]

/-- The check value of a header, with room for its own two bytes. -/
def headerCrc (type : S32) (hdr : Fin 4 → U8) : U16 :=
  let crc := (List.ofFn hdr).foldl (fun crc byte => updcrc (0xff &&& byte.setWidth 32) crc)
    (updcrc (type &&& 0x7f) 0)
  updcrc 0 (updcrc 0 crc)

/-- The characters that `zshhdr` sends.  The last one lets the sender go on in case it
waits. -/
def zshhdr (type : S32) (hdr : Fin 4 → U8) : List S32 :=
  let crc := headerCrc type hdr
  [ZPAD, ZPAD, ZDLE, ZHEX] ++ zputhex (type &&& 0x7f) ++
    (List.ofFn hdr).flatMap (fun byte => zputhex (byte.signExtend 32)) ++
    zputhex ((crc >>> 8).setWidth 32) ++ zputhex (crc.setWidth 32) ++ [0x0d, 0x8a] ++
    if type ≠ ZFIN ∧ type ≠ ZACK then [XON] else []

/-- The position that `zgethdr` computes behind the header of a frame. -/
def rxpos (m : Modem) : U32 :=
  if m.rxframeind = 0 then 0
  else
    [2, 1, 0].foldl (fun rxpos i => (rxpos <<< 8) + (m.rxhdr i).setWidth 32)
      ((m.rxhdr 3).setWidth 32)

/-! ### Digits -/

section Digits

variable {m : Modem} {c : S32} {rest : List S32}

theorem digit_spec : ∀ n : Fin 16,
    let c := digits.getD n.val 0
    c.slt 0 = false ∧ c &&& 0x7f = c ∧ ¬ (c = XON ∨ c = XOFF) ∧ isControl c = false ∧
      hexDigit c = some (BitVec.ofNat 32 n.val) := by
  decide

theorem noxrd7_plain (line : m.line = c :: rest) (positive : c.slt 0 = false)
    (seven : c &&& 0x7f = c) (flows : ¬ (c = XON ∨ c = XOFF))
    (stays : c = 0x0d ∨ c = 0x0a ∨ c = ZDLE ∨ isControl c = false) :
    noxrd7 m = some (c, { m with line := rest }) := by
  have read : noxrd7From m.zctlesc (c :: rest) = some (c, rest) := by
    rw [noxrd7From, if_neg (Bool.eq_false_iff.mp positive)]
    dsimp only
    rw [seven, if_neg flows]
    by_cases kept : c = 0x0d ∨ c = 0x0a ∨ c = ZDLE
    · rw [if_pos kept]
    · have plain : isControl c = false := by tauto
      rw [if_neg kept, plain, if_neg (by simp)]
  rw [noxrd7, line, read]
  rfl

theorem noxrd7_digit {n : Nat} (inside : n < 16) (line : m.line = digits.getD n 0 :: rest) :
    noxrd7 m = some (digits.getD n 0, { m with line := rest }) := by
  obtain ⟨positive, seven, flows, plain, -⟩ := digit_spec ⟨n, inside⟩
  exact noxrd7_plain line positive seven flows (.inr (.inr (.inr plain)))

theorem nibbles (c : S32) : ((c &&& 0xF0) >>> 4).toNat = c.toNat / 16 % 16 ∧
    (c &&& 0x0F).toNat = c.toNat % 16 ∧ (c &&& 0xff).toNat = c.toNat % 256 := by
  have high : (c &&& 0xF0) >>> 4 = (c >>> 4) &&& 0x0F := by
    rw [BitVec.ushiftRight_and_distrib]
    rfl
  refine ⟨?_, ?_, ?_⟩
  · rw [high, BitVec.toNat_and, BitVec.toNat_ushiftRight, Nat.shiftRight_eq_div_pow]
    exact Nat.and_two_pow_sub_one_eq_mod _ 4
  · rw [BitVec.toNat_and]
    exact Nat.and_two_pow_sub_one_eq_mod _ 4
  · rw [BitVec.toNat_and]
    exact Nat.and_two_pow_sub_one_eq_mod _ 8

/-- The two digits of a byte are read as the byte. -/
theorem zgeth1_zputhex (line : m.line = zputhex c ++ rest) :
    zgeth1 m = some (c &&& 0xff, { m with line := rest }) := by
  obtain ⟨high, low, byte⟩ := nibbles c
  have highInside : ((c &&& 0xF0) >>> 4).toNat < 16 := by omega
  have lowInside : (c &&& 0x0F).toNat < 16 := by omega
  obtain ⟨positive, -, -, -, value⟩ := digit_spec ⟨_, highInside⟩
  obtain ⟨positive', -, -, -, value'⟩ := digit_spec ⟨_, lowInside⟩
  have two : m.line = digits.getD ((c &&& 0xF0) >>> 4).toNat 0 ::
      digits.getD (c &&& 0x0F).toNat 0 :: rest := line
  have first := noxrd7_digit highInside two
  have second := @noxrd7_digit
    { m with line := digits.getD (c &&& 0x0F).toNat 0 :: rest } rest _ lowInside rfl
  dsimp only at positive positive' value value' second
  have sum : BitVec.ofNat 32 (c &&& 0x0F).toNat +
      BitVec.ofNat 32 ((c &&& 0xF0) >>> 4).toNat <<< 4 = c &&& 0xff := by
    apply BitVec.eq_of_toNat_eq
    rw [BitVec.ofNat_toNat, BitVec.ofNat_toNat, BitVec.setWidth_eq, BitVec.setWidth_eq,
      BitVec.toNat_add, BitVec.toNat_shiftLeft, high, low, byte, Nat.shiftLeft_eq]
    omega
  simp only [zgeth1, first, second, positive, positive', value, value', sum,
    Option.bind_eq_bind, Option.bind_some, Bool.false_eq_true, if_false]

end Digits

/-! ### The check value -/

theorem updcrc_zero (crc : U16) :
    updcrc 0 crc = crctab.getD ((crc >>> 8) &&& 255).toNat 0 ^^^ (crc <<< 8) :=
  BitVec.xor_zero

/-- A byte enters the check value by exclusive or. -/
theorem updcrc_eq (cp : S32) (crc : U16) : updcrc cp crc = updcrc 0 crc ^^^ cp.setWidth 16 := by
  rw [updcrc_zero, updcrc]

/-- The low byte of the check value does not choose the entry of the table. -/
theorem updcrc_xor_low {low : U16} (byte : low >>> 8 = 0) (crc : U16) :
    updcrc 0 (crc ^^^ low) = updcrc 0 crc ^^^ low <<< 8 := by
  have same : crc >>> 8 ^^^ (0 : U16) = crc >>> 8 := BitVec.xor_zero
  rw [updcrc_zero, updcrc_zero, BitVec.ushiftRight_xor_distrib, byte, same,
    BitVec.shiftLeft_xor_distrib, BitVec.xor_assoc]

theorem high_byte (own : U16) :
    ((own >>> 8).setWidth 32 &&& (0xff : S32)).setWidth 16 = own >>> 8 := by
  apply BitVec.eq_of_toNat_eq
  have bound := own.isLt
  obtain ⟨-, -, byte⟩ := nibbles ((own >>> 8).setWidth 32)
  rw [BitVec.toNat_setWidth, byte, BitVec.toNat_setWidth, BitVec.toNat_ushiftRight,
    Nat.shiftRight_eq_div_pow]
  omega

theorem low_byte (own : U16) :
    (own >>> 8) <<< 8 ^^^ (own.setWidth 32 &&& (0xff : S32)).setWidth 16 = own := by
  have low : (own.setWidth 32 &&& (0xff : S32)).setWidth 16 = own &&& 0xff := by
    rw [BitVec.setWidth_and, BitVec.setWidth_setWidth_of_le _ (by decide), BitVec.setWidth_eq]
    rfl
  rw [low]
  apply BitVec.eq_of_getLsbD_eq
  intro i inside
  have mask : (0xff : U16) = BitVec.ofNat 16 (2 ^ 8 - 1) := by decide
  rw [BitVec.getLsbD_xor, BitVec.getLsbD_shiftLeft, BitVec.getLsbD_ushiftRight,
    BitVec.getLsbD_and, mask, BitVec.getLsbD_ofNat, Nat.testBit_two_pow_sub_one]
  by_cases below : i < 8
  · simp [inside, below]
  · have place : 8 + (i - 8) = i := by omega
    simp [inside, below, place]

/-- Behind its own two bytes the check value is zero. -/
theorem updcrc_own (crc : U16) :
    let own := updcrc 0 (updcrc 0 crc)
    updcrc (own.setWidth 32 &&& 0xff) (updcrc ((own >>> 8).setWidth 32 &&& 0xff) crc) = 0 := by
  intro own
  have byte : (own >>> 8) >>> 8 = 0 := by
    rw [← BitVec.shiftRight_add]
    exact BitVec.ushiftRight_eq_zero (by decide)
  rw [updcrc_eq, updcrc_eq _ crc, high_byte, updcrc_xor_low byte, BitVec.xor_assoc, low_byte]
  exact BitVec.xor_self

/-! ### The receiver -/

section Receiver

variable {m : Modem} {c : S32} {rest : List S32} {type : S32} {hdr : Fin 4 → U8}

/-- A character of a header as `readHeader` keeps it. -/
def Modem.keep (at_ : Nat) (c : S32) (m : Modem) : Modem :=
  if at_ = 0 then { m with rxtype := c }
  else if at_ ≤ 4 then { m with rxhdr := Function.update m.rxhdr (at_ - 1) (c.setWidth 8) }
  else m

def Modem.keepAll : (at_ : Nat) → List S32 → Modem → Modem
  | _, [], m => m
  | at_, c :: chars, m => (m.keep at_ (c &&& 0xff)).keepAll (at_ + 1) chars

theorem keep_line (at_ : Nat) (c : S32) (m : Modem) (line : List S32) :
    ({ m with line := line } : Modem).keep at_ c = { m.keep at_ c with line := line } := by
  rw [Modem.keep, Modem.keep]
  split
  · rfl
  split
  · rfl
  · rfl

theorem keepAll_line (at_ : Nat) (chars : List S32) (m : Modem) (line : List S32) :
    ({ m with line := line } : Modem).keepAll at_ chars =
      { m.keepAll at_ chars with line := line } := by
  induction chars generalizing at_ m with
  | nil => rfl
  | cons c chars inductionHypothesis =>
      rw [Modem.keepAll, keep_line, inductionHypothesis, Modem.keepAll]

theorem not_slt_byte (c : S32) : (c &&& 0xff).slt 0 = false := by
  obtain ⟨-, -, byte⟩ := nibbles c
  have small : (c &&& 0xff).toInt = ((c &&& 0xff).toNat : Int) :=
    BitVec.toInt_eq_toNat_of_lt (by omega)
  rw [BitVec.slt_eq_decide, small]
  exact decide_eq_false (Int.not_lt.mpr (Int.natCast_nonneg _))

/-- The digits of some characters are read as the characters. -/
theorem readHeader_zputhex {chars : List S32} {at_ : Nat} {crc : U16}
    (line : m.line = chars.flatMap zputhex ++ rest) :
    readHeader zgeth1 (fun c => c.slt 0) updcrc chars.length at_ crc m =
      some (.ok (chars.foldl (fun crc c => updcrc (c &&& 0xff) crc) crc),
        { m.keepAll at_ chars with line := rest }) := by
  induction chars generalizing m at_ crc with
  | nil =>
      have here : m.line = rest := line
      rw [List.length_nil, readHeader, ← here]
      rfl
  | cons c chars inductionHypothesis =>
      have more : m.line = zputhex c ++ (chars.flatMap zputhex ++ rest) := by
        rw [line, List.flatMap_cons, List.append_assoc]
      rw [List.length_cons, readHeader, zgeth1_zputhex more]
      simp only [Option.bind_eq_bind, Option.bind_some, not_slt_byte, Bool.false_eq_true,
        if_false]
      refine (@inductionHypothesis
        (({ m with line := chars.flatMap zputhex ++ rest } : Modem).keep at_ (c &&& 0xff))
        _ _ (by rw [keep_line])).trans ?_
      rw [keep_line, keepAll_line, List.foldl_cons, Modem.keepAll]

/-- The receiver behind a header. -/
def Modem.behind (m : Modem) (type : S32) (hdr : Fin 4 → U8) (line : List S32) : Modem :=
  { m with
    line := line
    rxhdr := fun i => if inside : i < 4 then hdr ⟨i, inside⟩ else m.rxhdr i
    rxframeind := ZHEX
    rxtype := type &&& 0x7f
    crc32 := 0
    zmodemRequested := true }

theorem low_signExtend (byte : U8) : byte.signExtend 32 &&& 0xff = byte.setWidth 32 := by
  apply BitVec.eq_of_getLsbD_eq
  intro i inside
  have mask : (0xff : S32) = BitVec.ofNat 32 (2 ^ 8 - 1) := by decide
  rw [BitVec.getLsbD_and, mask, BitVec.getLsbD_ofNat, Nat.testBit_two_pow_sub_one,
    BitVec.getLsbD_signExtend, BitVec.getLsbD_setWidth]
  by_cases below : i < 8
  · simp [inside, below]
  · have beyond : byte.getLsbD i = false := BitVec.getLsbD_of_ge _ _ (by omega)
    simp [below, beyond]

/-- The characters of a header, with the two of its check value. -/
def headerChars (type : S32) (hdr : Fin 4 → U8) : List S32 :=
  [type &&& 0x7f, (hdr 0).signExtend 32, (hdr 1).signExtend 32, (hdr 2).signExtend 32,
    (hdr 3).signExtend 32, (headerCrc type hdr >>> 8).setWidth 32,
    (headerCrc type hdr).setWidth 32]

theorem zshhdr_eq : zshhdr type hdr =
    [ZPAD, ZPAD, ZDLE, ZHEX] ++ (headerChars type hdr).flatMap zputhex ++ [0x0d, 0x8a] ++
      if type ≠ ZFIN ∧ type ≠ ZACK then [XON] else [] := by
  have bytes : List.ofFn hdr = [hdr 0, hdr 1, hdr 2, hdr 3] := rfl
  simp only [zshhdr, bytes, headerChars, List.flatMap_cons, List.flatMap_nil, List.append_assoc,
    List.append_nil]

theorem headerChars_crc (type : S32) (hdr : Fin 4 → U8) :
    (headerChars type hdr).foldl (fun crc c => updcrc (c &&& 0xff) crc) 0 = 0 := by
  have seven : type &&& 0x7f &&& 0xff = type &&& 0x7f := by
    rw [BitVec.and_assoc]
    rfl
  have bytes : List.ofFn hdr = [hdr 0, hdr 1, hdr 2, hdr 3] := rfl
  have low : ∀ byte : U8, (0xff : S32) &&& byte.setWidth 32 = byte.setWidth 32 := by
    intro byte
    rw [← low_signExtend, BitVec.and_comm, BitVec.and_assoc]
    rfl
  have own := updcrc_own ((List.ofFn hdr).foldl
    (fun crc byte => updcrc (0xff &&& byte.setWidth 32) crc) (updcrc (type &&& 0x7f) 0))
  simp only [headerChars, headerCrc, bytes, List.foldl_cons, List.foldl_nil, seven,
    low_signExtend, low] at own ⊢
  exact own

theorem keepAll_headerChars (frame : m.rxframeind = ZHEX) (crc32 : m.crc32 = 0)
    (line : List S32) :
    { m.keepAll 0 (headerChars type hdr) with line := line, zmodemRequested := true } =
      m.behind type hdr line := by
  have seven : type &&& 0x7f &&& 0xff = type &&& 0x7f := by
    rw [BitVec.and_assoc]
    rfl
  have byte : ∀ byte : U8, (byte.signExtend 32 &&& 0xff).setWidth 8 = byte := by
    intro byte
    rw [low_signExtend, BitVec.setWidth_setWidth_of_le _ (by decide), BitVec.setWidth_eq]
  have bytes : Function.update (Function.update (Function.update (Function.update m.rxhdr
      0 (hdr 0)) 1 (hdr 1)) 2 (hdr 2)) 3 (hdr 3) =
        fun i => if inside : i < 4 then hdr ⟨i, inside⟩ else m.rxhdr i := by
    funext i
    match i with
    | 0 => rfl
    | 1 => rfl
    | 2 => rfl
    | 3 => rfl
    | i + 4 =>
        have outside : ¬ i + 4 < 4 := by omega
        rw [Function.update_of_ne (by omega), Function.update_of_ne (by omega),
          Function.update_of_ne (by omega), Function.update_of_ne (by omega),
          dif_neg outside]
  have same : m.keepAll 0 (headerChars type hdr) =
      { m with
        rxtype := type &&& 0x7f
        rxhdr := Function.update (Function.update (Function.update (Function.update m.rxhdr
          0 (hdr 0)) 1 (hdr 1)) 2 (hdr 2)) 3 (hdr 3) } := by
    simp only [headerChars, Modem.keepAll, Modem.keep, seven, byte, reduceIte, Nat.reduceAdd,
      Nat.reduceSub, Nat.reduceLeDiff, Nat.reduceEqDiff]
  rw [same, bytes, Modem.behind, ← frame, ← crc32]

/-- The header that `zshhdr` sends behind its frame is taken. -/
theorem zrhhdr_sent (frame : m.rxframeind = ZHEX) (crc32 : m.crc32 = 0)
    (line : m.line = (headerChars type hdr).flatMap zputhex ++ 0x0d :: 0x8a :: rest) :
    zrhhdr m = some (type &&& 0x7f, m.behind type hdr rest) := by
  have read := @readHeader_zputhex m _ (headerChars type hdr) 0 0 line
  rw [headerChars_crc] at read
  have count : (headerChars type hdr).length = 7 := rfl
  rw [count] at read
  have kept := @keepAll_headerChars m type hdr frame crc32 rest
  have rxtype : (m.keepAll 0 (headerChars type hdr)).rxtype = type &&& 0x7f :=
    congrArg Modem.rxtype kept
  rw [zrhhdr, read]
  simp only [Option.bind_eq_bind, Option.bind_some, ne_eq, not_true_eq_false, if_false,
    readline, or_true, if_true, Option.map_some, ← kept, rxtype]

theorem fifi_low (type : S32) : fifi (type &&& 0x7f) = type &&& 0x7f := by
  have other : type &&& 0x7f ≠ GOTCAN := by
    intro cancelled
    have low := congrArg (fun c : S32 => c &&& 0x7f) cancelled
    have same : type &&& 0x7f &&& 0x7f = type &&& 0x7f := by
      rw [BitVec.and_assoc, BitVec.and_self]
    rw [same, cancelled] at low
    exact absurd low (by decide)
  rw [fifi, if_neg other]

/-- A search, however much garbage it has behind it, finds a header that is sent. -/
theorem zgethdrFrom_sent {turns : Nat} {cancount : Int} {maxGarbage : U32}
    (line : m.line = zshhdr type hdr ++ rest) :
    zgethdrFrom (turns + 3) .again cancount maxGarbage m =
      some (type &&& 0x7f, m.behind type hdr
        ((if type ≠ ZFIN ∧ type ≠ ZACK then [XON] else []) ++ rest)) := by
  have sent : m.line = ZPAD :: ZPAD :: ZDLE :: ZHEX ::
      ((headerChars type hdr).flatMap zputhex ++ 0x0d :: 0x8a ::
        ((if type ≠ ZFIN ∧ type ≠ ZACK then [XON] else []) ++ rest)) := by
    rw [line, zshhdr_eq]
    simp only [List.append_assoc, List.cons_append, List.nil_append]
  generalize ((if type ≠ ZFIN ∧ type ≠ ZACK then [XON] else []) ++ rest) = tail at sent ⊢
  generalize chars : (headerChars type hdr).flatMap zputhex ++ 0x0d :: 0x8a :: tail = more at sent
  have pad : ∀ m : Modem, m.line = ZPAD :: ZDLE :: ZHEX :: more →
      noxrd7 m = some (ZPAD, { m with line := ZDLE :: ZHEX :: more }) := fun m line =>
    noxrd7_plain line (by decide) (by decide) (by decide) (by decide)
  have escape : ∀ m : Modem, m.line = ZDLE :: ZHEX :: more →
      noxrd7 m = some (ZDLE, { m with line := ZHEX :: more }) := fun m line =>
    noxrd7_plain line (by decide) (by decide) (by decide) (by decide)
  have hex : ∀ m : Modem, m.line = ZHEX :: more →
      noxrd7 m = some (ZHEX, { m with line := more }) := fun m line =>
    noxrd7_plain line (by decide) (by decide) (by decide) (by decide)
  have header := @zrhhdr_sent
    { m with line := more, rxframeind := ZHEX, crc32 := 0 } tail type hdr rfl rfl chars.symm
  have first : zgethdrFrom (turns + 3) .again cancount maxGarbage m =
      zgethdrFrom (turns + 2) .splat 5 maxGarbage
        { m with line := ZPAD :: ZDLE :: ZHEX :: more } := by
    rw [zgethdrFrom, readline, sent]
    simp only [Option.bind_eq_bind, Option.bind_some]
    rw [if_neg (by decide), if_neg (by decide), if_pos (by decide)]
  have second : zgethdrFrom (turns + 2) .splat 5 maxGarbage
      { m with line := ZPAD :: ZDLE :: ZHEX :: more } =
        zgethdrFrom (turns + 1) .splat 5 maxGarbage { m with line := ZDLE :: ZHEX :: more } := by
    rw [zgethdrFrom, pad _ rfl]
    simp only [Option.bind_eq_bind, Option.bind_some, if_true]
  rw [first, second, zgethdrFrom, escape _ rfl]
  simp only [Option.bind_eq_bind, Option.bind_some]
  rw [if_neg (by decide), if_neg (by decide), if_neg (by decide), hex _ rfl]
  simp only [Option.bind_some]
  rw [if_neg (by decide), if_neg (by decide), if_neg (by decide), if_pos trivial, header]
  simp only [Option.map_some, fifi_low]
  rfl

/-- The search passes over the character that lets the sender go on. -/
theorem zgethdrFrom_xon {turns : Nat} {cancount : Int} {maxGarbage : U32}
    (line : m.line = XON :: rest) (room : maxGarbage - 1 ≠ 0) :
    zgethdrFrom (turns + 1) .again cancount maxGarbage m =
      zgethdrFrom turns .again 5 (maxGarbage - 1) { m with line := rest } := by
  rw [zgethdrFrom, readline, line]
  simp only [Option.bind_eq_bind, Option.bind_some]
  rw [if_neg (by decide), if_neg (by decide), if_neg (by decide), if_neg room]

theorem rxpos_behind (line : List S32) : (rxpos (m.behind type hdr line)).toNat =
    (hdr 0).toNat + 2 ^ 8 * (hdr 1).toNat + 2 ^ 16 * (hdr 2).toNat +
      2 ^ 24 * (hdr 3).toNat := by
  have frame : (m.behind type hdr line).rxframeind ≠ 0 := (by decide : ZHEX ≠ 0)
  have bytes : (m.behind type hdr line).rxhdr 0 = hdr 0 ∧
      (m.behind type hdr line).rxhdr 1 = hdr 1 ∧ (m.behind type hdr line).rxhdr 2 = hdr 2 ∧
        (m.behind type hdr line).rxhdr 3 = hdr 3 := ⟨rfl, rfl, rfl, rfl⟩
  have first := (hdr 0).isLt
  have second := (hdr 1).isLt
  have third := (hdr 2).isLt
  have fourth := (hdr 3).isLt
  rw [rxpos, if_neg frame]
  simp only [List.foldl_cons, List.foldl_nil]
  rw [bytes.1, bytes.2.1, bytes.2.2.1, bytes.2.2.2]
  simp only [BitVec.toNat_add, BitVec.toNat_shiftLeft, BitVec.toNat_setWidth,
    Nat.shiftLeft_eq]
  omega

end Receiver

/-- A header that `zshhdr` sends is taken by `zgethdr` with its type, bytes and position,
whatever comes behind it; the next search passes over the character that may be left. -/
theorem zgethdr_zshhdr (m : Modem) (type : BitVec 7) (hdr : Fin 4 → U8) (rest : List S32) :
    let type : S32 := type.setWidth 32
    ∃ after, zgethdr { m with line := zshhdr type hdr ++ rest } = some (type, after) ∧
      (∀ i : Fin 4, after.rxhdr i = hdr i) ∧
      (rxpos after).toNat = (hdr 0).toNat + 2 ^ 8 * (hdr 1).toNat + 2 ^ 16 * (hdr 2).toNat +
        2 ^ 24 * (hdr 3).toNat ∧
      after.line = (if type ≠ ZFIN ∧ type ≠ ZACK then [XON] else []) ++ rest ∧
      (type ≠ ZFIN ∧ type ≠ ZACK → zgethdr after =
        zgethdrFrom (rest.length + 1) .again 5 (Zrwindow + ZModem_Baudrate - 1)
          { after with line := rest, rxframeind := 0, rxtype := 0 }) := by
  intro type
  have seven : type &&& 0x7f = type := by
    apply BitVec.eq_of_toNat_eq
    rw [BitVec.toNat_and]
    refine (Nat.and_two_pow_sub_one_eq_mod _ 7).trans ?_
    rw [BitVec.toNat_setWidth]
    omega
  obtain ⟨turns, count⟩ : ∃ turns, (zshhdr type hdr ++ rest).length + 1 = turns + 3 := by
    refine ⟨(zshhdr type hdr ++ rest).length - 2, ?_⟩
    have some : 4 ≤ (zshhdr type hdr).length := by
      simp only [zshhdr_eq, List.length_append, List.length_cons]
      omega
    rw [List.length_append]
    omega
  let start : Modem :=
    { m with line := zshhdr type hdr ++ rest, rxframeind := 0, rxtype := 0 }
  have found := @zgethdrFrom_sent start rest type hdr turns 5 (Zrwindow + ZModem_Baudrate) rfl
  rw [seven] at found
  let line := (if type ≠ ZFIN ∧ type ≠ ZACK then [XON] else []) ++ rest
  refine ⟨start.behind type hdr line, ?_, fun i => dif_pos i.isLt, rxpos_behind line, rfl,
    fun waits => ?_⟩
  · rw [zgethdr, count]
    exact found
  · have left : (start.behind type hdr line).line = XON :: rest := by
      change (if type ≠ ZFIN ∧ type ≠ ZACK then [XON] else []) ++ rest = XON :: rest
      rw [if_pos waits]
      rfl
    rw [zgethdr, left]
    exact zgethdrFrom_xon rfl (by decide)

end Gp2Firmware.CmdLg.Zmodem
