import Gp2Firmware.Minilzo.Phrases

/-!
# Decompression undoes compression

The compressor keeps what it has written in phrases that the input up to `ii` parses into.
-/

namespace Gp2Firmware.Minilzo

open Gp2Firmware.Lib Gp2Firmware.Lib.BackReference

/-! ### Phrases one behind the other -/

section Phrases

variable {phrases : List (Phrase U8)} {phrase : Phrase U8} {run : Nat}

theorem firstRun_append : firstRun (phrases ++ [phrase]) run =
    firstRun phrases phrase.literals.length := by
  cases phrases with
  | nil => rfl
  | cons first rest => rfl

theorem encode_append : encode (phrases ++ [phrase]) run =
    encode phrases phrase.literals.length ++ phraseBytes phrase run := by
  induction phrases with
  | nil => rw [List.nil_append, encode, encode, encode, List.append_nil, firstRun, List.nil_append]
  | cons first rest inductionHypothesis =>
      rw [List.cons_append, encode, inductionHypothesis, firstRun_append, encode,
        List.append_assoc]

theorem matchWith_zero (distance count : Nat) :
    matchWith distance count 0 = matchBytes distance count := by
  have same : (fun item : U8 => item ||| BitVec.ofNat 8 0) = id := by
    funext item
    exact BitVec.or_zero
  rw [matchWith, same]
  exact List.modify_id _ _

/-- A run of up to three literals is noted in what is written already. -/
theorem encode_of_few (filled : phrases ≠ []) (few : run ≤ 3) :
    encode phrases run =
      (encode phrases 0).modify ((encode phrases 0).length - 2) (· ||| BitVec.ofNat 8 run) := by
  obtain ⟨front, last, rfl⟩ := List.eq_nil_or_concat phrases |>.resolve_left filled
  have zero : lowBits 0 = 0 := rfl
  have two := two_le_length_matchWith last.distance last.count 0
  rw [List.concat_eq_append, encode_append, encode_append, phraseBytes, phraseBytes, lowBits,
    if_pos few, zero]
  simp only [← List.append_assoc]
  rw [List.length_append, Nat.add_sub_assoc two, modify_behind, matchWith_zero, matchWith]

theorem encode_of_many (many : 3 < run) : encode phrases run = encode phrases 0 := by
  have same : lowBits run = lowBits 0 := by
    rw [lowBits, if_neg (Nat.not_le.mpr many)]
    rfl
  induction phrases with
  | nil => rfl
  | cons first rest inductionHypothesis =>
      rw [encode, encode, inductionHypothesis]
      cases rest with
      | nil => rw [firstRun, firstRun, phraseBytes, phraseBytes, same]
      | cons second rest => rfl

theorem encode_eq_nil : encode phrases run = [] ↔ phrases = [] := by
  constructor
  · intro empty
    cases phrases with
    | nil => rfl
    | cons first rest =>
        have two := two_le_length_matchWith first.distance first.count
          (lowBits (firstRun rest run))
        have none := congrArg List.length empty
        rw [encode, phraseBytes, List.length_append, List.length_append, List.length_nil] at none
        omega
  · rintro rfl
    rfl

/-- Literals behind phrases. -/
theorem putLiterals_encode {src : Nat → U8} {ii : Nat} (some : phrases = [] → run = 0 ∨ 3 < run) :
    putLiterals src run ii (encode phrases 0) =
      encode phrases run ++ (ownHeader run ++ slice src ii run) := by
  rw [putLiterals]
  by_cases positive : 0 < run
  · rw [if_pos positive, runHeader, ownHeader]
    by_cases few : run ≤ 3
    · have filled : phrases ≠ [] := fun none => by have := some none; omega
      rw [if_pos few, if_pos few, encode_of_few filled few, List.nil_append]
    · rw [if_neg few, if_neg few, encode_of_many (Nat.not_le.mp few), ← List.append_assoc]
      by_cases short : run ≤ 18
      · rw [if_pos short, if_pos short]
      · rw [if_neg short, if_neg short]
  · have none : run = 0 := by omega
    rw [if_neg positive, none, ownHeader, if_pos (by decide), slice_zero, List.nil_append,
      List.append_nil]

end Phrases

/-! ### The dictionary -/

section Dictionary

variable {src : Nat → U8} {base : U32} {inLen ip mPos mOff : Nat}

/-- The input lies in the memory, and not in its first pages. -/
structure Placed (base : U32) (inLen : Nat) : Prop where
  low : m4MaxOffset ≤ base.toNat
  high : base.toNat + inLen ≤ 2 ^ 32

theorem Placed.size (placed : Placed base inLen) : inLen < 2 ^ 32 := by
  have low := placed.low
  have high := placed.high
  rw [m4MaxOffset] at low
  omega

theorem checkMpos_some (placed : Placed base inLen) (inside : ip < inLen) {pointer : U32}
    (found : checkMpos base ip pointer = some (mPos, mOff)) :
    1 ≤ mOff ∧ mOff ≤ m4MaxOffset ∧ mPos + mOff = ip := by
  have low := placed.low
  have high := placed.high
  rw [m4MaxOffset] at low
  rw [checkMpos] at found
  split at found
  · cases found
  · rename_i useful
    simp only [not_or, Nat.not_lt] at useful
    obtain ⟨behind, positive, near⟩ := useful
    rw [Option.some.injEq, Prod.mk.injEq] at found
    obtain ⟨rfl, rfl⟩ := found
    refine ⟨?_, near, ?_⟩
    · exact Nat.pos_of_ne_zero fun zero => positive (BitVec.eq_of_toNat_eq zero)
    · rw [m4MaxOffset] at near
      rw [BitVec.lt_def] at behind
      simp only [BitVec.toNat_sub, BitVec.toNat_add, BitVec.toNat_ofNat] at near ⊢
      omega

/-- A place comes from a pointer that was checked. -/
theorem lookUp_some {dict : U32 → U32} {index : U32}
    (found : lookUp src base dict ip = (index, some (mPos, mOff))) :
    ∃ pointer, checkMpos base ip pointer = some (mPos, mOff) := by
  rw [lookUp] at found
  cases first : checkMpos base ip (dict (dindex1 src ip)) with
  | none =>
      rw [first] at found
      cases found
  | some place =>
      rw [first] at found
      dsimp only at found
      split at found
      · rw [Prod.mk.injEq] at found
        exact ⟨_, first.trans found.2⟩
      · rw [Prod.mk.injEq] at found
        exact ⟨_, (Option.filter_eq_some_iff.mp found.2).1⟩

theorem extend_le (m ip left : Nat) : extend src m ip left ≤ left := by
  induction left generalizing m ip with
  | zero => exact Nat.le_refl 0
  | succ left inductionHypothesis =>
      rw [extend]
      split
      · exact Nat.succ_le_succ (inductionHypothesis (m + 1) (ip + 1))
      · exact Nat.zero_le _

theorem extend_same {m ip left i : Nat} (before : i < extend src m ip left) :
    src (m + i) = src (ip + i) := by
  induction left generalizing m ip i with
  | zero => cases before
  | succ left inductionHypothesis =>
      rw [extend] at before
      split at before
      · rename_i here
        cases i with
        | zero => exact here
        | succ i =>
            have later := inductionHypothesis (Nat.lt_of_succ_lt_succ before)
            rw [Nat.add_right_comm m, Nat.add_right_comm ip] at later
            exact later
      · cases before

/-- A match is as long as the bytes are the same, up to the end of the input. -/
theorem matchLength_spec (starts : startsMatch src mPos ip = true) (inside : ip + 9 ≤ inLen) :
    3 ≤ matchLength src inLen mPos ip ∧ ip + matchLength src inLen mPos ip ≤ inLen ∧
      ∀ i < matchLength src inLen mPos ip, src (mPos + i) = src (ip + i) := by
  rw [startsMatch, decide_eq_true_iff] at starts
  obtain ⟨first, second, third⟩ := starts
  have three : ∀ i < 3, src (mPos + i) = src (ip + i) := by
    intro i before
    obtain rfl | rfl | rfl : i = 0 ∨ i = 1 ∨ i = 2 := by omega
    · exact first
    · exact second
    · exact third
  have six : [3, 4, 5, 6, 7, 8] = List.range' 3 6 := rfl
  rw [matchLength, six]
  cases differs : (List.range' 3 6).find? fun i => src (mPos + i) ≠ src (ip + i) with
  | some length =>
      obtain ⟨-, member, same⟩ := List.find?_range'_eq_some.mp differs
      rw [List.mem_range'_1] at member
      refine ⟨member.1, by dsimp only; omega, fun i before => ?_⟩
      by_cases begins : i < 3
      · exact three i begins
      · simpa using same i (by omega) before
  | none =>
      have same := List.find?_range'_eq_none.mp differs
      have most := @extend_le src (mPos + 9) (ip + 9) (inLen - (ip + 9))
      refine ⟨by dsimp only; omega, by dsimp only; omega, fun i before => ?_⟩
      by_cases begins : i < 3
      · exact three i begins
      · by_cases short : i < 9
        · simpa using same i (by omega) (by omega)
        · have later := @extend_same src (mPos + 9) (ip + 9) (inLen - (ip + 9)) (i - 9)
            (by dsimp only at before; omega)
          have places : mPos + 9 + (i - 9) = mPos + i ∧ ip + 9 + (i - 9) = ip + i := by omega
          rwa [places.1, places.2] at later

end Dictionary

/-! ### Turns -/

section Turns

variable {src : Nat → U8} {base : U32} {inLen : Nat} {c : Compressor}

/-- What is written stands for the input up to `ii`. -/
def Written (src : Nat → U8) (c : Compressor) : Prop :=
  ∃ phrases, Parses src phrases c.ii ∧ (∀ phrase ∈ phrases, Writable phrase) ∧
    (∀ phrase ∈ phrases.head?, 4 ≤ phrase.literals.length) ∧ c.out = encode phrases 0 ∧
    c.ii ≤ c.ip ∧ (phrases = [] → c.ii = 0 ∧ 4 ≤ c.ip)

theorem written_start (wrkmem : U32 → U32) : Written src ⟨4, 0, wrkmem, []⟩ := by
  refine ⟨[], .nil, ?_, ?_, rfl, Nat.zero_le 4, fun _ => ⟨rfl, Nat.le_refl 4⟩⟩
  · intro phrase member
    cases member
  · intro phrase member
    cases member

theorem Written.literal (written : Written src c) (dict : U32 → U32) :
    Written src { c with ip := c.ip + 1, dict := dict } := by
  obtain ⟨phrases, parses, writable, begins, out, order, first⟩ := written
  exact ⟨phrases, parses, writable, begins, out, Nat.le_succ_of_le order,
    fun none => ⟨(first none).1, Nat.le_succ_of_le (first none).2⟩⟩

theorem Written.found {mPos mOff : Nat} (written : Written src c) (size : inLen < 2 ^ 32)
    (inside : c.ip + 9 ≤ inLen) (positive : 1 ≤ mOff) (limit : mOff ≤ m4MaxOffset)
    (place : mPos + mOff = c.ip) (starts : startsMatch src mPos c.ip = true)
    (dict : U32 → U32) :
    Written src
      { ip := c.ip + matchLength src inLen mPos c.ip
        ii := c.ip + matchLength src inLen mPos c.ip
        dict := dict
        out := putLiterals src (c.ip - c.ii) c.ii c.out ++
          matchBytes mOff (matchLength src inLen mPos c.ip) } := by
  obtain ⟨phrases, parses, writable, begins, out, order, first⟩ := written
  obtain ⟨atLeast, atMost, same⟩ := matchLength_spec starts inside
  have run : c.ii + (c.ip - c.ii) = c.ip := by omega
  have repeats : Repeats src (c.ii + (c.ip - c.ii)) mOff (matchLength src inLen mPos c.ip) := by
    rw [run]
    refine ⟨positive, by omega, fun i before => ?_⟩
    rw [← same i before]
    congr 1
    omega
  have next := parses.snoc repeats
  rw [run] at next
  refine ⟨_, next, ?_, ?_, ?_, Nat.le_refl _, ?_⟩
  · intro phrase member
    rw [List.mem_append, List.mem_singleton] at member
    obtain before | rfl := member
    · exact writable phrase before
    · exact ⟨by rw [length_slice]; omega, positive, limit, atLeast, by dsimp only; omega⟩
  · intro phrase head
    cases phrases with
    | nil =>
        rw [List.nil_append, List.head?_cons, Option.mem_some_iff] at head
        subst head
        rw [length_slice, (first rfl).1]
        exact (first rfl).2
    | cons other rest => exact begins phrase head
  · rw [out, encode_append, length_slice, phraseBytes, length_slice]
    have zero : lowBits 0 = 0 := rfl
    rw [zero, matchWith_zero, ← List.append_assoc, putLiterals_encode]
    intro none
    have start := first none
    omega
  · intro none
    exact absurd none (List.append_ne_nil_of_right_ne_nil _ (List.cons_ne_nil _ _))

/-- What a turn comes to, before it is asked whether the end is reached. -/
theorem compressTurn_eq (placed : Placed base inLen) (written : Written src c)
    (size : inLen < 2 ^ 32) (inside : c.ip + 9 ≤ inLen) :
    ∃ later, compressTurn src base inLen c = next inLen later ∧ Written src later ∧
      c.ip < later.ip ∧ later.ii ≤ inLen := by
  have order : c.ii ≤ c.ip := by
    obtain ⟨phrases, -, -, -, -, order, -⟩ := written
    exact order
  rw [compressTurn]
  cases looked : lookUp src base c.dict c.ip with
  | mk index place =>
      dsimp only
      cases tried : place.filter fun place => startsMatch src place.1 c.ip with
      | none => exact ⟨_, rfl, written.literal _, Nat.lt_succ_self _, by dsimp only; omega⟩
      | some found =>
          obtain ⟨mPos, mOff⟩ := found
          obtain ⟨rfl, starts⟩ := Option.filter_eq_some_iff.mp tried
          obtain ⟨pointer, checked⟩ := lookUp_some looked
          obtain ⟨positive, limit, sum⟩ := checkMpos_some placed (by omega) checked
          obtain ⟨atLeast, atMost, -⟩ := @matchLength_spec src inLen c.ip mPos starts inside
          exact ⟨_, rfl, written.found size inside positive limit sum starts _,
            by dsimp only; omega, atMost⟩

theorem run_compressTurn (placed : Placed base inLen) (size : inLen < 2 ^ 32) {turns : Nat}
    (written : Written src c) (inside : c.ip + 9 ≤ inLen) (enough : inLen - c.ip ≤ turns) :
    ∃ last, Loop.run (compressTurn src base inLen) turns c = some last ∧ Written src last ∧
      last.ii ≤ inLen := by
  induction turns generalizing c with
  | zero => omega
  | succ turns inductionHypothesis =>
      obtain ⟨later, step, writtenLater, progress, bound⟩ :=
        compressTurn_eq placed written size inside
      rw [next] at step
      split at step
      · exact ⟨later, Loop.run_of_leaves step turns, writtenLater, bound⟩
      · rename_i more
        rw [M2_MAX_LEN] at more
        rw [Loop.run_of_goes step]
        exact inductionHypothesis writtenLater (by omega) (by omega)

end Turns

/-! ### The round trip -/

section RoundTrip

variable {src : Nat → U8} {base : U32} {inLen : Nat}

/-- The literals at the end, behind phrases. -/
theorem putRest_encode {phrases : List (Phrase U8)} {ii : Nat} (inside : ii ≤ inLen) :
    putRest src inLen (inLen - ii) (encode phrases 0) =
      encode phrases (inLen - ii) ++ finalBytes phrases (slice src ii (inLen - ii)) := by
  have place : inLen - (inLen - ii) = ii := by omega
  rw [putRest, finalBytes, length_slice, place]
  simp only [encode_eq_nil]
  by_cases few : 0 < inLen - ii ∧ phrases = [] ∧ inLen - ii ≤ 238
  · have same : phrases = [] ∧ 0 < inLen - ii ∧ inLen - ii ≤ 238 := ⟨few.2.1, few.1, few.2.2⟩
    rw [if_pos few, if_pos same, few.2.1]
    rfl
  · have same : ¬ (phrases = [] ∧ 0 < inLen - ii ∧ inLen - ii ≤ 238) :=
      fun other => few ⟨other.2.1, other.1, other.2.2⟩
    rw [if_neg few, if_neg same]
    apply putLiterals_encode
    intro none
    by_cases positive : 0 < inLen - ii
    · refine .inr ?_
      have many : ¬ inLen - ii ≤ 238 := fun most => few ⟨positive, none, most⟩
      omega
    · exact .inl (by omega)

/-- The compressed data are phrases that the input parses into, with its last bytes. -/
theorem lzo1x1Compress_eq (placed : Placed base inLen) (wrkmem : U32 → U32) :
    ∃ phrases ii, Parses src phrases ii ∧ ii ≤ inLen ∧ (∀ phrase ∈ phrases, Writable phrase) ∧
      (∀ phrase ∈ phrases.head?, 4 ≤ phrase.literals.length) ∧
      lzo1x1Compress src base inLen wrkmem =
        some (stream phrases (slice src ii (inLen - ii))) := by
  have mark : BitVec.ofNat 8 (M4_MARKER ||| 1) = 17 := rfl
  rw [lzo1x1Compress]
  by_cases short : inLen ≤ M2_MAX_LEN + 5
  · refine ⟨[], 0, .nil, Nat.zero_le _, ?_, ?_, ?_⟩
    · intro phrase member
      cases member
    · intro phrase member
      cases member
    · rw [if_pos short, Option.map_some]
      dsimp only
      have rest := @putRest_encode src inLen [] 0 (Nat.zero_le _)
      rw [Nat.sub_zero] at rest
      rw [encode] at rest
      rw [rest, stream, mark, length_slice, Nat.sub_zero]
  · have long : ¬ inLen ≤ 13 := short
    obtain ⟨last, ran, written, bound⟩ := run_compressTurn placed placed.size
      (written_start wrkmem) (show 4 + 9 ≤ inLen by omega) (Nat.sub_le inLen 4)
    obtain ⟨phrases, parses, writable, begins, out, order, first⟩ := written
    refine ⟨phrases, last.ii, parses, bound, writable, begins, ?_⟩
    rw [if_neg short, doCompress, ran, Option.map_some, Option.map_some]
    dsimp only
    rw [out, putRest_encode bound, stream, mark, length_slice]

/-- Whatever the dictionary is on entry, the compressed data are decompressed to the input. -/
theorem decompress_compress (placed : Placed base inLen) (wrkmem : U32 → U32) :
    ∃ packed, lzo1x1Compress src base inLen wrkmem = some packed ∧
      ∀ memory turns, Holds memory 0 packed → packed.length ≤ turns →
        lzo1xDecompress memory turns packed.length = some (LZO_E_OK, slice src 0 inLen) := by
  obtain ⟨phrases, ii, parses, bound, writable, begins, compressed⟩ :=
    lzo1x1Compress_eq placed wrkmem
  have size := placed.size
  refine ⟨_, compressed, fun memory turns holds enough => ?_⟩
  have whole := @slice_append U8 src 0 ii (inLen - ii)
  rw [Nat.zero_add, Nat.add_sub_cancel' bound] at whole
  rw [lzo1xDecompress_stream holds writable begins (by rw [length_slice]; omega) parses.expand
    enough, whole]

/-- Whatever the work memory is on entry, and whatever lies behind the compressed data. -/
theorem lzo1x_round_trip (placed : Placed base inLen) (wrkmem : U32 → U32) :
    ∃ packed, lzo1x1Compress src base inLen wrkmem = some packed ∧
      ∀ memory, Holds memory 0 packed → ∀ more,
        lzo1xDecompress memory (packed.length + more) packed.length =
          some (LZO_E_OK, slice src 0 inLen) := by
  obtain ⟨packed, compressed, decompresses⟩ := @decompress_compress src base inLen placed wrkmem
  refine ⟨packed, compressed, fun memory holds more => ?_⟩
  exact decompresses memory _ holds (Nat.le_add_right _ more)

end RoundTrip

/-- The work memory may lead anywhere. -/
theorem lzo1x_round_trip_at_load_address :
    let src := fun i : Nat => BitVec.ofNat 8 (i % 5)
    ∃ packed, lzo1x1Compress src 0x80100000 100 (fun index => 0x80100000 + 7 * index) =
        some packed ∧
      ∀ memory, Holds memory 0 packed → ∀ more,
        lzo1xDecompress memory (packed.length + more) packed.length =
          some (LZO_E_OK, slice src 0 100) := by
  intro src
  exact lzo1x_round_trip ⟨by decide, by decide⟩ _

end Gp2Firmware.Minilzo
