import Gp2Firmware.Minilzo.Compress

/-!
# The format of LZO1X

Phrases, a run of literals and a match each, are written one behind the other.  A run of up
to three literals has no header: it is noted in the two low bits of the match before it, or,
where nothing is before it, in a byte of its own.  `lzo1x_decompress` expands the phrases
that are written.
-/

namespace Gp2Firmware.Minilzo

open Gp2Firmware.Lib Gp2Firmware.Lib.BackReference

/-! ### Phrases in bytes -/

def ownHeader (run : Nat) : List U8 :=
  if run ≤ 3 then []
  else if run ≤ 18 then [BitVec.ofNat 8 (run - 3)]
  else 0 :: lengthBytes (run - 18) (run - 18)

/-- What is noted of a run in the match before it. -/
def lowBits (run : Nat) : Nat :=
  if run ≤ 3 then run else 0

def matchWith (distance count low : Nat) : List U8 :=
  let bytes := matchBytes distance count
  bytes.modify (bytes.length - 2) (· ||| BitVec.ofNat 8 low)

/-- A phrase in front of a run of literals. -/
def phraseBytes (phrase : Phrase U8) (run : Nat) : List U8 :=
  ownHeader phrase.literals.length ++ phrase.literals ++
    matchWith phrase.distance phrase.count (lowBits run)

def firstRun : List (Phrase U8) → Nat → Nat
  | [], run => run
  | phrase :: _, _ => phrase.literals.length

def encode : List (Phrase U8) → Nat → List U8
  | [], _ => []
  | phrase :: rest, run => phraseBytes phrase (firstRun rest run) ++ encode rest run

def finalBytes (phrases : List (Phrase U8)) (final : List U8) : List U8 :=
  if phrases = [] ∧ 0 < final.length ∧ final.length ≤ 238 then
    BitVec.ofNat 8 (17 + final.length) :: final
  else ownHeader final.length ++ final

/-- The phrases, the literals behind them and the end mark. -/
def stream (phrases : List (Phrase U8)) (final : List U8) : List U8 :=
  encode phrases final.length ++ finalBytes phrases final ++ [17, 0, 0]

/-- What can be written of a phrase. -/
structure Writable (phrase : Phrase U8) : Prop where
  run : phrase.literals.length < 2 ^ 32
  near : 1 ≤ phrase.distance
  far : phrase.distance ≤ m4MaxOffset
  atLeast : 3 ≤ phrase.count
  atMost : phrase.count < 2 ^ 32

/-! ### Lengths -/

section Lengths

variable {src : Nat → U8} {turns : Nat}

theorem toNat_ofNat_of_lt {n : Nat} (small : n < 256) : (BitVec.ofNat 8 n).toNat = n := by
  rw [BitVec.toNat_ofNat]
  exact Nat.mod_eq_of_lt small

theorem ofNat_ne_zero {n : Nat} (positive : 0 < n) (small : n < 256) :
    BitVec.ofNat 8 n ≠ 0 := by
  intro zero
  have same := congrArg BitVec.toNat zero
  rw [toNat_ofNat_of_lt small] at same
  exact absurd same (by simp; omega)

/-- The zeros of a length are counted up to its last byte. -/
theorem skipZeros_of_holds {fuel tt t ip : Nat}
    (holds : Holds src ip (lengthBytes fuel tt)) (fits : tt ≤ fuel) (positive : 0 < tt)
    (bound : t + tt < 2 ^ 32) (enough : (lengthBytes fuel tt).length ≤ turns) :
    ∃ counted stop, skipZeros src turns t ip = some (counted, stop) ∧
      counted + (src stop).toNat = t + tt ∧ stop + 1 = ip + (lengthBytes fuel tt).length := by
  induction fuel generalizing tt t ip turns with
  | zero => omega
  | succ fuel inductionHypothesis =>
      rw [lengthBytes] at holds enough ⊢
      obtain _ | turns := turns
      · split at enough <;> simp at enough
      by_cases more : 255 < tt
      · rw [if_pos more] at holds enough ⊢
        rw [holds_cons] at holds
        obtain ⟨counted, stop, skipped, sum, last⟩ :=
          @inductionHypothesis turns (tt - 255) (t + 255) (ip + 1) holds.2 (by omega) (by omega)
            (by omega) (by simpa using enough)
        refine ⟨counted, stop, ?_, by omega, ?_⟩
        · rw [skipZeros, if_pos holds.1, Nat.mod_eq_of_lt (by omega), skipped]
        · rw [List.length_cons]
          omega
      · rw [if_neg more] at holds ⊢
        rw [holds_cons] at holds
        have last : (src ip).toNat = tt := by
          rw [holds.1, toNat_ofNat_of_lt (by omega)]
        refine ⟨t, ip, ?_, by omega, by simp⟩
        rw [skipZeros, if_neg]
        rw [holds.1]
        exact ofNat_ne_zero positive (by omega)

theorem longCount_of_holds {base tt ip : Nat} (holds : Holds src ip (lengthBytes tt tt))
    (positive : 0 < tt) (bound : base + tt < 2 ^ 32)
    (enough : (lengthBytes tt tt).length ≤ turns) :
    longCount src turns base ip = some (base + tt, ip + (lengthBytes tt tt).length) := by
  obtain ⟨counted, stop, skipped, sum, last⟩ :=
    @skipZeros_of_holds src turns tt tt 0 ip holds (Nat.le_refl tt) positive (by omega) enough
  have whole : counted + (base + (src stop).toNat) = base + tt := by omega
  rw [longCount, skipped, Option.map_some]
  dsimp only
  rw [last, whole, Nat.mod_eq_of_lt bound]

/-- A length at the head of a match: in the low bits of the first byte, or behind them. -/
def countHeader (marker most count : Nat) : List U8 :=
  if count ≤ most then [BitVec.ofNat 8 (marker ||| (count - 2))]
  else BitVec.ofNat 8 marker :: lengthBytes (count - most) (count - most)

/-- The first bytes and the mask of the matches that are not near and short. -/
structure Marker (marker mask : Nat) : Prop where
  empty : (BitVec.ofNat 8 marker).toNat &&& mask = 0
  filled : ∀ count, 1 ≤ count → count ≤ mask →
    (BitVec.ofNat 8 (marker ||| count)).toNat &&& mask = count

theorem count_of_header {marker mask count ip : Nat} (marks : Marker marker mask)
    (holds : Holds src ip (countHeader marker (mask + 2) count)) (atLeast : 3 ≤ count)
    (atMost : count < 2 ^ 32)
    (enough : (countHeader marker (mask + 2) count).length ≤ turns) :
    (if (src ip).toNat &&& mask = 0 then longCount src turns mask (ip + 1)
      else some ((src ip).toNat &&& mask, ip + 1)) =
      some (count - 2, ip + (countHeader marker (mask + 2) count).length) := by
  rw [countHeader] at holds enough ⊢
  by_cases short : count ≤ mask + 2
  · rw [if_pos short] at holds ⊢
    rw [holds_cons] at holds
    rw [holds.1, marks.filled (count - 2) (by omega) (by omega), if_neg (by omega)]
    rfl
  · rw [if_neg short] at holds enough ⊢
    rw [holds_cons] at holds
    rw [holds.1, marks.empty, if_pos rfl,
      longCount_of_holds holds.2 (by omega) (by omega) (by rw [List.length_cons] at enough; omega),
      List.length_cons, Option.some.injEq, Prod.mk.injEq]
    omega

end Lengths

/-! ### Runs -/

section Runs

variable {src : Nat → U8} {turns : Nat} {ip : Nat} {out : List U8}

/-- Where the loop goes on in front of a run of literals. -/
def entry (run : Nat) : Label :=
  if lowBits run = 0 then .top else .matchNext (lowBits run)

theorem literalRun_of_holds {literals : List U8} (holds : Holds src ip literals) :
    literalRun src literals.length ⟨ip, out⟩ = ⟨ip + literals.length, out ++ literals⟩ := by
  rw [literalRun]
  dsimp only
  rw [holds]

theorem goes_found {label : Label} {first : U8} (head : label = .top ∨ label = .firstLiteralRun)
    (here : src ip = first) (large : 16 ≤ first.toNat) :
    turn src turns (label, ⟨ip, out⟩) = .inl (.found first.toNat, ⟨ip + 1, out⟩) := by
  obtain rfl | rfl := head
  · rw [turn]
    dsimp only
    rw [here, if_pos large]
  · rw [turn]
    dsimp only
    rw [here, if_pos large]

/-- The length of a run of more than three literals. -/
theorem top_of_header {run : Nat} (holds : Holds src ip (ownHeader run)) (long : 3 < run)
    (atMost : run < 2 ^ 32) (enough : (ownHeader run).length ≤ turns) :
    turn src turns (.top, ⟨ip, out⟩) =
      .inl (.firstLiteralRun, literalRun src run ⟨ip + (ownHeader run).length, out⟩) := by
  rw [ownHeader, if_neg (by omega)] at holds enough ⊢
  have whole : 3 + doTurns (run - 3) = run := by
    rw [doTurns, if_neg (by omega)]
    omega
  by_cases short : run ≤ 18
  · rw [if_pos short] at holds ⊢
    rw [holds_cons] at holds
    rw [turn]
    dsimp only
    rw [holds.1, toNat_ofNat_of_lt (by omega), if_neg (by omega), if_neg (by omega)]
    dsimp only
    rw [whole]
    rfl
  · rw [if_neg short] at holds enough ⊢
    rw [holds_cons] at holds
    have count := @longCount_of_holds src turns 15 _ _ holds.2 (by omega) (by omega)
      (by rw [List.length_cons] at enough; omega)
    rw [turn]
    dsimp only
    rw [holds.1, if_neg (by decide), if_pos (by decide), count]
    dsimp only
    have all : 15 + (run - 18) = run - 3 := by omega
    rw [all, whole, List.length_cons, Nat.add_right_comm, Nat.add_assoc]

/-- A run of literals in front of a match or of the end mark. -/
theorem goes_run {literals : List U8} {first : U8}
    (holds : Holds src ip (ownHeader literals.length ++ literals ++ [first]))
    (large : 16 ≤ first.toNat) (atMost : literals.length < 2 ^ 32)
    (enough : (ownHeader literals.length).length ≤ turns) :
    ∃ spent ≤ (ownHeader literals.length).length + literals.length + 1,
      Loop.Goes (turn src turns) spent (entry literals.length, ⟨ip, out⟩)
        (.found first.toNat,
          ⟨ip + ((ownHeader literals.length).length + literals.length + 1), out ++ literals⟩) := by
  rw [holds_append, holds_append, holds_cons, List.length_append] at holds
  obtain ⟨⟨header, run⟩, here, -⟩ := holds
  by_cases short : literals.length ≤ 3
  · have noHeader : ownHeader literals.length = [] := by
      rw [ownHeader, if_pos short]
    rw [noHeader, List.length_nil, Nat.add_zero] at run
    rw [noHeader, List.length_nil, Nat.zero_add] at here ⊢
    refine ⟨1, by omega, Loop.goes_of_turn ?_⟩
    rw [entry, lowBits, if_pos short]
    by_cases empty : literals.length = 0
    · have none := List.length_eq_zero_iff.mp empty
      rw [empty, Nat.add_zero] at here
      rw [if_pos empty, empty, none, List.append_nil]
      exact goes_found (.inl rfl) here large
    · rw [if_neg empty, turn, literalRun_of_holds run]
      dsimp only
      rw [here, Nat.add_assoc]
  · have label : entry literals.length = .top := by
      rw [entry, lowBits, if_neg short, if_pos rfl]
    have first_turn := @top_of_header src turns ip out _ header (by omega) atMost enough
    rw [literalRun_of_holds run] at first_turn
    rw [← Nat.add_assoc] at here
    have second_turn := @goes_found src turns _ (out ++ literals) _ _ (.inr rfl) here large
    refine ⟨2, by omega, ?_⟩
    rw [label, ← Nat.add_assoc, ← Nat.add_assoc]
    exact (Loop.goes_of_turn first_turn).trans (Loop.goes_of_turn second_turn)

end Runs

/-! ### Matches -/

section Matches

variable {src : Nat → U8} {turns : Nat} {ip : Nat} {out copied : List U8} {distance count low : Nat}

/-- The first byte of a match that is near and short. -/
def nearByte (count bits low : Nat) : U8 :=
  BitVec.ofNat 8 ((count - 1) <<< 5 ||| bits <<< 2) ||| BitVec.ofNat 8 low

theorem matchWith_near (short : count ≤ M2_MAX_LEN) (near : distance ≤ m2MaxOffset) :
    matchWith distance count low =
      [nearByte count (distance - 1 &&& 7) low, BitVec.ofNat 8 ((distance - 1) >>> 3)] := by
  rw [matchWith, matchBytes, if_pos short, if_pos near]
  rfl

theorem matchBytes_middle (notNear : ¬ (count ≤ M2_MAX_LEN ∧ distance ≤ m2MaxOffset))
    (middle : distance ≤ m3MaxOffset) :
    matchBytes distance count = countHeader M3_MARKER 33 count ++ offsetBytes (distance - 1) := by
  rw [matchBytes, countHeader]
  by_cases short : count ≤ M2_MAX_LEN
  · have fits : count ≤ 33 := Nat.le_trans short (by decide)
    rw [if_pos short, if_neg fun near => notNear ⟨short, near⟩, if_pos middle, if_pos fits]
    rfl
  · rw [if_neg short, if_pos middle]

theorem matchBytes_far (far : ¬ distance ≤ m3MaxOffset) :
    matchBytes distance count =
      countHeader (M4_MARKER ||| (distance - 0x4000 &&& 0x4000) >>> 11) 9 count ++
        offsetBytes (distance - 0x4000) := by
  rw [matchBytes, countHeader]
  by_cases short : count ≤ M2_MAX_LEN
  · have fits : count ≤ 9 := Nat.le_trans short (by decide)
    have notNear : ¬ distance ≤ m2MaxOffset := fun near => far (Nat.le_trans near (by decide))
    rw [if_pos short, if_neg notNear, if_neg far, if_pos fits]
    rfl
  · rw [if_neg short, if_neg far]

theorem modify_behind {first second : List U8} (i : Nat) (f : U8 → U8) :
    (first ++ second).modify (first.length + i) f = first ++ second.modify i f := by
  induction first with
  | nil => rw [List.length_nil, Nat.zero_add, List.nil_append, List.nil_append]
  | cons item rest inductionHypothesis =>
      rw [List.cons_append, List.length_cons, Nat.add_right_comm, List.modify_succ_cons,
        inductionHypothesis, List.cons_append]

/-- The run behind a match is noted in the first byte of the offset. -/
theorem matchWith_of_offset {header : List U8} {offset : Nat}
    (bytes : matchBytes distance count = header ++ offsetBytes offset) :
    matchWith distance count low =
      header ++ [BitVec.ofNat 8 ((offset &&& 63) <<< 2) ||| BitVec.ofNat 8 low,
        BitVec.ofNat 8 (offset >>> 6)] := by
  rw [matchWith, bytes]
  have place : (header ++ offsetBytes offset).length - 2 = header.length + 0 := by
    simp [offsetBytes]
  rw [place, modify_behind]
  rfl

theorem low_of_byte : ∀ bits < 64, ∀ low < 4,
    (BitVec.ofNat 8 (bits <<< 2) ||| BitVec.ofNat 8 low).toNat >>> 2 = bits ∧
      ((BitVec.ofNat 8 (bits <<< 2) ||| BitVec.ofNat 8 low) &&& 3).toNat = low := by
  decide

theorem offsetAt_of_holds {offset : Nat}
    (holds : Holds src ip [BitVec.ofNat 8 ((offset &&& 63) <<< 2) ||| BitVec.ofNat 8 low,
      BitVec.ofNat 8 (offset >>> 6)]) (noted : low < 4) :
    offsetAt src ip = offset % 0x4000 ∧ (src ip &&& 3).toNat = low := by
  rw [holds_cons, holds_cons] at holds
  obtain ⟨first, second, -⟩ := holds
  have six : offset &&& 63 = offset % 64 := Nat.and_two_pow_sub_one_eq_mod offset 6
  have small : offset &&& 63 < 64 := by omega
  obtain ⟨bits, run⟩ := low_of_byte (offset &&& 63) small low noted
  refine ⟨?_, by rw [first, run]⟩
  rw [offsetAt, first, second, bits, six, BitVec.toNat_ofNat, Nat.shiftRight_eq_div_pow,
    Nat.shiftLeft_eq]
  omega

theorem copyThen_of_copyBack {stop : Nat} (copies : copyBack distance count out = some copied)
    (noted : (src (stop - 2) &&& 3).toNat = lowBits low) :
    copyThen src distance count stop out = .inl (entry low, ⟨stop, copied⟩) := by
  rw [copyThen, copies]
  dsimp only
  rw [matchDone, noted, entry]

theorem marker_middle : Marker M3_MARKER 31 where
  empty := by decide
  filled count atLeast atMost := by
    have all : ∀ count < 32, 1 ≤ count →
        (BitVec.ofNat 8 (M3_MARKER ||| count)).toNat &&& 31 = count := by decide
    exact all count (by omega) atLeast

theorem marker_far {high : Nat} (bit : high = 0 ∨ high = 8) : Marker (M4_MARKER ||| high) 7 where
  empty := by obtain rfl | rfl := bit <;> decide
  filled count atLeast atMost := by
    have all : ∀ count < 8, 1 ≤ count →
        (BitVec.ofNat 8 (M4_MARKER ||| 0 ||| count)).toNat &&& 7 = count ∧
          (BitVec.ofNat 8 (M4_MARKER ||| 8 ||| count)).toNat &&& 7 = count := by decide
    obtain rfl | rfl := bit
    · exact (all count (by omega) atLeast).1
    · exact (all count (by omega) atLeast).2

theorem lowBits_lt (run : Nat) : lowBits run < 4 := by
  rw [lowBits]
  split <;> omega

theorem near_of_byte : ∀ more < 6, ∀ bits < 8, ∀ low < 4,
    64 ≤ (nearByte (more + 3) bits low).toNat ∧
      (nearByte (more + 3) bits low).toNat >>> 2 &&& 7 = bits ∧
      (nearByte (more + 3) bits low).toNat >>> 5 - 1 = more + 1 ∧
      (nearByte (more + 3) bits low &&& 3).toNat = low := by
  decide

theorem middle_of_byte : ∀ count < 32,
    32 ≤ (BitVec.ofNat 8 (M3_MARKER ||| count)).toNat ∧
      (BitVec.ofNat 8 (M3_MARKER ||| count)).toNat < 64 := by
  decide

theorem far_of_byte : ∀ count < 8, ∀ high, high = 0 ∨ high = 8 →
    16 ≤ (BitVec.ofNat 8 (M4_MARKER ||| high ||| count)).toNat ∧
      (BitVec.ofNat 8 (M4_MARKER ||| high ||| count)).toNat < 32 ∧
      (BitVec.ofNat 8 (M4_MARKER ||| high ||| count)).toNat &&& 8 = high := by
  intro count small high bit
  obtain rfl | rfl := bit
  · revert count
    decide
  · revert count
    decide

/-- The first byte of a length lies between the marker and the next one. -/
theorem head_of_header {marker most : Nat}
    (holds : Holds src ip (countHeader marker most count)) :
    ∃ short, (short = 0 ∨ short = count - 2 ∧ count ≤ most) ∧
      src ip = BitVec.ofNat 8 (marker ||| short) := by
  rw [countHeader] at holds
  split at holds
  · rename_i fits
    exact ⟨count - 2, .inr ⟨rfl, fits⟩, (holds_cons.mp holds).1⟩
  · refine ⟨0, .inl rfl, ?_⟩
    rw [Nat.or_zero]
    exact (holds_cons.mp holds).1

variable {run : Nat}

/-- What `match` comes to behind the first byte. -/
def Copies (src : Nat → U8) (turns ip length run : Nat) (out copied : List U8) : Prop :=
  16 ≤ (src ip).toNat ∧ foundTurn src turns (src ip).toNat ⟨ip + 1, out⟩ =
    .inl (entry run, ⟨ip + length, copied⟩)

theorem copies_near (holds : Holds src ip (matchWith distance count (lowBits run)))
    (copies : copyBack distance count out = some copied) (short : count ≤ M2_MAX_LEN)
    (near : distance ≤ m2MaxOffset) (positive : 1 ≤ distance) (atLeast : 3 ≤ count) :
    Copies src turns ip (matchWith distance count (lowBits run)).length run out copied := by
  have low := lowBits_lt run
  rw [matchWith_near short near, holds_cons, holds_cons] at holds
  rw [matchWith_near short near]
  have seven : distance - 1 &&& 7 = (distance - 1) % 8 :=
    Nat.and_two_pow_sub_one_eq_mod (distance - 1) 3
  rw [M2_MAX_LEN] at short
  rw [m2MaxOffset] at near
  obtain ⟨more, rfl⟩ := Nat.exists_eq_add_of_le' atLeast
  have facts := near_of_byte more (by omega) (distance - 1 &&& 7) (by omega) (lowBits run) low
  obtain ⟨first, second, -⟩ := holds
  rw [← first] at facts
  obtain ⟨large, bits, length, noted⟩ := facts
  refine ⟨Nat.le_trans (by decide) large, ?_⟩
  have whole : 1 + (distance - 1 &&& 7) + (src (ip + 1)).toNat <<< 3 = distance := by
    rw [second, toNat_ofNat_of_lt (by rw [Nat.shiftRight_eq_div_pow]; omega), seven,
      Nat.shiftRight_eq_div_pow, Nat.shiftLeft_eq]
    omega
  have items : 2 + doTurns (more + 1) = more + 3 := by
    rw [doTurns, if_neg (by omega)]
    omega
  rw [foundTurn, if_pos large, bits, length, whole, items]
  exact copyThen_of_copyBack copies noted

theorem doTurns_of_count (atLeast : 3 ≤ count) : 2 + doTurns (count - 2) = count := by
  rw [doTurns, if_neg (by omega)]
  omega

theorem copies_middle (holds : Holds src ip (matchWith distance count (lowBits run)))
    (copies : copyBack distance count out = some copied)
    (notNear : ¬ (count ≤ M2_MAX_LEN ∧ distance ≤ m2MaxOffset)) (middle : distance ≤ m3MaxOffset)
    (positive : 1 ≤ distance) (atLeast : 3 ≤ count) (atMost : count < 2 ^ 32)
    (enough : (matchWith distance count (lowBits run)).length ≤ turns) :
    Copies src turns ip (matchWith distance count (lowBits run)).length run out copied := by
  rw [matchWith_of_offset (matchBytes_middle notNear middle)] at holds enough ⊢
  rw [holds_append] at holds
  rw [List.length_append] at enough ⊢
  obtain ⟨header, behind⟩ := holds
  obtain ⟨offset, noted⟩ := offsetAt_of_holds behind (lowBits_lt run)
  have counted := count_of_header marker_middle header atLeast atMost
    (Nat.le_trans (Nat.le_add_right _ _) enough)
  obtain ⟨short, shortened, head⟩ := head_of_header header
  obtain ⟨atLeast32, below64⟩ := middle_of_byte short (by omega)
  rw [← head] at atLeast32 below64
  rw [m3MaxOffset] at middle
  have whole : 1 + (distance - 1) % 0x4000 = distance := by omega
  refine ⟨by omega, ?_⟩
  rw [foundTurn, if_neg (by omega), if_pos atLeast32, counted]
  dsimp only
  rw [offset, whole, doTurns_of_count atLeast, copyThen_of_copyBack copies (by simpa using noted)]
  rfl

theorem high_eq {far : Nat} (bound : far < 0x8000) :
    (far &&& 0x4000) >>> 11 = 8 * (far / 0x4000) := by
  have all : ∀ bits < 16, bits &&& 8 = 8 * (bits / 8) := by decide
  have bit := all (far / 2 ^ 11) (by omega)
  rw [Nat.shiftRight_and_distrib, Nat.shiftRight_eq_div_pow, Nat.shiftRight_eq_div_pow]
  rw [show 0x4000 / 2 ^ 11 = 8 from rfl, bit]
  omega

theorem copies_far (holds : Holds src ip (matchWith distance count (lowBits run)))
    (copies : copyBack distance count out = some copied) (far : ¬ distance ≤ m3MaxOffset)
    (limit : distance ≤ m4MaxOffset) (atLeast : 3 ≤ count) (atMost : count < 2 ^ 32)
    (enough : (matchWith distance count (lowBits run)).length ≤ turns) :
    Copies src turns ip (matchWith distance count (lowBits run)).length run out copied := by
  rw [m4MaxOffset] at limit
  have bound : distance - 0x4000 < 0x8000 := by omega
  rw [matchWith_of_offset (matchBytes_far far), high_eq bound] at holds enough ⊢
  rw [m3MaxOffset] at far
  rw [holds_append] at holds
  rw [List.length_append] at enough ⊢
  obtain ⟨header, behind⟩ := holds
  obtain ⟨offset, noted⟩ := offsetAt_of_holds behind (lowBits_lt run)
  have bit : 8 * ((distance - 0x4000) / 0x4000) = 0 ∨ 8 * ((distance - 0x4000) / 0x4000) = 8 := by
    omega
  have counted := count_of_header (marker_far bit) header atLeast atMost
    (Nat.le_trans (Nat.le_add_right _ _) enough)
  obtain ⟨short, shortened, head⟩ := head_of_header header
  obtain ⟨atLeast16, below32, high⟩ := far_of_byte short (by omega) _ bit
  rw [← head] at atLeast16 below32 high
  refine ⟨atLeast16, ?_⟩
  rw [foundTurn, if_neg (by omega), if_neg (by omega), if_pos atLeast16, counted]
  dsimp only
  have whole : (8 * ((distance - 0x4000) / 0x4000)) <<< 11 + (distance - 0x4000) % 0x4000 =
      distance - 0x4000 := by
    rw [Nat.shiftLeft_eq]
    omega
  have back : distance - 0x4000 + 0x4000 = distance := by omega
  rw [high, offset, whole, if_neg (by omega), back, doTurns_of_count atLeast,
    copyThen_of_copyBack copies (by simpa using noted)]
  rfl

/-- A match in front of a run of literals. -/
theorem copies_of_holds (holds : Holds src ip (matchWith distance count (lowBits run)))
    (copies : copyBack distance count out = some copied) (positive : 1 ≤ distance)
    (limit : distance ≤ m4MaxOffset) (atLeast : 3 ≤ count) (atMost : count < 2 ^ 32)
    (enough : (matchWith distance count (lowBits run)).length ≤ turns) :
    Copies src turns ip (matchWith distance count (lowBits run)).length run out copied := by
  by_cases middle : distance ≤ m3MaxOffset
  · by_cases near : count ≤ M2_MAX_LEN ∧ distance ≤ m2MaxOffset
    · exact copies_near holds copies near.1 near.2 positive atLeast
    · exact copies_middle holds copies near middle positive atLeast atMost enough
  · exact copies_far holds copies middle limit atLeast atMost enough

end Matches

/-! ### Streams -/

section Streams

variable {src : Nat → U8} {turns ip run : Nat} {out expanded : List U8} {phrase : Phrase U8}
  {phrases : List (Phrase U8)} {final : List U8}

theorem two_le_length_matchWith (distance count low : Nat) :
    2 ≤ (matchWith distance count low).length := by
  by_cases middle : distance ≤ m3MaxOffset
  · by_cases near : count ≤ M2_MAX_LEN ∧ distance ≤ m2MaxOffset
    · rw [matchWith_near near.1 near.2]
      exact Nat.le_refl 2
    · rw [matchWith_of_offset (matchBytes_middle near middle), List.length_append]
      exact Nat.le_add_left 2 _
  · rw [matchWith_of_offset (matchBytes_far middle), List.length_append]
    exact Nat.le_add_left 2 _

theorem goes_phrase (holds : Holds src ip (phraseBytes phrase run)) (writable : Writable phrase)
    (appends : phrase.append out = some expanded)
    (enough : (phraseBytes phrase run).length ≤ turns) :
    ∃ spent ≤ (phraseBytes phrase run).length,
      Loop.Goes (turn src turns) spent (entry phrase.literals.length, ⟨ip, out⟩)
        (entry run, ⟨ip + (phraseBytes phrase run).length, expanded⟩) := by
  rw [phraseBytes] at holds enough ⊢
  have two := two_le_length_matchWith phrase.distance phrase.count (lowBits run)
  rw [List.length_append, List.length_append] at enough ⊢
  obtain ⟨literals, behind⟩ := holds_append.mp holds
  obtain ⟨large, copies⟩ := copies_of_holds behind appends writable.near writable.far
    writable.atLeast writable.atMost (Nat.le_trans (Nat.le_add_left _ _) enough)
  rw [List.length_append] at large copies
  have withFirst := holds_append.mpr ⟨literals, holds_cons.mpr ⟨rfl, holds_nil⟩⟩
  rw [List.length_append] at withFirst
  obtain ⟨spent, few, goes⟩ := @goes_run src turns ip out _ _ withFirst large writable.run
    (by omega)
  refine ⟨spent + 1, by omega, goes.trans (Loop.goes_of_turn ?_)⟩
  rw [turn]
  simpa only [Nat.add_assoc] using copies

theorem goes_encode (holds : Holds src ip (encode phrases run))
    (writable : ∀ phrase ∈ phrases, Writable phrase) (expands : expand phrases out = some expanded)
    (enough : (encode phrases run).length ≤ turns) :
    ∃ spent ≤ (encode phrases run).length,
      Loop.Goes (turn src turns) spent (entry (firstRun phrases run), ⟨ip, out⟩)
        (entry run, ⟨ip + (encode phrases run).length, expanded⟩) := by
  induction phrases generalizing ip out with
  | nil =>
      cases expands
      exact ⟨0, Nat.le_refl 0, Loop.goes_refl⟩
  | cons phrase rest inductionHypothesis =>
      rw [encode] at holds enough ⊢
      rw [List.length_append] at enough ⊢
      rw [expand_cons, Option.bind_eq_some_iff] at expands
      obtain ⟨middle, appends, expandsRest⟩ := expands
      obtain ⟨here, behind⟩ := holds_append.mp holds
      obtain ⟨first, few, goes⟩ := goes_phrase here (writable phrase List.mem_cons_self) appends
        (show (phraseBytes phrase (firstRun rest run)).length ≤ turns by omega)
      obtain ⟨second, fewer, goesOn⟩ := inductionHypothesis behind
        (fun phrase member => writable phrase (List.mem_cons_of_mem _ member)) expandsRest
        (by omega)
      refine ⟨first + second, by omega, ?_⟩
      rw [← Nat.add_assoc]
      exact goes.trans goesOn

/-- The end mark, behind its first byte. -/
theorem leaves_at_end (holds : Holds src ip [0, 0]) :
    turn src turns (.found 17, ⟨ip, out⟩) = .inr (some ⟨ip + 2, out⟩) := by
  rw [holds_cons, holds_cons] at holds
  obtain ⟨first, second, -⟩ := holds
  have none : (17 &&& 8) <<< 11 + offsetAt src ip = 0 := by
    rw [offsetAt, first, second]
    rfl
  rw [turn, foundTurn, if_neg (by decide), if_neg (by decide), if_pos (by decide),
    if_neg (by decide)]
  dsimp only
  rw [none, if_pos rfl]

theorem start_of_small (small : (src 0).toNat ≤ 17) : start src = (.top, ⟨0, []⟩) := by
  rw [start]
  exact if_neg (by omega)

theorem small_of_header {literals : List U8} (long : 3 < run)
    (holds : Holds src 0 (ownHeader run ++ literals)) : (src 0).toNat ≤ 17 := by
  rw [ownHeader, if_neg (by omega)] at holds
  split at holds
  · rw [(holds_cons.mp holds).1, toNat_ofNat_of_lt (by omega)]
    omega
  · rw [(holds_cons.mp holds).1]
    decide

/-- A byte for the literals in front, where there are no phrases. -/
theorem goes_start_of_few {first : U8}
    (holds : Holds src 0 (BitVec.ofNat 8 (17 + final.length) :: final ++ [first]))
    (some : 0 < final.length) (few : final.length ≤ 238) (large : 16 ≤ first.toNat) :
    Loop.Goes (turn src turns) 1 (start src) (.found first.toNat, ⟨final.length + 2, final⟩) := by
  rw [List.cons_append, holds_cons, holds_append] at holds
  obtain ⟨head, literals, behind⟩ := holds
  have here := (holds_cons.mp behind).1
  have count : 17 + final.length - 17 = final.length := by omega
  have place : 0 + 1 + final.length = final.length + 1 := by omega
  rw [place] at here
  rw [start, head, toNat_ofNat_of_lt (by omega), if_pos (by omega), count]
  apply Loop.goes_of_turn
  by_cases short : final.length < 4
  · rw [if_pos short, turn, literalRun_of_holds literals]
    dsimp only
    rw [place, here, List.nil_append]
  · rw [if_neg short, literalRun_of_holds literals, place, List.nil_append]
    exact goes_found (.inr rfl) here large

theorem entry_of_long (long : 3 < run) : entry run = .top := by
  rw [entry, lowBits, if_neg (Nat.not_le.mpr long), if_pos rfl]

/-- Elsewhere the first byte stands for more than three literals, or is the end mark. -/
theorem start_eq
    (holds : Holds src 0
      (encode phrases final.length ++ (ownHeader final.length ++ final) ++ [17, 0, 0]))
    (begins : ∀ phrase ∈ phrases.head?, 4 ≤ phrase.literals.length)
    (notFew : ¬ (phrases = [] ∧ 0 < final.length ∧ final.length ≤ 238)) :
    start src = (entry (firstRun phrases final.length), ⟨0, []⟩) := by
  cases phrases with
  | nil =>
      rw [encode, List.nil_append] at holds
      rw [firstRun]
      by_cases empty : final.length = 0
      · have noFinal := List.length_eq_zero_iff.mp empty
        subst noFinal
        rw [start_of_small (by rw [(holds_cons.mp holds).1]; decide)]
        rfl
      · have long : 3 < final.length := by
          simp only [true_and] at notFew
          omega
        rw [start_of_small (small_of_header long (holds_append.mp holds).1), entry_of_long long]
  | cons phrase rest =>
      have long : 3 < phrase.literals.length := begins phrase rfl
      rw [encode, phraseBytes] at holds
      simp only [List.append_assoc] at holds
      rw [start_of_small (small_of_header long holds), firstRun, entry_of_long long]

/-- Up to the first byte of the end mark. -/
theorem goes_stream (holds : Holds src 0 (stream phrases final))
    (writable : ∀ phrase ∈ phrases, Writable phrase)
    (begins : ∀ phrase ∈ phrases.head?, 4 ≤ phrase.literals.length)
    (rest : final.length < 2 ^ 32) (expands : expand phrases [] = some expanded)
    (enough : (stream phrases final).length ≤ turns) :
    ∃ spent ≤ (stream phrases final).length - 2,
      Loop.Goes (turn src turns) spent (start src)
        (.found 17, ⟨(stream phrases final).length - 2, expanded ++ final⟩) := by
  have mark : 16 ≤ (17 : U8).toNat := by decide
  rw [stream] at holds enough ⊢
  rw [List.length_append, List.length_append, List.length_cons, List.length_cons,
    List.length_cons, List.length_nil] at enough ⊢
  by_cases few : phrases = [] ∧ 0 < final.length ∧ final.length ≤ 238
  · obtain ⟨rfl, some, most⟩ := few
    cases expands
    rw [finalBytes, if_pos ⟨rfl, some, most⟩] at holds enough ⊢
    rw [encode, List.length_nil, List.length_cons]
    rw [encode, List.nil_append] at holds
    have withMark := holds_append.mpr ⟨(holds_append.mp holds).1,
      holds_cons.mpr ⟨(holds_cons.mp (holds_append.mp holds).2).1, holds_nil⟩⟩
    have place : 0 + (final.length + 1) + (0 + 1 + 1 + 1) - 2 = final.length + 2 := by omega
    rw [place]
    exact ⟨1, by omega, goes_start_of_few withMark some most mark⟩
  · rw [finalBytes, if_neg few] at holds enough ⊢
    rw [List.length_append] at enough ⊢
    obtain ⟨front, behind⟩ := holds_append.mp holds
    obtain ⟨phrasesHold, literals⟩ := holds_append.mp front
    have withMark : Holds src (0 + (encode phrases final.length).length)
        (ownHeader final.length ++ final ++ [17]) := by
      refine holds_append.mpr ⟨literals, holds_cons.mpr ⟨?_, holds_nil⟩⟩
      have first := (holds_cons.mp behind).1
      rw [List.length_append, ← Nat.add_assoc] at first
      exact first
    obtain ⟨first, firstFew, goes⟩ := goes_encode phrasesHold writable expands
      (show (encode phrases final.length).length ≤ turns by omega)
    obtain ⟨second, secondFew, goesOn⟩ := @goes_run src turns _ expanded _ _ withMark mark rest
      (by omega)
    refine ⟨first + second, by omega, ?_⟩
    rw [start_eq holds begins few]
    have place : (encode phrases final.length).length +
        ((ownHeader final.length).length + final.length) + (0 + 1 + 1 + 1) - 2 =
        0 + (encode phrases final.length).length +
          ((ownHeader final.length).length + final.length + 1) := by
      omega
    rw [place]
    exact goes.trans goesOn

/-- What is written in phrases is what they expand to, with the literals behind them. -/
theorem lzo1xDecompress_stream (holds : Holds src 0 (stream phrases final))
    (writable : ∀ phrase ∈ phrases, Writable phrase)
    (begins : ∀ phrase ∈ phrases.head?, 4 ≤ phrase.literals.length)
    (rest : final.length < 2 ^ 32) (expands : expand phrases [] = some expanded)
    (enough : (stream phrases final).length ≤ turns) :
    lzo1xDecompress src turns (stream phrases final).length =
      some (LZO_E_OK, expanded ++ final) := by
  obtain ⟨spent, few, goes⟩ := goes_stream holds writable begins rest expands enough
  have three : 3 ≤ (stream phrases final).length := by
    rw [stream, List.length_append]
    exact Nat.le_add_left 3 _
  have place : (stream phrases final).length - 2 + 2 = (stream phrases final).length := by omega
  have zeros : Holds src ((stream phrases final).length - 2) [0, 0] := by
    have tail := (holds_cons.mp (holds_append.mp holds).2).2
    have same : 0 + (encode phrases final.length ++ finalBytes phrases final).length + 1 =
        (stream phrases final).length - 2 := by
      simp only [stream, List.length_append, List.length_cons, List.length_nil]
      omega
    rwa [same] at tail
  obtain ⟨more, split⟩ := Nat.exists_eq_add_of_le (show spent + 1 ≤ turns by omega)
  have ran : Loop.run (turn src turns) turns (start src) =
      some (some ⟨(stream phrases final).length, expanded ++ final⟩) := by
    have later := Loop.run_of_leaves
      (@leaves_at_end src turns _ (expanded ++ final) zeros) more
    rw [place] at later
    rw [← later, ← goes (more + 1)]
    congr 1
    omega
  rw [lzo1xDecompress, ran]
  dsimp only
  rw [if_pos rfl]

/-- Every list of phrases that can be written is decompressed to what it stands for. -/
theorem lzo1x_decompress_expands {memory : Nat → U8} {phrases : List (Phrase U8)}
    {final expanded : List U8} (holds : Holds memory 0 (stream phrases final))
    (writable : ∀ phrase ∈ phrases, Writable phrase)
    (begins : ∀ phrase ∈ phrases.head?, 4 ≤ phrase.literals.length)
    (rest : final.length < 2 ^ 32) (expands : expand phrases [] = some expanded) :
    ∃ turns, ∀ more, lzo1xDecompress memory (turns + more) (stream phrases final).length =
      some (LZO_E_OK, expanded ++ final) := by
  refine ⟨(stream phrases final).length, fun more => ?_⟩
  exact lzo1xDecompress_stream holds writable begins rest expands (Nat.le_add_right _ more)

end Streams

/-- Four bytes and a repetition that runs into its own copy. -/
theorem lzo1x_decompress_expands_overlap :
    let phrases : List (Phrase U8) := [⟨[1, 2, 3, 4], 2, 7⟩]
    let memory := fun i => (stream phrases [5]).getD i 0
    ∃ turns, ∀ more, lzo1xDecompress memory (turns + more) (stream phrases [5]).length =
      some (LZO_E_OK, [1, 2, 3, 4, 3, 4, 3, 4, 3, 4, 3, 5]) := by
  intro phrases memory
  have expands : expand phrases [] = some [1, 2, 3, 4, 3, 4, 3, 4, 3, 4, 3] := by decide
  refine lzo1x_decompress_expands (holds_getD _ 0) ?_ ?_ (by decide) expands
  · rintro phrase member
    rw [List.mem_singleton.mp member]
    exact ⟨by decide, by decide, by decide, by decide, by decide⟩
  · rintro phrase member
    rw [← Option.some.inj member]
    decide

end Gp2Firmware.Minilzo
