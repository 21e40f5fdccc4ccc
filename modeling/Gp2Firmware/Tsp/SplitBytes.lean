import Gp2Firmware.Tsp.Filter

/-!
# Heads that match

When the head of a section or PES packet matches as a whole, `_PatternMatchHead`
accepts the part in the first packet, and `_PatternMatchTail` the rest of it,
provided that it sees the rest and no shift mixes two words of the pattern.
-/

namespace Gp2Firmware.Tsp

/-- The bytes match: what is compared is there and the same. -/
def MatchesBytes (s : Pattern) (sec : List U8) : Prop :=
  ∀ bit, bit < 128 → bitOf s.mask bit = true ∨
    bit / 8 < sec.length ∧
      (sec.getD (bit / 8) 0).getLsbD (bit % 8) = bitOf s.pattern bit

/-- The words that a shift by a whole number of words mixes agree where both are
compared. -/
def Unmixed (s : Pattern) (byte : Nat) : Prop :=
  ∀ bit, 8 * byte ≤ bit → bit + 32 < 128 →
    bitOf s.mask bit = true ∨ bitOf s.mask (bit + 32) = true ∨
      bitOf s.pattern (bit + 32) = false ∨ bitOf s.pattern bit = true

variable {s : Pattern} {sec : List U8} {packet : Packet} {offset byte : Nat}

/-- The packet shows the bytes behind some skipped ones, where it has them. -/
def ShowsBytes (packet : Packet) (sec : List U8) (offset skipped : Nat) : Prop :=
  ∀ i, skipped + i < sec.length → offset + i < tsPacketSize →
    packet (offset + i) = sec.getD (skipped + i) 0

/-- A packet shows the bytes that are put together from it. -/
theorem showsBytes_of_whole {got rest : List U8} {size : Nat}
    (whole : sec = got ++ bytesAt packet offset size ++ rest)
    (toEnd : rest = [] ∨ offset + size = tsPacketSize) :
    ShowsBytes packet sec offset got.length := by
  intro i present inside
  have small : i < size := by
    rw [whole, List.length_append, List.length_append, length_bytesAt] at present
    rcases toEnd with none | full
    · rw [none, List.length_nil] at present
      omega
    · omega
  rw [List.getD_eq_getElem?_getD, whole, List.append_assoc,
    List.getElem?_append_right (Nat.le_add_right _ i), Nat.add_sub_cancel_left,
    List.getElem?_append_left (by rw [length_bytesAt]; exact small),
    getElem?_bytesAt small]
  rfl

theorem windowBit_shows (shows' : ShowsBytes packet sec offset byte) {bit : Nat}
    (have' : (8 * byte + bit) / 8 < sec.length)
    (inside : offset + bit / 8 < tsPacketSize) :
    windowBit packet offset bit =
      (sec.getD ((8 * byte + bit) / 8) 0).getLsbD ((8 * byte + bit) % 8) := by
  have place : (8 * byte + bit) / 8 = byte + bit / 8 := by omega
  rw [windowBit, place, show (8 * byte + bit) % 8 = bit % 8 by omega]
  rw [place] at have'
  rw [shows' _ have' inside]

/-- A matching head is accepted. -/
theorem head_of_matches (matches' : MatchesBytes s sec)
    (shows' : ShowsBytes packet sec offset 0) (inside : offset < tsPacketSize) :
    (patternMatchHead packet offset s).1 = true := by
  have agrees : ∀ bit, bit < 128 → offset + bit / 8 < tsPacketSize →
      bitOf s.mask bit = true ∨
        windowBit packet offset bit = bitOf s.pattern bit := by
    intro bit small visible
    rcases matches' bit small with masked | ⟨present, same⟩
    · exact .inl masked
    · rw [← Nat.zero_add bit, ← Nat.mul_zero 8] at present
      rw [windowBit_shows shows' present visible, Nat.mul_zero, Nat.zero_add]
      exact .inr same
  by_cases whole : offset < tsPacketSize - 15
  · rw [patternMatchHead, if_pos whole]
    apply (cmpMatch_iff _ _ _ _).mpr
    intro bit small
    exact agrees bit small (by omega)
  · rw [tsPacketSize] at whole inside
    have split : offset = tsPacketSize - (188 - offset) := by
      rw [tsPacketSize]
      omega
    rw [split]
    apply (@patternMatchHead_iff _ (188 - offset) _ (fun i => packet (offset + i)) (by omega)
      (by omega) _).mpr
    · intro bit front
      have seen := agrees bit (by omega) (by rw [tsPacketSize]; omega)
      rw [windowBit, Nat.zero_add]
      exact seen
    · intro i small
      rw [← split]

/-- The number of pattern bytes that are kept for the next packet. -/
theorem head_ptnByte (matched : (patternMatchHead packet offset s).1 = true)
    (inside : offset < tsPacketSize) :
    (patternMatchHead packet offset s).2.ptnByte =
      if offset < tsPacketSize - 15 then 0 else tsPacketSize - offset := by
  by_cases whole : offset < tsPacketSize - 15
  · rw [patternMatchHead, if_pos whole, if_pos whole]
  · rw [tsPacketSize] at whole inside
    have split : offset = tsPacketSize - (188 - offset) := by
      rw [tsPacketSize]
      omega
    rw [split] at matched
    rw [if_neg (by rw [tsPacketSize]; exact whole)]
    conv_lhs => rw [split]
    exact patternMatchHead_ptnByte (by omega) (by omega) matched

/-- The rest of a matching head is accepted. -/
theorem tail_of_matches (matches' : MatchesBytes s sec) (spare : Spare s)
    (some : s.ptnByte ≠ 0) (small : s.ptnByte ≤ 15)
    (shows' : ShowsBytes packet sec offset s.ptnByte)
    (visible : ∀ bit, 8 * s.ptnByte ≤ bit → bit < 128 →
      bitOf s.mask bit = true ∨ offset + (bit / 8 - s.ptnByte) < tsPacketSize)
    (unmixed : s.ptnByte % 4 = 0 → Unmixed s s.ptnByte) :
    (patternMatchTail packet offset s).1 = true := by
  apply (tail_iff_restAgrees spare some small).mpr
  intro bit low high
  rcases matches' bit high with masked | ⟨present, same⟩
  · exact .inl masked
  rcases visible bit low high with masked | seen
  · exact .inl masked
  obtain ⟨left, rfl⟩ := Nat.exists_eq_add_of_le low
  have window : windowBit packet offset (8 * s.ptnByte + left - 8 * s.ptnByte) =
      bitOf s.pattern (8 * s.ptnByte + left) := by
    rw [Nat.add_sub_cancel_left, windowBit_shows shows' present (by
      rw [show left / 8 = (8 * s.ptnByte + left) / 8 - s.ptnByte by omega]
      exact seen)]
    exact same
  rw [AgreesAt, window]
  by_cases aligned : s.ptnByte % 4 = 0
  · rw [if_pos aligned]
    by_cases last : 128 ≤ 8 * s.ptnByte + left + 32
    · exact .inr (.inl last)
    · rcases unmixed aligned _ low (Nat.lt_of_not_le last) with
        masked | masked | clear | set
      · exact .inl masked
      · exact .inr (.inr (.inl masked))
      · exact .inr (.inr (.inr (by rw [clear, Bool.or_false])))
      · exact .inr (.inr (.inr (by rw [set, Bool.true_or])))
  · rw [if_neg aligned]
    exact .inr rfl

end Gp2Firmware.Tsp
