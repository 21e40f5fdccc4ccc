import Mathlib.Data.List.Basic
import Mathlib.Tactic.Common

/-!
# A ring in a byte memory

A ring consists of the addresses from a first one up to a limit; behind the last
address it goes on with the first.  Places in it are given by their distance from
a base.  The memory notes the addresses of its stores, and words are stored least
significant byte first.
-/

namespace Gp2Firmware.Lib

/-- The first address of a ring, and the one behind its last. -/
structure RingBounds where
  first : Nat
  limit : Nat

namespace RingBounds

/-- The number of addresses. -/
def size (b : RingBounds) : Nat := b.limit - b.first

/-- An address behind the last one is taken from the start. -/
def wrap (b : RingBounds) (address : Nat) : Nat :=
  if b.limit ≤ address then address - b.size else address

/-- The place at a distance behind a base. -/
def place (b : RingBounds) (base distance : Nat) : Nat := b.wrap (base + distance)

/-- An address of the ring. -/
def Holds (b : RingBounds) (address : Nat) : Prop :=
  b.first ≤ address ∧ address < b.limit

instance (b : RingBounds) (address : Nat) : Decidable (b.Holds address) :=
  inferInstanceAs (Decidable (_ ∧ _))

variable {b : RingBounds} {base distance other : Nat}

theorem place_zero (inside : b.Holds base) : b.place base 0 = base :=
  if_neg (Nat.not_le.mpr inside.2)

theorem holds_place (inside : b.Holds base) (near : distance ≤ b.size) :
    b.Holds (b.place base distance) := by
  have low := inside.1
  have high := inside.2
  rw [size] at near
  rw [Holds, place, wrap, size]
  split
  · omega
  · omega

theorem place_injective (inside : b.Holds base) (near : distance < b.size)
    (otherNear : other < b.size)
    (same : b.place base distance = b.place base other) : distance = other := by
  have low := inside.1
  have high := inside.2
  rw [size] at near otherNear
  rw [place, place, wrap, wrap, size] at same
  split at same
  · split at same
    · omega
    · omega
  · split at same
    · omega
    · omega

/-- Distances add up, as far as the ring is long. -/
theorem place_place (inside : b.Holds base) (near : distance + other ≤ b.size) :
    b.place (b.place base distance) other = b.place base (distance + other) := by
  have low := inside.1
  have high := inside.2
  rw [size] at near
  simp only [place, wrap, size]
  split
  · split
    · split
      · omega
      · omega
    · split
      · omega
      · omega
  · split
    · split
      · omega
      · omega
    · split
      · omega
      · omega

end RingBounds

/-- Bytes, and the addresses that were stored to. -/
structure Memory where
  bytes : Nat → BitVec 8
  stores : List Nat

namespace Memory

/-- One byte is stored. -/
def store (m : Memory) (address : Nat) (value : BitVec 8) : Memory :=
  ⟨fun a => if a = address then value else m.bytes a, address :: m.stores⟩

/-- The word at an address. -/
def word (m : Memory) (address : Nat) : BitVec 32 :=
  m.bytes (address + 3) ++ m.bytes (address + 2) ++ m.bytes (address + 1) ++
    m.bytes address

/-- One word is stored. -/
def storeWord (m : Memory) (address : Nat) (value : BitVec 32) : Memory :=
  (((m.store address (value.extractLsb' 0 8)).store (address + 1)
    (value.extractLsb' 8 8)).store (address + 2) (value.extractLsb' 16 8)).store
      (address + 3) (value.extractLsb' 24 8)

/-- Bytes are stored one behind the other; the address behind the last. -/
def storeAround (b : RingBounds) : Memory → Nat → List (BitVec 8) → Memory × Nat
  | m, address, [] => (m, address)
  | m, address, value :: values =>
      storeAround b (m.store address value) (b.place address 1) values

/-- The stores are forgotten. -/
def unnoted (m : Memory) : Memory := ⟨m.bytes, []⟩

/-- A later memory, which differs in some cells only, and only these were stored
to. -/
structure Within (cells : Nat → Prop) (m later : Memory) : Prop where
  stores_sub : ∀ a ∈ later.stores, a ∈ m.stores ∨ cells a
  bytes_eq : ∀ a, ¬ cells a → later.bytes a = m.bytes a

variable {m later last : Memory} {cells more : Nat → Prop} {address : Nat}

theorem Within.refl (cells : Nat → Prop) (m : Memory) : Within cells m m :=
  ⟨fun _ there => .inl there, fun _ _ => rfl⟩

theorem Within.trans (first : Within cells m later) (second : Within cells later last) :
    Within cells m last where
  stores_sub a there := by
    rcases second.stores_sub a there with before | new
    · exact first.stores_sub a before
    · exact .inr new
  bytes_eq a outside :=
    (second.bytes_eq a outside).trans (first.bytes_eq a outside)

theorem Within.mono (within : Within cells m later)
    (weaker : ∀ a, cells a → more a) : Within more m later where
  stores_sub a there := (within.stores_sub a there).imp_right (weaker a)
  bytes_eq a outside := within.bytes_eq a (fun here => outside (weaker a here))

theorem within_store (m : Memory) (value : BitVec 8) (here : cells address) :
    Within cells m (m.store address value) where
  stores_sub a there := by
    rcases List.mem_cons.mp there with same | before
    · rw [same]
      exact .inr here
    · exact .inl before
  bytes_eq a outside := by
    have apart : a ≠ address := by
      intro same
      rw [same] at outside
      exact outside here
    exact if_neg apart

theorem within_storeWord (m : Memory) (address : Nat) (value : BitVec 32) :
    Within (fun a => address ≤ a ∧ a < address + 4) m (m.storeWord address value) := by
  refine (within_store _ _ ?_).trans ((within_store _ _ ?_).trans
    ((within_store _ _ ?_).trans (within_store _ _ ?_)))
  · omega
  · omega
  · omega
  · omega

theorem word_storeWord (m : Memory) (address : Nat) (value : BitVec 32) :
    (m.storeWord address value).word address = value := by
  have bytes : (m.storeWord address value).word address =
      value.extractLsb' 24 8 ++ value.extractLsb' 16 8 ++ value.extractLsb' 8 8 ++
        value.extractLsb' 0 8 := by
    simp [word, storeWord, store]
  rw [bytes]
  apply BitVec.eq_of_getLsbD_eq
  intro bit inside
  simp only [BitVec.getLsbD_append, BitVec.getLsbD_extractLsb']
  by_cases first : bit < 8
  · simp [first]
  · by_cases second : bit - 8 < 8
    · rw [if_neg first, if_pos second, Nat.add_sub_of_le (by omega)]
      simp [second]
    · by_cases third : bit - 8 - 8 < 8
      · rw [if_neg first, if_neg second, if_pos third,
          show 16 + (bit - 8 - 8) = bit by omega]
        simp [third]
      · rw [if_neg first, if_neg second, if_neg third,
          show 24 + (bit - 8 - 8 - 8) = bit by omega]
        simp [show bit - 8 - 8 - 8 < 8 by omega]

theorem word_congr (same : ∀ a, address ≤ a → a < address + 4 →
    later.bytes a = m.bytes a) : later.word address = m.word address := by
  rw [word, word, same _ (by omega) (by omega), same _ (by omega) (by omega),
    same _ (by omega) (by omega), same _ (by omega) (by omega)]

/-- What is stored around a ring stays within the places behind the base. -/
theorem storeAround_spec {b : RingBounds} {base distance : Nat}
    (inside : b.Holds base) (values : List (BitVec 8))
    (near : distance + values.length ≤ b.size) (m : Memory) :
    Within (fun a => ∃ d, distance ≤ d ∧ d < distance + values.length ∧
        a = b.place base d) m
        (storeAround b m (b.place base distance) values).1 ∧
      (storeAround b m (b.place base distance) values).2 =
        b.place base (distance + values.length) := by
  induction values generalizing m distance with
  | nil => exact ⟨.refl _ m, rfl⟩
  | cons value values inductionHypothesis =>
      rw [List.length_cons] at near ⊢
      have next : b.place (b.place base distance) 1 = b.place base (distance + 1) :=
        RingBounds.place_place inside (by omega)
      have rest := @inductionHypothesis (distance + 1) (by omega)
        (m.store (b.place base distance) value)
      rw [storeAround, next]
      refine ⟨(within_store m value ?_).trans (rest.1.mono ?_), ?_⟩
      · exact ⟨distance, Nat.le_refl _, by omega, rfl⟩
      · intro a there
        obtain ⟨d, low, high, place⟩ := there
        exact ⟨d, by omega, by omega, place⟩
      · rw [rest.2]
        congr 1
        omega

end Memory

end Gp2Firmware.Lib
