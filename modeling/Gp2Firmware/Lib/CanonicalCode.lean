import Mathlib.Algebra.Order.Group.Nat
import Mathlib.Tactic.Common
import Mathlib.Tactic.Ring

/-!
# Canonical prefix codes

The code words of a canonical code follow from their sizes, which ascend: the
first word is zero, and each later one is the word before it plus one, extended
with zeros to its size.  Written at the top of a window of `width` bits, word
`p` and all continuations of it are the range from `start p` up to
`start (p + 1)`, so the words split the window into ranges one behind the other.
-/

namespace Gp2Firmware.Lib.CanonicalCode

variable (width : Nat) (sizes : Nat → Nat)

/-- The code words in turn. -/
def word : Nat → Nat
  | 0 => 0
  | p + 1 => (word p + 1) * 2 ^ (sizes (p + 1) - sizes p)

/-- The window with a code word at its top and zeros below. -/
def start : Nat → Nat
  | 0 => 0
  | p + 1 => start p + 2 ^ (width - sizes p)

/-- The first bits of a window. -/
def pre (count window : Nat) : Nat :=
  window / 2 ^ (width - count)

/-- The sizes of the first words ascend and fit into the window. -/
structure Ascending (count : Nat) : Prop where
  fits : ∀ p < count, sizes p ≤ width
  le_succ : ∀ p, p + 1 < count → sizes p ≤ sizes (p + 1)

variable {width sizes} {count p q : Nat}

theorem start_le_of_le (le : p ≤ q) : start width sizes p ≤ start width sizes q := by
  induction le with
  | refl => exact le_rfl
  | step _ inductionHypothesis => exact inductionHypothesis.trans (Nat.le_add_right _ _)

namespace Ascending

variable (ascending : Ascending width sizes count)

include ascending

/-- A word at the top of the window. -/
theorem word_mul (inside : p < count) :
    word sizes p * 2 ^ (width - sizes p) = start width sizes p := by
  induction p with
  | zero => simp [word, start]
  | succ p inductionHypothesis =>
      have fits := ascending.fits (p + 1) inside
      have le := ascending.le_succ p inside
      rw [word, start, ← inductionHypothesis (by omega), Nat.mul_assoc, ← pow_add,
        show sizes (p + 1) - sizes p + (width - sizes (p + 1)) = width - sizes p by omega]
      ring

/-- The words that a window starts with are those whose range it lies in. -/
theorem pre_eq_word_iff (inside : p < count) {window : Nat} :
    pre width (sizes p) window = word sizes p ↔
      start width sizes p ≤ window ∧ window < start width sizes (p + 1) := by
  have positive : 0 < 2 ^ (width - sizes p) := Nat.two_pow_pos _
  rw [pre, start, ← ascending.word_mul inside, Nat.div_eq_iff positive]
  constructor
  · intro between
    omega
  · intro between
    omega

/-- A window starts with one code word at most. -/
theorem unique {window : Nat} (inside : p < count) (otherInside : q < count)
    (here : pre width (sizes p) window = word sizes p)
    (there : pre width (sizes q) window = word sizes q) : p = q := by
  rw [ascending.pre_eq_word_iff inside] at here
  rw [ascending.pre_eq_word_iff otherInside] at there
  rcases Nat.lt_trichotomy p q with less | same | greater
  · have := @start_le_of_le width sizes (p + 1) q less
    omega
  · exact same
  · have := @start_le_of_le width sizes (q + 1) p greater
    omega

/-- A word is the start of its own range. -/
theorem pre_start (inside : p < count) :
    pre width (sizes p) (start width sizes p) = word sizes p := by
  rw [ascending.pre_eq_word_iff inside, start]
  exact ⟨le_rfl, Nat.lt_add_of_pos_right (Nat.two_pow_pos _)⟩

end Ascending

/-- Windows with the same first bits have the same fewer first bits. -/
theorem pre_eq_of_pre_eq {fewer more window other : Nat} (le : fewer ≤ more)
    (same : pre width more window = pre width more other) :
    pre width fewer window = pre width fewer other := by
  have split : 2 ^ (width - fewer) = 2 ^ (width - more) * 2 ^ (width - fewer - (width - more)) := by
    rw [← pow_add]
    congr 1
    omega
  rw [pre, pre] at same
  rw [pre, pre, split, ← Nat.div_div_eq_div_mul, ← Nat.div_div_eq_div_mul, same]

/-- One more bit of a window. -/
theorem pre_succ {fewer window : Nat} (fits : fewer < width) :
    pre width (fewer + 1) window =
      2 * pre width fewer window + window / 2 ^ (width - fewer - 1) % 2 := by
  have split : 2 ^ (width - fewer) = 2 ^ (width - fewer - 1) * 2 := by
    rw [← pow_succ]
    congr 1
    omega
  rw [pre, pre, split, ← Nat.div_div_eq_div_mul,
    show width - (fewer + 1) = width - fewer - 1 by omega]
  omega

section Prefixes

variable (width sizes)

/-- A number of first bits and their value that are a proper part of a code word. -/
def Inner (p : Nat) (key : Nat × Nat) : Prop :=
  key.1 < sizes p ∧ pre width key.1 (start width sizes p) = key.2

/-- A number of first bits and their value that a code word is at the front of. -/
def Ends (p : Nat) (key : Nat × Nat) : Prop :=
  sizes p ≤ key.1 ∧ key.2 / 2 ^ (key.1 - sizes p) = word sizes p

variable {width sizes}

theorem pre_pre {fewer more window : Nat} (le : fewer ≤ more) (fits : more ≤ width) :
    pre width more window / 2 ^ (more - fewer) = pre width fewer window := by
  rw [pre, pre, Nat.div_div_eq_div_mul, ← pow_add]
  congr 2
  omega

theorem ends_pre {window size : Nat} (fits : size ≤ width) :
    Ends sizes p (size, pre width size window) ↔
      sizes p ≤ size ∧ pre width (sizes p) window = word sizes p := by
  constructor
  · rintro ⟨le, same⟩
    exact ⟨le, by rw [← pre_pre le fits, same]⟩
  · rintro ⟨le, same⟩
    exact ⟨le, by simp only [pre_pre le fits, same]⟩

/-- Some first bits are those of a window. -/
theorem exists_window {size value : Nat} :
    pre width size (value * 2 ^ (width - size)) = value := by
  rw [pre, Nat.mul_div_cancel _ (Nat.two_pow_pos _)]

theorem Ends.unique (ascending : Ascending width sizes count) {key : Nat × Nat}
    (fits : key.1 ≤ width) (inside : p < count) (otherInside : q < count)
    (here : Ends sizes p key) (there : Ends sizes q key) : p = q := by
  obtain ⟨size, value⟩ := key
  rw [← @exists_window width size value, ends_pre fits] at here there
  exact ascending.unique inside otherInside here.2 there.2

/-- No code word is at the front of a proper part of a code word. -/
theorem Inner.not_ends (ascending : Ascending width sizes count) {key : Nat × Nat}
    (inside : p < count) (otherInside : q < count) (inner : Inner width sizes p key) :
    ¬ Ends sizes q key := by
  obtain ⟨size, value⟩ := key
  obtain ⟨less, value_eq⟩ := inner
  have fits := ascending.fits p inside
  intro ends
  simp only at less value_eq
  rw [← value_eq, ends_pre (by omega)] at ends
  have same := ascending.unique inside otherInside (ascending.pre_start inside) ends.2
  subst same
  omega

/-- A code word that does not end with the last bit is at the front of the bits before it. -/
theorem Ends.parent {size value bit : Nat} (isBit : bit < 2)
    (ends : Ends sizes p (size + 1, 2 * value + bit)) (le : sizes p ≤ size) :
    Ends sizes p (size, value) := by
  obtain ⟨-, same⟩ := ends
  refine ⟨le, ?_⟩
  simp only at same ⊢
  rw [← same, Nat.succ_sub le, pow_succ', ← Nat.div_div_eq_div_mul]
  congr 1
  omega

end Prefixes

section Depth

/-- The words of a few bits end at a multiple of the room of one of them. -/
theorem two_pow_dvd_start {depth : Nat} (short : ∀ q < p, sizes q ≤ depth) :
    2 ^ (width - depth) ∣ start width sizes p := by
  induction p with
  | zero => exact Nat.dvd_zero _
  | succ p inductionHypothesis =>
      have last := short p (Nat.lt_succ_self p)
      exact Nat.dvd_add (inductionHypothesis fun q less => short q (Nat.lt_succ_of_lt less))
        (pow_dvd_pow 2 (by omega))

/-- A window in front of the end of the words lies in the range of one of them. -/
theorem exists_range {window : Nat} (below : window < start width sizes count) :
    ∃ q < count, start width sizes q ≤ window ∧ window < start width sizes (q + 1) := by
  induction count with
  | zero => exact absurd below (Nat.not_lt_zero _)
  | succ count inductionHypothesis =>
      by_cases earlier : window < start width sizes count
      · obtain ⟨q, less, between⟩ := inductionHypothesis earlier
        exact ⟨q, Nat.lt_succ_of_lt less, between⟩
      · exact ⟨count, Nat.lt_succ_self count, Nat.le_of_not_lt earlier, below⟩

/-- The first bits of the longer words are those from the end of the shorter words up to the
end of all. -/
theorem Ascending.exists_inner_iff (ascending : Ascending width sizes count) {depth value : Nat}
    (fits : depth ≤ width) (short : ∀ q < p, sizes q ≤ depth)
    (long : ∀ q, p ≤ q → q < count → depth < sizes q) :
    (∃ q < count, Inner width sizes q (depth, value)) ↔
      start width sizes p ≤ value * 2 ^ (width - depth) ∧
        value * 2 ^ (width - depth) < start width sizes count := by
  have room := Nat.two_pow_pos (width - depth)
  constructor
  · intro ⟨q, less, longer, here⟩
    dsimp only at longer here
    have behind : p ≤ q := by
      by_contra before
      have := short q (by omega)
      omega
    have below : value * 2 ^ (width - depth) ≤ start width sizes q := by
      rw [← here, pre]
      exact Nat.div_mul_le_self _ _
    have inRange : start width sizes q < start width sizes count :=
      Nat.lt_of_lt_of_le (Nat.lt_add_of_pos_right (Nat.two_pow_pos _))
        (start_le_of_le (show q + 1 ≤ count from less))
    refine ⟨?_, Nat.lt_of_le_of_lt below inRange⟩
    obtain ⟨multiple, same⟩ := @two_pow_dvd_start width sizes p depth short
    have above := @start_le_of_le width sizes p q behind
    rw [same, Nat.mul_comm] at above ⊢
    rw [← here, pre]
    exact Nat.mul_le_mul_right _ ((Nat.le_div_iff_mul_le room).mpr above)
  · intro ⟨above, below⟩
    obtain ⟨q, less, from_, upTo⟩ := exists_range below
    have behind : p ≤ q := by
      by_contra before
      have := @start_le_of_le width sizes (q + 1) p (by omega)
      omega
    have longer := long q behind less
    have wordFits := ascending.fits q less
    -- the word and the window are multiples of the room of the word
    have same : start width sizes q = value * 2 ^ (width - depth) := by
      have split : 2 ^ (width - depth) = 2 ^ (sizes q - depth) * 2 ^ (width - sizes q) := by
        rw [← pow_add]
        congr 1
        omega
      rw [start, ← ascending.word_mul less, split, ← Nat.mul_assoc, ← Nat.succ_mul] at upTo
      rw [← ascending.word_mul less, split, ← Nat.mul_assoc] at from_ ⊢
      have wordRoom := Nat.two_pow_pos (width - sizes q)
      have most := Nat.lt_of_mul_lt_mul_right upTo
      have least := Nat.le_of_mul_le_mul_right from_ wordRoom
      rw [Nat.le_antisymm least (Nat.le_of_lt_succ most)]
    refine ⟨q, less, longer, ?_⟩
    dsimp only
    rw [same, exists_window]

end Depth

end Gp2Firmware.Lib.CanonicalCode
