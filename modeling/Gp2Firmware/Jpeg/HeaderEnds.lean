import Gp2Firmware.Jpeg.HeaderChars

/-!
# The headers of a stream that ends

The bytes of the stream run out, and the next marker is found in the padding then, whichever of
its two bytes comes first.  One segment at most goes on into the padding.
-/

namespace Gp2Firmware.Jpeg.Decoder

open Gp2Firmware.Lib (Achieves achieves_pure achieves_modify achieves_get_bind)
open Gp2Firmware.Lib.WordMemory Gp2Firmware.Jpeg.BitReader Gp2Firmware.Jpeg.HuffmanTable
  Gp2Firmware.Jpeg.Mcu

section Search

variable {machine : Machine} {left : Reader → Nat} {wait : Wait} {turns : Nat} {escape : Bool}
  {r : Reader}

/-- The turns from the padding to a marker. -/
def paddingTurns (escape : Bool) (r : Reader) : Nat :=
  if r.temFlag = 0 then 2 else if escape then 1 else 3

def searchTurns (left : Reader → Nat) (escape : Bool) (r : Reader) : Nat :=
  if remaining left r = 0 then paddingTurns escape r else remaining left r + 3

theorem paddingTurns_le : paddingTurns escape r ≤ 3 := by
  rw [paddingTurns]
  split
  · decide
  · split
    · decide
    · exact le_rfl

theorem searchTurns_of_ended (ended : remaining left r = 0) :
    searchTurns left escape r = paddingTurns escape r :=
  if_pos ended

theorem searchTurns_of_more (more : remaining left r ≠ 0) :
    searchTurns left escape r = remaining left r + 3 :=
  if_neg more

theorem searchTurns_le : searchTurns left escape r ≤ remaining left r + 3 := by
  have few := @paddingTurns_le escape r
  rw [searchTurns]
  split
  · omega
  · exact le_rfl

/-- A marker out of the stream, or `EOI` behind its end. -/
def Found (left : Reader → Nat) (most taken : Nat) (r : Reader) (c : U8) (u : Reader) : Prop :=
  (1 ≤ taken ∧ taken + remaining left u ≤ remaining left r) ∨
    (c = M_EOI ∧ remaining left u = 0 ∧ taken ≤ most)

variable (finite : FiniteStream machine.wait left) (supplied : Supplied r)

include finite supplied

/-- Each character brings the search closer to its end. -/
theorem markerTurn_closer {c : U8} {u : Reader} (next : BitReader.getChar machine.wait r = (c, u)) :
    (∃ escapeThen, markerTurn machine (escape, r) = .inl (escapeThen, u) ∧
      searchTurns left escapeThen u + 1 ≤ searchTurns left escape r) ∨
    (markerTurn machine (escape, r) = .inr (c, u) ∧
      Found left (searchTurns left escape r) 1 r c u) := by
  obtain ⟨onward, taken⟩ := finite.getChar supplied
  rw [next] at onward taken
  have less := onward.less
  rw [markerTurn, next]
  dsimp only at taken less ⊢
  rcases taken with one | padded
  · have closer : ∀ escapeThen, searchTurns left escapeThen u + 1 ≤ searchTurns left escape r := by
      intro escapeThen
      have few := @searchTurns_le left escapeThen u
      rw [@searchTurns_of_more _ _ r (by omega)]
      omega
    cases escape with
    | false => exact .inl ⟨_, rfl, closer _⟩
    | true =>
        rw [if_pos rfl]
        split
        · exact .inl ⟨_, rfl, closer _⟩
        split
        · exact .inl ⟨_, rfl, closer _⟩
        · exact .inr ⟨rfl, .inl ⟨le_rfl, by omega⟩⟩
  · have ended := padded.ended
    have endedThen : remaining left u = 0 := by omega
    have char := padded.char
    have flag := padded.next
    rw [searchTurns_of_ended ended, paddingTurns]
    rcases supplied.phase with zero | one
    · rw [zero] at char flag
      have isEscape : c = 0xFF := char
      have odd : u.temFlag ≠ 0 := by
        rw [flag]
        decide
      have closer : searchTurns left true u + 1 ≤ 2 := by
        rw [searchTurns_of_ended endedThen, paddingTurns, if_neg odd]
        decide
      subst isEscape
      rw [if_pos zero]
      cases escape with
      | false => exact .inl ⟨_, rfl, closer⟩
      | true => exact .inl ⟨_, rfl, closer⟩
    · rw [one] at char flag
      have isEoi : c = M_EOI := char
      have even : u.temFlag = 0 := flag
      subst isEoi
      have odd : r.temFlag ≠ 0 := by
        rw [one]
        decide
      rw [if_neg odd]
      cases escape with
      | false =>
          refine .inl ⟨_, rfl, ?_⟩
          rw [searchTurns_of_ended endedThen, paddingTurns, if_pos even]
          decide
      | true => exact .inr ⟨rfl, .inr ⟨rfl, endedThen, le_rfl⟩⟩

theorem run_markerTurn (enough : searchTurns left escape r ≤ turns) :
    ∃ c u, Lib.Loop.run (markerTurn machine) turns (escape, r) = some (c, u) ∧
      Takes machine.wait r (Lib.Loop.count (markerTurn machine) turns (escape, r)) u ∧
      Found left (searchTurns left escape r)
        (Lib.Loop.count (markerTurn machine) turns (escape, r)) r c u := by
  induction turns generalizing escape r with
  | zero =>
      have some : 1 ≤ searchTurns left escape r := by
        rw [searchTurns, paddingTurns]
        split
        · split
          · decide
          · split
            · decide
            · decide
        · omega
      omega
  | succ turns inductionHypothesis =>
      obtain ⟨onward, taken⟩ := finite.getChar supplied
      have less := onward.less
      rcases @markerTurn_closer _ _ escape _ finite supplied (BitReader.getChar machine.wait r).1
          (BitReader.getChar machine.wait r).2 rfl with
        ⟨escapeThen, goes, closer⟩ | ⟨leaves, found⟩
      · obtain ⟨c, u, ran, takes, found⟩ := @inductionHypothesis escapeThen _ onward.supplied
          (by omega)
        rw [Lib.Loop.run_of_goes goes, Lib.Loop.count_of_goes goes]
        refine ⟨c, u, ran, ?_, ?_⟩
        · rw [Nat.add_comm]
          exact Takes.start.char.trans takes
        · rcases found with ⟨some, spent⟩ | ⟨isEoi, ended, few⟩
          · refine .inl ⟨Nat.le_add_left 1 _, ?_⟩
            rcases taken with one | padded
            · omega
            · have ended := padded.ended
              omega
          · exact .inr ⟨isEoi, ended, by omega⟩
      · rw [Lib.Loop.run_of_leaves leaves, Lib.Loop.count_of_leaves leaves]
        refine ⟨_, _, rfl, ?_, found⟩
        exact Takes.start.char

end Search

section Markers

variable {machine : Machine} {left : Reader → Nat} {turns : Nat} {s t u : State} {c : U8}
  {step : MarkerStep}

/-- The characters of a header at most: one segment may go on behind the end. -/
def mostHeader (left : Reader → Nat) (r : Reader) : Nat :=
  remaining left r + if remaining left r = 0 then 3 else mostChars + 3

/-- What comes of a marker. -/
def afterMarker (machine : Machine) (turns : Nat) (c : U8) (u : State) :
    MarkerStep → Option (Option U8 × State)
  | .next => processMarkers machine turns u
  | .found => some (some c, u)
  | .failed => some (none, u)

theorem processMarkers_eq (marker : nextMarker machine s = some (c, t))
    (ran : (do
      note (.marker c)
      processMarker machine c : Program State MarkerStep) t = some (step, u)) :
    processMarkers machine (turns + 1) s = afterMarker machine turns c u step ∧
      headerChars machine (turns + 1) s =
        Lib.Loop.count (markerTurn machine) machine.turns (false, s.reader) +
          (segmentChars machine c t + if step = .next then headerChars machine turns u else 0) := by
  have behind : processMarkers machine (turns + 1) s = ((do
      note (.marker c)
      processMarker machine c : Program State MarkerStep) t).bind fun result =>
        afterMarker machine turns c result.2 result.1 := by
    change (nextMarker machine s).bind _ = _
    rw [marker]
    change (processMarker machine c _).bind _ = (processMarker machine c _).bind _
    congr 1
    funext result
    rcases result with ⟨step, u⟩
    cases step with
    | next => rfl
    | found => rfl
    | failed => rfl
  constructor
  · rw [behind, ran]
    rfl
  · rw [headerChars, marker]
    dsimp only
    rw [ran]
    cases step with
    | next => rfl
    | found => rfl
    | failed => rfl

variable (finite : FiniteStream machine.wait left)

include finite

omit finite in
theorem segmentChars_of_returned (returned : c ∈ returnedMarkers) :
    segmentChars machine c s = 0 := by
  have other : c ≠ M_APP1 := by
    rintro rfl
    exact absurd returned (by decide)
  rw [segmentChars, if_neg other, if_pos returned]

/-- A marker and the segment behind it. -/
theorem marker_step (ready : Ready s) (intact : Intact machine s)
    (enough : remaining left s.reader + 3 ≤ machine.turns) :
    ∃ c t step u, nextMarker machine s = some (c, t) ∧
      (do
        note (.marker c)
        processMarker machine c : Program State MarkerStep) t = some (step, u) ∧
      (step = .found ↔ c ∈ returnedMarkers) ∧
      Reads machine s (Lib.Loop.count (markerTurn machine) machine.turns (false, s.reader)) t ∧
      Found left (remaining left s.reader + 3)
        (Lib.Loop.count (markerTurn machine) machine.turns (false, s.reader)) s.reader c t.reader ∧
      Reads machine t (segmentChars machine c t) u := by
  obtain ⟨c, r, ran, takes, found⟩ := @run_markerTurn _ _ _ false _ finite ready.supplied
    (searchTurns_le.trans enough)
  have few := @searchTurns_le left false s.reader
  have readsMarker := Reads.start.takes takes
  rw [Nat.zero_add] at readsMarker
  have noted : Reads machine { s with reader := r } 0 { s with
      reader := r
      books := { s.books with log := s.books.log ++ [.marker c] } } :=
    Reads.start.changes ⟨rfl, rfl, rfl, rfl, rfl, rfl⟩
  obtain ⟨step, u, processed, isFound, reads⟩ := @achieves_processMarker _ _ _ _
    ((intact.behind readsMarker).behind noted) Reads.start c _ rfl
  refine ⟨c, { s with reader := r }, step, u, ?_, processed, isFound, readsMarker, ?_, ?_⟩
  · rw [nextMarker, ran]
    rfl
  · rcases found with real | ⟨isEoi, ended, most⟩
    · exact .inl real
    · exact .inr ⟨isEoi, ended, most.trans few⟩
  · have both := noted.trans reads
    rw [Nat.zero_add, Nat.zero_add] at both
    exact both

/-- A marker is found, or an error is, before the padding is used for another segment. -/
theorem processMarkers_ends (ready : Ready s) (intact : Intact machine s)
    (enough : remaining left s.reader + 3 ≤ machine.turns)
    (rounds : remaining left s.reader < turns) :
    ∃ found u, processMarkers machine turns s = some (found, u) ∧
      Reads machine s (headerChars machine turns s) u ∧
      (∀ c, found = some c → c ∈ returnedMarkers ∧
        (c = M_EOI ∨ remaining left u.reader < remaining left s.reader)) ∧
      headerChars machine turns s ≤ mostHeader left s.reader := by
  induction turns generalizing s with
  | zero => exact absurd rounds (Nat.not_lt_zero _)
  | succ turns inductionHypothesis =>
      obtain ⟨c, t, step, u, marker, processed, isFound, readsMarker, found, readsSegment⟩ :=
        marker_step finite ready intact enough
      obtain ⟨result, chars⟩ := @processMarkers_eq _ turns _ _ _ _ _ marker processed
      have marked := readsMarker.spends finite ready
      have spends := readsSegment.spends finite marked.ready
      have segment := @segmentChars_le machine c t
      have less := spends.less
      have spent := spends.taken
      rw [result, chars, mostHeader]
      cases step with
      | next =>
          -- the padding has no marker but `EOI`, so this one is out of the stream
          have real : 1 ≤ Lib.Loop.count (markerTurn machine) machine.turns (false, s.reader) ∧
              Lib.Loop.count (markerTurn machine) machine.turns (false, s.reader) +
                remaining left t.reader ≤ remaining left s.reader := by
            rcases found with real | ⟨isEoi, -, -⟩
            · exact real
            · rw [isEoi] at isFound
              exact absurd (isFound.mpr (by decide)) (by decide)
          have reads := readsMarker.trans readsSegment
          obtain ⟨foundThen, v, ran, readsThen, returned, few⟩ :=
            @inductionHypothesis u spends.ready (intact.behind reads) (by omega) (by omega)
          rw [mostHeader] at few
          rw [if_pos rfl, ← Nat.add_assoc]
          refine ⟨foundThen, v, ran, reads.trans readsThen, ?_, ?_⟩
          · intro c isSome
            obtain ⟨member, last⟩ := returned c isSome
            exact ⟨member, last.imp_right fun fewer => by omega⟩
          · rw [if_neg (show remaining left s.reader ≠ 0 by omega)]
            split at few
            · omega
            · omega
      | found =>
          have returned := isFound.mp rfl
          rw [segmentChars_of_returned returned] at readsSegment ⊢
          rw [if_neg (by decide)]
          refine ⟨some c, u, rfl, readsMarker.trans readsSegment, ?_, ?_⟩
          · intro other same
            cases same
            refine ⟨returned, ?_⟩
            rcases found with ⟨some, taken⟩ | ⟨isEoi, -, -⟩
            · exact .inr (by omega)
            · exact .inl isEoi
          · rcases found with ⟨some, taken⟩ | ⟨-, -, few⟩
            · omega
            · split
              · omega
              · omega
      | failed =>
          rcases found with ⟨some, taken⟩ | ⟨isEoi, -, -⟩
          · refine ⟨none, u, rfl, readsMarker.trans readsSegment, ?_, ?_⟩
            · intro c isSome
              cases isSome
            · rw [if_neg (by decide), if_neg (show remaining left s.reader ≠ 0 by omega)]
              omega
          · rw [isEoi] at isFound
            exact absurd (isFound.mpr (by decide)) (by decide)

end Markers

section Soi

variable {machine : Machine} {s t : State} {count bytesleft : Nat} {lastchar : U8}

theorem skipsBy_soiSearch : Achieves (Skips machine count s) (soiSearch machine bytesleft lastchar)
    fun _ t => ∃ taken ≤ count + bytesleft, Skips machine taken s t := by
  induction bytesleft generalizing count lastchar with
  | zero => exact achieves_pure fun _ skips => ⟨count, le_rfl, skips⟩
  | succ bytesleft inductionHypothesis =>
      refine (SkipsBy.behind skipsBy_getChar).bind ?_
      intro thischar
      refine Achieves.ite ?_ ?_
      · exact fun _ => achieves_pure fun _ skips => ⟨count + 1, by omega, skips⟩
      · intro _
        refine inductionHypothesis.imp (fun _ skips => skips) ?_
        intro ok t ⟨taken, few, skips⟩
        exact ⟨taken, by omega, skips⟩

/-- `SOI` is looked for among some bytes only. -/
theorem locateSoiMarker_ends (intact : Intact machine s) :
    ∃ ok t n, locateSoiMarker machine s = some (ok, t) ∧ Reads machine s n t ∧ n ≤ 641 := by
  have denied : ∀ {status} {count : Nat}, count ≤ 641 → Achieves (Skips machine count s)
      (fail machine status) fun _ t => ∃ n, Reads machine s n t ∧ n ≤ 641 := by
    intro status count few
    refine (achieves_fail_skips intact Reads.start).imp (fun _ skips => skips) ?_
    exact fun _ t reads => ⟨_, reads, by omega⟩
  have taken : ∀ {ok : Bool} {count : Nat}, count ≤ 641 → Achieves (Skips machine count s)
      (pure ok) fun _ t => ∃ n, Reads machine s n t ∧ n ≤ 641 := by
    intro ok count few
    exact achieves_pure fun _ skips => ⟨_, Reads.start.skips skips, by omega⟩
  have ends : Achieves (· = s) (locateSoiMarker machine) fun _ t =>
      ∃ n, Reads machine s n t ∧ n ≤ 641 := by
    unfold locateSoiMarker
    refine (skipsBy_getChar s).bind ?_
    intro lastchar
    refine (SkipsBy.behind skipsBy_getChar).bind ?_
    intro thischar
    refine Achieves.ite (fun _ => taken (by decide)) ?_
    intro _
    refine skipsBy_soiSearch.bind ?_
    intro found
    apply Achieves.some
    intro count
    apply Achieves.fact
    intro few
    refine Achieves.ite ?_ (fun _ => denied few)
    intro _
    apply achieves_get_bind
    intro t skips
    exact Achieves.at skips (Achieves.ite (fun _ => denied few) fun _ => taken few)
  obtain ⟨ok, t, ran, n, reads, few⟩ := ends s rfl
  exact ⟨ok, t, n, ran, reads, few⟩

end Soi

end Gp2Firmware.Jpeg.Decoder
