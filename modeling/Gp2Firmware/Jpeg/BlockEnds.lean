import Gp2Firmware.Jpeg.DcSizes
import Gp2Firmware.Jpeg.HeaderChars
import Gp2Firmware.Jpeg.TreeDescent

/-!
# The end of a block

The decoding of a block comes to its end, or finds an error, whatever the stream has: each turn
through the coefficients comes to a later one, and each way through a tree ends.
-/

namespace Gp2Firmware.Jpeg.Decoder

open Gp2Firmware.Lib (Achieves achieves_pure achieves_modify achieves_get_bind)
open Gp2Firmware.Lib.WordMemory Gp2Firmware.Jpeg.BitReader Gp2Firmware.Jpeg.HuffmanTable
  Gp2Firmware.Jpeg.Mcu

section Scanning

/-- A state that the decoder gets to from `s` in a scan with the header and the tables of `v`. -/
structure Scanning (machine : Machine) (s v t : State) : Prop where
  reads : ∃ n, Reads machine s n t
  huffTbls : t.huffTbls = v.huffTbls
  compDcTab : t.compDcTab = v.compDcTab
  compAcTab : t.compAcTab = v.compAcTab
  spectralEnd : t.spectralEnd = v.spectralEnd

/-- A part of the decoder comes to its end wherever the scan gets to, and is a part of it. -/
def Scans {α : Type} (machine : Machine) (s v : State) (m : Program State α) : Prop :=
  Achieves (Scanning machine s v) m fun _ => Scanning machine s v

variable {α β : Type} {machine : Machine} {s v t u : State} {m other : Program State α} {n : Nat}

theorem Reads.coeffs (reads : Reads machine s n t) :
    t.dcCoeffs = s.dcCoeffs ∧ t.acCoeffs = s.acCoeffs := by
  induction reads with
  | start => exact ⟨rfl, rfl⟩
  | takes _ _ inductionHypothesis => exact inductionHypothesis
  | changes _ same inductionHypothesis =>
      exact ⟨same.dcCoeffs.trans inductionHypothesis.1, same.acCoeffs.trans inductionHypothesis.2⟩
  | exifByte _ _ _ inductionHypothesis => exact inductionHypothesis
  | @exif n t length _ _ inductionHypothesis =>
      have same : (decodeExif length t).dcCoeffs = t.dcCoeffs ∧
          (decodeExif length t).acCoeffs = t.acCoeffs := by
        rw [decodeExif]
        dsimp only
        split
        · exact ⟨rfl, rfl⟩
        · exact ⟨rfl, rfl⟩
      exact ⟨same.1.trans inductionHypothesis.1, same.2.trans inductionHypothesis.2⟩
  | coef _ _ _ _ inductionHypothesis => exact inductionHypothesis
  | @handled n t u status _ handled inductionHypothesis =>
      have only := onlyPool_of_terminate handled
      rw [OnlyPool] at only
      have same : u.dcCoeffs = t.dcCoeffs ∧ u.acCoeffs = t.acCoeffs := by
        rw [only]
        exact ⟨rfl, rfl⟩
      exact ⟨same.1.trans inductionHypothesis.1, same.2.trans inductionHypothesis.2⟩

theorem Scanning.dcCoeffs (scanning : Scanning machine s v t) : t.dcCoeffs = s.dcCoeffs := by
  obtain ⟨n, reads⟩ := scanning.reads
  exact reads.coeffs.1

theorem Scanning.acCoeffs (scanning : Scanning machine s v t) : t.acCoeffs = s.acCoeffs := by
  obtain ⟨n, reads⟩ := scanning.reads
  exact reads.coeffs.2

/-- Some bits or characters are taken. -/
theorem Scanning.takes (scanning : Scanning machine s v t) {r : Reader}
    (takes : Takes machine.wait t.reader n r) : Scanning machine s v { t with reader := r } := by
  obtain ⟨before, reads⟩ := scanning.reads
  exact ⟨⟨before + n, reads.takes takes⟩, scanning.huffTbls, scanning.compDcTab,
    scanning.compAcTab, scanning.spectralEnd⟩

theorem scans_pure {a : α} : Scans machine s v (pure a) :=
  achieves_pure fun _ scanning => scanning

theorem Scans.bind {rest : α → Program State β} (first : Scans machine s v m)
    (later : ∀ a, Scans machine s v (rest a)) : Scans machine s v (m >>= rest) :=
  Achieves.bind first later

theorem scans_get_bind {rest : State → Program State β}
    (later : ∀ t, Scanning machine s v t → Scans machine s v (rest t)) :
    Scans machine s v (get >>= rest) :=
  achieves_get_bind fun t scanning => Achieves.at scanning (later t scanning)

theorem scans_modify {change : State → State} (same : ∀ t, SameStream t (change t))
    (kept : ∀ t, (change t).huffTbls = t.huffTbls ∧ (change t).compDcTab = t.compDcTab ∧
      (change t).compAcTab = t.compAcTab ∧ (change t).spectralEnd = t.spectralEnd) :
    Scans machine s v (modify change) := by
  apply achieves_modify
  intro t scanning
  obtain ⟨n, reads⟩ := scanning.reads
  obtain ⟨huffTbls, compDcTab, compAcTab, spectralEnd⟩ := kept t
  exact ⟨⟨n, reads.changes (same t)⟩, huffTbls.trans scanning.huffTbls,
    compDcTab.trans scanning.compDcTab, compAcTab.trans scanning.compAcTab,
    spectralEnd.trans scanning.spectralEnd⟩

theorem scans_getChar : Scans machine s v (getChar machine) :=
  fun _ scanning => ⟨_, _, rfl, scanning.takes Takes.start.char⟩

theorem scans_getBits {numbits : Nat} : Scans machine s v (getBits machine numbits) :=
  fun _ scanning => ⟨_, _, rfl, scanning.takes Takes.start.bits⟩

variable (intact : Intact machine s)

include intact

/-- All blocks are freed, and the scan is left behind that. -/
theorem scans_terminate {status : JpegError} : Scans machine s v (terminate machine status) := by
  intro t scanning
  obtain ⟨n, reads⟩ := scanning.reads
  obtain ⟨u, handled, readsThen⟩ := intact.terminate reads status
  have only := onlyPool_of_terminate handled
  rw [OnlyPool] at only
  refine ⟨(), u, handled, ⟨n, readsThen⟩, ?_, ?_, ?_, ?_⟩
  · rw [only]
    exact scanning.huffTbls
  · rw [only]
    exact scanning.compDcTab
  · rw [only]
    exact scanning.compAcTab
  · rw [only]
    exact scanning.spectralEnd

theorem scans_fail {status : JpegError} : Scans machine s v (fail machine status) :=
  (scans_terminate intact).bind fun _ => scans_pure

end Scanning

section Parts

variable {machine : Machine} {s v t : State} {k : Nat} {p : Address}

/-- A coefficient of a block that the scan has found. -/
def Known (machine : Machine) (s : State) (p : Address) (k : Nat) : Prop :=
  ∃ n u, Reads machine s n u ∧ IsCoef machine u p k

theorem Scanning.known_dc {c blockX blockY : Nat} (scanning : Scanning machine s v t)
    (nonzero : p ≠ 0)
    (found : coeffBufGetp machine (s.dcCoeffs c) blockX blockY t = some (p, t)) :
    Known machine s p 0 := by
  obtain ⟨n, reads⟩ := scanning.reads
  rw [← scanning.dcCoeffs] at found
  exact ⟨n, t, reads, nonzero, c, blockX, blockY, .inl ⟨rfl, found⟩⟩

theorem Scanning.known_ac {c blockX blockY : Nat} (scanning : Scanning machine s v t)
    (nonzero : p ≠ 0)
    (found : coeffBufGetp machine (s.acCoeffs c) blockX blockY t = some (p, t)) (k : Nat)
    (inside : k < 64) : Known machine s p k := by
  obtain ⟨n, reads⟩ := scanning.reads
  rw [← scanning.acCoeffs] at found
  exact ⟨n, t, reads, nonzero, c, blockX, blockY, .inr ⟨inside, found⟩⟩

theorem scans_storeCoef {value : U32} (known : Known machine s p k) :
    Scans machine s v (storeCoef p k value) := by
  intro t scanning
  obtain ⟨n, reads⟩ := scanning.reads
  obtain ⟨earlier, u, readsBefore, isCoef⟩ := known
  exact ⟨(), _, rfl, ⟨n, .coef readsBefore isCoef reads⟩, scanning.huffTbls, scanning.compDcTab,
    scanning.compAcTab, scanning.spectralEnd⟩

theorem scans_loadCoef : Scans machine s v (loadCoef p k) :=
  scans_get_bind fun _ _ => scans_pure

theorem scans_takeEobRun : Scans machine s v takeEobRun :=
  scans_modify (fun _ => ⟨rfl, rfl, rfl, rfl, rfl, rfl⟩) fun _ => ⟨rfl, rfl, rfl, rfl⟩

theorem scans_startEobRun {r : Nat} : Scans machine s v (startEobRun machine r) := by
  have bits : Scans machine s v (getRunBits machine r) := by
    unfold getRunBits
    split
    · exact scans_getBits
    · exact scans_pure
  apply bits.bind
  intro _
  exact scans_modify (fun _ => ⟨rfl, rfl, rfl, rfl, rfl, rfl⟩) fun _ => ⟨rfl, rfl, rfl, rfl⟩

theorem scans_getExtended {count : Nat} : Scans machine s v (getExtended machine count) := by
  unfold getExtended
  split
  · exact scans_getBits.bind fun _ => scans_pure
  · exact scans_pure

theorem scans_newCoef {count : Nat} : Scans machine s v (newCoef machine count) := by
  unfold newCoef
  split
  · exact scans_getBits.bind fun _ => scans_get_bind fun _ _ => scans_pure
  · exact scans_pure

theorem scans_refineCoef {value : U16} (known : Known machine s p k) :
    Scans machine s v (refineCoef machine p k value) := by
  unfold refineCoef
  apply scans_getBits.bind
  intro bit
  apply scans_get_bind
  intro t _
  dsimp only
  split
  · exact scans_storeCoef known
  · exact scans_pure

theorem scans_storeNewCoef {value : Option U32} (known : k < 64 → Known machine s p k) :
    Scans machine s v (storeNewCoef p k value) := by
  unfold storeNewCoef
  split
  · split
    · rename_i inside
      exact scans_storeCoef (known inside)
    · exact scans_pure
  · exact scans_pure

theorem takes_huffDecode {wait : Wait} {tables : HuffTables} {r after : Reader} {symbol : Int}
    (decodes : huffDecode wait tables r = some (symbol, after)) : Takes wait r 0 after := by
  rw [huffDecode] at decodes
  split at decodes
  · have goes : ∀ {turn next : Int × Reader}, Takes wait r 0 turn.2 →
        huffTurn wait tables turn = .inl next → Takes wait r 0 next.2 := by
      intro turn next takes ran
      rw [huffTurn] at ran
      dsimp only at ran
      split at ran
      · cases ran
        exact takes.bits
      · cases ran
    obtain ⟨last, takes, leaves⟩ := Lib.Loop.returns_rule goes Takes.start.bits ⟨_, decodes⟩
    rw [huffTurn] at leaves
    dsimp only at leaves
    split at leaves
    · cases leaves
    · cases leaves
      exact takes.bits
  · cases decodes
    exact Takes.start.bits

/-- The table of a symbol has been made. -/
def Made (s : State) (index : Nat) : Prop :=
  ∃ next, Descends (s.huffTbls index, next)

theorem scans_huffSymbol {index : Nat} (made : Made v index) :
    Scans machine s v (huffSymbol machine index) := by
  intro t scanning
  obtain ⟨next, descends⟩ := made
  rw [← scanning.huffTbls] at descends
  obtain ⟨⟨symbol, r⟩, decodes⟩ := @huffDecode_ends machine.wait _ t.reader descends
  refine ⟨symbol, { t with reader := r }, ?_, ?_⟩
  · rw [huffSymbol, decodes]
    rfl
  · exact scanning.takes (takes_huffDecode decodes)

variable {blockX blockY : Nat} {cb : Address} (intact : Intact machine s)

include intact

theorem scans_coeffBufGetp (nonzero : cb ≠ 0) :
    Scans machine s v (coeffBufGetp machine cb blockX blockY) := by
  have denied : Scans machine s v (do
      terminate machine .assertionError
      pure (0 : Address)) :=
    (scans_terminate intact).bind fun _ => scans_pure
  unfold coeffBufGetp
  apply scans_get_bind
  intro t _
  dsimp only
  refine Achieves.ite (fun zero => absurd zero nonzero) ?_
  intro _
  refine Achieves.ite (fun _ => denied) ?_
  intro _
  exact Achieves.ite (fun _ => denied) fun _ => scans_pure

/-- A block of a buffer, or an error. -/
theorem scans_getp (nonzero : cb ≠ 0) {rest : Address → Program State Bool}
    (later : ∀ p u, p ≠ 0 → Scanning machine s v u →
      coeffBufGetp machine cb blockX blockY u = some (p, u) → Scans machine s v (rest p)) :
    Scans machine s v (do
      let p ← coeffBufGetp machine cb blockX blockY
      if p = 0 then
        pure false
      else
        rest p) := by
  intro t scanning
  obtain ⟨p, u, ran, scanningThen⟩ := @scans_coeffBufGetp _ _ v blockX blockY _ intact nonzero t
    scanning
  change ∃ ok w, (coeffBufGetp machine cb blockX blockY t).bind _ = some (ok, w) ∧ _
  rw [ran]
  change ∃ ok w, (if p = 0 then pure false else rest p : Program State Bool) u = some (ok, w) ∧
    Scanning machine s v w
  by_cases none : p = 0
  · rw [if_pos none]
    exact ⟨false, u, rfl, scanningThen⟩
  · rw [if_neg none]
    have same := coeffBufGetp_found t p u rfl ran none
    rw [same] at ran ⊢
    exact later p t none scanning ran t scanning

end Parts

section Blocks

variable {machine : Machine} {s v : State} {c blockX blockY turns r k : Nat} {p : Address}

/-- The turns of a run of zeroes stay inside of the block. -/
theorem scans_refineRun (known : ∀ k < 64, Known machine s p k) (last : v.spectralEnd ≤ 63)
    (inside : k < 64) : Scans machine s v (refineRun machine p turns r k) := by
  induction turns generalizing r k with
  | zero => exact scans_pure
  | succ turns inductionHypothesis =>
      have goes : ∀ r, Scans machine s v (do
          if k + 1 ≤ (← get).spectralEnd then
            refineRun machine p turns r (k + 1)
          else
            pure (k + 1)) := by
        intro r
        apply scans_get_bind
        intro t scanning
        have same := scanning.spectralEnd
        refine Achieves.ite ?_ (fun _ => scans_pure)
        exact fun more => inductionHypothesis (show k + 1 < 64 by omega)
      unfold refineRun
      apply scans_loadCoef.bind
      intro value
      refine Achieves.ite ?_ ?_
      · exact fun _ => (scans_refineCoef (known k inside)).bind fun _ => goes r
      · exact fun _ => Achieves.ite (fun _ => scans_pure) fun _ => goes (r - 1)

theorem scans_refineRest (known : ∀ k < 64, Known machine s p k) (last : v.spectralEnd ≤ 63) :
    Scans machine s v (refineRest machine p turns k) := by
  induction turns generalizing k with
  | zero => exact scans_pure
  | succ turns inductionHypothesis =>
      unfold refineRest
      apply scans_get_bind
      intro t scanning
      have same := scanning.spectralEnd
      refine Achieves.ite (fun _ => scans_pure) ?_
      intro more
      apply scans_loadCoef.bind
      intro value
      refine Achieves.ite ?_ (fun _ => inductionHypothesis)
      intro _
      exact (scans_refineCoef (known k (by omega))).bind fun _ => inductionHypothesis

theorem scans_refineInRun (known : ∀ k < 64, Known machine s p k) (last : v.spectralEnd ≤ 63) :
    Scans machine s v (refineInRun machine p k) := by
  apply scans_get_bind
  intro t _
  refine Achieves.ite ?_ (fun _ => scans_pure)
  intro _
  exact (scans_refineRest known last).bind fun _ => scans_takeEobRun.bind fun _ => scans_pure

variable (intact : Intact machine s)

include intact

theorem scans_acFirst (known : ∀ k < 64, Known machine s p k) (made : Made v (v.compAcTab c)) :
    Scans machine s v (acFirst machine c p turns k) := by
  induction turns generalizing k with
  | zero => exact scans_pure
  | succ turns inductionHypothesis =>
      unfold acFirst
      apply scans_get_bind
      intro t scanning
      refine Achieves.ite (fun _ => scans_pure) ?_
      intro _
      apply scans_get_bind
      intro u scanningThen
      rw [scanningThen.compAcTab]
      apply (scans_huffSymbol made).bind
      intro symbol
      dsimp only
      refine Achieves.ite ?_ ?_
      · intro _
        refine Achieves.ite (fun _ => scans_fail intact) ?_
        intro inside
        apply scans_getExtended.bind
        intro value
        apply scans_get_bind
        intro w _
        exact (scans_storeCoef (known _ (by omega))).bind fun _ => inductionHypothesis
      · intro _
        refine Achieves.ite ?_ ?_
        · exact fun _ => Achieves.ite (fun _ => scans_fail intact) fun _ => inductionHypothesis
        · exact fun _ => scans_startEobRun.bind fun _ => scans_takeEobRun.bind fun _ => scans_pure

theorem scans_acRefine (known : ∀ k < 64, Known machine s p k) (last : v.spectralEnd ≤ 63)
    (made : Made v (v.compAcTab c)) : Scans machine s v (acRefine machine c p turns k) := by
  induction turns generalizing k with
  | zero => exact scans_pure
  | succ turns inductionHypothesis =>
      unfold acRefine
      apply scans_get_bind
      intro t scanning
      have same := scanning.spectralEnd
      refine Achieves.ite (fun _ => scans_pure) ?_
      intro inside
      apply scans_get_bind
      intro u scanningThen
      rw [scanningThen.compAcTab]
      apply (scans_huffSymbol made).bind
      intro symbol
      dsimp only
      refine Achieves.ite ?_ ?_
      · exact fun _ => (scans_terminate intact).bind fun _ => scans_pure
      · intro _
        refine Achieves.ite ?_ ?_
        · exact fun _ => scans_startEobRun.bind fun _ => scans_pure
        · intro _
          apply scans_newCoef.bind
          intro value
          apply (scans_refineRun known last (by omega)).bind
          intro behind
          exact (scans_storeNewCoef (known behind)).bind fun _ => inductionHypothesis

theorem scans_decodeBlockDcFirst (opened : s.dcCoeffs c ≠ 0) (made : Made v (v.compDcTab c)) :
    Scans machine s v (decodeBlockDcFirst machine c blockX blockY) := by
  apply scans_get_bind
  intro t scanning
  rw [scanning.dcCoeffs]
  apply scans_getp intact opened
  intro p u nonzero scanningThen found
  apply scans_get_bind
  intro w scanningLast
  rw [scanningLast.compDcTab]
  apply (scans_huffSymbol made).bind
  intro symbol
  apply scans_getExtended.bind
  intro difference
  apply scans_get_bind
  intro st _
  refine Scans.bind ?_ ?_
  · exact scans_modify (fun _ => ⟨rfl, rfl, rfl, rfl, rfl, rfl⟩) fun _ => ⟨rfl, rfl, rfl, rfl⟩
  intro _
  exact (scans_storeCoef (scanningThen.known_dc nonzero found)).bind fun _ => scans_pure

theorem scans_decodeBlockDcRefine (opened : s.dcCoeffs c ≠ 0) :
    Scans machine s v (decodeBlockDcRefine machine c blockX blockY) := by
  apply scans_getBits.bind
  intro bit
  refine Achieves.ite ?_ (fun _ => scans_pure)
  intro _
  apply scans_get_bind
  intro t scanning
  rw [scanning.dcCoeffs]
  apply scans_getp intact opened
  intro p u nonzero scanningThen found
  apply scans_loadCoef.bind
  intro value
  apply scans_get_bind
  intro w _
  exact (scans_storeCoef (scanningThen.known_dc nonzero found)).bind fun _ => scans_pure

theorem scans_decodeBlockAcFirst (opened : s.acCoeffs c ≠ 0) (made : Made v (v.compAcTab c)) :
    Scans machine s v (decodeBlockAcFirst machine c blockX blockY) := by
  apply scans_get_bind
  intro t _
  refine Achieves.ite ?_ ?_
  · exact fun _ => scans_takeEobRun.bind fun _ => scans_pure
  · intro _
    apply scans_get_bind
    intro u scanning
    rw [scanning.acCoeffs]
    apply scans_getp intact opened
    intro p w nonzero scanningThen found
    apply scans_get_bind
    intro x _
    exact scans_acFirst intact (scanningThen.known_ac nonzero found) made

theorem scans_decodeBlockAcRefine (opened : s.acCoeffs c ≠ 0) (last : v.spectralEnd ≤ 63)
    (made : Made v (v.compAcTab c)) :
    Scans machine s v (decodeBlockAcRefine machine c blockX blockY) := by
  apply scans_get_bind
  intro t scanning
  rw [scanning.acCoeffs]
  apply scans_getp intact opened
  intro p u nonzero scanningThen found
  have known := scanningThen.known_ac nonzero found
  apply scans_get_bind
  intro w _
  apply scans_get_bind
  intro x _
  refine Achieves.ite ?_ (fun _ => scans_refineInRun known last)
  intro _
  apply (scans_acRefine intact known last made).bind
  intro k
  cases k with
  | none => exact scans_pure
  | some k => exact scans_refineInRun known last

end Blocks

end Gp2Firmware.Jpeg.Decoder
