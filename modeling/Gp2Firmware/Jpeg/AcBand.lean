import Gp2Firmware.Jpeg.Coefficients

/-!
# The band of an AC scan

A scan of AC coefficients is about those of its band.  Neither function compares the place of
a coefficient with the end of the band before it is stored, and a coefficient that is refined
can be the least number of 16 bits.
-/

namespace Gp2Firmware.Jpeg.Decoder

open Gp2Firmware.Lib (Achieves Ensures achieves_pure achieves_modify achieves_get_bind ensures_pure
  ensures_get_bind)
open Gp2Firmware.Lib.WordMemory Gp2Firmware.Jpeg.BitReader Gp2Firmware.Jpeg.HuffmanTable
  Gp2Firmware.Jpeg.Mcu

section Refinement

/-- What becomes of a coefficient with a bit. -/
def refineValue (low : Nat) (bit : U32) (value : U16) : U16 :=
  let p1 : U32 := 1 <<< low
  if value ≠ 0 ∧ bit ≠ 0 ∧ value.signExtend 32 &&& p1 = 0 then
    (if value.msb then value.signExtend 32 - p1 else value.signExtend 32 + p1).setWidth 16
  else
    value

/-- The coefficients from `k` on up to another one are refined, each with a bit. -/
structure Refreshed (low : Nat) (possible : U32 → Prop) (k upTo : Nat) (c after : Nat → U16) :
    Prop where
  within : ∀ j, k ≤ j → j < upTo → ∃ bit, possible bit ∧ after j = refineValue low bit (c j)
  without : ∀ j, j < k ∨ upTo ≤ j → after j = c j

variable {low k upTo : Nat} {possible : U32 → Prop} {c after last : Nat → U16}

theorem Refreshed.refl (le : upTo ≤ k) : Refreshed low possible k upTo c c :=
  ⟨by omega, fun _ _ => rfl⟩

/-- A coefficient and then those behind it. -/
theorem Refreshed.cons {bit : U32} (le : k + 1 ≤ upTo) (here : possible bit)
    (later : Refreshed low possible (k + 1) upTo
      (Function.update c k (refineValue low bit (c k))) after) :
    Refreshed low possible k upTo c after := by
  constructor
  · intro j from_ below
    rcases Nat.eq_or_lt_of_le from_ with same | behind
    · subst same
      refine ⟨bit, here, ?_⟩
      rw [later.without k (by omega), Function.update_self]
    · obtain ⟨other, there, refined⟩ := later.within j behind below
      refine ⟨other, there, ?_⟩
      rw [refined, Function.update_of_ne (by omega)]
  · intro j outside
    rw [later.without j (by omega), Function.update_of_ne (by omega)]

theorem refineValue_zero {bit : U32} : refineValue low bit 0 = 0 := by
  rw [refineValue, if_neg]
  intro changes
  exact changes.1 rfl

theorem update_refineValue_zero {bit : U32} (zero : c k = 0) :
    Function.update c k (refineValue low bit (c k)) = c := by
  rw [zero, refineValue_zero, ← zero, Function.update_eq_self]

variable {machine : Machine} {scan : AcScan} {p : Address} {reads : Reader → Prop}
  (undisturbed : Undisturbed machine.wait p reads)

include undisturbed

theorem achieves_refineCoef (inside : k < 64) (nonzero : c k ≠ 0) :
    Achieves (Holds scan p reads c) (refineCoef machine p k (c k)) fun _ s =>
      ∃ bit, Possible machine.wait reads 1 bit ∧
        Holds scan p reads (Function.update c k (refineValue scan.low bit (c k))) s := by
  unfold refineCoef
  refine (achieves_getBits undisturbed).bind ?_
  intro bit
  apply achieves_get_bind
  intro s ⟨possible, holds⟩
  dsimp only
  rw [holds.low]
  apply Achieves.at holds
  refine Achieves.ite ?_ ?_
  · intro changes
    refine (achieves_storeCoef undisturbed.block inside).imp (fun _ held => held) ?_
    intro _ t stored
    refine ⟨bit, possible, ?_⟩
    rw [refineValue, if_pos ⟨nonzero, changes⟩]
    exact stored
  · intro stays
    apply achieves_pure
    intro t held
    refine ⟨bit, possible, ?_⟩
    rw [refineValue, if_neg (fun changes => stays changes.2), Function.update_eq_self]
    exact held

section Loops

variable (ends : scan.last ≤ 63)

include ends

/-- The place where `refineRun` stops: a zero of the band, or behind the band. -/
structure StopsAt (scan : AcScan) (possible : U32 → Prop) (k stop : Nat)
    (c after : Nat → U16) : Prop where
  refreshed : Refreshed scan.low possible k stop c after
  from_ : k ≤ stop
  place : stop ≤ scan.last ∧ c stop = 0 ∨ stop = scan.last + 1

omit undisturbed ends in
theorem StopsAt.cons {possible : U32 → Prop} {stop : Nat} {bit : U32} (here : possible bit)
    (stops : StopsAt scan possible (k + 1) stop
      (Function.update c k (refineValue scan.low bit (c k))) after) :
    StopsAt scan possible k stop c after := by
  have later := stops.from_
  refine ⟨stops.refreshed.cons later here, by omega, ?_⟩
  rcases stops.place with ⟨before, zero⟩ | behind
  · rw [Function.update_of_ne (by omega)] at zero
    exact .inl ⟨before, zero⟩
  · exact .inr behind

theorem achieves_refineRun {turns r : Nat} (inside : k ≤ scan.last)
    (enough : scan.last < k + turns) :
    Achieves (Holds scan p reads c) (refineRun machine p turns r k) fun stop s =>
      ∃ after, Holds scan p reads after s ∧
        StopsAt scan (Possible machine.wait reads 1) k stop c after := by
  induction turns generalizing r k c with
  | zero => omega
  | succ turns inductionHypothesis =>
      rw [refineRun]
      refine (achieves_loadCoef (by omega)).bind ?_
      intro value
      apply Achieves.fact
      intro same
      subst same
      refine Achieves.ite ?_ ?_
      · intro nonzero
        refine (achieves_refineCoef undisturbed (by omega) nonzero).bind ?_
        intro _
        apply Achieves.some
        intro bit
        apply Achieves.fact
        intro possible
        apply achieves_get_bind
        intro s holds
        rw [holds.ends]
        apply Achieves.at holds
        refine Achieves.ite ?_ ?_
        · intro more
          refine (inductionHypothesis more (by omega)).imp (fun _ held => held) ?_
          intro stop t ⟨after, held, stops⟩
          exact ⟨after, held, stops.cons possible⟩
        · intro last
          apply achieves_pure
          intro t held
          exact ⟨_, held, StopsAt.cons possible ⟨.refl le_rfl, le_rfl, .inr (by omega)⟩⟩
      · intro zero
        refine Achieves.ite ?_ ?_
        · intro _
          apply achieves_pure
          intro t held
          exact ⟨c, held, .refl le_rfl, le_rfl, .inl ⟨inside, not_not.mp zero⟩⟩
        · intro _
          apply achieves_get_bind
          intro s holds
          have possible : Possible machine.wait reads 1 (getBits2 machine.wait 1 s.reader).1 :=
            ⟨s.reader, holds.reads, rfl⟩
          have same := @update_refineValue_zero scan.low k c (getBits2 machine.wait 1 s.reader).1
            (not_not.mp zero)
          rw [holds.ends]
          apply Achieves.at holds
          refine Achieves.ite ?_ ?_
          · intro more
            refine (inductionHypothesis more (by omega)).imp (fun _ held => held) ?_
            intro stop t ⟨after, held, stops⟩
            refine ⟨after, held, StopsAt.cons possible ?_⟩
            rw [same]
            exact stops
          · intro last
            apply achieves_pure
            intro t held
            refine ⟨c, held, StopsAt.cons possible ?_⟩
            rw [same]
            exact ⟨.refl le_rfl, le_rfl, .inr (by omega)⟩

/-- The rest of the band is refined. -/
theorem achieves_refineRest {turns : Nat} (enough : scan.last < k + turns) :
    Achieves (Holds scan p reads c) (refineRest machine p turns k) fun _ s =>
      ∃ after, Holds scan p reads after s ∧
        Refreshed scan.low (Possible machine.wait reads 1) k (scan.last + 1) c after := by
  induction turns generalizing k c with
  | zero =>
      apply achieves_pure
      intro s holds
      exact ⟨c, holds, .refl (by omega)⟩
  | succ turns inductionHypothesis =>
      rw [refineRest]
      apply achieves_get_bind
      intro s holds
      rw [holds.ends]
      apply Achieves.at holds
      refine Achieves.ite ?_ ?_
      · intro behind
        apply achieves_pure
        intro t held
        exact ⟨c, held, .refl (by omega)⟩
      · intro inside
        refine (achieves_loadCoef (by omega)).bind ?_
        intro value
        apply Achieves.fact
        intro same
        subst same
        refine Achieves.ite ?_ ?_
        · intro nonzero
          refine (achieves_refineCoef undisturbed (by omega) nonzero).bind ?_
          intro _
          apply Achieves.some
          intro bit
          apply Achieves.fact
          intro possible
          refine (inductionHypothesis (by omega)).imp (fun _ held => held) ?_
          intro _ t ⟨after, held, refreshed⟩
          exact ⟨after, held, refreshed.cons (by omega) possible⟩
        · intro zero
          have possible : Possible machine.wait reads 1 (getBits2 machine.wait 1 s.reader).1 :=
            ⟨s.reader, holds.reads, rfl⟩
          refine (inductionHypothesis (by omega)).imp (fun _ held => held) ?_
          intro _ t ⟨after, held, refreshed⟩
          refine ⟨after, held, Refreshed.cons (by omega) possible ?_⟩
          rw [update_refineValue_zero (not_not.mp zero)]
          exact refreshed

end Loops

end Refinement

section AcRefine

/-- The two values of a coefficient that becomes one. -/
def NewValue (low : Nat) (value : U16) : Prop :=
  value = (1 <<< low : U32).setWidth 16 ∨ value = (-(1 <<< low) : U32).setWidth 16

/-- What a scan can do to a coefficient of its band. -/
inductive CoefStep (low : Nat) (possible : U32 → Prop) (old : U16) : U16 → Prop where
  | same : CoefStep low possible old old
  | refined {bit : U32} : possible bit → CoefStep low possible old (refineValue low bit old)
  | new {value : U16} : old = 0 → NewValue low value → CoefStep low possible old value

/-- The places from `k` on up to another one are done with; there may be one behind the band
among them. -/
structure Passes (scan : AcScan) (possible : U32 → Prop) (k stop : Nat) (c after : Nat → U16) :
    Prop where
  le : k ≤ stop
  done : ∀ j, k ≤ j → j < stop → j ≤ scan.last → CoefStep scan.low possible (c j) (after j)
  rest : ∀ j, j < k ∨ stop ≤ j → after j = c j

/-- The state that is left, or the one in which the image is given up. -/
def Leaves (machine : Machine) (ok : Bool) (u t : State) : Prop :=
  if ok then t = u else terminate machine .decodeError u = some ((), t)

variable {machine : Machine} {scan : AcScan} {p : Address} {reads : Reader → Prop}
  {possible : U32 → Prop} {k stop : Nat} {c middle after : Nat → U16}

theorem Passes.refl : Passes scan possible k k c c :=
  ⟨le_rfl, by omega, fun _ _ => rfl⟩

theorem Passes.trans (first : Passes scan possible k stop c middle) {later : Nat}
    (second : Passes scan possible stop later middle after) :
    Passes scan possible k later c after := by
  have firstLe := first.le
  have secondLe := second.le
  refine ⟨by omega, ?_, ?_⟩
  · intro j from_ below inside
    rcases Nat.lt_or_ge j stop with before | behind
    · rw [second.rest j (.inl before)]
      exact first.done j from_ before inside
    · rw [← first.rest j (.inr behind)]
      exact second.done j behind below inside
  · intro j outside
    rw [second.rest j (by omega), first.rest j (by omega)]

theorem Refreshed.passes (le : k ≤ stop) (refreshed : Refreshed scan.low possible k stop c after) :
    Passes scan possible k stop c after := by
  refine ⟨le, ?_, refreshed.without⟩
  intro j from_ below _
  obtain ⟨bit, here, same⟩ := refreshed.within j from_ below
  rw [same]
  exact .refined here

/-- What the place behind a run holds then. -/
def putNew (c : Nat → U16) (k : Nat) (value : Option U32) : Nat → U16 :=
  match value with
  | some new => if k < 64 then Function.update c k (new.setWidth 16) else c
  | none => c

theorem StopsAt.passes (stops : StopsAt scan possible k stop c after) {value : Option U32}
    (isNew : ∀ new, value = some new → NewValue scan.low (new.setWidth 16)) :
    Passes scan possible k (stop + 1) c (putNew after stop value) := by
  have run := stops.refreshed.passes stops.from_
  have same : Passes scan possible stop (stop + 1) after after :=
    ⟨by omega, fun _ _ _ _ => .same, fun _ _ => rfl⟩
  apply run.trans
  cases value with
  | none => exact same
  | some new =>
      rw [putNew]
      split
      · refine ⟨by omega, ?_, ?_⟩
        · intro j from_ below inside
          rw [show j = stop by omega, Function.update_self]
          rcases stops.place with ⟨-, zero⟩ | behind
          · apply CoefStep.new _ (isNew new (Eq.refl _))
            rw [run.rest stop (.inr le_rfl), zero]
          · omega
        · intro j outside
          rw [Function.update_of_ne (by omega)]
      · exact same

variable (undisturbed : Undisturbed machine.wait p reads)

include undisturbed

theorem achieves_newCoef {s : Nat} :
    Achieves (Holds scan p reads c) (newCoef machine s) fun value t =>
      (s = 0 → value = none) ∧ (∀ new, value = some new → NewValue scan.low (new.setWidth 16)) ∧
        (s ≠ 0 → value.isSome = true) ∧ Holds scan p reads c t := by
  unfold newCoef
  refine Achieves.ite ?_ ?_
  · intro nonzero
    refine (achieves_getBits undisturbed).bind ?_
    intro bit
    apply Achieves.fact
    intro _
    apply achieves_get_bind
    intro t holds
    dsimp only
    rw [holds.low]
    apply Achieves.at holds
    apply achieves_pure
    intro u held
    refine ⟨fun none => absurd none nonzero, ?_, fun _ => rfl, held⟩
    intro new same
    cases same
    split
    · exact .inl rfl
    · exact .inr rfl
  · intro zero
    apply achieves_pure
    intro t held
    refine ⟨fun _ => rfl, ?_, fun nonzero => absurd nonzero zero, held⟩
    intro new same
    cases same

theorem achieves_storeNewCoef {value : Option U32} :
    Achieves (Holds scan p reads c) (storeNewCoef p k value) fun _ =>
      Holds scan p reads (putNew c k value) := by
  cases value with
  | none => exact achieves_pure fun _ held => held
  | some new =>
      rw [putNew]
      refine Achieves.ite ?_ ?_
      · intro inside
        rw [if_pos inside]
        exact achieves_storeCoef undisturbed.block inside
      · intro behind
        rw [if_neg behind]
        exact achieves_pure fun _ held => held

section Code

/-- A turn of `MDrv_JPEG_decode_block_ac_refine` with a run. -/
def refineStep (machine : Machine) (p : Address) (r s k : Nat) : Program State Nat := do
  let value ← newCoef machine s
  let k ← refineRun machine p 65 r k
  storeNewCoef p k value
  pure k

omit undisturbed in
theorem refineStep_bind {α : Type} {rest : Nat → Program State α} {r s : Nat} :
    (do
      let value ← newCoef machine s
      let k ← refineRun machine p 65 r k
      storeNewCoef p k value
      rest k) = refineStep machine p r s k >>= rest := by
  simp only [refineStep, bind_assoc, pure_bind]

variable (ends : scan.last ≤ 63)

/-- What `acRefine` comes to; behind an error the coefficients are those in front of it. -/
def RefinedUpTo (machine : Machine) (scan : AcScan) (p : Address) (reads : Reader → Prop)
    (k : Nat) (c : Nat → U16) (result : Option Nat) (t : State) : Prop :=
  ∃ u after stop, Leaves machine result.isSome u t ∧ (∀ next, result = some next → next = stop) ∧
    Holds scan p reads after u ∧ Passes scan (Possible machine.wait reads 1) k stop c after

omit undisturbed in
theorem RefinedUpTo.trans {result : Option Nat} {t : State}
    (first : Passes scan (Possible machine.wait reads 1) k stop c middle)
    (second : RefinedUpTo machine scan p reads stop middle result t) :
    RefinedUpTo machine scan p reads k c result t := by
  obtain ⟨u, after, last, leaves, same, holds, passes⟩ := second
  exact ⟨u, after, last, leaves, same, holds, first.trans passes⟩

omit undisturbed in
theorem ensures_some_refined :
    Ensures (Holds scan p reads c) (pure (some k) : Program State (Option Nat))
      (RefinedUpTo machine scan p reads k c) := by
  refine ensures_pure ?_
  intro t held
  refine ⟨t, c, k, rfl, ?_, held, .refl⟩
  intro next same
  exact (Option.some.inj same).symm

omit undisturbed in
theorem achieves_takeEobRun :
    Achieves (Holds scan p reads c) takeEobRun fun _ => Holds scan p reads c :=
  achieves_modify fun _ held => held.setEobRun

theorem achieves_startEobRun {r : Nat} :
    Achieves (Holds scan p reads c) (startEobRun machine r) fun _ => Holds scan p reads c := by
  have more : Achieves (Holds scan p reads c) (getRunBits machine r)
      fun _ => Holds scan p reads c := by
    refine Achieves.ite ?_ ?_
    · intro _
      exact (achieves_getBits undisturbed).imp (fun _ held => held) fun _ _ read => read.2
    · exact fun _ => achieves_pure fun _ held => held
  unfold startEobRun
  refine more.bind ?_
  intro bits
  exact achieves_modify fun _ held => held.setEobRun

include ends

/-- A turn with a run, and the place where this stops. -/
theorem achieves_refineStep {r s : Nat} (inside : k ≤ scan.last) :
    Achieves (Holds scan p reads c) (refineStep machine p r s k) fun stop t =>
      ∃ after value, (s ≠ 0 → value.isSome = true) ∧
        (∀ new, value = some new → NewValue scan.low (new.setWidth 16)) ∧
        StopsAt scan (Possible machine.wait reads 1) k stop c after ∧
        Holds scan p reads (putNew after stop value) t := by
  unfold refineStep
  refine (achieves_newCoef undisturbed).bind ?_
  intro value
  apply Achieves.fact
  intro _
  apply Achieves.fact
  intro isNew
  apply Achieves.fact
  intro isSome
  refine (achieves_refineRun undisturbed ends inside (by omega)).bind ?_
  intro stop
  apply Achieves.some
  intro after t ⟨held, stops⟩
  refine ((achieves_storeNewCoef undisturbed).bind ?_) t held
  intro _
  apply achieves_pure
  intro u stored
  exact ⟨after, value, isSome, isNew, stops, stored⟩

theorem ensures_acRefine {turns : Nat} :
    Ensures (Holds scan p reads c) (acRefine machine scan.componentId p turns k)
      (RefinedUpTo machine scan p reads k c) := by
  induction turns generalizing k c with
  | zero => exact ensures_some_refined
  | succ turns inductionHypothesis =>
      rw [acRefine]
      refine ensures_get_bind ?_
      intro s holds
      rw [holds.ends]
      refine Ensures.at holds ?_
      refine Ensures.ite (fun _ => ensures_some_refined) ?_
      intro inside
      refine ensures_get_bind ?_
      intro t held
      refine Ensures.bind (Ensures.at held (ensures_huffSymbol undisturbed)) ?_
      intro symbol
      dsimp only
      refine Ensures.ite ?_ ?_
      · intro bad u result v here ran
        obtain ⟨⟨_, w⟩, given, left⟩ := Option.bind_eq_some_iff.mp ran
        cases left
        refine ⟨u, c, k, given, ?_, here, .refl⟩
        intro next same
        cases same
      · intro good
        refine Ensures.ite ?_ ?_
        · intro _
          exact (achieves_startEobRun undisturbed).ensures.bind fun _ => ensures_some_refined
        · intro _
          rw [refineStep_bind]
          refine ((achieves_refineStep undisturbed ends (by omega)).ensures).bind ?_
          intro stop
          refine Ensures.some ?_
          intro after
          refine Ensures.some ?_
          intro value
          refine Ensures.fact ?_
          intro _
          refine Ensures.fact ?_
          intro isNew
          refine Ensures.fact ?_
          intro stops
          exact inductionHypothesis.imp (fun _ held => held)
            fun _ _ behind => behind.trans (stops.passes isNew)

/-- The rest of the band in a run of blocks. -/
theorem achieves_refineInRun :
    Achieves (Holds scan p reads c) (refineInRun machine p k) fun ok t => ok = true ∧
      ∃ after, Holds scan p reads after t ∧
        Passes scan (Possible machine.wait reads 1) k (max k (scan.last + 1)) c after := by
  have none : Passes scan (Possible machine.wait reads 1) k (max k (scan.last + 1)) c c :=
    ⟨le_max_left _ _, fun _ _ _ _ => .same, fun _ _ => rfl⟩
  unfold refineInRun
  apply achieves_get_bind
  intro s holds
  apply Achieves.at holds
  refine Achieves.ite ?_ ?_
  · intro _
    refine (achieves_refineRest undisturbed ends (by omega)).bind ?_
    intro _
    apply Achieves.some
    intro after t ⟨held, refreshed⟩
    refine (achieves_takeEobRun.bind ?_) t held
    intro _
    apply achieves_pure
    intro u stored
    refine ⟨Eq.refl true, after, stored, ?_⟩
    rcases Nat.lt_or_ge scan.last k with behind | inside
    · have same : after = c := by
        funext j
        exact refreshed.without j (by omega)
      rw [same]
      exact none
    · rw [Nat.max_eq_right (by omega)]
      exact refreshed.passes (by omega)
  · intro _
    apply achieves_pure
    intro t held
    exact ⟨Eq.refl true, c, held, none⟩

variable {blockX blockY : Nat}

/-- A scan at a block that is there. -/
structure AtBlock (machine : Machine) (scan : AcScan) (p : Address) (reads : Reader → Prop)
    (blockX blockY : Nat) (c : Nat → U16) (s : State) : Prop where
  holds : Holds scan p reads c s
  found : coeffBufGetp machine (s.acCoeffs scan.componentId) blockX blockY s = some (p, s)
  nonzero : p ≠ 0

omit undisturbed ends in
theorem AtBlock.achieves_coeffBufGetp {s : State}
    (here : AtBlock machine scan p reads blockX blockY c s) :
    Achieves (· = s) (coeffBufGetp machine (s.acCoeffs scan.componentId) blockX blockY)
      fun place t => place = p ∧ t = s := by
  intro t same
  subst same
  exact ⟨p, t, here.found, Eq.refl p, Eq.refl t⟩

theorem ensures_decodeBlockAcRefine :
    Ensures (AtBlock machine scan p reads blockX blockY c)
      (decodeBlockAcRefine machine scan.componentId blockX blockY) fun ok t =>
        ∃ u after stop, Leaves machine ok u t ∧ Holds scan p reads after u ∧
          Passes scan (Possible machine.wait reads 1) scan.first stop c after := by
  have inRun : ∀ {k c}, Ensures (Holds scan p reads c) (refineInRun machine p k) fun ok t =>
      ∃ u after stop, Leaves machine ok u t ∧ Holds scan p reads after u ∧
        Passes scan (Possible machine.wait reads 1) k stop c after := by
    intro k c
    refine (achieves_refineInRun undisturbed ends).ensures.imp (fun _ held => held) ?_
    intro ok t ⟨same, after, held, passes⟩
    subst same
    exact ⟨t, after, _, Eq.refl t, held, passes⟩
  unfold decodeBlockAcRefine
  refine ensures_get_bind ?_
  intro s here
  refine here.achieves_coeffBufGetp.ensures.bind ?_
  intro place
  refine Ensures.fact ?_
  intro same
  subst same
  refine Ensures.ite (fun zero => absurd zero here.nonzero) ?_
  intro _
  refine ensures_get_bind ?_
  intro t same
  subst same
  rw [here.holds.start]
  dsimp only
  refine ensures_get_bind ?_
  intro u same
  subst same
  refine Ensures.ite ?_ ?_
  · intro _
    refine Ensures.bind (Ensures.at here.holds (ensures_acRefine undisturbed ends)) ?_
    intro result v ok t ⟨w, after, stop, leaves, same, holds, passes⟩ ran
    cases result with
    | none =>
        cases ran
        exact ⟨w, after, stop, leaves, holds, passes⟩
    | some next =>
        have there := same next (Eq.refl _)
        subst there
        have left : v = w := leaves
        subst left
        obtain ⟨x, last, later, gone, held, more⟩ := inRun v ok t holds ran
        exact ⟨x, last, later, gone, held, passes.trans more⟩
  · intro _
    exact Ensures.at here.holds inRun

end Code

end AcRefine

section AcFirst

variable {machine : Machine} {scan : AcScan} {p : Address} {reads : Reader → Prop}
  {blockX blockY k : Nat} {c : Nat → U16} {s : State}
  (undisturbed : Undisturbed machine.wait p reads)

/-- What a scan of first bits comes to: nothing in front of the band is changed. -/
def FilledFrom (machine : Machine) (scan : AcScan) (p : Address) (reads : Reader → Prop)
    (k : Nat) (c : Nat → U16) (ok : Bool) (t : State) : Prop :=
  ∃ u after, Leaves machine ok u t ∧ Holds scan p reads after u ∧ ∀ j < k, after j = c j

theorem ensures_true_filled :
    Ensures (Holds scan p reads c) (pure true : Program State Bool)
      (FilledFrom machine scan p reads k c) := by
  refine ensures_pure ?_
  intro t held
  exact ⟨t, c, rfl, held, fun _ _ => rfl⟩

theorem ensures_fail_filled :
    Ensures (Holds scan p reads c) (fail machine .decodeError)
      (FilledFrom machine scan p reads k c) := by
  intro t ok u held ran
  obtain ⟨⟨_, v⟩, given, left⟩ := Option.bind_eq_some_iff.mp ran
  cases left
  exact ⟨t, c, given, held, fun _ _ => rfl⟩

include undisturbed

theorem achieves_getExtended {size : Nat} :
    Achieves (Holds scan p reads c) (getExtended machine size) fun _ => Holds scan p reads c := by
  unfold getExtended
  refine Achieves.ite ?_ ?_
  · intro _
    refine (achieves_getBits undisturbed).bind ?_
    intro bits
    exact achieves_pure fun _ read => read.2
  · exact fun _ => achieves_pure fun _ held => held

theorem ensures_acFirst {turns : Nat} :
    Ensures (Holds scan p reads c) (acFirst machine scan.componentId p turns k)
      (FilledFrom machine scan p reads k c) := by
  induction turns generalizing k c with
  | zero => exact ensures_true_filled
  | succ turns inductionHypothesis =>
      have later : ∀ {from_ : Nat} {middle : Nat → U16}, k ≤ from_ → (∀ j < k, middle j = c j) →
          Ensures (Holds scan p reads middle) (acFirst machine scan.componentId p turns from_)
            (FilledFrom machine scan p reads k c) := by
        intro from_ middle le same
        refine inductionHypothesis.imp (fun _ held => held) ?_
        intro ok t ⟨u, after, leaves, held, kept⟩
        refine ⟨u, after, leaves, held, ?_⟩
        intro j before
        rw [kept j (by omega), same j before]
      rw [acFirst]
      refine ensures_get_bind ?_
      intro s holds
      rw [holds.ends]
      refine Ensures.at holds ?_
      refine Ensures.ite (fun _ => ensures_true_filled) ?_
      intro inside
      refine ensures_get_bind ?_
      intro t held
      refine Ensures.bind (Ensures.at held (ensures_huffSymbol undisturbed)) ?_
      intro symbol
      dsimp only
      refine Ensures.ite ?_ ?_
      · intro _
        refine Ensures.ite (fun _ => ensures_fail_filled) ?_
        intro fits
        refine (achieves_getExtended undisturbed).ensures.bind ?_
        intro value
        refine ensures_get_bind ?_
        intro u found
        refine Ensures.bind (Ensures.at found
          (achieves_storeCoef undisturbed.block (by omega)).ensures) ?_
        intro _
        refine later (by omega) ?_
        intro j before
        rw [Function.update_of_ne (by omega)]
      · intro _
        refine Ensures.ite ?_ ?_
        · intro _
          refine Ensures.ite (fun _ => ensures_fail_filled) ?_
          intro _
          exact later (by omega) fun _ _ => rfl
        · intro _
          refine (achieves_startEobRun undisturbed).ensures.bind ?_
          intro _
          refine achieves_takeEobRun.ensures.bind ?_
          intro _
          exact ensures_true_filled

theorem ensures_decodeBlockAcFirst :
    Ensures (AtBlock machine scan p reads blockX blockY c)
      (decodeBlockAcFirst machine scan.componentId blockX blockY)
      (FilledFrom machine scan p reads scan.first c) := by
  unfold decodeBlockAcFirst
  refine ensures_get_bind ?_
  intro s here
  refine Ensures.ite ?_ ?_
  · intro _
    refine Ensures.at here.holds ?_
    refine achieves_takeEobRun.ensures.bind ?_
    intro _
    exact ensures_true_filled
  · intro _
    refine ensures_get_bind ?_
    intro t same
    subst same
    refine here.achieves_coeffBufGetp.ensures.bind ?_
    intro place
    refine Ensures.fact ?_
    intro same
    subst same
    refine Ensures.ite (fun zero => absurd zero here.nonzero) ?_
    intro _
    refine ensures_get_bind ?_
    intro u same
    subst same
    rw [here.holds.start]
    exact Ensures.at here.holds (ensures_acFirst undisturbed)

end AcFirst

end Gp2Firmware.Jpeg.Decoder
