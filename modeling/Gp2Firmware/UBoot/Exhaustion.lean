import Gp2Firmware.UBoot.CountLaw

/-!
# When the reserve blocks run out

`nand_bbm_assign_block` clears `nand_bbm_check` while it looks for a reserve
block and sets it again only on the exit that has found one.  The redirects of
all other blocks stay in the map; whether they are looked up hangs on the flag.
-/

namespace Gp2Firmware.UBoot

open Gp2Firmware.Nand

/-- A good reserve block is left for the call. -/
def AssignSite.HasReserve (g : Geometry) (site : AssignSite) : Prop :=
  ∃ index, g.redirFloor < index ∧ index ≤ site.bbm.assignIndex ∧
    site.blockBad (g.blockPos index) = false

/-- The call leaves the translation on, gives the position back if it finds no reserve
block, and every redirect recorded earlier in force; when it does find one, it may move
the block that it is called for. -/
structure AssignSite.Contained (g : Geometry) (site : AssignSite) : Prop where
  check : (nandBbmAssignBlock g site.blockBad site.bbm site.badpos).2.nandBbmCheck = true
  gives : ¬ site.HasReserve g →
    (nandBbmAssignBlock g site.blockBad site.bbm site.badpos).1 = site.badpos
  inForce : ∀ ofs, site.bbm.flagged (g.blockIndex ofs) = true →
    (g.blockIndex ofs ≠ g.blockIndex site.badpos ∨ ¬ site.HasReserve g) →
      nandBbmAdjust g (nandBbmAssignBlock g site.blockBad site.bbm site.badpos).2 ofs =
        nandBbmAdjust g site.bbm ofs

variable {g : Geometry}

theorem hasReserve_iff {site : AssignSite} :
    site.HasReserve g ↔ reserveFor g site.blockBad site.bbm.assignIndex ≠ none := by
  rw [Ne, reserveFor_eq_none_iff, AssignSite.HasReserve]
  simp only [not_forall, Bool.not_eq_true]
  constructor
  · intro ⟨index, above, below, good⟩
    exact ⟨index, above, below, good⟩
  · intro ⟨index, above, below, good⟩
    exact ⟨index, above, below, good⟩

/-- A redirect of another block is kept. -/
theorem target_assigned_of_ne (s : Bbm) {bad other : Nat} (reserve : Nat)
    (different : other ≠ bad) : (s.assigned bad reserve).target other = s.target other := by
  have skipped := s.target_skipTo reserve other
  simp only [Bbm.target] at skipped ⊢
  simp only [Bbm.assigned, Bbm.record]
  by_cases here : other = reserve
  · subst here
    rw [Function.update_self, indexOf_or_bbmRedirMask, Function.update_of_ne different,
      skipped]
  · rw [Function.update_of_ne here, Function.update_of_ne different, skipped]

/-- What a call that finds a reserve block keeps of a redirect of another block. -/
theorem keeps_assigned (s : Bbm) {bad other : Nat} (reserve : Nat) (different : other ≠ bad)
    (flagged : s.flagged other = true) :
    ((s.assigned bad reserve).setCheck true).flagged other = true ∧
      ((s.assigned bad reserve).setCheck true).target other = s.target other := by
  rw [Bbm.flagged_setCheck, Bbm.target_setCheck, Bbm.flagged_assigned, flagged,
    target_assigned_of_ne s reserve different]
  simp

/-- The lookup of a redirected block while the translation is on. -/
theorem nandBbmAdjust_of_flagged {s : Bbm} {ofs : Nat} (check : s.nandBbmCheck = true)
    (flagged : s.flagged (g.blockIndex ofs) = true) :
    nandBbmAdjust g s ofs =
      (g.blockPos (s.target (g.blockIndex ofs)) ||| (ofs &&& (g.erasesize - 1))) := by
  rw [nandBbmAdjust, check, flagged]
  rfl

theorem contained_iff_hasReserve {site : AssignSite} (on : site.bbm.nandBbmCheck = true) :
    site.Contained g ↔ site.HasReserve g := by
  cases found : reserveFor g site.blockBad site.bbm.assignIndex with
  | none =>
      have exhausted : ¬ site.HasReserve g := by
        rw [hasReserve_iff, found]
        exact fun some => some rfl
      constructor
      · intro contained
        have check := contained.check
        rw [nandBbmAssignBlock_of_none found] at check
        exact absurd check (by simp)
      · exact fun some => absurd some exhausted
  | some reserve =>
      have reserved : site.HasReserve g := by
        rw [hasReserve_iff, found]
        simp
      refine ⟨fun _ => reserved, fun _ => ?_⟩
      constructor
      · rw [nandBbmAssignBlock_of_some found]
        rfl
      · exact fun none => absurd reserved none
      · intro ofs flagged other
        have different := other.resolve_right fun none => none reserved
        have kept := keeps_assigned site.bbm reserve different flagged
        rw [nandBbmAssignBlock_of_some found]
        rw [nandBbmAdjust_of_flagged on flagged, nandBbmAdjust_of_flagged rfl kept.1, kept.2]

/-! ### Runs -/

/-- What calls that find a reserve block keep: the translation is on at each of them and
behind them, and the redirects of blocks that they are not called for stay. -/
def Keeps (g : Geometry) (s t : Bbm) (sites : List AssignSite) : Prop :=
  s.nandBbmCheck = true → (∀ site ∈ sites, site.HasReserve g) →
    t.nandBbmCheck = true ∧ (∀ site ∈ sites, site.bbm.nandBbmCheck = true) ∧
      ∀ index, s.flagged index = true →
        (∀ site ∈ sites, g.blockIndex site.badpos ≠ index) →
          t.flagged index = true ∧ t.target index = s.target index

theorem composes_keeps (g : Geometry) : Composes g (fun value => value = true) (Keeps g) where
  refl s on _ := ⟨on, by simp, fun index flagged _ => ⟨flagged, rfl⟩⟩
  trans := by
    intro s t u first second before after on reserves
    rw [List.forall_mem_append] at reserves
    obtain ⟨tOn, firstOn, tKept⟩ := before on reserves.1
    obtain ⟨uOn, secondOn, uKept⟩ := after tOn reserves.2
    refine ⟨uOn, List.forall_mem_append.mpr ⟨firstOn, secondOn⟩, ?_⟩
    intro index flagged others
    rw [List.forall_mem_append] at others
    obtain ⟨tFlagged, tTarget⟩ := tKept index flagged others.1
    obtain ⟨uFlagged, uTarget⟩ := uKept index tFlagged others.2
    exact ⟨uFlagged, uTarget.trans tTarget⟩
  setCheck := by
    intro s value allowed on reserves
    exact ⟨allowed, by simp, fun index flagged _ => ⟨flagged, rfl⟩⟩
  assign := by
    intro s inv blockBad badpos on reserves
    rw [List.forall_mem_singleton] at reserves
    obtain ⟨reserve, found⟩ := Option.ne_none_iff_exists'.mp (hasReserve_iff.mp reserves)
    rw [nandBbmAssignBlock_of_some found]
    refine ⟨rfl, by simpa using on, fun index flagged others => ?_⟩
    have different := List.forall_mem_singleton.mp others
    exact keeps_assigned s reserve (Ne.symm different) flagged

/-- The translation is on and the redirects of a map, but for those of the blocks that
calls have been made for since, are the ones that are looked up. -/
def InForce (g : Geometry) (s t : Bbm) (since : List AssignSite) : Prop :=
  t.nandBbmCheck = true ∧
    ∀ ofs, s.flagged (g.blockIndex ofs) = true →
      (∀ site ∈ since, g.blockIndex site.badpos ≠ g.blockIndex ofs) →
        nandBbmAdjust g t ofs = nandBbmAdjust g s ofs

theorem inForce_of_keeps {s t : Bbm} {sites : List AssignSite} (keeps : Keeps g s t sites)
    (on : s.nandBbmCheck = true) (reserves : ∀ site ∈ sites, site.HasReserve g) :
    InForce g s t sites := by
  obtain ⟨tOn, -, kept⟩ := keeps on reserves
  refine ⟨tOn, fun ofs flagged others => ?_⟩
  obtain ⟨tFlagged, tTarget⟩ := kept _ flagged others
  rw [nandBbmAdjust_of_flagged on flagged, nandBbmAdjust_of_flagged tOn tFlagged, tTarget]

/-- In every run the calls made with the translation on are contained exactly when each of
them has a reserve block left; between two points of a run where each has, every redirect
stays in force. -/
theorem exhaustion_contained_iff (g : Geometry) (start : Device) (ops : List Operation) :
    ((∀ site ∈ runSites g (start.infoInit g) ops,
        site.bbm.nandBbmCheck = true → site.Contained g) ↔
      ∀ site ∈ runSites g (start.infoInit g) ops,
        site.bbm.nandBbmCheck = true → site.HasReserve g) ∧
    ∀ before between after, ops = before ++ between ++ after →
      ((start.infoInit g).run g before).bbm.nandBbmCheck = true →
      Operation.setCheck false ∉ between →
      (∀ site ∈ runSites g ((start.infoInit g).run g before) between, site.HasReserve g) →
        InForce g ((start.infoInit g).run g before).bbm
          ((start.infoInit g).run g (before ++ between)).bbm
          (runSites g ((start.infoInit g).run g before) between) := by
  constructor
  · refine forall₂_congr fun site _ => ?_
    exact ⟨fun contained on => (contained_iff_hasReserve on).mp (contained on),
      fun reserves on => (contained_iff_hasReserve on).mpr (reserves on)⟩
  · intro before between after _ on kept reserves
    have inv := reserveInv_run (reserveInv_infoInit g start) before
    have keeps := (composes_keeps g).run inv between fun value mem => by
      cases value with
      | false => exact absurd mem kept
      | true => rfl
    have together : (start.infoInit g).run g (before ++ between) =
        ((start.infoInit g).run g before).run g between := List.foldl_append
    rw [together]
    exact inForce_of_keeps keeps on reserves

/-- Block 5 fails and is redirected to block 1023; block 6 fails when every reserve block
that is left is bad. -/
def worn : List Operation :=
  [.setCheck true, .assignBlock .sound (nand128MiB.blockPos 5),
    .assignBlock (.withBad nand128MiB (List.range' 993 30)) (nand128MiB.blockPos 6)]

/-- Reads of block 5 then go to block 5 again. -/
theorem redirect_out_of_force :
    ∃ site ∈ runSites nand128MiB (Device.powerOn.infoInit nand128MiB) worn,
      site.bbm.nandBbmCheck = true ∧ ¬ site.Contained nand128MiB ∧
      nandBbmAdjust nand128MiB site.bbm (nand128MiB.blockPos 5) =
        nand128MiB.blockPos 1023 ∧
      nandBbmAdjust nand128MiB
          ((Device.powerOn.infoInit nand128MiB).run nand128MiB worn).bbm
          (nand128MiB.blockPos 5) = nand128MiB.blockPos 5 := by
  let site : AssignSite :=
    { bbm := ((Device.powerOn.infoInit nand128MiB).run nand128MiB (worn.take 2)).bbm
      blockBad := (ChipBehaviour.withBad nand128MiB (List.range' 993 30)).blockBad
      badpos := nand128MiB.blockPos 6 }
  refine ⟨site, ?_, rfl, fun contained => ?_, by decide +kernel, by decide +kernel⟩
  · exact List.mem_cons_of_mem _ List.mem_cons_self
  · have check := contained.check
    exact absurd check (by decide +kernel)

end Gp2Firmware.UBoot
