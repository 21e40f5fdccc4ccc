import Gp2Firmware.Tsp.SectionAssembly

/-!
# The version filter and the packets

A filter may exclude one version.  The version stands in the sixth byte of a
section; where the firmware looks for it depends on how many bytes of the section
lie in its first packet.
-/

namespace Gp2Firmware.Tsp

/-! ### A section and its first two packets -/

/-- The matching section at an offset is dropped: no DMA is started for its first
bytes, or it goes on and none is started for it in the next packet. -/
def Dropped (hw : Hw) (f : Filter) (first : Packet) (offset : Nat) (second : Packet)
    (sec : List U8) : Prop :=
  (secTurn hw first f offset).filter.dmaCount = f.dmaCount ∨
    tsPacketSize < offset + sec.length ∧
      (getSecFollowPackets hw second (secTurn hw first f offset).filter).2.2.dmaCount =
        (secTurn hw first f offset).filter.dmaCount

/-- A packet goes on with a section of which some bytes are known. -/
structure GoesOn (first second : Packet) (sec : List U8) (known : Nat) : Prop where
  payload : pktPayload second = true
  counter : pktCc second = (pktCc first + 1) &&& 0xF
  shows : ShowsBytes second sec (continuedAt second) known
  pointer : pktPusi second = true → sec.length ≤ known + pointerField second

/-- A section of six bytes or more begins at an offset of a packet and goes on in
the next one, if it has to. -/
structure Packetised (first : Packet) (offset : Nat) (second : Packet)
    (sec : List U8) : Prop where
  six : 6 ≤ sec.length
  length_eq : sec.length = sectionLength sec
  inside : offset < tsPacketSize
  shows : ShowsBytes first sec offset 0
  goesOn : tsPacketSize < offset + sec.length →
    GoesOn first second sec (tsPacketSize - offset)

/-- The firmware sees the version.  Either the section ends in its first packet or has
sixteen bytes there; or the rest of the pattern agrees, unless the version is excluded,
and of fewer than six bytes the first packet has not only one and the second one has the
version, or the byte that is read instead says the same. -/
def VersionSeen (f : Filter) (offset : Nat) (second : Packet) (sec : List U8) : Prop :=
  offset + sec.length ≤ tsPacketSize ∨ 16 ≤ tsPacketSize - offset ∨
    (ExcludedVersion f sec ∨
        RestAgrees f.ptn (tsPacketSize - offset) second (continuedAt second)) ∧
      (RestAgrees f.ptn (tsPacketSize - offset) second (continuedAt second) →
        tsPacketSize - offset < 6 →
          tsPacketSize - offset ≠ 1 ∧
              continuedAt second + (5 - (tsPacketSize - offset)) < tsPacketSize ∨
            ((versionOf (second (continuedAt second +
                versionAt (tsPacketSize - offset)))).setWidth 8 = f.notVersion ↔
              ExcludedVersion f sec))

section Turn

variable {hw : Hw} {f g : Filter} {first second : Packet} {offset : Nat} {sec : List U8}

theorem Packetised.head_iff (carries : Packetised first offset second sec)
    (enabled : f.notVerEnable = true) :
    headVersionDrop first f offset = true ↔
      6 ≤ tsPacketSize - offset ∧ ExcludedVersion f sec := by
  have six := carries.six
  rw [headVersionDrop_iff, ExcludedVersion]
  constructor
  · intro drop
    have sixth := carries.shows 5 (by omega) (by omega)
    rw [Nat.zero_add] at sixth
    exact ⟨by omega, enabled, by omega, sixth ▸ drop.2.2⟩
  · rintro ⟨visible, excluded⟩
    have sixth := carries.shows 5 (by omega) (by omega)
    rw [Nat.zero_add] at sixth
    exact ⟨enabled, by omega, sixth ▸ excluded.2.2⟩

/-- In the first packet the section is dropped for its version only. -/
theorem turn_dmaCount (matched : (patternMatchHead first offset f.ptn).1 = true) :
    (secTurn hw first f offset).filter.dmaCount = f.dmaCount ↔
      headVersionDrop first f offset = true := by
  simp only [secTurn, matched, if_true]
  by_cases drop : headVersionDrop first f offset = true
  · rw [if_pos drop]
    exact iff_of_true rfl drop
  · have started := secDma_dmaCount hw first (firstState first f offset) offset
      (firstLength first offset) .restart true
    change _ = f.dmaCount + 1 at started
    rw [if_neg drop]
    apply iff_of_false _ drop
    split
    · exact fun same => absurd (started.symm.trans same) (Nat.succ_ne_self _)
    · exact fun same => absurd (started.symm.trans same) (Nat.succ_ne_self _)

/-- What the first packet leaves of a section that goes on. -/
theorem turn_goesOn (matched : (patternMatchHead first offset f.ptn).1 = true)
    (kept : ¬ headVersionDrop first f offset = true)
    (calm : hw.dma f.dmaCount = ⟨false, false⟩)
    (beyond : tsPacketSize < offset + (firstLength first offset).toNat) :
    (secTurn hw first f offset).filter = (firstState first f offset).taken first offset
      (restOfPacket offset) .restart true := by
  have dma := @secDma_calm hw first (firstState first f offset) offset
    (firstLength first offset) .restart true calm
  rw [if_neg (Nat.not_le_of_lt beyond)] at dma
  simp only [secTurn, matched, if_true, kept, dma]
  rfl

/-- In a packet that goes on with it the section is dropped for its pattern or its
version. -/
theorem follow_dmaCount (hw : Hw) (sequence : InSequence g second)
    (whole : ¬ CutShort second g) :
    (getSecFollowPackets hw second g).2.2.dmaCount = g.dmaCount ↔
      (followPattern second g (continuedAt second)).1 = false := by
  have counter : ¬ pktCc second ≠ g.counted.pktContiCnt &&& 0xF :=
    not_not.mpr sequence.2.2
  rw [getSecFollowPackets, if_pos ⟨sequence.1, sequence.2.1⟩, if_neg counter,
    followSection, if_neg (show ¬ CutShort second g.counted from whole),
    ← Bool.not_eq_true]
  change _ ↔ ¬ (followPattern second g.counted (continuedAt second)).1 = true
  by_cases kept : (followPattern second g.counted (continuedAt second)).1 = true
  · have started := secDma_dmaCount hw second (followState second g.counted)
      (continuedAt second) (followState second g.counted).rmn .on false
    rw [if_pos kept]
    exact iff_of_false (fun same => Nat.succ_ne_self _ (started.symm.trans same))
      (not_not.mpr kept)
  · rw [if_neg kept]
    exact iff_of_true rfl kept

theorem followPattern_iff (packet : Packet) (g : Filter) (offset : Nat) :
    (followPattern packet g offset).1 = false ↔ g.ptn.ptnByte ≠ 0 ∧
      ((patternMatchTail packet offset g.ptn).1 = true →
        (g.notVerEnable = true ∧ g.ptn.ptnByte < 6) ∧
          tailVersionDrop packet g g.ptn.ptnByte offset = true) := by
  simp only [followPattern]
  by_cases some : g.ptn.ptnByte ≠ 0
  · rw [if_pos some]
    by_cases tail : (patternMatchTail packet offset g.ptn).1 = true
    · rw [if_neg (by rw [tail]; exact Bool.noConfusion)]
      by_cases checked : g.notVerEnable = true ∧ g.ptn.ptnByte < 6
      · rw [if_pos checked]
        simp [some, tail, checked]
      · rw [if_neg checked]
        simp [tail, checked]
    · rw [Bool.not_eq_true] at tail
      rw [if_pos tail]
      simp [some, tail]
  · rw [if_neg some]
    simp [some]

/-- A section that goes on is longer than the first packet shows, and the length that
the firmware reads says so. -/
theorem Packetised.beyond (carries : Packetised first offset second sec)
    (long : tsPacketSize < offset + sec.length) :
    tsPacketSize < offset + (firstLength first offset).toNat := by
  by_cases header : offset + 2 < tsPacketSize
  · rw [firstLength_eq_of_shows carries.shows carries.length_eq header]
    exact long
  · rw [firstLength_of_split header carries.inside]
    exact Nat.lt_add_left offset (by decide)

/-- What is left of the section behind its first packet. -/
theorem Packetised.toNat_rmn (carries : Packetised first offset second sec)
    (long : tsPacketSize < offset + sec.length) :
    ((firstState first f offset).taken first offset (restOfPacket offset) .restart
      true).rmn.toNat = (firstLength first offset).toNat - (tsPacketSize - offset) := by
  have beyond := carries.beyond long
  have rest := toNat_restOfPacket (Nat.le_of_lt carries.inside)
  have remaining : (firstState first f offset).rmn = firstLength first offset :=
    Filter.rmn_setRmn (firstLength_lt first offset)
  rw [Filter.toNat_rmn_taken (by rw [remaining]; omega), remaining, rest]

/-- The second packet is one that the firmware goes on with. -/
theorem Packetised.follows (carries : Packetised first offset second sec)
    (long : tsPacketSize < offset + sec.length)
    (state : g = (firstState first f offset).taken first offset (restOfPacket offset)
      .restart true) :
    InSequence g second ∧ ¬ CutShort second g := by
  have goesOn := carries.goesOn long
  have beyond := carries.beyond long
  have inside := carries.inside
  have rest : g.rmn.toNat =
      (firstLength first offset).toNat - (tsPacketSize - offset) := by
    rw [state]
    exact carries.toNat_rmn long
  constructor
  · refine ⟨goesOn.payload, ?_, ?_⟩
    · intro none
      rw [none] at rest
      change 0 = _ at rest
      omega
    · rw [state]
      exact goesOn.counter
  · intro cut
    have small := cut.2.1
    have before := cut.2.2
    have limit : secSizeMax.toNat = 4096 := rfl
    rw [BitVec.lt_def, limit] at small
    rw [BitVec.lt_def, toNat_cacheByte] at before
    have pointer := goesOn.pointer cut.1
    rw [pointerField] at pointer
    by_cases header : offset + 2 < tsPacketSize
    · rw [firstLength_eq_of_shows carries.shows carries.length_eq header] at rest
      omega
    · rw [firstLength_of_split header inside] at rest
      change _ = 65535 - _ at rest
      rw [tsPacketSize] at header rest
      omega

/-- When the firmware drops a section. -/
theorem Packetised.dropped_iff (carries : Packetised first offset second sec)
    (enabled : f.notVerEnable = true) (spare : Spare f.ptn)
    (matches' : MatchesBytes f.ptn sec) (calm : hw.dma f.dmaCount = ⟨false, false⟩) :
    Dropped hw f first offset second sec ↔
      6 ≤ tsPacketSize - offset ∧ ExcludedVersion f sec ∨
        tsPacketSize < offset + sec.length ∧ tsPacketSize - offset < 16 ∧
          (RestAgrees f.ptn (tsPacketSize - offset) second (continuedAt second) →
            tsPacketSize - offset < 6 ∧
              (versionOf (second (continuedAt second +
                versionAt (tsPacketSize - offset)))).setWidth 8 = f.notVersion) := by
  have inside := carries.inside
  have matched := head_of_matches matches' carries.shows inside
  have head := carries.head_iff enabled
  rw [Dropped, turn_dmaCount matched, head]
  by_cases early : 6 ≤ tsPacketSize - offset ∧ ExcludedVersion f sec
  · exact iff_of_true (.inl early) (.inl early)
  · apply or_congr Iff.rfl
    apply and_congr_right
    intro long
    have state := turn_goesOn matched (mt head.mp early) calm (carries.beyond long)
    have follows := carries.follows long state
    have bytes := head_ptnByte matched inside
    rw [follow_dmaCount hw follows.1 follows.2, followPattern_iff, state]
    change (patternMatchHead first offset f.ptn).2.ptnByte ≠ 0 ∧
      ((patternMatchTail second (continuedAt second)
          (patternMatchHead first offset f.ptn).2).1 = true →
        (f.notVerEnable = true ∧ (patternMatchHead first offset f.ptn).2.ptnByte < 6) ∧
          tailVersionDrop second f (patternMatchHead first offset f.ptn).2.ptnByte
            (continuedAt second) = true) ↔ _
    by_cases whole : offset < tsPacketSize - 15
    · rw [if_pos whole] at bytes
      rw [bytes]
      exact iff_of_false (fun split => split.1 rfl) (fun late => by omega)
    · rw [if_neg whole] at bytes
      have registers := patternMatchHead_registers f.ptn first offset
      rw [tail_iff_restAgrees (spare_patternMatchHead spare) (by omega) (by omega),
        RestAgrees.congr registers.1 registers.2, bytes]
      apply and_congr (iff_of_true (by omega) (by omega))
      apply imp_congr Iff.rfl
      rw [and_iff_right enabled]
      apply and_congr_right
      intro few
      rw [tailVersionDrop_iff (by omega) few]

end Turn

/-- In its right place the sixth byte is read, and the version with it. -/
theorem Packetised.readsSixth (carries : Packetised first offset second sec)
    (enabled : f.notVerEnable = true) (long : tsPacketSize < offset + sec.length)
    (few : tsPacketSize - offset < 6) (many : tsPacketSize - offset ≠ 1)
    (inside : continuedAt second + (5 - (tsPacketSize - offset)) < tsPacketSize) :
    (versionOf (second (continuedAt second +
        versionAt (tsPacketSize - offset)))).setWidth 8 = f.notVersion ↔
      ExcludedVersion f sec := by
  have six := carries.six
  have sixth := (carries.goesOn long).shows (5 - (tsPacketSize - offset)) (by omega) inside
  rw [Nat.add_sub_of_le (by omega)] at sixth
  rw [versionAt, if_neg many, sixth, ExcludedVersion, and_iff_right enabled,
    and_iff_right (by omega)]

/-- A matching section is dropped exactly when it has the excluded version, wherever it
begins in its packet, if and only if the firmware sees the version. -/
theorem dropped_iff_excluded (hw : Hw) (f : Filter) (first : Packet) (offset : Nat)
    (second : Packet) (sec : List U8) (carries : Packetised first offset second sec)
    (enabled : f.notVerEnable = true) (spare : Spare f.ptn)
    (matches' : MatchesBytes f.ptn sec) (calm : hw.dma f.dmaCount = ⟨false, false⟩) :
    (Dropped hw f first offset second sec ↔ ExcludedVersion f sec) ↔
      VersionSeen f offset second sec := by
  have six := carries.six
  have inside := carries.inside
  rw [carries.dropped_iff enabled spare matches' calm, VersionSeen]
  by_cases long : tsPacketSize < offset + sec.length
  · rw [or_iff_right (Nat.not_le_of_lt long), and_iff_right long]
    by_cases late : tsPacketSize - offset < 16
    · rw [or_iff_right (Nat.not_le_of_lt late), and_iff_right late]
      by_cases few : tsPacketSize - offset < 6
      · rw [and_iff_right few, forall_prop_of_true few, or_iff_right fun seen => by omega]
        by_cases right : tsPacketSize - offset ≠ 1 ∧
            continuedAt second + (5 - (tsPacketSize - offset)) < tsPacketSize
        · have reads := carries.readsSixth enabled long few right.1 right.2
          rw [reads]
          tauto
        · tauto
      · simp only [few, false_and, imp_false, false_imp_iff, imp_true_iff, and_true]
        rw [and_iff_right (Nat.le_of_not_lt few)]
        by_cases excluded : ExcludedVersion f sec
        · simp only [excluded, true_or]
        · simp only [excluded, false_or, iff_false, not_not]
    · have seen : 6 ≤ tsPacketSize - offset := by omega
      rw [and_iff_right seen]
      simp only [late, false_and, or_false, Nat.le_of_not_lt late, true_or]
  · have seen : 6 ≤ tsPacketSize - offset := by omega
    rw [and_iff_right seen]
    simp only [long, false_and, or_false, Nat.le_of_not_lt long, true_or]

/-! ### One byte in the first packet -/

/-- The filter takes all versions but one. -/
def otherVersions (version : U8) : Filter :=
  { tableFilter with notVerEnable := true, notVersion := version }

theorem packetised_split : Packetised splitFirst 187 splitSecond wantedSection where
  six := by decide
  length_eq := by decide
  inside := by decide
  shows := by
    intro i present inside
    rw [tsPacketSize] at inside
    obtain rfl : i = 0 := by omega
    decide
  goesOn := fun _ =>
    { payload := by decide
      counter := by decide
      shows := by
        intro i present inside
        have small : i < 11 := by
          change 1 + i < 12 at present
          omega
        interval_cases i <;> rfl
      pointer := fun starts => absurd starts (by decide) }

theorem dropped_iff_excluded_split :
    (Dropped calmHw (otherVersions 4) splitFirst 187 splitSecond wantedSection ↔
      ExcludedVersion (otherVersions 4) wantedSection) ↔
      VersionSeen (otherVersions 4) 187 splitSecond wantedSection :=
  dropped_iff_excluded calmHw (otherVersions 4) splitFirst 187 splitSecond wantedSection
    packetised_split rfl (fun _ _ _ => rfl) (by unfold MatchesBytes; decide +kernel) rfl

/-- With one byte in the first packet, the ninth byte of the section is taken for the
one with the version: the excluded version passes, and another one is dropped. -/
theorem version_misread :
    Packetised splitFirst 187 splitSecond wantedSection ∧
      MatchesBytes tableFilter.ptn wantedSection ∧
      (ExcludedVersion (otherVersions 4) wantedSection ∧
        ¬ Dropped calmHw (otherVersions 4) splitFirst 187 splitSecond wantedSection) ∧
      (¬ ExcludedVersion (otherVersions 20) wantedSection ∧
        Dropped calmHw (otherVersions 20) splitFirst 187 splitSecond wantedSection) := by
  refine ⟨packetised_split, by unfold MatchesBytes; decide +kernel, ⟨?_, ?_⟩, ?_, ?_⟩
  · unfold ExcludedVersion
    decide
  · unfold Dropped
    decide +kernel
  · unfold ExcludedVersion
    decide
  · unfold Dropped
    decide +kernel

end Gp2Firmware.Tsp
