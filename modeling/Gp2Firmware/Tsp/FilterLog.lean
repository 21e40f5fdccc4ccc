import Gp2Firmware.Tsp.Section

/-!
# What packets leave alone

`Later f g`: the filter `g` came out of `f` by packets of any content.  Its
registers for matching are the same, and its log of calls of `FinishFlt` only
grew, by records of DMAs made since.
-/

namespace Gp2Firmware.Tsp

/-- The filter `g` came out of `f` by packets. -/
structure Later (f g : Filter) : Prop where
  pattern_eq : g.ptn.pattern = f.ptn.pattern
  mask_eq : g.ptn.mask = f.ptn.mask
  spare : Spare f.ptn → Spare g.ptn
  notVerEnable_eq : g.notVerEnable = f.notVerEnable
  notVersion_eq : g.notVersion = f.notVersion
  crcChk_eq : g.ctrl &&& modeCrcChk = f.ctrl &&& modeCrcChk
  oneshot_eq : g.ctrl &&& modeOneshot = f.ctrl &&& modeOneshot
  dmaCount_le : f.dmaCount ≤ g.dmaCount
  log : ∃ calls, g.calls = f.calls ++ calls ∧
    ∀ c, c ∈ g.record ∨ (∃ r ∈ calls, c ∈ r.chunks) →
      c ∈ f.record ∨ f.dmaCount ≤ c.number ∧ c.number < g.dmaCount

namespace Later

variable {f g h : Filter}

theorem trans (first : Later f g) (second : Later g h) : Later f h where
  pattern_eq := second.pattern_eq.trans first.pattern_eq
  mask_eq := second.mask_eq.trans first.mask_eq
  spare := second.spare ∘ first.spare
  notVerEnable_eq := second.notVerEnable_eq.trans first.notVerEnable_eq
  notVersion_eq := second.notVersion_eq.trans first.notVersion_eq
  crcChk_eq := second.crcChk_eq.trans first.crcChk_eq
  oneshot_eq := second.oneshot_eq.trans first.oneshot_eq
  dmaCount_le := Nat.le_trans first.dmaCount_le second.dmaCount_le
  log := by
    obtain ⟨calls, grown, origin⟩ := first.log
    obtain ⟨moreCalls, moreGrown, moreOrigin⟩ := second.log
    have firstBound := first.dmaCount_le
    have secondBound := second.dmaCount_le
    refine ⟨calls ++ moreCalls, ?_, ?_⟩
    · rw [moreGrown, grown, List.append_assoc]
    · intro c member
      have early : (c ∈ g.record ∨ ∃ r ∈ calls, c ∈ r.chunks) →
          c ∈ f.record ∨ f.dmaCount ≤ c.number ∧ c.number < h.dmaCount := by
        intro there
        exact (origin c there).imp_right fun number => ⟨number.1, by omega⟩
      have late : (c ∈ h.record ∨ ∃ r ∈ moreCalls, c ∈ r.chunks) →
          c ∈ f.record ∨ f.dmaCount ≤ c.number ∧ c.number < h.dmaCount := by
        intro there
        rcases moreOrigin c there with before | number
        · exact early (.inl before)
        · exact .inr ⟨by omega, number.2⟩
      rcases member with here | ⟨r, inCalls, inside⟩
      · exact late (.inl here)
      · rcases List.mem_append.mp inCalls with old | new
        · exact early (.inr ⟨r, old, inside⟩)
        · exact late (.inr ⟨r, new, inside⟩)

/-- A step that makes no call and adds no chunk. -/
theorem of_eq (pattern : g.ptn.pattern = f.ptn.pattern)
    (mask : g.ptn.mask = f.ptn.mask) (spare : Spare f.ptn → Spare g.ptn)
    (notVerEnable : g.notVerEnable = f.notVerEnable)
    (notVersion : g.notVersion = f.notVersion) (ctrl : g.ctrl = f.ctrl)
    (dmaCount : g.dmaCount = f.dmaCount) (calls : g.calls = f.calls)
    (record : g.record = f.record ∨ g.record = []) : Later f g where
  pattern_eq := pattern
  mask_eq := mask
  spare := spare
  notVerEnable_eq := notVerEnable
  notVersion_eq := notVersion
  crcChk_eq := by rw [ctrl]
  oneshot_eq := by rw [ctrl]
  dmaCount_le := Nat.le_of_eq dmaCount.symm
  log := by
    refine ⟨[], by rw [calls, List.append_nil], ?_⟩
    intro c member
    rcases member with here | ⟨r, none, -⟩
    · rcases record with same | empty
      · rw [same] at here
        exact .inl here
      · rw [empty] at here
        cases here
    · cases none

theorem refl (f : Filter) : Later f f :=
  of_eq rfl rfl id rfl rfl rfl rfl rfl (.inl rfl)

end Later

variable {f : Filter}

/-! ### Ends of records -/

theorem later_revertFlt (f : Filter) : Later f f.revertFlt :=
  .of_eq rfl rfl id rfl rfl rfl rfl rfl (.inr rfl)

theorem later_called (f : Filter) :
    Later f { f with calls := f.calls ++ [f.current], record := [] } where
  pattern_eq := rfl
  mask_eq := rfl
  spare := id
  notVerEnable_eq := rfl
  notVersion_eq := rfl
  crcChk_eq := rfl
  oneshot_eq := rfl
  dmaCount_le := Nat.le_refl _
  log := by
    refine ⟨[f.current], rfl, ?_⟩
    intro c member
    rcases member with none | ⟨r, only, inside⟩
    · cases none
    · rw [List.mem_singleton] at only
      rw [only] at inside
      exact .inl inside

theorem later_finishFlt (f : Filter) : Later f f.finishFlt := by
  have step := later_called f
  apply step.trans
  rw [Filter.finishFlt]
  split
  · split
    · exact .of_eq rfl rfl id rfl rfl rfl rfl rfl (.inl rfl)
    · exact .of_eq rfl rfl id rfl rfl rfl rfl rfl (.inl rfl)
  · exact .of_eq rfl rfl id rfl rfl rfl rfl rfl (.inl rfl)

/-- A state bit does not touch the mode bits. -/
theorem and_mode_or {ctrl state mode : U32} (apart : state &&& mode = 0) :
    (ctrl ||| state) &&& mode = ctrl &&& mode := by
  rw [BitVec.and_or_distrib_right, apart]
  exact BitVec.or_zero

theorem later_ctrl (f : Filter) {state : U32} (crcChk : state &&& modeCrcChk = 0)
    (oneshot : state &&& modeOneshot = 0) :
    Later f { f with ctrl := f.ctrl ||| state } where
  pattern_eq := rfl
  mask_eq := rfl
  spare := id
  notVerEnable_eq := rfl
  notVersion_eq := rfl
  crcChk_eq := and_mode_or crcChk
  oneshot_eq := and_mode_or oneshot
  dmaCount_le := Nat.le_refl _
  log := ⟨[], (List.append_nil _).symm, fun c member => by
    rcases member with here | ⟨r, none, -⟩
    · exact .inl here
    · cases none⟩

theorem later_oneshotDisable (f : Filter) : Later f (oneshotDisable f) := by
  rw [oneshotDisable]
  split
  · exact later_ctrl f (by decide) (by decide)
  · exact .refl f

theorem later_secTail (hw : Hw) (f : Filter) : Later f (secTail hw f) := by
  have disabled := later_oneshotDisable f
  have finished : Later f (oneshotDisable f).updateWritePtr.finishFlt :=
    (disabled.trans (.of_eq rfl rfl id rfl rfl rfl rfl rfl (.inl rfl))).trans
      (later_finishFlt _)
  simp only [secTail]
  split
  · exact finished
  · split
    · exact disabled.trans (later_revertFlt _)
    · exact finished

/-! ### DMA -/

section Dma

variable {packet : Packet} {offset : Nat} {size length : U32} {crc : DmaCrc}
  {start : Bool} {hw : Hw}

theorem later_dmaCopy (f : Filter) (packet : Packet) (offset : Nat) (size : U32)
    (crc : DmaCrc) (start : Bool) :
    Later f (f.dmaCopy packet offset size crc start) where
  pattern_eq := rfl
  mask_eq := rfl
  spare := id
  notVerEnable_eq := rfl
  notVersion_eq := rfl
  crcChk_eq := rfl
  oneshot_eq := rfl
  dmaCount_le := Nat.le_succ _
  log := by
    refine ⟨[], (List.append_nil _).symm, ?_⟩
    intro c member
    rcases member with here | ⟨r, none, -⟩
    · rcases List.mem_append.mp here with old | new
      · exact .inl old
      · rw [List.mem_singleton] at new
        rw [new]
        exact .inr ⟨Nat.le_refl _, Nat.lt_succ_self _⟩
    · cases none

theorem later_taken (f : Filter) (packet : Packet) (offset : Nat) (size : U32)
    (crc : DmaCrc) (start : Bool) :
    Later f (f.taken packet offset size crc start) :=
  (later_dmaCopy f packet offset size crc start).trans
    (.of_eq rfl rfl id rfl rfl rfl rfl rfl (.inl rfl))

theorem later_dmaPostCheck (hw : Hw) (f : Filter) (packet : Packet) (offset : Nat)
    (size : U32) (crc : DmaCrc) (start : Bool) :
    Later f (f.dmaPostCheck hw packet offset size crc start).2 := by
  have copied := later_dmaCopy f packet offset size crc start
  simp only [Filter.dmaPostCheck]
  split
  · exact (copied.trans (later_ctrl _ (by decide) (by decide))).trans
      (.of_eq rfl rfl id rfl rfl rfl rfl rfl (.inl rfl))
  · split
    · exact copied
    · exact copied

theorem later_account (f : Filter) (size : U32) : Later f (f.account size) :=
  .of_eq rfl rfl id rfl rfl rfl rfl rfl (.inl rfl)

theorem later_secDma (hw : Hw) (packet : Packet) (f : Filter) (offset : Nat)
    (length : U32) (crc : DmaCrc) (start : Bool) :
    Later f (secDma hw packet f offset length crc start).2 := by
  by_cases tail : offset + length.toNat ≤ tsPacketSize
  · have copied := later_dmaPostCheck hw f packet offset length crc start
    simp only [secDma, tail, if_true]
    split
    · exact (copied.trans (later_account _ _)).trans (later_secTail hw _)
    · exact copied.trans (later_revertFlt _)
  · have copied := later_dmaPostCheck hw f packet offset (restOfPacket offset) crc
      start
    simp only [secDma, tail, if_false]
    split
    · exact copied.trans (later_account _ _)
    · exact copied.trans (later_revertFlt _)

theorem finishFlt_dmaCount (f : Filter) : f.finishFlt.dmaCount = f.dmaCount := by
  rw [Filter.finishFlt]
  split
  · split
    · rfl
    · rfl
  · rfl

theorem secTail_dmaCount (hw : Hw) (f : Filter) :
    (secTail hw f).dmaCount = f.dmaCount := by
  obtain ⟨ctrl, same⟩ := oneshotDisable_eq f
  have finished : (oneshotDisable f).updateWritePtr.finishFlt.dmaCount = f.dmaCount := by
    rw [same]
    exact finishFlt_dmaCount _
  simp only [secTail]
  split
  · exact finished
  · split
    · rw [same]
      rfl
    · exact finished

theorem dmaPostCheck_dmaCount (hw : Hw) (f : Filter) (packet : Packet) (offset : Nat)
    (size : U32) (crc : DmaCrc) (start : Bool) :
    (f.dmaPostCheck hw packet offset size crc start).2.dmaCount = f.dmaCount + 1 := by
  simp only [Filter.dmaPostCheck]
  split
  · rfl
  · split
    · rfl
    · rfl

/-- The DMA of a part of a section is one DMA. -/
theorem secDma_dmaCount (hw : Hw) (packet : Packet) (f : Filter) (offset : Nat)
    (length : U32) (crc : DmaCrc) (start : Bool) :
    (secDma hw packet f offset length crc start).2.dmaCount = f.dmaCount + 1 := by
  have counted := fun size => dmaPostCheck_dmaCount hw f packet offset size crc start
  by_cases tail : offset + length.toNat ≤ tsPacketSize
  · simp only [secDma, tail, if_true]
    split
    · exact (secTail_dmaCount hw _).trans (counted length)
    · exact counted length
  · simp only [secDma, tail, if_false]
    split
    · exact counted (restOfPacket offset)
    · exact counted (restOfPacket offset)

end Dma

/-! ### Packets -/

section Packets

variable {packet : Packet} {hw : Hw}

theorem later_setPtn (f : Filter) {ptn : Pattern}
    (pattern : ptn.pattern = f.ptn.pattern) (mask : ptn.mask = f.ptn.mask)
    (spare : Spare f.ptn → Spare ptn) : Later f { f with ptn := ptn } :=
  .of_eq pattern mask spare rfl rfl rfl rfl rfl (.inl rfl)

theorem followPattern_registers (packet : Packet) (f : Filter) (offset : Nat) :
    (followPattern packet f offset).2 = f.ptn ∨
      (followPattern packet f offset).2 =
        (patternMatchTail packet offset f.ptn).2 := by
  simp only [followPattern]
  split
  · split
    · exact .inr rfl
    · split
      · exact .inr rfl
      · exact .inr rfl
  · exact .inl rfl

theorem later_followState (packet : Packet) (f : Filter) :
    Later f (followState packet f) := by
  have length : Later f (followLength packet f (continuedAt packet)) :=
    .of_eq rfl rfl id rfl rfl rfl rfl rfl (.inl rfl)
  have tail := patternMatchTail_registers f.ptn packet (continuedAt packet)
  apply length.trans
  rcases followPattern_registers packet f (continuedAt packet) with same | shifted
  · apply later_setPtn
    · rw [same]
      rfl
    · rw [same]
      rfl
    · rw [same]
      exact id
  · apply later_setPtn
    · rw [shifted]
      exact tail.1
    · rw [shifted]
      exact tail.2
    · rw [shifted]
      exact spare_patternMatchTail

theorem later_followSection (hw : Hw) (packet : Packet) (f : Filter) :
    Later f (followSection hw packet f).2.2 := by
  have state := later_followState packet f
  rw [followSection]
  split
  · exact later_revertFlt f
  · split
    · exact state.trans (later_secDma hw packet _ _ _ _ _)
    · exact state.trans (later_revertFlt _)

theorem later_counted (f : Filter) : Later f f.counted :=
  .of_eq rfl rfl id rfl rfl rfl rfl rfl (.inl rfl)

theorem later_getSecFollowPackets (hw : Hw) (packet : Packet) (f : Filter) :
    Later f (getSecFollowPackets hw packet f).2.2 := by
  have counted := later_counted f
  rw [getSecFollowPackets]
  split
  · split
    · exact counted.trans (.of_eq rfl rfl id rfl rfl rfl rfl rfl (.inr rfl))
    · exact counted.trans (later_followSection hw packet _)
  · exact .refl f

theorem later_headState (packet : Packet) (f : Filter) (offset : Nat) :
    Later f (headState packet f offset) := by
  have head := patternMatchHead_registers f.ptn packet offset
  exact .of_eq head.1 head.2 spare_patternMatchHead rfl rfl rfl rfl rfl (.inl rfl)

theorem later_firstState (packet : Packet) (f : Filter) (offset : Nat) :
    Later f (firstState packet f offset) :=
  (later_headState packet f offset).trans
    (.of_eq rfl rfl id rfl rfl rfl rfl rfl (.inl rfl))

/-- What a turn leaves, whether the loop goes on or not. -/
def SecTurn.filter : SecTurn → Filter
  | .next f => f
  | .leave _ f => f

theorem later_secTurn (hw : Hw) (packet : Packet) (f : Filter) (offset : Nat) :
    Later f (secTurn hw packet f offset).filter := by
  have head := later_headState packet f offset
  have dma := (later_firstState packet f offset).trans
    (later_secDma hw packet (firstState packet f offset) offset
      (firstLength packet offset) .restart true)
  simp only [secTurn]
  split
  · split
    · exact head.trans (.of_eq rfl rfl id rfl rfl rfl rfl rfl (.inr rfl))
    · split
      · exact dma
      · exact dma
  · exact head.trans (.of_eq rfl rfl id rfl rfl rfl rfl rfl (.inl rfl))

theorem later_secLoop (hw : Hw) (packet : Packet) (turns : Nat) (f : Filter)
    (offset : Nat) : Later f (secLoop hw packet turns f offset).2 := by
  induction turns generalizing f offset with
  | zero => exact .refl f
  | succ turns inductionHypothesis =>
      have turn := later_secTurn hw packet f offset
      rw [secLoop]
      split
      · cases result : secTurn hw packet f offset with
        | next g =>
            rw [result] at turn
            exact turn.trans (inductionHypothesis g _)
        | leave processed g =>
            rw [result] at turn
            exact turn
      · exact .refl f

theorem later_getSecFirstPacket (hw : Hw) (packet : Packet) (window : Nat)
    (f : Filter) : Later f (getSecFirstPacket hw packet window f).2 := by
  rw [getSecFirstPacket]
  split
  · exact later_secLoop hw packet _ f _
  · exact .refl f

/-- A packet of any content leads to a later state. -/
theorem later_procSection (hw : Hw) (packet : Packet)
    (pid : Option (BitVec 13)) (f : Filter) :
    Later f (procSection hw packet pid f) := by
  have followed := later_getSecFollowPackets hw packet f
  simp only [procSection]
  split
  · split
    · exact followed.trans (later_getSecFirstPacket hw packet _ _)
    · exact followed
  · exact .refl f

theorem later_packets (hw : Hw) (pid : Option (BitVec 13)) (f : Filter)
    (packets : List Packet) :
    Later f (packets.foldl (fun f packet => procSection hw packet pid f) f) := by
  induction packets generalizing f with
  | nil => exact .refl f
  | cons packet rest inductionHypothesis =>
      exact (later_procSection hw packet pid f).trans (inductionHypothesis _)

end Packets

end Gp2Firmware.Tsp
