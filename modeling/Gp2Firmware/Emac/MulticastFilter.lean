import Mathlib.Data.BitVec
import Mathlib.Data.Fin.VecNotation
import Mathlib.Data.List.Basic
import Gp2Firmware.Lib.WordBits

/-!
# The multicast filter of the EMAC driver

`MDev_EMAC_set_rx_mode` of `mdrv_emac.c` with the hash table that it writes, and the
frames that the MAC accepts.
-/

namespace Gp2Firmware.Emac.MulticastFilter

abbrev U8 := BitVec 8

abbrev U32 := BitVec 32

/-- The bytes of an address, `ETH_ALEN` of them. -/
abbrev Address := Fin 6 → U8

section Hash

def CRCPOLY_LE : U32 := 0xedb88320

/-- A byte in `crc32_le`. -/
def crcByte (crc : U32) (byte : U8) : U32 :=
  (List.range 8).foldl
    (fun crc _ => (crc >>> 1) ^^^ (if crc.getLsbD 0 then CRCPOLY_LE else 0))
    (crc ^^^ byte.setWidth 32)

def crc32Le (crc : U32) (bytes : List U8) : U32 :=
  bytes.foldl crcByte crc

/-- `ether_crc`, with the bits of the remainder in the other order. -/
def etherCrc (addr : Address) : U32 :=
  (crc32Le 0xFFFFFFFF (List.ofFn addr)).reverse

/-- `bitnr` -/
def bitnr (addr : Address) : Nat :=
  (etherCrc addr >>> 26).toNat

theorem bitnr_lt (addr : Address) : bitnr addr < 64 := by
  rw [bitnr, BitVec.toNat_ushiftRight]
  omega

/-- The first byte that goes out has its lowest bit set. -/
def IsMulticast (addr : Address) : Prop :=
  (addr 0).getLsbD 0 = true

/-- The address of a group, by its last byte. -/
def group (byte : U8) : Address :=
  ![0x01, 0x00, 0x5E, 0, 0, byte]

theorem isMulticast_group (byte : U8) : IsMulticast (group byte) := by
  change (0x01 : U8).getLsbD 0 = true
  decide

/-- The last bytes of groups, in the order of their hashes. -/
def lastBytes : List U8 :=
  [139, 11, 203, 75, 128, 0, 192, 64, 2, 130, 66, 194, 9, 137, 73, 201, 67, 195, 3, 131, 72, 200,
    8, 136, 202, 74, 138, 10, 193, 65, 129, 1, 196, 68, 132, 4, 207, 79, 143, 15, 77, 205, 13,
    141, 70, 198, 6, 134, 12, 140, 76, 204, 7, 135, 71, 199, 133, 5, 197, 69, 142, 14, 206, 78]

theorem bitnr_lastBytes : ∀ h : Fin 64, bitnr (group (lastBytes.getD h 0)) = h := by
  decide +kernel

theorem exists_multicast {h : Nat} (small : h < 64) :
    ∃ addr, IsMulticast addr ∧ bitnr addr = h :=
  ⟨group (lastBytes.getD h 0), isMulticast_group _, bitnr_lastBytes ⟨h, small⟩⟩

end Hash

section Code

def EMAC_CAF : U32 := 1 <<< 4

def EMAC_MTI : U32 := 1 <<< 6

def IFF_PROMISC : U32 := 1 <<< 8

def IFF_ALLMULTI : U32 := 1 <<< 9

/-- What the driver reads of its network device. -/
structure NetDevice where
  flags : U32
  mcList : List Address
  mcCount : Nat

/-- The registers of the filter: `REG_ETH_CFG`, `REG_ETH_HSH` and `REG_ETH_HSL`. -/
structure Filter where
  cfg : U32
  hsh : U32
  hsl : U32

/-- `MHal_EMAC_update_HSH` -/
def updateHsh (s : Filter) (mc0 mc1 : U8) : Filter :=
  { s with hsl := mc0.setWidth 32, hsh := mc1.setWidth 32 }

/-- `mc_filter[0]` and `mc_filter[1]`, with the bit of one more address. -/
def addBit (mcFilter : U8 × U8) (addr : Address) : U8 × U8 :=
  let bit : U8 := (1#32 <<< (bitnr addr % 32)).setWidth 8
  if bitnr addr / 32 = 0 then
    (mcFilter.1 ||| bit, mcFilter.2)
  else
    (mcFilter.1, mcFilter.2 ||| bit)

/-- The addresses that are listed; the list may end before `mc_count`. -/
def NetDevice.listed (dev : NetDevice) : List Address :=
  dev.mcList.take dev.mcCount

def setHashTable (s : Filter) (dev : NetDevice) : Filter :=
  let mcFilter := dev.listed.foldl addBit (0#8, 0#8)
  updateHsh s mcFilter.2 mcFilter.1

/-- The first half of `MDev_EMAC_set_rx_mode`. -/
def setPromisc (s : Filter) (dev : NetDevice) : Filter :=
  if dev.flags &&& IFF_PROMISC ≠ 0 then
    { s with cfg := s.cfg ||| EMAC_CAF }
  else if dev.flags &&& ~~~IFF_PROMISC ≠ 0 then
    { s with cfg := s.cfg &&& ~~~EMAC_CAF }
  else
    s

def setMulticast (s : Filter) (dev : NetDevice) : Filter :=
  if dev.flags &&& IFF_ALLMULTI ≠ 0 then
    { updateHsh s 0xFF 0xFF with cfg := s.cfg ||| EMAC_MTI }
  else if 0 < dev.mcCount then
    { setHashTable s dev with cfg := s.cfg ||| EMAC_MTI }
  else if dev.flags &&& ~~~IFF_ALLMULTI ≠ 0 then
    { updateHsh s 0 0 with cfg := s.cfg &&& ~~~EMAC_MTI }
  else
    s

def setRxMode (s : Filter) (dev : NetDevice) : Filter :=
  setMulticast (setPromisc s dev) dev

end Code

/-! ### The law -/

section Law

/-- The two bits of the configuration. -/
def Filter.caf (s : Filter) : Bool := s.cfg.getLsbD 4

def Filter.mti (s : Filter) : Bool := s.cfg.getLsbD 6

/-- A bit of the hash register, those of `REG_ETH_HSL` first. -/
def Filter.bit (s : Filter) (h : Nat) : Bool := (s.hsh ++ s.hsl).getLsbD h

def Accepts (s : Filter) (addr : Address) : Prop :=
  s.caf = true ∨ IsMulticast addr ∧ s.mti = true ∧ s.bit (bitnr addr) = true

def NetDevice.promisc (dev : NetDevice) : Bool := dev.flags.getLsbD 8

def NetDevice.allMulti (dev : NetDevice) : Bool := dev.flags.getLsbD 9

/-- A hash of one of the addresses that are listed. -/
def NetDevice.Hashes (dev : NetDevice) (h : Nat) : Prop :=
  ∃ addr ∈ dev.listed, bitnr addr = h

/-- What the filter is for. -/
structure Filters (s : Filter) (dev : NetDevice) : Prop where
  all : dev.promisc = true → ∀ addr, Accepts s addr
  multicast : dev.allMulti = true → ∀ addr, IsMulticast addr → Accepts s addr
  listed : dev.promisc = false → dev.allMulti = false →
    ∀ addr ∈ dev.listed, IsMulticast addr → Accepts s addr
  others : dev.promisc = false → dev.allMulti = false →
    ∀ addr, IsMulticast addr → ¬ dev.Hashes (bitnr addr) → ¬ Accepts s addr

/-- The hashes are among the 16 that the driver can store, and they are listed in pairs: the
two halves of the register change places. -/
structure Paired (dev : NetDevice) : Prop where
  small : ∀ addr ∈ dev.listed, IsMulticast addr → bitnr addr % 32 < 8
  pairs : ∀ h < 8, dev.Hashes h ↔ dev.Hashes (h + 32)

/-- When a call leaves a filter that is right.  Without any flag, a bit that is set in the
configuration stays set. -/
def Fits (s : Filter) (dev : NetDevice) : Prop :=
  dev.promisc = true ∨ dev.allMulti = false ∧
    if dev.flags = 0 ∧ s.caf = true then ∀ h < 64, dev.Hashes h
    else if 0 < dev.mcCount then Paired dev
    else dev.flags = 0 → s.mti = true → s.hsh = 0 ∧ s.hsl = 0

end Law

/-! ### The registers -/

section Registers

variable {s : Filter} {dev : NetDevice}

theorem promisc_iff : dev.flags &&& IFF_PROMISC ≠ 0 ↔ dev.promisc = true :=
  Lib.and_bit_ne_zero dev.flags (8 : Fin 32)

theorem allMulti_iff : dev.flags &&& IFF_ALLMULTI ≠ 0 ↔ dev.allMulti = true :=
  Lib.and_bit_ne_zero dev.flags (9 : Fin 32)

theorem and_not_eq {flags mask : U32} (none : flags &&& mask = 0) : flags &&& ~~~mask = flags := by
  ext i inside
  have apart := congrArg (fun word => word[i]) none
  simp only [BitVec.getElem_and] at apart
  simp only [BitVec.getElem_and, BitVec.getElem_not]
  cases set : flags[i] with
  | false => simp
  | true => simpa [set] using apart

theorem setPromisc_of_promisc (promisc : dev.promisc = true) :
    setPromisc s dev = { s with cfg := s.cfg ||| EMAC_CAF } :=
  if_pos (promisc_iff.mpr promisc)

theorem setPromisc_of_not (promisc : dev.promisc = false) :
    setPromisc s dev =
      if dev.flags = 0 then s else { s with cfg := s.cfg &&& ~~~EMAC_CAF } := by
  have none : ¬ (dev.flags &&& IFF_PROMISC ≠ 0) := by
    rw [promisc_iff, promisc]
    simp
  rw [setPromisc, if_neg none, and_not_eq (not_not.mp none), ite_not]

theorem caf_setPromisc :
    (setPromisc s dev).caf = (dev.promisc || (s.caf && decide (dev.flags = 0))) := by
  cases promisc : dev.promisc with
  | true =>
      rw [setPromisc_of_promisc promisc, Bool.true_or, Filter.caf]
      exact (Lib.getLsbD_or_bit s.cfg (4 : Fin 32) 4).trans (by simp)
  | false =>
      rw [setPromisc_of_not promisc, Bool.false_or]
      by_cases zero : dev.flags = 0
      · rw [if_pos zero, decide_eq_true zero, Bool.and_true]
      · rw [if_neg zero, decide_eq_false zero, Bool.and_false]
        exact (Lib.getLsbD_and_not_bit s.cfg (4 : Fin 32) 4).trans (by simp)

theorem mti_setPromisc : (setPromisc s dev).mti = s.mti := by
  cases promisc : dev.promisc with
  | true =>
      rw [setPromisc_of_promisc promisc]
      exact (Lib.getLsbD_or_bit s.cfg (4 : Fin 32) 6).trans (by simp [Filter.mti])
  | false =>
      rw [setPromisc_of_not promisc]
      split
      · rfl
      · exact (Lib.getLsbD_and_not_bit s.cfg (4 : Fin 32) 6).trans (by simp [Filter.mti])

theorem hash_setPromisc :
    (setPromisc s dev).hsh = s.hsh ∧ (setPromisc s dev).hsl = s.hsl := by
  rw [setPromisc]
  split
  · exact ⟨rfl, rfl⟩
  · split
    · exact ⟨rfl, rfl⟩
    · exact ⟨rfl, rfl⟩

/-- The hash register behind `MHal_EMAC_update_HSH`. -/
theorem bit_updateHsh {mc0 mc1 : U8} {h : Nat} :
    (updateHsh s mc0 mc1).bit h =
      if h < 32 then mc0.getLsbD h else decide (h < 64) && mc1.getLsbD (h - 32) := by
  rw [Filter.bit, updateHsh, BitVec.getLsbD_append]
  split
  · simp only [BitVec.getLsbD_setWidth]
    simp [*]
  · simp only [BitVec.getLsbD_setWidth]
    congr 1
    simp only [decide_eq_decide]
    omega

/-- The bit of an address, as it is stored in a byte. -/
theorem getLsbD_narrow {j k : Nat} :
    ((1#32 <<< j).setWidth 8).getLsbD k = decide (k < 8 ∧ k = j) := by
  have shifted : (1#32 <<< j).getLsbD k = decide (k < 32 ∧ k = j) := by
    rw [BitVec.getLsbD_shiftLeft, BitVec.getLsbD_one]
    grind
  rw [BitVec.getLsbD_setWidth, shifted]
  grind

theorem getLsbD_addBit {mcFilter : U8 × U8} {addr : Address} {k : Nat} :
    ((addBit mcFilter addr).1.getLsbD k = true ↔
        mcFilter.1.getLsbD k = true ∨ k < 8 ∧ bitnr addr = k) ∧
      ((addBit mcFilter addr).2.getLsbD k = true ↔
        mcFilter.2.getLsbD k = true ∨ k < 8 ∧ bitnr addr = k + 32) := by
  have bound := bitnr_lt addr
  rw [addBit]
  split
  · simp only [BitVec.getLsbD_or, getLsbD_narrow, Bool.or_eq_true, decide_eq_true_eq]
    constructor
    · exact or_congr_right (by omega)
    · constructor
      · exact Or.inl
      · rintro (set | ⟨small, same⟩)
        · exact set
        · omega
  · simp only [BitVec.getLsbD_or, getLsbD_narrow, Bool.or_eq_true, decide_eq_true_eq]
    constructor
    · constructor
      · exact Or.inl
      · rintro (set | ⟨small, same⟩)
        · exact set
        · omega
    · exact or_congr_right (by omega)

theorem getLsbD_table {addresses : List Address} {mcFilter : U8 × U8} {k : Nat} :
    ((addresses.foldl addBit mcFilter).1.getLsbD k = true ↔
        mcFilter.1.getLsbD k = true ∨ k < 8 ∧ ∃ addr ∈ addresses, bitnr addr = k) ∧
      ((addresses.foldl addBit mcFilter).2.getLsbD k = true ↔
        mcFilter.2.getLsbD k = true ∨ k < 8 ∧ ∃ addr ∈ addresses, bitnr addr = k + 32) := by
  induction addresses generalizing mcFilter with
  | nil => simp
  | cons addr rest inductionHypothesis =>
      obtain ⟨low, high⟩ := @inductionHypothesis (addBit mcFilter addr)
      obtain ⟨lowBit, highBit⟩ := @getLsbD_addBit mcFilter addr k
      rw [List.foldl_cons, low, high, lowBit, highBit]
      simp only [List.exists_mem_cons_iff, or_assoc, and_or_left, and_self]

theorem caf_setMulticast : (setMulticast s dev).caf = s.caf := by
  have set := Lib.getLsbD_or_bit s.cfg (6 : Fin 32) 4
  have cleared := Lib.getLsbD_and_not_bit s.cfg (6 : Fin 32) 4
  rw [setMulticast]
  split
  · exact set.trans (by simp [Filter.caf])
  split
  · exact set.trans (by simp [Filter.caf])
  split
  · exact cleared.trans (by simp [Filter.caf])
  · rfl

theorem caf_setRxMode :
    (setRxMode s dev).caf = (dev.promisc || (s.caf && decide (dev.flags = 0))) := by
  rw [setRxMode, caf_setMulticast, caf_setPromisc]

theorem bit_of_allMulti (allMulti : dev.allMulti = true) {h : Nat} (small : h < 64) :
    (setRxMode s dev).bit h = decide (h % 32 < 8) := by
  rw [setRxMode, setMulticast, if_pos (allMulti_iff.mpr allMulti)]
  have bits := @bit_updateHsh (setPromisc s dev) 0xFF 0xFF h
  refine Eq.trans bits ?_
  have ones : ∀ k, (0xFF : U8).getLsbD k = decide (k < 8) := by
    intro k
    have all : (0xFF : U8) = BitVec.allOnes 8 := by decide
    rw [all, BitVec.getLsbD_allOnes]
  rw [ones, ones]
  grind

/-- The groups that are listed, in the other half of the register. -/
theorem listed_iff (allMulti : dev.allMulti = false) (many : 0 < dev.mcCount) {h : Nat}
    (small : h < 64) :
    (setRxMode s dev).mti = true ∧ ((setRxMode s dev).bit h = true ↔
      h % 32 < 8 ∧ dev.Hashes ((h + 32) % 64)) := by
  have none : ¬ (dev.flags &&& IFF_ALLMULTI ≠ 0) := by
    rw [allMulti_iff, allMulti]
    simp
  rw [setRxMode, setMulticast, if_neg none, if_pos many]
  constructor
  · exact (Lib.getLsbD_or_bit (setPromisc s dev).cfg (6 : Fin 32) 6).trans (by simp)
  · have bits : (setHashTable (setPromisc s dev) dev).bit h = _ := bit_updateHsh
    obtain ⟨low, -⟩ := @getLsbD_table dev.listed (0#8, 0#8) (h - 32)
    obtain ⟨-, high⟩ := @getLsbD_table dev.listed (0#8, 0#8) h
    simp only [BitVec.getLsbD_zero, Bool.false_eq_true, false_or] at low high
    change (setHashTable (setPromisc s dev) dev).bit h = true ↔ _
    rw [bits]
    split
    · have wrap : (h + 32) % 64 = h + 32 := by omega
      have remainder : h % 32 = h := by omega
      rw [high, wrap, remainder, NetDevice.Hashes]
    · have wrap : (h + 32) % 64 = h - 32 := by omega
      have remainder : h % 32 = h - 32 := by omega
      rw [decide_eq_true small, Bool.true_and, low, wrap, remainder, NetDevice.Hashes]

theorem none_iff (allMulti : dev.allMulti = false) (none : dev.mcCount = 0) :
    (setRxMode s dev).mti = (s.mti && decide (dev.flags = 0)) ∧
      (dev.flags = 0 → ∀ h, (setRxMode s dev).bit h = s.bit h) := by
  have others : ¬ (dev.flags &&& IFF_ALLMULTI ≠ 0) := by
    rw [allMulti_iff, allMulti]
    simp
  have few : ¬ 0 < dev.mcCount := by omega
  rw [setRxMode, setMulticast, if_neg others, if_neg few, and_not_eq (not_not.mp others)]
  by_cases zero : dev.flags = 0
  · rw [if_neg (not_not.mpr zero), mti_setPromisc, decide_eq_true zero, Bool.and_true]
    obtain ⟨high, low⟩ := @hash_setPromisc s dev
    refine ⟨rfl, ?_⟩
    intro _ h
    rw [Filter.bit, high, low, Filter.bit]
  · rw [if_pos zero, decide_eq_false zero, Bool.and_false]
    refine ⟨?_, fun same => absurd same zero⟩
    exact (Lib.getLsbD_and_not_bit (setPromisc s dev).cfg (6 : Fin 32) 6).trans (by simp)

end Registers

/-! ### Calls -/

section Calls

variable {s t : Filter} {dev : NetDevice}

theorem accepts_of_caf (caf : t.caf = true) (addr : Address) : Accepts t addr :=
  .inl caf

theorem accepts_iff (caf : t.caf = false) {addr : Address} (multicast : IsMulticast addr) :
    Accepts t addr ↔ t.mti = true ∧ t.bit (bitnr addr) = true := by
  simp [Accepts, caf, multicast]

theorem not_allMulti_of_zero (zero : dev.flags = 0) : dev.allMulti = false := by
  rw [NetDevice.allMulti, zero]
  rfl

theorem filters_of_promisc (promisc : dev.promisc = true) : Filters (setRxMode s dev) dev := by
  have caf : (setRxMode s dev).caf = true := by
    rw [caf_setRxMode, promisc, Bool.true_or]
  refine ⟨fun _ => accepts_of_caf caf, fun _ addr _ => accepts_of_caf caf addr, ?_, ?_⟩
  · intro none
    rw [promisc] at none
    cases none
  · intro none
    rw [promisc] at none
    cases none

/-- The register has 16 of its bits set, and a group with another hash is not accepted. -/
theorem not_filters_of_allMulti (promisc : dev.promisc = false) (allMulti : dev.allMulti = true) :
    ¬ Filters (setRxMode s dev) dev := by
  intro filters
  have some : dev.flags ≠ 0 := by
    intro zero
    rw [not_allMulti_of_zero zero] at allMulti
    cases allMulti
  have caf : (setRxMode s dev).caf = false := by
    rw [caf_setRxMode, promisc, decide_eq_false some, Bool.and_false, Bool.false_or]
  obtain ⟨addr, multicast, hash⟩ := @exists_multicast 8 (by decide)
  obtain ⟨-, bit⟩ := (accepts_iff caf multicast).mp (filters.multicast allMulti addr multicast)
  rw [bit_of_allMulti allMulti (bitnr_lt addr), hash] at bit
  exact absurd bit (by decide)

theorem not_hashes_of_none (none : dev.mcCount = 0) {h : Nat} : ¬ dev.Hashes h := by
  simp [NetDevice.Hashes, NetDevice.listed, none]

variable (promisc : dev.promisc = false) (allMulti : dev.allMulti = false)

include promisc allMulti

/-- The filter of a device with neither flag, by the hashes. -/
theorem filters_iff_of_caf (caf : t.caf = true) :
    Filters t dev ↔ ∀ h < 64, dev.Hashes h := by
  constructor
  · intro filters h small
    obtain ⟨addr, multicast, hash⟩ := exists_multicast small
    by_contra unlisted
    rw [← hash] at unlisted
    exact filters.others promisc allMulti addr multicast unlisted (accepts_of_caf caf addr)
  · intro all
    refine ⟨fun _ => accepts_of_caf caf, fun _ addr _ => accepts_of_caf caf addr, ?_, ?_⟩
    · exact fun _ _ addr _ _ => accepts_of_caf caf addr
    · exact fun _ _ addr _ unlisted => absurd (all _ (bitnr_lt addr)) unlisted

theorem filters_iff_of_not_caf (caf : t.caf = false) :
    Filters t dev ↔
      (∀ addr ∈ dev.listed, IsMulticast addr → t.mti = true ∧ t.bit (bitnr addr) = true) ∧
        ∀ h < 64, t.mti = true ∧ t.bit h = true → dev.Hashes h := by
  constructor
  · intro filters
    constructor
    · intro addr listed multicast
      exact (accepts_iff caf multicast).mp
        (filters.listed promisc allMulti addr listed multicast)
    · intro h small stored
      obtain ⟨addr, multicast, hash⟩ := exists_multicast small
      by_contra unlisted
      rw [← hash] at unlisted stored
      exact filters.others promisc allMulti addr multicast unlisted
        ((accepts_iff caf multicast).mpr stored)
  · rintro ⟨listed, others⟩
    constructor
    · intro yes
      rw [promisc] at yes
      cases yes
    · intro yes
      rw [allMulti] at yes
      cases yes
    · intro _ _ addr member multicast
      exact (accepts_iff caf multicast).mpr (listed addr member multicast)
    · intro _ _ addr multicast unlisted accepts
      exact unlisted (others _ (bitnr_lt addr) ((accepts_iff caf multicast).mp accepts))

theorem filters_iff_paired (caf : (setRxMode s dev).caf = false) (many : 0 < dev.mcCount) :
    Filters (setRxMode s dev) dev ↔ Paired dev := by
  rw [filters_iff_of_not_caf promisc allMulti caf]
  have stored : ∀ {h}, h < 64 → ((setRxMode s dev).mti = true ∧
      (setRxMode s dev).bit h = true ↔ h % 32 < 8 ∧ dev.Hashes ((h + 32) % 64)) := by
    intro h small
    obtain ⟨mti, bit⟩ := @listed_iff s dev allMulti many h small
    rw [bit, and_iff_right mti]
  constructor
  · rintro ⟨listed, others⟩
    constructor
    · exact fun addr member multicast =>
        ((stored (bitnr_lt addr)).mp (listed addr member multicast)).1
    · intro h few
      constructor
      · intro low
        have wrap : (h + 32 + 32) % 64 = h := by omega
        refine others (h + 32) (by omega) ((stored (by omega)).mpr ⟨by omega, ?_⟩)
        rwa [wrap]
      · intro high
        have wrap : (h + 32) % 64 = h + 32 := by omega
        refine others h (by omega) ((stored (by omega)).mpr ⟨by omega, ?_⟩)
        rwa [wrap]
  · rintro ⟨small, pairs⟩
    have swap : ∀ {h}, h < 64 → h % 32 < 8 → (dev.Hashes h ↔ dev.Hashes ((h + 32) % 64)) := by
      intro h inside few
      by_cases low : h < 32
      · have wrap : (h + 32) % 64 = h + 32 := by omega
        rw [wrap]
        exact pairs h (by omega)
      · have wrap : (h + 32) % 64 = h - 32 := by omega
        have back : h - 32 + 32 = h := by omega
        rw [wrap, pairs (h - 32) (by omega), back]
    constructor
    · intro addr member multicast
      have few := small addr member multicast
      exact (stored (bitnr_lt addr)).mpr
        ⟨few, (swap (bitnr_lt addr) few).mp ⟨addr, member, rfl⟩⟩
    · intro h inside isStored
      obtain ⟨few, other⟩ := (stored inside).mp isStored
      exact (swap inside few).mpr other

theorem filters_iff_of_none (caf : (setRxMode s dev).caf = false) (none : dev.mcCount = 0) :
    Filters (setRxMode s dev) dev ↔
      (dev.flags = 0 → s.mti = true → s.hsh = 0 ∧ s.hsl = 0) := by
  rw [filters_iff_of_not_caf promisc allMulti caf]
  obtain ⟨mti, bits⟩ := @none_iff s dev allMulti none
  have empty : dev.listed = [] := by
    rw [NetDevice.listed, none, List.take_zero]
  have nothing : (∀ addr ∈ dev.listed, IsMulticast addr →
      (setRxMode s dev).mti = true ∧ (setRxMode s dev).bit (bitnr addr) = true) ↔ True := by
    simp [empty]
  rw [nothing, true_and, mti]
  by_cases zero : dev.flags = 0
  · rw [decide_eq_true zero, Bool.and_true]
    have cleared : (s.hsh = 0 ∧ s.hsl = 0) ↔ ∀ h < 64, s.bit h = false := by
      constructor
      · rintro ⟨high, low⟩ h -
        rw [Filter.bit, high, low]
        simp
      · intro clear
        constructor
        · ext i inside
          have bit := clear (i + 32) (by omega)
          rw [Filter.bit, BitVec.getLsbD_append, if_neg (by omega), Nat.add_sub_cancel,
            BitVec.getLsbD_eq_getElem inside] at bit
          simpa using bit
        · ext i inside
          have bit := clear i (by omega)
          rw [Filter.bit, BitVec.getLsbD_append, if_pos inside,
            BitVec.getLsbD_eq_getElem inside] at bit
          simpa using bit
    rw [cleared]
    constructor
    · intro others _ isSet h small
      by_contra bit
      rw [Bool.not_eq_false] at bit
      exact not_hashes_of_none none
        (others h small ⟨isSet, (bits zero h).trans bit⟩)
    · rintro clear h small ⟨isSet, bit⟩
      rw [bits zero h, clear zero isSet h small] at bit
      cases bit
  · rw [decide_eq_false zero, Bool.and_false]
    constructor
    · exact fun _ same => absurd same zero
    · rintro - h - ⟨isSet, -⟩
      cases isSet

omit promisc allMulti in
theorem filters_step_iff : Filters (setRxMode s dev) dev ↔ Fits s dev := by
  have caf := @caf_setRxMode s dev
  rw [Fits]
  cases promisc : dev.promisc with
  | true => simp [filters_of_promisc promisc]
  | false =>
    rw [promisc, Bool.false_or] at caf
    cases allMulti : dev.allMulti with
    | true => simp [not_filters_of_allMulti promisc allMulti]
    | false =>
      simp only [Bool.false_eq_true, false_or, true_and]
      split
      · rename_i kept
        rw [kept.1, kept.2] at caf
        exact filters_iff_of_caf promisc allMulti caf
      · rename_i cleared
        have off : (setRxMode s dev).caf = false := by
          rw [caf, Bool.and_eq_false_iff, decide_eq_false_iff_not]
          by_cases zero : dev.flags = 0
          · exact .inl (Bool.eq_false_iff.mpr fun set => cleared ⟨zero, set⟩)
          · exact .inr zero
        split
        · rename_i many
          exact filters_iff_paired promisc allMulti off many
        · rename_i few
          exact filters_iff_of_none promisc allMulti off (Nat.eq_zero_of_not_pos few)

end Calls

/-- After a sequence of calls, the filter is right when the last of them fits. -/
theorem filters_iff (s : Filter) (calls : List NetDevice) (last : NetDevice) :
    Filters ((calls ++ [last]).foldl setRxMode s) last ↔ Fits (calls.foldl setRxMode s) last := by
  rw [List.foldl_append, List.foldl_cons, List.foldl_nil]
  exact filters_step_iff

/-- The only group on the list is not accepted: its hash is 8. -/
theorem group_not_accepted :
    ¬ ∀ (s : Filter) (calls : List NetDevice) (last : NetDevice),
      Filters ((calls ++ [last]).foldl setRxMode s) last := by
  intro law
  have listed := (law ⟨0, 0, 0⟩ [] ⟨0x1003, [group 2], 1⟩).listed rfl rfl (group 2)
    (List.mem_cons_self ..) (isMulticast_group 2)
  rcases listed with caf | ⟨-, -, bit⟩
  · exact absurd caf (by decide)
  · have hash := bitnr_lastBytes 8
    change bitnr (group 2) = 8 at hash
    rw [hash] at bit
    exact absurd bit (by decide +kernel)

end Gp2Firmware.Emac.MulticastFilter
