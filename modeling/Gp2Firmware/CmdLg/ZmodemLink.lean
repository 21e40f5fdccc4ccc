import Mathlib.Tactic.Common
import Mathlib.Algebra.Group.Nat.Defs

/-!
# Characters, headers and subpackets of the ZMODEM receiver

Characters come from the console one after the other; a negative number stands for
a failure.  The functions below take escaped characters, headers and data
subpackets from them, and give nothing while a character is still to come.
-/

namespace Gp2Firmware.CmdLg.Zmodem

abbrev U8 := BitVec 8
abbrev U16 := BitVec 16
abbrev U32 := BitVec 32
abbrev S32 := BitVec 32

def crctab : Array U16 :=
  #[0x0000, 0x1021, 0x2042, 0x3063, 0x4084, 0x50a5, 0x60c6, 0x70e7, 0x8108, 0x9129,
    0xa14a, 0xb16b, 0xc18c, 0xd1ad, 0xe1ce, 0xf1ef, 0x1231, 0x0210, 0x3273, 0x2252,
    0x52b5, 0x4294, 0x72f7, 0x62d6, 0x9339, 0x8318, 0xb37b, 0xa35a, 0xd3bd, 0xc39c,
    0xf3ff, 0xe3de, 0x2462, 0x3443, 0x0420, 0x1401, 0x64e6, 0x74c7, 0x44a4, 0x5485,
    0xa56a, 0xb54b, 0x8528, 0x9509, 0xe5ee, 0xf5cf, 0xc5ac, 0xd58d, 0x3653, 0x2672,
    0x1611, 0x0630, 0x76d7, 0x66f6, 0x5695, 0x46b4, 0xb75b, 0xa77a, 0x9719, 0x8738,
    0xf7df, 0xe7fe, 0xd79d, 0xc7bc, 0x48c4, 0x58e5, 0x6886, 0x78a7, 0x0840, 0x1861,
    0x2802, 0x3823, 0xc9cc, 0xd9ed, 0xe98e, 0xf9af, 0x8948, 0x9969, 0xa90a, 0xb92b,
    0x5af5, 0x4ad4, 0x7ab7, 0x6a96, 0x1a71, 0x0a50, 0x3a33, 0x2a12, 0xdbfd, 0xcbdc,
    0xfbbf, 0xeb9e, 0x9b79, 0x8b58, 0xbb3b, 0xab1a, 0x6ca6, 0x7c87, 0x4ce4, 0x5cc5,
    0x2c22, 0x3c03, 0x0c60, 0x1c41, 0xedae, 0xfd8f, 0xcdec, 0xddcd, 0xad2a, 0xbd0b,
    0x8d68, 0x9d49, 0x7e97, 0x6eb6, 0x5ed5, 0x4ef4, 0x3e13, 0x2e32, 0x1e51, 0x0e70,
    0xff9f, 0xefbe, 0xdfdd, 0xcffc, 0xbf1b, 0xaf3a, 0x9f59, 0x8f78, 0x9188, 0x81a9,
    0xb1ca, 0xa1eb, 0xd10c, 0xc12d, 0xf14e, 0xe16f, 0x1080, 0x00a1, 0x30c2, 0x20e3,
    0x5004, 0x4025, 0x7046, 0x6067, 0x83b9, 0x9398, 0xa3fb, 0xb3da, 0xc33d, 0xd31c,
    0xe37f, 0xf35e, 0x02b1, 0x1290, 0x22f3, 0x32d2, 0x4235, 0x5214, 0x6277, 0x7256,
    0xb5ea, 0xa5cb, 0x95a8, 0x8589, 0xf56e, 0xe54f, 0xd52c, 0xc50d, 0x34e2, 0x24c3,
    0x14a0, 0x0481, 0x7466, 0x6447, 0x5424, 0x4405, 0xa7db, 0xb7fa, 0x8799, 0x97b8,
    0xe75f, 0xf77e, 0xc71d, 0xd73c, 0x26d3, 0x36f2, 0x0691, 0x16b0, 0x6657, 0x7676,
    0x4615, 0x5634, 0xd94c, 0xc96d, 0xf90e, 0xe92f, 0x99c8, 0x89e9, 0xb98a, 0xa9ab,
    0x5844, 0x4865, 0x7806, 0x6827, 0x18c0, 0x08e1, 0x3882, 0x28a3, 0xcb7d, 0xdb5c,
    0xeb3f, 0xfb1e, 0x8bf9, 0x9bd8, 0xabbb, 0xbb9a, 0x4a75, 0x5a54, 0x6a37, 0x7a16,
    0x0af1, 0x1ad0, 0x2ab3, 0x3a92, 0xfd2e, 0xed0f, 0xdd6c, 0xcd4d, 0xbdaa, 0xad8b,
    0x9de8, 0x8dc9, 0x7c26, 0x6c07, 0x5c64, 0x4c45, 0x3ca2, 0x2c83, 0x1ce0, 0x0cc1,
    0xef1f, 0xff3e, 0xcf5d, 0xdf7c, 0xaf9b, 0xbfba, 0x8fd9, 0x9ff8, 0x6e17, 0x7e36,
    0x4e55, 0x5e74, 0x2e93, 0x3eb2, 0x0ed1, 0x1ef0]

def cr3tab : Array U32 :=
  #[0x00000000, 0x77073096, 0xee0e612c, 0x990951ba, 0x076dc419, 0x706af48f, 0xe963a535,
    0x9e6495a3, 0x0edb8832, 0x79dcb8a4, 0xe0d5e91e, 0x97d2d988, 0x09b64c2b, 0x7eb17cbd,
    0xe7b82d07, 0x90bf1d91, 0x1db71064, 0x6ab020f2, 0xf3b97148, 0x84be41de, 0x1adad47d,
    0x6ddde4eb, 0xf4d4b551, 0x83d385c7, 0x136c9856, 0x646ba8c0, 0xfd62f97a, 0x8a65c9ec,
    0x14015c4f, 0x63066cd9, 0xfa0f3d63, 0x8d080df5, 0x3b6e20c8, 0x4c69105e, 0xd56041e4,
    0xa2677172, 0x3c03e4d1, 0x4b04d447, 0xd20d85fd, 0xa50ab56b, 0x35b5a8fa, 0x42b2986c,
    0xdbbbc9d6, 0xacbcf940, 0x32d86ce3, 0x45df5c75, 0xdcd60dcf, 0xabd13d59, 0x26d930ac,
    0x51de003a, 0xc8d75180, 0xbfd06116, 0x21b4f4b5, 0x56b3c423, 0xcfba9599, 0xb8bda50f,
    0x2802b89e, 0x5f058808, 0xc60cd9b2, 0xb10be924, 0x2f6f7c87, 0x58684c11, 0xc1611dab,
    0xb6662d3d, 0x76dc4190, 0x01db7106, 0x98d220bc, 0xefd5102a, 0x71b18589, 0x06b6b51f,
    0x9fbfe4a5, 0xe8b8d433, 0x7807c9a2, 0x0f00f934, 0x9609a88e, 0xe10e9818, 0x7f6a0dbb,
    0x086d3d2d, 0x91646c97, 0xe6635c01, 0x6b6b51f4, 0x1c6c6162, 0x856530d8, 0xf262004e,
    0x6c0695ed, 0x1b01a57b, 0x8208f4c1, 0xf50fc457, 0x65b0d9c6, 0x12b7e950, 0x8bbeb8ea,
    0xfcb9887c, 0x62dd1ddf, 0x15da2d49, 0x8cd37cf3, 0xfbd44c65, 0x4db26158, 0x3ab551ce,
    0xa3bc0074, 0xd4bb30e2, 0x4adfa541, 0x3dd895d7, 0xa4d1c46d, 0xd3d6f4fb, 0x4369e96a,
    0x346ed9fc, 0xad678846, 0xda60b8d0, 0x44042d73, 0x33031de5, 0xaa0a4c5f, 0xdd0d7cc9,
    0x5005713c, 0x270241aa, 0xbe0b1010, 0xc90c2086, 0x5768b525, 0x206f85b3, 0xb966d409,
    0xce61e49f, 0x5edef90e, 0x29d9c998, 0xb0d09822, 0xc7d7a8b4, 0x59b33d17, 0x2eb40d81,
    0xb7bd5c3b, 0xc0ba6cad, 0xedb88320, 0x9abfb3b6, 0x03b6e20c, 0x74b1d29a, 0xead54739,
    0x9dd277af, 0x04db2615, 0x73dc1683, 0xe3630b12, 0x94643b84, 0x0d6d6a3e, 0x7a6a5aa8,
    0xe40ecf0b, 0x9309ff9d, 0x0a00ae27, 0x7d079eb1, 0xf00f9344, 0x8708a3d2, 0x1e01f268,
    0x6906c2fe, 0xf762575d, 0x806567cb, 0x196c3671, 0x6e6b06e7, 0xfed41b76, 0x89d32be0,
    0x10da7a5a, 0x67dd4acc, 0xf9b9df6f, 0x8ebeeff9, 0x17b7be43, 0x60b08ed5, 0xd6d6a3e8,
    0xa1d1937e, 0x38d8c2c4, 0x4fdff252, 0xd1bb67f1, 0xa6bc5767, 0x3fb506dd, 0x48b2364b,
    0xd80d2bda, 0xaf0a1b4c, 0x36034af6, 0x41047a60, 0xdf60efc3, 0xa867df55, 0x316e8eef,
    0x4669be79, 0xcb61b38c, 0xbc66831a, 0x256fd2a0, 0x5268e236, 0xcc0c7795, 0xbb0b4703,
    0x220216b9, 0x5505262f, 0xc5ba3bbe, 0xb2bd0b28, 0x2bb45a92, 0x5cb36a04, 0xc2d7ffa7,
    0xb5d0cf31, 0x2cd99e8b, 0x5bdeae1d, 0x9b64c2b0, 0xec63f226, 0x756aa39c, 0x026d930a,
    0x9c0906a9, 0xeb0e363f, 0x72076785, 0x05005713, 0x95bf4a82, 0xe2b87a14, 0x7bb12bae,
    0x0cb61b38, 0x92d28e9b, 0xe5d5be0d, 0x7cdcefb7, 0x0bdbdf21, 0x86d3d2d4, 0xf1d4e242,
    0x68ddb3f8, 0x1fda836e, 0x81be16cd, 0xf6b9265b, 0x6fb077e1, 0x18b74777, 0x88085ae6,
    0xff0f6a70, 0x66063bca, 0x11010b5c, 0x8f659eff, 0xf862ae69, 0x616bffd3, 0x166ccf45,
    0xa00ae278, 0xd70dd2ee, 0x4e048354, 0x3903b3c2, 0xa7672661, 0xd06016f7, 0x4969474d,
    0x3e6e77db, 0xaed16a4a, 0xd9d65adc, 0x40df0b66, 0x37d83bf0, 0xa9bcae53, 0xdebb9ec5,
    0x47b2cf7f, 0x30b5ffe9, 0xbdbdf21c, 0xcabac28a, 0x53b39330, 0x24b4a3a6, 0xbad03605,
    0xcdd70693, 0x54de5729, 0x23d967bf, 0xb3667a2e, 0xc4614ab8, 0x5d681b02, 0x2a6f2b94,
    0xb40bbe37, 0xc30c8ea1, 0x5a05df1b, 0x2d02ef8d]

def updcrc (cp : S32) (crc : U16) : U16 :=
  crctab.getD ((crc >>> 8) &&& 255).toNat 0 ^^^ (crc <<< 8) ^^^ cp.setWidth 16

def UPDC32 (b : S32) (c : U32) : U32 :=
  cr3tab.getD ((c ^^^ b) &&& 0xff).toNat 0 ^^^ ((c >>> 8) &&& 0x00FFFFFF)

section Constants

def RCDO : S32 := -3
def TIMEOUT : S32 := -2
def ERROR : S32 := -1
def XON : S32 := 0x11
def XOFF : S32 := 0x13
def CAN : S32 := 0x18

def ZPAD : S32 := 0x2A
def ZDLE : S32 := 0x18
def ZBIN : S32 := 0x41
def ZHEX : S32 := 0x42
def ZBIN32 : S32 := 0x43

def ZACK : S32 := 3
def ZFILE : S32 := 4
def ZSKIP : S32 := 5
def ZNAK : S32 := 6
def ZRPOS : S32 := 9
def ZDATA : S32 := 10
def ZEOF : S32 := 11
def ZCAN : S32 := 16

def ZCRCE : S32 := 0x68
def ZCRCG : S32 := 0x69
def ZCRCQ : S32 := 0x6A
def ZCRCW : S32 := 0x6B
def ZRUB0 : S32 := 0x6C
def ZRUB1 : S32 := 0x6D

def GOTOR : S32 := 0x100
def GOTCRCE : S32 := ZCRCE ||| GOTOR
def GOTCRCG : S32 := ZCRCG ||| GOTOR
def GOTCRCQ : S32 := ZCRCQ ||| GOTOR
def GOTCRCW : S32 := ZCRCW ||| GOTOR
def GOTCAN : S32 := GOTOR ||| 0x18

def Zrwindow : U32 := 1400
def ZModem_Baudrate : U32 := 115200

end Constants

/-- The variables of the receiver, with the characters to come. -/
structure Modem where
  line : List S32
  rxhdr : Nat → U8
  rxframeind : S32
  rxtype : S32
  crc32 : S32
  zctlesc : Bool
  zmodemRequested : Bool

section Characters

/-- `c` is a control character. -/
def isControl (c : S32) : Bool :=
  c &&& 0x60 = 0

def isFlow (c : S32) : Bool :=
  c = XON ∨ c = XON ||| 0x80 ∨ c = XOFF ∨ c = XOFF ||| 0x80

def readline (m : Modem) : Option (S32 × Modem) :=
  match m.line with
  | [] => none
  | c :: rest => some (c, { m with line := rest })

def noxrd7From (zctlesc : Bool) : List S32 → Option (S32 × List S32)
  | [] => none
  | c :: rest =>
      if c.slt 0 then
        some (c, rest)
      else
        let c := c &&& 0x7f
        if c = XON ∨ c = XOFF then
          noxrd7From zctlesc rest
        else if c = 0x0d ∨ c = 0x0a ∨ c = ZDLE then
          some (c, rest)
        else if zctlesc ∧ isControl c then
          noxrd7From zctlesc rest
        else
          some (c, rest)

def noxrd7 (m : Modem) : Option (S32 × Modem) :=
  (noxrd7From m.zctlesc m.line).map fun (c, rest) => (c, { m with line := rest })

/-- What an escaped character stands for; nothing if it is passed over. -/
def zdlEscape (zctlesc : Bool) (c : S32) : Option S32 :=
  if c = CAN then some GOTCAN
  else if c = ZCRCE ∨ c = ZCRCG ∨ c = ZCRCQ ∨ c = ZCRCW then some (c ||| GOTOR)
  else if c = ZRUB0 then some 0x7f
  else if c = ZRUB1 then some 0xff
  else if isFlow c then none
  else if zctlesc ∧ isControl c then none
  else if c &&& 0x60 = 0x40 then some (c ^^^ 0x40)
  else some ERROR

/-- In front of a character (`none`), or behind the escape with a number of `CAN` that may
still be read. -/
def zdlreadFrom (zctlesc : Bool) : Option Nat → List S32 → Option (S32 × List S32)
  | _, [] => none
  | none, c :: rest =>
      if c &&& 0x60 ≠ 0 then some (c, rest)
      else if c = ZDLE then zdlreadFrom zctlesc (some 3) rest
      else if isFlow c then zdlreadFrom zctlesc none rest
      else if zctlesc ∧ isControl c then zdlreadFrom zctlesc none rest
      else some (c, rest)
  | some cans, c :: rest =>
      if c.slt 0 then some (c, rest)
      else if c = CAN ∧ cans ≠ 0 then zdlreadFrom zctlesc (some (cans - 1)) rest
      else
        match zdlEscape zctlesc c with
        | some c => some (c, rest)
        | none => zdlreadFrom zctlesc (some 3) rest

def zdlread (m : Modem) : Option (S32 × Modem) :=
  (zdlreadFrom m.zctlesc none m.line).map fun (c, rest) => (c, { m with line := rest })

/-- `c` is not one byte but something else. -/
def isSpecial (c : S32) : Bool :=
  c &&& ~~~0xff ≠ 0

end Characters

section Headers

/-- A digit of a hexadecimal number; nothing if it is none. -/
def hexDigit (c : S32) : Option S32 :=
  let n := c - 0x30
  let n := if (9 : S32).slt n then n - 39 else n
  if n &&& ~~~0xf ≠ 0 then none else some n

def zgeth1 (m : Modem) : Option (S32 × Modem) := do
  let (c, m) ← noxrd7 m
  if c.slt 0 then
    some (c, m)
  else
    match hexDigit c with
    | none => some (ERROR, m)
    | some n =>
        let (c, m) ← noxrd7 m
        if c.slt 0 then
          some (c, m)
        else
          match hexDigit c with
          | none => some (ERROR, m)
          | some c => some (c + (n <<< 4), m)

/-- The type, the four bytes and the check bytes of a header, stored as they come; the
check value over all, or what is read instead of one of them. -/
def readHeader {Crc : Type} (read : Modem → Option (S32 × Modem)) (bad : S32 → Bool)
    (update : S32 → Crc → Crc) : Nat → Nat → Crc → Modem → Option (Except S32 Crc × Modem)
  | 0, _, crc, m => some (.ok crc, m)
  | left + 1, at_, crc, m => do
      let (c, m) ← read m
      if bad c then
        some (.error c, m)
      else
        let m :=
          if at_ = 0 then { m with rxtype := c }
          else if at_ ≤ 4 then
            { m with rxhdr := Function.update m.rxhdr (at_ - 1) (c.setWidth 8) }
          else m
        readHeader read bad update left (at_ + 1) (update c crc) m

def zrbhdr (m : Modem) : Option (S32 × Modem) := do
  match ← readHeader zdlread isSpecial updcrc 7 0 0 m with
  | (.error c, m) => some (c, m)
  | (.ok crc, m) =>
      if crc ≠ 0 then some (ERROR, m)
      else some (m.rxtype, { m with zmodemRequested := true })

def zrbhdr32 (m : Modem) : Option (S32 × Modem) := do
  match ← readHeader zdlread isSpecial UPDC32 9 0 0xFFFFFFFF m with
  | (.error c, m) => some (c, m)
  | (.ok crc, m) =>
      if crc ≠ 0xDEBB20E3 then some (ERROR, m)
      else some (m.rxtype, { m with zmodemRequested := true })

def zrhhdr (m : Modem) : Option (S32 × Modem) := do
  match ← readHeader zgeth1 (fun c => c.slt 0) updcrc 7 0 0 m with
  | (.error c, m) => some (c, m)
  | (.ok crc, m) =>
      if crc ≠ 0 then
        some (ERROR, m)
      else
        let (c, m) ← readline m
        let m ← if c = 0x8d ∨ c = 0x0d then (readline m).map (·.2) else some m
        some (m.rxtype, { m with zmodemRequested := true })

/-- The labels of `zgethdr` in front of a read. -/
inductive HdrAt where
  | again
  | gotcan
  | splat

/-- Behind the label `fifi`. -/
def fifi (c : S32) : S32 :=
  if c = GOTCAN then ZCAN else c

/-- `zgethdr` from a label on; each turn takes a character. -/
def zgethdrFrom : Nat → HdrAt → Int → U32 → Modem → Option (S32 × Modem)
  | 0, _, _, _, _ => none
  | turns + 1, .again, cancount, maxGarbage, m => do
      let (c, m) ← readline m
      if c = RCDO ∨ c = TIMEOUT then
        some (fifi c, m)
      else if c = CAN then
        zgethdrFrom turns .gotcan cancount maxGarbage m
      else if c = ZPAD ||| 0x80 ∨ c = ZPAD then
        zgethdrFrom turns .splat 5 maxGarbage m
      else if maxGarbage - 1 = 0 then
        some (ERROR, m)
      else
        zgethdrFrom turns .again 5 (maxGarbage - 1) m
  | turns + 1, .gotcan, cancount, maxGarbage, m =>
      let cancount := cancount - 1
      if cancount ≤ 0 then
        some (fifi ZCAN, m)
      else do
        let (c, m) ← readline m
        if c = TIMEOUT then
          zgethdrFrom turns .again cancount maxGarbage m
        else if c = ZCRCW then
          some (fifi ERROR, m)
        else if c = RCDO then
          some (fifi c, m)
        else if c = CAN then
          let cancount := cancount - 1
          if cancount ≤ 0 then some (fifi ZCAN, m)
          else zgethdrFrom turns .again cancount maxGarbage m
        else if maxGarbage - 1 = 0 then
          some (ERROR, m)
        else
          zgethdrFrom turns .again 5 (maxGarbage - 1) m
  | turns + 1, .splat, cancount, maxGarbage, m => do
      let (c, m) ← noxrd7 m
      if c = ZPAD then
        zgethdrFrom turns .splat cancount maxGarbage m
      else if c = RCDO ∨ c = TIMEOUT then
        some (fifi c, m)
      else if c ≠ ZDLE then
        if maxGarbage - 1 = 0 then some (ERROR, m)
        else zgethdrFrom turns .again 5 (maxGarbage - 1) m
      else
        let (c, m) ← noxrd7 m
        if c = RCDO ∨ c = TIMEOUT then
          some (fifi c, m)
        else if c = ZBIN then
          (zrbhdr { m with rxframeind := ZBIN, crc32 := 0 }).map fun (c, m) => (fifi c, m)
        else if c = ZBIN32 then
          (zrbhdr32 { m with rxframeind := ZBIN32, crc32 := ZBIN32 }).map
            fun (c, m) => (fifi c, m)
        else if c = ZHEX then
          (zrhhdr { m with rxframeind := ZHEX, crc32 := 0 }).map fun (c, m) => (fifi c, m)
        else if c = CAN then
          zgethdrFrom turns .gotcan cancount maxGarbage m
        else if maxGarbage - 1 = 0 then
          some (ERROR, m)
        else
          zgethdrFrom turns .again 5 (maxGarbage - 1) m

def zgethdr (m : Modem) : Option (S32 × Modem) :=
  zgethdrFrom (m.line.length + 1) .again 5 (Zrwindow + ZModem_Baudrate)
    { m with rxframeind := 0, rxtype := 0 }

end Headers

section Subpackets

/-- The end of a subpacket. -/
def isEnd (c : S32) : Bool :=
  c = GOTCRCE ∨ c = GOTCRCG ∨ c = GOTCRCQ ∨ c = GOTCRCW

/-- The characters of a subpacket in `buf`, while there is room for `left` ones; or behind
an end with some of its check bytes still to come.  Each turn but the last takes a
character. -/
def zrdatFrom {Crc : Type} (update : S32 → Crc → Crc) (good : Crc → Bool) (bytes : Nat) :
    Nat → Option (S32 × Nat) → Crc → Nat → List U8 → Modem → Option (S32 × List U8 × Modem)
  | 0, _, _, _, _, _ => none
  | _ + 1, none, _, 0, buf, m => some (ERROR, buf, m)
  | _ + 1, some (d, 0), crc, _, buf, m => some (if good crc then d else ERROR, buf, m)
  | turns + 1, some (d, check + 1), crc, left, buf, m => do
      let (c, m) ← zdlread m
      if isSpecial c then
        if isEnd c then
          zrdatFrom update good bytes turns (some (c, bytes)) (update (c &&& 0xff) crc) left buf m
        else
          some (if c = GOTCAN then ZCAN else c, buf, m)
      else
        zrdatFrom update good bytes turns (some (d, check)) (update c crc) left buf m
  | turns + 1, none, crc, left + 1, buf, m => do
      let (c, m) ← zdlread m
      if isSpecial c then
        if isEnd c then
          zrdatFrom update good bytes turns (some (c, bytes)) (update (c &&& 0xff) crc) left buf m
        else
          some (if c = GOTCAN then ZCAN else c, buf, m)
      else
        zrdatFrom update good bytes turns none (update c crc) left (buf ++ [c.setWidth 8]) m

def zrdat32 (length : Nat) (m : Modem) : Option (S32 × List U8 × Modem) :=
  zrdatFrom UPDC32 (fun crc => crc = 0xDEBB20E3) 4 (m.line.length + 1) none 0xFFFFFFFF
    (length + 1) [] m

/-- The result, and what is stored in the buffer: on an end the bytes of the subpacket. -/
def zrdata (length : Nat) (m : Modem) : Option (S32 × List U8 × Modem) :=
  if m.rxframeind = ZBIN32 then
    zrdat32 length m
  else
    zrdatFrom updcrc (fun crc => crc = 0) 2 (m.line.length + 1) none 0 (length + 1) [] m

end Subpackets

section Checks

/-- The check bytes fit to the bytes and the end of a subpacket; an end that is read in the
place of a check byte begins them anew. -/
def Checked (frame : S32) (payload : List U8) (d : S32) : Prop :=
  ∃ restarts check,
    if frame = ZBIN32 then
      check.length = 4 ∧
        (payload.map (·.setWidth 32) ++ restarts ++ (d &&& 0xff) :: check).foldl
          (fun crc c => UPDC32 c crc) 0xFFFFFFFF = 0xDEBB20E3
    else
      check.length = 2 ∧
        (payload.map (·.setWidth 32) ++ restarts ++ (d &&& 0xff) :: check).foldl
          (fun crc c => updcrc c crc) 0 = 0

variable {Crc : Type} {update : S32 → Crc → Crc} {good : Crc → Bool} {bytes turns left : Nat}
  {d : S32} {crc : Crc} {buf stored : List U8} {m later : Modem}

theorem setWidth_of_not_special {c : S32} (plain : isSpecial c = false) :
    (c.setWidth 8).setWidth 32 = c := by
  have low : c &&& ~~~(0xff : S32) = 0 := by simpa [isSpecial] using plain
  apply BitVec.eq_of_getLsbD_eq
  intro k inside
  have bit : (c &&& ~~~(0xff : S32)).getLsbD k = false := by
    rw [low]
    exact BitVec.getLsbD_zero
  rw [BitVec.getLsbD_and, BitVec.getLsbD_not,
    show (0xff : S32) = BitVec.ofNat 32 (2 ^ 8 - 1) by decide, BitVec.getLsbD_ofNat,
    Nat.testBit_two_pow_sub_one] at bit
  rw [BitVec.getLsbD_setWidth, BitVec.getLsbD_setWidth]
  by_cases byte : k < 8
  · simp [inside, byte]
  · simp only [inside, decide_true, byte, decide_false, Bool.and_false, Bool.not_false,
      Bool.and_true] at bit ⊢
    exact bit.symm

/-- The check value from a place of a subpacket on. -/
def Fits (update : S32 → Crc → Crc) (good : Crc → Bool) (crc : Crc) (chars : List S32) : Prop :=
  good (chars.foldl (fun crc c => update c crc) crc) = true

/-- What may follow an end, with the end in front of it. -/
theorem fits_of_end {first : S32}
    (follows : (d = first ∧ ∃ check, check.length = bytes ∧
        Fits update good (update (first &&& 0xff) crc) check) ∨
      ∃ restarts check, check.length = bytes ∧
        Fits update good (update (first &&& 0xff) crc) (restarts ++ (d &&& 0xff) :: check)) :
    ∃ restarts check, check.length = bytes ∧
      Fits update good crc (restarts ++ (d &&& 0xff) :: check) := by
  rcases follows with ⟨rfl, check, count, fits⟩ | ⟨restarts, check, count, fits⟩
  · exact ⟨[], check, count, fits⟩
  · exact ⟨(first &&& 0xff) :: restarts, check, count, fits⟩

/-- No end is the result where the reading is given up. -/
theorem not_isEnd_of_special {c : S32} (other : isEnd c = false)
    (result : (if c = GOTCAN then ZCAN else c) = d) : isEnd d = false := by
  rw [← result]
  split
  · decide
  · exact other

theorem zrdatFrom_checked {state : Option (S32 × Nat)}
    (read : zrdatFrom update good bytes turns state crc left buf m = some (d, stored, later))
    (ends : isEnd d = true) :
    match state with
    | none => ∃ payload restarts check, stored = buf ++ payload ∧ check.length = bytes ∧
        Fits update good crc
          (payload.map (·.setWidth 32) ++ (restarts ++ (d &&& 0xff) :: check))
    | some (first, count) => stored = buf ∧
        ((d = first ∧ ∃ check, check.length = count ∧ Fits update good crc check) ∨
        ∃ restarts check, check.length = bytes ∧
          Fits update good crc (restarts ++ (d &&& 0xff) :: check)) := by
  induction turns generalizing state crc left buf m with
  | zero => simp [zrdatFrom] at read
  | succ turns inductionHypothesis =>
      rcases state with _ | ⟨first, _ | count⟩
      · cases left with
        | zero =>
            simp only [zrdatFrom, Option.some.injEq, Prod.mk.injEq] at read
            obtain ⟨rfl, -⟩ := read
            exact absurd ends (by decide)
        | succ left =>
            simp only [zrdatFrom, Option.bind_eq_bind, Option.bind_eq_some_iff] at read
            obtain ⟨⟨c, m⟩, -, goes⟩ := read
            simp only at goes ⊢
            split at goes
            · split at goes
              · obtain ⟨same, follows⟩ := inductionHypothesis goes
                obtain ⟨restarts, check, count, fits⟩ := fits_of_end follows
                exact ⟨[], restarts, check, by simp [same], count, fits⟩
              · rename_i other
                simp only [Option.some.injEq, Prod.mk.injEq] at goes
                have := not_isEnd_of_special (Bool.eq_false_iff.mpr other) goes.1
                rw [ends] at this
                cases this
            · rename_i plain
              obtain ⟨payload, restarts, check, same, count, fits⟩ := inductionHypothesis goes
              refine ⟨c.setWidth 8 :: payload, restarts, check, by simp [same], count, ?_⟩
              rw [List.map_cons, setWidth_of_not_special (Bool.eq_false_iff.mpr plain)]
              exact fits
      · simp only [zrdatFrom, Option.some.injEq, Prod.mk.injEq] at read
        obtain ⟨result, rfl, -⟩ := read
        split at result
        · rename_i fits
          exact ⟨rfl, .inl ⟨result.symm, [], rfl, fits⟩⟩
        · rw [← result] at ends
          exact absurd ends (by decide)
      · simp only [zrdatFrom, Option.bind_eq_bind, Option.bind_eq_some_iff] at read
        obtain ⟨⟨c, m⟩, -, goes⟩ := read
        simp only at goes ⊢
        split at goes
        · split at goes
          · obtain ⟨same, follows⟩ := inductionHypothesis goes
            exact ⟨same, .inr (fits_of_end follows)⟩
          · rename_i other
            simp only [Option.some.injEq, Prod.mk.injEq] at goes
            have := not_isEnd_of_special (Bool.eq_false_iff.mpr other) goes.1
            rw [ends] at this
            cases this
        · obtain ⟨same, ⟨rfl, check, length, fits⟩ | ⟨restarts, check, length, fits⟩⟩ :=
            inductionHypothesis goes
          · exact ⟨same, .inl ⟨rfl, c :: check, by simp [length], fits⟩⟩
          · exact ⟨same, .inr ⟨c :: restarts, check, length, fits⟩⟩

/-- A subpacket that `zrdata` takes is checked as its frame demands. -/
theorem zrdata_checked {length : Nat}
    (read : zrdata length m = some (d, stored, later)) (ends : isEnd d = true) :
    Checked m.rxframeind stored d := by
  rw [zrdata] at read
  split at read
  · rename_i frame
    obtain ⟨payload, restarts, check, same, count, fits⟩ := zrdatFrom_checked read ends
    refine ⟨restarts, check, ?_⟩
    rw [if_pos frame, show stored = payload from same]
    exact ⟨count, by simpa [Fits] using fits⟩
  · rename_i frame
    obtain ⟨payload, restarts, check, same, count, fits⟩ := zrdatFrom_checked read ends
    refine ⟨restarts, check, ?_⟩
    rw [if_neg frame, show stored = payload from same]
    exact ⟨count, by simpa [Fits] using fits⟩

end Checks

section Turns

variable {Crc : Type} {update : S32 → Crc → Crc} {good : Crc → Bool} {bytes turns left : Nat}
  {crc : Crc} {buf : List U8} {m later : Modem} {c : S32}

theorem noxrd7From_length {zctlesc : Bool} {line rest : List S32}
    (read : noxrd7From zctlesc line = some (c, rest)) : rest.length < line.length := by
  induction line with
  | nil => cases read
  | cons first line inductionHypothesis =>
      have here : ∀ {d : S32}, some (d, line) = some (c, rest) → rest.length < line.length + 1 := by
        rintro d ⟨⟩
        omega
      have passed : noxrd7From zctlesc line = some (c, rest) → rest.length < line.length + 1 :=
        fun read => Nat.lt_succ_of_lt (inductionHypothesis read)
      simp only [noxrd7From] at read
      rw [List.length_cons]
      split at read
      · exact here read
      split at read
      · exact passed read
      split at read
      · exact here read
      split at read
      · exact passed read
      · exact here read

theorem zdlreadFrom_length {zctlesc : Bool} {place : Option Nat} {line rest : List S32}
    (read : zdlreadFrom zctlesc place line = some (c, rest)) : rest.length < line.length := by
  induction line generalizing place with
  | nil => cases place <;> cases read
  | cons first line inductionHypothesis =>
      have here : ∀ {d : S32}, some (d, line) = some (c, rest) → rest.length < line.length + 1 := by
        rintro d ⟨⟩
        omega
      have passed : ∀ {place}, zdlreadFrom zctlesc place line = some (c, rest) →
          rest.length < line.length + 1 :=
        fun read => Nat.lt_succ_of_lt (inductionHypothesis read)
      rw [List.length_cons]
      cases place with
      | none =>
          simp only [zdlreadFrom] at read
          split at read
          · exact here read
          split at read
          · exact passed read
          split at read
          · exact passed read
          split at read
          · exact passed read
          · exact here read
      | some cans =>
          simp only [zdlreadFrom] at read
          split at read
          · exact here read
          split at read
          · exact passed read
          split at read
          · exact here read
          · exact passed read

theorem readline_length (read : readline m = some (c, later)) :
    later.line.length < m.line.length := by
  rw [readline] at read
  split at read
  · cases read
  · rename_i line
    cases read
    rw [line]
    exact Nat.lt_succ_self _

theorem noxrd7_length (read : noxrd7 m = some (c, later)) :
    later.line.length < m.line.length := by
  obtain ⟨⟨first, rest⟩, taken, same⟩ := Option.map_eq_some_iff.mp read
  cases same
  exact noxrd7From_length taken

theorem zdlread_length (read : zdlread m = some (c, later)) :
    later.line.length < m.line.length := by
  obtain ⟨⟨first, rest⟩, taken, same⟩ := Option.map_eq_some_iff.mp read
  cases same
  exact zdlreadFrom_length taken

/-- The turns of `zrdata` are enough for the characters that there are. -/
theorem zrdatFrom_succ {state : Option (S32 × Nat)} (enough : m.line.length < turns) :
    zrdatFrom update good bytes (turns + 1) state crc left buf m =
      zrdatFrom update good bytes turns state crc left buf m := by
  induction turns generalizing state crc left buf m with
  | zero => omega
  | succ turns inductionHypothesis =>
      rcases state with _ | ⟨first, _ | count⟩
      · cases left with
        | zero => rfl
        | succ left =>
            rw [zrdatFrom, zrdatFrom]
            cases read : zdlread m with
            | none => rfl
            | some taken =>
                have shorter := zdlread_length read
                simp only [Option.bind_eq_bind, Option.bind_some,
                  inductionHypothesis (show taken.2.line.length < turns by omega)]
      · rfl
      · rw [zrdatFrom, zrdatFrom]
        cases read : zdlread m with
        | none => rfl
        | some taken =>
            have shorter := zdlread_length read
            simp only [Option.bind_eq_bind, Option.bind_some,
              inductionHypothesis (show taken.2.line.length < turns by omega)]

/-- The turns of `zgethdr` are enough for the characters that there are. -/
theorem zgethdrFrom_succ {at_ : HdrAt} {cancount : Int} {maxGarbage : U32}
    (enough : m.line.length < turns) :
    zgethdrFrom (turns + 1) at_ cancount maxGarbage m =
      zgethdrFrom turns at_ cancount maxGarbage m := by
  induction turns generalizing at_ cancount maxGarbage m with
  | zero => omega
  | succ turns inductionHypothesis =>
      cases at_ with
      | again =>
          rw [zgethdrFrom, zgethdrFrom]
          cases read : readline m with
          | none => rfl
          | some taken =>
              have shorter := readline_length read
              simp only [Option.bind_eq_bind, Option.bind_some,
                inductionHypothesis (show taken.2.line.length < turns by omega)]
      | gotcan =>
          rw [zgethdrFrom, zgethdrFrom]
          cases read : readline m with
          | none => rfl
          | some taken =>
              have shorter := readline_length read
              simp only [Option.bind_eq_bind, Option.bind_some,
                inductionHypothesis (show taken.2.line.length < turns by omega)]
      | splat =>
          rw [zgethdrFrom, zgethdrFrom]
          cases read : noxrd7 m with
          | none => rfl
          | some taken =>
              have shorter := noxrd7_length read
              simp only [Option.bind_eq_bind, Option.bind_some,
                inductionHypothesis (show taken.2.line.length < turns by omega)]
              cases more : noxrd7 taken.2 with
              | none => rfl
              | some next =>
                  have fewer := noxrd7_length more
                  simp only [Option.bind_some,
                    inductionHypothesis (show next.2.line.length < turns by omega)]

end Turns

end Gp2Firmware.CmdLg.Zmodem
