import Mathlib.Tactic.Common

/-!
# Downloads

`tftp_get`, `fat_fsload` and `rz`, from what the network, the USB device and the serial
line deliver.  A failure shows in the number that stands for the size.
-/

namespace Gp2Firmware.CmdLg

/-- `LOAD_TYPE` -/
inductive LoadType where
  | tftp
  | fat32
  | zmodem
  | hzmodem
  | kermit
  | serial
  | unknown
  deriving DecidableEq

/-- What a download gets from below, and which ways of loading are compiled in: the
results of `NetLoop`, of `get_dev`, `fat_register_device` and `file_fat_read`, of `tryz`
and `rzfiles` with `bytes_total` and `bytes_received`, and the sizes that come over Kermit
and the serial line. -/
structure Line where
  compiled : LoadType → Bool
  netLoop : BitVec 32
  usbDevice : Bool
  fatRegister : Int
  fatRead : BitVec 32
  tryz : Int
  rzfiles : Int
  bytesTotal : BitVec 32
  bytesReceived : BitVec 32
  kermit : BitVec 32
  serial : BitVec 32

/-- `ZCOMPL` -/
def zcompl : Int := 15

/-- `ERROR` of `zmodem.c`. -/
def zmodemError : BitVec 32 := -1

variable (line : Line)

/-- `tftp_get` -/
def tftpGet : BitVec 32 :=
  if line.netLoop.slt 0 then 1
  else if line.netLoop = 0 then 0
  else line.netLoop

/-- `fat_fsload` -/
def fatFsload : BitVec 32 :=
  if line.usbDevice = false then 1
  else if line.fatRegister ≠ 0 then 1
  else if line.fatRead = -1 then 1
  else line.fatRead

/-- `rz`.  The sender may end the session before it has named a file. -/
def rz : BitVec 32 :=
  if line.tryz ≠ 0 then
    if line.tryz = zcompl then 0
    else if line.tryz = -1 then zmodemError
    else if line.rzfiles ≠ 0 then zmodemError
    else line.bytesTotal
  else zmodemError

/-- The size with which `_load` goes on. -/
def received (type : LoadType) : BitVec 32 :=
  if line.compiled type then
    match type with
    | .tftp => tftpGet line
    | .fat32 => fatFsload line
    | .zmodem => rz line
    | .hzmodem => rz line
    | .kermit => line.kermit
    | .serial => line.serial
    | .unknown => 0
  else 0

/-- The size with which `_do_epk` goes on, which does not take packages over Kermit. -/
def receivedEpk (type : LoadType) : BitVec 32 :=
  if type = .kermit then 0 else received line type

/-- A result of `NetLoop`, in a build that loads over the network and by ZMODEM.  The
sender at the serial line cancels the session. -/
def Line.network (netLoop : BitVec 32) : Line where
  compiled type := type = .tftp ∨ type = .zmodem
  netLoop := netLoop
  usbDevice := false
  fatRegister := 0
  fatRead := 0
  tryz := -1
  rzfiles := 0
  bytesTotal := 0
  bytesReceived := 0
  kermit := 0
  serial := 0

end Gp2Firmware.CmdLg
