/-
# Structures of the channel subsystem

`include/channel.h`.  A structure is its bytes, most significant first, as one
word, and its members are bit fields of the word: this is how `memcpy` moves it
between guest storage and the hypervisor.
-/

import Hvf.Lib.BitField
import Hvf.Mm.GuestCopy

namespace Hvf

open BitField

/-- The structure of `n` bytes in `data`. -/
def ofBytes (n : ℕ) (data : ℕ → UInt8) : BitVec (8 * n) :=
  BitVec.ofNat (8 * n) ((List.range n).foldl (fun acc i => acc * 256 + (data i).toNat) 0)

/-- The bytes of a structure. -/
def toBytes {w : ℕ} (v : BitVec w) (i : ℕ) : UInt8 := UInt8.ofNat (v.toNat >>> (w - 8 * (i + 1)))

/-! ### Channel-command words -/

/-- **A channel command word** (`struct ccw`): command, flags, count and data address of
format 1. -/
structure Ccw where
  cmd : BitVec 8
  flags : BitVec 8
  count : BitVec 16
  addr : BitVec 32
  deriving DecidableEq

/-- The command code of a transfer in channel. -/
def ccwCmdTic : BitVec 8 := 0x08

/-- `IS_CCW_WRITE`. -/
def isCcwWrite (op : BitVec 8) : Bool := op &&& 0x03 = 0x01

/-- `IS_CCW_READ`. -/
def isCcwRead (op : BitVec 8) : Bool := op &&& 0x03 = 0x02

/-- `CCW_FLAG_CD`: chain data. -/
def ccwFlagCd : BitVec 8 := 0x80
/-- `CCW_FLAG_CC`: chain command. -/
def ccwFlagCc : BitVec 8 := 0x40
/-- `CCW_FLAG_SKP`: skip the transfer. -/
def ccwFlagSkp : BitVec 8 := 0x10
/-- `CCW_FLAG_PCI`: program-controlled interruption. -/
def ccwFlagPci : BitVec 8 := 0x08
/-- `CCW_FLAG_IDA`: indirect data address. -/
def ccwFlagIda : BitVec 8 := 0x04
/-- `CCW_FLAG_S`: suspend. -/
def ccwFlagS : BitVec 8 := 0x02
/-- `CCW_FLAG_MIDA`: modified indirect data address. -/
def ccwFlagMida : BitVec 8 := 0x01

/-- A format-1 CCW from its 8 bytes. -/
def ccw1 (raw : BitVec 64) : Ccw :=
  ⟨raw.extractLsb' 56 8, raw.extractLsb' 48 8, raw.extractLsb' 32 16, raw.extractLsb' 0 32⟩

/-- `ccw0_to_ccw1`, from the 8 bytes of a `struct ccw0`. -/
def ccw0ToCcw1 (raw : BitVec 64) : Ccw :=
  let cmd := raw.extractLsb' 56 8
  let addrHi := raw.extractLsb' 48 8
  let addrLo := raw.extractLsb' 32 16
  { cmd := if cmd &&& 0x0f = ccwCmdTic then ccwCmdTic else cmd
    flags := raw.extractLsb' 24 8
    count := raw.extractLsb' 0 16
    addr := (addrHi ++ addrLo).setWidth 32 }

/-! ### `struct orb` -/

/-- The interruption parameter of an ORB, its first word. -/
def orbParam : Field 256 32 := ⟨224, by norm_num⟩
/-- The format control of an ORB: whether the CCWs are format 1. -/
def orbF : Field 256 1 := ⟨215, by norm_num⟩
/-- The address of the channel program. -/
def orbAddr : Field 256 32 := ⟨160, by norm_num⟩

/-! ### `struct scsw` -/

/-- The format of the CCWs that the status word is about. -/
def scswF : Field 96 1 := ⟨87, by norm_num⟩
/-- The function control: which functions are under way. -/
def scswFc : Field 96 3 := ⟨76, by norm_num⟩
/-- The activity control: what the subchannel is doing. -/
def scswAc : Field 96 7 := ⟨69, by norm_num⟩
/-- The status control: what status is pending. -/
def scswSc : Field 96 5 := ⟨64, by norm_num⟩
/-- The CCW address. -/
def scswAddr : Field 96 32 := ⟨32, by norm_num⟩
/-- The device status. -/
def scswDevStatus : Field 96 8 := ⟨24, by norm_num⟩
/-- The subchannel status. -/
def scswSchStatus : Field 96 8 := ⟨16, by norm_num⟩
/-- The residual count. -/
def scswCount : Field 96 16 := ⟨0, by norm_num⟩

/-! `enum SCSW_FC` -/

/-- `FC_CLEAR`: a clear function. -/
def fcClear : BitVec 3 := 0x1
/-- `FC_HALT`: a halt function. -/
def fcHalt : BitVec 3 := 0x2
/-- `FC_START`: a start function. -/
def fcStart : BitVec 3 := 0x4

/-! `enum SCSW_AC` -/

/-- `AC_RESUME`: resume pending. -/
def acResume : BitVec 7 := 0x40
/-- `AC_START`: start pending. -/
def acStart : BitVec 7 := 0x20
/-- `AC_HALT`: halt pending. -/
def acHalt : BitVec 7 := 0x10
/-- `AC_CLEAR`: clear pending. -/
def acClear : BitVec 7 := 0x08
/-- `AC_SCH_ACT`: the subchannel is active. -/
def acSchAct : BitVec 7 := 0x04
/-- `AC_DEV_ACT`: the device is active. -/
def acDevAct : BitVec 7 := 0x02
/-- `AC_SUSP`: suspended. -/
def acSusp : BitVec 7 := 0x01

/-! `enum SCSW_SC` -/

/-- `SC_STATUS`: status pending. -/
def scStatus : BitVec 5 := 0x01
/-- `SC_SECONDARY`: secondary status. -/
def scSecondary : BitVec 5 := 0x02
/-- `SC_PRIMARY`: primary status. -/
def scPrimary : BitVec 5 := 0x04
/-- `SC_INTERMED`: intermediate status. -/
def scIntermed : BitVec 5 := 0x08
/-- `SC_ALERT`: alert status. -/
def scAlert : BitVec 5 := 0x10

/-! Device and subchannel status -/

/-- Device status: channel end. -/
def scStatusCe : BitVec 8 := 0x08
/-- Device status: device end. -/
def scStatusDe : BitVec 8 := 0x04
/-- Device status: unit check. -/
def scStatusUc : BitVec 8 := 0x02
/-- Subchannel status: program check. -/
def scProgChk : BitVec 8 := 0x20
/-- Subchannel status: protection check. -/
def scProtChk : BitVec 8 := 0x10

/-- `SENSE_CMDREJ`: the sense byte of a rejected command. -/
def senseCmdrej : BitVec 8 := 0x00

/-! ### `struct pmcw` -/

/-- The interruption parameter. -/
def pmcwInterruptParam : Field 224 32 := ⟨192, by norm_num⟩
/-- The interruption subclass. -/
def pmcwIsc : Field 224 3 := ⟨187, by norm_num⟩
/-- Whether the subchannel is enabled. -/
def pmcwE : Field 224 1 := ⟨183, by norm_num⟩
/-- The limit mode. -/
def pmcwLm : Field 224 2 := ⟨181, by norm_num⟩
/-- The measurement mode. -/
def pmcwMm : Field 224 2 := ⟨179, by norm_num⟩
/-- The multipath mode. -/
def pmcwD : Field 224 1 := ⟨178, by norm_num⟩
/-- Whether the device number is valid. -/
def pmcwV : Field 224 1 := ⟨176, by norm_num⟩
/-- The logical path mask. -/
def pmcwLpm : Field 224 8 := ⟨152, by norm_num⟩
/-- The measurement block index. -/
def pmcwMbi : Field 224 16 := ⟨112, by norm_num⟩
/-- The path operational mask. -/
def pmcwPom : Field 224 8 := ⟨104, by norm_num⟩
/-- The measurement block format. -/
def pmcwF : Field 224 1 := ⟨2, by norm_num⟩
/-- The extended measurement mode. -/
def pmcwX : Field 224 1 := ⟨1, by norm_num⟩
/-- Concurrent sense. -/
def pmcwS : Field 224 1 := ⟨0, by norm_num⟩

/-! The members that MSCH does not store, besides `v` -/

/-- Two bits that must be zero. -/
def pmcwZero1 : Field 224 2 := ⟨190, by norm_num⟩
/-- Three bits that must be zero. -/
def pmcwZero2 : Field 224 3 := ⟨184, by norm_num⟩
/-- The timing facility. -/
def pmcwT : Field 224 1 := ⟨177, by norm_num⟩
/-- The device number. -/
def pmcwDevNum : Field 224 16 := ⟨160, by norm_num⟩
/-- The path not operational mask. -/
def pmcwPnom : Field 224 8 := ⟨144, by norm_num⟩
/-- The last path used mask. -/
def pmcwLpum : Field 224 8 := ⟨136, by norm_num⟩
/-- The path installed mask. -/
def pmcwPim : Field 224 8 := ⟨128, by norm_num⟩
/-- The path available mask. -/
def pmcwPam : Field 224 8 := ⟨96, by norm_num⟩
/-- The eight channel path identifiers. -/
def pmcwChpid (i : Fin 8) : Field 224 8 := ⟨88 - 8 * i, by omega⟩
/-- Sixteen bits that must be zero. -/
def pmcwZero3 : Field 224 16 := ⟨16, by norm_num⟩
/-- Thirteen bits that must be zero. -/
def pmcwZero4 : Field 224 13 := ⟨3, by norm_num⟩

/-- The path information of a `struct schib`, 52 bytes that begin with it. -/
def schibPmcw : Field 416 224 := ⟨192, by norm_num⟩

end Hvf
