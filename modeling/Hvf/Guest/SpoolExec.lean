/-
# The channel program of a spooled device

`spool_exec` of `cp/drivers/spooldev.c` runs the channel program of a guest, and
`cp/drivers/spooldev_cons.c` is the one device it has commands for.

`Exec` are the variables of the loop: the `struct spdev_state`, the parts of the
device that a command handler changes, and guest storage.  A handler gets no
more of the `struct spdev_state` than it uses.  `executed` is history: the CCWs
given to the device, with their addresses.
-/

import Hvf.Fs.Spool
import Hvf.Guest.Channel
import Hvf.Lib.Rounds

namespace Hvf

open BitField Rounds

/-! ### Devices -/

/-- What a command handler may change: the spool file and the sense byte of the
device, and the device status, remaining count and offset of `st`. -/
structure SpDev where
  file : Option SpoolFile
  sense : BitVec 8
  devStatus : BitVec 8
  rem : BitVec 32
  pos : BitVec 32

/-- What a handler meets: whether `alloc_spool` gets its memory, the results of
`alloc_pages`, and the bytes of storage before `iobuf`. -/
structure DevEnv where
  spoolAlloc : Bool
  supply : List (Option SpoolPage)
  before : ℕ → UInt8

/-- A handler of `struct spool_ops`, from the CCW and `iobuf`; `none` is a `BUG_ON`. -/
def SpoolHandler := DevEnv → Ccw → (ℕ → UInt8) → SpDev → Option SpDev

/-- `struct spool_ops`. -/
def SpoolOps := BitVec 4 → Option SpoolHandler

/-- `spooldev_cmdrej`. -/
def spooldevCmdrej (d : SpDev) : SpDev :=
  { d with devStatus := scStatusCe ||| scStatusDe ||| scStatusUc, sense := senseCmdrej }

/-- The exit `cmdrej` of `cons_write`. -/
def consCmdrej (d : SpDev) : SpDev :=
  { d with devStatus := d.devStatus ||| scStatusUc, sense := senseCmdrej }

/-- `open_spoolfile`. -/
def openSpoolfile (e : DevEnv) (file : Option SpoolFile) : Option SpoolFile :=
  match file with
  | some f => some f
  | none => if e.spoolAlloc then some allocSpool else none

/-- `iobuf` and the storage around it. -/
def bufAround (before iobuf : ℕ → UInt8) : ℤ → UInt8
  | .ofNat i => iobuf i
  | .negSucc i => before i

/-- `cons_write`. -/
def consWrite : SpoolHandler := fun e ccw iobuf d =>
  let d := { d with devStatus := scStatusCe ||| scStatusDe }
  if ccw.cmd ≠ 0x01 then some (consCmdrej d)
  else
    match openSpoolfile e d.file with
    | none => some (consCmdrej d)
    | some file => do
        let len := min ccw.count.toNat 150
        let a ← spoolAppendRec file (bufAround e.before iobuf) len e.supply
        let d := { d with file := some a.file }
        if a.ret ≠ 0 then some (consCmdrej d)
        else some { d with rem := d.rem - BitVec.ofNat 32 len, pos := d.pos + BitVec.ofNat 32 len }

/-- `spool_cons_ops`. -/
def spoolConsOps : SpoolOps := fun cmd => if cmd = 1 then some consWrite else none

/-! ### `spool_exec` -/

/-- What the loop reads and does not change: the page mapping and size of guest
storage, the commands of the device, and what its handlers meet in each round. -/
structure ExecEnv where
  frames : ℕ → Option ℕ
  storageSize : ℕ
  ops : Option SpoolOps
  dev : ℕ → DevEnv

/-- **The state of a channel program's execution** (`struct spdev_state`): the device's
data, the CCW's address and flags, the buffer, and what has been executed. -/
structure Exec where
  dev : SpDev
  schStatus : BitVec 8
  addr : BitVec 32
  f : Bool
  iobuf : ℕ → UInt8
  cd : Bool
  tic2tic : Bool
  mem : ℕ → UInt8
  cnt : ℕ
  executed : List (BitVec 32 × Ccw)

/-- `__get_ccw`: the CCW at `addr`, or the subchannel status that it sets. -/
def _getCcw (env : ExecEnv) (mem : ℕ → UInt8) (f : Bool) (addr : BitVec 32) :
    Except (BitVec 8) Ccw :=
  if (!f ∧ addr &&& 0xff000000 ≠ 0) ∨ (f ∧ addr &&& 0x80000000 ≠ 0) ∨ addr &&& 0x00000007 ≠ 0 then
    .error scProgChk
  else
    let r := memcpyTofromGuest env.frames addr.toNat 8 true mem fun _ => 0
    if r.ret ≠ 0 then .error scProtChk
    else .ok (if f then ccw1 (ofBytes 8 r.data) else ccw0ToCcw1 (ofBytes 8 r.data))

/-- `__xfer_storage`; guest storage to `iobuf` if `write`. -/
def _xferStorage (env : ExecEnv) (ccw : Ccw) (write : Bool) (s : Exec) : Exec :=
  if ccw.count = 0 then s
  else if ccw.addr.toNat > env.storageSize then { s with schStatus := scProgChk }
  else
    let r := memcpyTofromGuest env.frames ccw.addr.toNat ccw.count.toNat write s.mem s.iobuf
    { s with
      schStatus := if r.ret ≠ 0 then scProtChk else s.schStatus
      dev := { s.dev with pos := 0, rem := BitVec.ofNat 32 r.len }
      mem := r.mem
      iobuf := r.data }

/-- The checks of `spool_exec` that a CCW other than a TIC has to pass. -/
def invalidCcw (f cd : Bool) (ccw : Ccw) : Bool :=
  -- invalid commands
  !cd && ccw.cmd &&& 0x0f = 0 ||
  -- invalid count, format 0 and format 1
  !f && ccw.count = 0 ||
  f && cd && ccw.count = 0 ||
  -- the data address must be valid
  f && ccw.addr &&& 0x80000000 ≠ 0 ||
  -- unsupported flags
  ccw.flags &&& (ccwFlagSkp ||| ccwFlagPci ||| ccwFlagIda ||| ccwFlagS ||| ccwFlagMida |||
    ccwFlagCd) ≠ 0

/-- The handler for the command, `spooldev_cmdrej` if there is none. -/
def deviceCommand (env : ExecEnv) (ccw : Ccw) (s : Exec) : Option SpDev :=
  match env.ops.bind fun ops => ops (ccw.cmd.setWidth 4) with
  | some handler => handler (env.dev s.cnt) ccw s.iobuf s.dev
  | none => some (spooldevCmdrej s.dev)

/-- The command is given to the device; `a` is the address of the CCW. -/
def execCcw (env : ExecEnv) (a : BitVec 32) (ccw : Ccw) (s : Exec) : Option Exec :=
  (deviceCommand env ccw s).map fun dev =>
    { s with dev, executed := s.executed ++ [(a, ccw)] }

/-- `goto prog_check`. -/
def Exec.progCheck (s : Exec) : Exec := { s with schStatus := scProgChk }

/-- The round of a TIC. -/
def spoolTic (ccw : Ccw) (s : Exec) : Round Exec :=
  if s.tic2tic then .out s.progCheck
  else if s.f ∧ (ccw.flags ≠ 0 ∨ ccw.count ≠ 0) then .out s.progCheck
  else .next { s with addr := ccw.addr, tic2tic := true }

/-- The end of the round of a command that the device has executed. -/
def spoolChain (env : ExecEnv) (ccw : Ccw) (s : Exec) : Round Exec :=
  if s.dev.devStatus ≠ scStatusCe ||| scStatusDe then .out s
  else
    let s := if isCcwRead ccw.cmd then _xferStorage env ccw false s else s
    if ccw.flags &&& (ccwFlagCd ||| ccwFlagCc) = 0 then .out s
    else
      let cd := decide (ccw.flags &&& ccwFlagCd ≠ 0)
      .next { s with cd, addr := (s.addr + 8) &&& 0x7fffffff }

/-- The round of a CCW other than a TIC, with address `a`. -/
def spoolCommand (env : ExecEnv) (a : BitVec 32) (ccw : Ccw) (s : Exec) : Round Exec :=
  let s := { s with tic2tic := false }
  if invalidCcw s.f s.cd ccw then .out s.progCheck
  else
    let s := if isCcwWrite ccw.cmd then _xferStorage env ccw true s else s
    match execCcw env a ccw s with
    | none => .stop
    | some s => spoolChain env ccw s

/-- One round of the loop of `spool_exec`. -/
def spoolRound (env : ExecEnv) (s : Exec) : Round Exec :=
  match _getCcw env s.mem s.f s.addr with
  | .error schStatus => .out { s with addr := s.addr + 8, schStatus, cnt := s.cnt + 1 }
  | .ok ccw =>
      let a := s.addr
      let s := { s with addr := s.addr + 8, cnt := s.cnt + 1 }
      -- an operand access of an earlier round failed
      if s.schStatus ≠ 0 then .out s
      else if ccw.cmd = ccwCmdTic then spoolTic ccw s
      else spoolCommand env a ccw s

/-- **The kinds of virtual devices** (`enum directory_vdevtype`), of which only consoles and
spooled devices run channel programs. -/
inductive Vdevtype
  | inval
  | cons
  | ded
  | spool
  | mdisk
  | link
  deriving DecidableEq

/-- **A virtual device**: what the emulated I/O instructions use of a `struct virt_device`,
with its spool file and the commands of its kind. -/
structure VirtDevice where
  vtype : Vdevtype
  sch : BitVec 32
  file : Option SpoolFile
  ops : Option SpoolOps
  sense : BitVec 8
  pmcw : BitVec 224
  scsw : BitVec 96
  orb : BitVec 256

/-- The loop's variables before the first round. -/
def execStart (vdev : VirtDevice) (iobuf mem : ℕ → UInt8) : Exec :=
  { dev := ⟨vdev.file, vdev.sense, 0, 0, 0⟩
    schStatus := 0
    addr := orbAddr.get vdev.orb
    f := orbF.get vdev.orb = 1
    iobuf
    cd := false
    tic2tic := false
    mem
    cnt := 0
    executed := [] }

/-- The status that `spool_exec` stores, from the `ac` and `sc` it began with. -/
def execStatus (s : Exec) (scsw : BitVec 96) : BitVec 96 :=
  let scsw := scswAc.set (scswAc.get scsw &&& ~~~acStart) scsw
  let scsw := scswAc.set (scswAc.get scsw ||| (acSchAct ||| acDevAct)) scsw
  let scsw := scswAc.set (scswAc.get scsw &&& ~~~(acSchAct ||| acDevAct)) scsw
  let scsw := scswSc.set (scswSc.get scsw ||| (scPrimary ||| scSecondary ||| scStatus)) scsw
  let scsw := if s.schStatus ≠ 0 ∨ s.dev.devStatus ≠ scStatusCe ||| scStatusDe then
    scswSc.set (scswSc.get scsw ||| scAlert) scsw else scsw
  let scsw := scswDevStatus.set s.dev.devStatus scsw
  let scsw := scswSchStatus.set s.schStatus scsw
  let scsw := scswAddr.set s.addr scsw
  let scsw := scswCount.set (s.dev.rem.setWidth 16) scsw
  scswF.set (if s.f then 1 else 0) scsw

/-- The device after the loop. -/
def execFinish (s : Exec) (vdev : VirtDevice) : VirtDevice :=
  { vdev with file := s.dev.file, sense := s.dev.sense, scsw := execStatus s vdev.scsw }

end Hvf
