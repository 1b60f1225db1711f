/-
# The emulated I/O instructions

MSCH, SSCH, STSCH and TSCH of `cp/guest/instruction_priv.c`, with
`queue_io_interrupt` and `queue_prog_exception` of `cp/guest/exception.c`, the
frame of `spool_exec`, and what `__io_int` of `cp/guest/run.c` does with the
queues.  The handlers are given general register 1 and the operand address.

A handler whose `BUG_ON` holds, or whose channel program never ends, has no
result.  `handle_tsch` builds an IRB and stores it nowhere, so it is left out.
-/

import Hvf.Guest.SpoolExec
import Hvf.Lib.StepRun

namespace Hvf

open BitField Rounds StepRun

/-- **An I/O interruption of a guest** (`struct vio_int`): subchannel, parameter, and the
word with the subclass. -/
structure VioInt where
  ssid : BitVec 32
  param : BitVec 32
  intid : BitVec 32
  deriving DecidableEq

/-- What the handlers use of a `struct virt_sys`, its `struct virt_cpu` and
storage.  `intIo` are the queues `int_io[]`, `cc` is the condition code of the
guest PSW, `stopped` that the CPU state is `GUEST_STOPPED`. -/
structure Guest where
  frames : ℕ → Option ℕ
  storageSize : ℕ
  mem : ℕ → UInt8
  vdevs : List VirtDevice
  intIo : Fin 8 → List VioInt
  cc : BitVec 2
  stopped : Bool

/-- `queue_prog_exception`, which prints its arguments and stops the CPU. -/
def queueProgException (g : Guest) : Guest := { g with stopped := true }

/-- `queue_io_interrupt`; `none` is the `BUG_ON` when `malloc` fails. -/
def queueIoInterrupt (alloc : Bool) (ssid param : BitVec 32) (a : BitVec 1) (isc : BitVec 3)
    (g : Guest) : Option Guest :=
  if alloc then
    let intid := (a.setWidth 32 <<< 31) ||| (isc.setWidth 32 <<< 27)
    let queue := g.intIo isc.toFin ++ [⟨ssid, param, intid⟩]
    some { g with intIo := Function.update g.intIo isc.toFin queue }
  else none

/-! ### Devices -/

/-- The search of `for_each_vdev` for a subchannel number. -/
def findVdev (vdevs : List VirtDevice) (sch : BitVec 32) : Option VirtDevice :=
  vdevs.find? fun vdev => vdev.sch = sch

/-- A store into the device that the search finds. -/
def setVdev : List VirtDevice → VirtDevice → List VirtDevice
  | [], _ => []
  | v :: vdevs, vdev => if v.sch = vdev.sch then vdev :: vdevs else v :: setVdev vdevs vdev

/-- How each of the handlers begins: the subchannel number, the alignment of the
operand and the device; or the guest it leaves if one of them is wrong. -/
def vdevOperand (r1 addr : BitVec 64) (g : Guest) : Except Guest VirtDevice :=
  if r1 &&& 0xffff0000 ≠ 0x00010000 then .error (queueProgException g)
  else if addr &&& 0x3 ≠ 0 then .error (queueProgException g)
  else
    match findVdev g.vdevs (r1.setWidth 32) with
    | none => .error { g with cc := 3 }
    | some vdev => .ok vdev

/-- The copy of an operand of `len` bytes from the guest. -/
def fetchOperand (g : Guest) (addr : BitVec 64) (len : ℕ) : CopyResult :=
  memcpyTofromGuest g.frames addr.toNat len true g.mem fun _ => 0

/-! ### `handle_msch` -/

/-- The members of the PMCW that MSCH stores. -/
def mschPmcw (gpmcw pmcw : BitVec 224) : BitVec 224 :=
  let pmcw := pmcwInterruptParam.set (pmcwInterruptParam.get gpmcw) pmcw
  let pmcw := pmcwE.set (pmcwE.get gpmcw) pmcw
  let pmcw := pmcwIsc.set (pmcwIsc.get gpmcw) pmcw
  let pmcw := pmcwD.set (pmcwD.get gpmcw) pmcw
  let pmcw := pmcwLpm.set (pmcwLpm.get gpmcw) pmcw
  let pmcw := pmcwPom.set (pmcwPom.get gpmcw) pmcw
  let pmcw := pmcwLm.set (pmcwLm.get gpmcw) pmcw
  let pmcw := pmcwMm.set (pmcwMm.get gpmcw) pmcw
  let pmcw := pmcwF.set (pmcwF.get gpmcw) pmcw
  let pmcw := pmcwX.set (pmcwX.get gpmcw) pmcw
  let pmcw := pmcwS.set (pmcwS.get gpmcw) pmcw
  pmcwMbi.set (pmcwMbi.get gpmcw) pmcw

/-- The subchannel is status pending. -/
def StatusPending (vdev : VirtDevice) : Prop := scswSc.get vdev.scsw &&& scStatus ≠ 0

/-- A clear, halt or start function is in progress. -/
def FunctionInProgress (vdev : VirtDevice) : Prop :=
  scswFc.get vdev.scsw &&& (fcStart ||| fcHalt ||| fcClear) ≠ 0

/-- Whether status is pending is decided from the status word. -/
instance (vdev : VirtDevice) : Decidable (StatusPending vdev) :=
  inferInstanceAs (Decidable (_ ≠ _))

/-- Whether a function is in progress is decided from the status word. -/
instance (vdev : VirtDevice) : Decidable (FunctionInProgress vdev) :=
  inferInstanceAs (Decidable (_ ≠ _))

/-- `handle_msch`. -/
def handleMsch (r1 addr : BitVec 64) (g : Guest) : Int × Guest :=
  match vdevOperand r1 addr g with
  | .error g => (0, g)
  | .ok vdev =>
      let r := fetchOperand g addr 52
      if r.ret ≠ 0 then
        if r.ret ≠ -efault then (r.ret, g) else (0, queueProgException g)
      else if StatusPending vdev then (0, { g with cc := 1 })
      else if FunctionInProgress vdev then (0, { g with cc := 2 })
      else
        let gpmcw := schibPmcw.get (ofBytes 52 r.data)
        if pmcwV.get gpmcw = 0 then (0, { g with cc := 0 })
        else
          let vdevs := setVdev g.vdevs { vdev with pmcw := mschPmcw gpmcw vdev.pmcw }
          (0, { g with vdevs, cc := 0 })

/-! ### `handle_ssch` -/

/-- What one SSCH meets: the 64k buffer, if `alloc_pages` has one, what the
device's handlers meet, whether `malloc` has room for the interruption, and how
many rounds of the channel program there are. -/
structure SschEnv where
  iobuf : Option (ℕ → UInt8)
  dev : ℕ → DevEnv
  intAlloc : Bool
  rounds : ℕ

/-- `spool_exec`, from the device as `handle_ssch` leaves it. -/
def spoolExec (x : SschEnv) (vdev : VirtDevice) (g : Guest) : Option (Int × Guest) :=
  match x.iobuf with
  | none => some (-enomem, g)
  | some iobuf => do
      let env : ExecEnv := ⟨g.frames, g.storageSize, vdev.ops, x.dev⟩
      let s ← result (spoolRound env) x.rounds (execStart vdev iobuf g.mem)
      let vdev := execFinish s vdev
      let g ← queueIoInterrupt x.intAlloc vdev.sch (pmcwInterruptParam.get vdev.pmcw) 0
        (pmcwIsc.get vdev.pmcw) { g with mem := s.mem, vdevs := setVdev g.vdevs vdev }
      return (0, g)

/-- The device with the start function begun. -/
def startVdev (gorb : BitVec 256) (vdev : VirtDevice) : VirtDevice :=
  { vdev with
    scsw := scswAc.set acStart (scswFc.set fcStart 0)
    pmcw := pmcwInterruptParam.set (orbParam.get gorb) vdev.pmcw
    orb := gorb }

/-- `handle_ssch` once the start is accepted. -/
def sschStart (x : SschEnv) (gorb : BitVec 256) (vdev : VirtDevice) (g : Guest) :
    Option (Int × Guest) :=
  let vdev := startVdev gorb vdev
  let g := { g with vdevs := setVdev g.vdevs vdev }
  match vdev.vtype with
  | .cons | .spool => (spoolExec x vdev g).map fun (ret, g) => (ret, { g with cc := 0 })
  | _ => some (0, { g with stopped := true })

/-- `handle_ssch`. -/
def handleSsch (x : SschEnv) (r1 addr : BitVec 64) (g : Guest) : Option (Int × Guest) :=
  match vdevOperand r1 addr g with
  | .error g => some (0, g)
  | .ok vdev =>
      let r := fetchOperand g addr 32
      if r.ret ≠ 0 then
        if r.ret = -efault then some (0, queueProgException g) else some (r.ret, g)
      else if StatusPending vdev then some (0, { g with cc := 1 })
      else if FunctionInProgress vdev then some (0, { g with cc := 2 })
      else sschStart x (ofBytes 32 r.data) vdev g

/-! ### `handle_stsch` -/

/-- `handle_stsch`; the PMCW is at the beginning of the SCHIB, the SCSW behind it. -/
def handleStsch (r1 addr : BitVec 64) (g : Guest) : Int × Guest :=
  match vdevOperand r1 addr g with
  | .error g => (0, g)
  | .ok vdev =>
      let r := memcpyTofromGuest g.frames addr.toNat 28 false g.mem (toBytes vdev.pmcw)
      let g := { g with mem := r.mem }
      if r.ret ≠ 0 then
        if r.ret = -efault then (0, queueProgException g) else (r.ret, g)
      else
        let r := memcpyTofromGuest g.frames (addr + 28).toNat 12 false g.mem (toBytes vdev.scsw)
        let g := { g with mem := r.mem }
        if r.ret ≠ 0 then
          if r.ret = -efault then (0, queueProgException g) else (r.ret, g)
        else (0, { g with cc := 0 })

/-! ### `handle_tsch` -/

/-- The SCSW that TSCH leaves when it was status pending. -/
def tschScsw (scsw : BitVec 96) : BitVec 96 :=
  let fc := scswFc.get scsw
  let ac := scswAc.get scsw
  let sc := scswSc.get scsw
  let fc' := if sc &&& scIntermed = 0 ∨ fc &&& fcHalt ≠ 0 ∧ ac &&& acSusp ≠ 0 then 0 else fc
  let ac' :=
    if sc &&& scIntermed = 0 then ac &&& ~~~(acResume ||| acStart ||| acHalt ||| acClear)
    else if ac &&& acSusp ≠ 0 ∧ fc &&& fcStart ≠ 0 then
      if fc &&& fcHalt ≠ 0 then ac &&& ~~~(acResume ||| acStart ||| acHalt ||| acClear)
      else ac &&& ~~~acResume
    else ac
  scswSc.set (sc &&& ~~~scStatus) (scswAc.set ac' (scswFc.set fc' scsw))

/-- `handle_tsch`. -/
def handleTsch (r1 addr : BitVec 64) (g : Guest) : Int × Guest :=
  match vdevOperand r1 addr g with
  | .error g => (0, g)
  | .ok vdev =>
      if StatusPending vdev then
        let vdevs := setVdev g.vdevs { vdev with scsw := tschScsw vdev.scsw }
        (0, { g with vdevs, cc := 0 })
      else (0, { g with cc := 1 })

/-! ### Runs -/

/-- What can happen to the subchannels of a guest: the four instructions, an
interruption of subclass `isc` is presented, the guest changes its storage, and
the CPU is started again. -/
inductive SubchEvent
  | msch (r1 addr : BitVec 64)
  | ssch (r1 addr : BitVec 64) (x : SschEnv)
  | stsch (r1 addr : BitVec 64)
  | tsch (r1 addr : BitVec 64)
  | ioInt (isc : Fin 8)
  | storage (mem : ℕ → UInt8)
  | resume

/-- **A step of the guest's subchannels**: one of the I/O instructions, an interruption
presented, or a device's own change. -/
inductive SubchStep : Guest → SubchEvent → Guest → Prop
  | msch {g} (r1 addr) : SubchStep g (.msch r1 addr) (handleMsch r1 addr g).2
  | ssch {g ret g'} (r1 addr x) : handleSsch x r1 addr g = some (ret, g') →
      SubchStep g (.ssch r1 addr x) g'
  | stsch {g} (r1 addr) : SubchStep g (.stsch r1 addr) (handleStsch r1 addr g).2
  | tsch {g} (r1 addr) : SubchStep g (.tsch r1 addr) (handleTsch r1 addr g).2
  | ioInt {g ioint queue} (isc) : g.intIo isc = ioint :: queue →
      SubchStep g (.ioInt isc) { g with intIo := Function.update g.intIo isc queue }
  | storage {g} (mem) : SubchStep g (.storage mem) { g with mem }
  | resume {g} : SubchStep g .resume { g with stopped := false }

end Hvf
