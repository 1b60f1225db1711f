/-
# A guest

The `struct virt_sys` of a guest with its virtual CPU, the registers and operand
addresses of `cp/include/vcpu.h`, `run_guest` of `cp/guest/run.c` with the
intercepts of `cp/guest/intercept.c`, and `guest_begin` and `guest_stop` of
`cp/guest/system.c`.

The guest's general registers are in two places: SIE takes registers 14 and 15
from the SIE control block and leaves them there, `run_guest` loads and stores the
others in `regs.gpr`, an array that has room for all sixteen.
-/

import Hvf.Guest.Run

namespace Hvf

/-! ### The state -/

/-- There are 16 registers of a kind and 8 subclasses. -/
instance neZero_registers : NeZero 16 := ⟨by decide⟩

/-- There are eight interruption subclasses. -/
instance neZero_subclasses : NeZero 8 := ⟨by decide⟩

/-- **The state of a guest's CPU** (`enum virt_cpustate`). -/
inductive CpuState
  | stopped
  | operating
  | load
  | checkstop
  deriving DecidableEq

/-- **The SIE control block**: what HVF reads and writes of a `struct sie_cb`, the guest's
registers 14 and 15 among it. -/
structure SieCb where
  cpuflags : BitVec 32
  prefixReg : BitVec 32
  icptcode : BitVec 8
  ipa : BitVec 16
  ipb : BitVec 32
  gpsw : ℕ → UInt8
  gg14 : BitVec 64
  gg15 : BitVec 64
  gcr : Fin 16 → BitVec 64

/-- **The registers outside the control block** (`struct guest_regs`), which are loaded and
stored around SIE. -/
structure GuestRegs where
  gpr : Fin 16 → BitVec 64
  ar : Fin 16 → BitVec 32
  fpr : Fin 64 → BitVec 64
  fpcr : BitVec 32

/-- `sys->as` as the page mapping that it is, and the frames of `sys->guest_pages`.
The guest is given no other frames. -/
structure GuestMem where
  frames : ℕ → Option ℕ
  guestPages : List ℕ
  owned : ∀ v frame, frames v = some frame → frame ∈ guestPages

/-- What a running guest uses of a `struct virt_sys` and its `struct virt_cpu`;
`mem` is host storage. -/
structure VirtSys where
  sie : SieCb
  regs : GuestRegs
  state : CpuState
  intIo : Fin 8 → List VioInt
  vdevs : List VirtDevice
  as : GuestMem
  storageSize : ℕ
  mem : ℕ → UInt8

/-- `CPUSTAT_STOP_INT`: a stop interruption is to be presented to the guest. -/
def cpustatStopInt : BitVec 32 := 0x04000000
/-- `CPUSTAT_ZARCH`: the guest is in z/Architecture mode. -/
def cpustatZarch : BitVec 32 := 0x00000800

/-- `VCPU_ZARCH`. -/
def vcpuZarch (sie : SieCb) : Bool := sie.cpuflags &&& cpustatZarch ≠ 0

/-- `psw->ea`. -/
def pswEa (gpsw : ℕ → UInt8) : Bool := gpsw 3 &&& 0x01 != 0

/-- `psw->ba`. -/
def pswBa (gpsw : ℕ → UInt8) : Bool := gpsw 4 &&& 0x80 != 0

/-- A store into `psw->cc`. -/
def setPswCc (cc : BitVec 2) (gpsw : ℕ → UInt8) : ℕ → UInt8 :=
  Function.update gpsw 2 ((gpsw 2 &&& 0xcf) ||| ⟨(cc.setWidth 8) <<< 4⟩)

namespace VirtSys

/-- `sys->cpu->state = GUEST_STOPPED`. -/
def stop (s : VirtSys) : VirtSys := { s with state := .stopped }

/-! ### The parts of the guest that its handlers work on -/

/-- What the emulated I/O instructions and `queue_io_interrupt` use; `stopped` says
that they stopped the CPU. -/
def guest (s : VirtSys) : Guest where
  frames := s.as.frames
  storageSize := s.storageSize
  mem := s.mem
  vdevs := s.vdevs
  intIo := s.intIo
  cc := pswCc s.sie.gpsw
  stopped := false

/-- The guest with what they left. -/
def putGuest (g : Guest) (s : VirtSys) : VirtSys :=
  { s with
    sie := { s.sie with gpsw := setPswCc g.cc s.sie.gpsw }
    state := if g.stopped then .stopped else s.state
    intIo := g.intIo
    vdevs := g.vdevs
    mem := g.mem }

/-- What `__io_int` uses. -/
def runCpu (s : VirtSys) : RunCpu where
  guest := s.guest
  gpsw := s.sie.gpsw
  gcr6 := s.sie.gcr 6
  zarch := vcpuZarch s.sie

/-- The guest with what it left. -/
def putRunCpu (r : RunCpu) (s : VirtSys) : VirtSys :=
  { s with
    sie := { s.sie with gpsw := r.gpsw }
    state := if r.guest.stopped then .stopped else s.state
    intIo := r.guest.intIo
    mem := r.guest.mem }

end VirtSys

/-! ### Registers and operand addresses -/

/-- The mask of a register value outside z/Architecture. -/
def archMask (sie : SieCb) (v : BitVec 64) : BitVec 64 :=
  if vcpuZarch sie then v else v &&& 0xffffffff

/-- `__guest_gpr`. -/
def _guestGpr (s : VirtSys) (gpr : Fin 16) : BitVec 64 := archMask s.sie (s.regs.gpr gpr)

/-- `__guest_addr`, with the registers as `gpr` has them; `none` is `BUG`. -/
def _guestAddr (gpsw : ℕ → UInt8) (gpr : Fin 16 → BitVec 64) (disp : BitVec 64) (x b : Fin 16) :
    Option (BitVec 64) := do
  let mask ←
    match pswEa gpsw, pswBa gpsw with
    | true, true => some (BitVec.allOnes 64)
    | false, true => some 0x7fffffff
    | false, false => some 0x00ffffff
    | true, false => none
  return (disp + (if x ≠ 0 then gpr x else 0) + (if b ≠ 0 then gpr b else 0)) &&& mask

/-- `IP_TO_RAW`. -/
def ipToRaw (sie : SieCb) : BitVec 64 := (sie.ipa.setWidth 64 <<< 32) ||| sie.ipb.setWidth 64

/-- The base register of the operand of an intercepted instruction. -/
def baseS1 (sie : SieCb) : Fin 16 := ((ipToRaw sie >>> 28).setWidth 4).toFin

/-- `RAW_S_1`. -/
def rawS1 (sie : SieCb) (gpr : Fin 16 → BitVec 64) : Option (BitVec 64) :=
  _guestAddr sie.gpsw gpr ((ipToRaw sie >>> 16) &&& 0xfff) (baseS1 sie) 0

/-! ### Intercepts -/

/-- A handler of an intercept; `none` where it has no result. -/
def InterceptHandler := VirtSys → Option (Int × VirtSys)

/-- The registers that the handler of an I/O instruction reads. -/
def operandRegs (sie : SieCb) : List (Fin 16) :=
  if baseS1 sie ≠ 0 then [1, baseS1 sie] else [1]

/-- A handler of an I/O instruction: general register 1 and the operand address. -/
def ioInstruction (h : BitVec 64 → BitVec 64 → Guest → Option (Int × Guest)) : InterceptHandler :=
  fun s => do
    let addr ← rawS1 s.sie (_guestGpr s)
    let (ret, g) ← h (_guestGpr s 1) addr s.guest
    return (ret, s.putGuest g)

/-- `instruction_priv_funcs`. -/
def instructionPrivFuncs (x : SschEnv) : ℕ → Option InterceptHandler
  | 0x32 => some (ioInstruction fun r1 addr g => some (handleMsch r1 addr g))
  | 0x33 => some (ioInstruction (handleSsch x))
  | 0x34 => some (ioInstruction fun r1 addr g => some (handleStsch r1 addr g))
  | 0x35 => some (ioInstruction fun r1 addr g => some (handleTsch r1 addr g))
  | _ => none

/-- `handle_instruction_priv`. -/
def handleInstructionPriv (x : SschEnv) : InterceptHandler := fun s =>
  match instructionPrivFuncs x (s.sie.ipa &&& 0xff).toNat with
  | some h => h s
  | none => some (-einval, s)

/-- `handle_instruction`. -/
def handleInstruction (x : SschEnv) : InterceptHandler := fun s =>
  if s.sie.ipa >>> 8 = 0xb2 then handleInstructionPriv x s else some (-einval, s)

/-- A handler that prints its name and stops the CPU. -/
def interceptStop : InterceptHandler := fun s => some (0, s.stop)

/-- `handle_noop`. -/
def handleNoop : InterceptHandler := fun s => some (0, s)

/-- `handle_program`. -/
def handleProgram : InterceptHandler := interceptStop

/-- `handle_instruction_and_program`. -/
def handleInstructionAndProgram : InterceptHandler := interceptStop

/-- `handle_ext_req`. -/
def handleExtReq : InterceptHandler := interceptStop

/-- `handle_ext_int`. -/
def handleExtInt : InterceptHandler := interceptStop

/-- `handle_io_req`. -/
def handleIoReq : InterceptHandler := interceptStop

/-- `handle_wait`. -/
def handleWait : InterceptHandler := fun s => some (0, s)

/-- `handle_validity`. -/
def handleValidity : InterceptHandler := interceptStop

/-- `handle_stop`. -/
def handleStop : InterceptHandler := fun s =>
  some (0, { s with sie := { s.sie with cpuflags := s.sie.cpuflags &&& ~~~cpustatStopInt } })

/-- `handle_oper_except`. -/
def handleOperExcept : InterceptHandler := interceptStop

/-- `handle_exp_run`. -/
def handleExpRun : InterceptHandler := interceptStop

/-- `handle_exp_timer`. -/
def handleExpTimer : InterceptHandler := interceptStop

/-- The entries of `intercept_funcs` that are not `NULL`. -/
def interceptFuncs (x : SschEnv) : ℕ → Option InterceptHandler
  | 0 => some handleNoop
  | 1 => some (handleInstruction x)
  | 2 => some handleProgram
  | 3 => some handleInstructionAndProgram
  | 4 => some handleExtReq
  | 5 => some handleExtInt
  | 6 => some handleIoReq
  | 7 => some handleWait
  | 8 => some handleValidity
  | 10 => some handleStop
  | 11 => some handleOperExcept
  | 17 => some handleExpRun
  | 18 => some handleExpTimer
  | _ => none

/-- `handle_interception`; there is no result when the code is not one of the table. -/
def handleInterception (x : SschEnv) (s : VirtSys) : Option VirtSys :=
  let code := (s.sie.icptcode >>> 2).toNat
  if code < 0x4c >>> 2 then
    match interceptFuncs x code with
    | none => some s.stop
    | some h => (h s).map fun (err, s) => if err ≠ 0 then s.stop else s
  else none

/-! ### Running the guest -/

/-- What the guest did until SIE ended: its general registers, the SIE control block
and storage. -/
structure SieEnd where
  gpr : Fin 16 → BitVec 64
  sie : SieCb
  mem : ℕ → UInt8

namespace VirtSys

/-- `__io_int`. -/
def ioInt (s : VirtSys) : ℕ × VirtSys :=
  let (ret, r) := _ioInt s.runCpu
  (ret, s.putRunCpu r)

/-- What the guest has in general register `r` when it is entered. -/
def seen (s : VirtSys) (r : Fin 16) : BitVec 64 :=
  if r = 14 then s.sie.gg14 else if r = 15 then s.sie.gg15 else s.regs.gpr r

/-- `run_guest` up to SIE, and whether it gets there. -/
def enterSie (s : VirtSys) : Bool × VirtSys :=
  let (ret, s) := s.ioInt
  if ret ≠ 0 then (true, s)
  else if pswW s.sie.gpsw then
    if !pswIo s.sie.gpsw && !pswEx s.sie.gpsw && !pswM s.sie.gpsw then (false, s.stop)
    else (false, s)
  else (true, s)

/-- SIE and the `stmg` behind it: registers 14 and 15 are left in the control block,
the others are stored in `regs.gpr`. -/
def leaveSie (x : SieEnd) (s : VirtSys) : VirtSys :=
  { s with
    sie := { x.sie with gg14 := x.gpr 14, gg15 := x.gpr 15 }
    regs := { s.regs with gpr := fun r => if r < 14 then x.gpr r else s.regs.gpr r }
    mem := x.mem }

/-- `run_guest`. -/
def runGuest (x : SieEnd) (y : SschEnv) (s : VirtSys) : Option VirtSys :=
  let (entered, s) := s.enterSie
  if entered then handleInterception y (s.leaveSie x) else some s

/-- A round of the loop of `shell_start` without a command. -/
def shellRound (x : SieEnd) (y : SschEnv) (s : VirtSys) : Option VirtSys :=
  if s.state = .operating then s.runGuest x y else some s

end VirtSys

/-- `guest_begin`. -/
def guestBegin (s : VirtSys) : Int × VirtSys :=
  match s.state with
  | .stopped | .operating => (0, { s with state := .operating })
  | _ => (-einval, s)

/-- `guest_stop`. -/
def guestStop (s : VirtSys) : Int × VirtSys :=
  match s.state with
  | .stopped | .operating => (0, { s with state := .stopped })
  | _ => (-einval, s)

end Hvf
