/-
# The system resets

`cp/guest/reset.c`.  A reset is a set of flags, and `__perform_cpu_reset` and
`__perform_noncpu_reset` do what the flags say.  Three of the resets clear: they are to
leave a guest from which nothing of what ran before can be learned.
-/

import Hvf.Guest.VirtSys

namespace Hvf

open BitField

/-! ### The flags -/

/-- `RESET_CPU`: the CPU's own state. -/
def resetCpu : BitVec 32 := 0x000001
/-- `SET_ESA390`: back to ESA/390 mode. -/
def setEsa390 : BitVec 32 := 0x000002
/-- `RESET_PSW`: the PSW. -/
def resetPsw : BitVec 32 := 0x000004
/-- `RESET_PREFIX`: the prefix register. -/
def resetPrefix : BitVec 32 := 0x000008
/-- `RESET_CPU_TIMER`: the CPU timer. -/
def resetCpuTimer : BitVec 32 := 0x000010
/-- `RESET_CLK_COMP`: the clock comparator. -/
def resetClkComp : BitVec 32 := 0x000020
/-- `RESET_TOD_PROG_REG`: the TOD programmable register. -/
def resetTodProgReg : BitVec 32 := 0x000040
/-- `RESET_CR`: the control registers. -/
def resetCr : BitVec 32 := 0x000080
/-- `RESET_BREAK_EV_ADDR`: the breaking-event address register. -/
def resetBreakEvAddr : BitVec 32 := 0x000100
/-- `RESET_FPCR`: the floating point control register. -/
def resetFpcr : BitVec 32 := 0x000200
/-- `RESET_AR`: the access registers. -/
def resetAr : BitVec 32 := 0x000400
/-- `RESET_GPR`: the general registers. -/
def resetGpr : BitVec 32 := 0x000800
/-- `RESET_FPR`: the floating point registers. -/
def resetFpr : BitVec 32 := 0x001000
/-- `RESET_STORAGE_KEYS`: the storage keys. -/
def resetStorageKeys : BitVec 32 := 0x002000
/-- `RESET_STORAGE`: the storage itself. -/
def resetStorage : BitVec 32 := 0x004000
/-- `RESET_NONVOL_STORAGE`: the nonvolatile storage. -/
def resetNonvolStorage : BitVec 32 := 0x008000
/-- `RESET_EXPANDED_STORAGE`: the expanded storage. -/
def resetExpandedStorage : BitVec 32 := 0x010000
/-- `RESET_TOD`: the TOD clock. -/
def resetTod : BitVec 32 := 0x020000
/-- `RESET_TOD_STEER`: the TOD clock's steering registers. -/
def resetTodSteer : BitVec 32 := 0x040000
/-- `RESET_FLOATING_INTERRUPTIONS`: the floating interruptions. -/
def resetFloatingInterruptions : BitVec 32 := 0x080000
/-- `RESET_IO`: the channel subsystem. -/
def resetIo : BitVec 32 := 0x100000
/-- `RESET_PLO_LOCKS`: the locks of PERFORM LOCKED OPERATION. -/
def resetPloLocks : BitVec 32 := 0x200000
/-- `__RESET_PLO_LOCKS_PRESERVE`: the bit that keeps the locks of a CPU that is not reset. -/
def _resetPloLocksPreserve : BitVec 32 := 0x400000
/-- `RESET_PLO_LOCKS_PRESERVE`: reset the locks but keep those held. -/
def resetPloLocksPreserve : BitVec 32 := resetPloLocks ||| _resetPloLocksPreserve

/-- `SUBSYSTEM_RESET_FLAGS`: what a subsystem reset covers. -/
def subsystemResetFlags : BitVec 32 := resetFloatingInterruptions ||| resetIo

/-- `CPU_RESET_FLAGS`: what a CPU reset covers. -/
def cpuResetFlags : BitVec 32 := resetCpu

/-- `INIT_CPU_RESET_FLAGS`: what an initial CPU reset covers. -/
def initCpuResetFlags : BitVec 32 :=
  resetCpu ||| setEsa390 ||| resetPsw ||| resetPrefix ||| resetCpuTimer ||| resetClkComp |||
    resetTodProgReg ||| resetCr ||| resetBreakEvAddr ||| resetFpcr

/-- `CLEAR_RESET_FLAGS`: what a clear reset covers. -/
def clearResetFlags : BitVec 32 :=
  resetCpu ||| setEsa390 ||| resetPsw ||| resetPrefix ||| resetCpuTimer ||| resetClkComp |||
    resetTodProgReg ||| resetCr ||| resetBreakEvAddr ||| resetFpcr ||| resetAr ||| resetGpr |||
    resetFpr ||| resetStorageKeys ||| resetStorage ||| resetNonvolStorage ||| resetPloLocks |||
    resetFloatingInterruptions ||| resetIo

/-- `POWER_ON_RESET_FLAGS`: what a power-on reset covers. -/
def powerOnResetFlags : BitVec 32 :=
  resetCpu ||| setEsa390 ||| resetPsw ||| resetPrefix ||| resetCpuTimer ||| resetClkComp |||
    resetTodProgReg ||| resetCr ||| resetBreakEvAddr ||| resetFpcr ||| resetAr ||| resetGpr |||
    resetFpr ||| resetStorageKeys ||| resetStorage ||| resetExpandedStorage ||| resetTod |||
    resetTodSteer ||| resetPloLocksPreserve ||| resetFloatingInterruptions ||| resetIo

/-! ### The resets -/

/-- `memset(addr, 0, len)`. -/
def memsetZero (addr len : ℕ) (mem : ℕ → UInt8) : ℕ → UInt8 :=
  fun a => if addr ≤ a ∧ a < addr + len then 0 else mem a

/-- The control registers after a reset. -/
def resetGcr (r : Fin 16) : BitVec 64 := if r = 0 then 0xe0 else if r = 14 then 0xc2000000 else 0

/-- `__perform_cpu_reset`; the flags for items that HVF does not have do nothing. -/
def _performCpuReset (flags : BitVec 32) (s : VirtSys) : VirtSys :=
  let s := if flags &&& resetCpu ≠ 0 then { s with state := .stopped } else s
  let s :=
    if flags &&& resetPsw ≠ 0 then
      { s with sie := { s.sie with gpsw := memsetZero 0 16 s.sie.gpsw } }
    else s
  let s := if flags &&& resetPrefix ≠ 0 then { s with sie := { s.sie with prefixReg := 0 } } else s
  let s := if flags &&& resetCr ≠ 0 then { s with sie := { s.sie with gcr := resetGcr } } else s
  let s := if flags &&& resetFpcr ≠ 0 then { s with regs := { s.regs with fpcr := 0 } } else s
  let s := if flags &&& resetAr ≠ 0 then { s with regs := { s.regs with ar := fun _ => 0 } } else s
  let s :=
    if flags &&& resetGpr ≠ 0 then { s with regs := { s.regs with gpr := fun _ => 0 } } else s
  let s :=
    if flags &&& resetFpr ≠ 0 then
      { s with regs := { s.regs with fpr := fun i => if i.val < 16 then 0 else s.regs.fpr i } }
    else s
  if flags &&& resetStorage ≠ 0 then
    let clear := fun mem p => memsetZero (p * pageSize) pageSize mem
    { s with mem := s.as.guestPages.foldl clear s.mem }
  else s

/-- What `__perform_noncpu_reset` stores into a PMCW. -/
def resetPmcw (pmcw : BitVec 224) : BitVec 224 :=
  let pmcw := pmcwInterruptParam.set 0 pmcw
  let pmcw := pmcwIsc.set 0 pmcw
  let pmcw := pmcwE.set 0 pmcw
  let pmcw := pmcwLm.set 0 pmcw
  let pmcw := pmcwMm.set 0 pmcw
  let pmcw := pmcwD.set 0 pmcw
  let pmcw := pmcwPnom.set 0 pmcw
  let pmcw := pmcwLpum.set 0 pmcw
  let pmcw := pmcwMbi.set 0 pmcw
  let pmcw := pmcwF.set 0 pmcw
  let pmcw := pmcwX.set 0 pmcw
  let pmcw := pmcwS.set 0 pmcw
  let pmcw := pmcwPom.set 0xff pmcw
  let pmcw := pmcwT.set 0 pmcw
  let pmcw := pmcwLpm.set 0x80 pmcw
  let pmcw := pmcwPim.set 0x80 pmcw
  let pmcw := pmcwPam.set 0x80 pmcw
  (List.finRange 8).foldl (fun pmcw i => (pmcwChpid i).set 0 pmcw) pmcw

/-- `__perform_noncpu_reset`; its branch for `RESET_FLOATING_INTERRUPTIONS` is empty. -/
def _performNoncpuReset (flags : BitVec 32) (s : VirtSys) : VirtSys :=
  if flags &&& resetIo ≠ 0 then
    { s with vdevs := s.vdevs.map fun vdev => { vdev with pmcw := resetPmcw vdev.pmcw, scsw := 0 } }
  else s

/-- `guest_power_on_reset`. -/
def guestPowerOnReset (s : VirtSys) : VirtSys :=
  _performNoncpuReset powerOnResetFlags (_performCpuReset powerOnResetFlags s)

/-- `guest_system_reset_normal`. -/
def guestSystemResetNormal (s : VirtSys) : VirtSys :=
  _performNoncpuReset subsystemResetFlags (_performCpuReset cpuResetFlags s)

/-- `guest_system_reset_clear`. -/
def guestSystemResetClear (s : VirtSys) : VirtSys :=
  _performNoncpuReset clearResetFlags (_performCpuReset clearResetFlags s)

/-- `guest_load_normal`. -/
def guestLoadNormal (s : VirtSys) : VirtSys :=
  _performNoncpuReset subsystemResetFlags (_performCpuReset initCpuResetFlags s)

/-- `guest_load_clear`. -/
def guestLoadClear (s : VirtSys) : VirtSys :=
  _performNoncpuReset clearResetFlags (_performCpuReset clearResetFlags s)

/-! ### A new guest -/

/-- A console at subchannel 0. -/
def console (pmcw : BitVec 224) (scsw : BitVec 96) : VirtDevice :=
  ⟨.cons, 0x10000, none, some spoolConsOps, 0, pmcw, scsw, 0⟩

/-- The only guest page is frame 5. -/
def onePage : GuestMem where
  frames v := if v = 0 then some 5 else none
  guestPages := [5]
  owned v frame h := by
    split_ifs at h
    rw [Option.some.inj h]
    exact List.mem_singleton_self _

/-- A guest of one page that has not run. -/
def newGuest : VirtSys where
  sie := ⟨0, 0, 0, 0, 0, fun _ => 0, 0, 0, fun _ => 0⟩
  regs := ⟨fun _ => 0, fun _ => 0, fun _ => 0, 0⟩
  state := .stopped
  intIo _ := []
  vdevs := [console (resetPmcw (pmcwV.set 1 0)) 0]
  as := onePage
  storageSize := 0x1000
  mem _ := 0

end Hvf
