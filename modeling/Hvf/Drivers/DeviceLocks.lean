/-
# The locks of the device list and the I/O interrupt

`devs_lock`, `dev_types_lock` and the `q_lock` of every device, as the functions of
`cp/drivers/device.c` and `cp/nucleus/io.c` take them.  What the functions do to the
lists and queues under the locks does not change which lock comes next, so it is
left out; the number of devices on the list, a callback that blocks and the way
through the interrupt handler are arguments.  `BUG_ON` stops the machine and is
no way through.

`q_lock` is always taken by `spin_lock_intsave`, `devs_lock` by `spin_lock`; the
handler takes both.
-/

import Hvf.Lib.Spin

namespace Hvf

open Spin StepRun

/-- The spin locks: `other` are those that a callback of `list_devices` takes, such
as the `queue_lock` of a mutex. -/
inductive DevLock
  | devs
  | types
  | queue (dev : ℕ)
  | other (n : ℕ)
  deriving DecidableEq

/-- An operation; the flags are the `done` of the operations `struct io_op`. -/
abbrev DevOp := Op DevLock ℕ

/-- `spin_lock_intsave`. -/
def spinLockIntsave (l : DevLock) : List DevOp := [.disable, .lock l]

/-- `spin_unlock_intrestore`. -/
def spinUnlockIntrestore (l : DevLock) : List DevOp := [.unlock l, .restore]

/-- `spin_double_lock`; `less` is the comparison `l1 < l2`. -/
def spinDoubleLock (less : Bool) (l1 l2 : DevLock) : List DevOp :=
  if less then [.lock l1, .lock l2] else [.lock l2, .lock l1]

/-- `spin_double_unlock`. -/
def spinDoubleUnlock (less : Bool) (l1 l2 : DevLock) : List DevOp :=
  if less then [.unlock l2, .unlock l1] else [.unlock l1, .unlock l2]

/-- `find_device_by_ccuu`. -/
def findDeviceByCcuu : List DevOp := [.lock .devs, .unlock .devs]

/-- `find_device_by_sch`. -/
def findDeviceBySch : List DevOp := [.lock .devs, .unlock .devs]

/-- `find_device_by_type`. -/
def findDeviceByType : List DevOp := [.lock .devs, .unlock .devs]

/-- What a callback of `list_devices` does: take a lock in one of the two ways, or
call `schedule_blocked`, as `display_rdev` does in `mutex_lock`. -/
inductive CallbackStep
  | lock (n : ℕ)
  | lockIntsave (n : ℕ)
  | block

/-- The lock operations of one step of a callback: a lock of its own held around it, or a block.
-/
def CallbackStep.ops : CallbackStep → List DevOp
  | .lock n => [.lock (.other n), .unlock (.other n)]
  | .lockIntsave n => spinLockIntsave (.other n) ++ spinUnlockIntrestore (.other n)
  | .block => [.block]

/-- `list_devices`, with what `f` does for each device. -/
def listDevices (f : List (List CallbackStep)) : List DevOp :=
  .lock .devs :: (f.flatMap fun steps => steps.flatMap CallbackStep.ops) ++ [.unlock .devs]

/-- **How `submit_io` waits** for its operation, the flags `CAN_LOOP` and `CAN_SLEEP`. -/
inductive IoWait
  | no
  | canLoop
  | canSleep

/-- The end of `submit_io`. -/
def IoWait.ops (ioop : ℕ) : IoWait → List DevOp
  | .no => []
  | .canLoop => [.await ioop]
  | .canSleep => [.sleep ioop]

/-- `submit_io`. -/
def submitIoLocks (dev ioop : ℕ) (flags : IoWait) : List DevOp :=
  .clear ioop :: (spinLockIntsave (.queue dev) ++ spinUnlockIntrestore (.queue dev))
    ++ flags.ops ioop

/-- `__register_device`; `reg` is the device and the operation of the `submit_io` in
the `reg` function of the type, if that is called. -/
def registerDeviceLocks (less : Bool) (reg : Option (ℕ × ℕ)) : List DevOp :=
  spinDoubleLock less .devs .types ++ spinDoubleUnlock less .devs .types
    ++ (match reg with
      | some (dev, ioop) => submitIoLocks dev ioop .canLoop
      | none => [])
    ++ (spinDoubleLock less .devs .types ++ spinDoubleUnlock less .devs .types)

/-- **The ways through `__io_int_handler`** for a device: which locks are taken depends on
no more. -/
inductive IoIntCase
  /-- `__cpu_initiated_io` that leaves the operation registered -/
  | again
  /-- `__cpu_initiated_io` that finishes the operation -/
  | finished (ioop : ℕ)
  | devInitiated

/-- `__io_int_handler`. -/
def ioIntHandler : ℕ × IoIntCase → List DevOp
  | (dev, .finished ioop) =>
    findDeviceBySch ++ (spinLockIntsave (.queue dev) ++ spinUnlockIntrestore (.queue dev))
      ++ (spinLockIntsave (.queue dev) ++ spinUnlockIntrestore (.queue dev) ++ [.signal ioop])
  | (dev, _) =>
    findDeviceBySch ++ (spinLockIntsave (.queue dev) ++ spinUnlockIntrestore (.queue dev))

/-- **A call by a task** of one of the functions that take the locks of the device lists or
of a queue; a callback of `list_devices` brings operations of its own. -/
inductive DeviceCall
  | findDeviceByCcuu
  | findDeviceBySch
  | findDeviceByType
  | listDevices (f : List (List CallbackStep))
  | registerDevice (reg : Option (ℕ × ℕ))
  | submitIo (dev ioop : ℕ) (flags : IoWait)

/-- **The lock operations of a call into `device.c`**, in the order the function makes them. -/
def DeviceCall.ops (less : Bool) : DeviceCall → List DevOp
  | .findDeviceByCcuu => Hvf.findDeviceByCcuu
  | .findDeviceBySch => Hvf.findDeviceBySch
  | .findDeviceByType => Hvf.findDeviceByType
  | .listDevices f => Hvf.listDevices f
  | .registerDevice reg => registerDeviceLocks less reg
  | .submitIo dev ioop flags => submitIoLocks dev ioop flags

variable {τ : Type*}

/-- The state of the system: who holds each lock, and what every task has still to do. -/
abbrev DevState (τ : Type*) := Spin.State DevLock ℕ τ

/-- An event of the system: a call into `device.c` begins, or an I/O interruption arrives. -/
abbrev DevEvent (τ : Type*) := Spin.Event DeviceCall (ℕ × IoIntCase) τ

/-- One step of the CPU. -/
def devStep [DecidableEq τ] (less : Bool) (s : DevState τ) (e : DevEvent τ) (s' : DevState τ) :
    Prop :=
  s.step (DeviceCall.ops less) ioIntHandler e = some s'

/-- No lock is held, and no task is in one of the functions. -/
def devInit (current : τ) : DevState τ where
  holder _ := none
  done _ := false
  ctx _ := ⟨[], true, []⟩
  current := current
  handler := none

/-! ### The discipline -/

/-- The locks that are to be held with interrupts disabled: `q_lock`, and `devs_lock`
too if `devs`. -/
def safeLock (devs : Bool) : DevLock → Prop
  | .devs => devs = true
  | .types => False
  | .queue _ => True
  | .other _ => False

/-- The call takes `devs_lock` with interrupts disabled only, and keeps the CPU while
it holds it. -/
def DeviceCall.Masked (enabled : Bool) : DeviceCall → Prop
  | .listDevices f => enabled = false ∧ ∀ steps ∈ f, .block ∉ steps
  | .submitIo _ _ _ => True
  | _ => enabled = false

section Checked

variable {devs enabled : Bool} {held : List DevLock}

/-- A device's queue lock is taken with interrupts off and given back, so the operations leave
the locks as they were. -/
theorem queue_neutral (dev : ℕ) (hheld : enabled = true → ∀ l ∈ held, ¬ safeLock devs l)
    (hnot : .queue dev ∉ held) :
    Neutral (safeLock devs) held enabled
      (spinLockIntsave (.queue dev) ++ spinUnlockIntrestore (.queue dev)) :=
  Neutral.masked hheld (Neutral.section hnot (fun _ => rfl) Neutral.nil)

/-- What is done under `devs_lock` leaves the locks as they were, if it does so with that lock
held. -/
theorem devs_neutral {a : List DevOp} (hmask : devs = true → enabled = false)
    (ha : Neutral (safeLock devs) [.devs] enabled a) :
    Neutral (safeLock devs) [] enabled (.lock .devs :: a ++ [.unlock .devs]) :=
  Neutral.section List.not_mem_nil hmask ha

/-- Under `devs_lock`, a callback that keeps the CPU if it has to. -/
theorem CallbackStep.neutral (hmask : devs = true → enabled = false) (step : CallbackStep)
    (hblock : devs = true → step ≠ .block) :
    Neutral (safeLock devs) [.devs] enabled step.ops := by
  have hother : ∀ n, DevLock.other n ∉ [DevLock.devs] := fun n => by simp
  cases step with
  | lock n => exact Neutral.section (hother n) False.elim Neutral.nil
  | lockIntsave n =>
    refine Neutral.masked (fun henabled l hl hsafe => ?_)
      (Neutral.section (hother n) False.elim Neutral.nil)
    obtain rfl := List.mem_singleton.1 hl
    exact absurd (henabled.symm.trans (hmask hsafe)) (by decide)
  | block =>
    refine fun saved code h => ⟨fun l hl hsafe => ?_, h⟩
    obtain rfl := List.mem_singleton.1 hl
    exact hblock hsafe rfl

/-- The two list locks are taken in their order and both given back. -/
theorem double_neutral (less : Bool) (hmask : devs = true → enabled = false) :
    Neutral (safeLock devs) [] enabled
      (spinDoubleLock less .devs .types ++ spinDoubleUnlock less .devs .types) := by
  cases less with
  | true => exact devs_neutral hmask (Neutral.section (by simp) False.elim Neutral.nil)
  | false =>
    exact Neutral.section (l := DevLock.types) List.not_mem_nil False.elim
      (Neutral.section (l := DevLock.devs) (by simp) hmask Neutral.nil)

/-- `submit_io` gives back every lock it takes, whether or not it waits for the operation. -/
theorem submitIoLocks_neutral (dev ioop : ℕ) (flags : IoWait) :
    Neutral (safeLock devs) [] enabled (submitIoLocks dev ioop flags) := by
  have hqueue : Neutral (safeLock devs) [] enabled _ :=
    queue_neutral dev (fun _ l hl => absurd hl List.not_mem_nil) List.not_mem_nil
  have hwait : Neutral (safeLock devs) [] enabled (flags.ops ioop) := by
    cases flags with
    | no => exact Neutral.nil
    | canLoop => exact fun _ _ h => h
    | canSleep => exact fun _ _ h => ⟨fun l hl => absurd hl List.not_mem_nil, h⟩
  exact fun saved code h => hqueue.append hwait saved code h

/-- **Every call** keeps the discipline, for `devs_lock` if it is masked. -/
theorem DeviceCall.checked (less : Bool) (f : DeviceCall) (hmask : devs = true → f.Masked enabled) :
    Checked (safeLock devs) [] enabled [] (f.ops less) := by
  cases f with
  | findDeviceByCcuu => exact (devs_neutral hmask Neutral.nil).checked
  | findDeviceBySch => exact (devs_neutral hmask Neutral.nil).checked
  | findDeviceByType => exact (devs_neutral hmask Neutral.nil).checked
  | listDevices f =>
    refine (devs_neutral (fun h => (hmask h).1) (Neutral.flatMap fun steps hsteps =>
      Neutral.flatMap fun step hstep => ?_)).checked
    refine step.neutral (fun h => (hmask h).1) fun h heq => ?_
    exact (hmask h).2 steps hsteps (heq ▸ hstep)
  | registerDevice reg =>
    refine (((double_neutral less hmask).append ?_).append (double_neutral less hmask)).checked
    cases reg with
    | none => exact Neutral.nil
    | some reg => exact submitIoLocks_neutral reg.1 reg.2 .canLoop
  | submitIo dev ioop flags => exact (submitIoLocks_neutral dev ioop flags).checked

/-- **The handler** does. -/
theorem ioIntHandler_checked (i : ℕ × IoIntCase) :
    Checked (safeLock devs) [] false [] (ioIntHandler i) := by
  obtain ⟨dev, case⟩ := i
  have hfind : Neutral (safeLock devs) [] false findDeviceBySch :=
    devs_neutral (fun _ => rfl) Neutral.nil
  have hqueue : Neutral (safeLock devs) [] false _ :=
    queue_neutral dev (fun h => absurd h Bool.false_ne_true) List.not_mem_nil
  cases case with
  | again => exact (hfind.append hqueue).checked
  | devInitiated => exact (hfind.append hqueue).checked
  | finished ioop =>
    have hsignal : Neutral (safeLock devs) [] false [.signal ioop] := fun _ _ h => h
    exact ((hfind.append hqueue).append (hqueue.append hsignal)).checked

end Checked

/-! ### Runs -/

/-- Before the first call no lock is held, so the locking invariant holds. -/
theorem devInit_inv (safe : DevLock → Prop) (current : τ) : Inv safe (devInit current) where
  task _ := ⟨[], ⟨List.nodup_nil, fun _ => by simp [devInit], ⟨rfl, rfl⟩,
    fun _ _ hl => absurd hl List.not_mem_nil⟩, fun _ _ hl => absurd hl List.not_mem_nil⟩
  idle _ _ h := by cases h
  handler _ h := by cases h

/-- Before the first call nothing is under way. -/
theorem devInit_clear (current : τ) : (devInit current).Clear := fun _ h => by cases h

/-- An interrupt arrives while no task holds `devs_lock`. -/
def DevsFree (s : DevState τ) : DevEvent τ → Prop
  | .interrupt _ => ∀ t, s.holder .devs ≠ some (.task t)
  | _ => True

variable [DecidableEq τ] {less : Bool} {current : τ} {ls : List (DevEvent τ)} {s : DevState τ}

/-- The locking invariant holds in every state that a run reaches. -/
theorem devRun_inv (hrun : Run (devStep less) (devInit current) ls s) : Inv (safeLock false) s :=
  hrun.invariant (devInit_inv _ current) fun _ _ _ h hstep =>
    h.step (fun f _ => f.checked less fun hdevs => absurd hdevs Bool.false_ne_true)
      ioIntHandler_checked hstep

/-- The handler takes `devs_lock` and the `q_lock` of a device. -/
theorem lock_mem_ioIntHandler {i : ℕ × IoIntCase} {l : DevLock} (h : .lock l ∈ ioIntHandler i) :
    l = .devs ∨ l = .queue i.1 := by
  obtain ⟨dev, case⟩ := i
  cases case <;>
    simpa [ioIntHandler, findDeviceBySch, spinLockIntsave, spinUnlockIntrestore] using h

/-- It begins with `devs_lock`. -/
theorem ioIntHandler_eq (i : ℕ × IoIntCase) : ∃ code, ioIntHandler i = .lock .devs :: code := by
  obtain ⟨dev, case⟩ := i
  cases case with
  | again => exact ⟨_, rfl⟩
  | finished ioop => exact ⟨_, rfl⟩
  | devInitiated => exact ⟨_, rfl⟩

/-- **In runs in which interrupts find `devs_lock` free**, the handler waits for no task. -/
theorem devRun_clear (hrun : Run (guarded DevsFree (devStep less)) (devInit current) ls s) :
    s.Clear := by
  refine (hrun.history (P := fun ls s => Run (devStep less) (devInit current) ls s ∧ s.Clear)
    ⟨Run.nil, devInit_clear current⟩ ?_).2
  rintro ls s e s' ⟨hrun, hclear⟩ ⟨hfree, hstep⟩
  refine ⟨hrun.snoc hstep, hclear.step (devRun_inv hrun) ?_ hstep⟩
  rintro i rfl l hl hsafe t
  rcases lock_mem_ioIntHandler hl with rfl | rfl
  · exact hfree t
  · exact absurd trivial hsafe

/-- **When the I/O interrupt handler deadlocks.**  All along a run it never tries to
take a spin lock that a task holds, exactly when every interrupt of the run arrives
while no task holds `devs_lock`. -/
theorem ioIntHandler_deadlockFree_iff (hrun : Run (devStep less) (devInit current) ls s) :
    (∀ ls' s', ls' <+: ls → Run (devStep less) (devInit current) ls' s' → ¬ s'.Deadlocked) ↔
      Run (guarded DevsFree (devStep less)) (devInit current) ls s := by
  refine Run.always_iff (P := fun _ s => ¬ s.Deadlocked)
    (fun t e u u' h h' => Option.some.inj (h.symm.trans h'))
    (devInit_clear current).not_deadlocked ?_ hrun
  intro ls s e s' hguarded _ hstep
  constructor
  · intro hnot
    cases e with
    | interrupt i =>
      intro t hheld
      simp only [devStep, State.step] at hstep
      split at hstep
      case isTrue =>
        obtain rfl := Option.some.inj hstep
        obtain ⟨code, hcode⟩ := ioIntHandler_eq i
        exact hnot ⟨_, .devs, code, t, rfl, hcode, hheld⟩
      case isFalse => cases hstep
    | _ => trivial
  · intro hfree
    exact (devRun_clear (hguarded.snoc ⟨hfree, hstep⟩)).not_deadlocked

/-- A task in `find_device_by_ccuu` is interrupted with `devs_lock` held, and the handler
waits for the lock for ever. -/
theorem ioIntHandler_deadlock : ¬ ∀ (ls : List (DevEvent ℕ)) (s : DevState ℕ),
    Run (devStep true) (devInit 0) ls s → ¬ s.Deadlocked := by
  intro h
  have hrun : Run (devStep true) (devInit 0)
      [.call .findDeviceByCcuu, .run, .interrupt (0, .devInitiated)] _ := Run.of_foldlM rfl
  exact h _ _ hrun ⟨_, .devs, _, 0, rfl, rfl, rfl⟩

/-- An interrupt behind a call that has given the lock back: it is handled, and nobody waits
for a lock that is not given back. -/
theorem ioIntHandler_deadlockFree_call : ∃ s : DevState ℕ, Run (devStep true) (devInit 0)
    [.call .findDeviceByCcuu, .run, .run, .interrupt (0, .again)] s ∧ ¬ s.Deadlocked := by
  have hstart : Run (guarded DevsFree (devStep true)) (devInit 0) [] (devInit 0 : DevState ℕ) :=
    Run.nil
  have hcall := hstart.snoc (l := Event.call .findDeviceByCcuu) ⟨trivial, rfl⟩
  have hlock := hcall.snoc (l := Event.run) ⟨trivial, rfl⟩
  have hunlock := hlock.snoc (l := Event.run) ⟨trivial, rfl⟩
  have hrun := hunlock.snoc (l := Event.interrupt (0, .again)) ⟨fun t h => (by cases h), rfl⟩
  exact ⟨_, hrun.of_guarded, (ioIntHandler_deadlockFree_iff hrun.of_guarded).2 hrun _ _
    List.prefix_rfl hrun.of_guarded⟩

/-- **With `devs_lock` taken as `q_lock` is**, interrupts disabled and the CPU kept,
the handler never deadlocks. -/
theorem devRun_masked
    (hrun : Run (guarded (fun s e => ∀ f, e = .call f → f.Masked s.self.enabled) (devStep less))
      (devInit current) ls s) : ¬ s.Deadlocked := by
  have hboth : Inv (safeLock true) s ∧ s.Clear := by
    refine hrun.invariant (P := fun s => Inv (safeLock true) s ∧ s.Clear)
      ⟨devInit_inv _ current, devInit_clear current⟩ ?_
    rintro s e s' ⟨hinv, hclear⟩ ⟨hmasked, hstep⟩
    refine ⟨hinv.step (fun f hf => f.checked less fun _ => hmasked f hf) ioIntHandler_checked hstep,
      hclear.step hinv ?_ hstep⟩
    rintro i - l hl hsafe
    rcases lock_mem_ioIntHandler hl with rfl | rfl
    · exact absurd rfl hsafe
    · exact absurd trivial hsafe
  exact hboth.2.not_deadlocked

end Hvf
