/-
# The scheduler

`cp/nucleus/sched.c` and the timer interruption of `cp/nucleus/ext.c`, with the
mutexes on top.  The interruption can come between any two steps of a task.  As
`runnable` is changed without a lock, each store of `list_add_tail` is a step when
a task does it, while interruption handlers are not interrupted.  A section under
a `queue_lock` is one step: a task that finds the spin lock held waits for it.

A step has no result if it follows a pointer that `list_del` has overwritten.
`processes` and the `state` of a task decide nothing here and are left out; a task
is `live` between `create_task` and its exit.
-/

import Hvf.Lib.Ring
import Hvf.Nucleus.Mutex

namespace Hvf

open Ring

/-- `HZ`: timer interruptions in a second. -/
def hz : BitVec 64 := 100
/-- `SCHED_SLICE_MS`: a task's slice in milliseconds. -/
def schedSliceMs : BitVec 64 := 30

/-- `SCHED_TICKS_PER_SLICE`. -/
def schedTicksPerSlice : BitVec 64 := hz / schedSliceMs

/-- **The nodes of the scheduler's list**: its head `runnable`, and the `run_queue` members
of the tasks. -/
inductive RunNode (τ : Type*)
  | runnable
  | task (t : τ)
  deriving DecidableEq

/-- **The state that `__schedule` gives** the task that stops running; a task that is
sleeping goes back to the list. -/
inductive TaskState
  | sleeping
  | locked
  | zombie
  deriving DecidableEq

/-- **Where a task is** in the functions of the scheduler and the mutexes. The places are
those between which a timer interruption makes a difference. -/
inductive SchedPc (τ μ : Type*)
  /-- in none of the functions below -/
  | run
  /-- at the start of `__mutex_lock_slow` -/
  | lockSlow (m : μ)
  /-- on the queue of a mutex, at the call of `schedule_blocked` -/
  | enqueued (m : μ)
  /-- in `make_runnable` or `create_task`, at the `list_add_tail` to `runnable` -/
  | adding (t : τ)
  /-- in this `list_add_tail`, at the first of the stores -/
  | storing (t : τ) (stores : List (Store (RunNode τ)))

/-- **The nucleus**: the current task, the links of the list, the mutexes, where each task
is, which are live, and the clock with the slices; as `current` and in the tables of tasks,
`none` is the idle task. -/
structure Sched (τ μ : Type*) where
  current : Option τ
  links : Links (RunNode τ)
  mutex : μ → Mutex τ
  pc : Option τ → SchedPc τ μ
  live : τ → Bool
  ticks : BitVec 64
  sliceEndTime : Option τ → BitVec 64

/-- After `init_sched` the idle task runs. -/
def schedInit {τ μ : Type*} : Sched τ μ where
  current := none
  links :=
    { next := fun | .runnable => some .runnable | .task _ => none
      prev := fun | .runnable => some .runnable | .task _ => none }
  mutex := fun _ => mutexInit
  pc := fun _ => .run
  live := fun _ => false
  ticks := 0
  sliceEndTime := fun _ => 0

/-- **What happens next**: a call of the current task, the next step of the function it is
in, or a timer interruption. -/
inductive SchedEvent (τ μ : Type*)
  | timer
  | lock (m : μ)
  | unlock (m : μ)
  | createTask (t : τ)
  | schedule
  | exit
  /-- the next step of the function the current task is in -/
  | go

variable {τ μ : Type*} [DecidableEq τ]

/-- The task that `__sched` has chosen runs. -/
def Sched.run (next : Option τ) (forceIdle : BitVec 32) (s : Sched τ μ) : Sched τ μ :=
  let sliceEnd := if forceIdle ≠ 0 then forceIdle.signExtend 64 else s.ticks + schedTicksPerSlice
  { s with current := next, sliceEndTime := Function.update s.sliceEndTime next sliceEnd }

/-- `__sched`. -/
def _sched (forceIdle : BitVec 32) (s : Sched τ μ) : Option (Sched τ μ) :=
  if forceIdle ≠ 0 ∨ s.links.next .runnable = some .runnable then some (s.run none forceIdle)
  else
    match s.links.next .runnable with
    | some (.task next) =>
        (s.links.del (.task next)).map fun links => { s with links }.run (some next) forceIdle
    | _ => none

/-- The `force_idle` of `__schedule`: nonzero if `prev` did not use its full slice. -/
def Sched.forceIdle (prev : τ) (s : Sched τ μ) : BitVec 32 :=
  let sliceEnd := s.sliceEndTime (some prev)
  if sliceEnd ≥ s.ticks + schedTicksPerSlice then sliceEnd.setWidth 32 else 0

/-- `__schedule`. -/
def _schedule (newstate : TaskState) (s : Sched τ μ) : Option (Sched τ μ) :=
  match s.current with
  | none => _sched 0 s
  | some prev =>
      let forceIdle := s.forceIdle prev
      match newstate with
      | .zombie => _sched forceIdle { s with live := Function.update s.live prev false }
      | .locked => _sched forceIdle s
      | .sleeping =>
          (s.links.addTail (.task prev) .runnable).bind fun links =>
            _sched forceIdle { s with links }

/-- The current task goes to `pc`. -/
def Sched.setPc (pc : SchedPc τ μ) (s : Sched τ μ) : Sched τ μ :=
  { s with pc := Function.update s.pc s.current pc }

/-- The running task is where it was put. -/
@[simp]
theorem Sched.setPc_here (pc : SchedPc τ μ) (s : Sched τ μ) :
    (s.setPc pc).pc (s.setPc pc).current = pc :=
  Function.update_self _ _ _

/-- The others are where they were. -/
theorem Sched.setPc_other {a : Option τ} {s : Sched τ μ} (h : a ≠ s.current) (pc : SchedPc τ μ) :
    (s.setPc pc).pc a = s.pc a :=
  Function.update_of_ne h _ _

/-- `__ext_int_handler` for the timer. -/
def _extIntHandler (s : Sched τ μ) : Option (Sched τ μ) :=
  let s := { s with ticks := s.ticks + 1 }
  if s.ticks % schedTicksPerSlice = 0 then _schedule .sleeping s else some s

/-- `create_task`, to the `list_add_tail` to `runnable`; the memory for the new
task is not that of a live one. -/
def createTask (t : τ) (s : Sched τ μ) : Option (Sched τ μ) :=
  if s.live t then none
  else
    let s := { s with
      live := Function.update s.live t true
      pc := Function.update s.pc (some t) .run
      sliceEndTime := Function.update s.sliceEndTime (some t) 0 }
    some (s.setPc (.adding t))

variable [DecidableEq μ]

/-- A mutex, replaced. -/
def Sched.setMutex (m : μ) (lock : Mutex τ) (s : Sched τ μ) : Sched τ μ :=
  { s with mutex := Function.update s.mutex m lock }

/-- The fast path of `__mutex_lock`. -/
def _mutexLock (m : μ) (s : Sched τ μ) : Sched τ μ :=
  match (s.mutex m).take with
  | some lock => s.setMutex m lock
  | none => s.setPc (.lockSlow m)

/-- The section of `__mutex_lock_slow`, in the task `t`. -/
def _mutexLockSlow (t : τ) (m : μ) (s : Sched τ μ) : Sched τ μ :=
  match (s.mutex m).take with
  | some lock => (s.setMutex m lock).setPc .run
  | none => (s.setMutex m ((s.mutex m).enqueue t)).setPc (.enqueued m)

/-- `__mutex_unlock`, to the call of `make_runnable`. -/
def _mutexUnlock (m : μ) (s : Sched τ μ) : Sched τ μ :=
  match (s.mutex m).release with
  | (none, lock) => s.setMutex m lock
  | (some t, lock) => (s.setMutex m lock).setPc (.adding t)

/-- A step inside of a function. -/
def Sched.go (s : Sched τ μ) : Option (Sched τ μ) :=
  match s.pc s.current with
  | .run => none
  | .lockSlow m => s.current.map fun t => _mutexLockSlow t m s
  | .enqueued _ => _schedule .locked (s.setPc .run)
  | .adding t =>
      (s.links.prev .runnable).map fun p => s.setPc (.storing t (addStores (.task t) p .runnable))
  | .storing _ [] => none
  | .storing _ [store] => some ({ s with links := s.links.put store }.setPc .run)
  | .storing t (store :: stores) =>
      some ({ s with links := s.links.put store }.setPc (.storing t stores))

/-- The current task calls a function.  The idle task locks no mutex and does not exit. -/
def Sched.call (s : Sched τ μ) : SchedEvent τ μ → Option (Sched τ μ)
  | .lock m => s.current.map fun _ => _mutexLock m s
  | .unlock m => s.current.map fun _ => _mutexUnlock m s
  | .createTask t => createTask t s
  | .schedule => _schedule .sleeping s
  | .exit => s.current.bind fun _ => _schedule .zombie s
  | .timer | .go => none

/-- One step. -/
def Sched.step (s : Sched τ μ) : SchedEvent τ μ → Option (Sched τ μ)
  | .timer => _extIntHandler s
  | .go => s.go
  | e =>
      match s.pc s.current with
      | .run => s.call e
      | _ => none

/-- One event of the run, where the code can make it. -/
def SchedStep (s : Sched τ μ) (e : SchedEvent τ μ) (s' : Sched τ μ) : Prop := s.step e = some s'

/-! ### Placement -/

/-- **Where a task can be**: it runs, it is in the list, or it waits in the queue of a
mutex. -/
inductive Place (μ : Type*)
  | current
  | runnable
  | queue (m : μ)

/-- Whether a task is at a place: current, in `runnable`, or in the queue of a mutex. -/
def At (current : Option τ) (runnable : List τ) (mutex : μ → Mutex τ) (t : τ) : Place μ → Prop
  | .current => current = some t
  | .runnable => t ∈ runnable
  | .queue m => t ∈ (mutex m).queue

/-- **Placement.**  `runnable` is a list; no task is in it or in a queue of a mutex
twice; and every live task is current, or in `runnable`, or in one of the queues,
and in one of these places only. -/
def Placement (s : Sched τ μ) : Prop :=
  ∃ runnable : List τ, IsRing s.links .runnable (runnable.map .task) ∧
    (∀ m, (s.mutex m).queue.Nodup) ∧
    ∀ t, s.live t → ∃! place, At s.current runnable s.mutex t place

/-- A task is being moved: the task itself to the queue of a mutex and then out of
the way, or another one to `runnable`. -/
def SchedPc.Moving : SchedPc τ μ → Prop
  | .run | .lockSlow _ => False
  | .enqueued _ | .adding _ | .storing _ _ => True

/-- The current task is moving a task. -/
def InWindow (s : Sched τ μ) : Prop := (s.pc s.current).Moving

end Hvf
