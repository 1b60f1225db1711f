/-
# Mutexes

`cp/include/mutex.h` and `cp/nucleus/mutex.c`.  An atomic operation and a section
under `queue_lock` is one step of a task: a task that finds the spin lock held
waits for the section to end.  Between two steps any other task may run.

A task in `schedule_blocked` is `TASK_LOCKED`, so the scheduler does not put it
back on `runnable`, and it goes on only when `make_runnable` has put it there;
`woken` counts these entries.  `own`, `enqueued` and `handed` are history.
-/

import Mathlib.Tactic

namespace Hvf

variable {τ μ : Type*}

/-- `atomic_add_unless`; `none` if the value is `u`. -/
def atomicAddUnless (v a u : ℤ) : Option ℤ := if v = u then none else some (v + a)

/-- **A mutex** (`mutex_t`): the counter that `mutex_lock` takes from 1 to 0, and the queue
of the tasks that wait. -/
structure Mutex (τ : Type*) where
  state : ℤ
  queue : List τ

/-- `mutex_init`. -/
def mutexInit : Mutex τ := ⟨1, []⟩

/-- The decrement with which `__mutex_lock` and `__mutex_lock_slow` take the mutex. -/
def Mutex.take (lock : Mutex τ) : Option (Mutex τ) :=
  (atomicAddUnless lock.state (-1) 0).map fun state => { lock with state }

/-- `list_add_tail` of a task to the queue. -/
def Mutex.enqueue (t : τ) (lock : Mutex τ) : Mutex τ := { lock with queue := lock.queue ++ [t] }

/-- What `__mutex_unlock` does under `queue_lock`, and the task it takes from the queue. -/
def Mutex.release (lock : Mutex τ) : Option τ × Mutex τ :=
  match lock.queue with
  | [] => (none, { lock with state := lock.state + 1 })
  | t :: queue => (some t, { lock with queue })

/-- A mutex taken was free, and is counted down. -/
theorem Mutex.take_some {lock lock' : Mutex τ} (h : lock.take = some lock') :
    lock.state ≠ 0 ∧ lock' = { lock with state := lock.state - 1 } := by
  unfold Mutex.take atomicAddUnless at h
  split at h
  · cases h
  · rename_i hstate
    exact ⟨hstate, (Option.some.inj h).symm⟩

/-- A mutex not taken was held. -/
theorem Mutex.take_none {lock : Mutex τ} (h : lock.take = none) : lock.state = 0 := by
  unfold Mutex.take atomicAddUnless at h
  split at h
  · assumption
  · cases h

/-- Taking a mutex leaves its queue. -/
theorem Mutex.take_queue {lock lock' : Mutex τ} (h : lock.take = some lock') :
    lock.queue = lock'.queue := by
  rw [(Mutex.take_some h).2]

/-- A release that wakes no task had none waiting, and counts up. -/
theorem Mutex.release_none {lock lock' : Mutex τ} (h : lock.release = (none, lock')) :
    lock.queue = [] ∧ lock' = { lock with state := lock.state + 1 } := by
  unfold Mutex.release at h
  split at h
  · rename_i hqueue
    exact ⟨hqueue, (Prod.mk.inj h).2.symm⟩
  · cases (Prod.mk.inj h).1

/-- A release that wakes a task takes the first of the queue, and does not count. -/
theorem Mutex.release_some {lock lock' : Mutex τ} {t : τ} (h : lock.release = (some t, lock')) :
    lock.queue = t :: lock'.queue ∧ lock'.state = lock.state := by
  unfold Mutex.release at h
  split at h
  · cases (Prod.mk.inj h).1
  · rename_i hqueue
    obtain ⟨ht, rfl⟩ := Prod.mk.inj h
    obtain rfl := Option.some.inj ht
    exact ⟨hqueue, rfl⟩

/-- A release that wakes no task leaves the queue. -/
theorem Mutex.release_none_queue {lock lock' : Mutex τ} (h : lock.release = (none, lock')) :
    lock.queue = lock'.queue := by
  rw [(Mutex.release_none h).2]

/-- The mutex `m` is replaced by one with the same queue. -/
theorem queue_update [DecidableEq μ] {mutex : μ → Mutex τ} {m : μ} {lock' : Mutex τ}
    (h : (mutex m).queue = lock'.queue) (m' : μ) :
    (Function.update mutex m lock' m').queue = (mutex m').queue := by
  rcases eq_or_ne m' m with rfl | hne
  · rw [Function.update_self, h]
  · rw [Function.update_of_ne hne]

/-- **Where a task is** in the functions of a mutex. Between two of these places nothing is
done that another task can see. -/
inductive LockPc (τ μ : Type*)
  /-- in none of the functions below -/
  | run
  /-- at the start of `__mutex_lock_slow` -/
  | slow (m : μ)
  /-- on the queue, at the call of `schedule_blocked` -/
  | enqueued (m : μ)
  /-- in `schedule_blocked` -/
  | blocked (m : μ)
  /-- in `__mutex_unlock`, at the call of `make_runnable` -/
  | waking (t : τ)

/-- Whether a task owns a mutex: it was handed it by an unlock and is still in
`mutex_lock`, or it has returned from there. -/
inductive Own
  | no
  | handed
  | returned
  deriving DecidableEq

/-- **The state of the tasks and mutexes**: the mutexes, where each task is, how often it was
woken, and who owns what. -/
structure LockState (τ μ : Type*) where
  mutex : μ → Mutex τ
  pc : τ → LockPc τ μ
  woken : τ → ℕ
  own : μ → τ → Own
  enqueued : μ → List τ
  handed : μ → List τ

/-- All mutexes are as `mutex_init` leaves them, and no task is in a function on them. -/
def lockInit : LockState τ μ :=
  ⟨fun _ => mutexInit, fun _ => .run, fun _ => 0, fun _ _ => .no, fun _ => [], fun _ => []⟩

/-- **The next step of a task**: a call, or what follows in the function it is in. -/
inductive LockEvent (τ μ : Type*)
  | lock (t : τ) (m : μ)
  | lockSlow (t : τ)
  | scheduleBlocked (t : τ)
  | resume (t : τ)
  | unlock (t : τ) (m : μ)
  | makeRunnable (t : τ)

section Steps

variable [DecidableEq τ] [DecidableEq μ]

/-- The history when `t` begins or ends to own `m`. -/
def setOwn (m : μ) (t : τ) (o : Own) (own : μ → τ → Own) : μ → τ → Own :=
  Function.update own m (Function.update (own m) t o)

/-- The ownership of a task is changed for that mutex only. -/
theorem setOwn_apply (m m' : μ) (t t' : τ) (o : Own) (own : μ → τ → Own) :
    setOwn m t o own m' t' = if m' = m ∧ t' = t then o else own m' t' := by
  unfold setOwn
  rcases eq_or_ne m' m with rfl | hm
  · rw [Function.update_self, Function.update_apply]
    simp
  · rw [Function.update_of_ne hm, if_neg fun h => hm h.1]

/-- **What a step does.** Locks and unlocks are in pairs: a task unlocks a mutex only if it
has locked it, and calls nothing else while it waits. -/
inductive LockStep : LockState τ μ → LockEvent τ μ → LockState τ μ → Prop
  | lock {s t m lock'} : s.pc t = .run → (s.mutex m).take = some lock' →
      LockStep s (.lock t m)
        { s with mutex := Function.update s.mutex m lock', own := setOwn m t .returned s.own }
  | lockFails {s t m} : s.pc t = .run → (s.mutex m).take = none →
      LockStep s (.lock t m) { s with pc := Function.update s.pc t (.slow m) }
  | lockSlow {s t m lock'} : s.pc t = .slow m → (s.mutex m).take = some lock' →
      LockStep s (.lockSlow t)
        { s with
          mutex := Function.update s.mutex m lock'
          pc := Function.update s.pc t .run
          own := setOwn m t .returned s.own }
  | enqueue {s t m} : s.pc t = .slow m → (s.mutex m).take = none →
      LockStep s (.lockSlow t)
        { s with
          mutex := Function.update s.mutex m ((s.mutex m).enqueue t)
          pc := Function.update s.pc t (.enqueued m)
          enqueued := Function.update s.enqueued m (s.enqueued m ++ [t]) }
  | scheduleBlocked {s t m} : s.pc t = .enqueued m →
      LockStep s (.scheduleBlocked t) { s with pc := Function.update s.pc t (.blocked m) }
  | resume {s t m} : s.pc t = .blocked m → 0 < s.woken t →
      LockStep s (.resume t)
        { s with
          pc := Function.update s.pc t .run
          woken := Function.update s.woken t (s.woken t - 1)
          own := setOwn m t .returned s.own }
  | unlock {s t m lock'} : s.pc t = .run → s.own m t = .returned →
      (s.mutex m).release = (none, lock') →
      LockStep s (.unlock t m)
        { s with mutex := Function.update s.mutex m lock', own := setOwn m t .no s.own }
  | handOff {s t m u lock'} : s.pc t = .run → s.own m t = .returned →
      (s.mutex m).release = (some u, lock') →
      LockStep s (.unlock t m)
        { s with
          mutex := Function.update s.mutex m lock'
          pc := Function.update s.pc t (.waking u)
          own := setOwn m u .handed (setOwn m t .no s.own)
          handed := Function.update s.handed m (s.handed m ++ [u]) }
  | makeRunnable {s t u} : s.pc t = .waking u →
      LockStep s (.makeRunnable t)
        { s with
          pc := Function.update s.pc t .run
          woken := Function.update s.woken u (s.woken u + 1) }

end Steps

end Hvf
