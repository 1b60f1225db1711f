/-
# Mutual exclusion and hand-off order

A mutex is free, with state 1, no owner and no queue, or it has state 0 and one
owner (`Owned`).  The owner may be a task that an unlock took from the queue and
that does not run yet: it waits, on its way into or out of `schedule_blocked`,
and nothing but its own hand-off lets a waiting task go on (`Waiters`).
-/

import Hvf.Lib.StepRun
import Hvf.Nucleus.Mutex

namespace Hvf

open StepRun

variable {τ μ : Type*}

/-! ### One mutex -/

/-- The mutex is free, or it has one owner. -/
def Owned (lock : Mutex τ) (own : τ → Own) : Prop :=
  (lock.state = 1 ∧ lock.queue = [] ∧ ∀ t, own t = .no) ∨
    (lock.state = 0 ∧ ∃ t, ∀ t', own t' ≠ .no ↔ t' = t)

/-- **A mutex has one owner at most.** -/
theorem Owned.owner_unique {lock : Mutex τ} {own : τ → Own} (h : Owned lock own) {t t' : τ}
    (ht : own t ≠ .no) (ht' : own t' ≠ .no) : t = t' := by
  rcases h with ⟨_, _, hfree⟩ | ⟨_, u, hown⟩
  · exact absurd (hfree t) ht
  · exact ((hown t).1 ht).trans ((hown t').1 ht').symm

/-- The counter is 0 or 1, and 1 exactly when nobody owns the mutex. -/
theorem Owned.state_eq {lock : Mutex τ} {own : τ → Own} (h : Owned lock own) :
    (lock.state = 0 ∨ lock.state = 1) ∧ (lock.state = 1 ↔ ∀ t, own t = .no) := by
  rcases h with ⟨hstate, _, hfree⟩ | ⟨hstate, u, hown⟩
  · exact ⟨Or.inr hstate, fun _ => hfree, fun _ => hstate⟩
  · refine ⟨Or.inl hstate, fun h => ?_, fun h => absurd (h u) ((hown u).2 rfl)⟩
    rw [hstate] at h
    exact absurd h zero_ne_one

/-- With an owner, the other tasks do not own the mutex. -/
theorem Owned.others {lock : Mutex τ} {own : τ → Own} (h : Owned lock own) {t : τ}
    (ht : own t ≠ .no) (t' : τ) (hne : t' ≠ t) : own t' = .no :=
  not_not.1 fun ht' => hne (h.owner_unique ht' ht)

/-- A task that waits changes no ownership. -/
theorem Owned.enqueue {lock : Mutex τ} {own : τ → Own} (h : Owned lock own) (t : τ)
    (htake : lock.take = none) : Owned (lock.enqueue t) own := by
  have hzero := Mutex.take_none htake
  rcases h with ⟨hone, _⟩ | ⟨_, hown⟩
  · rw [hzero] at hone
    exact absurd hone zero_ne_one
  · exact Or.inr ⟨hzero, hown⟩

/-- An owned mutex counts 0. -/
theorem Owned.state_zero {lock : Mutex τ} {own : τ → Own} (h : Owned lock own) {t : τ}
    (ht : own t ≠ .no) : lock.state = 0 := by
  rcases h with ⟨_, _, hfree⟩ | ⟨hzero, _⟩
  · exact absurd (hfree t) ht
  · exact hzero

section Owner

variable [DecidableEq τ]

/-- What one task owns is changed, and it stays or becomes the only owner. -/
theorem owner_update {own : τ → Own} {t : τ} {o : Own} (ho : o ≠ .no)
    (hothers : ∀ t' ≠ t, own t' = .no) (t' : τ) : Function.update own t o t' ≠ .no ↔ t' = t := by
  rcases eq_or_ne t' t with rfl | hne
  · rw [Function.update_self]
    exact ⟨fun _ => rfl, fun _ => ho⟩
  · rw [Function.update_of_ne hne]
    exact ⟨fun h => absurd (hothers t' hne) h, fun h => absurd h hne⟩

/-- Taking a free mutex makes the task its owner. -/
theorem Owned.take {lock lock' : Mutex τ} {own : τ → Own} (h : Owned lock own) (t : τ)
    (htake : lock.take = some lock') : Owned lock' (Function.update own t .returned) := by
  obtain ⟨hstate, rfl⟩ := Mutex.take_some htake
  rcases h with ⟨hone, _, hfree⟩ | ⟨hzero, _⟩
  · right
    refine ⟨?_, t, owner_update (by decide) fun t' _ => hfree t'⟩
    dsimp only
    rw [hone]
    rfl
  · exact absurd hzero hstate

/-- The owner that was handed the mutex returns from `mutex_lock`. -/
theorem Owned.returns {lock : Mutex τ} {own : τ → Own} (h : Owned lock own) {t : τ}
    (ht : own t ≠ .no) : Owned lock (Function.update own t .returned) := by
  have hothers := h.others ht
  rcases h with ⟨_, _, hfree⟩ | ⟨hzero, _⟩
  · exact absurd (hfree t) ht
  · exact Or.inr ⟨hzero, t, owner_update (by decide) hothers⟩

/-- When the owner lets go, nobody owns the mutex. -/
theorem Owned.none_left {lock : Mutex τ} {own : τ → Own} (h : Owned lock own) {t : τ}
    (ht : own t ≠ .no) (t' : τ) : Function.update own t .no t' = .no := by
  rcases eq_or_ne t' t with rfl | hne
  · rw [Function.update_self]
  · rw [Function.update_of_ne hne, h.others ht t' hne]

/-- The owner unlocks a mutex that nobody waits for. -/
theorem Owned.unlock {lock lock' : Mutex τ} {own : τ → Own} (h : Owned lock own) {t : τ}
    (ht : own t ≠ .no) (hrelease : lock.release = (none, lock')) :
    Owned lock' (Function.update own t .no) := by
  obtain ⟨hqueue, rfl⟩ := Mutex.release_none hrelease
  refine Or.inl ⟨?_, hqueue, h.none_left ht⟩
  dsimp only
  rw [h.state_zero ht]
  rfl

/-- The owner unlocks a mutex, and the first task in the queue becomes the owner. -/
theorem Owned.handOff {lock lock' : Mutex τ} {own : τ → Own} (h : Owned lock own) {t u : τ}
    (ht : own t ≠ .no) (hrelease : lock.release = (some u, lock')) :
    Owned lock' (Function.update (Function.update own t .no) u .handed) := by
  right
  refine ⟨?_, u, owner_update (by decide) fun t' _ => h.none_left ht t'⟩
  rw [(Mutex.release_some hrelease).2, h.state_zero ht]

end Owner

/-! ### The tasks that wait -/

/-- The task is between its enqueueing and its return from `mutex_lock`. -/
def Waits (s : LockState τ μ) (t : τ) (m : μ) : Prop :=
  s.pc t = .enqueued m ∨ s.pc t = .blocked m

/-- A task in a queue waits and was not handed the mutex; a task that was handed
one waits; and a hand-off is followed by one `make_runnable` of its task. -/
structure Waiters (s : LockState τ μ) : Prop where
  queued : ∀ m, ∀ t ∈ (s.mutex m).queue, Waits s t m ∧ s.own m t ≠ .handed
  handed : ∀ m t, s.own m t = .handed → Waits s t m
  woken : ∀ t, 0 < s.woken t → s.woken t = 1 ∧ ∃ m, s.own m t = .handed
  waking : ∀ t u, s.pc t = .waking u →
    s.woken u = 0 ∧ (∃ m, s.own m u = .handed) ∧ ∀ t', s.pc t' = .waking u → t' = t

/-- A task waits for one mutex at most. -/
theorem Waits.unique {s : LockState τ μ} {t : τ} {m m' : μ} (h : Waits s t m)
    (h' : Waits s t m') : m = m' := by
  unfold Waits at h h'
  grind

/-- A task that does not wait is in no queue, and no hand-off to it is under way. -/
theorem Waiters.not_waiting {s : LockState τ μ} (h : Waiters s) {t : τ}
    (ht : ∀ m, ¬ Waits s t m) :
    (∀ m, t ∉ (s.mutex m).queue) ∧ (∀ m, s.own m t ≠ .handed) ∧ s.woken t = 0 ∧
      ∀ t', s.pc t' ≠ .waking t := by
  have hown : ∀ m, s.own m t ≠ .handed := fun m hm => ht m (h.handed m t hm)
  refine ⟨fun m hm => ht m (h.queued m t hm).1, hown, ?_, fun t' hpc => ?_⟩
  · rcases Nat.eq_zero_or_pos (s.woken t) with hzero | hpos
    · exact hzero
    · obtain ⟨_, m, hm⟩ := h.woken t hpos
      exact absurd hm (hown m)
  · obtain ⟨_, ⟨m, hm⟩, _⟩ := h.waking t' t hpc
    exact hown m hm

/-- A running task waits for none. -/
theorem not_waits_run {s : LockState τ μ} {t : τ} (h : s.pc t = .run) (m : μ) : ¬ Waits s t m := by
  rw [Waits, h]
  rintro (h | h) <;> cases h

/-- A task on the slow path has not yet begun to wait. -/
theorem not_waits_slow {s : LockState τ μ} {t : τ} {m' : μ} (h : s.pc t = .slow m') (m : μ) :
    ¬ Waits s t m := by
  rw [Waits, h]
  rintro (h | h) <;> cases h

/-- A step of a task that does not wait, before it and after it, and that leaves
the queues alone. -/
theorem Waiters.frame {s s' : LockState τ μ} (h : Waiters s) {t : τ} (ht : ∀ m, ¬ Waits s t m)
    (hpc : ∀ t' ≠ t, s'.pc t' = s.pc t') (hpc' : s'.pc t = .run ∨ ∃ m, s'.pc t = .slow m)
    (hown : ∀ m, ∀ t' ≠ t, s'.own m t' = s.own m t') (hown' : ∀ m, s'.own m t ≠ .handed)
    (hqueue : ∀ m, (s'.mutex m).queue = (s.mutex m).queue) (hwoken : s'.woken = s.woken) :
    Waiters s' := by
  obtain ⟨hnotin, _, hzero, hunwoken⟩ := h.not_waiting ht
  have hne : ∀ u m, s.own m u = .handed → u ≠ t := by
    rintro u m hu rfl
    exact ht m (h.handed m u hu)
  have hwaits : ∀ u, u ≠ t → ∀ m, Waits s u m → Waits s' u m := by
    intro u hu m
    rw [Waits, Waits, hpc u hu]
    exact id
  constructor
  · intro m u hu
    rw [hqueue] at hu
    have hut : u ≠ t := fun heq => hnotin m (heq ▸ hu)
    rw [hown m u hut]
    exact ⟨hwaits u hut m (h.queued m u hu).1, (h.queued m u hu).2⟩
  · intro m u hu
    have hut : u ≠ t := fun heq => hown' m (heq ▸ hu)
    rw [hown m u hut] at hu
    exact hwaits u hut m (h.handed m u hu)
  · intro u hu
    rw [hwoken] at hu ⊢
    obtain ⟨hone, m, hm⟩ := h.woken u hu
    exact ⟨hone, m, (hown m u (hne u m hm)).trans hm⟩
  · intro u v hu
    have hut : u ≠ t := by
      rintro rfl
      rcases hpc' with hpc' | ⟨m, hpc'⟩
      · exact nomatch hpc'.symm.trans hu
      · exact nomatch hpc'.symm.trans hu
    rw [hpc u hut] at hu
    obtain ⟨hv, ⟨m, hm⟩, hunique⟩ := h.waking u v hu
    refine ⟨by rw [hwoken, hv], ⟨m, (hown m v (hne v m hm)).trans hm⟩, fun u' hu' => ?_⟩
    rcases eq_or_ne u' t with rfl | hut'
    · rcases hpc' with hpc' | ⟨m, hpc'⟩
      · exact nomatch hpc'.symm.trans hu'
      · exact nomatch hpc'.symm.trans hu'
    · rw [hpc u' hut'] at hu'
      exact hunique u' hu'

section Step

variable [DecidableEq μ]

/-- The owner and the mutex are replaced at `m`. -/
theorem owned_update {mutex : μ → Mutex τ} {own : μ → τ → Own} (m : μ) {lock' : Mutex τ}
    {own' : τ → Own} (h : ∀ m, Owned (mutex m) (own m)) (hm : Owned lock' own') (m' : μ) :
    Owned (Function.update mutex m lock' m') (Function.update own m own' m') := by
  rcases eq_or_ne m' m with rfl | hne
  · rwa [Function.update_self, Function.update_self]
  · rw [Function.update_of_ne hne, Function.update_of_ne hne]
    exact h m'

variable [DecidableEq τ]

/-- The other tasks' ownership stays. -/
theorem setOwn_of_ne {m m' : μ} {t t' : τ} {o : Own} {own : μ → τ → Own} (h : t' ≠ t) :
    setOwn m t o own m' t' = own m' t' := by
  rw [setOwn_apply, if_neg fun heq => h heq.2]

/-- An ownership that was not held stays so, if it is not the one stored. -/
theorem setOwn_ne {m m' : μ} {t : τ} {o o' : Own} {own : μ → τ → Own} (ho : o ≠ o')
    (hown : own m' t ≠ o') : setOwn m t o own m' t ≠ o' := by
  rw [setOwn_apply]
  split
  · exact ho
  · exact hown

/-- **One step keeps the queues**: who is in one waits for that mutex. -/
theorem Waiters.step {s s' : LockState τ μ} {e : LockEvent τ μ} (h : Waiters s)
    (hnodup : ∀ m, (s.mutex m).queue.Nodup) (hstep : LockStep s e s') : Waiters s' := by
  cases hstep with
  | @lock t m lock' hpc htake =>
    have hwaits := not_waits_run hpc
    refine h.frame hwaits (fun _ _ => rfl) (Or.inl hpc) (fun _ _ => setOwn_of_ne)
      (fun m' => setOwn_ne (by decide) ((h.not_waiting hwaits).2.1 m'))
      (queue_update (Mutex.take_queue htake)) rfl
  | @lockFails t m hpc htake =>
    have hwaits := not_waits_run hpc
    exact h.frame hwaits (fun _ hne => Function.update_of_ne hne _ _)
      (Or.inr ⟨m, Function.update_self _ _ _⟩) (fun _ _ _ => rfl) ((h.not_waiting hwaits).2.1)
      (fun _ => rfl) rfl
  | @lockSlow t m lock' hpc htake =>
    have hwaits := not_waits_slow hpc
    exact h.frame hwaits (fun _ hne => Function.update_of_ne hne _ _)
      (Or.inl (Function.update_self _ _ _)) (fun _ _ => setOwn_of_ne)
      (fun m' => setOwn_ne (by decide) ((h.not_waiting hwaits).2.1 m'))
      (queue_update (Mutex.take_queue htake)) rfl
  | @enqueue t m hpc htake =>
    obtain ⟨hnotin, hnot, hzero, hunwoken⟩ := h.not_waiting (not_waits_slow hpc)
    obtain ⟨hqueued, hhanded, hwoken, hwaking⟩ := h
    constructor <;> simp only [Waits, Function.update_apply, Mutex.enqueue] at *
    · intro m' u hu
      grind
    · intro m' u hu
      grind
    · exact hwoken
    · intro u v hu
      grind
  | @scheduleBlocked t m hpc =>
    obtain ⟨hqueued, hhanded, hwoken, hwaking⟩ := h
    constructor <;> simp only [Waits, Function.update_apply] at *
    · intro m' u hu
      grind
    · intro m' u hu
      grind
    · exact hwoken
    · intro u v hu
      grind
  | @resume t m hpc hpos =>
    -- the hand-off that woke the task is that of the mutex it waits for
    have hown : s.own m t = .handed := by
      obtain ⟨_, m', hm'⟩ := h.woken t hpos
      rwa [Waits.unique (Or.inr hpc) (h.handed m' t hm')]
    have honly : ∀ m', s.own m' t = .handed → m' = m := fun m' hm' =>
      (h.handed m' t hm').unique (Or.inr hpc)
    have hone := (h.woken t hpos).1
    obtain ⟨hqueued, hhanded, hwoken, hwaking⟩ := h
    constructor <;> simp only [Waits, Function.update_apply, setOwn_apply] at *
    · intro m' u hu
      grind
    · intro m' u hu
      grind
    · intro u hu
      grind
    · intro u v hu
      grind
  | @unlock t m lock' hpc hown hrelease =>
    have hwaits := not_waits_run hpc
    exact h.frame hwaits (fun _ _ => rfl) (Or.inl hpc) (fun _ _ => setOwn_of_ne)
      (fun m' => setOwn_ne (by decide) ((h.not_waiting hwaits).2.1 m'))
      (queue_update (Mutex.release_none_queue hrelease)) rfl
  | @handOff t m u lock' hpc hown hrelease =>
    have hqueue := (Mutex.release_some hrelease).1
    have hunotin : u ∉ lock'.queue := (List.nodup_cons.1 (hqueue ▸ hnodup m)).1
    obtain ⟨hwaits, hunot⟩ := h.queued m u (hqueue ▸ List.mem_cons_self)
    -- the first in the queue was not handed a mutex before
    have hnone : ∀ m', s.own m' u ≠ .handed := fun m' hm' =>
      hunot ((h.handed m' u hm').unique hwaits ▸ hm')
    have hzero : s.woken u = 0 := by
      rcases Nat.eq_zero_or_pos (s.woken u) with hzero | hpos
      · exact hzero
      · obtain ⟨_, m', hm'⟩ := h.woken u hpos
        exact absurd hm' (hnone m')
    have hunwoken : ∀ t', s.pc t' ≠ .waking u := fun t' ht' => by
      obtain ⟨_, ⟨m', hm'⟩, _⟩ := h.waking t' u ht'
      exact hnone m' hm'
    obtain ⟨hqueued, hhanded, hwoken, hwaking⟩ := h
    constructor <;> simp only [Waits, Function.update_apply, setOwn_apply] at *
    · intro m' v hv
      grind
    · intro m' v hv
      grind
    · intro v hv
      grind
    · intro t' v hv
      grind
  | @makeRunnable t u hpc =>
    obtain ⟨hzero, hown, hunique⟩ := h.waking t u hpc
    obtain ⟨hqueued, hhanded, hwoken, hwaking⟩ := h
    constructor <;> simp only [Waits, Function.update_apply] at *
    · intro m' v hv
      grind
    · intro m' v hv
      grind
    · intro v hv
      grind
    · intro t' v hv
      grind

/-! ### Whole runs -/

/-- **The invariant of the mutexes.** Each is owned by at most one task, its queue has the
tasks that wait for it, none of them twice, and they are handed the mutex in the order in
which they came. -/
structure LockInv (s : LockState τ μ) : Prop where
  owned : ∀ m, Owned (s.mutex m) (s.own m)
  waiters : Waiters s
  nodup : ∀ m, (s.mutex m).queue.Nodup
  fifo : ∀ m, s.enqueued m = s.handed m ++ (s.mutex m).queue

omit [DecidableEq τ] [DecidableEq μ] in
/-- Before the first call nothing is owned and nobody waits. -/
theorem lockInit_inv : LockInv (lockInit : LockState τ μ) := by
  refine ⟨fun m => Or.inl ⟨rfl, rfl, fun _ => rfl⟩, ⟨?_, ?_, ?_, ?_⟩, fun m => List.nodup_nil,
    fun m => rfl⟩
  · rintro m t ht
    cases ht
  · rintro m t ht
    cases ht
  · rintro t ht
    exact absurd ht (lt_irrefl 0)
  · rintro t u ht
    cases ht

/-- One step keeps every mutex owned by at most one task. -/
theorem LockInv.owned_step {s s' : LockState τ μ} {e : LockEvent τ μ} (h : LockInv s)
    (hstep : LockStep s e s') (m' : μ) : Owned (s'.mutex m') (s'.own m') := by
  cases hstep with
  | @lock t m lock' hpc htake => exact owned_update m h.owned ((h.owned m).take t htake) m'
  | lockFails hpc htake => exact h.owned m'
  | @lockSlow t m lock' hpc htake => exact owned_update m h.owned ((h.owned m).take t htake) m'
  | @enqueue t m hpc htake =>
    have howned := owned_update m h.owned ((h.owned m).enqueue t htake) m'
    rwa [Function.update_eq_self] at howned
  | scheduleBlocked hpc => exact h.owned m'
  | @resume t m hpc hpos =>
    have hown : s.own m t ≠ .no := by
      obtain ⟨_, m₁, hm₁⟩ := h.waiters.woken t hpos
      rw [Waits.unique (Or.inr hpc) (h.waiters.handed m₁ t hm₁), hm₁]
      decide
    have howned := owned_update m h.owned ((h.owned m).returns hown) m'
    rwa [Function.update_eq_self] at howned
  | @unlock t m lock' hpc hown hrelease =>
    exact owned_update m h.owned ((h.owned m).unlock (by rw [hown]; decide) hrelease) m'
  | @handOff t m u lock' hpc hown hrelease =>
    have howned := owned_update m h.owned ((h.owned m).handOff (by rw [hown]; decide) hrelease) m'
    dsimp only
    unfold setOwn
    rwa [Function.update_self, Function.update_idem]
  | makeRunnable hpc => exact h.owned m'

/-- The queues keep what was enqueued and not handed the mutex, in order. -/
theorem LockInv.queue_step {s s' : LockState τ μ} {e : LockEvent τ μ} (h : LockInv s)
    (hstep : LockStep s e s') (m' : μ) :
    (s'.mutex m').queue.Nodup ∧ s'.enqueued m' = s'.handed m' ++ (s'.mutex m').queue := by
  have hold := And.intro (h.nodup m') (h.fifo m')
  cases hstep with
  | @lock t m lock' hpc htake =>
    rwa [queue_update (Mutex.take_queue htake)]
  | lockFails hpc htake => exact hold
  | @lockSlow t m lock' hpc htake =>
    rwa [queue_update (Mutex.take_queue htake)]
  | @enqueue t m hpc htake =>
    have hnotin := (h.waiters.not_waiting (not_waits_slow hpc)).1 m
    dsimp only
    rcases eq_or_ne m' m with rfl | hne
    · rw [Function.update_self, Function.update_self, Mutex.enqueue, hold.2]
      refine ⟨?_, List.append_assoc _ _ _⟩
      exact List.nodup_append_comm.1 (List.nodup_cons.2 ⟨hnotin, hold.1⟩)
    · rwa [Function.update_of_ne hne, Function.update_of_ne hne]
  | scheduleBlocked hpc => exact hold
  | resume hpc hpos => exact hold
  | @unlock t m lock' hpc hown hrelease =>
    rwa [queue_update (Mutex.release_none_queue hrelease)]
  | @handOff t m u lock' hpc hown hrelease =>
    have hqueue := (Mutex.release_some hrelease).1
    dsimp only
    rcases eq_or_ne m' m with rfl | hne
    · rw [hqueue] at hold
      rw [Function.update_self, Function.update_self, hold.2, List.append_assoc]
      exact ⟨(List.nodup_cons.1 hold.1).2, rfl⟩
    · rwa [Function.update_of_ne hne, Function.update_of_ne hne]
  | makeRunnable hpc => exact hold

/-- One step keeps the whole invariant. -/
theorem LockInv.step {s s' : LockState τ μ} {e : LockEvent τ μ} (h : LockInv s)
    (hstep : LockStep s e s') : LockInv s' :=
  ⟨h.owned_step hstep, h.waiters.step h.nodup hstep, fun m => (h.queue_step hstep m).1,
    fun m => (h.queue_step hstep m).2⟩

/-- **Mutual exclusion and hand-off order.**  In every state of every run, a mutex
has at most one owner; its state is 0 or 1, and 1 exactly when it has no owner;
and it was handed to the tasks that waited in the order in which they were
enqueued. -/
theorem mutex_exclusion {s : LockState τ μ} {ls : List (LockEvent τ μ)}
    (hrun : Run LockStep lockInit ls s) (m : μ) :
    (∀ t t', s.own m t ≠ .no → s.own m t' ≠ .no → t = t') ∧
      ((s.mutex m).state = 0 ∨ (s.mutex m).state = 1) ∧
      ((s.mutex m).state = 1 ↔ ∀ t, s.own m t = .no) ∧
      s.handed m <+: s.enqueued m := by
  have hinv : LockInv s :=
    hrun.invariant lockInit_inv fun _ _ _ hinv hstep => hinv.step hstep
  obtain ⟨hstate, hone⟩ := (hinv.owned m).state_eq
  refine ⟨fun t t' => (hinv.owned m).owner_unique, hstate, hone, ?_⟩
  rw [hinv.fifo m]
  exact List.prefix_append _ _

/-- Task 1 finds the mutex of task 0 locked, is handed it before it gets to
`schedule_blocked`, and returns from there with it. -/
theorem mutex_exclusion_handOff : ∃ s : LockState ℕ Unit,
    Run LockStep lockInit [.lock 0 (), .lock 1 (), .lockSlow 1, .unlock 0 (), .makeRunnable 0,
      .scheduleBlocked 1, .resume 1] s ∧ s.own () 1 = .returned ∧
    (∀ t, s.own () t ≠ .no → t = 1) ∧ (s.mutex ()).state = 0 := by
  have hheld := Run.nil.snoc (LockStep.lock (s := (lockInit : LockState ℕ Unit)) (t := 0) (m := ())
    rfl rfl)
  have hqueued := (hheld.snoc (.lockFails (t := 1) (m := ()) rfl rfl)).snoc
    (.enqueue (t := 1) rfl rfl)
  have hhanded := (hqueued.snoc (.handOff (t := 0) (m := ()) rfl rfl rfl)).snoc
    (.makeRunnable (t := 0) rfl)
  have hrun := (hhanded.snoc (.scheduleBlocked (t := 1) rfl)).snoc
    (.resume (t := 1) rfl (by decide))
  exact ⟨_, hrun, rfl, fun t ht => (mutex_exclusion hrun ()).1 t 1 ht (by decide), rfl⟩

end Step

end Hvf
