/-
# Every task is in one place

A task changes its place in a few ways (`Seated` and the lemmas on it): the
current task goes to the end of `runnable` or to the queue of a mutex, or exits;
the first of `runnable` becomes current; the first of a queue, and a new task, are
out of all places until they are put in `runnable`.

While the current task is moving a task it is between two of these, so a timer
interruption that reschedules there leaves a task in two places or in none.  When
there is no such interruption, every live task is in exactly one place, but for
the one that is being moved (`SchedInv`).
-/

import Hvf.Lib.StepRun
import Hvf.Nucleus.Sched

namespace Hvf

open Ring StepRun

variable {τ μ : Type*}

/-! ### Places -/

/-- **No task is in two places**, and the live ones are in one, but for the task `out`,
which is on its way. -/
structure Seated (current : Option τ) (runnable : List τ) (mutex : μ → Mutex τ) (live : τ → Bool)
    (out : Option τ) : Prop where
  nodup : runnable.Nodup
  queue_nodup : ∀ m, (mutex m).queue.Nodup
  of_current : ∀ t, current = some t → t ∉ runnable ∧ ∀ m, t ∉ (mutex m).queue
  of_runnable : ∀ t ∈ runnable, ∀ m, t ∉ (mutex m).queue
  of_queue : ∀ t m m', t ∈ (mutex m).queue → t ∈ (mutex m').queue → m = m'
  of_out : ∀ t, out = some t → current ≠ some t ∧ t ∉ runnable ∧ ∀ m, t ∉ (mutex m).queue
  live_iff : ∀ t, live t ↔
    current = some t ∨ t ∈ runnable ∨ (∃ m, t ∈ (mutex m).queue) ∨ out = some t

variable {current out : Option τ} {runnable : List τ} {mutex : μ → Mutex τ} {live : τ → Bool}

/-- **Every live task has one place.** -/
theorem Seated.place (h : Seated current runnable mutex live none) {t : τ} (ht : live t) :
    ∃! place, At current runnable mutex t place := by
  rcases (h.live_iff t).1 ht with hcur | hrun | ⟨m, hq⟩ | hout
  · refine ⟨.current, hcur, ?_⟩
    rintro (_ | _ | m) hplace
    · rfl
    · exact absurd hplace (h.of_current t hcur).1
    · exact absurd hplace ((h.of_current t hcur).2 m)
  · refine ⟨.runnable, hrun, ?_⟩
    rintro (_ | _ | m) hplace
    · exact absurd hrun (h.of_current t hplace).1
    · rfl
    · exact absurd hplace (h.of_runnable t hrun m)
  · refine ⟨.queue m, hq, ?_⟩
    rintro (_ | _ | m') hplace
    · exact absurd hq ((h.of_current t hplace).2 m)
    · exact absurd hq (h.of_runnable t hplace m)
    · rw [h.of_queue t m' m hplace hq]
  · cases hout

/-- Places depend on the queues of the mutexes, not on their counters. -/
theorem Seated.congr {mutex' : μ → Mutex τ} (h : Seated current runnable mutex live out)
    (hqueue : ∀ m, (mutex' m).queue = (mutex m).queue) :
    Seated current runnable mutex' live out := by
  obtain ⟨hnodup, hqnodup, hcur, hrun, hq, hout, hlive⟩ := h
  simp only [← hqueue] at hqnodup hcur hrun hq hout hlive
  exact ⟨hnodup, hqnodup, hcur, hrun, hq, hout, hlive⟩

/-- The first of `runnable` becomes current. -/
theorem Seated.pop {t : τ} (h : Seated none (t :: runnable) mutex live none) :
    Seated (some t) runnable mutex live none := by
  obtain ⟨hnodup, hqnodup, hcur, hrun, hq, hout, hlive⟩ := h
  constructor
  · exact (List.nodup_cons.1 hnodup).2
  · exact hqnodup
  all_goals grind

/-- The current task goes to the end of `runnable`. -/
theorem Seated.yield {t : τ} (h : Seated (some t) runnable mutex live none) :
    Seated none (runnable ++ [t]) mutex live none := by
  obtain ⟨hnodup, hqnodup, hcur, hrun, hq, hout, hlive⟩ := h
  constructor
  · exact List.nodup_append_comm.1 (List.nodup_cons.2 ⟨(hcur t rfl).1, hnodup⟩)
  · exact hqnodup
  all_goals grind

/-- The task that is out goes to the end of `runnable`. -/
theorem Seated.add {t : τ} (h : Seated current runnable mutex live (some t)) :
    Seated current (runnable ++ [t]) mutex live none := by
  obtain ⟨hnodup, hqnodup, hcur, hrun, hq, hout, hlive⟩ := h
  constructor
  · exact List.nodup_append_comm.1 (List.nodup_cons.2 ⟨(hout t rfl).2.1, hnodup⟩)
  · exact hqnodup
  all_goals grind

/-- A task just created is the one without a place. -/
theorem Seated.create [DecidableEq τ] {t : τ} (h : Seated current runnable mutex live none)
    (ht : ¬ live t) : Seated current runnable mutex (Function.update live t true) (some t) := by
  obtain ⟨hnodup, hqnodup, hcur, hrun, hq, hout, hlive⟩ := h
  refine ⟨hnodup, hqnodup, hcur, hrun, hq, ?_, ?_⟩
  · rintro t' ⟨⟩
    grind
  · intro t'
    rw [Function.update_apply]
    grind

/-- The current task that exits leaves nobody current. -/
theorem Seated.exit [DecidableEq τ] {t : τ} (h : Seated (some t) runnable mutex live none) :
    Seated none runnable mutex (Function.update live t false) none := by
  obtain ⟨hnodup, hqnodup, hcur, hrun, hq, hout, hlive⟩ := h
  refine ⟨hnodup, hqnodup, nofun, hrun, hq, nofun, fun t' => ?_⟩
  rw [Function.update_apply]
  grind

section Queues

variable [DecidableEq μ]

/-- The current task goes to the queue of a mutex. -/
theorem Seated.enqueue {t : τ} (h : Seated (some t) runnable mutex live none) (m : μ) :
    Seated none runnable (Function.update mutex m ((mutex m).enqueue t)) live none := by
  have hmem : ∀ t' m', t' ∈ (Function.update mutex m ((mutex m).enqueue t) m').queue ↔
      t' ∈ (mutex m').queue ∨ m' = m ∧ t' = t := by
    intro t' m'
    rcases eq_or_ne m' m with rfl | hne
    · simp [Mutex.enqueue]
    · simp [hne]
  obtain ⟨hnodup, hqnodup, hcur, hrun, hq, hout, hlive⟩ := h
  refine ⟨hnodup, fun m' => ?_, nofun, fun t' ht' m' => ?_, fun t' m₁ m₂ => ?_, nofun,
    fun t' => ?_⟩
  · rcases eq_or_ne m' m with rfl | hne
    · rw [Function.update_self]
      exact List.nodup_append_comm.1 (List.nodup_cons.2 ⟨(hcur t rfl).2 m', hqnodup m'⟩)
    · rw [Function.update_of_ne hne]
      exact hqnodup m'
  · rw [hmem]
    grind
  · rw [hmem, hmem]
    grind
  · simp only [hmem]
    grind

/-- The first of a queue is taken out. -/
theorem Seated.dequeue {t : τ} {m : μ} {lock : Mutex τ}
    (h : Seated current runnable mutex live none) (hqueue : (mutex m).queue = t :: lock.queue) :
    Seated current runnable (Function.update mutex m lock) live (some t) := by
  have hnotin : t ∉ lock.queue := (List.nodup_cons.1 (hqueue ▸ h.queue_nodup m)).1
  have hmem : ∀ t' m', t' ∈ (mutex m').queue ↔
      t' ∈ (Function.update mutex m lock m').queue ∨ m' = m ∧ t' = t := by
    intro t' m'
    rcases eq_or_ne m' m with rfl | hne
    · rw [hqueue, Function.update_self, List.mem_cons]
      grind
    · simp [hne]
  have hout' : ∀ m', t ∉ (Function.update mutex m lock m').queue := by
    intro m'
    rcases eq_or_ne m' m with rfl | hne
    · rwa [Function.update_self]
    · rw [Function.update_of_ne hne]
      exact fun ht => hne (h.of_queue t m' m ht (hqueue ▸ List.mem_cons_self))
  obtain ⟨hnodup, hqnodup, hcur, hrun, hq, hout, hlive⟩ := h
  simp only [hmem] at hcur hrun hq hlive
  refine ⟨hnodup, fun m' => ?_, ?_, ?_, ?_, ?_, ?_⟩
  · rcases eq_or_ne m' m with rfl | hne
    · rw [Function.update_self]
      exact (List.nodup_cons.1 (hqueue ▸ hqnodup m')).2
    · rw [Function.update_of_ne hne]
      exact hqnodup m'
  all_goals grind

end Queues

/-! ### The scheduler -/

variable {s s' : Sched τ μ}

/-- A task that is not in the list is not on the ring. -/
theorem task_notin {t : τ} {l : List τ} (ht : t ∉ l) :
    RunNode.task t ∉ .runnable :: l.map .task := by
  simpa using ht

variable [DecidableEq τ]

/-- What holds of `runnable` and the places where the current task is at `pc`. -/
def PcInv (s : Sched τ μ) (runnable : List τ) : SchedPc τ μ → Prop
  | .run | .lockSlow _ => IsRing s.links .runnable (runnable.map .task) ∧
      Seated s.current runnable s.mutex s.live none
  | .enqueued m => IsRing s.links .runnable (runnable.map .task) ∧
      Seated none runnable s.mutex s.live none ∧
      ∃ t, s.current = some t ∧ t ∈ (s.mutex m).queue
  | .adding t => IsRing s.links .runnable (runnable.map .task) ∧
      Seated s.current runnable s.mutex s.live (some t)
  | .storing t stores => Adding s.links .runnable (runnable.map .task) (.task t) stores ∧
      Seated s.current runnable s.mutex s.live (some t)

/-- **The invariant of the scheduler.** No other task than the current one is moving a task,
and where the current one is says what the list and the places are like. -/
structure SchedInv (s : Sched τ μ) : Prop where
  others : ∀ a ≠ s.current, ¬ (s.pc a).Moving
  here : ∃ runnable, PcInv s runnable (s.pc s.current)

/-- Where nobody is moving, ring and places are all there is to the invariant. -/
theorem SchedInv.of_settled {l : List τ} (hpc : ∀ a, ¬ (s.pc a).Moving)
    (hring : IsRing s.links .runnable (l.map .task))
    (hseat : Seated s.current l s.mutex s.live none) :
    SchedInv s := by
  refine ⟨fun a _ => hpc a, l, ?_⟩
  have hhere := hpc s.current
  generalize s.pc s.current = pc at hhere
  cases pc with
  | run => exact ⟨hring, hseat⟩
  | lockSlow m => exact ⟨hring, hseat⟩
  | enqueued m => exact absurd trivial hhere
  | adding t => exact absurd trivial hhere
  | storing t stores => exact absurd trivial hhere

/-- Outside a window nobody is moving, and ring and places are right. -/
theorem SchedInv.settled (h : SchedInv s) (hout : ¬ InWindow s) :
    (∀ a, ¬ (s.pc a).Moving) ∧ ∃ l : List τ, IsRing s.links .runnable (l.map .task) ∧
      Seated s.current l s.mutex s.live none := by
  obtain ⟨hothers, l, hhere⟩ := h
  refine ⟨fun a => ?_, l, ?_⟩
  · rcases eq_or_ne a s.current with rfl | hne
    · exact hout
    · exact hothers a hne
  · unfold InWindow at hout
    generalize s.pc s.current = pc at hout hhere
    cases pc with
    | run => exact hhere
    | lockSlow m => exact hhere
    | enqueued m => exact absurd trivial hout
    | adding t => exact absurd trivial hout
    | storing t stores => exact absurd trivial hout

/-- `__sched`, once the task that stops running has its new place. -/
theorem sched_inv {forceIdle : BitVec 32} {l : List τ} (h : _sched forceIdle s = some s')
    (hpc : ∀ a, ¬ (s.pc a).Moving) (hring : IsRing s.links .runnable (l.map .task))
    (hseat : Seated none l s.mutex s.live none) : SchedInv s' := by
  unfold _sched at h
  split at h
  · obtain rfl := Option.some.inj h
    exact .of_settled hpc hring hseat
  · rename_i hbusy
    have hnext := hring.next_head
    cases l with
    | nil => exact absurd (Or.inr hnext) hbusy
    | cons t l =>
      rw [hnext] at h
      obtain ⟨links, hdel, hring'⟩ := hring.del_first
      simp only [List.map_cons, List.headD_cons, hdel, Option.map_some] at h
      obtain rfl := Option.some.inj h
      exact .of_settled hpc hring' hseat.pop

/-- `__schedule` for a task that goes on sleeping, or that exits. -/
theorem schedule_inv {newstate : TaskState} {l : List τ} (h : _schedule newstate s = some s')
    (hstate : newstate ≠ .locked) (hpc : ∀ a, ¬ (s.pc a).Moving)
    (hring : IsRing s.links .runnable (l.map .task))
    (hseat : Seated s.current l s.mutex s.live none) : SchedInv s' := by
  unfold _schedule at h
  split at h
  · rename_i hidle
    rw [hidle] at hseat
    exact sched_inv h hpc hring hseat
  · rename_i prev hprev
    rw [hprev] at hseat
    cases newstate with
    | zombie => exact sched_inv h hpc hring hseat.exit
    | locked => exact absurd rfl hstate
    | sleeping =>
      obtain ⟨links, hadd, h⟩ := Option.bind_eq_some_iff.1 h
      obtain ⟨links', hadd', hring'⟩ := hring.addTail (task_notin (hseat.of_current prev rfl).1)
      obtain rfl := Option.some.inj (hadd.symm.trans hadd')
      rw [← List.map_singleton, ← List.map_append] at hring'
      exact sched_inv h hpc hring' hseat.yield

/-- `__schedule` for a task in the queue of a mutex. -/
theorem schedule_locked_inv {l : List τ} (h : _schedule .locked s = some s')
    (hpc : ∀ a, ¬ (s.pc a).Moving) (hring : IsRing s.links .runnable (l.map .task))
    (hseat : Seated none l s.mutex s.live none) : SchedInv s' := by
  unfold _schedule at h
  split at h
  · exact sched_inv h hpc hring hseat
  · exact sched_inv h hpc hring hseat

/-- `__schedule` gives the CPU back to the task that it takes it from, as no other
is in `runnable` and none is being put in. -/
def GoesOn (s : Sched τ μ) : Prop :=
  s.links.next .runnable = some .runnable ∧
    ∀ prev, s.current = some prev →
      s.links.prev .runnable = some .runnable ∧ s.forceIdle prev = 0

/-- A place in the code depends on current task, links, mutexes and live tasks. -/
theorem PcInv.congr {l : List τ} {pc : SchedPc τ μ} (h : PcInv s l pc)
    (hcurrent : s'.current = s.current) (hlinks : s'.links = s.links) (hmutex : s'.mutex = s.mutex)
    (hlive : s'.live = s.live) : PcInv s' l pc := by
  unfold PcInv at h ⊢
  rwa [hcurrent, hlinks, hmutex, hlive]

/-- With an empty `runnable`, the links of a task that is moving one can be
replaced by those of another empty `runnable`. -/
theorem PcInv.replace_empty {l : List τ} {pc : SchedPc τ μ} (h : PcInv s l pc)
    (hmoving : pc.Moving) (hnext : s.links.next .runnable = some .runnable)
    (hprev : s.links.prev .runnable = some .runnable) :
    l = [] ∧ IsRing s.links .runnable [] ∧
      ∀ links, IsRing links .runnable [] → PcInv { s with links } l pc := by
  have hempty : ∀ l : List τ, IsRing s.links .runnable (l.map .task) → l = [] := by
    intro l hring
    have hfirst := hring.next_head
    rw [hnext] at hfirst
    cases l with
    | nil => rfl
    | cons t l => exact nomatch Option.some.inj hfirst
  cases pc with
  | run => exact absurd hmoving id
  | lockSlow m => exact absurd hmoving id
  | enqueued m =>
    obtain rfl := hempty l h.1
    exact ⟨rfl, h.1, fun links hring => ⟨hring, h.2⟩⟩
  | adding t =>
    obtain rfl := hempty l h.1
    exact ⟨rfl, h.1, fun links hring => ⟨hring, h.2⟩⟩
  | storing t stores =>
    obtain ⟨hadding, hseat⟩ := h
    rcases hadding.cases (task_notin (hseat.of_out t rfl).2.1) with ⟨hring, p, hp, rfl⟩ | ⟨hp, _⟩
    · obtain rfl := hempty l hring
      obtain rfl := Option.some.inj (hp.symm.trans hprev)
      exact ⟨rfl, hring, fun links hring => ⟨hring.adding hring.prev_head, hseat⟩⟩
    · exact nomatch Option.some.inj (hp.symm.trans hprev)

/-- A task that goes on at once is still moving what it moved. -/
theorem SchedInv.goesOn (h : SchedInv s) (hmoving : InWindow s) (hgoes : GoesOn s)
    (hstep : _schedule .sleeping s = some s') : SchedInv s' := by
  obtain ⟨hothers, l, hhere⟩ := h
  obtain ⟨hnext, hprev⟩ := hgoes
  unfold _schedule at hstep
  split at hstep
  · rename_i hidle
    unfold _sched at hstep
    rw [if_pos (Or.inr hnext)] at hstep
    obtain rfl := Option.some.inj hstep
    rw [hidle] at hothers hhere
    exact ⟨hothers, l, hhere.congr hidle.symm rfl rfl rfl⟩
  · rename_i prev hcurrent
    obtain ⟨hback, hforce⟩ := hprev prev hcurrent
    obtain ⟨rfl, hring, hreplace⟩ := hhere.replace_empty hmoving hnext hback
    obtain ⟨links, hadd, hstep⟩ := Option.bind_eq_some_iff.1 hstep
    obtain ⟨links', hadd', hring'⟩ :=
      hring.addTail (task_notin (t := prev) (l := []) List.not_mem_nil)
    obtain rfl := Option.some.inj (hadd.symm.trans hadd')
    obtain ⟨links₂, hdel, hring₂⟩ := hring'.del_first
    have hfirst : links.next .runnable = some (.task prev) := hring'.next_head
    unfold _sched at hstep
    simp only [hforce, hfirst, hdel, Option.map_some] at hstep
    rw [if_neg (by simp)] at hstep
    obtain rfl := Option.some.inj hstep
    rw [hcurrent] at hothers hhere hreplace
    exact ⟨hothers, [], (hreplace links₂ hring₂).congr rfl rfl rfl rfl⟩

/-! ### Steps -/

/-- The current task is at `pc` and the others are moving no task. -/
theorem SchedInv.of_pc {l : List τ} {pc : SchedPc τ μ}
    (hothers : ∀ a ≠ s.current, ¬ (s.pc a).Moving) (hhere : PcInv (s.setPc pc) l pc) :
    SchedInv (s.setPc pc) := by
  refine ⟨fun a (ha : a ≠ s.current) => ?_, l, ?_⟩
  · rw [Sched.setPc_other ha]
    exact hothers a ha
  · rwa [Sched.setPc_here]

variable [DecidableEq μ]

/-- A call keeps the invariant. -/
theorem SchedInv.call {e : SchedEvent τ μ} (h : SchedInv s) (hrun : s.pc s.current = .run)
    (hstep : s.call e = some s') : SchedInv s' := by
  have hout : ¬ InWindow s := by
    rw [InWindow, hrun]
    exact id
  obtain ⟨hpc, l, hring, hseat⟩ := h.settled hout
  unfold Sched.call at hstep
  cases e with
  | timer => cases hstep
  | go => cases hstep
  | schedule => exact schedule_inv hstep (by decide) hpc hring hseat
  | exit =>
    obtain ⟨_, _, hstep⟩ := Option.bind_eq_some_iff.1 hstep
    exact schedule_inv hstep (by decide) hpc hring hseat
  | lock m =>
    obtain ⟨_, _, rfl⟩ := Option.map_eq_some_iff.1 hstep
    unfold _mutexLock
    split
    · rename_i lock htake
      exact .of_settled hpc hring (hseat.congr (queue_update (Mutex.take_queue htake)))
    · exact .of_pc (fun a _ => hpc a) ⟨hring, hseat⟩
  | unlock m =>
    obtain ⟨_, _, rfl⟩ := Option.map_eq_some_iff.1 hstep
    unfold _mutexUnlock
    split
    · rename_i lock hrelease
      exact .of_settled hpc hring (hseat.congr (queue_update (Mutex.release_none_queue hrelease)))
    · rename_i t lock hrelease
      exact .of_pc (fun a _ => hpc a) ⟨hring, hseat.dequeue (Mutex.release_some hrelease).1⟩
  | createTask t =>
    dsimp only at hstep
    unfold createTask at hstep
    split at hstep
    · cases hstep
    · rename_i hlive
      obtain rfl := Option.some.inj hstep
      refine .of_pc (fun a _ => ?_) ⟨hring, hseat.create hlive⟩
      dsimp only
      rw [Function.update_apply]
      split
      · exact id
      · exact hpc a

/-- A step within a call keeps it. -/
theorem SchedInv.go (h : SchedInv s) (hstep : s.go = some s') : SchedInv s' := by
  obtain ⟨hothers, l, hhere⟩ := h
  unfold Sched.go at hstep
  split at hstep
  · cases hstep
  · rename_i m hpc
    rw [hpc] at hhere
    obtain ⟨hring, hseat⟩ := hhere
    obtain ⟨t, ht, rfl⟩ := Option.map_eq_some_iff.1 hstep
    unfold _mutexLockSlow
    split
    · rename_i lock htake
      exact .of_pc hothers ⟨hring, hseat.congr (queue_update (Mutex.take_queue htake))⟩
    · rw [ht] at hseat
      refine .of_pc hothers ⟨hring, hseat.enqueue m, t, ht, ?_⟩
      simp [Sched.setPc, Sched.setMutex, Mutex.enqueue]
  · rename_i m hpc
    rw [hpc] at hhere
    obtain ⟨hring, hseat, _⟩ := hhere
    refine schedule_locked_inv hstep (fun a => ?_) hring hseat
    rcases eq_or_ne a s.current with rfl | hne
    · exact (Sched.setPc_here .run s).symm ▸ id
    · rw [Sched.setPc_other hne]
      exact hothers a hne
  · rename_i t hpc
    rw [hpc] at hhere
    obtain ⟨hring, hseat⟩ := hhere
    obtain ⟨p, hp, rfl⟩ := Option.map_eq_some_iff.1 hstep
    exact .of_pc hothers ⟨hring.adding hp, hseat⟩
  · cases hstep
  · rename_i t store hpc
    rw [hpc] at hhere
    obtain ⟨hadding, hseat⟩ := hhere
    obtain rfl := Option.some.inj hstep
    have hring := hadding.put_last (task_notin (hseat.of_out t rfl).2.1)
    rw [← List.map_singleton, ← List.map_append] at hring
    exact .of_pc hothers ⟨hring, hseat.add⟩
  · rename_i t store stores hleft hpc
    rw [hpc] at hhere
    obtain ⟨hadding, hseat⟩ := hhere
    obtain rfl := Option.some.inj hstep
    exact .of_pc hothers ⟨hadding.put hleft, hseat⟩

/-- The condition: no timer interruption takes the CPU from a task that is moving
a task. -/
def SchedOk (s : Sched τ μ) : SchedEvent τ μ → Prop
  | .timer => (s.ticks + 1) % schedTicksPerSlice = 0 → InWindow s →
      GoesOn { s with ticks := s.ticks + 1 }
  | _ => True

/-- **One event keeps it**, as long as no task is preempted in a window. -/
theorem SchedInv.step {e : SchedEvent τ μ} (h : SchedInv s)
    (hstep : guarded SchedOk SchedStep s e s') : SchedInv s' := by
  obtain ⟨hok, hstep⟩ := hstep
  unfold SchedStep Sched.step at hstep
  split at hstep
  · unfold _extIntHandler at hstep
    have htick : SchedInv { s with ticks := s.ticks + 1 } := ⟨h.others, h.here⟩
    dsimp only at hstep
    split at hstep
    · rename_i hticks
      by_cases hmoving : InWindow s
      · exact htick.goesOn hmoving (hok hticks hmoving) hstep
      · obtain ⟨hpc, l, hring, hseat⟩ := htick.settled hmoving
        exact schedule_inv hstep (by decide) hpc hring hseat
    · obtain rfl := Option.some.inj hstep
      exact htick
  · exact h.go hstep
  · split at hstep
    · rename_i hrun
      exact h.call hrun hstep
    · cases hstep

end Hvf
