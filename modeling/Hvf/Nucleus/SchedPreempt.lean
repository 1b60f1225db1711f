/-
# Preemption of a task that is moving a task

A timer interruption that takes the CPU from a task while it is moving a task
always leaves a live task in two places, or in none (`SchedInv.preempted`).  So the
placement of all tasks is kept in a run exactly when there is no such interruption
in it.

`sched_double` is a run in which a task is put in `runnable` twice: it is preempted
between its enqueueing on a mutex and `schedule_blocked`, and the owner then unlocks.
-/

import Hvf.Nucleus.SchedPlacement

namespace Hvf

open Ring StepRun

variable {τ μ : Type*} {s s' : Sched τ μ} {l : List τ}

/-- The task is in none of the functions of the scheduler. -/
def SchedPc.isRun : SchedPc τ μ → Bool
  | run => true
  | _ => false

/-- The check that a task runs is exact. -/
theorem SchedPc.eq_run_of_isRun {pc : SchedPc τ μ} (h : pc.isRun = true) : pc = .run := by
  cases pc with
  | run => rfl
  | lockSlow m => cases h
  | enqueued m => cases h
  | adding t => cases h
  | storing t stores => cases h

/-- The ring's head is no task. -/
theorem runnable_notin (l : List τ) : RunNode.runnable ∉ l.map .task := by
  simp

/-- `Placement` is about the one list that can be read in `runnable`. -/
theorem Placement.of_forward (h : Placement s)
    (hforward : Forward s.links .runnable (l.map .task) .runnable) {t : τ} (ht : s.live t) :
    ∃! place, At s.current l s.mutex t place := by
  obtain ⟨l', hring, _, hplace⟩ := h
  have hmap := hforward.eq_of_isRing (runnable_notin l) hring
  rw [List.map_injective_iff.2 (fun _ _ => RunNode.task.inj) hmap] at hplace
  exact hplace t ht

/-- A live task that is in no place breaks the placement. -/
theorem not_placement_of_missing (hforward : Forward s.links .runnable (l.map .task) .runnable)
    {t : τ} (ht : s.live t) (hcurrent : s.current ≠ some t) (hl : t ∉ l)
    (hqueue : ∀ m, t ∉ (s.mutex m).queue) : ¬ Placement s := by
  intro h
  obtain ⟨place, hplace, _⟩ := h.of_forward hforward ht
  cases place with
  | current => exact hcurrent hplace
  | runnable => exact hl hplace
  | queue m => exact hqueue m hplace

/-- A live task that is in two places breaks it. -/
theorem not_placement_of_twice (hforward : Forward s.links .runnable (l.map .task) .runnable)
    {t : τ} {m : μ} (ht : s.live t) (hl : t ∈ l) (hqueue : t ∈ (s.mutex m).queue) :
    ¬ Placement s := by
  intro h
  have hrunnable : At s.current l s.mutex t .runnable := hl
  have hqueued : At s.current l s.mutex t (.queue m) := hqueue
  cases (h.of_forward hforward ht).unique hrunnable hqueued

/-- **What a preemption leaves unchanged**: where the tasks are in their code, the mutexes,
and which tasks are live. -/
structure SameTasks (s s' : Sched τ μ) : Prop where
  pc : s'.pc = s.pc
  mutex : s'.mutex = s.mutex
  live : s'.live = s.live

/-- The first task of the ring has the head before it. -/
theorem ring_first (hring : IsRing s.links .runnable (l.map .task)) (t : τ) (l' : List τ)
    (hl : l = t :: l') : s.links.prev (.task t) = some .runnable := by
  subst hl
  exact hring.path.2.1

variable [DecidableEq τ]

/-- What `__sched` does when the entries `l` can be read in `runnable`. -/
theorem sched_forward {forceIdle : BitVec 32} (h : _sched forceIdle s = some s')
    (hforward : Forward s.links .runnable (l.map .task) .runnable) (hnodup : l.Nodup)
    (hfirst : ∀ t l', l = t :: l' → s.links.prev (.task t) = some .runnable) :
    SameTasks s s' ∧
      ((forceIdle ≠ 0 ∨ l = []) ∧ s'.current = none ∧
          Forward s'.links .runnable (l.map .task) .runnable ∨
        ∃ t l', l = t :: l' ∧ forceIdle = 0 ∧ s'.current = some t ∧
          Forward s'.links .runnable (l'.map .task) .runnable) := by
  unfold _sched at h
  split at h
  · rename_i hidle
    obtain rfl := Option.some.inj h
    refine ⟨⟨rfl, rfl, rfl⟩, Or.inl ⟨hidle.imp_right fun hnext => ?_, rfl, hforward⟩⟩
    cases l with
    | nil => rfl
    | cons t l => exact nomatch Option.some.inj (hnext.symm.trans hforward.1)
  · rename_i hbusy
    cases l with
    | nil => exact absurd (Or.inr hforward) hbusy
    | cons t l =>
      have hforce : forceIdle = 0 := not_not.1 fun hne => hbusy (Or.inl hne)
      have hnext : s.links.next .runnable = some (.task t) := hforward.1
      rw [hnext] at h
      obtain ⟨links, hdel, rfl⟩ := Option.map_eq_some_iff.1 h
      have hnodup' : (RunNode.runnable :: .task t :: l.map .task).Nodup :=
        List.nodup_cons.2 ⟨runnable_notin (t :: l),
          hnodup.map fun _ _ => RunNode.task.inj⟩
      exact ⟨⟨rfl, rfl, rfl⟩, Or.inr ⟨t, l, rfl, hforce, rfl,
        Forward.del_first hforward (hfirst t l rfl) hnodup' hdel⟩⟩

/-- A preemption while no store into `runnable` is under way. -/
theorem schedule_ring (h : _schedule .sleeping s = some s')
    (hring : IsRing s.links .runnable (l.map .task)) (hcurrent : ∀ t, s.current = some t → t ∉ l)
    (hnodup : l.Nodup) (hnot : ¬ GoesOn s) :
    s'.current ≠ s.current ∧ SameTasks s s' ∧ ∃ l' : List τ,
      Forward s'.links .runnable (l'.map .task) .runnable ∧
      (∀ t, s'.current = some t ∨ t ∈ l' ↔ s.current = some t ∨ t ∈ l) ∧
      ∀ prev, s.current = some prev → prev ∈ l' := by
  unfold _schedule at h
  split at h
  · rename_i hidle
    obtain ⟨hsame, ⟨hempty, _⟩ | ⟨t, l', rfl, _, hcur, hforward⟩⟩ :=
      sched_forward h hring.path.forward hnodup (ring_first hring)
    · obtain rfl := hempty.resolve_left fun hne => hne rfl
      exact absurd ⟨hring.next_head, fun prev hprev => nomatch hidle.symm.trans hprev⟩ hnot
    · refine ⟨?_, hsame, l', hforward, fun t' => ?_,
        fun prev hprev => nomatch hidle.symm.trans hprev⟩
      · rw [hcur, hidle]
        exact Option.some_ne_none t
      · rw [hcur, hidle, List.mem_cons]
        grind
  · rename_i prev hprev
    have hnotin := hcurrent prev hprev
    obtain ⟨links, hadd, h⟩ := Option.bind_eq_some_iff.1 h
    obtain ⟨links', hadd', hring'⟩ := hring.addTail (task_notin hnotin)
    obtain rfl := Option.some.inj (hadd.symm.trans hadd')
    rw [← List.map_singleton, ← List.map_append] at hring'
    have hnodup' : (l ++ [prev]).Nodup :=
      List.nodup_append_comm.1 (List.nodup_cons.2 ⟨hnotin, hnodup⟩)
    obtain ⟨hsame, ⟨_, hcur, hforward⟩ | ⟨t, l', hl, hforce, hcur, hforward⟩⟩ :=
      sched_forward h hring'.path.forward hnodup'
        (ring_first (s := { s with links }) hring')
    · refine ⟨?_, ⟨hsame.pc, hsame.mutex, hsame.live⟩, l ++ [prev], hforward, fun t => ?_, ?_⟩
      · rw [hcur, hprev]
        exact (Option.some_ne_none prev).symm
      · rw [hcur, hprev, List.mem_append, List.mem_singleton]
        grind
      · intro t ht
        obtain rfl := Option.some.inj (hprev.symm.trans ht)
        exact List.mem_append_right l (List.mem_singleton_self prev)
    · cases l with
      | nil =>
        -- the task itself is the only one in `runnable`
        refine absurd ⟨hring.next_head, ?_⟩ hnot
        rintro _ hprev'
        obtain rfl := Option.some.inj (hprev.symm.trans hprev')
        exact ⟨hring.prev_head, hforce⟩
      | cons t₁ l =>
        obtain ⟨rfl, rfl⟩ := List.cons.inj hl
        have hne : t₁ ≠ prev := fun heq => hnotin (heq ▸ List.mem_cons_self)
        refine ⟨?_, ⟨hsame.pc, hsame.mutex, hsame.live⟩, _, hforward, fun t => ?_, ?_⟩
        · rw [hcur, hprev]
          exact fun heq => hne (Option.some.inj heq)
        · rw [hcur, hprev]
          simp only [List.append_eq, List.mem_append, List.mem_cons]
          grind
        · intro t ht
          obtain rfl := Option.some.inj (hprev.symm.trans ht)
          exact List.mem_append_right l (List.mem_singleton_self prev)

/-- A preemption while the task `u` is being put in `runnable`, with a store done. -/
theorem schedule_unfinished (h : _schedule .sleeping s = some s') {u : τ}
    (hforward : Forward s.links .runnable (l.map .task) .runnable)
    (hcurrent : ∀ t, s.current = some t → t ∉ l) (hnodup : l.Nodup) (hu : u ∉ l)
    (hback : s.links.prev .runnable = some (.task u))
    (hfirst : ∀ t l', l = t :: l' → s.links.prev (.task t) = some .runnable)
    (hnot : ¬ GoesOn s) :
    s'.current ≠ s.current ∧ SameTasks s s' ∧ ∃ l' : List τ,
      Forward s'.links .runnable (l'.map .task) .runnable ∧
      ∀ t, s'.current = some t ∨ t ∈ l' → t ∈ l := by
  unfold _schedule at h
  split at h
  · rename_i hidle
    obtain ⟨hsame, ⟨hempty, _⟩ | ⟨t, l', rfl, _, hcur, hforward'⟩⟩ :=
      sched_forward h hforward hnodup hfirst
    · obtain rfl := hempty.resolve_left fun hne => hne rfl
      exact absurd ⟨hforward, fun prev hprev => nomatch hidle.symm.trans hprev⟩ hnot
    · refine ⟨?_, hsame, l', hforward', fun t' => ?_⟩
      · rw [hcur, hidle]
        exact Option.some_ne_none t
      · rw [hcur, List.mem_cons]
        grind
  · rename_i prev hprev
    have hnotin := hcurrent prev hprev
    obtain ⟨links, hadd, h⟩ := Option.bind_eq_some_iff.1 h
    obtain ⟨hforward', hprevs⟩ :=
      hforward.addTail hback (task_notin hu) (task_notin hnotin) hadd
    have hfirst' : ∀ t l', l = t :: l' → links.prev (.task t) = some .runnable := by
      intro t l' hl
      have hmem : RunNode.task t ∈ l.map .task := by
        rw [hl]
        exact List.mem_cons_self
      rw [hprevs (.task t) hmem (by simp), hfirst t l' hl]
    obtain ⟨hsame, ⟨_, hcur, hforward₂⟩ | ⟨t, l', rfl, _, hcur, hforward₂⟩⟩ :=
      sched_forward h hforward' hnodup hfirst'
    · refine ⟨?_, ⟨hsame.pc, hsame.mutex, hsame.live⟩, l, hforward₂, fun t => ?_⟩
      · rw [hcur, hprev]
        exact (Option.some_ne_none prev).symm
      · rw [hcur]
        grind
    · have hne : t ≠ prev := fun heq => hnotin (heq ▸ List.mem_cons_self)
      refine ⟨?_, ⟨hsame.pc, hsame.mutex, hsame.live⟩, l', hforward₂, fun t' => ?_⟩
      · rw [hcur, hprev]
        exact fun heq => hne (Option.some.inj heq)
      · rw [hcur, List.mem_cons]
        grind

/-- **Preemption of a task that is moving a task** leaves one in two places, or in none. -/
theorem SchedInv.preempted (h : SchedInv s) (hmoving : InWindow s) (hnot : ¬ GoesOn s)
    (hstep : _schedule .sleeping s = some s') : ¬ InWindow s' ∧ ¬ Placement s' := by
  obtain ⟨hothers, l, hhere⟩ := h
  have hwindow : s'.current ≠ s.current → SameTasks s s' → ¬ InWindow s' := by
    intro hne hsame
    rw [InWindow, hsame.pc]
    exact hothers _ hne
  unfold InWindow at hmoving
  generalize s.pc s.current = pc at hmoving hhere
  cases pc with
  | run => exact absurd hmoving id
  | lockSlow m => exact absurd hmoving id
  | enqueued m =>
    obtain ⟨hring, hseat, prev, hprev, hqueue⟩ := hhere
    have hnotin : ∀ t, s.current = some t → t ∉ l := by
      intro t ht hl
      obtain rfl := Option.some.inj (hprev.symm.trans ht)
      exact hseat.of_runnable prev hl m hqueue
    obtain ⟨hne, hsame, l', hforward, _, hadded⟩ :=
      schedule_ring hstep hring hnotin hseat.nodup hnot
    have hlive : s.live prev := (hseat.live_iff prev).2 (Or.inr (Or.inr (Or.inl ⟨m, hqueue⟩)))
    exact ⟨hwindow hne hsame, not_placement_of_twice hforward (hsame.live ▸ hlive)
      (hadded prev hprev) (hsame.mutex ▸ hqueue)⟩
  | adding u =>
    obtain ⟨hring, hseat⟩ := hhere
    obtain ⟨hcur, hl, hqueue⟩ := hseat.of_out u rfl
    have hlive : s.live u := (hseat.live_iff u).2 (Or.inr (Or.inr (Or.inr rfl)))
    obtain ⟨hne, hsame, l', hforward, hunion, _⟩ := schedule_ring hstep hring
      (fun t ht => (hseat.of_current t ht).1) hseat.nodup hnot
    have hmissing := fun hplace => (not_or.2 ⟨hcur, hl⟩) ((hunion u).1 hplace)
    exact ⟨hwindow hne hsame, not_placement_of_missing hforward (hsame.live ▸ hlive)
      (not_or.1 hmissing).1 (not_or.1 hmissing).2 (hsame.mutex ▸ hqueue)⟩
  | storing u stores =>
    obtain ⟨hadding, hseat⟩ := hhere
    obtain ⟨hcur, hl, hqueue⟩ := hseat.of_out u rfl
    have hlive : s.live u := (hseat.live_iff u).2 (Or.inr (Or.inr (Or.inr rfl)))
    rcases hadding.cases (task_notin hl) with ⟨hring, _⟩ | ⟨hback, hfirst⟩
    · obtain ⟨hne, hsame, l', hforward, hunion, _⟩ := schedule_ring hstep hring
        (fun t ht => (hseat.of_current t ht).1) hseat.nodup hnot
      have hmissing := fun hplace => (not_or.2 ⟨hcur, hl⟩) ((hunion u).1 hplace)
      exact ⟨hwindow hne hsame, not_placement_of_missing hforward (hsame.live ▸ hlive)
        (not_or.1 hmissing).1 (not_or.1 hmissing).2 (hsame.mutex ▸ hqueue)⟩
    · have hfirst' : ∀ t l', l = t :: l' → s.links.prev (.task t) = some .runnable := by
        rintro t l' rfl
        exact hfirst _ _ rfl
      obtain ⟨hne, hsame, l', hforward, hsub⟩ := schedule_unfinished hstep
        (hadding.forward (task_notin hl)) (fun t ht => (hseat.of_current t ht).1) hseat.nodup hl
        hback hfirst' hnot
      have hmissing := fun hplace => hl (hsub u hplace)
      exact ⟨hwindow hne hsame, not_placement_of_missing hforward (hsame.live ▸ hlive)
        (not_or.1 hmissing).1 (not_or.1 hmissing).2 (hsame.mutex ▸ hqueue)⟩

/-! ### Whole runs -/

/-- The task goes to `runnable` next: `make_runnable` or `create_task` puts it there,
or `__schedule` takes the CPU from it. -/
def Adds (s : Sched τ μ) (t : τ) : Prop :=
  s.pc s.current = .adding t ∨ s.current = some t ∧ ¬ InWindow s

/-- What is asked of a state: the tasks are placed, but for the time in which the
current task is moving one, and none goes to `runnable` that is in it. -/
structure Placed (s : Sched τ μ) : Prop where
  placement : Placement s ↔ ¬ InWindow s
  fresh : ∀ t, Adds s t → ∃ l : List τ, IsRing s.links .runnable (l.map .task) ∧ t ∉ l

omit [DecidableEq τ] in
/-- Before the first task the ring is empty. -/
theorem schedInit_ring : IsRing (schedInit : Sched τ μ).links .runnable [] :=
  ⟨⟨rfl, rfl⟩, List.nodup_singleton _⟩

/-- Before the first task the invariant holds. -/
theorem schedInit_inv : SchedInv (schedInit : Sched τ μ) := by
  refine .of_settled (l := []) (fun a => id) schedInit_ring ?_
  refine ⟨List.nodup_nil, fun m => List.nodup_nil, nofun, nofun, nofun, nofun, fun t => ?_⟩
  simp [schedInit, mutexInit]

/-- While a task is being moved it is in two places, or in none. -/
theorem SchedInv.not_placement (h : SchedInv s) (hmoving : InWindow s) : ¬ Placement s := by
  obtain ⟨-, l, hhere⟩ := h
  unfold InWindow at hmoving
  generalize s.pc s.current = pc at hmoving hhere
  cases pc with
  | run => exact absurd hmoving id
  | lockSlow m => exact absurd hmoving id
  | enqueued m =>
    obtain ⟨hring, hseat, t, ht, hqueue⟩ := hhere
    intro hplacement
    have hlive : s.live t := (hseat.live_iff t).2 (Or.inr (Or.inr (Or.inl ⟨m, hqueue⟩)))
    have hcurrent : At s.current l s.mutex t .current := ht
    have hqueued : At s.current l s.mutex t (.queue m) := hqueue
    cases (hplacement.of_forward hring.path.forward hlive).unique hcurrent hqueued
  | adding u =>
    obtain ⟨hring, hseat⟩ := hhere
    obtain ⟨hcur, hl, hqueue⟩ := hseat.of_out u rfl
    exact not_placement_of_missing hring.path.forward
      ((hseat.live_iff u).2 (Or.inr (Or.inr (Or.inr rfl)))) hcur hl hqueue
  | storing u stores =>
    obtain ⟨hadding, hseat⟩ := hhere
    obtain ⟨hcur, hl, hqueue⟩ := hseat.of_out u rfl
    exact not_placement_of_missing (hadding.forward (task_notin hl))
      ((hseat.live_iff u).2 (Or.inr (Or.inr (Or.inr rfl)))) hcur hl hqueue

/-- The invariant places every task. -/
theorem SchedInv.placed (h : SchedInv s) : Placed s := by
  refine ⟨⟨fun hplacement hmoving => h.not_placement hmoving hplacement, fun hout => ?_⟩,
    fun t ht => ?_⟩
  · obtain ⟨-, l, hring, hseat⟩ := h.settled hout
    exact ⟨l, hring, hseat.queue_nodup, fun t => hseat.place⟩
  · rcases ht with hadding | ⟨hcurrent, hout⟩
    · obtain ⟨-, l, hhere⟩ := h
      rw [hadding] at hhere
      exact ⟨l, hhere.1, (hhere.2.of_out t rfl).2.1⟩
    · obtain ⟨-, l, hring, hseat⟩ := h.settled hout
      exact ⟨l, hring, (hseat.of_current t hcurrent).1⟩

variable [DecidableEq μ]

/-- An event has one outcome. -/
theorem schedStep_deterministic (s : Sched τ μ) (e : SchedEvent τ μ) (s₁ s₂ : Sched τ μ)
    (h₁ : SchedStep s e s₁) (h₂ : SchedStep s e s₂) : s₁ = s₂ :=
  Option.some.inj (h₁.symm.trans h₂)

/-- A step that does not meet the condition misplaces a task. -/
theorem SchedInv.misplaced {e : SchedEvent τ μ} (h : SchedInv s) (hstep : SchedStep s e s')
    (hno : ¬ SchedOk s e) : ¬ Placed s' := by
  cases e with
  | timer =>
    obtain ⟨hticks, hno⟩ := Classical.not_imp.1 hno
    obtain ⟨hmoving, hnot⟩ := Classical.not_imp.1 hno
    have htick : SchedInv { s with ticks := s.ticks + 1 } := ⟨h.others, h.here⟩
    have hpreempt : _schedule .sleeping { s with ticks := s.ticks + 1 } = some s' := by
      unfold SchedStep Sched.step _extIntHandler at hstep
      dsimp only at hstep
      rwa [if_pos hticks] at hstep
    obtain ⟨hout, hmisplaced⟩ := htick.preempted hmoving hnot hpreempt
    exact fun hplaced => hmisplaced (hplaced.placement.2 hout)
  | lock m => exact absurd trivial hno
  | unlock m => exact absurd trivial hno
  | createTask t => exact absurd trivial hno
  | schedule => exact absurd trivial hno
  | exit => exact absurd trivial hno
  | go => exact absurd trivial hno

/-- **When every task is in one place.**  In every run of the nucleus, the tasks
are placed at every moment exactly when no timer interruption takes the CPU from
a task that is moving a task. -/
theorem sched_placed_iff {ls : List (SchedEvent τ μ)} (hrun : Run SchedStep schedInit ls s) :
    (∀ ls' t, ls' <+: ls → Run SchedStep schedInit ls' t → Placed t) ↔
      Run (guarded SchedOk SchedStep) schedInit ls s := by
  refine Run.always_iff (P := fun _ t => Placed t) schedStep_deterministic schedInit_inv.placed
    (fun ls t e u hguarded _ hstep => ?_) hrun
  have hinv : SchedInv t :=
    hguarded.invariant schedInit_inv fun _ _ _ hinv hstep => hinv.step hstep
  constructor
  · intro hplaced
    by_contra hno
    exact hinv.misplaced hstep hno hplaced
  · exact fun hok => (hinv.step ⟨hok, hstep⟩).placed

/-- No timer interruption ends the slice of a task that is in a function of the
scheduler; inside of its slice it may be interrupted anywhere. -/
def keepsSlice (s : Sched τ μ) : SchedEvent τ μ → Bool
  | .timer => (s.ticks + 1) % schedTicksPerSlice ≠ 0 || (s.pc s.current).isRun
  | _ => true

omit [DecidableEq τ] [DecidableEq μ] in
/-- The check of the example is enough for the condition. -/
theorem schedOk_of_keepsSlice (s : Sched τ μ) (e : SchedEvent τ μ) (h : keepsSlice s e = true) :
    SchedOk s e := by
  cases e with
  | timer =>
    intro hticks hmoving
    rcases Bool.or_eq_true_iff.1 h with hslice | hrun
    · exact absurd hticks (of_decide_eq_true hslice)
    · rw [InWindow, SchedPc.eq_run_of_isRun hrun] at hmoving
      exact hmoving.elim
  | lock m => trivial
  | unlock m => trivial
  | createTask t => trivial
  | schedule => trivial
  | exit => trivial
  | go => trivial

/-- Task 0 takes the mutex, creates task 1 and is preempted; task 1 waits for the mutex,
is handed it by `__mutex_unlock`, releases it and exits.  The timer comes in functions of
the scheduler too. -/
def handOffEvents : List (SchedEvent ℕ Unit) :=
  [.createTask 0, .go, .go, .go, .go, .go, .timer, .timer, .timer, .lock (),
    .createTask 1, .timer, .go, .go, .go, .go, .go, .timer, .timer, .lock (), .timer, .go, .go,
    .timer, .timer, .unlock (), .go, .timer, .go, .go, .go, .go, .timer, .timer, .unlock (), .exit]

/-- Two tasks, a timer interruption, a lock that is waited for and its hand-off: all tasks
are placed all along the run. -/
theorem sched_placed_handOff : ∃ s : Sched ℕ Unit, Run SchedStep schedInit handOffEvents s ∧
    s.live 0 ∧ ¬ s.live 1 ∧
    ∀ ls' t, ls' <+: handOffEvents → Run SchedStep schedInit ls' t → Placed t := by
  have hsome : (handOffEvents.foldlM (fun s e => if keepsSlice s e then s.step e else none)
      (schedInit : Sched ℕ Unit)).map (fun s => (s.live 0, s.live 1)) = some (true, false) := by
    decide +kernel
  obtain ⟨s, hs, hend⟩ := Option.map_eq_some_iff.1 hsome
  obtain ⟨hlive, hdead⟩ := Prod.mk.inj hend
  have hrun : Run (guarded SchedOk SchedStep) schedInit handOffEvents s :=
    Run.of_checked schedOk_of_keepsSlice hs
  exact ⟨s, hrun.of_guarded, hlive, Bool.eq_false_iff.1 hdead,
    (sched_placed_iff hrun.of_guarded).2 hrun⟩

/-- Task 1 is preempted between its enqueueing on a mutex and `schedule_blocked`, and
task 0 unlocks. -/
def doubleEvents : List (SchedEvent ℕ Unit) :=
  [.createTask 0, .go, .go, .go, .go, .go, .timer, .timer, .timer,
    .createTask 1, .go, .go, .go, .go, .go, .lock (), .timer, .timer, .timer,
    .lock (), .go, .timer, .timer, .timer, .unlock (), .go, .go, .go, .go, .go]

/-- Task 1 is put in `runnable` twice, and its `next` leads back to itself: it is made
runnable by the timer and by `mutex_unlock`. -/
theorem sched_double : ∃ s, Run SchedStep schedInit doubleEvents s ∧
    s.links.next (.task 1) = some (.task 1) ∧ ¬ InWindow s ∧ ¬ Placement s := by
  have hsome : (doubleEvents.foldlM Sched.step (schedInit : Sched ℕ Unit)).map
      (fun s => (s.links.next .runnable, s.links.next (.task 1), (s.pc s.current).isRun)) =
      some (some (.task 1), some (.task 1), true) := by decide +kernel
  obtain ⟨s, hs, hend⟩ := Option.map_eq_some_iff.1 hsome
  obtain ⟨hfirst, hend⟩ := Prod.mk.inj hend
  obtain ⟨hself, hpc⟩ := Prod.mk.inj hend
  refine ⟨s, Run.of_foldlM hs, hself, fun hmoving => ?_, ?_⟩
  · rw [InWindow, SchedPc.eq_run_of_isRun hpc] at hmoving
    exact hmoving
  · rintro ⟨runnable, hring, -, -⟩
    obtain ⟨hpath, hnodup⟩ := hring
    cases runnable with
    | nil => cases Option.some.inj (hfirst.symm.trans hpath.1)
    | cons t runnable =>
      obtain ⟨htask, -, hpath⟩ := hpath
      obtain rfl := RunNode.task.inj (Option.some.inj (hfirst.symm.trans htask))
      cases runnable with
      | nil => cases Option.some.inj (hself.symm.trans hpath.1)
      | cons u runnable =>
        obtain rfl := RunNode.task.inj (Option.some.inj (hself.symm.trans hpath.1))
        simp at hnodup

end Hvf
