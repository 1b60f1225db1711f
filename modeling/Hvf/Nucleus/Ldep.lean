/-
# The lock dependency tracker

`cp/nucleus/ldep.c`.  Each task has a stack of the locks it holds; `ldep_lock`
appends to it and `ldep_unlock` takes an entry out, wherever it is:

| offset in an entry | field |
| --- | --- |
| 0 | `ra` |
| 8 | `lock` |
| 16 | `lockname` |
| 24 | `lclass` |

The stack is kept as bytes, since `ldep_unlock` moves bytes.  A call runs under
`__lock` with interrupts off, so it is one step.  The reports it prints are
recorded.
-/

import Hvf.Lib.Bytes
import Hvf.Lib.StepRun

namespace Hvf

open Bytes StepRun

/-- `LDEP_STACK_SIZE`. -/
def ldepStackSize : ℕ := 10

/-- **An entry of a task's table of locks** (`struct held_lock`); the fields are addresses.
-/
structure HeldLock where
  ra : UInt64
  lock : UInt64
  lockname : UInt64
  lclass : UInt64
deriving DecidableEq

/-- `sizeof(struct held_lock)`. -/
def heldLockSize : ℕ := 32

/-- **What `ldep.c` uses of a `struct task`**: how many locks are tracked, and the bytes of
the table. -/
structure LdepTask where
  nrLocks : ℕ
  lockStack : Mem

/-- Entry `i` of `lock_stack`. -/
def LdepTask.heldLock (t : LdepTask) (i : ℕ) : HeldLock where
  ra := get64 t.lockStack (heldLockSize * i)
  lock := get64 t.lockStack (heldLockSize * i + 8)
  lockname := get64 t.lockStack (heldLockSize * i + 16)
  lclass := get64 t.lockStack (heldLockSize * i + 24)

/-- The stores to entry `i`, in the order of `ldep_lock`. -/
def LdepTask.setHeldLock (t : LdepTask) (i : ℕ) (h : HeldLock) : LdepTask :=
  let m := put64 t.lockStack (heldLockSize * i) h.ra
  let m := put64 m (heldLockSize * i + 8) h.lock
  let m := put64 m (heldLockSize * i + 16) h.lockname
  { t with lockStack := put64 m (heldLockSize * i + 24) h.lclass }

/-- The entries that `print_held_locks` prints. -/
def LdepTask.heldLocks (t : LdepTask) : List HeldLock := (List.range t.nrLocks).map t.heldLock

/-- **A message of the tracker**, with what it prints: a task holds more locks than its
table takes, it asks for a lock of a class that it holds already, or it gives up a lock that
it does not hold. -/
inductive LdepReport (τ : Type*)
  | exceeded (current : τ)
  | recursive (current : τ) (lockname ra : UInt64) (held : HeldLock)
  | notHeld (current : τ) (lockname ra : UInt64) (held : List HeldLock)

/-- **The tracker**: `ldep_enabled`, the tasks with their tables, and the messages so far.
-/
structure Ldep (τ : Type*) where
  enabled : Bool
  tasks : τ → LdepTask
  reports : List (LdepReport τ)

section

variable {τ : Type*} [DecidableEq τ]

/-- A task's record, replaced. -/
def Ldep.setTask (s : Ldep τ) (t : τ) (task : LdepTask) : Ldep τ :=
  { s with tasks := Function.update s.tasks t task }

/-- One report more. -/
def Ldep.report (s : Ldep τ) (r : LdepReport τ) : Ldep τ := { s with reports := s.reports ++ [r] }

/-- `__get_stack_slot`: whether there is none, and the state. -/
def _getStackSlot (current : τ) (s : Ldep τ) : Bool × Ldep τ :=
  let task := s.tasks current
  let s := s.setTask current { task with nrLocks := task.nrLocks + 1 }
  if task.nrLocks + 1 = ldepStackSize then (true, s.report (.exceeded current)) else (false, s)

/-- `ldep_lock`, called from `ra`. -/
def ldepLock (current : τ) (lock c lockname ra : UInt64) (s : Ldep τ) : Ldep τ :=
  if ¬ s.enabled then s
  else
    let task := s.tasks current
    match (List.range task.nrLocks).find? fun i => (task.heldLock i).lclass = c with
    | some i =>
        { s.report (.recursive current lockname ra (task.heldLock i)) with enabled := false }
    | none =>
      match _getStackSlot current s with
      | (true, s) => s
      | (false, s) =>
        let task := s.tasks current
        s.setTask current
          (task.setHeldLock (task.nrLocks - 1) { ra, lock, lockname, lclass := c })

/-- `ldep_unlock`, called from `ra`. -/
def ldepUnlock (current : τ) (lock lockname ra : UInt64) (s : Ldep τ) : Ldep τ :=
  if ¬ s.enabled then s
  else
    let task := s.tasks current
    match (List.range task.nrLocks).find? fun i => (task.heldLock i).lock = lock with
    | none => { s.report (.notHeld current lockname ra task.heldLocks) with enabled := false }
    | some i =>
      let lockStack :=
        if i ≠ task.nrLocks - 1 then
          -- the length is a number of entries, not of bytes
          copy task.lockStack (heldLockSize * i) (heldLockSize * (i + 1)) (task.nrLocks - i - 1)
        else task.lockStack
      s.setTask current { nrLocks := task.nrLocks - 1, lockStack }

/-! ### Programs -/

/-- **The tracker beside the truth**: the locks that the tasks do hold, in the order they
took them. -/
structure LdepRun (τ : Type*) where
  ldep : Ldep τ
  held : τ → List HeldLock

/-- **A call of a task of a correct program**: it takes a lock it does not hold, or gives
back one that it holds. -/
inductive LdepEvent (τ : Type*)
  | lock (current : τ) (lock lockname ra : UInt64)
  | unlock (current : τ) (lock lockname ra : UInt64)

/-- A correct program: a task takes a lock of another class than those it holds,
nine locks at most, and releases what it holds.  A lock has the class `lclass`. -/
inductive LdepStep (lclass : UInt64 → UInt64) : LdepRun τ → LdepEvent τ → LdepRun τ → Prop
  | lock {s} (t : τ) (lock lockname ra : UInt64) :
      (∀ h ∈ s.held t, lclass h.lock ≠ lclass lock) → (s.held t).length < 9 →
      LdepStep lclass s (.lock t lock lockname ra)
        { ldep := ldepLock t lock (lclass lock) lockname ra s.ldep
          held := Function.update s.held t
            (s.held t ++ [{ ra, lock, lockname, lclass := lclass lock }]) }
  | unlock {s} (t : τ) (lock lockname ra : UInt64) :
      (∃ h ∈ s.held t, h.lock = lock) →
      LdepStep lclass s (.unlock t lock lockname ra)
        { ldep := ldepUnlock t lock lockname ra s.ldep
          held := Function.update s.held t ((s.held t).eraseP fun h => h.lock = lock) }

/-- The tracker after `ldep_on`, when no task holds a lock; the slots hold
anything. -/
def LdepRun.init (slots : τ → Mem) : LdepRun τ where
  ldep :=
    { enabled := true
      tasks := fun t => { nrLocks := 0, lockStack := slots t }
      reports := [] }
  held := fun _ => []

/-- **The tracker mirrors the locks.** It is enabled, has reported nothing, and lists for
every task the locks it holds, in the order they were taken. -/
structure Mirrors (s : LdepRun τ) : Prop where
  enabled : s.ldep.enabled = true
  reports : s.ldep.reports = []
  stack : ∀ t, (s.ldep.tasks t).heldLocks = s.held t

/-! ### The entries of a stack -/

section Entries

variable {t : LdepTask} {i j : ℕ}

/-- A slot stored is read back. -/
theorem LdepTask.heldLock_setHeldLock (t : LdepTask) (i : ℕ) (h : HeldLock) :
    (t.setHeldLock i h).heldLock i = h := by
  unfold LdepTask.setHeldLock LdepTask.heldLock
  dsimp only
  have h₀ : ∀ m a w, get64 (put64 m a w) a = w := get64_put64
  have h₁ : ∀ m {a b} w, b + 8 ≤ a → get64 (put64 m a w) b = get64 m b :=
    fun m _ _ w hb => get64_put64_of_disjoint m w (Or.inl hb)
  rw [h₀, h₁ _ _ (by omega), h₁ _ _ (by omega), h₁ _ _ (by omega), h₀, h₁ _ _ (by omega),
    h₁ _ _ (by omega), h₀, h₁ _ _ (by omega), h₀]

/-- The other slots stay. -/
theorem LdepTask.heldLock_setHeldLock_of_ne (t : LdepTask) (h : HeldLock) (hij : j ≠ i) :
    (t.setHeldLock i h).heldLock j = t.heldLock j := by
  have hbyte : ∀ k < 32, (t.setHeldLock i h).lockStack (heldLockSize * j + k)
      = t.lockStack (heldLockSize * j + k) := by
    intro k hk
    unfold LdepTask.setHeldLock put64 heldLockSize
    dsimp only
    rw [if_neg (by omega), if_neg (by omega), if_neg (by omega), if_neg (by omega)]
  have hfield : ∀ a, a + 8 ≤ 32 → get64 (t.setHeldLock i h).lockStack (heldLockSize * j + a)
      = get64 t.lockStack (heldLockSize * j + a) := by
    intro a ha
    refine get64_congr fun k hk => ?_
    rw [Nat.add_assoc, hbyte (a + k) (by omega)]
  unfold LdepTask.heldLock
  rw [← Nat.add_zero (heldLockSize * j), hfield 0 (by omega), Nat.add_zero,
    hfield 8 (by omega), hfield 16 (by omega), hfield 24 (by omega)]

/-- **A release in the middle moves no `lock` field:** it copies fewer bytes than
are in front of it. -/
theorem LdepTask.lock_copy (m : Mem) {n : ℕ} (i : ℕ) (hn : n ≤ 8) :
    get64 (copy m (heldLockSize * i) (heldLockSize * (i + 1)) n) (heldLockSize * i + 8)
      = get64 m (heldLockSize * i + 8) :=
  get64_copy_of_disjoint m (Or.inr (by omega))

/-- A task holds as many locks as it counts. -/
theorem LdepTask.length_heldLocks (t : LdepTask) : t.heldLocks.length = t.nrLocks := by
  rw [LdepTask.heldLocks, List.length_map, List.length_range]

/-- They are in its slots in order. -/
theorem LdepTask.getElem_heldLocks {l : List HeldLock} (h : t.heldLocks = l) (hi : i < l.length) :
    t.heldLock i = l[i] := by
  subst h
  simp [LdepTask.heldLocks]

/-- The lists with the same entries. -/
theorem LdepTask.heldLocks_eq {l : List HeldLock} (hlen : t.nrLocks = l.length)
    (h : ∀ i (hi : i < l.length), t.heldLock i = l[i]) : t.heldLocks = l := by
  refine List.ext_getElem (by rw [t.length_heldLocks, hlen]) fun i _ hi => ?_
  rw [← h i hi]
  simp [LdepTask.heldLocks]

/-- An entry on top. -/
theorem LdepTask.heldLocks_push (t : LdepTask) (h : HeldLock) :
    (({ t with nrLocks := t.nrLocks + 1 } : LdepTask).setHeldLock t.nrLocks h).heldLocks
      = t.heldLocks ++ [h] := by
  show (List.range (t.nrLocks + 1)).map _ = _
  rw [List.range_succ, List.map_append, List.map_singleton, LdepTask.heldLock_setHeldLock]
  refine congrArg (· ++ [h]) (List.map_congr_left fun i hi => ?_)
  rw [LdepTask.heldLock_setHeldLock_of_ne _ _ (List.mem_range.1 hi).ne]
  rfl

end Entries

/-! ### What the tasks hold -/

section Steps

variable {lclass : UInt64 → UInt64} {s s' : LdepRun τ} {e : LdepEvent τ}

/-- **What a task of a correct program holds**: at most nine locks, each of its class, and
none of them twice. -/
structure HeldOk (lclass : UInt64 → UInt64) (held : List HeldLock) : Prop where
  length : held.length ≤ 9
  lclass : ∀ h ∈ held, h.lclass = lclass h.lock
  distinct : held.Pairwise fun g h => g.lock ≠ h.lock

/-- Every task's locks are right behind a step. -/
theorem heldOk_step (h : ∀ t, HeldOk lclass (s.held t)) (hstep : LdepStep lclass s e s') (t : τ) :
    HeldOk lclass (s'.held t) := by
  cases hstep with
  | lock u lock lockname ra hclass hlen =>
    by_cases htu : t = u
    · subst htu
      show HeldOk lclass (Function.update s.held t _ t)
      rw [Function.update_self]
      have hnew : ∀ g ∈ s.held t, g.lock ≠ lock :=
        fun g hg heq => hclass g hg (congrArg lclass heq)
      constructor
      · rw [List.length_append, List.length_singleton]
        omega
      · intro g hg
        rcases List.mem_append.1 hg with hg | hg
        · exact (h t).lclass g hg
        · obtain rfl := List.mem_singleton.1 hg
          rfl
      · refine List.pairwise_append.2 ⟨(h t).distinct, List.pairwise_singleton .., ?_⟩
        intro g hg g' hg'
        obtain rfl := List.mem_singleton.1 hg'
        exact hnew g hg
    · show HeldOk lclass (Function.update s.held u _ t)
      rw [Function.update_of_ne htu]
      exact h t
  | unlock u lock lockname ra hheld =>
    by_cases htu : t = u
    · subst htu
      show HeldOk lclass (Function.update s.held t _ t)
      rw [Function.update_self]
      have hsub := List.eraseP_sublist (p := fun h : HeldLock => h.lock = lock) (l := s.held t)
      exact ⟨hsub.length_le.trans (h t).length, fun g hg => (h t).lclass g (hsub.subset hg),
        (h t).distinct.sublist hsub⟩
    · show HeldOk lclass (Function.update s.held u _ t)
      rw [Function.update_of_ne htu]
      exact h t

/-- What a call leaves of the other tasks. -/
theorem heldLocks_update {t : τ} {task : LdepTask} {l : List HeldLock} {tasks : τ → LdepTask}
    {held : τ → List HeldLock} (htask : task.heldLocks = l)
    (h : ∀ u, (tasks u).heldLocks = held u) (u : τ) :
    (Function.update tasks t task u).heldLocks = Function.update held t l u := by
  by_cases hut : u = t
  · subst hut
    rw [Function.update_self, Function.update_self, htask]
  · rw [Function.update_of_ne hut, Function.update_of_ne hut, h u]

/-- **Taking a lock** puts it on top. -/
theorem Mirrors.lock (h : Mirrors s) (hok : ∀ t, HeldOk lclass (s.held t))
    (t : τ) (lock lockname ra : UInt64) (hclass : ∀ g ∈ s.held t, lclass g.lock ≠ lclass lock)
    (hlen : (s.held t).length < 9) :
    Mirrors { ldep := ldepLock t lock (lclass lock) lockname ra s.ldep
              held := Function.update s.held t
                (s.held t ++ [{ ra, lock, lockname, lclass := lclass lock }]) } := by
  have hnr : (s.ldep.tasks t).nrLocks = (s.held t).length := by
    rw [← LdepTask.length_heldLocks, h.stack t]
  -- no entry has the class
  have hfind : (List.range (s.ldep.tasks t).nrLocks).find?
      (fun i => ((s.ldep.tasks t).heldLock i).lclass = lclass lock) = none := by
    refine List.find?_eq_none.2 fun i hi => ?_
    have hi : i < (s.held t).length := hnr ▸ List.mem_range.1 hi
    rw [decide_eq_true_eq, LdepTask.getElem_heldLocks (h.stack t) hi]
    have hmem := List.getElem_mem hi
    rw [(hok t).lclass _ hmem]
    exact hclass _ hmem
  have hslot : (s.ldep.tasks t).nrLocks + 1 ≠ ldepStackSize := by
    unfold ldepStackSize
    omega
  have hcall : ldepLock t lock (lclass lock) lockname ra s.ldep
      = (s.ldep.setTask t { s.ldep.tasks t with nrLocks := (s.ldep.tasks t).nrLocks + 1 }).setTask t
          (({ s.ldep.tasks t with nrLocks := (s.ldep.tasks t).nrLocks + 1 } : LdepTask).setHeldLock
            (s.ldep.tasks t).nrLocks { ra, lock, lockname, lclass := lclass lock }) := by
    unfold ldepLock _getStackSlot
    simp only [h.enabled, not_true, if_false, hfind, if_neg hslot]
    simp [Ldep.setTask]
  rw [hcall]
  refine ⟨h.enabled, h.reports, ?_⟩
  show ∀ u, (Function.update (Function.update s.ldep.tasks t _) t _ u).heldLocks = _
  rw [Function.update_idem]
  refine heldLocks_update ?_ h.stack
  rw [LdepTask.heldLocks_push, h.stack t]

omit [DecidableEq τ] in
/-- Where `ldep_unlock` finds the lock. -/
theorem Mirrors.find (h : Mirrors s) {t : τ} (hok : HeldOk lclass (s.held t))
    {before after : List HeldLock} {g : HeldLock} (hheld : s.held t = before ++ g :: after) :
    (List.range (s.ldep.tasks t).nrLocks).find?
      (fun i => ((s.ldep.tasks t).heldLock i).lock = g.lock) = some before.length := by
  have hnr : (s.ldep.tasks t).nrLocks = (s.held t).length := by
    rw [← LdepTask.length_heldLocks, h.stack t]
  have hget : ∀ i (hi : i < (s.held t).length), (s.ldep.tasks t).heldLock i = (s.held t)[i] :=
    fun i hi => LdepTask.getElem_heldLocks (h.stack t) hi
  rw [List.find?_range_eq_some, hnr, hheld]
  refine ⟨?_, ?_, fun j hj => ?_⟩
  · rw [decide_eq_true_eq, hget _ (by rw [hheld]; simp)]
    simp [hheld]
  · simp
  · have hdistinct := hok.distinct
    rw [hheld, List.pairwise_append] at hdistinct
    rw [hget j (by rw [hheld, List.length_append]; omega)]
    have hne := hdistinct.2.2 before[j] (List.getElem_mem hj) g List.mem_cons_self
    simpa [hheld, List.getElem_append_left hj] using hne

/-- **Releasing a lock** keeps the stack exactly when it was on top. -/
theorem Mirrors.unlock (h : Mirrors s) {t : τ} (hok : HeldOk lclass (s.held t))
    (lockname ra : UInt64) {before after : List HeldLock} {g : HeldLock}
    (hheld : s.held t = before ++ g :: after) :
    Mirrors { ldep := ldepUnlock t g.lock lockname ra s.ldep
              held := Function.update s.held t (before ++ after) } ↔ after = [] := by
  have hlen : (s.ldep.tasks t).nrLocks = before.length + (after.length + 1) := by
    rw [← LdepTask.length_heldLocks, h.stack t, hheld, List.length_append, List.length_cons]
  have hcall : ldepUnlock t g.lock lockname ra s.ldep = s.ldep.setTask t
      { nrLocks := (s.ldep.tasks t).nrLocks - 1
        lockStack :=
          if before.length ≠ (s.ldep.tasks t).nrLocks - 1 then
            copy (s.ldep.tasks t).lockStack (heldLockSize * before.length)
              (heldLockSize * (before.length + 1)) ((s.ldep.tasks t).nrLocks - before.length - 1)
          else (s.ldep.tasks t).lockStack } := by
    unfold ldepUnlock
    simp only [h.enabled, not_true, if_false, h.find hok hheld]
  rw [hcall]
  constructor
  · intro hmirrors
    cases hafter : after with
    | nil => rfl
    | cons b rest =>
      exfalso
      subst hafter
      have hcopied : before.length ≠ (s.ldep.tasks t).nrLocks - 1 := by
        rw [hlen, List.length_cons]
        omega
      have hshort : (s.ldep.tasks t).nrLocks - before.length - 1 ≤ 8 := by
        have := hok.length
        rw [hheld, List.length_append, List.length_cons] at this
        omega
      -- the entry of the next lock still has the lock that was released
      have hstack := hmirrors.stack t
      simp only [Ldep.setTask, Function.update_self, if_pos hcopied] at hstack
      have hnew := congrArg HeldLock.lock
        (LdepTask.getElem_heldLocks (i := before.length) hstack (by simp))
      have hold := congrArg HeldLock.lock
        (LdepTask.getElem_heldLocks (i := before.length) (h.stack t) (by simp [hheld]))
      rw [List.getElem_append_right le_rfl] at hnew
      have hlock : g.lock = b.lock := by
        simp only [hheld, Nat.sub_self, List.getElem_cons_zero, List.getElem_append_right le_rfl]
          at hnew hold
        rw [← hnew, ← hold]
        exact (LdepTask.lock_copy _ _ hshort).symm
      have hdistinct := hok.distinct
      rw [hheld, List.pairwise_append] at hdistinct
      exact List.rel_of_pairwise_cons hdistinct.2.1 List.mem_cons_self hlock
  · rintro rfl
    have hlast : ¬ before.length ≠ (s.ldep.tasks t).nrLocks - 1 := by
      rw [hlen, List.length_nil]
      omega
    rw [if_neg hlast, List.append_nil]
    refine ⟨h.enabled, h.reports, heldLocks_update ?_ h.stack⟩
    refine LdepTask.heldLocks_eq ?_ fun i hi => ?_
    · show (s.ldep.tasks t).nrLocks - 1 = _
      rw [hlen, List.length_nil, Nat.zero_add, Nat.add_sub_cancel]
    · have hget := LdepTask.getElem_heldLocks (i := i) (h.stack t)
        (by rw [hheld, List.length_append]; omega)
      rw [List.getElem_of_eq hheld, List.getElem_append_left hi] at hget
      exact hget

/-- The lock a call releases is the one its task took last. -/
def ReleasesLast (s : LdepRun τ) : LdepEvent τ → Prop
  | .lock .. => True
  | .unlock t lock _ _ => ∃ before g, s.held t = before ++ [g] ∧ g.lock = lock

/-- **Exactly when the tracker mirrors the held locks.**  In a run of a correct
program the stacks list what the tasks hold, with nothing reported, in every
state, exactly when every release is of the lock that its task took last. -/
theorem ldep_mirrors_iff (lclass : UInt64 → UInt64) (slots : τ → Mem) {es : List (LdepEvent τ)}
    {s : LdepRun τ} (hrun : Run (LdepStep lclass) (.init slots) es s) :
    (∀ es' s', es' <+: es → Run (LdepStep lclass) (.init slots) es' s' → Mirrors s') ↔
      Run (guarded ReleasesLast (LdepStep lclass)) (.init slots) es s := by
  have hdet : ∀ t (e : LdepEvent τ) u u', LdepStep lclass t e u → LdepStep lclass t e u' →
      u = u' := by
    rintro t e u u' hu hu'
    cases hu with
    | lock => cases hu'; rfl
    | unlock => cases hu'; rfl
  refine Run.always_iff (P := fun _ s => Mirrors s) hdet ⟨rfl, rfl, fun _ => rfl⟩ ?_ hrun
  intro es s e s' hbefore hmirrors hstep
  have hok : ∀ t, HeldOk lclass (s.held t) := by
    refine hbefore.of_guarded.invariant (P := fun s => ∀ t, HeldOk lclass (s.held t)) ?_
      fun _ _ _ h hstep => heldOk_step h hstep
    exact fun _ => ⟨Nat.zero_le _, nofun, List.Pairwise.nil⟩
  cases hstep with
  | lock t lock lockname ra hclass hlen =>
    exact iff_of_true (hmirrors.lock hok t lock lockname ra hclass hlen) trivial
  | unlock t lock lockname ra hheld =>
    obtain ⟨g₀, hmem, hlock₀⟩ := hheld
    obtain ⟨g, before, after, -, hlock, hsplit, herase⟩ := List.exists_of_eraseP
      (p := fun h : HeldLock => h.lock = lock) hmem (decide_eq_true hlock₀)
    obtain rfl : g.lock = lock := of_decide_eq_true hlock
    rw [herase, hmirrors.unlock (hok t) lockname ra hsplit]
    constructor
    · rintro rfl
      exact ⟨before, g, hsplit, rfl⟩
    · rintro ⟨before', g', hlast, hlock'⟩
      -- no other lock that the task holds has this address
      have hdistinct := (hok t).distinct
      rw [hsplit, List.pairwise_append] at hdistinct
      rcases List.eq_nil_or_concat after with rfl | ⟨rest, b, rfl⟩
      · rfl
      · have hlast' : (before ++ g :: rest) ++ [b] = before' ++ [g'] := by
          rw [← hlast, hsplit]
          simp
        obtain rfl := List.singleton_inj.1 (List.append_inj' hlast' rfl).2
        have hne := List.rel_of_pairwise_cons hdistinct.2.1 (by simp : b ∈ rest.concat b)
        exact absurd hlock'.symm hne

/-- **The tracker does not mirror the held locks:** where a task releases the first
of two locks before the second, the release of the second is reported. -/
theorem ldep_not_mirrors :
    ¬ ∀ (lclass : UInt64 → UInt64) (slots : Unit → Mem) (es : List (LdepEvent Unit))
      (s : LdepRun Unit), Run (LdepStep lclass) (.init slots) es s → Mirrors s := by
  intro hall
  have hrun := (((Run.nil.snoc
    (@LdepStep.lock Unit _ id (.init fun _ _ => 0) () 8 80 1000 nofun (by decide))).snoc
    (.lock () 16 160 1004 (by decide) (by decide))).snoc
    (.unlock () 8 80 1008 (by decide))).snoc
    (.unlock () 16 160 1012 (by decide))
  have hmirrors := hall id (fun _ _ => 0) _ _ hrun
  exact absurd hmirrors.enabled (by decide +kernel)

/-- Two locks released in the opposite order: the tracker mirrors the locks held in every
state. -/
theorem ldep_mirrors_iff_nested :
    ∃ s : LdepRun Unit, Run (LdepStep id) (.init fun _ _ => 0)
      [.lock () 8 80 1000, .lock () 16 160 1004, .unlock () 16 160 1008, .unlock () 8 80 1012] s ∧
      Mirrors s := by
  have hstart : Run (guarded ReleasesLast (LdepStep id)) (.init fun (_ : Unit) _ => 0) [] _ :=
    Run.nil
  have hrun := (((hstart.snoc (l := LdepEvent.lock () 8 80 1000)
      ⟨trivial, .lock () 8 80 1000 nofun (by decide)⟩).snoc
    (l := LdepEvent.lock () 16 160 1004)
      ⟨trivial, .lock () 16 160 1004 (by decide) (by decide)⟩).snoc
    (l := LdepEvent.unlock () 16 160 1008)
      ⟨⟨[⟨1000, 8, 80, 8⟩], ⟨1004, 16, 160, 16⟩, by decide, rfl⟩,
        .unlock () 16 160 1008 (by decide)⟩).snoc
    (l := LdepEvent.unlock () 8 80 1012)
      ⟨⟨[], ⟨1000, 8, 80, 8⟩, by decide, rfl⟩, .unlock () 8 80 1012 (by decide)⟩
  exact ⟨_, hrun.of_guarded, (ldep_mirrors_iff id (fun _ _ => 0) hrun.of_guarded).2 hrun _ _
    (List.prefix_refl _) hrun.of_guarded⟩

end Steps

end

end Hvf
