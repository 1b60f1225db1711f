/-
# The table of the lock tracker

`cp/nucleus/ldep.c` again, with the bytes of `lock_stack` that each call touches.  The
tenth lock of a task gets no slot and the message that the tracker is disabled, but
`ldep_enabled` stays set and `nr_locks` is counted up: the call after it has the eleventh
entry of ten.

So the tracker stays inside its table exactly as long as no call of `ldep_lock` finds nine
locks (`ldep_table_iff`).
-/

import Hvf.Nucleus.Ldep

namespace Hvf

open StepRun

/-- Byte ranges of `lock_stack`, each with its offset and length. -/
abbrev Touched := List (ℕ × ℕ)

/-- Entry `i`. -/
def entryRange (i : ℕ) : ℕ × ℕ := (heldLockSize * i, heldLockSize)

/-- What a loop over the entries reads that ends with the first one it looks for. -/
def scanned (nrLocks : ℕ) : Option ℕ → Touched
  | some i => (List.range (i + 1)).map entryRange
  | none => (List.range nrLocks).map entryRange

/-- The call has its ranges inside the table. -/
def InTable (touched : Touched) : Prop :=
  ∀ r ∈ touched, r.1 + r.2 ≤ heldLockSize * ldepStackSize

section

variable {τ : Type*} [DecidableEq τ]

/-- What `ldep_lock` touches. -/
def ldepLockTouches (current : τ) (c : UInt64) (s : Ldep τ) : Touched :=
  if ¬ s.enabled then []
  else
    let task := s.tasks current
    let found := (List.range task.nrLocks).find? fun i => (task.heldLock i).lclass = c
    scanned task.nrLocks found ++
      match found with
      | some _ => []
      | none => if task.nrLocks + 1 = ldepStackSize then [] else [entryRange task.nrLocks]

/-- What `ldep_unlock` touches, `print_held_locks` included. -/
def ldepUnlockTouches (current : τ) (lock : UInt64) (s : Ldep τ) : Touched :=
  if ¬ s.enabled then []
  else
    let task := s.tasks current
    let found := (List.range task.nrLocks).find? fun i => (task.heldLock i).lock = lock
    scanned task.nrLocks found ++
      match found with
      | none => (List.range task.nrLocks).map entryRange
      | some i =>
        if i ≠ task.nrLocks - 1 then
          [(heldLockSize * i, task.nrLocks - i - 1), (heldLockSize * (i + 1), task.nrLocks - i - 1)]
        else []

/-- **The tracker, and what its calls have touched**: the entries of the tables of held
locks, of every task. -/
structure LdepTrace (τ : Type*) where
  ldep : Ldep τ
  touched : Touched

/-- **A call of a task, whatever it holds**: no discipline is asked of it. -/
inductive LdepCall (τ : Type*)
  | lock (current : τ) (lock c lockname ra : UInt64)
  | unlock (current : τ) (lock lockname ra : UInt64)

/-- One call, with the slots it touches recorded. -/
def LdepTrace.call (s : LdepTrace τ) : LdepCall τ → LdepTrace τ
  | .lock current lock c lockname ra =>
    { ldep := ldepLock current lock c lockname ra s.ldep
      touched := s.touched ++ ldepLockTouches current c s.ldep }
  | .unlock current lock lockname ra =>
    { ldep := ldepUnlock current lock lockname ra s.ldep
      touched := s.touched ++ ldepUnlockTouches current lock s.ldep }

/-- The calls as a step relation. -/
def LdepCalls (s : LdepTrace τ) (e : LdepCall τ) (u : LdepTrace τ) : Prop := s.call e = u

/-- After `ldep_on`, when no task has a lock tracked. -/
def LdepTrace.init (slots : τ → Bytes.Mem) : LdepTrace τ := ⟨(LdepRun.init slots).ldep, []⟩

/-- The message that the table is full was printed. -/
def Exceeded (s : Ldep τ) : Prop := ∃ t, LdepReport.exceeded t ∈ s.reports

/-- No call was outside the table, and once there was no slot for a lock the tracker is
disabled, so that later calls touch and report nothing. -/
structure TableSafe (s : LdepTrace τ) : Prop where
  inside : InTable s.touched
  disabled : Exceeded s.ldep →
    s.ldep.enabled = false ∧ ∀ es u, Run LdepCalls s es u → u = s

/-- A call of `ldep_lock` that looks for a slot finds fewer than nine locks. -/
def FewerThanNine (s : LdepTrace τ) : LdepCall τ → Prop
  | .lock current _ c _ _ => s.ldep.enabled = true →
      (∀ i < (s.ldep.tasks current).nrLocks, ((s.ldep.tasks current).heldLock i).lclass ≠ c) →
        (s.ldep.tasks current).nrLocks < 9
  | .unlock .. => True

/-! ### One call -/

variable {s u : LdepTrace τ} {e : LdepCall τ}

/-- A disabled tracker does nothing. -/
theorem LdepTrace.call_disabled (h : s.ldep.enabled = false) (e : LdepCall τ) : s.call e = s := by
  have hoff : ¬ s.ldep.enabled = true := by rw [h]; exact Bool.false_ne_true
  cases e with
  | lock current lock c lockname ra =>
    rw [LdepTrace.call, ldepLock, if_pos hoff, ldepLockTouches, if_pos hoff, List.append_nil]
  | unlock current lock lockname ra =>
    rw [LdepTrace.call, ldepUnlock, if_pos hoff, ldepUnlockTouches, if_pos hoff, List.append_nil]

/-- The run of some calls. -/
theorem run_foldl (s : LdepTrace τ) (es : List (LdepCall τ)) :
    Run LdepCalls s es (es.foldl LdepTrace.call s) := by
  induction es using List.reverseRecOn with
  | nil => exact Run.nil
  | append_singleton es e ih =>
    rw [List.foldl_append]
    exact ih.snoc rfl

omit [DecidableEq τ] in
/-- A search over at most ten slots touches the table only. -/
theorem scanned_inTable {n : ℕ} (hn : n ≤ 10) (found : Option ℕ) (hfound : ∀ i ∈ found, i < n) :
    InTable (scanned n found) := by
  intro r hr
  have hentry : ∀ i < 10, (entryRange i).1 + (entryRange i).2 ≤ heldLockSize * ldepStackSize := by
    intro i hi
    rw [entryRange, heldLockSize, ldepStackSize]
    dsimp only
    omega
  cases found with
  | none =>
    obtain ⟨i, hi, rfl⟩ := List.mem_map.1 hr
    exact hentry i (lt_of_lt_of_le (List.mem_range.1 hi) hn)
  | some k =>
    obtain ⟨i, hi, rfl⟩ := List.mem_map.1 hr
    have hk := hfound k rfl
    have hi' := List.mem_range.1 hi
    exact hentry i (by omega)

omit [DecidableEq τ] in
/-- Two calls in the table are in the table. -/
theorem InTable.append {t t' : Touched} (h : InTable t) (h' : InTable t') : InTable (t ++ t') := by
  intro r hr
  rcases List.mem_append.1 hr with hr | hr
  · exact h r hr
  · exact h' r hr

/-- **At most nine locks of each task are tracked**, and no message was printed about more.
-/
structure Small (s : Ldep τ) : Prop where
  few : ∀ t, (s.tasks t).nrLocks ≤ 9
  quiet : ¬ Exceeded s

omit [DecidableEq τ] in
/-- A report that no table is exceeded leaves nine slots enough. -/
theorem Small.report {l : Ldep τ} (h : Small l) {r : LdepReport τ}
    (hr : ∀ t, r ≠ .exceeded t) (enabled : Bool) : Small { l.report r with enabled } := by
  refine ⟨h.few, ?_⟩
  rintro ⟨t, ht⟩
  rcases List.mem_append.1 ht with hold | hnew
  · exact h.quiet ⟨t, hold⟩
  · exact hr t (List.mem_singleton.1 hnew).symm

/-- A task with at most nine locks leaves nine slots enough. -/
theorem Small.setTask {l : Ldep τ} (h : Small l) (t : τ) {task : LdepTask}
    (hn : task.nrLocks ≤ 9) : Small (l.setTask t task) := by
  refine ⟨fun u => ?_, h.quiet⟩
  show (Function.update l.tasks t task u).nrLocks ≤ 9
  by_cases hut : u = t
  · rw [hut, Function.update_self]
    exact hn
  · rw [Function.update_of_ne hut]
    exact h.few u

/-- What is found is within what was searched. -/
theorem lt_of_find {n : ℕ} {p : ℕ → Bool} : ∀ i ∈ (List.range n).find? p, i < n := by
  intro i hi
  exact List.mem_range.1 (List.mem_of_find?_eq_some hi)

/-- **A lock** stays inside the table and below ten where fewer than nine are tracked. -/
theorem Small.lock {l : Ldep τ} (h : Small l) (hon : l.enabled = true) {t : τ}
    (lock : UInt64) {c : UInt64} (lockname ra : UInt64)
    (hfew : (∀ i < (l.tasks t).nrLocks, ((l.tasks t).heldLock i).lclass ≠ c) →
      (l.tasks t).nrLocks < 9) :
    Small (ldepLock t lock c lockname ra l) ∧ InTable (ldepLockTouches t c l) := by
  have hn := h.few t
  have hscan := scanned_inTable (Nat.le_succ_of_le hn)
    ((List.range (l.tasks t).nrLocks).find? fun i => ((l.tasks t).heldLock i).lclass = c)
    lt_of_find
  cases hfind : (List.range (l.tasks t).nrLocks).find?
      (fun i => ((l.tasks t).heldLock i).lclass = c) with
  | some i =>
    rw [hfind] at hscan
    refine ⟨?_, ?_⟩
    · simp only [ldepLock, hon, not_true, if_false, hfind]
      exact h.report (fun _ => by simp) false
    · simp only [ldepLockTouches, hon, not_true, if_false, hfind, List.append_nil]
      exact hscan
  | none =>
    have hnine : (l.tasks t).nrLocks < 9 := by
      refine hfew fun i hi heq => ?_
      have hnot := List.find?_eq_none.1 hfind i (List.mem_range.2 hi)
      exact hnot (decide_eq_true heq)
    have hslot : ¬ (l.tasks t).nrLocks + 1 = ldepStackSize := by
      rw [ldepStackSize]
      omega
    rw [hfind] at hscan
    refine ⟨?_, ?_⟩
    · simp only [ldepLock, hon, not_true, if_false, hfind, _getStackSlot, if_neg hslot]
      have hn' : (l.tasks t).nrLocks + 1 ≤ 9 := hnine
      refine (h.setTask t hn').setTask t ?_
      show (Function.update l.tasks t _ t).nrLocks ≤ 9
      rw [Function.update_self]
      exact hn'
    · simp only [ldepLockTouches, hon, not_true, if_false, hfind, if_neg hslot]
      refine hscan.append fun r hr => ?_
      obtain rfl := List.mem_singleton.1 hr
      rw [entryRange, heldLockSize, ldepStackSize]
      dsimp only
      omega

/-- **A release** never leaves the table. -/
theorem Small.unlock {l : Ldep τ} (h : Small l) (hon : l.enabled = true) (t : τ)
    (lock lockname ra : UInt64) :
    Small (ldepUnlock t lock lockname ra l) ∧ InTable (ldepUnlockTouches t lock l) := by
  have hn := h.few t
  have hscan := scanned_inTable (Nat.le_succ_of_le hn)
    ((List.range (l.tasks t).nrLocks).find? fun i => ((l.tasks t).heldLock i).lock = lock)
    lt_of_find
  cases hfind : (List.range (l.tasks t).nrLocks).find?
      (fun i => ((l.tasks t).heldLock i).lock = lock) with
  | none =>
    rw [hfind] at hscan
    refine ⟨?_, ?_⟩
    · simp only [ldepUnlock, hon, not_true, if_false, hfind]
      exact h.report (fun _ => by simp) false
    · simp only [ldepUnlockTouches, hon, not_true, if_false, hfind]
      exact hscan.append hscan
  | some i =>
    rw [hfind] at hscan
    have hi := lt_of_find i hfind
    refine ⟨?_, ?_⟩
    · simp only [ldepUnlock, hon, not_true, if_false, hfind]
      exact h.setTask t ((Nat.sub_le _ _).trans hn)
    · simp only [ldepUnlockTouches, hon, not_true, if_false, hfind]
      refine hscan.append fun r hr => ?_
      by_cases hlast : i ≠ (l.tasks t).nrLocks - 1
      · rw [if_pos hlast] at hr
        rw [heldLockSize, ldepStackSize]
        rcases List.mem_cons.1 hr with rfl | hr
        · rw [heldLockSize]
          dsimp only
          omega
        · obtain rfl := List.mem_singleton.1 hr
          rw [heldLockSize]
          dsimp only
          omega
      · rw [if_neg hlast] at hr
        exact absurd hr List.not_mem_nil

/-- **The tenth lock** is reported, and the tracker goes on. -/
theorem exceeded_of_nine {l : Ldep τ} (hon : l.enabled = true) {t : τ}
    (lock : UInt64) {c : UInt64} (lockname ra : UInt64)
    (hclass : ∀ i < (l.tasks t).nrLocks, ((l.tasks t).heldLock i).lclass ≠ c)
    (hnine : (l.tasks t).nrLocks = 9) :
    Exceeded (ldepLock t lock c lockname ra l) ∧
      (ldepLock t lock c lockname ra l).enabled = true := by
  have hfind : (List.range (l.tasks t).nrLocks).find?
      (fun i => ((l.tasks t).heldLock i).lclass = c) = none := by
    refine List.find?_eq_none.2 fun i hi hdec => ?_
    exact hclass i (List.mem_range.1 hi) (of_decide_eq_true hdec)
  have hslot : (l.tasks t).nrLocks + 1 = ldepStackSize := by rw [hnine, ldepStackSize]
  simp only [ldepLock, hon, not_true, if_false, hfind, _getStackSlot, if_pos hslot]
  refine ⟨⟨t, ?_⟩, ?_⟩
  · exact List.mem_append_right _ (List.mem_singleton_self _)
  · exact hon

/-! ### Runs -/

/-- What holds of the runs in which fewer than nine locks are found. -/
theorem small_step (h : Small s.ldep ∧ InTable s.touched)
    (hstep : guarded FewerThanNine LdepCalls s e u) : Small u.ldep ∧ InTable u.touched := by
  obtain ⟨hcond, rfl⟩ := hstep
  obtain ⟨hsmall, hin⟩ := h
  cases hon : s.ldep.enabled with
  | false =>
    rw [LdepTrace.call_disabled hon]
    exact ⟨hsmall, hin⟩
  | true =>
    cases e with
    | lock current lock c lockname ra =>
      have hboth := hsmall.lock hon lock lockname ra (hcond hon)
      exact ⟨hboth.1, hin.append hboth.2⟩
    | unlock current lock lockname ra =>
      have hboth := hsmall.unlock hon current lock lockname ra
      exact ⟨hboth.1, hin.append hboth.2⟩

/-- **The tracker stays inside its table exactly when** no call of `ldep_lock` that looks
for a slot finds nine locks: then, and only then, every state of the run is safe. The tenth
lock is reported, and the tracker goes on. -/
theorem ldep_table_iff (slots : τ → Bytes.Mem) {es : List (LdepCall τ)} {s : LdepTrace τ}
    (hrun : Run LdepCalls (.init slots) es s) :
    (∀ es' s', es' <+: es → Run LdepCalls (.init slots) es' s' → TableSafe s') ↔
      Run (guarded FewerThanNine LdepCalls) (.init slots) es s := by
  have hinit : Small (LdepTrace.init slots).ldep ∧ InTable (LdepTrace.init slots).touched :=
    ⟨⟨fun _ => Nat.zero_le 9, fun ⟨_, hr⟩ => absurd hr List.not_mem_nil⟩,
      fun _ hr => absurd hr List.not_mem_nil⟩
  have hsafe : ∀ s : LdepTrace τ, Small s.ldep ∧ InTable s.touched → TableSafe s :=
    fun s h => ⟨h.2, fun hex => absurd hex h.1.quiet⟩
  refine Run.always_iff (P := fun _ s => TableSafe s) (fun t e u u' hu hu' => hu.symm.trans hu')
    (hsafe _ hinit) (fun es s e u hbefore _ hstep => ?_) hrun
  have hsmall : Small s.ldep ∧ InTable s.touched :=
    hbefore.invariant (P := fun s => Small s.ldep ∧ InTable s.touched) hinit
      fun _ _ _ h hstep => small_step h hstep
  constructor
  · intro hu
    cases e with
    | unlock => trivial
    | lock current lock c lockname ra =>
      intro hon hclass
      by_contra hnine
      have hfew := hsmall.1.few current
      obtain ⟨hex, hstill⟩ := exceeded_of_nine hon lock lockname ra hclass (by omega)
      subst hstep
      exact Bool.false_ne_true ((hu.disabled hex).1.symm.trans hstill)
  · intro hcond
    exact hsafe u (small_step hsmall ⟨hcond, hstep⟩)

end

/-- A task that takes a lock has fewer than nine. -/
def slotLeft (s : LdepTrace Bool) : LdepCall Bool → Bool
  | .lock current _ _ _ _ => (s.ldep.tasks current).nrLocks < 9
  | .unlock .. => true

/-- The check of the example is enough for the condition. -/
theorem fewerThanNine_of_slotLeft (s : LdepTrace Bool) (e : LdepCall Bool)
    (h : slotLeft s e = true) : FewerThanNine s e := by
  cases e with
  | lock current lock c lockname ra => exact fun _ _ => of_decide_eq_true h
  | unlock current lock lockname ra => trivial

/-- Lock `i` of the task, in a class of its own. -/
def takes (t : Bool) (i : ℕ) : LdepCall Bool := .lock t (.ofNat i) (.ofNat i) 0 0

/-- One task holds nine locks at once while the other holds two, releases the fourth and
the last one and takes two others; the other task releases both. -/
def nineHeld : List (LdepCall Bool) :=
  [takes false 1] ++ (List.range 9).map (takes true) ++
    [takes false 2, .unlock true 3 0 0, takes true 9, .unlock true 9 0 0, takes true 10,
      .unlock false 1 0 0, .unlock false 2 0 0]

/-- **Nine locks held at once** have their nine entries, in every state of the run. -/
theorem ldep_table_iff_nine : ∃ s : LdepTrace Bool, Run LdepCalls (.init fun _ _ => 0) nineHeld s ∧
    (s.ldep.tasks true).nrLocks = 9 ∧
    ∀ es s', es <+: nineHeld → Run LdepCalls (.init fun _ _ => 0) es s' → TableSafe s' := by
  have hsome : (nineHeld.foldlM (fun s e => if slotLeft s e then some (s.call e) else none)
      (LdepTrace.init fun _ _ => 0)).map (fun s => (s.ldep.tasks true).nrLocks) = some 9 := by
    decide +kernel
  obtain ⟨s, hs, hnine⟩ := Option.map_eq_some_iff.1 hsome
  have hrun : Run (guarded FewerThanNine LdepCalls) (.init fun _ _ => 0) nineHeld s :=
    (Run.of_checked fewerThanNine_of_slotLeft hs).mono fun _ _ _ h => ⟨h.1, Option.some.inj h.2⟩
  exact ⟨s, hrun.of_guarded, hnine, (ldep_table_iff _ hrun.of_guarded).2 hrun⟩

/-- The call of lock `i`, each of its own class. -/
def lockOfOwnClass (i : ℕ) : LdepCall Unit :=
  .lock () (.ofNat i) (.ofNat i) 0 0

/-- **Eleven locks of different classes:** the eleventh call writes the entry behind the
table, though the tenth has been reported as too many. -/
theorem not_ldep_table : ¬ ∀ (slots : Unit → Bytes.Mem) (es : List (LdepCall Unit))
    (s : LdepTrace Unit), Run LdepCalls (.init slots) es s → TableSafe s := by
  intro h
  have hin := (h (fun _ _ => 255) ((List.range 11).map lockOfOwnClass) _
    (run_foldl _ _)).inside (320, 32) (by decide +kernel)
  exact absurd hin (by decide)

end Hvf
