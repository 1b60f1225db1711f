/-
# The online guests

`guest_create` of `cp/guest/init.c` and `find_user_by_id` of
`cp/nucleus/direct.c`.  A call looks through `online_users` for its name, makes
the guest, finds the user in the directory and puts the guest on `online_users`.
The search and the insertion are two sections under `online_users_lock`; in
between the call allocates, and other tasks run.

| `guest_create` | step | place of the task before it |
| --- | --- | --- |
| first `mutex_lock` | `lock` | `calling` |
| the loop, `mutex_unlock` | `check` | `checking` |
| from `malloc` to `alloc_vcpu` | `alloc` | `allocating` |
| second `mutex_lock` | `lock` | `listing` |
| `list_add_tail`, `mutex_unlock` | `insert` | `inserting` |

A directory user is its place in the directory.
-/

import Hvf.CString
import Hvf.Lib.StepRun

namespace Hvf

open StepRun

/-- `find_user_by_id`. -/
def findUserById (directory : List (List UInt8)) (userid : List UInt8) : Option ℕ :=
  directory.findIdx? fun u => strcasecmp u userid = 0

/-- The comparison of an entry of `online_users` with the name. -/
def hasUserid (directory : List (List UInt8)) (name : List UInt8) (u : ℕ) : Bool :=
  (directory[u]?).any fun userid => strcmp userid name = 0

/-- **Where a task is in `guest_create`**: between these places another task may run, so
they are the steps of the run. -/
inductive CreatePc
  | idle
  | calling (name : List UInt8)
  | checking (name : List UInt8)
  | allocating (name : List UInt8)
  | listing (u : ℕ)
  | inserting (u : ℕ)
  | halted
deriving DecidableEq

/-- How the allocations of a call go: `malloc` or `alloc_console` fail, an `assert`
on the storage or the virtual CPU fails, or nothing does. -/
inductive CreateAlloc
  | noMemory
  | asserts
  | done
deriving DecidableEq

/-- **The users that are online**: the list `online_users`, the owner of its lock, and where
each task is. -/
structure OnlineUsers (τ : Type*) where
  owner : Option τ
  online : List ℕ
  pc : τ → CreatePc

/-- **A step of a task in `guest_create`**: the call, the lock, the check of the list, the
allocation, the insertion. -/
inductive CreateEvent (τ : Type*)
  | call (t : τ) (name : List UInt8)
  | lock (t : τ)
  | check (t : τ)
  | alloc (t : τ) (r : CreateAlloc)
  | insert (t : τ)

section

variable {τ : Type*} [DecidableEq τ]

/-- A task's place in its call, everything else as it was. -/
def OnlineUsers.goto (s : OnlineUsers τ) (t : τ) (pc : CreatePc) : OnlineUsers τ :=
  { s with pc := Function.update s.pc t pc }

/-- One step of `guest_create`, where the task can take it. -/
def createStep (directory : List (List UInt8)) (s : OnlineUsers τ) :
    CreateEvent τ → Option (OnlineUsers τ)
  | .call t name => if s.pc t = .idle then some (s.goto t (.calling name)) else none
  | .lock t =>
    match s.owner, s.pc t with
    | none, .calling name => some { s.goto t (.checking name) with owner := some t }
    | none, .listing u => some { s.goto t (.inserting u) with owner := some t }
    | _, _ => none
  | .check t =>
    match s.pc t with
    | .checking name =>
      let alreadyOnline := s.online.any (hasUserid directory name)
      some { s.goto t (if alreadyOnline then .idle else .allocating name) with owner := none }
    | _ => none
  | .alloc t r =>
    match s.pc t with
    | .allocating name =>
      match r, findUserById directory name with
      | .noMemory, _ => some (s.goto t .idle)
      | _, none => some (s.goto t .idle)
      | .asserts, some _ => some (s.goto t .halted)
      | .done, some u => some (s.goto t (.listing u))
    | _ => none
  | .insert t =>
    match s.pc t with
    | .inserting u => some { s.goto t .idle with owner := none, online := s.online ++ [u] }
    | _ => none

/-- One event of the run, where the code can make it. -/
def CreateStep (directory : List (List UInt8)) (s : OnlineUsers τ) (e : CreateEvent τ)
    (s' : OnlineUsers τ) : Prop := createStep directory s e = some s'

/-- Nobody is online and no task is in `guest_create`. -/
def OnlineUsers.init : OnlineUsers τ := ⟨none, [], fun _ => .idle⟩

/-! ### Calls under way -/

/-- The call is past its search and is for the user. -/
def UnderWay (directory : List (List UInt8)) (u : ℕ) : CreatePc → Prop
  | .allocating name => findUserById directory name = some u
  | .listing v => v = u
  | .inserting v => v = u
  | _ => False

/-- Whether a task has a user's logon under way is decided from its place in the call. -/
instance decidableUnderWay (directory : List (List UInt8)) (u : ℕ) :
    DecidablePred (UnderWay directory u)
  | .idle | .calling _ | .checking _ | .halted => inferInstanceAs (Decidable False)
  | .allocating name => inferInstanceAs (Decidable (findUserById directory name = some u))
  | .listing v | .inserting v => inferInstanceAs (Decidable (v = u))

/-- A search that lets its call go on is for a user who is not online under another
spelling, and no other call for this user is past its search. -/
def PassesAlone (directory : List (List UInt8)) (s : OnlineUsers τ) : CreateEvent τ → Prop
  | .check t => ∀ name u, s.pc t = .checking name → findUserById directory name = some u →
      s.online.any (hasUserid directory name) = false →
      (u ∈ s.online → hasUserid directory name u = true) ∧ ∀ t', ¬ UnderWay directory u (s.pc t')
  | _ => True

/-- No user is online twice, nor online while a call for this user is past its
search, and there is one such call at most. -/
structure OnlineInv (directory : List (List UInt8)) (s : OnlineUsers τ) : Prop where
  nodup : s.online.Nodup
  offline : ∀ t u, UnderWay directory u (s.pc t) → u ∉ s.online
  single : ∀ t t' u, UnderWay directory u (s.pc t) → UnderWay directory u (s.pc t') → t = t'

variable {directory : List (List UInt8)} {s s' : OnlineUsers τ}

/-- A task that goes on, for the user its call was under way for if for any. -/
theorem OnlineInv.goto (h : OnlineInv directory s) {t : τ} {pc : CreatePc} (owner : Option τ)
    (hpc : ∀ u, UnderWay directory u pc → UnderWay directory u (s.pc t)) :
    OnlineInv directory { s.goto t pc with owner } := by
  have hback : ∀ t' u, UnderWay directory u (Function.update s.pc t pc t') →
      UnderWay directory u (s.pc t') := by
    intro t' u ht'
    by_cases heq : t' = t
    · subst heq
      rw [Function.update_self] at ht'
      exact hpc u ht'
    · rwa [Function.update_of_ne heq] at ht'
  exact ⟨h.nodup, fun t' u ht' => h.offline t' u (hback t' u ht'),
    fun t' t'' u ht' ht'' => h.single t' t'' u (hback t' u ht') (hback t'' u ht'')⟩

/-- **One step of a call,** by the section it is in. -/
theorem OnlineInv.step (h : OnlineInv directory s) {e : CreateEvent τ}
    (hcond : PassesAlone directory s e) (hstep : CreateStep directory s e s') :
    OnlineInv directory s' := by
  unfold CreateStep createStep at hstep
  cases e with
  | call t name =>
    dsimp only at hstep
    split_ifs at hstep
    obtain rfl := Option.some.inj hstep
    exact h.goto s.owner nofun
  | lock t =>
    dsimp only at hstep
    split at hstep
    case h_1 name _ _ =>
      obtain rfl := Option.some.inj hstep
      exact h.goto (some t) nofun
    case h_2 u _ hpc =>
      obtain rfl := Option.some.inj hstep
      refine h.goto (some t) fun v hv => ?_
      rw [hpc]
      exact hv
    case h_3 => cases hstep
  | check t =>
    dsimp only at hstep
    split at hstep
    case h_2 => cases hstep
    case h_1 name hpc =>
      obtain rfl := Option.some.inj hstep
      cases honline : s.online.any (hasUserid directory name) with
      | true => exact h.goto none nofun
      | false =>
        -- the call goes on: its user is not online and nobody else brings him online
        have halone : ∀ u, findUserById directory name = some u →
            u ∉ s.online ∧ ∀ t', ¬ UnderWay directory u (s.pc t') := by
          intro u hu
          obtain ⟨hspelled, hothers⟩ := hcond name u hpc hu honline
          refine ⟨fun hmem => ?_, hothers⟩
          exact List.any_eq_false.1 honline u hmem (hspelled hmem)
        have hnew : ∀ t' u, UnderWay directory u (Function.update s.pc t (.allocating name) t') →
            UnderWay directory u (s.pc t') ∨ t' = t ∧ findUserById directory name = some u := by
          intro t' u ht'
          by_cases heq : t' = t
          · subst heq
            rw [Function.update_self] at ht'
            exact Or.inr ⟨rfl, ht'⟩
          · rw [Function.update_of_ne heq] at ht'
            exact Or.inl ht'
        refine ⟨h.nodup, fun t' u ht' => ?_, fun t' t'' u ht' ht'' => ?_⟩
        · rcases hnew t' u ht' with hold | ⟨-, hu⟩
          · exact h.offline t' u hold
          · exact (halone u hu).1
        · rcases hnew t' u ht' with hold | ⟨rfl, hu⟩
          · rcases hnew t'' u ht'' with hold' | ⟨-, hu⟩
            · exact h.single t' t'' u hold hold'
            · exact absurd hold ((halone u hu).2 t')
          · rcases hnew t'' u ht'' with hold' | ⟨rfl, -⟩
            · exact absurd hold' ((halone u hu).2 t'')
            · rfl
  | alloc t r =>
    dsimp only at hstep
    split at hstep
    case h_2 => cases hstep
    case h_1 name hpc =>
      split at hstep
      case h_1 =>
        obtain rfl := Option.some.inj hstep
        exact h.goto s.owner nofun
      case h_2 =>
        obtain rfl := Option.some.inj hstep
        exact h.goto s.owner nofun
      case h_3 =>
        obtain rfl := Option.some.inj hstep
        exact h.goto s.owner nofun
      case h_4 u hu =>
        obtain rfl := Option.some.inj hstep
        refine h.goto s.owner ?_
        rintro v rfl
        rw [hpc]
        exact hu
  | insert t =>
    dsimp only at hstep
    split at hstep
    case h_2 => cases hstep
    case h_1 u hpc =>
      obtain rfl := Option.some.inj hstep
      have hunder : UnderWay directory u (s.pc t) := by
        rw [hpc]
        exact rfl
      have hgoto : OnlineInv directory { s.goto t .idle with owner := none } := h.goto none nofun
      refine ⟨?_, fun t' v ht' => ?_, hgoto.single⟩
      · show (s.online ++ [u]).Nodup
        rw [← List.concat_eq_append]
        exact h.nodup.concat (h.offline t u hunder)
      · change UnderWay directory v (Function.update s.pc t .idle t') at ht'
        by_cases heq : t' = t
        · subst heq
          rw [Function.update_self] at ht'
          exact ht'.elim
        · have hold : UnderWay directory v (s.pc t') := by
            rwa [Function.update_of_ne heq] at ht'
          rintro hmem
          rcases List.mem_append.1 hmem with hmem | hmem
          · exact h.offline t' v hold hmem
          · obtain rfl := List.mem_singleton.1 hmem
            exact heq (h.single t' t v hold hunder)

/-- **At most one online guest per directory user,** in every run in which a search
that lets its call go on is for a user who is not online under another spelling
and for whom no other call is past its search. -/
theorem online_nodup (directory : List (List UInt8)) {es : List (CreateEvent τ)}
    (hrun : Run (guarded (PassesAlone directory) (CreateStep directory)) .init es s) :
    s.online.Nodup := by
  refine (hrun.invariant (P := OnlineInv directory) ?_ ?_).nodup
  · exact ⟨List.nodup_nil, nofun, nofun⟩
  · rintro s e s' h ⟨hcond, hstep⟩
    exact h.step hcond hstep

/-- The check of `PassesAlone` for a search that lets its call go on. -/
def passesAlone [Fintype τ] (directory : List (List UInt8)) (s : OnlineUsers τ) :
    CreateEvent τ → Bool
  | .check t =>
    match s.pc t with
    | .checking name =>
      match findUserById directory name with
      | some u => s.online.any (hasUserid directory name) ||
          (u ∉ s.online && decide (∀ t', ¬ UnderWay directory u (s.pc t')))
      | none => true
    | _ => true
  | _ => true

omit [DecidableEq τ] in
/-- The check of the examples is enough for the condition of the theorem. -/
theorem passesAlone_of_check [Fintype τ] (s : OnlineUsers τ) (e : CreateEvent τ)
    (h : passesAlone directory s e = true) : PassesAlone directory s e := by
  cases e with
  | check t =>
    intro name u hpc hu honline
    simp only [passesAlone, hpc, hu, honline, Bool.false_or, Bool.and_eq_true,
      decide_eq_true_eq] at h
    exact ⟨fun hmem => absurd hmem h.1, h.2⟩
  | call t name => trivial
  | lock t => trivial
  | alloc t r => trivial
  | insert t => trivial

/-- The directory with the users BOB and AMY. -/
def bobAndAmy : List (List UInt8) := [[0x42, 0x4f, 0x42], [0x41, 0x4d, 0x59]]

/-- Two tasks bring BOB and amy online, the steps of one between those of the other, and
the first is refused when it asks for BOB again. -/
def bobWhileAmy : List (CreateEvent Bool) :=
  [.call false [0x42, 0x4f, 0x42], .call true [0x61, 0x6d, 0x79], .lock false, .check false,
    .lock true, .alloc false .done, .check true, .lock false, .alloc true .done, .insert false,
    .lock true, .call false [0x42, 0x4f, 0x42], .insert true, .lock false, .check false]

/-- Two tasks log on BOB and AMY, step by step in turn: both are online once. -/
theorem online_nodup_bob : ∃ s : OnlineUsers Bool,
    Run (guarded (PassesAlone bobAndAmy) (CreateStep bobAndAmy)) .init bobWhileAmy s ∧
      s.online = [0, 1] ∧ s.online.Nodup := by
  have hsome : (bobWhileAmy.foldlM
      (fun s e => if passesAlone bobAndAmy s e then createStep bobAndAmy s e else none)
      OnlineUsers.init).map OnlineUsers.online = some [0, 1] := by decide +kernel
  obtain ⟨s, hs, honline⟩ := Option.map_eq_some_iff.1 hsome
  have hrun : Run (guarded (PassesAlone bobAndAmy) (CreateStep bobAndAmy)) .init bobWhileAmy s :=
    Run.of_checked passesAlone_of_check hs
  exact ⟨s, hrun, honline, online_nodup bobAndAmy hrun⟩

/-- The directory with the user BOB. -/
def bobsDirectory : List (List UInt8) := [[0x42, 0x4f, 0x42]]

/-- The calls of one task for BOB and then for bob. -/
def bobTwice : List (CreateEvent Unit) :=
  [.call () [0x42, 0x4f, 0x42], .lock (), .check (), .alloc () .done, .lock (), .insert (),
    .call () [0x62, 0x6f, 0x62], .lock (), .check (), .alloc () .done, .lock (), .insert ()]

/-- **BOB can be online twice**, as `BOB` and as `bob`: the search of `online_users` tells
the two apart, the directory does not. -/
theorem not_online_nodup :
    ¬ ∀ (directory : List (List UInt8)) (es : List (CreateEvent Unit)) (s : OnlineUsers Unit),
      Run (CreateStep directory) .init es s → s.online.Nodup := by
  intro hall
  have hrun : Run (CreateStep bobsDirectory) .init bobTwice _ := Run.of_foldlM rfl
  exact absurd (hall _ _ _ hrun) (by decide)

end

end Hvf
