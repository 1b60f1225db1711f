/-
# Spin locks on one CPU with interrupts

Tasks share one CPU.  Each runs straight-line code that takes and releases spin
locks, masks interrupts and restores the mask, waits for a flag and gives up the
CPU.  While interrupts are enabled another task may be given the CPU, or the
interrupt handler may start; the handler runs to its end before any task goes on.
A context whose next operation takes a held lock spins: it has no step.

`safe` are the locks that are to be held with interrupts masked and by the running
task only.  `Checked` says of a code that it does so, and `Inv` carries it along a
run: no task holds a safe lock when an interrupt can arrive, so the handler never
waits for one.
-/

import Hvf.Lib.StepRun

namespace Spin

variable {κ ι τ φ η : Type*}

/-- **One operation on locks `κ` and flags `ι`**: a spin lock is taken or given back, the
interrupt mask changed, a flag waited for or raised. -/
inductive Op (κ ι : Type*)
  | lock (l : κ)
  | unlock (l : κ)
  /-- save the interrupt mask, and disable interrupts -/
  | disable
  /-- restore the mask saved last -/
  | restore
  | clear (i : ι)
  | signal (i : ι)
  /-- wait for the flag in a loop -/
  | await (i : ι)
  /-- wait for the flag in a loop that gives up the CPU -/
  | sleep (i : ι)
  /-- give up the CPU once -/
  | block

/-- **Who holds a lock**: a task, or the interruption handler, which runs on top of one. -/
inductive Owner (τ : Type*)
  | task (t : τ)
  | handler
  deriving DecidableEq

/-- **The context of a task or of the handler**: what is left to run, the interrupt mask,
and the masks that were saved. -/
structure Ctx (κ ι : Type*) where
  code : List (Op κ ι)
  enabled : Bool
  saved : List Bool

/-- **What all contexts share**: the locks with their holders, and which operations are
done. -/
structure Shared (κ ι τ : Type*) where
  holder : κ → Option (Owner τ)
  done : ι → Bool

/-- **The state of one processor**: the tasks' code, the task that runs, and the handler where
an interruption is being handled. -/
structure State (κ ι τ : Type*) extends Shared κ ι τ where
  ctx : τ → Ctx κ ι
  current : τ
  handler : Option (Ctx κ ι)

/-- An event: the code that has the CPU goes on, a task calls a function or sets
its mask while in none, the CPU is given to another task, an interrupt arrives. -/
inductive Event (φ η τ : Type*)
  | run
  | call (f : φ)
  | mask (enabled : Bool)
  | switch (t : τ)
  | preempt (t : τ)
  | interrupt (h : η)

/-! ### States -/

/-- The task that has the CPU. -/
def State.self (s : State κ ι τ) : Ctx κ ι := s.ctx s.current

/-- The handler is about to take a lock that a task holds. -/
def State.Deadlocked (s : State κ ι τ) : Prop :=
  ∃ c l code t, s.handler = some c ∧ c.code = .lock l :: code ∧ s.holder l = some (.task t)

/-- No task holds a lock that the handler is yet to take. -/
def State.Clear (s : State κ ι τ) : Prop :=
  ∀ c, s.handler = some c → ∀ l, .lock l ∈ c.code → ∀ t, s.holder l ≠ some (.task t)

/-- A clear state is not a deadlock. -/
theorem State.Clear.not_deadlocked {s : State κ ι τ} (h : s.Clear) : ¬ s.Deadlocked := by
  rintro ⟨c, l, code, t, hhandler, hcode, hheld⟩
  exact h c hhandler l (by rw [hcode]; exact List.mem_cons_self ..) t hheld

variable [DecidableEq κ]

/-! ### The discipline -/

/-- Code that, from the locks `held` and the mask on, takes safe locks with
interrupts disabled only, keeps them so, gives up the CPU without them, and ends
without a lock and with the mask it began with. -/
def Checked (safe : κ → Prop) : List κ → Bool → List Bool → List (Op κ ι) → Prop
  | held, _, saved, [] => held = [] ∧ saved = []
  | held, enabled, saved, .lock l :: code =>
    l ∉ held ∧ (safe l → enabled = false) ∧ Checked safe (l :: held) enabled saved code
  | held, enabled, saved, .unlock l :: code =>
    l ∈ held ∧ Checked safe (held.erase l) enabled saved code
  | held, enabled, saved, .disable :: code => Checked safe held false (enabled :: saved) code
  | held, _, enabled :: saved, .restore :: code =>
    (enabled = true → ∀ l ∈ held, ¬ safe l) ∧ Checked safe held enabled saved code
  | _, _, [], .restore :: _ => False
  | held, enabled, saved, .clear _ :: code => Checked safe held enabled saved code
  | held, enabled, saved, .signal _ :: code => Checked safe held enabled saved code
  | held, enabled, saved, .await _ :: code => Checked safe held enabled saved code
  | held, enabled, saved, .sleep _ :: code =>
    (∀ l ∈ held, ¬ safe l) ∧ Checked safe held enabled saved code
  | held, enabled, saved, .block :: code =>
    (∀ l ∈ held, ¬ safe l) ∧ Checked safe held enabled saved code

/-- Code that may stand before any checked code. -/
def Neutral (safe : κ → Prop) (held : List κ) (enabled : Bool) (a : List (Op κ ι)) : Prop :=
  ∀ saved code, Checked safe held enabled saved code → Checked safe held enabled saved (a ++ code)

section Neutral

variable {safe : κ → Prop} {held : List κ} {enabled : Bool} {a b : List (Op κ ι)}

/-- No operation is neutral. -/
theorem Neutral.nil : Neutral safe held enabled ([] : List (Op κ ι)) := fun _ _ h => h

/-- Neutral operations one after the other are neutral. -/
theorem Neutral.append (ha : Neutral safe held enabled a) (hb : Neutral safe held enabled b) :
    Neutral safe held enabled (a ++ b) := fun saved code h => by
  rw [List.append_assoc]
  exact ha _ _ (hb _ _ h)

/-- Neutral operations for each of a list are neutral. -/
theorem Neutral.flatMap {α : Type*} {f : α → List (Op κ ι)} {xs : List α}
    (h : ∀ x ∈ xs, Neutral safe held enabled (f x)) :
    Neutral safe held enabled (xs.flatMap f) := by
  induction xs with
  | nil => exact Neutral.nil
  | cons x xs ih =>
    rw [List.flatMap_cons]
    exact (h x (List.mem_cons_self ..)).append (ih fun y hy => h y (List.mem_cons_of_mem _ hy))

/-- A section under a lock. -/
theorem Neutral.section {l : κ} (hnot : l ∉ held) (hsafe : safe l → enabled = false)
    (ha : Neutral safe (l :: held) enabled a) :
    Neutral safe held enabled (.lock l :: a ++ [.unlock l]) := fun saved code h => by
  rw [List.cons_append, List.cons_append, List.append_assoc]
  refine ⟨hnot, hsafe, ha _ _ ⟨List.mem_cons_self .., ?_⟩⟩
  rw [List.erase_cons_head]
  exact h

/-- A section with interrupts disabled. -/
theorem Neutral.masked (hheld : enabled = true → ∀ l ∈ held, ¬ safe l)
    (ha : Neutral safe held false a) :
    Neutral safe held enabled (.disable :: a ++ [.restore]) := fun saved code h => by
  rw [List.cons_append, List.cons_append, List.append_assoc]
  exact ha _ _ ⟨hheld, h⟩

/-- Neutral operations keep the discipline when nothing is held around them. -/
theorem Neutral.checked (h : Neutral safe [] enabled a) : Checked safe [] enabled [] a := by
  have := h [] [] ⟨rfl, rfl⟩
  rwa [List.append_nil] at this

end Neutral

/-! ### The invariant -/

/-- **What a context holds, and that the rest of its code is checked**: run from here, it
takes no lock it has, and gives back what it takes. -/
structure Owns (safe : κ → Prop) (holder : κ → Option (Owner τ)) (o : Owner τ) (c : Ctx κ ι)
    (held : List κ) : Prop where
  nodup : held.Nodup
  holds : ∀ l, holder l = some o ↔ l ∈ held
  checked : Checked safe held c.enabled c.saved c.code
  masked : c.enabled = true → ∀ l ∈ held, ¬ safe l

/-- Only the task that has the CPU may hold a safe lock, and not while interrupts
are enabled or the handler runs. -/
structure Inv (safe : κ → Prop) (s : State κ ι τ) : Prop where
  task : ∀ t, ∃ held, Owns safe s.holder (.task t) (s.ctx t) held ∧
    (t ≠ s.current → ∀ l ∈ held, ¬ safe l)
  idle : s.handler = none → ∀ l, s.holder l ≠ some .handler
  handler : ∀ c, s.handler = some c → s.self.enabled = true ∧
    ∃ held, Owns safe s.holder .handler c held

variable {safe : κ → Prop}

/-- What an owner holds depends on which locks are its own. -/
theorem Owns.frame {holder holder' : κ → Option (Owner τ)} {o : Owner τ} {c : Ctx κ ι}
    {held : List κ} (h : Owns safe holder o c held)
    (hframe : ∀ l, holder' l = some o ↔ holder l = some o) : Owns safe holder' o c held :=
  ⟨h.nodup, fun l => (hframe l).trans (h.holds l), h.checked, h.masked⟩

/-- An owner with no code left holds nothing. -/
theorem Owns.idle {holder : κ → Option (Owner τ)} {o : Owner τ} {c : Ctx κ ι} {held : List κ}
    (h : Owns safe holder o c held) (hcode : c.code = []) : held = [] ∧ c.saved = [] := by
  have hchecked := h.checked
  rwa [hcode] at hchecked

/-- The CPU is given to another task. -/
theorem Inv.give {s : State κ ι τ} (h : Inv safe s) (hhandler : s.handler = none)
    (hsafe : ∀ held, Owns safe s.holder (.task s.current) s.self held → ∀ l ∈ held, ¬ safe l)
    (t : τ) : Inv safe { s with current := t } where
  task t' := by
    obtain ⟨held, howns, hother⟩ := h.task t'
    refine ⟨held, howns, fun _ => ?_⟩
    rcases eq_or_ne t' s.current with rfl | hne
    · exact hsafe held howns
    · exact hother hne
  idle := h.idle
  handler c hc := absurd (hhandler.symm.trans hc) (by simp)

/-- While interrupts are enabled no task holds a safe lock. -/
theorem Inv.free {s : State κ ι τ} (h : Inv safe s) (henabled : s.self.enabled = true) {l : κ}
    (hl : safe l) (t : τ) : s.holder l ≠ some (.task t) := by
  intro hheld
  obtain ⟨held, howns, hother⟩ := h.task t
  have hmem := (howns.holds l).1 hheld
  rcases eq_or_ne t s.current with rfl | hne
  · exact howns.masked henabled l hmem hl
  · exact hother hne l hmem hl

/-! ### Steps -/

variable [DecidableEq ι]

/-- The effect of an operation; `none` where it waits. -/
def Op.exec (o : Owner τ) (c : Ctx κ ι) (s : Shared κ ι τ) :
    Op κ ι → Option (Ctx κ ι × Shared κ ι τ)
  | .lock l =>
    match s.holder l with
    | none => some (c, { s with holder := Function.update s.holder l (some o) })
    | some _ => none
  | .unlock l => some (c, { s with holder := Function.update s.holder l none })
  | .disable => some ({ c with enabled := false, saved := c.enabled :: c.saved }, s)
  | .restore =>
    match c.saved with
    | enabled :: saved => some ({ c with enabled, saved }, s)
    | [] => none
  | .clear i => some (c, { s with done := Function.update s.done i false })
  | .signal i => some (c, { s with done := Function.update s.done i true })
  | .await i => if s.done i then some (c, s) else none
  | .sleep i => if s.done i then some (c, s) else none
  | .block => none

/-- An operation does not change the code behind it. -/
theorem Op.exec_code {o : Owner τ} {c c' : Ctx κ ι} {s s' : Shared κ ι τ} {op : Op κ ι}
    (h : op.exec o c s = some (c', s')) : c'.code = c.code := by
  cases op with
  | lock l =>
    simp only [Op.exec] at h
    split at h
    case h_1 => rw [(Prod.mk.inj (Option.some.inj h)).1]
    case h_2 => cases h
  | restore =>
    simp only [Op.exec] at h
    split at h
    case h_1 => rw [← (Prod.mk.inj (Option.some.inj h)).1]
    case h_2 => cases h
  | await i =>
    simp only [Op.exec] at h
    split at h
    case isTrue => rw [(Prod.mk.inj (Option.some.inj h)).1]
    case isFalse => cases h
  | sleep i =>
    simp only [Op.exec] at h
    split at h
    case isTrue => rw [(Prod.mk.inj (Option.some.inj h)).1]
    case isFalse => cases h
  | block => cases h
  | _ => rw [← (Prod.mk.inj (Option.some.inj h)).1]

/-- **One operation** keeps what its context holds in line with the rest of the
code, and the locks of the others. -/
theorem Owns.exec {o : Owner τ} {c c' : Ctx κ ι} {s s' : Shared κ ι τ} {op : Op κ ι}
    {code : List (Op κ ι)} {held : List κ}
    (h : Owns safe s.holder o c held) (hcode : c.code = op :: code)
    (hexec : op.exec o { c with code } s = some (c', s')) :
    (∃ held', Owns safe s'.holder o c' held') ∧
      ∀ o' ≠ o, ∀ l, s'.holder l = some o' ↔ s.holder l = some o' := by
  have hchecked := h.checked
  rw [hcode] at hchecked
  cases op with
  | lock l =>
    obtain ⟨hnot, hsafe, hrest⟩ := hchecked
    simp only [Op.exec] at hexec
    split at hexec
    case h_1 hfree =>
      obtain ⟨rfl, rfl⟩ := Prod.mk.inj (Option.some.inj hexec)
      refine ⟨⟨l :: held, List.nodup_cons.2 ⟨hnot, h.nodup⟩, fun l' => ?_, hrest, ?_⟩, ?_⟩
      · rcases eq_or_ne l' l with rfl | hne
        · simp
        · simp [hne, h.holds]
      · intro henabled l' hl'
        rcases List.mem_cons.1 hl' with rfl | hl'
        · intro hl
          exact absurd (henabled.symm.trans (hsafe hl)) (by decide)
        · exact h.masked henabled l' hl'
      · intro o' ho' l'
        rcases eq_or_ne l' l with rfl | hne
        · simp [hfree, ho'.symm]
        · simp [Function.update_of_ne hne]
    case h_2 => cases hexec
  | unlock l =>
    obtain ⟨hmem, hrest⟩ := hchecked
    obtain ⟨rfl, rfl⟩ := Prod.mk.inj (Option.some.inj hexec)
    have hheld := (h.holds l).2 hmem
    refine ⟨⟨held.erase l, h.nodup.erase l, fun l' => ?_, hrest, fun henabled l' hl' =>
      h.masked henabled l' (List.mem_of_mem_erase hl')⟩, ?_⟩
    · rw [h.nodup.mem_erase_iff]
      rcases eq_or_ne l' l with rfl | hne
      · simp
      · simp [hne, h.holds]
    · intro o' ho' l'
      rcases eq_or_ne l' l with rfl | hne
      · simp [hheld, ho'.symm]
      · simp [Function.update_of_ne hne]
  | disable =>
    obtain ⟨rfl, rfl⟩ := Prod.mk.inj (Option.some.inj hexec)
    exact ⟨⟨held, h.nodup, h.holds, hchecked, fun henabled => absurd henabled Bool.false_ne_true⟩,
      fun _ _ _ => Iff.rfl⟩
  | restore =>
    simp only [Op.exec] at hexec
    split at hexec
    case h_1 enabled saved hsaved =>
      obtain ⟨rfl, rfl⟩ := Prod.mk.inj (Option.some.inj hexec)
      rw [show c.saved = enabled :: saved from hsaved] at hchecked
      exact ⟨⟨held, h.nodup, h.holds, hchecked.2, hchecked.1⟩, fun _ _ _ => Iff.rfl⟩
    case h_2 => cases hexec
  | clear i =>
    obtain ⟨rfl, rfl⟩ := Prod.mk.inj (Option.some.inj hexec)
    exact ⟨⟨held, h.nodup, h.holds, hchecked, h.masked⟩, fun _ _ _ => Iff.rfl⟩
  | signal i =>
    obtain ⟨rfl, rfl⟩ := Prod.mk.inj (Option.some.inj hexec)
    exact ⟨⟨held, h.nodup, h.holds, hchecked, h.masked⟩, fun _ _ _ => Iff.rfl⟩
  | await i =>
    simp only [Op.exec] at hexec
    split at hexec
    case isTrue =>
      obtain ⟨rfl, rfl⟩ := Prod.mk.inj (Option.some.inj hexec)
      exact ⟨⟨held, h.nodup, h.holds, hchecked, h.masked⟩, fun _ _ _ => Iff.rfl⟩
    case isFalse => cases hexec
  | sleep i =>
    simp only [Op.exec] at hexec
    split at hexec
    case isTrue =>
      obtain ⟨rfl, rfl⟩ := Prod.mk.inj (Option.some.inj hexec)
      exact ⟨⟨held, h.nodup, h.holds, hchecked.2, h.masked⟩, fun _ _ _ => Iff.rfl⟩
    case isFalse => cases hexec
  | block => cases hexec

variable [DecidableEq τ]

/-- The context of the task that runs, replaced. -/
def State.setSelf (s : State κ ι τ) (c : Ctx κ ι) : State κ ι τ :=
  { s with ctx := Function.update s.ctx s.current c }

/-- The step of an event, for the functions `body` and the handler `entry`. -/
def State.step (body : φ → List (Op κ ι)) (entry : η → List (Op κ ι)) (s : State κ ι τ) :
    Event φ η τ → Option (State κ ι τ)
  | .run =>
    match s.handler with
    | some c =>
      match c.code with
      | [] => some { s with handler := none }
      | op :: code =>
        (op.exec .handler { c with code } s.toShared).map fun r =>
          { s with toShared := r.2, handler := some r.1 }
    | none =>
      match s.self.code with
      | [] => none
      | op :: code =>
        (op.exec (.task s.current) { s.self with code } s.toShared).map fun r =>
          { s.setSelf r.1 with toShared := r.2 }
  | .call f =>
    if s.handler.isNone && s.self.code.isEmpty then some (s.setSelf { s.self with code := body f })
    else none
  | .mask enabled =>
    if s.handler.isNone && s.self.code.isEmpty then some (s.setSelf { s.self with enabled })
    else none
  | .switch t =>
    if s.handler.isNone then
      match s.self.code with
      | [] => some { s with current := t }
      | .sleep _ :: _ => some { s with current := t }
      | .block :: code => some { s.setSelf { s.self with code } with current := t }
      | _ => none
    else none
  | .preempt t => if s.handler.isNone && s.self.enabled then some { s with current := t } else none
  | .interrupt h =>
    if s.handler.isNone && s.self.enabled then some { s with handler := some ⟨entry h, false, []⟩ }
    else none

/-- **Nothing happens any more.** -/
theorem State.Deadlocked.stuck {body : φ → List (Op κ ι)} {entry : η → List (Op κ ι)}
    {s : State κ ι τ} (h : s.Deadlocked) (e : Event φ η τ) : s.step body entry e = none := by
  obtain ⟨c, l, code, t, hhandler, hcode, hheld⟩ := h
  cases e with
  | run =>
    unfold State.step
    simp only [hhandler, hcode, Op.exec, hheld, Option.map_none]
  | call f => simp [State.step, hhandler]
  | mask b => simp [State.step, hhandler]
  | switch t => simp [State.step, hhandler]
  | preempt t => simp [State.step, hhandler]
  | interrupt h => simp [State.step, hhandler]

/-! ### Runs -/

omit [DecidableEq ι] in
/-- The task that has the CPU goes on. -/
theorem Inv.setSelf {s : State κ ι τ} (h : Inv safe s) (hhandler : s.handler = none)
    {c : Ctx κ ι} {r : Shared κ ι τ} {held : List κ}
    (hself : Owns safe r.holder (.task s.current) c held)
    (hframe : ∀ o ≠ .task s.current, ∀ l, r.holder l = some o ↔ s.holder l = some o) :
    Inv safe { s.setSelf c with toShared := r } where
  task t := by
    rcases eq_or_ne t s.current with rfl | hne
    · refine ⟨held, ?_, fun hne => absurd rfl hne⟩
      show Owns safe r.holder _ (Function.update s.ctx s.current c s.current) held
      rw [Function.update_self]
      exact hself
    · obtain ⟨held', howns, hsafe⟩ := h.task t
      refine ⟨held', ?_, hsafe⟩
      show Owns safe r.holder _ (Function.update s.ctx s.current c t) held'
      rw [Function.update_of_ne hne]
      exact howns.frame (hframe _ fun heq => hne (Owner.task.inj heq))
  idle _ l hl := h.idle hhandler l ((hframe _ (fun heq => by cases heq) l).1 hl)
  handler c' hc' := absurd (hhandler.symm.trans hc') (by simp)

/-- **One step keeps the invariant.** -/
theorem Inv.step {body : φ → List (Op κ ι)} {entry : η → List (Op κ ι)} {s s' : State κ ι τ}
    {e : Event φ η τ} (h : Inv safe s)
    (hcall : ∀ f, e = .call f → Checked safe [] s.self.enabled [] (body f))
    (hentry : ∀ i, Checked safe [] false [] (entry i)) (hstep : s.step body entry e = some s') :
    Inv safe s' := by
  obtain ⟨held, howns, -⟩ := h.task s.current
  cases e with
  | run =>
    simp only [State.step] at hstep
    split at hstep
    case h_1 c hhandler =>
      obtain ⟨henabled, heldH, hownsH⟩ := h.handler c hhandler
      split at hstep
      case h_1 hcode =>
        obtain rfl := Option.some.inj hstep
        obtain ⟨rfl, -⟩ := hownsH.idle hcode
        exact ⟨h.task, fun _ l hl => List.not_mem_nil ((hownsH.holds l).1 hl),
          fun _ hc => by cases hc⟩
      case h_2 op code hcode =>
        obtain ⟨⟨c', sh⟩, hexec, rfl⟩ := Option.map_eq_some_iff.1 hstep
        obtain ⟨hown', hframe⟩ := hownsH.exec hcode hexec
        refine ⟨fun t => ?_, fun hnone => (by cases hnone), fun c₂ hc₂ => ?_⟩
        · obtain ⟨held', howns', hsafe⟩ := h.task t
          exact ⟨held', howns'.frame (hframe _ fun heq => by cases heq), hsafe⟩
        · obtain rfl := Option.some.inj hc₂
          exact ⟨henabled, hown'⟩
    case h_2 hhandler =>
      split at hstep
      case h_1 => cases hstep
      case h_2 op code hcode =>
        obtain ⟨⟨c', sh⟩, hexec, rfl⟩ := Option.map_eq_some_iff.1 hstep
        obtain ⟨⟨held', hown'⟩, hframe⟩ := howns.exec hcode hexec
        exact h.setSelf hhandler hown' hframe
  | call f =>
    simp only [State.step, Bool.and_eq_true, Option.isNone_iff_eq_none, List.isEmpty_iff] at hstep
    split at hstep
    case isTrue hidle =>
      obtain rfl := Option.some.inj hstep
      obtain ⟨rfl, hsaved⟩ := howns.idle hidle.2
      refine h.setSelf hidle.1 (r := s.toShared) ⟨howns.nodup, howns.holds, ?_, howns.masked⟩
        fun _ _ _ => Iff.rfl
      show Checked safe [] s.self.enabled s.self.saved (body f)
      rw [show s.self.saved = [] from hsaved]
      exact hcall f rfl
    case isFalse => cases hstep
  | mask enabled =>
    simp only [State.step, Bool.and_eq_true, Option.isNone_iff_eq_none, List.isEmpty_iff] at hstep
    split at hstep
    case isTrue hidle =>
      obtain rfl := Option.some.inj hstep
      obtain ⟨rfl, hsaved⟩ := howns.idle hidle.2
      refine h.setSelf hidle.1 (r := s.toShared) ⟨howns.nodup, howns.holds, ?_,
        fun _ l hl => absurd hl List.not_mem_nil⟩ fun _ _ _ => Iff.rfl
      show Checked safe [] enabled s.self.saved s.self.code
      rw [hidle.2]
      exact ⟨rfl, hsaved⟩
    case isFalse => cases hstep
  | switch t =>
    simp only [State.step, Option.isNone_iff_eq_none] at hstep
    split at hstep
    case isTrue hhandler =>
      split at hstep
      case h_1 hcode =>
        obtain rfl := Option.some.inj hstep
        refine h.give hhandler (fun held' howns' l hl => ?_) t
        obtain ⟨rfl, -⟩ := howns'.idle hcode
        exact absurd hl List.not_mem_nil
      case h_2 i code hcode =>
        obtain rfl := Option.some.inj hstep
        refine h.give hhandler (fun held' howns' l hl => ?_) t
        have hchecked := howns'.checked
        rw [hcode] at hchecked
        exact hchecked.1 l hl
      case h_3 code hcode =>
        obtain rfl := Option.some.inj hstep
        have hchecked := howns.checked
        rw [show (s.ctx s.current).code = .block :: code from hcode] at hchecked
        have hself := h.setSelf hhandler (c := { s.self with code }) (r := s.toShared)
          ⟨howns.nodup, howns.holds, hchecked.2, howns.masked⟩ fun _ _ _ => Iff.rfl
        refine hself.give hhandler (fun held' howns' l hl => ?_) t
        exact hchecked.1 l ((howns.holds l).1 ((howns'.holds l).2 hl))
      case h_4 => cases hstep
    case isFalse => cases hstep
  | preempt t =>
    simp only [State.step, Bool.and_eq_true, Option.isNone_iff_eq_none] at hstep
    split at hstep
    case isTrue hidle =>
      obtain rfl := Option.some.inj hstep
      exact h.give hidle.1 (fun held' howns' => howns'.masked hidle.2) t
    case isFalse => cases hstep
  | interrupt i =>
    simp only [State.step, Bool.and_eq_true, Option.isNone_iff_eq_none] at hstep
    split at hstep
    case isTrue hidle =>
      obtain rfl := Option.some.inj hstep
      refine ⟨h.task, fun hnone => (by cases hnone), fun c hc => ?_⟩
      obtain rfl := Option.some.inj hc
      exact ⟨hidle.2, [], List.nodup_nil, fun l => by simp [h.idle hidle.1 l], hentry i,
        fun _ l hl => absurd hl List.not_mem_nil⟩
    case isFalse => cases hstep

/-- The handler starts with an interrupt only. -/
theorem State.step_handler {body : φ → List (Op κ ι)} {entry : η → List (Op κ ι)}
    {s s' : State κ ι τ} {e : Event φ η τ} (hhandler : s.handler = none)
    (hstep : s.step body entry e = some s') :
    s'.handler = none ∨
      ∃ i, e = .interrupt i ∧ s.self.enabled = true ∧
        s' = { s with handler := some ⟨entry i, false, []⟩ } := by
  cases e with
  | run =>
    simp only [State.step, hhandler] at hstep
    split at hstep
    case h_1 => cases hstep
    case h_2 op code hcode =>
      obtain ⟨r, -, rfl⟩ := Option.map_eq_some_iff.1 hstep
      exact Or.inl hhandler
  | interrupt i =>
    simp only [State.step, Bool.and_eq_true, Option.isNone_iff_eq_none] at hstep
    split at hstep
    case isTrue hidle => exact Or.inr ⟨i, rfl, hidle.2, (Option.some.inj hstep).symm⟩
    case isFalse => cases hstep
  | switch t =>
    rw [State.step, if_pos (Option.isNone_iff_eq_none.2 hhandler)] at hstep
    split at hstep
    case h_4 => cases hstep
    all_goals
      obtain rfl := Option.some.inj hstep
      exact Or.inl hhandler
  | _ =>
    simp only [State.step] at hstep
    split at hstep
    case isTrue =>
      obtain rfl := Option.some.inj hstep
      exact Or.inl hhandler
    case isFalse => cases hstep

/-- **The handler never waits for a task** if, when it starts, no task holds one of
its locks that are not safe. -/
theorem State.Clear.step {body : φ → List (Op κ ι)} {entry : η → List (Op κ ι)}
    {s s' : State κ ι τ} {e : Event φ η τ} (h : s.Clear) (hinv : Inv safe s)
    (hstart : ∀ i, e = .interrupt i → ∀ l, .lock l ∈ entry i → ¬ safe l →
      ∀ t, s.holder l ≠ some (.task t))
    (hstep : s.step body entry e = some s') : s'.Clear := by
  intro c' hc' l hl t
  cases hhandler : s.handler with
  | none =>
    rcases s.step_handler hhandler hstep with hnone | ⟨i, he, henabled, rfl⟩
    · exact absurd (hnone.symm.trans hc') (by simp)
    · obtain rfl := Option.some.inj hc'
      by_cases hsafe : safe l
      · exact hinv.free henabled hsafe t
      · exact hstart i he l hl hsafe t
  | some c =>
    obtain ⟨-, held, hownsH⟩ := hinv.handler c hhandler
    cases e with
    | run =>
      simp only [State.step, hhandler] at hstep
      split at hstep
      case h_1 =>
        obtain rfl := Option.some.inj hstep
        cases hc'
      case h_2 op code hcode =>
        obtain ⟨⟨c₂, r⟩, hexec, rfl⟩ := Option.map_eq_some_iff.1 hstep
        obtain rfl := Option.some.inj hc'
        obtain ⟨-, hframe⟩ := hownsH.exec hcode hexec
        intro hheld
        refine h c hhandler l ?_ t ((hframe _ (fun heq => by cases heq) l).1 hheld)
        have hrest : c₂.code = code := Op.exec_code hexec
        rw [hcode]
        exact List.mem_cons_of_mem _ (hrest ▸ hl)
    | _ =>
      simp only [State.step, hhandler, Option.isNone_some, Bool.false_and, Bool.false_eq_true,
        if_false] at hstep
      cases hstep

end Spin
