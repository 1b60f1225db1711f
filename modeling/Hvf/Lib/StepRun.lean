/-
# Runs of a labelled step relation

A system is a relation `step t l u`: in state `t` the event `l` can happen and
leaves the state `u`.  `Run step s ls t` says that the events `ls`, in order,
lead from `s` to `t`; a statement about the last state of every run is a
statement about every state reached, because each prefix of a run is a run.

An invariant is proved once for one step and carried along by `Run.invariant`.
Where the property also speaks about the events seen so far, `Run.history`
carries both.  `guarded` keeps only the steps that meet a condition on the
state before the step and the event.
-/

import Mathlib.Tactic

namespace StepRun

variable {σ ℓ : Type*} {step : σ → ℓ → σ → Prop}

/-- **The runs of a step relation.** The events `ls` lead from `s` to the indexed state, the
last step at the end, so that an induction on a run proves what a step more keeps. -/
inductive Run (step : σ → ℓ → σ → Prop) (s : σ) : List ℓ → σ → Prop
  | nil : Run step s [] s
  | snoc {ls t l u} : Run step s ls t → step t l u → Run step s (ls ++ [l]) u

/-- The steps of `step` that meet `cond`. -/
def guarded (cond : σ → ℓ → Prop) (step : σ → ℓ → σ → Prop) : σ → ℓ → σ → Prop :=
  fun s l t => cond s l ∧ step s l t

/-- **The induction on runs, with the events seen so far.** -/
theorem Run.history {P : List ℓ → σ → Prop} {s t : σ} {ls : List ℓ} (hrun : Run step s ls t)
    (hinit : P [] s) (hstep : ∀ ls t l u, P ls t → step t l u → P (ls ++ [l]) u) : P ls t := by
  induction hrun with
  | nil => exact hinit
  | snoc _ hlast ih => exact hstep _ _ _ _ ih hlast

/-- **The induction on runs.**  What holds at the start and is kept by every
step holds in every state reached. -/
theorem Run.invariant {P : σ → Prop} {s t : σ} {ls : List ℓ} (hrun : Run step s ls t)
    (hinit : P s) (hstep : ∀ t l u, P t → step t l u → P u) : P t :=
  hrun.history (P := fun _ t => P t) hinit fun _ t l u => hstep t l u

/-- A guarded run is a run. -/
theorem Run.of_guarded {cond : σ → ℓ → Prop} {s t : σ} {ls : List ℓ}
    (hrun : Run (guarded cond step) s ls t) : Run step s ls t := by
  induction hrun with
  | nil => exact Run.nil
  | snoc _ hlast ih => exact Run.snoc ih hlast.2

/-- A guarded run and one event more, whose condition holds. -/
theorem Run.event {cond : σ → ℓ → Prop} {s t u : σ} {ls : List ℓ}
    (hrun : Run (guarded cond step) s ls t) (l : ℓ) (hcond : cond t l) (hstep : step t l u) :
    Run (guarded cond step) s (ls ++ [l]) u :=
  hrun.snoc ⟨hcond, hstep⟩

/-- A run is guarded by a condition that its labels meet in every state. -/
theorem Run.to_guarded {cond : σ → ℓ → Prop} {s t : σ} {ls : List ℓ} (hrun : Run step s ls t)
    (hcond : ∀ u, ∀ l ∈ ls, cond u l) : Run (guarded cond step) s ls t := by
  induction hrun with
  | nil => exact Run.nil
  | snoc _ hlast ih =>
    exact Run.snoc (ih fun u l hl => hcond u l (List.mem_append_left _ hl))
      ⟨hcond _ _ (List.mem_append_right _ (List.mem_singleton_self _)), hlast⟩

/-- One run behind the other. -/
theorem Run.append {s t u : σ} {ls ls' : List ℓ} (hrun : Run step s ls t)
    (hrun' : Run step t ls' u) : Run step s (ls ++ ls') u := by
  induction hrun' with
  | nil => rwa [List.append_nil]
  | snoc _ hlast ih =>
    rw [← List.append_assoc]
    exact Run.snoc ih hlast

/-- **Simulation.**  Where every step can be followed in a related state, every run can. -/
theorem Run.simulate {τ : Type*} {step' : τ → ℓ → τ → Prop} {R : σ → τ → Prop}
    (hstep : ∀ s t l s', R s t → step s l s' → ∃ t', step' t l t' ∧ R s' t') {s s' : σ} {t : τ}
    {ls : List ℓ} (hrel : R s t) (hrun : Run step s ls s') :
    ∃ t', Run step' t ls t' ∧ R s' t' := by
  induction hrun with
  | nil => exact ⟨t, Run.nil, hrel⟩
  | snoc _ hlast ih =>
    obtain ⟨t₁, hrun₁, hrel₁⟩ := ih
    obtain ⟨t', hlast', hrel'⟩ := hstep _ _ _ _ hrel₁ hlast
    exact ⟨t', Run.snoc hrun₁ hlast', hrel'⟩

/-- **Projection.**  Where an event that is not seen leaves the view alone, and one that is
seen is a step of what is viewed, the events that are seen are a run of that. -/
theorem Run.project {τ κ : Type*} {step' : τ → κ → τ → Prop} {view : σ → τ} {seen : ℓ → Option κ}
    {P : σ → Prop} (hkeep : ∀ s l u, P s → step s l u → P u)
    (hnone : ∀ s l u, P s → step s l u → seen l = none → view u = view s)
    (hsome : ∀ s l u k, P s → step s l u → seen l = some k → step' (view s) k (view u))
    {s t : σ} {ls : List ℓ} (hs : P s) (hrun : Run step s ls t) :
    P t ∧ Run step' (view s) (ls.filterMap seen) (view t) := by
  induction hrun with
  | nil => exact ⟨hs, Run.nil⟩
  | @snoc ls t l u _ hlast ih =>
    obtain ⟨ht, hview⟩ := ih
    refine ⟨hkeep t l u ht hlast, ?_⟩
    rw [List.filterMap_append]
    cases hl : seen l with
    | none =>
      rw [hnone t l u ht hlast hl, List.filterMap_cons_none hl, List.filterMap_nil, List.append_nil]
      exact hview
    | some k =>
      rw [List.filterMap_cons_some hl, List.filterMap_nil]
      exact Run.snoc hview (hsome t l u k ht hlast hl)

/-- The runs of a step that is a function. -/
theorem Run.of_foldlM {f : σ → ℓ → Option σ} {s t : σ} {ls : List ℓ}
    (h : ls.foldlM f s = some t) : Run (fun s l u => f s l = some u) s ls t := by
  induction ls using List.reverseRecOn generalizing t with
  | nil =>
    obtain rfl := Option.some.inj h
    exact Run.nil
  | append_singleton ls l ih =>
    rw [List.foldlM_append] at h
    obtain ⟨u, hfirst, hlast⟩ := Option.bind_eq_some_iff.1 h
    rw [List.foldlM_cons] at hlast
    obtain ⟨v, hstep, hv⟩ := Option.bind_eq_some_iff.1 hlast
    obtain rfl := Option.some.inj hv
    exact Run.snoc (ih hfirst) hstep

/-- A run of one relation is a run of any that has its steps. -/
theorem Run.mono {step' : σ → ℓ → σ → Prop} (hstep : ∀ s l t, step s l t → step' s l t) {s t : σ}
    {ls : List ℓ} (hrun : Run step s ls t) : Run step' s ls t := by
  induction hrun with
  | nil => exact Run.nil
  | snoc _ hlast ih => exact Run.snoc ih (hstep _ _ _ hlast)

/-- **A guarded run by evaluation.**  Where `check` decides enough of the condition, a
run of a step that is a function is evaluated with the check before each event. -/
theorem Run.of_checked {cond : σ → ℓ → Prop} {f : σ → ℓ → Option σ} {check : σ → ℓ → Bool}
    (hcheck : ∀ s l, check s l = true → cond s l) {s t : σ} {ls : List ℓ}
    (h : ls.foldlM (fun s l => if check s l then f s l else none) s = some t) :
    Run (guarded cond fun s l u => f s l = some u) s ls t := by
  refine (Run.of_foldlM h).mono fun s l u hstep => ?_
  split_ifs at hstep with hok
  exact ⟨hcheck s l hok, hstep⟩

/-- **A run that fails** does so with the last of some first events. -/
theorem foldlM_eq_error {ε : Type*} {f : σ → ℓ → Except ε σ} {s : σ} {ls : List ℓ} {e : ε} :
    ls.foldlM f s = .error e ↔
      ∃ ls' l t, ls' ++ [l] <+: ls ∧ ls'.foldlM f s = .ok t ∧ f t l = .error e := by
  induction ls generalizing s with
  | nil =>
    refine iff_of_false nofun ?_
    rintro ⟨ls', l, t, hpre, -⟩
    simpa using List.prefix_nil.1 hpre
  | cons l ls ih =>
    rw [List.foldlM_cons]
    constructor
    · intro h
      rcases hl : f s l with e' | t
      · rw [hl] at h
        obtain rfl := Except.error.inj h
        exact ⟨[], l, s, List.prefix_append [l] ls, rfl, hl⟩
      · rw [hl] at h
        obtain ⟨ls', l', u, hpre, hfirst, hlast⟩ := ih.1 h
        refine ⟨l :: ls', l', u, (List.prefix_cons_inj l).2 hpre, ?_, hlast⟩
        rw [List.foldlM_cons, hl]
        exact hfirst
    · rintro ⟨ls', l', u, hpre, hfirst, hlast⟩
      cases ls' with
      | nil =>
        obtain ⟨rfl, -⟩ := List.cons_prefix_cons.1 hpre
        obtain rfl := Except.ok.inj hfirst
        rw [hlast]
        rfl
      | cons l₁ ls' =>
        obtain ⟨rfl, hpre'⟩ := List.cons_prefix_cons.1 hpre
        rw [List.foldlM_cons] at hfirst
        rcases hl : f s l₁ with e' | t
        · rw [hl] at hfirst
          exact nomatch hfirst
        · rw [hl] at hfirst
          exact ih.2 ⟨ls', l', u, hpre', hfirst, hlast⟩

/-- Where an event determines the state after it, a list of events does. -/
theorem Run.deterministic (hdet : ∀ t l u u', step t l u → step t l u' → u = u') {s t t' : σ}
    {ls : List ℓ} (hrun : Run step s ls t) (hrun' : Run step s ls t') : t = t' := by
  induction hrun generalizing t' with
  | nil =>
    generalize hls : ([] : List ℓ) = ls at hrun'
    cases hrun' with
    | nil => rfl
    | snoc _ _ => simp at hls
  | @snoc ls t l u _ hlast ih =>
    generalize hls : ls ++ [l] = ls' at hrun'
    cases hrun' with
    | nil => simp at hls
    | snoc hfirst' hlast' =>
      obtain ⟨rfl, rfl⟩ := List.append_inj' hls rfl |>.imp id List.singleton_inj.1
      obtain rfl := ih hfirst'
      exact hdet _ _ _ _ hlast hlast'

/-- **Exactly when a property holds all along a run.**  If after steps that meet
`cond` a step keeps the property exactly when it meets `cond` too, then the
property holds in every state of a run exactly when all its steps meet `cond`. -/
theorem Run.always_iff {cond : σ → ℓ → Prop} {P : List ℓ → σ → Prop} {s t : σ} {ls : List ℓ}
    (hdet : ∀ t l u u', step t l u → step t l u' → u = u') (hinit : P [] s)
    (hstep : ∀ ls t l u, Run (guarded cond step) s ls t → P ls t → step t l u →
      (P (ls ++ [l]) u ↔ cond t l))
    (hrun : Run step s ls t) :
    (∀ ls' t', ls' <+: ls → Run step s ls' t' → P ls' t') ↔ Run (guarded cond step) s ls t := by
  induction hrun with
  | nil =>
    refine ⟨fun _ => Run.nil, fun _ ls' t' hpre hrun' => ?_⟩
    obtain rfl := List.prefix_nil.1 hpre
    obtain rfl := Run.deterministic hdet Run.nil hrun'
    exact hinit
  | @snoc ls t l u hfirst hlast ih =>
    constructor
    · intro hall
      have hbefore := ih.1 fun ls' t' hpre => hall ls' t' (hpre.trans (List.prefix_append ls [l]))
      have hP := hall ls t (List.prefix_append ls [l]) hfirst
      have hP' := hall _ u (List.prefix_refl _) (Run.snoc hfirst hlast)
      exact Run.snoc hbefore ⟨(hstep ls t l u hbefore hP hlast).1 hP', hlast⟩
    · intro hguarded
      generalize hls : ls ++ [l] = ls₂ at hguarded
      cases hguarded with
      | nil => simp at hls
      | @snoc ls₁ t₁ l₁ _ hbefore hcond =>
        obtain ⟨rfl, rfl⟩ := List.append_inj' hls rfl |>.imp id List.singleton_inj.1
        obtain rfl := Run.deterministic hdet hfirst hbefore.of_guarded
        have hearlier := ih.2 hbefore
        intro ls' t' hpre hrun'
        rcases List.prefix_concat_iff.1 hpre with rfl | hpre
        · obtain rfl := Run.deterministic hdet (Run.snoc hfirst hlast) hrun'
          exact (hstep ls t l u hbefore (hearlier ls t (List.prefix_refl _) hfirst) hlast).2 hcond.1
        · exact hearlier ls' t' hpre hrun'

end StepRun
