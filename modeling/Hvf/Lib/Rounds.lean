/-
# Loops by rounds

A loop is given by what one round does to its state: go on with the next round,
leave the loop, or stop for good without a result.  `result` is the state the
loop is left with, if that takes at most `n` rounds; `trace` are the states at
the start of the first `n` rounds.  The states a loop comes to are `Reaches`.
-/

import Mathlib.Tactic

namespace Rounds

variable {σ : Type*}

/-- **What a round of a loop does**: it goes on, it leaves the loop with a result, or it has
none. -/
inductive Round (σ : Type*)
  | next (s : σ)
  | out (s : σ)
  | stop

/-- The state the loop is left with, if in at most `n` rounds. -/
def result (round : σ → Round σ) : ℕ → σ → Option σ
  | 0, _ => none
  | n + 1, s =>
      match round s with
      | .next t => result round n t
      | .out t => some t
      | .stop => none

/-- The states at the start of the first `n` rounds. -/
def trace (round : σ → Round σ) : ℕ → σ → List σ
  | 0, _ => []
  | n + 1, s =>
      s :: match round s with
      | .next t => trace round n t
      | .out _ => []
      | .stop => []

/-- **The states the loop comes to from `s`**, at the beginning of a round. -/
inductive Reaches (round : σ → Round σ) (s : σ) : σ → Prop
  | refl : Reaches round s s
  | next {t u} : Reaches round s t → round t = .next u → Reaches round s u

/-- **Rounds that do the same, with related states**: both go on, both leave, or both have
no result. -/
inductive Round.Rel (r : σ → σ → Prop) : Round σ → Round σ → Prop
  | next {s s'} : r s s' → Round.Rel r (.next s) (.next s')
  | out {s s'} : r s s' → Round.Rel r (.out s) (.out s')
  | stop : Round.Rel r .stop .stop

variable {round : σ → Round σ} {s t : σ}

/-- **Two loops** whose rounds relate states end in related states. -/
theorem result_rel {r : σ → σ → Prop} {round' : σ → Round σ}
    (hround : ∀ s s', r s s' → Round.Rel r (round s) (round' s')) {s' : σ} (h : r s s') (n : ℕ) :
    Option.Rel r (result round n s) (result round' n s') := by
  induction n generalizing s s' with
  | zero => exact .none
  | succ n ih =>
    rw [result, result]
    have hfirst := hround s s' h
    generalize round s = a at hfirst ⊢
    generalize round' s' = b at hfirst ⊢
    cases hfirst with
    | next hnext => exact ih hnext
    | out hout => exact .some hout
    | stop => exact .none

/-- The result of a loop whose first round goes on is that from the next state. -/
theorem result_next (h : round s = .next t) (n : ℕ) :
    result round (n + 1) s = result round n t := by
  rw [result, h]

/-- The states of a loop whose first round goes on are the first and those from the next. -/
theorem trace_next (h : round s = .next t) (n : ℕ) :
    trace round (n + 1) s = s :: trace round n t := by
  rw [trace, h]

/-- A state reached is the first one, or is reached from the next. -/
theorem Reaches.first {u : σ} (h : Reaches round s u) :
    u = s ∨ ∃ t, round s = .next t ∧ Reaches round t u := by
  induction h with
  | refl => exact Or.inl rfl
  | next _ hround ih =>
    rcases ih with rfl | ⟨t, hfirst, hreach⟩
    · exact Or.inr ⟨_, hround, .refl⟩
    · exact Or.inr ⟨t, hfirst, hreach.next hround⟩

/-- A loop with a result after one round comes to no other state. -/
theorem Reaches.eq_of_result {u : σ} (h : Reaches round s u) (hend : (result round 1 s).isSome) :
    u = s := by
  rcases h.first with heq | ⟨t, hround, _⟩
  · exact heq
  · rw [result_next hround] at hend
    cases hend

/-- Two loops whose first round is the same and ends them agree throughout. -/
theorem agree_of_last {round' : σ → Round σ} (hsame : round s = round' s)
    (hlast : ∀ t, round s ≠ .next t) (n : ℕ) :
    trace round n s = trace round' n s ∧ result round n s = result round' n s := by
  cases n with
  | zero => exact ⟨rfl, rfl⟩
  | succ n =>
    rw [trace, trace, result, result, ← hsame]
    cases hround : round s with
    | next t => exact absurd hround (hlast t)
    | out t => exact ⟨rfl, rfl⟩
    | stop => exact ⟨rfl, rfl⟩

/-- If the first round is the same, two loops that agree from the next state on
agree throughout. -/
theorem agree_of_next {round' : σ → Round σ} (hround : round s = .next t)
    (hround' : round' s = .next t)
    (hagree : ∀ n, trace round n t = trace round' n t ∧ result round n t = result round' n t)
    (n : ℕ) : trace round n s = trace round' n s ∧ result round n s = result round' n s := by
  cases n with
  | zero => exact ⟨rfl, rfl⟩
  | succ n =>
    rw [trace_next hround, trace_next hround', result_next hround, result_next hround',
      (hagree n).1, (hagree n).2]
    exact ⟨rfl, rfl⟩

end Rounds
