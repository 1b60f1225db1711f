/-
# Lines

A list cut into lines at an end mark.  `join e ls` has the lines `ls` with the mark `e` behind
each, and `cut e ts` are the lines of `ts` and what is left behind the last mark.  Lines
without the mark are found again (`cut_join`), and nothing is lost (`join_cut`).
-/

import Mathlib.Tactic

namespace Lines

variable {α : Type*} {e : α} {ls : List (List α)}

/-- The lines with the mark behind each. -/
def join (e : α) (ls : List (List α)) : List α := ls.flatMap (· ++ [e])

/-- No line is the empty text. -/
@[simp] theorem join_nil : join e [] = [] := rfl

/-- The first line, its end, and the rest. -/
@[simp] theorem join_cons (l : List α) (ls : List (List α)) :
    join e (l :: ls) = l ++ e :: join e ls := by
  simp [join]

variable [DecidableEq α]

/-- **The lines of a list**, and what is left behind the last mark. -/
def cut (e : α) : List α → List (List α) × List α
  | [] => ([], [])
  | t :: ts =>
    if t = e then ([] :: (cut e ts).1, (cut e ts).2)
    else
      match cut e ts with
      | ([], left) => ([], t :: left)
      | (l :: ls, left) => ((t :: l) :: ls, left)

/-- **Nothing is lost.** -/
theorem join_cut (ts : List α) : join e (cut e ts).1 ++ (cut e ts).2 = ts := by
  induction ts with
  | nil => rfl
  | cons t ts ih =>
    rw [cut]
    split_ifs with ht
    · rw [join_cons, List.nil_append, List.cons_append, ih, ht]
    · generalize cut e ts = c at ih ⊢
      obtain ⟨ls, left⟩ := c
      cases ls with
      | nil => exact congrArg (t :: ·) ih
      | cons l ls =>
        dsimp only at ih ⊢
        rw [join_cons] at ih ⊢
        rw [List.cons_append, List.cons_append, ih]

/-- No line has the mark in it. -/
theorem not_mem_of_mem_cut (ts : List α) : ∀ l ∈ (cut e ts).1, e ∉ l := by
  induction ts with
  | nil => exact fun l hl => absurd hl List.not_mem_nil
  | cons t ts ih =>
    rw [cut]
    split_ifs with ht
    · intro l hl
      rcases List.mem_cons.1 hl with rfl | hl
      · exact List.not_mem_nil
      · exact ih l hl
    · generalize cut e ts = c at ih ⊢
      obtain ⟨ls, left⟩ := c
      cases ls with
      | nil => exact fun l hl => absurd hl List.not_mem_nil
      | cons l ls =>
        rintro l' hl' hmem
        rcases List.mem_cons.1 hl' with rfl | hl'
        · rcases List.mem_cons.1 hmem with heq | hmem
          · exact ht heq.symm
          · exact ih l List.mem_cons_self hmem
        · exact ih l' (List.mem_cons_of_mem _ hl') hmem

/-- A line in front of a list. -/
theorem cut_line {l : List α} (hl : e ∉ l) (ts : List α) :
    cut e (l ++ e :: ts) = (l :: (cut e ts).1, (cut e ts).2) := by
  induction l with
  | nil => rw [List.nil_append, cut, if_pos rfl]
  | cons t l ih =>
    have ht : t ≠ e := fun heq => hl (heq ▸ List.mem_cons_self)
    rw [List.cons_append, cut, if_neg ht, ih fun hmem => hl (List.mem_cons_of_mem _ hmem)]

/-- **The lines are found again.** -/
theorem cut_join (hls : ∀ l ∈ ls, e ∉ l) : cut e (join e ls) = (ls, []) := by
  induction ls with
  | nil => rfl
  | cons l ls ih =>
    rw [join_cons, cut_line (hls l List.mem_cons_self),
      ih fun l hl => hls l (List.mem_cons_of_mem _ hl)]

/-- **Lines are cut in one way.** -/
theorem join_inj {ls' : List (List α)} (hls : ∀ l ∈ ls, e ∉ l) (hls' : ∀ l ∈ ls', e ∉ l)
    (h : join e ls = join e ls') : ls = ls' := by
  have hcut := congrArg (cut e) h
  rw [cut_join hls, cut_join hls'] at hcut
  exact (Prod.mk.inj hcut).1

/-- What `f` makes of the lines of a list that ends with the mark. -/
def onLines {β : Type*} (e : α) (f : List (List α) → Option β) (ts : List α) : Option β :=
  if (cut e ts).2 = [] then f (cut e ts).1 else none

/-- **A function of the lines**, on a text: it has a result exactly when the text is lines that
it has a result on. -/
theorem onLines_eq_some {β : Type*} {f : List (List α) → Option β} {ts : List α} {b : β} :
    onLines e f ts = some b ↔
      ∃ ls, (∀ l ∈ ls, e ∉ l) ∧ ts = join e ls ∧ f ls = some b := by
  unfold onLines
  constructor
  · intro h
    split_ifs at h with hleft
    have hjoin := join_cut (e := e) ts
    rw [hleft, List.append_nil] at hjoin
    exact ⟨_, not_mem_of_mem_cut ts, hjoin.symm, h⟩
  · rintro ⟨ls, hls, rfl, h⟩
    rw [cut_join hls, if_pos rfl, h]

end Lines
