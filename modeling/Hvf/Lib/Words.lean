/-
# Words of a text

`words p l` are the maximal runs of elements of `l` that are no separators.  A text
with separators in front has the same words (`words_dropWhile`), and a separator parts the
words before it from those behind (`words_append_cons`).
-/

import Mathlib.Data.List.TakeWhile
import Mathlib.Tactic

namespace Words

variable {α : Type*} {p : α → Bool} {l l' : List α} {c : α}

/-- The maximal runs of elements that are no separators. -/
def words (p : α → Bool) (l : List α) : List (List α) := (l.splitOnP p).filter (!·.isEmpty)

/-- An empty text has no words. -/
@[simp] theorem words_nil : words p ([] : List α) = [] := rfl

/-- A separator parts the words. -/
theorem words_append_cons (l l' : List α) (hc : p c = true) :
    words p (l ++ c :: l') = words p l ++ words p l' := by
  rw [words, List.splitOnP_append_cons l l' hc, List.filter_append, words, words]

/-- A separator in front adds no word. -/
@[simp] theorem words_cons_of_pos (hc : p c = true) : words p (c :: l) = words p l :=
  words_append_cons [] l hc

/-- Separators in front do not count. -/
theorem words_dropWhile (p : α → Bool) (l : List α) : words p (l.dropWhile p) = words p l := by
  induction l with
  | nil => rfl
  | cons c l ih =>
    by_cases hc : p c = true
    · rw [List.dropWhile_cons_of_pos hc, words_cons_of_pos hc, ih]
    · rw [List.dropWhile_cons_of_neg hc]

/-- A text without separators is one word. -/
theorem words_eq_singleton (hne : l ≠ []) (h : ∀ c ∈ l, p c = false) : words p l = [l] := by
  rw [words, List.splitOnP_eq_singleton h, List.filter_cons_of_pos (by simpa using hne)]
  rfl

/-- A text that begins with a word and a separator. -/
theorem words_word_append (hne : l ≠ []) (h : ∀ c ∈ l, p c = false) (hc : p c = true) :
    words p (l ++ c :: l') = l :: words p l' := by
  rw [words_append_cons l l' hc, words_eq_singleton hne h]
  rfl

/-- The text behind a word is where its first separator is. -/
theorem words_append (hne : l ≠ []) (h : ∀ c ∈ l, p c = false) (hl' : ∀ c ∈ l'.head?, p c = true) :
    words p (l ++ l') = l :: words p l' := by
  cases l' with
  | nil => rw [List.append_nil, words_eq_singleton hne h, words_nil]
  | cons c l' => rw [words_word_append hne h (hl' c rfl), words_cons_of_pos (hl' c rfl)]

/-- A word, followed by a separator or nothing, is what is taken up to the first separator. -/
theorem takeWhile_word (h : ∀ c ∈ l, p c = false) (hl' : ∀ c ∈ l'.head?, p c = true) :
    (l ++ l').takeWhile (!p ·) = l := by
  rw [List.takeWhile_append_of_pos fun c hc => by simp [h c hc]]
  cases l' with
  | nil => simp
  | cons c l' => simp [hl' c rfl]

/-- Behind the separators in front stands nothing, or a word up to a separator. -/
theorem exists_word (p : α → Bool) (l : List α) :
    (∀ c ∈ l, p c = true) ∨
      ∃ t l', t ≠ [] ∧ (∀ c ∈ t, p c = false) ∧ (∀ c ∈ l'.head?, p c = true) ∧
        l.dropWhile p = t ++ l' := by
  cases hd : l.dropWhile p with
  | nil => exact Or.inl (List.dropWhile_eq_nil_iff.1 hd)
  | cons c d =>
    have hc : p c = false := by
      have hhead := List.head_dropWhile_not p (l := l) (by simp [hd])
      simpa [hd] using hhead
    refine Or.inr ⟨(c :: d).takeWhile (!p ·), (c :: d).dropWhile (!p ·), ?_, ?_, ?_, ?_⟩
    · rw [List.takeWhile_cons_of_pos (by simpa using hc)]
      exact List.cons_ne_nil _ _
    · intro x hx
      simpa using List.mem_takeWhile_imp hx
    · intro x hx
      have hhead := List.head?_dropWhile_not (!p ·) (c :: d)
      rw [Option.mem_def.1 hx] at hhead
      simpa using hhead
    · exact List.takeWhile_append_dropWhile.symm

/-- A text with words begins with a separator or with the first word. -/
theorem eq_append_of_words {w : List α} {ws : List (List α)} (h : words p l = w :: ws) :
    (∃ c l', p c = true ∧ l = c :: l') ∨
      ∃ l', l = w ++ l' ∧ (∀ c ∈ l'.head?, p c = true) ∧ words p l' = ws := by
  cases l with
  | nil => cases h
  | cons c l =>
    by_cases hc : p c = true
    · exact Or.inl ⟨c, l, hc, rfl⟩
    · have hdrop : (c :: l).dropWhile p = c :: l := List.dropWhile_cons_of_neg hc
      obtain hall | ⟨t, l', hne, ht, hl', heq⟩ := exists_word p (c :: l)
      · exact absurd (hall c (List.mem_cons_self ..)) hc
      · rw [hdrop] at heq
        rw [heq, words_append hne ht hl'] at h
        obtain ⟨rfl, rfl⟩ := List.cons.inj h
        exact Or.inr ⟨l', heq, hl', rfl⟩

/-- A text without words is made of separators. -/
theorem forall_of_words_nil (h : words p l = []) : ∀ c ∈ l, p c = true := by
  obtain hall | ⟨t, l', hne, ht, hl', heq⟩ := exists_word p l
  · exact hall
  · rw [← words_dropWhile, heq, words_append hne ht hl'] at h
    cases h

/-- The first of the words, and a text with the others. -/
theorem exists_words_eq {w : List α} {ws : List (List α)} (h : words p l = w :: ws) :
    w ≠ [] ∧ (∀ c ∈ w, p c = false) ∧ ∃ l', l'.length < l.length ∧ words p l' = ws ∧
      l.dropWhile p = w ++ l' ∧ ∀ c ∈ l'.head?, p c = true := by
  obtain hall | ⟨t, l', hne, ht, hl', heq⟩ := exists_word p l
  · rw [← words_dropWhile, List.dropWhile_eq_nil_iff.2 hall] at h
    cases h
  · have hle := List.length_dropWhile_le p l
    have hpos := List.length_pos_iff.2 hne
    rw [heq, List.length_append] at hle
    rw [← words_dropWhile, heq, words_append hne ht hl'] at h
    obtain ⟨rfl, rfl⟩ := List.cons.inj h
    exact ⟨hne, ht, l', by omega, rfl, heq, hl'⟩

/-- The words have all that is no separator. -/
theorem flatten_words (p : α → Bool) (l : List α) : (words p l).flatten = l.filter (!p ·) := by
  induction hws : words p l generalizing l with
  | nil =>
    symm
    rw [List.flatten_nil, List.filter_eq_nil_iff]
    intro c hc
    simp [forall_of_words_nil hws c hc]
  | cons w ws ih =>
    obtain ⟨-, hw, l', -, hl', heq, -⟩ := exists_words_eq hws
    have hfront : (l.takeWhile p).filter (!p ·) = [] := by
      rw [List.filter_eq_nil_iff]
      intro c hc
      simp [List.mem_takeWhile_imp hc]
    have hword : w.filter (!p ·) = w := by
      rw [List.filter_eq_self]
      intro c hc
      simp [hw c hc]
    rw [List.flatten_cons, ih l' hl', ← List.takeWhile_append_dropWhile (p := p) (l := l),
      List.filter_append, hfront, heq, List.nil_append, List.filter_append, hword]

/-- The words of a text where there are more separators are those of its words. -/
theorem words_flatMap {q : α → Bool} (h : ∀ c, p c = true → q c = true) (l : List α) :
    words q l = (words p l).flatMap (words q) := by
  have hskip (l : List α) : words q (l.dropWhile p) = words q l := by
    induction l with
    | nil => rfl
    | cons c l ih =>
      by_cases hc : p c = true
      · rw [List.dropWhile_cons_of_pos hc, words_cons_of_pos (h c hc), ih]
      · rw [List.dropWhile_cons_of_neg hc]
  induction hws : words p l generalizing l with
  | nil =>
    rw [← hskip, List.dropWhile_eq_nil_iff.2 (forall_of_words_nil hws)]
    rfl
  | cons w ws ih =>
    obtain ⟨-, -, l', -, hl', heq, hhead⟩ := exists_words_eq hws
    rw [List.flatMap_cons, ← ih l' hl', ← hskip, heq]
    cases l' with
    | nil => rw [List.append_nil, words_nil, List.append_nil]
    | cons c l' =>
      have hc := h c (hhead c rfl)
      rw [words_append_cons w l' hc, words_cons_of_pos hc]

/-- The words with one separator between them. -/
def spaced (c : α) : List (List α) → List α := List.intercalate [c]

/-- Words set apart by a character: the first, the character, the rest. -/
theorem spaced_cons_cons (c : α) (w v : List α) (ws : List (List α)) :
    spaced c (w :: v :: ws) = w ++ c :: spaced c (v :: ws) := by
  simp [spaced, List.intercalate]

/-- The first word, and what follows it. -/
theorem exists_spaced_cons (hc : p c = true) (w : List α) (ws : List (List α)) :
    ∃ l', spaced c (w :: ws) = w ++ l' ∧ (l' = [] ↔ ws = []) ∧ ∀ d ∈ l'.head?, p d = true := by
  cases ws with
  | nil => exact ⟨[], by simp [spaced, List.intercalate], by simp, nofun⟩
  | cons v ws =>
    refine ⟨c :: spaced c (v :: ws), spaced_cons_cons .., by simp, ?_⟩
    rintro d ⟨⟩
    exact hc

/-- Spaced words are the same words. -/
theorem words_spaced (hc : p c = true) (l : List α) :
    words p (spaced c (words p l)) = words p l := by
  induction hws : words p l generalizing l with
  | nil => rfl
  | cons w ws ih =>
    obtain ⟨hne, hw, l', -, hl', -, -⟩ := exists_words_eq hws
    cases ws with
    | nil =>
      rw [show spaced c [w] = w by simp [spaced, List.intercalate], words_eq_singleton hne hw]
    | cons v ws => rw [spaced_cons_cons, words_word_append hne hw hc, ih l' hl']

/-- A text is no shorter than its words spaced. -/
theorem length_spaced_le (p : α → Bool) (c : α) (l : List α) :
    (spaced c (words p l)).length ≤ l.length := by
  induction hws : words p l generalizing l with
  | nil => exact Nat.zero_le _
  | cons w ws ih =>
    obtain ⟨-, -, l', -, hl', heq, hhead⟩ := exists_words_eq hws
    have hle := List.length_dropWhile_le p l
    rw [heq, List.length_append] at hle
    cases ws with
    | nil =>
      rw [show spaced c [w] = w by simp [spaced, List.intercalate]]
      omega
    | cons v ws =>
      cases l' with
      | nil => cases hl'
      | cons d l' =>
        rw [words_cons_of_pos (hhead d rfl)] at hl'
        have hrest := ih l' hl'
        rw [List.length_cons] at hle
        rw [spaced_cons_cons, List.length_append, List.length_cons]
        omega

end Words
