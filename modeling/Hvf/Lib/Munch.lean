/-
# Longest-match scanning

`Rules` says which lists of characters are tokens and of what kind.  Every
nonempty prefix of a token is a token, so a scanner finds the longest token by
adding one character after the other as long as the lexeme stays one
(`lexemes_longest`): it never has to go back.  `scan l text` are the lexemes of
`l ++ text` when the scanner is inside the lexeme `l`.

A text splits wherever the last lexeme cannot go on (`scan_append`), so what is
scanned before such a place does not depend on what follows.
-/

import Mathlib.Tactic

namespace Munch

/-- The tokens.  `final` are those that no character extends, after which a
scanner does not look at the next character. -/
structure Rules (α κ : Type) where
  kind : List α → Option κ
  final : List α → Bool
  kind_nil : kind [] = none
  prefix_closed : ∀ l c, l ≠ [] → (kind (l ++ [c])).isSome → (kind l).isSome
  final_iff : ∀ l, (kind l).isSome → (final l = true ↔ ∀ c, kind (l ++ [c]) = none)

variable {α κ : Type} (R : Rules α κ)

/-- Whether the lexeme goes on with the character. -/
def Rules.goesOn (l : List α) (c : α) : Bool := (R.kind (l ++ [c])).isSome

/-- The lexemes of `l ++ text`, where `l` is the lexeme begun; none where a
character begins no token. -/
def Rules.scan : List α → List α → Option (List (List α))
  | l, [] => some (if l.isEmpty then [] else [l])
  | l, c :: text =>
    if R.goesOn l c then scan (l ++ [c]) text
    else if l.isEmpty then none
    else if R.goesOn [] c then (scan [c] text).map (l :: ·)
    else none

/-- The lexemes of a text. -/
def Rules.lexemes (text : List α) : Option (List (List α)) := R.scan [] text

variable {R} {l m text a b : List α} {ms : List (List α)} {c : α}

/-- A character that goes on with the lexeme is added to it. -/
theorem scan_goesOn (h : R.goesOn l c = true) :
    R.scan l (c :: text) = R.scan (l ++ [c]) text := by
  rw [Rules.scan, if_pos h]

/-- **A lexeme that cannot go on ends.** -/
theorem scan_break (hl : l ≠ []) (h : ∀ c ∈ text.head?, R.goesOn l c = false) :
    R.scan l text = (R.lexemes text).map (l :: ·) := by
  have hempty : l.isEmpty = false := by simpa using hl
  cases text with
  | nil => simp [Rules.scan, Rules.lexemes, hempty]
  | cons c text =>
    have hstop : R.goesOn l c = false := h c rfl
    rw [Rules.scan, if_neg (by rw [hstop]; exact Bool.false_ne_true), if_neg (by simp [hempty]),
      Rules.lexemes, Rules.scan]
    simp only [List.nil_append, List.isEmpty_nil, ↓reduceIte]
    split_ifs with hstart
    · rfl
    · rfl

/-- A scan that has begun a lexeme gives at least that. -/
theorem scan_ne_nil (hl : l ≠ []) (h : R.scan l text = some ms) : ms ≠ [] := by
  induction text generalizing l with
  | nil =>
    rw [Rules.scan, if_neg (by simpa using hl)] at h
    obtain rfl := Option.some.inj h
    exact List.cons_ne_nil _ _
  | cons c text ih =>
    rw [Rules.scan] at h
    split_ifs at h
    · exact ih (by simp) h
    · obtain ⟨ns, -, rfl⟩ := Option.map_eq_some_iff.1 h
      exact List.cons_ne_nil _ _

/-- **No character is lost:** the lexemes make up the text. -/
theorem scan_flatten (h : R.scan l text = some ms) : ms.flatten = l ++ text := by
  induction text generalizing l ms with
  | nil =>
    obtain rfl := Option.some.inj h
    cases l with
    | nil => rfl
    | cons c l => simp
  | cons c text ih =>
    rw [Rules.scan] at h
    split_ifs at h
    · rw [ih h, List.append_assoc, List.singleton_append]
    · obtain ⟨ns, hns, rfl⟩ := Option.map_eq_some_iff.1 h
      rw [List.flatten_cons, ih hns, List.singleton_append]

/-- Every lexeme is a token. -/
theorem scan_kind (hl : l ≠ [] → (R.kind l).isSome) (h : R.scan l text = some ms) :
    ∀ m ∈ ms, (R.kind m).isSome := by
  induction text generalizing l ms with
  | nil =>
    obtain rfl := Option.some.inj h
    intro m hm
    cases l with
    | nil => exact absurd hm List.not_mem_nil
    | cons c l =>
      obtain rfl : m = c :: l := by simpa using hm
      exact hl (List.cons_ne_nil _ _)
  | cons c text ih =>
    rw [Rules.scan] at h
    split_ifs at h with hon hempty hstart
    · exact ih (fun _ => hon) h
    · obtain ⟨ns, hns, rfl⟩ := Option.map_eq_some_iff.1 h
      rintro m hm
      rcases List.mem_cons.1 hm with rfl | hm
      · exact hl (by simpa using hempty)
      · exact ih (fun _ => hstart) hns m hm

/-- A list with a nonempty prefix that is no token is no token. -/
theorem kind_append_none (hl : l ≠ []) (h : R.kind l = none) (text : List α) :
    R.kind (l ++ text) = none := by
  induction text generalizing l with
  | nil => rwa [List.append_nil]
  | cons c text ih =>
    have hnext : R.kind (l ++ [c]) = none := by
      by_contra hsome
      have hprefix := R.prefix_closed l c hl (Option.isSome_iff_ne_none.2 hsome)
      rw [h] at hprefix
      exact nomatch hprefix
    rw [← List.singleton_append, ← List.append_assoc]
    exact ih (by simp) hnext

/-- **The first lexeme is the longest token** that the text begins with. -/
theorem scan_longest (h : R.scan l text = some (m :: ms)) {n : ℕ} (hn : n ≤ (l ++ text).length)
    (hkind : (R.kind ((l ++ text).take n)).isSome) : n ≤ m.length := by
  induction text generalizing l with
  | nil =>
    obtain heq := Option.some.inj h
    split_ifs at heq
    obtain ⟨rfl, -⟩ := List.cons.inj heq
    simpa using hn
  | cons c text ih =>
    rw [Rules.scan] at h
    split_ifs at h with hon hempty
    · refine ih h (by simpa using hn) ?_
      rwa [List.append_assoc, List.singleton_append]
    · obtain ⟨ns, -, heq⟩ := Option.map_eq_some_iff.1 h
      obtain ⟨rfl, -⟩ := List.cons.inj heq
      by_contra hlong
      have htake : (l ++ c :: text).take n = (l ++ [c]) ++ text.take (n - (l.length + 1)) := by
        rw [← List.singleton_append, ← List.append_assoc, List.take_append,
          List.take_of_length_le (by simp; omega)]
        simp
      have hnone : R.kind (l ++ [c]) = none := by
        simpa [Rules.goesOn] using hon
      rw [htake, kind_append_none (by simp) hnone] at hkind
      exact nomatch hkind

/-- **The first lexeme is the longest**: no longer beginning of the text has a kind. -/
theorem lexemes_longest (h : R.lexemes text = some (m :: ms)) {n : ℕ} (hn : n ≤ text.length)
    (hkind : (R.kind (text.take n)).isSome) : n ≤ m.length :=
  scan_longest (l := []) h hn hkind

/-- **A text splits where a lexeme ends.** -/
theorem scan_append (h : R.scan l a = some ms)
    (hend : ∀ m ∈ ms.getLast?, ∀ c ∈ b.head?, R.goesOn m c = false) :
    R.scan l (a ++ b) = (R.lexemes b).map (ms ++ ·) := by
  induction a generalizing l ms with
  | nil =>
    obtain rfl := Option.some.inj h
    cases l with
    | nil => simp [Rules.lexemes]
    | cons c l =>
      have hstop : ∀ c' ∈ b.head?, R.goesOn (c :: l) c' = false := hend (c :: l) (by simp)
      rw [List.nil_append, scan_break (List.cons_ne_nil _ _) hstop]
      rfl
  | cons c a ih =>
    rw [Rules.scan] at h
    rw [List.cons_append, Rules.scan]
    split_ifs at h ⊢
    · exact ih h hend
    · obtain ⟨ns, hns, rfl⟩ := Option.map_eq_some_iff.1 h
      have hne : ns ≠ [] := scan_ne_nil (List.cons_ne_nil _ _) hns
      rw [ih hns (by rwa [List.getLast?_cons_of_ne_nil hne] at hend), Option.map_map]
      rfl

/-- **A text splits in front of a character that no lexeme goes on with.** -/
theorem scan_separator (hsep : ∀ m, m ≠ [] → R.goesOn m c = false) :
    R.scan l (a ++ c :: b) = (R.scan l a).bind fun ms => (R.lexemes (c :: b)).map (ms ++ ·) := by
  induction a generalizing l with
  | nil =>
    rcases eq_or_ne l [] with rfl | hl
    · simp [Rules.scan, Rules.lexemes]
    · rw [List.nil_append, scan_break hl fun d hd => ?_, Rules.scan, if_neg (by simpa using hl)]
      · rfl
      · obtain rfl := Option.some.inj hd
        exact hsep l hl
  | cons d a ih =>
    rw [List.cons_append, Rules.scan, Rules.scan]
    split_ifs
    · exact ih
    · rfl
    · rw [ih, Option.map_bind, Option.bind_map]
      refine Option.bind_congr fun ms _ => ?_
      simp [Option.map_map, Function.comp_def]
    · rfl

/-- A token is one lexeme. -/
theorem lexemes_of_kind (h : (R.kind m).isSome) : R.lexemes m = some [m] := by
  have hscan : ∀ b a, a ++ b = m → (a ≠ [] ∨ b ≠ []) → R.scan a b = some [m] := by
    intro b
    induction b with
    | nil =>
      intro a ha hne
      rw [List.append_nil] at ha
      rw [Rules.scan, if_neg (by simpa using hne), ha]
    | cons c b ih =>
      intro a ha _
      have hgoes : R.goesOn a c = true := by
        by_contra hstop
        have hnone : R.kind (a ++ [c]) = none := by simpa [Rules.goesOn] using hstop
        have hall := kind_append_none (by simp) hnone b
        rw [List.append_assoc, List.singleton_append, ha] at hall
        rw [hall] at h
        exact nomatch h
      rw [scan_goesOn hgoes]
      exact ih (a ++ [c]) (by simpa using ha) (Or.inl (by simp))
  refine hscan m [] rfl (Or.inr fun hnil => ?_)
  rw [hnil, R.kind_nil] at h
  exact nomatch h

/-- Two texts are scanned one after the other, if the last lexeme of the first does not go on
into the second. -/
theorem lexemes_append (h : R.lexemes a = some ms)
    (hend : ∀ m ∈ ms.getLast?, ∀ c ∈ b.head?, R.goesOn m c = false) :
    R.lexemes (a ++ b) = (R.lexemes b).map (ms ++ ·) :=
  scan_append h hend

end Munch
