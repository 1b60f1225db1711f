/-
# The lines of a directory text

A newline is a token of its own, so the tokens of a text are the tokens of its
lines with an `NLINE` behind each (`tokens_unlines`).  With `isUsers_iff` a text
is loaded when the tokens of its lines are read line by line (`loads_iff`).
-/

import Hvf.Nucleus.DirectLines

namespace Hvf

open Munch

/-- A token and its lexeme, as the scanner of the directory returns it. -/
abbrev DirectLexeme := DirectToken × List Char

/-- Text of lines. -/
def unlines (ls : List (List Char)) : List Char := ls.flatMap (· ++ ['\n'])

/-- The first line, a newline, and the rest. -/
@[simp] theorem unlines_cons (l : List Char) (ls : List (List Char)) :
    unlines (l :: ls) = l ++ '\n' :: unlines ls := by
  simp [unlines]

/-! ### Tokens of a line -/

/-- No token goes on with a newline. -/
theorem goesOn_newline {κ : Type} (K : TokenKinds κ) (m : List Char) (hm : m ≠ []) :
    (lineRules K).goesOn m '\n' = false := by
  by_contra hgoes
  exact hm (lineKind_newline (Bool.eq_true_of_not_eq_false hgoes))

/-- A newline is a lexeme of its own. -/
theorem lexemes_newline {κ : Type} (K : TokenKinds κ) (b : List Char) :
    (lineRules K).lexemes ('\n' :: b) = ((lineRules K).lexemes b).map (['\n'] :: ·) := by
  refine lexemes_append (a := ['\n']) (lexemes_of_kind rfl) fun m hm c _ => ?_
  have hm : ['\n'] = m := by simpa using hm
  have hnone := ((lineRules K).final_iff ['\n'] rfl).1 rfl c
  rw [← hm, Rules.goesOn, hnone, Option.isSome_none]

/-- **A line is scanned on its own.** -/
theorem tokens_line (l b : List Char) : tokens directKinds (l ++ '\n' :: b)
    = (tokens directKinds l).bind fun toks =>
      (tokens directKinds b).map (toks ++ (.nline, ['\n']) :: ·) := by
  rw [tokens, tokens, tokens, Rules.lexemes, scan_separator (goesOn_newline directKinds),
    lexemes_newline, Option.map_bind, Option.bind_map]
  refine Option.bind_congr fun ms _ => ?_
  simp only [Function.comp_apply, Option.map_map]
  refine congrArg (Option.map · _) (funext fun ns => ?_)
  simp only [Function.comp_apply, tokensOf, List.flatMap_append, List.flatMap_cons]
  rfl

/-- **Lines are scanned one by one**, with a newline token behind each. -/
theorem tokens_unlines (ls : List (List Char)) : tokens directKinds (unlines ls)
    = (ls.mapM (tokens directKinds)).map (·.flatMap (· ++ [(.nline, ['\n'])])) := by
  induction ls with
  | nil => rfl
  | cons l ls ih =>
    rw [unlines_cons, tokens_line, ih, List.mapM_cons]
    cases tokens directKinds l with
    | none => rfl
    | some toks =>
      cases ls.mapM (tokens directKinds) with
      | none => rfl
      | some tss => simp

/-- What a token of a text is. -/
theorem mem_tokens {l : List Char} {toks : List DirectLexeme}
    (h : tokens directKinds l = some toks) {t : DirectLexeme} (ht : t ∈ toks) :
    lineKind directKinds t.2 = some t.1 ∧ t.1 ≠ .blank ∧ ∀ c ∈ t.2, c ∈ l := by
  obtain ⟨ms, hms, rfl⟩ := Option.map_eq_some_iff.1 h
  obtain ⟨m, hm, ht⟩ := List.mem_flatMap.1 ht
  obtain ⟨k, hk, rfl⟩ := List.mem_map.1 ht
  obtain ⟨hk, hblank⟩ := List.mem_filter.1 hk
  refine ⟨Option.mem_toList.1 hk, of_decide_eq_true hblank, fun c hc => ?_⟩
  have hflat := scan_flatten hms
  rw [List.nil_append] at hflat
  rw [← hflat]
  exact List.mem_flatten.2 ⟨m, hm, hc⟩

/-- **What the rules of the scanner ask of a lexeme** for each kind of token; where two
rules match, the earlier one wins. -/
inductive MatchesRule (l : List Char) : DirectToken → Prop
  | nline (h : l = ['\n']) : MatchesRule l .nline
  | comment (h : isComment l = true) : MatchesRule l .comment
  | keyword {k} (h : (l, k) ∈ directKinds.keywords) : MatchesRule l k
  | storspec (h : isStorspec l = true) : MatchesRule l .storspec
  | num (h : l.all isHexDigit = true) : MatchesRule l .num
  | word (h : l.all Char.isUpper = true) : MatchesRule l .word
  | blank (h : l.all isBlank = true) : MatchesRule l .blank

/-- A lexeme's kind is one whose rule it matches. -/
theorem matchesRule {l : List Char} {k : DirectToken} (h : lineKind directKinds l = some k) :
    MatchesRule l k := by
  rw [lineKind] at h
  split_ifs at h with hnil hnline hcomment
  · obtain rfl := Option.some.inj h
    exact .nline hnline
  · obtain rfl := Option.some.inj h
    exact .comment hcomment
  rw [Option.or_eq_some_iff] at h
  rcases h with h | ⟨-, h⟩
  · obtain ⟨l₁, l₂, hkeywords, -⟩ := List.lookup_eq_some_iff.1 h
    exact .keyword (by rw [hkeywords]; simp)
  · rw [classKind] at h
    split_ifs at h with hstor hhex hupper hblank
    · obtain rfl := Option.some.inj h
      exact .storspec (Bool.and_eq_true_iff.1 hstor).2
    · obtain rfl := Option.some.inj h
      exact .num hhex
    · obtain rfl := Option.some.inj h
      exact .word hupper
    · obtain rfl := Option.some.inj h
      exact .blank hblank

/-- A keyword is in upper case, and none is a word or a number. -/
theorem keyword_spec {l : List Char} {k : DirectToken} (h : (l, k) ∈ directKinds.keywords) :
    l.all Char.isUpper = true ∧ k ≠ .nline ∧ k ≠ .num ∧ k ≠ .word ∧ k ≠ .blank :=
  (by decide : ∀ p ∈ directKinds.keywords, p.1.all Char.isUpper = true ∧ p.2 ≠ .nline ∧
    p.2 ≠ .num ∧ p.2 ≠ .word ∧ p.2 ≠ .blank) _ h

/-- The newline token is a newline. -/
theorem eq_newline_of_nline {l : List Char} (h : lineKind directKinds l = some .nline) :
    l = ['\n'] := by
  cases matchesRule h with
  | nline h => exact h
  | keyword h => exact absurd rfl (keyword_spec h).2.1

/-- Letters, digits, newline and `*` are no blanks. -/
theorem not_isBlank {c : Char} (h : c.isUpper = true ∨ isHexDigit c = true ∨ c = '\n' ∨ c = '*') :
    isBlank c = false := by
  by_contra hblank
  simp only [isBlank, Bool.or_eq_true, decide_eq_true_eq, Bool.not_eq_false] at hblank
  rcases hblank with rfl | rfl
  · exact absurd h (by decide)
  · exact absurd h (by decide)

/-- **Blanks are skipped,** and nothing else is. -/
theorem lineKind_blank {l : List Char} {k : DirectToken} (hk : lineKind directKinds l = some k) :
    k = .blank ↔ l.all isBlank = true := by
  constructor
  · rintro rfl
    cases matchesRule hk with
    | keyword h => exact absurd rfl (keyword_spec h).2.2.2.2
    | blank h => exact h
  · intro hblank
    have hnot : ∀ c ∈ l, ¬ (c.isUpper = true ∨ isHexDigit c = true ∨ c = '\n' ∨ c = '*') := by
      intro c hc h
      have hblank := List.all_eq_true.1 hblank c hc
      rw [not_isBlank h] at hblank
      exact nomatch hblank
    have hne : l ≠ [] := (lineKind_isSome.1 (Option.isSome_of_mem hk)).1
    obtain ⟨c, hc⟩ := List.exists_mem_of_ne_nil l hne
    cases matchesRule hk with
    | nline h => exact absurd (Or.inr (Or.inr (Or.inl rfl))) (hnot '\n' (by rw [h]; simp))
    | comment h =>
      obtain ⟨d, ds, rfl⟩ := List.exists_cons_of_ne_nil hne
      rw [isComment.eq_2, Bool.and_eq_true, decide_eq_true_eq] at h
      exact absurd (Or.inr (Or.inr (Or.inr h.1))) (hnot d (List.mem_cons_self ..))
    | keyword h =>
      exact absurd (Or.inl (List.all_eq_true.1 (keyword_spec h).1 c hc)) (hnot c hc)
    | storspec h =>
      rcases List.eq_nil_or_concat l with rfl | ⟨ds, d, rfl⟩
      · exact absurd rfl hne
      · rw [List.concat_eq_append, isStorspec_append] at h
        simp only [Bool.and_eq_true, bne_iff_ne] at h
        obtain ⟨e, he⟩ := List.exists_mem_of_ne_nil ds h.1.2
        have hdigit := isHexDigit_of_isDigit (List.all_eq_true.1 h.2 e he)
        exact absurd (Or.inr (Or.inl hdigit)) (hnot e (by simp [he]))
    | num h => exact absurd (Or.inr (Or.inl (List.all_eq_true.1 h c hc))) (hnot c hc)
    | word h => exact absurd (Or.inl (List.all_eq_true.1 h c hc)) (hnot c hc)
    | blank h => rfl

/-- The first lexeme's token, unless it is blank, and the rest. -/
theorem tokensOf_cons {m : List Char} {k : DirectToken} (hk : lineKind directKinds m = some k)
    (ms : List (List Char)) : tokensOf directKinds (m :: ms)
      = (if k = .blank then [] else [(k, m)]) ++ tokensOf directKinds ms := by
  rw [tokensOf, List.flatMap_cons, hk]
  by_cases hblank : k = .blank
  · rw [if_pos hblank, hblank]
    rfl
  · rw [if_neg hblank]
    simp [directKinds, hblank, tokensOf]

/-- **A line without tokens is blank.** -/
theorem tokens_eq_nil_iff {l : List Char} : tokens directKinds l = some [] ↔
    l.all isBlank = true := by
  constructor
  · intro h
    obtain ⟨ms, hms, hnil⟩ := Option.map_eq_some_iff.1 h
    have hflat := scan_flatten hms
    rw [List.nil_append] at hflat
    rw [← hflat, List.all_flatten, List.all_eq_true]
    intro m hm
    obtain ⟨k, hk⟩ : ∃ k, lineKind directKinds m = some k := Option.isSome_iff_exists.1
      (scan_kind (R := lineRules directKinds) (fun hne => absurd rfl hne) hms m hm)
    refine (lineKind_blank hk).1 ?_
    have hdropped := List.flatMap_eq_nil_iff.1 hnil m hm
    rw [hk] at hdropped
    by_contra hne
    simp [directKinds, hne] at hdropped
  · intro h
    rcases eq_or_ne l [] with rfl | hne
    · rfl
    · have hsome : (lineKind directKinds l).isSome :=
        lineKind_isSome.2 ⟨hne, Or.inr (Or.inr (Or.inr (Or.inr (Or.inr h))))⟩
      obtain ⟨k, hk⟩ := Option.isSome_iff_exists.1 hsome
      rw [tokens, lexemes_of_kind (R := lineRules directKinds) hsome, Option.map_some, tokensOf,
        List.flatMap_cons, hk, (lineKind_blank hk).2 h]
      rfl

/-! ### Symbols of lines -/

variable {heap : ℕ → List Char} {k : ℕ}

/-- The number of word tokens, each of which keeps its text on the heap. -/
def words (toks : List DirectLexeme) : ℕ := toks.countP (·.1 = .word)

/-- Tokens become symbols one behind the other; the texts go on in the heap where they were. -/
theorem lexSyms_append (toks toks' : List DirectLexeme) : lexSyms heap k (toks ++ toks')
    = lexSyms heap k toks ++ lexSyms heap (k + words toks) toks' := by
  induction toks generalizing k with
  | nil => rfl
  | cons t toks ih =>
    obtain ⟨kind, l⟩ := t
    have hwords : words ((kind, l) :: toks) = words toks + if kind = .word then 1 else 0 := by
      simp [words, List.countP_cons]
    have hk : (if kind = .word then k + 1 else k) + words toks = k + words ((kind, l) :: toks) := by
      rw [hwords]
      split_ifs <;> omega
    rw [List.cons_append, lexSyms, lexSyms, ih, hk, List.append_assoc]

/-- The symbols of lines behind the first `k` words. -/
def lineSyms (heap : ℕ → List Char) : ℕ → List (List DirectLexeme) → List (List Sym)
  | _, [] => []
  | k, toks :: tss => lexSyms heap k toks :: lineSyms heap (k + words toks) tss

/-- The same for lines of tokens. -/
theorem lineSyms_append (tss tss' : List (List DirectLexeme)) : lineSyms heap k (tss ++ tss')
    = lineSyms heap k tss ++ lineSyms heap (k + (tss.map words).sum) tss' := by
  induction tss generalizing k with
  | nil => rfl
  | cons toks tss ih =>
    rw [List.cons_append, lineSyms, lineSyms, ih, List.map_cons, List.sum_cons, Nat.add_assoc,
      List.cons_append]

/-- **The symbols of a text** are those of its lines, each with its end. -/
theorem lexSyms_flatMap (tss : List (List DirectLexeme)) :
    lexSyms heap k (tss.flatMap (· ++ [(.nline, ['\n'])])) = flatLines (lineSyms heap k tss) := by
  induction tss generalizing k with
  | nil => rfl
  | cons toks tss ih =>
    rw [List.flatMap_cons, List.append_assoc, lexSyms_append, List.singleton_append, lexSyms,
      if_neg (by simp), ih, lineSyms, flatLines_cons]
    rfl

/-- The symbols of a line. -/
theorem mem_lexSyms {toks : List DirectLexeme} {s : Sym} (hs : s ∈ lexSyms heap k toks) :
    ∃ t ∈ toks, ∃ j, sym (heap j) t.1 t.2 = some s := by
  induction toks generalizing k with
  | nil => exact absurd hs List.not_mem_nil
  | cons t toks ih =>
    obtain ⟨kind, l⟩ := t
    rw [lexSyms] at hs
    rcases List.mem_append.1 hs with hs | hs
    · exact ⟨_, List.mem_cons_self .., k, Option.mem_toList.1 hs⟩
    · obtain ⟨t, ht, j, hj⟩ := ih hs
      exact ⟨t, List.mem_cons_of_mem _ ht, j, hj⟩

/-- A line of text without a newline becomes a line of symbols. -/
theorem isLine_lexSyms {l : List Char} {toks : List DirectLexeme} (hl : '\n' ∉ l)
    (h : tokens directKinds l = some toks) : IsLine (lexSyms heap k toks) := by
  intro hs
  obtain ⟨⟨kind, m⟩, ht, j, hj⟩ := mem_lexSyms hs
  obtain ⟨hkind, -, hmem⟩ := mem_tokens h ht
  have hnline : kind = .nline := by
    cases kind <;> simp [sym] at hj ⊢
  subst hnline
  exact hl (hmem '\n' (by rw [eq_newline_of_nline hkind]; simp))

/-- The same for all lines. -/
theorem isLine_lineSyms {ls : List (List Char)} {tss : List (List DirectLexeme)}
    (hls : ∀ l ∈ ls, '\n' ∉ l) (h : ls.mapM (tokens directKinds) = some tss) :
    ∀ l ∈ lineSyms heap k tss, IsLine l := by
  induction ls generalizing tss k with
  | nil =>
    obtain rfl := Option.some.inj h
    exact fun l hl => absurd hl List.not_mem_nil
  | cons l ls ih =>
    rw [List.mapM_cons] at h
    obtain ⟨toks, htoks, h⟩ := Option.bind_eq_some_iff.1 h
    obtain ⟨tss, htss, h⟩ := Option.bind_eq_some_iff.1 h
    obtain rfl := Option.some.inj h
    rintro s hs
    rcases List.mem_cons.1 hs with rfl | hs
    · exact isLine_lexSyms (hls l (List.mem_cons_self ..)) htoks
    · exact ih (fun l hl => hls l (List.mem_cons_of_mem _ hl)) htss s hs

/-- **A text is loaded when its lines are read.** -/
theorem loads_iff {ls : List (List Char)} (hls : ∀ l ∈ ls, '\n' ∉ l) (us : List User) :
    Loads heap (unlines ls) us ↔ ∃ tss, ls.mapM (tokens directKinds) = some tss ∧
      readLines (lineSyms heap 0 tss) = some us := by
  rw [Loads, tokens_unlines]
  constructor
  · rintro ⟨toks, htoks, hus⟩
    obtain ⟨tss, htss, rfl⟩ := Option.map_eq_some_iff.1 htoks
    rw [lexSyms_flatMap, isUsers_iff (isLine_lineSyms hls htss)] at hus
    exact ⟨tss, htss, hus⟩
  · rintro ⟨tss, htss, hus⟩
    refine ⟨_, by rw [htss]; rfl, ?_⟩
    rwa [lexSyms_flatMap, isUsers_iff (isLine_lineSyms hls htss)]

end Hvf
