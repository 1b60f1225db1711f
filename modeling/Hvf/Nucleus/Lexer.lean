/-
# Tokens of configuration and directory files

The token rules of `cp/nucleus/config.l` and `cp/nucleus/direct.l`.  The two
scanners differ in their keywords, and the one of the directory has storage
sizes; the rest is one text, and one definition here.  The first rule that
matches the longest lexeme gives its kind, so a word of hexadecimal digits is a
number and a keyword is no word.

Every nonempty prefix of a token is a token, and only a newline and a storage
size cannot go on; so the rules are those of a longest-match scanner that never
has to go back.

A character that begins no token is not an error.  re2c makes a state without code
for it and puts the first state of the automaton behind it, so the generated scanner
takes the character with the action of the first rule, and that is `NLINE`
(`scanKind`).
-/

import Hvf.Lib.Munch

namespace Hvf

open Munch

/-! ### Token rules -/

/-- `[ \t]`: the characters skipped between tokens. -/
def isBlank (c : Char) : Bool := c = ' ' || c = '\t'

/-- `[0-9A-F]`. -/
def isHexDigit (c : Char) : Bool := c.isDigit || ('A' ≤ c && c ≤ 'F')

/-- `"*" [^\n]*`. -/
def isComment (l : List Char) : Bool :=
  match l with
  | [] => false
  | c :: l => c = '*' && l.all (· ≠ '\n')

/-- `[0-9]+[KMGTP]`. -/
def isStorspec (l : List Char) : Bool :=
  match l.getLast? with
  | none => false
  | some c => (c = 'K' || c = 'M' || c = 'G' || c = 'T' || c = 'P') && l.dropLast != [] &&
      l.dropLast.all Char.isDigit

/-- What tells one scanner from the other: the names of the tokens, the keywords
in the order of the rules, and whether there are storage sizes. -/
structure TokenKinds (κ : Type) where
  nline : κ
  comment : κ
  keywords : List (List Char × κ)
  storspec : Option κ
  num : κ
  word : κ
  blank : κ
  keywords_upper : ∀ p ∈ keywords, p.1 ≠ [] ∧ p.1.all Char.isUpper = true

variable {κ : Type}

/-- The rules behind the keywords. -/
def classKind (K : TokenKinds κ) (l : List Char) : Option κ :=
  if K.storspec.isSome && isStorspec l then K.storspec
  else if l.all isHexDigit then some K.num
  else if l.all Char.isUpper then some K.word
  else if l.all isBlank then some K.blank
  else none

/-- The first rule that matches the whole lexeme. -/
def lineKind (K : TokenKinds κ) (l : List Char) : Option κ :=
  if l = [] then none
  else if l = ['\n'] then some K.nline
  else if isComment l then some K.comment
  else (K.keywords.lookup l).or (classKind K l)

/-- The tokens of a configuration, `config.y`'s names with the blanks and comments that are
skipped. -/
inductive ConfigToken
  | nline | comment | directory | operator | rdev | logo | console | userid | local | num | word
  | blank
  deriving DecidableEq, Repr

/-- The rules of `config.l`. -/
def configKinds : TokenKinds ConfigToken where
  nline := .nline
  comment := .comment
  keywords := [("DIRECTORY".toList, .directory), ("OPERATOR".toList, .operator),
    ("RDEV".toList, .rdev), ("LOGO".toList, .logo), ("CONSOLE".toList, .console),
    ("USERID".toList, .userid), ("LOCAL".toList, .local)]
  storspec := none
  num := .num
  word := .word
  blank := .blank
  keywords_upper := by decide

/-- The tokens of a directory, `direct.y`'s names with the blanks and comments that are skipped.
-/
inductive DirectToken
  | nline | comment | user | machine | storage | console | spool | reader | punch | print | mdisk
  | storspec | num | word | blank
  deriving DecidableEq, Repr

/-- The rules of `direct.l`. -/
def directKinds : TokenKinds DirectToken where
  nline := .nline
  comment := .comment
  keywords := [("USER".toList, .user), ("MACHINE".toList, .machine),
    ("STORAGE".toList, .storage), ("CONSOLE".toList, .console), ("SPOOL".toList, .spool),
    ("READER".toList, .reader), ("PUNCH".toList, .punch), ("PRINT".toList, .print),
    ("MDISK".toList, .mdisk)]
  storspec := some .storspec
  num := .num
  word := .word
  blank := .blank
  keywords_upper := by decide

/-! ### The rules as a scanner -/

section Rules

variable {K : TokenKinds κ} {l : List Char} {c : Char}

/-- What the rules behind the keywords match. -/
theorem classKind_isSome : (classKind K l).isSome ↔
    (K.storspec.isSome = true ∧ isStorspec l = true) ∨
      l.all isHexDigit = true ∨ l.all Char.isUpper = true ∨ l.all isBlank = true := by
  unfold classKind
  split_ifs with hstor hhex hupper hblank
  · rw [Bool.and_eq_true] at hstor
    exact iff_of_true hstor.1 (Or.inl hstor)
  · exact iff_of_true rfl (Or.inr (Or.inl hhex))
  · exact iff_of_true rfl (Or.inr (Or.inr (Or.inl hupper)))
  · exact iff_of_true rfl (Or.inr (Or.inr (Or.inr hblank)))
  · rw [Bool.and_eq_true] at hstor
    refine iff_of_false Bool.false_ne_true ?_
    rintro (h | h | h | h)
    · exact hstor h
    · exact hhex h
    · exact hupper h
    · exact hblank h

/-- **What is a token:** keywords are words. -/
theorem lineKind_isSome : (lineKind K l).isSome ↔ l ≠ [] ∧ (l = ['\n'] ∨ isComment l = true ∨
    (K.storspec.isSome = true ∧ isStorspec l = true) ∨
      l.all isHexDigit = true ∨ l.all Char.isUpper = true ∨ l.all isBlank = true) := by
  unfold lineKind
  split_ifs with hnil hnline hcomment
  · exact iff_of_false Bool.false_ne_true fun h => h.1 hnil
  · exact iff_of_true rfl ⟨hnil, Or.inl hnline⟩
  · exact iff_of_true rfl ⟨hnil, Or.inr (Or.inl hcomment)⟩
  · rw [Option.isSome_or, Bool.or_eq_true, classKind_isSome]
    constructor
    · rintro (h | h)
      · obtain ⟨k, hk⟩ := Option.isSome_iff_exists.1 h
        obtain ⟨l₁, l₂, hkeywords, -⟩ := List.lookup_eq_some_iff.1 hk
        have hupper := K.keywords_upper (l, k) (by rw [hkeywords]; simp)
        exact ⟨hnil, Or.inr (Or.inr (Or.inr (Or.inr (Or.inl hupper.2))))⟩
      · exact ⟨hnil, Or.inr (Or.inr h)⟩
    · rintro ⟨-, h | h | h⟩
      · exact absurd h hnline
      · exact absurd h hcomment
      · exact Or.inr h

/-- A comment goes on up to the newline. -/
theorem isComment_append (hl : l ≠ []) :
    isComment (l ++ [c]) = (isComment l && c ≠ '\n') := by
  obtain ⟨d, l, rfl⟩ := List.exists_cons_of_ne_nil hl
  simp [isComment, Bool.and_assoc]

/-- A storage size is digits and a letter. -/
theorem isStorspec_append : isStorspec (l ++ [c]) =
    ((c = 'K' || c = 'M' || c = 'G' || c = 'T' || c = 'P') && l != [] && l.all Char.isDigit) := by
  simp [isStorspec]

/-- A decimal digit is a hexadecimal one. -/
theorem isHexDigit_of_isDigit (h : c.isDigit = true) : isHexDigit c = true := by
  rw [isHexDigit, h, Bool.true_or]

/-- **Every nonempty prefix of a token is a token.** -/
theorem lineKind_left (hl : l ≠ []) (h : (lineKind K (l ++ [c])).isSome) :
    (lineKind K l).isSome := by
  rw [lineKind_isSome] at h ⊢
  refine ⟨hl, ?_⟩
  rcases h.2 with h | h | ⟨-, h⟩ | h | h | h
  · have hlen := congrArg List.length h
    rw [List.length_append, List.length_singleton, List.length_singleton] at hlen
    exact absurd (List.eq_nil_of_length_eq_zero (Nat.succ.inj hlen)) hl
  · rw [isComment_append hl, Bool.and_eq_true] at h
    exact Or.inr (Or.inl h.1)
  · rw [isStorspec_append, Bool.and_eq_true] at h
    refine Or.inr (Or.inr (Or.inr (Or.inl ?_)))
    exact List.all_eq_true.2 fun d hd => isHexDigit_of_isDigit (List.all_eq_true.1 h.2 d hd)
  · rw [List.all_append, Bool.and_eq_true] at h
    exact Or.inr (Or.inr (Or.inr (Or.inl h.1)))
  · rw [List.all_append, Bool.and_eq_true] at h
    exact Or.inr (Or.inr (Or.inr (Or.inr (Or.inl h.1))))
  · rw [List.all_append, Bool.and_eq_true] at h
    exact Or.inr (Or.inr (Or.inr (Or.inr (Or.inr h.1))))

/-- The lexemes that no character extends. -/
def lineFinal (K : TokenKinds κ) (l : List Char) : Bool :=
  l = ['\n'] || (K.storspec.isSome && isStorspec l)

/-- A digit is no capital letter. -/
theorem not_upper_of_isDigit (h : c.isDigit = true) : c.isUpper = false := by
  rw [← Bool.not_eq_true]
  intro hupper
  simp only [Char.isDigit, ge_iff_le, Bool.and_eq_true, decide_eq_true_eq,
    UInt32.le_iff_toNat_le] at h
  have hle : c.val.toNat ≤ 57 := h.2
  have hletter : c.val ≥ 'A'.val ∧ c.val ≤ 'Z'.val := of_decide_eq_true hupper
  have hge : 65 ≤ c.val.toNat := UInt32.le_iff_toNat_le.1 hletter.1
  omega

/-- A digit is no blank. -/
theorem not_blank_of_isDigit (h : c.isDigit = true) : isBlank c = false := by
  by_contra hblank
  simp only [isBlank, Bool.or_eq_true, decide_eq_true_eq, Bool.not_eq_false] at hblank
  rcases hblank with rfl | rfl
  · exact absurd h (by decide)
  · exact absurd h (by decide)

/-- Nothing goes on behind the letter of a storage size. -/
theorem lineKind_storspec_append (h : isStorspec l = true) (c : Char) :
    lineKind K (l ++ [c]) = none := by
  rcases List.eq_nil_or_concat l with rfl | ⟨ds, k, hconcat⟩
  · exact absurd h (by decide)
  · rw [List.concat_eq_append] at hconcat
    subst hconcat
    rw [isStorspec_append] at h
    simp only [Bool.and_eq_true, bne_iff_ne, ne_eq] at h
    obtain ⟨⟨hk, hne⟩, hdigits⟩ := h
    obtain ⟨d, ds, rfl⟩ := List.exists_cons_of_ne_nil hne
    have hd : d.isDigit = true := List.all_eq_true.1 hdigits d (List.mem_cons_self ..)
    have hletter : isHexDigit k = false ∧ k.isDigit = false := by
      simp only [Bool.or_eq_true, decide_eq_true_eq] at hk
      rcases hk with (((rfl | rfl) | rfl) | rfl) | rfl <;> decide
    rw [← Option.not_isSome_iff_eq_none, lineKind_isSome]
    rintro ⟨-, h | h | ⟨-, h⟩ | h | h | h⟩
    · exact absurd (congrArg List.length h) (by simp)
    · have hstar : d = '*' := by
        simp only [List.cons_append, isComment, Bool.and_eq_true, decide_eq_true_eq] at h
        exact h.1
      subst hstar
      exact absurd hd (by decide)
    · rw [isStorspec_append] at h
      simp [hletter.2] at h
    · simp [hletter.1] at h
    · simp [not_upper_of_isDigit hd] at h
    · simp [not_blank_of_isDigit hd] at h

/-- A token that is final goes on with no character. -/
theorem lineFinal_iff (h : (lineKind K l).isSome) :
    lineFinal K l = true ↔ ∀ c, lineKind K (l ++ [c]) = none := by
  constructor
  · intro hfinal c
    rw [lineFinal, Bool.or_eq_true, decide_eq_true_eq, Bool.and_eq_true] at hfinal
    rcases hfinal with rfl | ⟨-, hstor⟩
    · rw [← Option.not_isSome_iff_eq_none, lineKind_isSome]
      rintro ⟨-, h | h | ⟨-, h⟩ | h | h | h⟩
      · exact absurd (congrArg List.length h) (by simp)
      · simp [isComment] at h
      · rw [isStorspec_append] at h
        simp at h
      · simp [isHexDigit] at h
      · simp at h
      · simp [isBlank] at h
    · exact lineKind_storspec_append hstor c
  · intro hnone
    have hgo : ∀ c, ¬ (lineKind K (l ++ [c])).isSome := by
      intro c hsome
      rw [hnone c] at hsome
      exact nomatch hsome
    have hne : ∀ c, l ++ [c] ≠ [] := by simp
    rw [lineFinal, Bool.or_eq_true, decide_eq_true_eq, Bool.and_eq_true]
    rw [lineKind_isSome] at h
    rcases h.2 with hnl | hcomment | hstor | hhex | hupper | hblank
    · exact Or.inl hnl
    · refine absurd (lineKind_isSome.2 ⟨hne 'X', Or.inr (Or.inl ?_)⟩) (hgo 'X')
      rw [isComment_append h.1, hcomment]
      decide
    · exact Or.inr hstor
    · refine absurd (lineKind_isSome.2 ⟨hne '0', Or.inr (Or.inr (Or.inr (Or.inl ?_)))⟩) (hgo '0')
      rw [List.all_append, hhex]
      decide
    · refine absurd (lineKind_isSome.2
        ⟨hne 'A', Or.inr (Or.inr (Or.inr (Or.inr (Or.inl ?_))))⟩) (hgo 'A')
      rw [List.all_append, hupper]
      decide
    · refine absurd (lineKind_isSome.2
        ⟨hne ' ', Or.inr (Or.inr (Or.inr (Or.inr (Or.inr ?_))))⟩) (hgo ' ')
      rw [List.all_append, hblank]
      decide

/-- A token with a newline at its end is that newline. -/
theorem lineKind_newline (h : (lineKind K (l ++ ['\n'])).isSome) : l = [] := by
  rw [lineKind_isSome] at h
  rcases h.2 with h | h | ⟨-, h⟩ | h | h | h
  · exact (List.append_eq_singleton_iff.1 h).elim And.left fun h => absurd h.2 (by simp)
  · by_contra hne
    rw [isComment_append hne] at h
    simp at h
  · rw [isStorspec_append] at h
    simp at h
  · simp [isHexDigit] at h
  · simp at h
  · simp [isBlank] at h

/-- The scanner of the rules. -/
def lineRules (K : TokenKinds κ) : Rules Char κ where
  kind := lineKind K
  final := lineFinal K
  kind_nil := if_pos rfl
  prefix_closed _ _ := lineKind_left
  final_iff _ := lineFinal_iff

/-! ### The generated scanner -/

/-- **The rule whose action the generated scanner takes** for a lexeme.  A first character
that no rule matches ends up in the action of the first rule. -/
def scanKind (K : TokenKinds κ) (l : List Char) : Option κ :=
  (lineKind K l).or (if l.length = 1 then some K.nline else none)

/-- The lexemes behind which it does not look at the next character. -/
def scanFinal (K : TokenKinds κ) (l : List Char) : Bool :=
  lineFinal K l || (l.length = 1 && (lineKind K l).isNone)

/-- The scanner's kind of a token is the line's, if that has one. -/
theorem scanKind_of_isSome (h : (lineKind K l).isSome) : scanKind K l = lineKind K l := by
  obtain ⟨k, hk⟩ := Option.isSome_iff_exists.1 h
  rw [scanKind, hk, Option.some_or]

/-- A lexeme has a kind if a rule matches it, or it is a single character. -/
theorem scanKind_isSome : (scanKind K l).isSome ↔ (lineKind K l).isSome ∨ l.length = 1 := by
  rw [scanKind, Option.isSome_or, Bool.or_eq_true]
  refine or_congr_right ?_
  split
  · rename_i hone
    exact iff_of_true rfl hone
  · rename_i hone
    exact iff_of_false Bool.false_ne_true hone

/-- **A lexeme of two characters or more** is one of the rules. -/
theorem scanKind_append (hl : l ≠ []) : scanKind K (l ++ [c]) = lineKind K (l ++ [c]) := by
  have hlong : ¬ (l ++ [c]).length = 1 := by
    have := List.length_pos_of_ne_nil hl
    rw [List.length_append, List.length_singleton]
    omega
  rw [scanKind, if_neg hlong, Option.or_none]

/-- What begins a lexeme with a kind has a kind. -/
theorem scanKind_prefix (hl : l ≠ []) (h : (scanKind K (l ++ [c])).isSome) :
    (scanKind K l).isSome := by
  rw [scanKind_append hl] at h
  exact scanKind_isSome.2 (Or.inl (lineKind_left hl h))

/-- A lexeme that is final goes on with no character. -/
theorem scanFinal_iff (h : (scanKind K l).isSome) :
    scanFinal K l = true ↔ ∀ c, scanKind K (l ++ [c]) = none := by
  have hl : l ≠ [] := by
    rintro rfl
    rw [scanKind_isSome] at h
    rcases h with h | h
    · exact (lineKind_isSome.1 h).1 rfl
    · exact Nat.zero_ne_one h
  have hnext : (∀ c, scanKind K (l ++ [c]) = none) ↔ ∀ c, lineKind K (l ++ [c]) = none :=
    forall_congr' fun c => by rw [scanKind_append hl]
  rw [hnext, scanFinal, Bool.or_eq_true, Bool.and_eq_true, decide_eq_true_eq]
  by_cases hrule : (lineKind K l).isSome
  · rw [lineFinal_iff hrule, Option.isNone_iff_eq_none]
    obtain ⟨k, hk⟩ := Option.isSome_iff_exists.1 hrule
    simp [hk]
  · -- nothing goes on with a character that no rule matches
    have hone := (scanKind_isSome.1 h).resolve_left hrule
    have hnone := Option.not_isSome_iff_eq_none.1 hrule
    refine iff_of_true (Or.inr ⟨hone, Option.isNone_iff_eq_none.2 hnone⟩) fun c => ?_
    by_contra hsome
    exact hrule (lineKind_left hl (Option.isSome_iff_ne_none.2 hsome))

/-- A newline goes on with no lexeme. -/
theorem scanKind_newline (h : (scanKind K (l ++ ['\n'])).isSome) : l = [] := by
  rcases scanKind_isSome.1 h with h | h
  · exact lineKind_newline h
  · rw [List.length_append, List.length_singleton] at h
    exact List.length_eq_zero_iff.1 (Nat.succ.inj h)

/-- The rules of the generated scanner. -/
def scanRules (K : TokenKinds κ) : Rules Char κ where
  kind := scanKind K
  final := scanFinal K
  kind_nil := rfl
  prefix_closed _ _ := scanKind_prefix
  final_iff _ := scanFinal_iff

/-- **Every character begins a lexeme.** -/
theorem scanRules_goesOn_nil (K : TokenKinds κ) (c : Char) :
    (scanRules K).goesOn [] c = true := scanKind_isSome.2 (Or.inr rfl)

/-- The scanner goes on as the lines' rules do. -/
theorem scanRules_goesOn (hl : l ≠ []) (c : Char) :
    (scanRules K).goesOn l c = (lineRules K).goesOn l c :=
  congrArg Option.isSome (scanKind_append hl)

/-- **A text of tokens** has the same lexemes for the generated scanner. -/
theorem scan_scanRules {text : List Char} {ms : List (List Char)}
    (h : (lineRules K).scan l text = some ms) : (scanRules K).scan l text = some ms := by
  induction text generalizing l ms with
  | nil => exact h
  | cons d text ih =>
    have hstart : ∀ d, (lineRules K).goesOn [] d = true → (scanRules K).goesOn [] d = true :=
      fun d _ => scanRules_goesOn_nil K d
    rw [Rules.scan] at h ⊢
    by_cases hl : l = []
    · subst hl
      have hgoes : (lineRules K).goesOn [] d = true := by
        by_contra hno
        rw [if_neg hno] at h
        cases h
      rw [if_pos hgoes] at h
      rw [if_pos (hstart d hgoes)]
      exact ih h
    · have hempty : ¬ l.isEmpty = true := by simpa using hl
      rw [scanRules_goesOn hl]
      split_ifs at h ⊢ with hgoes
      · exact ih h
      · obtain ⟨left, hleft, rfl⟩ := Option.map_eq_some_iff.1 h
        rw [ih hleft]
        rfl
      · exact absurd (hstart d (by assumption)) (by assumption)

/-- No text is without lexemes. -/
theorem scan_scanRules_isSome (K : TokenKinds κ) (l text : List Char) :
    ((scanRules K).scan l text).isSome := by
  induction text generalizing l with
  | nil => rfl
  | cons d text ih =>
    rw [Rules.scan]
    split_ifs with hgoes hempty
    · exact ih _
    · rw [List.isEmpty_iff.1 hempty] at hgoes
      exact absurd (scanRules_goesOn_nil K d) hgoes
    · rw [Option.isSome_map]
      exact ih _
    · exact absurd (scanRules_goesOn_nil K d) (by assumption)

end Rules

end Hvf
