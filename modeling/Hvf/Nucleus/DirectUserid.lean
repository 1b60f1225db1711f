/-
# Userids

The token rules of `cp/nucleus/direct.l` overlap: `[0-9A-F]+` comes before
`[A-Z]+` and matches a word of the letters A to F as long as the word, so such a
word is a number, and no production takes a number behind `USER`.
`userid_iff` says when a user gets the name that stands there.
-/

import Hvf.Nucleus.DirectAuth

namespace Hvf

/-- A line `USER .. ` of a directory; the userid and `rest` follow, which is
blanks and the authorization. -/
structure UseridStatement (before after : List (List Char)) (pre rest : List Char) : Prop where
  before_lines : ∀ l ∈ before, '\n' ∉ l
  after_lines : ∀ l ∈ after, '\n' ∉ l
  pre_line : '\n' ∉ pre
  pre_tokens : tokens directKinds pre = some [(.user, "USER".toList)]
  pre_blank : ∃ c, pre.getLast? = some c ∧ isBlank c = true
  rest_line : '\n' ∉ rest
  rest_blank : ∀ c ∈ rest.head?, isBlank c = true
  rest_tokens : ∃ k l, (k = .word ∨ k = .num) ∧ tokens directKinds rest = some [(k, l)]

section Statement

variable {heap heap' : ℕ → List Char} {before after : List (List Char)}
  {pre rest v w : List Char} {us : List User}

/-- A word that is no keyword, up to the overlap of the rules. -/
theorem lineKind_letters {w : List Char} (hne : w ≠ []) (hw : w.all Char.isUpper = true)
    (hkey : directKinds.keywords.lookup w = none) :
    lineKind directKinds w = some (if w.all isHexDigit = true then .num else .word) := by
  split_ifs with hhex
  · exact lineKind_num hne hhex
  · obtain ⟨c, cs, rfl⟩ := List.exists_cons_of_ne_nil hne
    have hc : c.isUpper = true := List.all_eq_true.1 hw c (List.mem_cons_self ..)
    have hnline : c :: cs ≠ ['\n'] := by
      intro h
      rw [(List.cons.inj h).1] at hc
      exact absurd hc (by decide)
    have hcomment : isComment (c :: cs) ≠ true := by
      intro h
      rw [isComment.eq_2, Bool.and_eq_true, decide_eq_true_eq] at h
      rw [h.1] at hc
      exact absurd hc (by decide)
    have hstor : isStorspec (c :: cs) ≠ true := by
      intro h
      rcases List.eq_nil_or_concat (c :: cs) with hnil | ⟨ds, d, hconcat⟩
      · exact hne hnil
      · rw [hconcat, List.concat_eq_append, isStorspec_append] at h
        simp only [Bool.and_eq_true, bne_iff_ne] at h
        obtain ⟨e, he⟩ := List.exists_mem_of_ne_nil ds h.1.2
        have hupper := List.all_eq_true.1 hw e
          (by rw [hconcat, List.concat_eq_append]; exact List.mem_append_left _ he)
        rw [not_upper_of_isDigit (List.all_eq_true.1 h.2 e he)] at hupper
        cases hupper
    rw [lineKind, if_neg hne, if_neg hnline, if_neg hcomment, hkey, Option.none_or, classKind,
      if_neg (by simp [hstor]), if_neg hhex, if_pos hw]
    rfl

/-- The line made around a name has no newline in it. -/
theorem UseridStatement.line (h : UseridStatement before after pre rest)
    (hw : w.all Char.isUpper = true) : '\n' ∉ pre ++ (w ++ rest) := by
  rw [List.mem_append, List.mem_append]
  rintro (hmem | hmem | hmem)
  · exact h.pre_line hmem
  · exact absurd (List.all_eq_true.1 hw _ hmem) (by decide)
  · exact h.rest_line hmem

/-- The tokens of the statement. -/
theorem UseridStatement.tokens (h : UseridStatement before after pre rest) (hne : w ≠ [])
    (hw : w.all Char.isUpper = true) {kind : DirectToken} (hblank : kind ≠ .blank)
    (hkind : lineKind directKinds w = some kind) :
    Hvf.tokens directKinds (pre ++ (w ++ rest)) = (Hvf.tokens directKinds rest).map fun toks =>
      (.user, "USER".toList) :: (kind, w) :: toks := by
  have hhead : ∀ c ∈ (w ++ rest).head?, isBlank c = false := by
    intro c hc
    obtain ⟨d, ds, rfl⟩ := List.exists_cons_of_ne_nil hne
    obtain rfl := Option.some.inj hc
    exact not_isBlank (Or.inl (List.all_eq_true.1 hw d (List.mem_cons_self ..)))
  rw [tokens_behind h.pre_tokens (by decide) h.pre_blank hhead, tokens_blank hkind hblank
    (fun c hc => Or.inl (List.all_eq_true.1 hw c hc)) h.rest_blank, Option.map_map]
  rfl

/-- **A word of hexadecimal digits is rejected.** -/
theorem UseridStatement.not_loads (h : UseridStatement before after pre rest) (hne : w ≠ [])
    (hw : w.all Char.isUpper = true) (hnum : lineKind directKinds w = some .num) :
    ¬ Loads heap (directoryText before after pre rest w) us := by
  intro hload
  obtain ⟨tss, toks, tss', -, htoks, -, hread⟩ :=
    (loads_line h.before_lines h.after_lines (h.line hw)).1 hload
  rw [h.tokens hne hw (by simp) hnum] at htoks
  obtain ⟨toks, -, rfl⟩ := Option.map_eq_some_iff.1 htoks
  obtain ⟨name, auth, hl, -⟩ := readLines_header hread
  exact nomatch hl

/-- **A word is accepted wherever another one is,** and the user has the name that
`strdup` leaves. -/
theorem UseridStatement.loads (h : UseridStatement before after pre rest) (hne : w ≠ [])
    (hw : w.all Char.isUpper = true) (hword : lineKind directKinds w = some .word)
    (hv : lineKind directKinds v = some .word)
    (hload : Loads heap' (directoryText before after pre rest v) us) :
    ∃ us u, Loads heap (directoryText before after pre rest w) us ∧
      us[(before.map textKind).count .user]? = some u ∧
      u.userid = w ++ heap (wordsOf before) := by
  have hvne : v ≠ [] := (lineKind_isSome.1 (Option.isSome_of_mem hv)).1
  have hvupper : v.all Char.isUpper = true := by
    cases matchesRule hv with
    | keyword h => exact absurd rfl (keyword_spec h).2.2.2.1
    | word h => exact h
  obtain ⟨tss, toks, tss', htss, htoks, htss', hread⟩ :=
    (loads_line h.before_lines h.after_lines (h.line hvupper)).1 hload
  obtain ⟨k, l, hk, hrest⟩ := h.rest_tokens
  rw [h.tokens hvne hvupper (by simp) hv, hrest] at htoks
  obtain rfl := Option.some.inj htoks
  have htoks' := h.tokens hne hw (by simp) hword
  rw [hrest] at htoks'
  obtain ⟨auth, hauth⟩ : ∃ auth, operandAuth (heap (wordsOf before + 1)) [(k, l)] = some auth := by
    rcases hk with rfl | rfl
    · exact ⟨_, rfl⟩
    · exact ⟨_, rfl⟩
  have hl : headerLine (lexSyms heap (wordsOf before)
      [(.user, "USER".toList), (.word, w), (k, l)]) = some (w ++ heap (wordsOf before), auth) := by
    have hheader : headerLine (lexSyms heap (wordsOf before)
        ([(.user, "USER".toList), (.word, w)] ++ [(k, l)]))
          = (operandAuth (heap (wordsOf before + 1)) [(k, l)]).map
              (w ++ heap (wordsOf before), ·) := headerLine_lexSyms hrest
    rwa [hauth] at hheader
  obtain ⟨us', hus'⟩ := readLines_of_similar hread (lineSyms_similar heap' heap 0 0 tss)
    (lineSyms_similar heap' heap _ (wordsOf before +
      words [(.user, "USER".toList), (.word, w), (k, l)]) tss') hl
  obtain ⟨name, auth', hl', hheader⟩ := readLines_header hus'
  obtain ⟨rfl, rfl⟩ := Prod.mk.inj (Option.some.inj (hl.symm.trans hl'))
  rw [lineSyms_kinds htss] at hheader
  obtain ⟨u, hu, hheader⟩ := Option.map_eq_some_iff.1 hheader
  exact ⟨us', u, (loads_line h.before_lines h.after_lines (h.line hw)).2
    ⟨tss, _, tss', htss, htoks', htss', hus'⟩, hu, (Prod.mk.inj hheader).1⟩

/-- The scanner returns the word, and the user with index `i` gets this name; `k`
words come before. -/
def TakesUserid (heap : ℕ → List Char) (text : List Char → List Char) (k i : ℕ)
    (w : List Char) : Prop :=
  (∃ kind, Hvf.tokens directKinds w = some [(kind, w)] ∧ sym (heap k) kind w = some (.word w)) ∧
    ∃ us u, Loads heap (text w) us ∧ us[i]? = some u ∧ u.userid = w

/-- **Exactly when a word is a userid,** in a directory that is loaded with another
word in this place: one of its letters is not among A to F, and a zero byte is
behind the copy. -/
theorem userid_iff (h : UseridStatement before after pre rest) (hne : w ≠ [])
    (hw : w.all Char.isUpper = true) (hkey : directKinds.keywords.lookup w = none)
    (hv : lineKind directKinds v = some .word)
    (hload : Loads heap' (directoryText before after pre rest v) us) :
    TakesUserid heap (directoryText before after pre rest) (wordsOf before)
        ((before.map textKind).count .user) w ↔
      (∃ c ∈ w, isHexDigit c = false) ∧ heap (wordsOf before) = [] := by
  have hkind := lineKind_letters hne hw hkey
  by_cases hhex : w.all isHexDigit = true
  · rw [if_pos hhex] at hkind
    refine iff_of_false ?_ ?_
    · rintro ⟨-, us, u, hus, -⟩
      exact h.not_loads hne hw hkind hus
    · rintro ⟨⟨c, hc, hnot⟩, -⟩
      rw [List.all_eq_true.1 hhex c hc] at hnot
      exact nomatch hnot
  · rw [if_neg hhex] at hkind
    have hother : ∃ c ∈ w, isHexDigit c = false := by simpa using hhex
    have hloads : ∃ us u, Loads heap (directoryText before after pre rest w) us ∧
        us[(before.map textKind).count .user]? = some u ∧
        u.userid = w ++ heap (wordsOf before) := h.loads hne hw hkind hv hload
    obtain ⟨us', u, hus', hu, huserid⟩ := hloads
    constructor
    · rintro ⟨⟨kind, htoks, hsym⟩, -⟩
      have hsingle : Hvf.tokens directKinds (w ++ []) = some [(.word, w)] :=
        tokens_single hkind (by simp) (fun c hc => Or.inl (List.all_eq_true.1 hw c hc)) rfl
      rw [List.append_nil, htoks] at hsingle
      obtain ⟨rfl, -⟩ := Prod.mk.inj (List.cons.inj (Option.some.inj hsingle)).1
      rw [sym, Option.some_inj, Sym.word.injEq] at hsym
      exact ⟨hother, List.append_right_eq_self.1 hsym⟩
    · rintro ⟨-, hzero⟩
      rw [hzero, List.append_nil] at huserid
      have hsingle : Hvf.tokens directKinds (w ++ []) = some [(.word, w)] :=
        tokens_single hkind (by simp) (fun c hc => Or.inl (List.all_eq_true.1 hw c hc)) rfl
      rw [List.append_nil] at hsingle
      exact ⟨⟨.word, hsingle, by rw [sym, hzero, List.append_nil]⟩, us', u, hus', hu, huserid⟩

/-- The example's statement is one of the form. -/
theorem operator_userid : UseridStatement [] ["STORAGE 1".toList, "CONSOLE 9 3215".toList]
    "USER ".toList " ABG".toList :=
  ⟨by decide, by decide, by decide, by decide +kernel, ⟨' ', by decide⟩, by decide,
    by simp [isBlank], ⟨.word, "ABG".toList, by simp, by decide +kernel⟩⟩

/-- The example's directory loads, by evaluation. -/
theorem operator_userid_loads : Loads (fun _ => [])
    (directoryText [] ["STORAGE 1".toList, "CONSOLE 9 3215".toList] "USER ".toList " ABG".toList
      "OPERATOR".toList)
    [⟨"OPERATOR".toList, 1, [.cons 9], 0xc2⟩] :=
  (loads_iff (by decide) _).2 ⟨_, rfl, by decide +kernel⟩

/-- `USER MAINT ABG`: the user has that name, and the directory loads as with any other. -/
theorem userid_iff_maint : TakesUserid (fun _ => [])
    (directoryText [] ["STORAGE 1".toList, "CONSOLE 9 3215".toList] "USER ".toList " ABG".toList)
    0 0 "MAINT".toList :=
  (userid_iff operator_userid (by simp) (by decide) (by decide +kernel) (by decide +kernel)
    operator_userid_loads).2 ⟨⟨'M', by simp, by decide⟩, rfl⟩

/-- `ABE` is a hexadecimal number to the scanner, so there is no user of that name. -/
theorem userid_abe : ¬ TakesUserid (fun _ => [])
    (directoryText [] ["STORAGE 1".toList, "CONSOLE 9 3215".toList] "USER ".toList " ABG".toList)
    0 0 "ABE".toList := by
  rintro ⟨-, us, u, hus, -⟩
  exact operator_userid.not_loads (by simp) (by decide) (by decide +kernel) hus

end Statement

end Hvf
