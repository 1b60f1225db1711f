/-
# Empty lines in the directory

The manual says that empty lines and lines with only white space are ignored.  In
`cp/nucleus/direct.y` an empty line is a `NLINE` like any other: `users` takes one
between two definitions and two in front of the first one, or one alone, and a
definition takes none.  `Layout` is where the empty lines have to be, and
`load_empty_lines_iff` says that a text is loaded exactly then, given that another
one with the same lines is.
-/

import Hvf.Nucleus.DirectText

namespace Hvf

/-! ### Layouts -/

/-- **What a line is for the layout of a directory**: empty, the header of a user, or
another. Where empty lines may stand depends on no more. -/
inductive LayoutKind
  | blank | user | other
  deriving DecidableEq, Repr

/-- A line of the text: only white space, or a `USER` statement, or another one. -/
def textKind (l : List Char) : LayoutKind :=
  if l.all isBlank then .blank
  else
    match tokens directKinds l with
    | some ((.user, _) :: _) => .user
    | _ => .other

/-- **The definitions are separated by one empty line**, and no other line is empty. -/
structure Separated (ks : List LayoutKind) : Prop where
  nonempty : ks ≠ []
  begins : ks.head? ≠ some .blank
  ends : ks.getLast? ≠ some .blank
  between : ks.IsChain fun a b => b = .user ↔ a = .blank

/-- The layouts that the grammar allows: one empty line and nothing else, or
separated definitions with no or two empty lines before them. -/
def Layout (ks : List LayoutKind) : Prop :=
  ks = [.blank] ∨ Separated ks ∨ ∃ ks', ks = .blank :: .blank :: ks' ∧ Separated ks'

/-- What a line of symbols is: empty, beginning with `USER`, or another. -/
def symKind : List Sym → LayoutKind
  | [] => .blank
  | .user :: _ => .user
  | _ => .other

/-- A line is empty exactly when it has no symbol. -/
theorem symKind_eq_blank {l : List Sym} : symKind l = .blank ↔ l = [] := by
  constructor
  · intro h
    unfold symKind at h
    split at h
    · rfl
    · exact nomatch h
    · exact nomatch h
  · rintro rfl
    rfl

/-! ### Lines that are read have such a layout -/

/-- What the last line was, where a definition is being read or one was. -/
def After (k : LayoutKind) : DirectState → Prop
  | .start => False
  | .empty => False
  | .between _ => k = .blank
  | .header .. => k ≠ .blank
  | .props .. => k ≠ .blank
  | .vdevs .. => k ≠ .blank

/-- A line that begins a user is a header line. -/
theorem beginUser_after {us : List User} {l : List Sym} {s : DirectState}
    (h : beginUser us l = some s) : symKind l = .user ∧ After .user s := by
  obtain ⟨⟨name, auth⟩, hl, rfl⟩ := Option.map_eq_some_iff.1 h
  rcases headerLine_eq_some hl with ⟨w, rfl, -⟩ | ⟨n, rfl, -⟩
  · exact ⟨rfl, by simp [After]⟩
  · exact ⟨rfl, by simp [After]⟩

/-- A property line is neither empty nor a header. -/
theorem propLine_kind {l : List Sym} {p : DirectoryProp} (h : propLine l = some p) :
    symKind l = .other := by
  unfold propLine at h
  split at h
  · rfl
  · rfl
  · rfl
  · exact nomatch h

/-- A device line is neither empty nor a header. -/
theorem vdevLine_kind {l : List Sym} {v : DirectoryVdev} (h : vdevLine l = some v) :
    symKind l = .other := by
  unfold vdevLine at h
  split at h
  · rfl
  · rfl
  · rfl
  · rfl
  · rfl
  · exact nomatch h

/-- A line is a `USER` statement exactly when the one before is empty. -/
theorem lineStep_after {k : LayoutKind} {s s' : DirectState} {l : List Sym} (h : After k s)
    (hstep : lineStep s l = some s') :
    (symKind l = .user ↔ k = .blank) ∧ After (symKind l) s' := by
  cases s with
  | start => exact h.elim
  | empty => exact h.elim
  | between us =>
    obtain ⟨hl, hs'⟩ := beginUser_after hstep
    exact ⟨iff_of_true hl h, by rwa [hl]⟩
  | header us name auth =>
    obtain ⟨p, hp, rfl⟩ := Option.map_eq_some_iff.1 hstep
    rw [propLine_kind hp]
    exact ⟨iff_of_false (by simp) h, by simp [After]⟩
  | props us name auth p =>
    rw [lineStep] at hstep
    split at hstep
    · obtain ⟨q, -, rfl⟩ := Option.map_eq_some_iff.1 hstep
      rw [propLine_kind (by assumption)]
      exact ⟨iff_of_false (by simp) h, by simp [After]⟩
    · obtain ⟨v, hv, rfl⟩ := Option.map_eq_some_iff.1 hstep
      rw [vdevLine_kind hv]
      exact ⟨iff_of_false (by simp) h, by simp [After]⟩
  | vdevs us name auth p vs =>
    rw [lineStep] at hstep
    split_ifs at hstep with hnil
    · obtain ⟨u, -, rfl⟩ := Option.map_eq_some_iff.1 hstep
      subst hnil
      exact ⟨iff_of_false (by simp [symKind]) h, rfl⟩
    · obtain ⟨v, hv, rfl⟩ := Option.map_eq_some_iff.1 hstep
      rw [vdevLine_kind hv]
      exact ⟨iff_of_false (by simp) h, by simp [After]⟩

/-- **Where the empty lines of a directory that loads stand**: before every header, and nowhere
else. -/
theorem foldlM_after {k : LayoutKind} {s s' : DirectState} {ls : List (List Sym)} {us : List User}
    (h : After k s) (hfold : ls.foldlM lineStep s = some s') (hus : s'.users = some us) :
    (k :: ls.map symKind).IsChain (fun a b => b = .user ↔ a = .blank) ∧
      (k :: ls.map symKind).getLast? ≠ some .blank := by
  induction ls generalizing k s with
  | nil =>
    obtain rfl := Option.some.inj hfold
    refine ⟨.singleton _, ?_⟩
    cases s with
    | start => exact h.elim
    | empty => exact h.elim
    | between _ => exact nomatch hus
    | header _ _ _ => simpa [After] using h
    | props _ _ _ _ => simpa [After] using h
    | vdevs _ _ _ _ _ => simpa [After] using h
  | cons l ls ih =>
    obtain ⟨t, hstep, hrest⟩ := Option.bind_eq_some_iff.1 hfold
    obtain ⟨hkind, hafter⟩ := lineStep_after h hstep
    obtain ⟨hchain, hlast⟩ := ih hafter hrest
    refine ⟨.cons_cons hkind hchain, ?_⟩
    rwa [List.map_cons, List.getLast?_cons_cons]

/-- **Lines that are read have one of the layouts.** -/
theorem layout_of_readLines {ls : List (List Sym)} {us : List User}
    (h : readLines ls = some us) : Layout (ls.map symKind) := by
  obtain ⟨s, hfold, hus⟩ := Option.bind_eq_some_iff.1 h
  -- after the first line of a definition
  have huser : ∀ {us : List User} {l ls} {t : DirectState}, beginUser us l = some t →
      ls.foldlM lineStep t = some s → Separated ((l :: ls).map symKind) := by
    rintro us l ls t hbegin hfold
    obtain ⟨hl, hafter⟩ := beginUser_after hbegin
    obtain ⟨hchain, hlast⟩ := foldlM_after hafter hfold hus
    rw [List.map_cons, hl]
    exact ⟨List.cons_ne_nil _ _, by simp, hlast, hchain⟩
  cases ls with
  | nil =>
    obtain rfl := Option.some.inj hfold
    cases hus
  | cons l ls =>
    obtain ⟨t, hstep, hfold⟩ := Option.bind_eq_some_iff.1 hfold
    rw [lineStep] at hstep
    split_ifs at hstep with hnil
    · obtain rfl := Option.some.inj hstep
      subst hnil
      cases ls with
      | nil => exact Or.inl rfl
      | cons l ls =>
        obtain ⟨t, hstep, hfold⟩ := Option.bind_eq_some_iff.1 hfold
        rw [lineStep] at hstep
        split_ifs at hstep with hnil
        obtain rfl := Option.some.inj hstep
        subst hnil
        refine Or.inr (Or.inr ⟨ls.map symKind, rfl, ?_⟩)
        cases ls with
        | nil =>
          obtain rfl := Option.some.inj hfold
          cases hus
        | cons l ls =>
          obtain ⟨t, hstep, hfold⟩ := Option.bind_eq_some_iff.1 hfold
          exact huser hstep hfold
    · exact Or.inr (Or.inl (huser hstep hfold))

/-! ### The layout and the other lines make up the text -/

/-- Definitions with one empty line between them. -/
def spread : List (List Sym) → List (List Sym)
  | [] => [[]]
  | l :: ls => l :: ls.flatMap fun l => if symKind l = .user then [[], l] else [l]

/-- **Lines laid out so** are the lines that are not empty, with an empty one before each
header. -/
theorem flatMap_of_chain : ∀ (ls : List (List Sym)) {k : LayoutKind}, k ≠ .blank →
    (k :: ls.map symKind).IsChain (fun a b => b = .user ↔ a = .blank) →
    (k :: ls.map symKind).getLast? ≠ some .blank →
    (ls.filter (· ≠ [])).flatMap (fun l => if symKind l = .user then [[], l] else [l]) = ls
  | [], _, _, _, _ => rfl
  | [] :: [], _, _, _, hlast => absurd rfl hlast
  | [] :: l :: ls, k, hk, hchain, hlast => by
    rw [List.map_cons, List.map_cons, List.isChain_cons_cons, List.isChain_cons_cons] at hchain
    obtain ⟨-, huser, hchain⟩ := hchain
    have huser : symKind l = .user := huser.2 rfl
    have hne : l ≠ [] := by
      rintro rfl
      exact nomatch huser
    have hrest := flatMap_of_chain ls (k := symKind l) (by rw [huser]; simp) hchain
      (by simpa only [List.map_cons, List.getLast?_cons_cons] using hlast)
    rw [List.filter_cons_of_neg (by simp), List.filter_cons_of_pos (by simpa using hne),
      List.flatMap_cons, if_pos huser, hrest]
    rfl
  | (s :: l) :: ls, k, hk, hchain, hlast => by
    rw [List.map_cons, List.isChain_cons_cons] at hchain
    have hother : symKind (s :: l) ≠ .user := fun h => hk (hchain.1.1 h)
    have hrest := flatMap_of_chain ls (k := symKind (s :: l))
      (fun h => absurd (symKind_eq_blank.1 h) (by simp)) hchain.2
      (by simpa only [List.map_cons, List.getLast?_cons_cons] using hlast)
    rw [List.filter_cons_of_pos (by simp), List.flatMap_cons, if_neg hother, hrest]
    rfl

/-- The same for all lines of a directory. -/
theorem Separated.eq_spread {ls : List (List Sym)} (h : Separated (ls.map symKind)) :
    ls ≠ [] ∧ spread (ls.filter (· ≠ [])) = ls := by
  cases ls with
  | nil => exact absurd rfl h.nonempty
  | cons l ls =>
    have hk : symKind l ≠ .blank := fun heq => h.begins (by rw [← heq]; rfl)
    have hne : l ≠ [] := fun hnil => hk (symKind_eq_blank.2 hnil)
    refine ⟨List.cons_ne_nil _ _, ?_⟩
    rw [List.filter_cons_of_pos (by simpa using hne), spread,
      flatMap_of_chain ls hk h.between h.ends]

/-- Two empty lines before the first definition are ignored. -/
theorem readLines_nil_nil {ls : List (List Sym)} (hbegins : (ls.map symKind).head? ≠ some .blank) :
    readLines ([] :: [] :: ls) = readLines ls := by
  cases ls with
  | nil => rfl
  | cons l ls =>
    have hne : l ≠ [] := by
      rintro rfl
      exact hbegins rfl
    have hstep : lineStep (.between []) l = lineStep .start l := by
      rw [lineStep, lineStep, if_neg hne]
    have hleft : readLines ([] :: [] :: l :: ls) = ((lineStep (.between []) l).bind fun s =>
        ls.foldlM lineStep s).bind DirectState.users := rfl
    rw [hleft, hstep]
    rfl

/-- **What lines in such a layout define** is said by the lines that are not
empty. -/
theorem readLines_of_layout {ls : List (List Sym)} (h : Layout (ls.map symKind)) :
    readLines ls = readLines (spread (ls.filter (· ≠ []))) := by
  rcases h with hblank | hsep | ⟨ks, hks, hsep⟩
  · obtain ⟨l, rfl, hl⟩ := List.map_eq_singleton_iff.1 hblank
    rw [symKind_eq_blank.1 hl]
    rfl
  · rw [hsep.eq_spread.2]
  · obtain ⟨l, ls, rfl, hl, hls⟩ := List.map_eq_cons_iff.1 hks
    obtain ⟨l', ls, rfl, hl', rfl⟩ := List.map_eq_cons_iff.1 hls
    obtain rfl := symKind_eq_blank.1 hl
    obtain rfl := symKind_eq_blank.1 hl'
    rw [readLines_nil_nil hsep.begins, List.filter_cons_of_neg (by simp),
      List.filter_cons_of_neg (by simp), hsep.eq_spread.2]

/-! ### Texts -/

section Texts

variable {heap : ℕ → List Char} {k : ℕ}

/-- Every token becomes a symbol, the keyword `USER` and no other the symbol `USER`. -/
theorem sym_isSome {l : List Char} {toks : List DirectLexeme}
    (h : tokens directKinds l = some toks) {t : DirectLexeme} (ht : t ∈ toks) (junk : List Char) :
    ∃ s, sym junk t.1 t.2 = some s ∧ (s = .user ↔ t.1 = .user) := by
  obtain ⟨-, hblank, -⟩ := mem_tokens h ht
  obtain ⟨kind, m⟩ := t
  cases kind with
  | blank => exact absurd rfl hblank
  | nline | comment | user | machine | storage | console | spool | reader | punch | print | mdisk
    | storspec | num | word => exact ⟨_, rfl, by simp⟩

/-- The kind of a line is that of its symbols. -/
theorem textKind_eq {l : List Char} {toks : List DirectLexeme}
    (h : tokens directKinds l = some toks) : textKind l = symKind (lexSyms heap k toks) := by
  rw [textKind]
  split_ifs with hblank
  · obtain rfl := Option.some.inj (h.symm.trans (tokens_eq_nil_iff.2 hblank))
    rfl
  · rw [h]
    cases toks with
    | nil => exact absurd (tokens_eq_nil_iff.1 h) hblank
    | cons t toks =>
      obtain ⟨s, hs, huser⟩ := sym_isSome h (List.mem_cons_self ..) (heap k)
      obtain ⟨kind, m⟩ := t
      rw [lexSyms, hs, Option.toList_some, List.singleton_append]
      by_cases hkind : kind = .user
      · rw [huser.2 hkind, hkind]
        rfl
      · have hother : symKind (s :: lexSyms heap (if kind = .word then k + 1 else k) toks)
            = .other := by
          unfold symKind
          split
          · simp_all
          · simp_all
          · rfl
        rw [hother]
        split
        · simp_all
        · rfl

/-- A line without symbols is blank. -/
theorem lexSyms_eq_nil_iff {l : List Char} {toks : List DirectLexeme}
    (h : tokens directKinds l = some toks) :
    lexSyms heap k toks = [] ↔ l.all isBlank = true := by
  rw [← symKind_eq_blank, ← textKind_eq h, textKind]
  split_ifs with hblank
  · exact iff_of_true rfl hblank
  · refine iff_of_false ?_ hblank
    split <;> simp

/-- The kind of a line of symbols is that of its text. -/
theorem lineSyms_kinds {ls : List (List Char)} {tss : List (List DirectLexeme)}
    (h : ls.mapM (tokens directKinds) = some tss) :
    (lineSyms heap k tss).map symKind = ls.map textKind := by
  induction ls generalizing tss k with
  | nil =>
    obtain rfl := Option.some.inj h
    rfl
  | cons l ls ih =>
    rw [List.mapM_cons] at h
    obtain ⟨toks, htoks, h⟩ := Option.bind_eq_some_iff.1 h
    obtain ⟨tss, htss, h⟩ := Option.bind_eq_some_iff.1 h
    obtain rfl := Option.some.inj h
    rw [lineSyms, List.map_cons, List.map_cons, ih htss, textKind_eq htoks]

/-- The lines that are not blank, and their symbols. -/
theorem lineSyms_filter {ls : List (List Char)} {tss : List (List DirectLexeme)}
    (h : ls.mapM (tokens directKinds) = some tss) :
    ∃ tss', (ls.filter fun l => !l.all isBlank).mapM (tokens directKinds) = some tss' ∧
      (lineSyms heap k tss).filter (· ≠ []) = lineSyms heap k tss' := by
  induction ls generalizing tss k with
  | nil =>
    obtain rfl := Option.some.inj h
    exact ⟨[], rfl, rfl⟩
  | cons l ls ih =>
    rw [List.mapM_cons] at h
    obtain ⟨toks, htoks, h⟩ := Option.bind_eq_some_iff.1 h
    obtain ⟨tss, htss, h⟩ := Option.bind_eq_some_iff.1 h
    obtain rfl := Option.some.inj h
    obtain ⟨tss', htss', hfilter⟩ := ih (k := k + words toks) htss
    by_cases hblank : l.all isBlank = true
    · obtain rfl := Option.some.inj (htoks.symm.trans (tokens_eq_nil_iff.2 hblank))
      refine ⟨tss', by rw [List.filter_cons_of_neg (by simpa using hblank)]; exact htss', ?_⟩
      rw [lineSyms, List.filter_cons_of_neg (by simp [lexSyms])]
      exact hfilter
    · refine ⟨toks :: tss', ?_, ?_⟩
      · rw [List.filter_cons_of_pos (by simpa using hblank), List.mapM_cons, htoks, htss']
        rfl
      · rw [lineSyms, List.filter_cons_of_pos, hfilter, lineSyms]
        exact decide_eq_true fun hnil => hblank ((lexSyms_eq_nil_iff htoks).1 hnil)

/-- Where the lines that are not blank are tokens, all are. -/
theorem mapM_tokens_of_filter {ls : List (List Char)} {tss : List (List DirectLexeme)}
    (h : (ls.filter fun l => !l.all isBlank).mapM (tokens directKinds) = some tss) :
    ∃ tss', ls.mapM (tokens directKinds) = some tss' := by
  induction ls generalizing tss with
  | nil => exact ⟨[], rfl⟩
  | cons l ls ih =>
    by_cases hblank : l.all isBlank = true
    · rw [List.filter_cons_of_neg (by simpa using hblank)] at h
      obtain ⟨tss', htss'⟩ := ih h
      exact ⟨[] :: tss', by rw [List.mapM_cons, tokens_eq_nil_iff.2 hblank, htss']; rfl⟩
    · rw [List.filter_cons_of_pos (by simpa using hblank), List.mapM_cons] at h
      obtain ⟨toks, htoks, h⟩ := Option.bind_eq_some_iff.1 h
      obtain ⟨tss, htss, -⟩ := Option.bind_eq_some_iff.1 h
      obtain ⟨tss', htss'⟩ := ih htss
      exact ⟨toks :: tss', by rw [List.mapM_cons, htoks, htss']; rfl⟩

/-- **Exactly when empty lines do no harm.**  `T` is a directory that is loaded,
and `T'` has the same lines that are not blank.  Then `T'` is loaded with the same
users exactly when its empty lines are where the grammar has them. -/
theorem load_empty_lines_iff {T T' : List (List Char)} {us : List User}
    (hT : ∀ l ∈ T, '\n' ∉ l) (hT' : ∀ l ∈ T', '\n' ∉ l)
    (hsame : (T.filter fun l => !l.all isBlank) = T'.filter fun l => !l.all isBlank)
    (hload : Loads heap (unlines T) us) :
    Loads heap (unlines T') us ↔ Layout (T'.map textKind) := by
  rw [loads_iff hT] at hload
  obtain ⟨tss, htss, hread⟩ := hload
  rw [loads_iff hT']
  constructor
  · rintro ⟨tss', htss', hread'⟩
    rw [← lineSyms_kinds htss']
    exact layout_of_readLines hread'
  · intro hlayout
    obtain ⟨tss₀, htss₀, hfilter⟩ := lineSyms_filter (k := 0) htss
    obtain ⟨tss', htss'⟩ := mapM_tokens_of_filter (hsame ▸ htss₀)
    obtain ⟨tss₁, htss₁, hfilter'⟩ := lineSyms_filter (k := 0) htss'
    obtain rfl := Option.some.inj (htss₀.symm.trans (hsame ▸ htss₁))
    refine ⟨tss', htss', ?_⟩
    rw [← lineSyms_kinds htss'] at hlayout
    rw [readLines_of_layout hlayout, hfilter', ← hfilter,
      ← readLines_of_layout (layout_of_readLines hread), hread]

/-- A directory of one user. -/
def operatorLines : List (List Char) :=
  ["USER OPERATOR ABG".toList, "STORAGE 128M".toList, "CONSOLE 0009 3215".toList]

/-- The user that the example's directory defines. -/
def operatorUsers : List User :=
  [{ userid := "OPERATOR".toList, storageSize := 0x8000000, devices := [.cons 9], auth := 0xc2 }]

/-- The example's directory loads, by evaluation. -/
theorem operator_loads : Loads (fun _ => []) (unlines operatorLines) operatorUsers :=
  (loads_iff (by decide) _).2 ⟨_, rfl, by decide +kernel⟩

/-- The directory of the example loads, too, with two empty lines before it. -/
theorem load_empty_lines_iff_before :
    Loads (fun _ => []) (unlines ("".toList :: " ".toList :: operatorLines)) operatorUsers := by
  refine (load_empty_lines_iff (by decide) (by decide) (by decide) operator_loads).2 ?_
  have hkinds : ("".toList :: " ".toList :: operatorLines).map textKind
      = [.blank, .blank, .user, .other, .other] := by
    decide +kernel
  rw [hkinds]
  exact Or.inr (Or.inr ⟨_, rfl, by simp, by simp, by simp, by decide⟩)

/-- An empty line behind the last statement is not ignored: the grammar wants a user behind
it. -/
theorem empty_line_not_ignored : ∃ (T T' : List (List Char)) (us : List User),
    (∀ l ∈ T ++ T', '\n' ∉ l) ∧
      (T.filter fun l => !l.all isBlank) = (T'.filter fun l => !l.all isBlank) ∧
      Loads (fun _ => []) (unlines T) us ∧ ∀ us', ¬ Loads (fun _ => []) (unlines T') us' := by
  refine ⟨operatorLines, operatorLines ++ ["".toList], operatorUsers, by decide, by decide,
    operator_loads, fun us' h => ?_⟩
  obtain ⟨tss, htss, hread⟩ := (loads_iff (by decide) us').1 h
  have hlayout := layout_of_readLines hread
  rw [lineSyms_kinds htss] at hlayout
  have hkinds : (operatorLines ++ ["".toList]).map textKind = [.user, .other, .other, .blank] := by
    decide +kernel
  rw [hkinds] at hlayout
  rcases hlayout with h | h | ⟨ks, h, -⟩
  · exact absurd h (by decide)
  · exact h.ends rfl
  · exact absurd h (by simp)

end Texts

end Hvf
