/-
# Strings

`lib/string.c`.  A string is the list of the characters before its NUL; behind
them the NUL is read.

`strsep` cuts a string where the first separator is, and `strmsep` skips the separators
before it.  A pointer is the string behind it, and `NULL` is none.
-/

import Hvf.Lib.Words

namespace Hvf

open Words

/-- The characters of an ASCII string. -/
def ascii (s : String) : List UInt8 := s.toList.map fun c => UInt8.ofNat c.toNat

/-- `strcmp`: the difference of the first characters that differ. -/
def strcmp : List UInt8 → List UInt8 → Int8
  | [], ct => (0 - ct.headD 0).toInt8
  | c :: cs, ct =>
      let res := (c - ct.headD 0).toInt8
      if res ≠ 0 ∨ c = 0 then res else strcmp cs ct.tail

/-- `strncmp`.  The last test of the loop is `|| len--`. -/
def strncmp : List UInt8 → List UInt8 → Int → Int8
  | [], ct, _ => (0 - ct.headD 0).toInt8
  | c :: cs, ct, len =>
      let res := (c - ct.headD 0).toInt8
      if res ≠ 0 ∨ c = 0 ∨ len ≠ 0 then res else strncmp cs ct.tail (len - 1)

/-- `tolower`. -/
def tolower (c : UInt8) : UInt8 := if 0x41 ≤ c ∧ c ≤ 0x5a then c + 0x20 else c

/-- `strcasecmp`: the difference of the first characters that differ in more than
the case. -/
def strcasecmp : List UInt8 → List UInt8 → Int
  | [], s2 => 0 - (tolower (s2.headD 0)).toNat
  | c :: s1, s2 =>
      let c1 := tolower c
      let c2 := tolower (s2.headD 0)
      if c1 = c2 ∧ c1 ≠ 0 then strcasecmp s1 s2.tail else c1.toNat - c2.toNat

/-- A byte difference read as a signed char is zero for equal bytes only, which is what lets
`strcmp` stop at the first difference. -/
theorem toInt8_sub_eq_zero_iff (c d : UInt8) : (c - d).toInt8 = 0 ↔ c = d := by
  constructor
  · intro h
    have hsub : c - d = 0 := congrArg Int8.toUInt8 h
    rwa [UInt8.sub_eq_iff_eq_add, UInt8.zero_add] at hsub
  · rintro rfl
    rw [UInt8.sub_self]
    rfl

/-- **`strcmp` decides equality.** On strings without a NUL inside, the result is 0 exactly when
the strings are the same, as `strcmp(3)` promises. -/
theorem strcmp_eq_zero_iff {cs ct : List UInt8} (hcs : 0 ∉ cs) (hct : 0 ∉ ct) :
    strcmp cs ct = 0 ↔ cs = ct := by
  induction cs generalizing ct with
  | nil =>
    cases ct with
    | nil => exact iff_of_true rfl rfl
    | cons d ct =>
      have hd : (0 : UInt8) ≠ d := fun h => hct (h ▸ List.mem_cons_self)
      rw [strcmp, List.headD_cons, toInt8_sub_eq_zero_iff]
      exact iff_of_false hd (List.cons_ne_nil _ _).symm
  | cons c cs ih =>
    have hc : c ≠ 0 := fun h => hcs (h ▸ List.mem_cons_self)
    rw [strcmp]
    cases ct with
    | nil =>
      have hdiff : (c - ([] : List UInt8).headD 0).toInt8 ≠ 0 := by
        rw [Ne, toInt8_sub_eq_zero_iff]
        exact hc
      rw [if_pos (Or.inl hdiff)]
      exact iff_of_false hdiff (List.cons_ne_nil _ _)
    | cons d ct =>
      rw [List.headD_cons, List.tail_cons, List.cons.injEq]
      by_cases hdiff : (c - d).toInt8 = 0
      · rw [if_neg (by simp [hdiff, hc]),
          ih (fun h => hcs (List.mem_cons_of_mem _ h)) fun h => hct (List.mem_cons_of_mem _ h)]
        exact (and_iff_right ((toInt8_sub_eq_zero_iff _ _).1 hdiff)).symm
      · rw [if_pos (Or.inl hdiff)]
        exact iff_of_false hdiff fun h => hdiff ((toInt8_sub_eq_zero_iff _ _).2 h.1)

/-- Lower-casing a byte that is no NUL gives no NUL, so the two loops of `strcasecmp` end at the
same place. -/
theorem tolower_ne_zero {c : UInt8} (hc : c ≠ 0) : tolower c ≠ 0 := by
  rw [tolower]
  split_ifs with hupper
  · intro h
    have hle : (0x41 : UInt8).toNat ≤ c.toNat ∧ c.toNat ≤ (0x5a : UInt8).toNat := hupper
    have hsum := congrArg UInt8.toNat h
    rw [UInt8.toNat_add] at hsum
    simp only [UInt8.reduceToNat] at hle hsum
    omega
  · exact hc

/-- **`strcasecmp` decides equality up to case.** On strings without a NUL inside, the result is
0 exactly when the lower-cased strings agree. -/
theorem strcasecmp_eq_zero_iff {s1 s2 : List UInt8} (h1 : 0 ∉ s1) (h2 : 0 ∉ s2) :
    strcasecmp s1 s2 = 0 ↔ s1.map tolower = s2.map tolower := by
  induction s1 generalizing s2 with
  | nil =>
    cases s2 with
    | nil => exact iff_of_true rfl rfl
    | cons d s2 =>
      have hd : tolower d ≠ 0 := tolower_ne_zero fun h => h2 (h ▸ List.mem_cons_self ..)
      have hnat : (tolower d).toNat ≠ 0 := fun h => hd (UInt8.toNat.inj h)
      refine iff_of_false (fun h => ?_) nofun
      rw [strcasecmp, List.headD_cons] at h
      omega
  | cons c s1 ih =>
    have hc : tolower c ≠ 0 := tolower_ne_zero fun h => h1 (h ▸ List.mem_cons_self ..)
    have hdiff {d : UInt8} (hne : tolower c ≠ tolower d) :
        ((tolower c).toNat : Int) - (tolower d).toNat ≠ 0 := by
      intro h
      exact hne (UInt8.toNat.inj (by omega))
    rw [strcasecmp]
    cases s2 with
    | nil =>
      have hne : tolower c ≠ tolower (([] : List UInt8).headD 0) := hc
      rw [if_neg fun h => hne h.1]
      exact iff_of_false (hdiff hne) nofun
    | cons d s2 =>
      rw [List.headD_cons, List.tail_cons, List.map_cons, List.map_cons, List.cons.injEq]
      by_cases heq : tolower c = tolower d
      · rw [if_pos ⟨heq, hc⟩, ih (fun h => h1 (List.mem_cons_of_mem _ h))
          fun h => h2 (List.mem_cons_of_mem _ h)]
        exact (and_iff_right heq).symm
      · rw [if_neg fun h => heq h.1]
        exact iff_of_false (hdiff heq) fun h => heq h.1

/-- **`strncmp` compares the first characters only**, as soon as there is
anything to compare. -/
theorem strncmp_eq_zero_iff (cs ct : List UInt8) {len : Int} (hlen : len ≠ 0) :
    strncmp cs ct len = 0 ↔ cs.headD 0 = ct.headD 0 := by
  cases cs with
  | nil => exact toInt8_sub_eq_zero_iff _ _
  | cons c cs =>
    rw [strncmp]
    rw [if_pos (Or.inr (Or.inr hlen))]
    exact toInt8_sub_eq_zero_iff _ _

/-- **`strncmp` compares a prefix exactly when** the strings differ in their first character
or agree in their first `len` ones. The loop ends on `len--` as well as on a difference, and
the one character it has compared is all that the result is computed from. -/
theorem strncmp_prefix_iff {cs ct : List UInt8} (hcs : 0 ∉ cs) (hct : 0 ∉ ct) {len : ℕ}
    (hlen : 1 ≤ len) :
    (strncmp cs ct len = 0 ↔ cs.take len = ct.take len) ↔
      (cs.headD 0 = ct.headD 0 → cs.take len = ct.take len) := by
  have hhead : cs.take len = ct.take len → cs.headD 0 = ct.headD 0 := by
    intro htake
    obtain ⟨n, rfl⟩ := Nat.exists_eq_add_of_le' hlen
    cases cs with
    | nil =>
      cases ct with
      | nil => rfl
      | cons d ct => exact nomatch htake
    | cons c cs =>
      cases ct with
      | nil => exact nomatch htake
      | cons d ct => exact (List.cons.inj htake).1
  rw [strncmp_eq_zero_iff cs ct (by omega : (len : Int) ≠ 0)]
  exact ⟨fun h => h.1, fun h => ⟨h, hhead⟩⟩

/-- `"AB"` and `"AB"`, two characters of each: the strings agree, and `strncmp` says so. -/
theorem strncmp_prefix_iff_same :
    strncmp [0x41, 0x42] [0x41, 0x42] (2 : ℕ) = 0 ↔
      ([0x41, 0x42] : List UInt8).take 2 = ([0x41, 0x42] : List UInt8).take 2 :=
  (strncmp_prefix_iff (by decide) (by decide) (by decide)).2 fun _ => rfl

/-- `"AB"` and `"AC"`, two characters of each: the strings differ in the second one, and
`strncmp` returns 0. -/
theorem not_strncmp_prefix :
    ¬ ∀ (cs ct : List UInt8) (len : ℕ), 0 ∉ cs → 0 ∉ ct → 1 ≤ len →
      (strncmp cs ct len = 0 ↔ cs.take len = ct.take len) := by
  intro h
  have hsame := (h [0x41, 0x42] [0x41, 0x43] 2 (by decide) (by decide) (by decide)).1 (by decide)
  exact absurd hsame (by decide)

/-! ### Tokens -/

/-- `strpbrk`. -/
def strpbrk : List UInt8 → List UInt8 → Option (List UInt8)
  | [], _ => none
  | c :: cs, ct => if ct.contains c then some (c :: cs) else strpbrk cs ct

/-- `strspn`. -/
def strspn : List UInt8 → List UInt8 → ℕ
  | [], _ => 0
  | c :: s, accept => if accept.contains c then strspn s accept + 1 else 0

/-- `strsep`: the token, and where `*s` points to then. -/
def strsep (s : Option (List UInt8)) (ct : List UInt8) :
    Option (List UInt8) × Option (List UInt8) :=
  match s with
  | none => (none, none)
  | some sbegin =>
    match strpbrk sbegin ct with
    | none => (some sbegin, none)
    | some e => (some (sbegin.take (sbegin.length - e.length)), some e.tail)

/-- `strmsep`. -/
def strmsep (s : Option (List UInt8)) (ct : List UInt8) :
    Option (List UInt8) × Option (List UInt8) :=
  match s with
  | none => (none, none)
  | some str => strsep (some (str.drop (strspn str ct))) ct

/-- What call `k` of `strmsep` for the string returns. -/
def strmsepCall (ct : List UInt8) (s : Option (List UInt8)) (k : ℕ) : Option (List UInt8) :=
  (strmsep ((fun s => (strmsep s ct).2)^[k] s) ct).1

/-- The string is empty, or ends with a separator. -/
def EndsBlank (ct s : List UInt8) : Prop := ∀ c ∈ s.getLast?, ct.contains c = true

/-- Whether a text ends in a separator is decided by its last byte. -/
instance (ct s : List UInt8) : Decidable (EndsBlank ct s) :=
  inferInstanceAs (Decidable (∀ c ∈ s.getLast?, _))

/-- What the calls return. -/
def strmsepTokens (ct s : List UInt8) : List (List UInt8) :=
  words ct.contains s ++ if EndsBlank ct s then [[]] else []

section Tokens

variable {ct s : List UInt8}

/-- The text behind what `strspn` counts is the text with its leading separators dropped. -/
theorem strspn_eq (s ct : List UInt8) : s.drop (strspn s ct) = s.dropWhile ct.contains := by
  induction s with
  | nil => rfl
  | cons c s ih =>
    rw [strspn]
    split_ifs with hc
    · rw [List.drop_succ_cons, ih, List.dropWhile_cons_of_pos hc]
    · rw [List.drop_zero, List.dropWhile_cons_of_neg hc]

/-- A string without a separator is a token. -/
theorem strsep_of_forall (h : ∀ c ∈ s, ct.contains c = false) :
    strsep (some s) ct = (some s, none) := by
  have hnone : strpbrk s ct = none := by
    induction s with
    | nil => rfl
    | cons c s ih =>
      rw [strpbrk, h c (List.mem_cons_self ..)]
      exact ih fun d hd => h d (List.mem_cons_of_mem c hd)
  rw [strsep, hnone]

/-- The token before a separator. -/
theorem strsep_append_cons {t : List UInt8} {c : UInt8} (h : ∀ c ∈ t, ct.contains c = false)
    (hc : ct.contains c = true) : strsep (some (t ++ c :: s)) ct = (some t, some s) := by
  have hfound : strpbrk (t ++ c :: s) ct = some (c :: s) := by
    induction t with
    | nil => rw [List.nil_append, strpbrk, if_pos hc]
    | cons d t ih =>
      rw [List.cons_append, strpbrk, h d (List.mem_cons_self ..)]
      exact ih fun d hd => h d (List.mem_cons_of_mem _ hd)
  rw [strsep, hfound]
  simp

/-- `strmsep` is `strsep` on the text behind the leading separators, which is all that sets the
two apart. -/
theorem strmsep_some (s ct : List UInt8) :
    strmsep (some s) ct = strsep (some (s.dropWhile ct.contains)) ct := by
  rw [strmsep, strspn_eq]

/-- Once the cursor is `NULL`, every further call returns `NULL`. -/
theorem strmsepCall_none (k : ℕ) : strmsepCall ct none k = none := by
  induction k with
  | zero => rfl
  | succ k ih =>
    rw [strmsepCall, Function.iterate_succ_apply]
    exact ih

/-- A later call returns what the call one earlier returns on the text that is left. -/
theorem strmsepCall_succ {t : Option (List UInt8)} {rest : Option (List UInt8)}
    (h : strmsep (some s) ct = (t, rest)) (k : ℕ) :
    strmsepCall ct (some s) (k + 1) = strmsepCall ct rest k := by
  rw [strmsepCall, Function.iterate_succ_apply, h, strmsepCall]

/-- The first call returns the first token of the text. -/
theorem strmsepCall_zero {t : Option (List UInt8)} {rest : Option (List UInt8)}
    (h : strmsep (some s) ct = (t, rest)) : strmsepCall ct (some s) 0 = t := by
  rw [strmsepCall, Function.iterate_zero, id_eq, h]

/-- A separator behind which a string is empty ends it. -/
theorem endsBlank_append_cons (l : List UInt8) {c : UInt8} (hc : ct.contains c = true) :
    EndsBlank ct (l ++ c :: s) ↔ EndsBlank ct s := by
  rw [EndsBlank, EndsBlank, List.getLast?_append_cons, List.getLast?_cons]
  cases hlast : s.getLast? with
  | none => simpa using hc
  | some d => simp

/-- A text whose last piece is not empty and holds no separator does not end in one, whatever
stands before that piece. -/
theorem not_endsBlank_of_forall (hne : s ≠ []) (h : ∀ c ∈ s, ct.contains c = false)
    (l : List UInt8) : ¬ EndsBlank ct (l ++ s) := by
  intro hblank
  have hlast := hblank (s.getLast hne)
    (by rw [List.getLast?_append_of_ne_nil l hne, List.getLast?_eq_some_getLast hne]; rfl)
  rw [h _ (List.getLast_mem hne)] at hlast
  exact Bool.false_ne_true hlast

/-- The calls return the words, and an empty token where the string ends with a
separator. -/
theorem strmsepCall_eq (ct s : List UInt8) (k : ℕ) :
    strmsepCall ct (some s) k = (strmsepTokens ct s)[k]? := by
  -- Induction on the length: behind its separator the rest is shorter.
  induction hlen : s.length using Nat.strong_induction_on generalizing s k with
  | _ len ih =>
  have hs := List.takeWhile_append_dropWhile (p := ct.contains) (l := s)
  obtain hall | ⟨t, _ | ⟨c, rest⟩, hne, ht, hrest, hdrop⟩ := exists_word ct.contains s
  · have hcall : strmsep (some s) ct = (some [], none) := by
      rw [strmsep_some, List.dropWhile_eq_nil_iff.2 hall]
      exact strsep_of_forall nofun
    have hwords : words ct.contains s = [] := by
      rw [← words_dropWhile, List.dropWhile_eq_nil_iff.2 hall, words_nil]
    have hblank : EndsBlank ct s := fun c hc => hall c (List.mem_of_getLast? hc)
    rw [strmsepTokens, hwords, if_pos hblank]
    cases k with
    | zero => exact strmsepCall_zero hcall
    | succ k => rw [strmsepCall_succ hcall, strmsepCall_none]; rfl
  · rw [List.append_nil] at hdrop
    have hcall : strmsep (some s) ct = (some t, none) := by
      rw [strmsep_some, hdrop]
      exact strsep_of_forall ht
    have hblank : ¬ EndsBlank ct s := by
      rw [← hs, hdrop]
      exact not_endsBlank_of_forall hne ht _
    rw [strmsepTokens, ← words_dropWhile, hdrop, words_eq_singleton hne ht, if_neg hblank]
    cases k with
    | zero => exact strmsepCall_zero hcall
    | succ k => rw [strmsepCall_succ hcall, strmsepCall_none]; rfl
  · have hc : ct.contains c = true := hrest c rfl
    have hcall : strmsep (some s) ct = (some t, some rest) := by
      rw [strmsep_some, hdrop]
      exact strsep_append_cons ht hc
    have hblank : EndsBlank ct s ↔ EndsBlank ct rest := by
      rw [← hs, hdrop, ← List.append_assoc, endsBlank_append_cons _ hc]
    have hshort : rest.length < len := by
      have hle := List.length_dropWhile_le ct.contains s
      rw [hdrop, List.length_append, List.length_cons] at hle
      omega
    have htokens : strmsepTokens ct s = t :: strmsepTokens ct rest := by
      rw [strmsepTokens, ← words_dropWhile, hdrop, words_word_append hne ht hc, strmsepTokens]
      simp only [hblank, List.cons_append]
    rw [htokens]
    cases k with
    | zero => exact strmsepCall_zero hcall
    | succ k =>
      rw [strmsepCall_succ hcall, List.getElem?_cons_succ]
      exact ih _ hshort rest k rfl

/-- **The tokens are the words of the string exactly when** it does not end with a separator
and is not empty. `strmsep` skips the separators in front of a token, so what comes behind a
trailing one is an empty token and no word. -/
theorem strmsep_words_iff (ct s : List UInt8) :
    (∀ k, strmsepCall ct (some s) k = (words ct.contains s)[k]?) ↔ ¬ EndsBlank ct s := by
  constructor
  · intro h hblank
    -- Call `length` returns the empty token behind the words.
    have hlast := h (words ct.contains s).length
    rw [strmsepCall_eq, strmsepTokens, if_pos hblank, List.getElem?_concat_length,
      List.getElem?_eq_none le_rfl] at hlast
    cases hlast
  · intro hblank k
    rw [strmsepCall_eq, strmsepTokens, if_neg hblank, List.append_nil]

/-- `"A "` and `" "`: the second call returns an empty token, though the string has one
word. -/
theorem not_strmsep_words :
    ¬ ∀ (ct s : List UInt8) (k : ℕ),
      strmsepCall ct (some s) k = (words ct.contains s)[k]? := by
  intro h
  exact absurd (h [0x20] [0x41, 0x20] 1) (by decide)

end Tokens

end Hvf
