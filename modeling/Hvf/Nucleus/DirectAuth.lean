/-
# Privilege classes

The authorization of a `USER` statement goes through two rules of the scanner and
two productions of `cp/nucleus/direct.y`: a word goes to `__auth_str`, and a word
of hexadecimal digits is a number and goes to `__auth_int`, which grants class G.
`auth_of_loads` says what a directory with a given operand loads, whatever stands
around the statement, and `user_auth_iff` when the user gets the classes listed.
-/

import Hvf.Nucleus.DirectLayout

namespace Hvf

open Munch

/-! ### `__auth_str` -/

/-- A class letter. -/
def isClass (c : Char) : Bool := (authClasses.lookup c).isSome

/-- The authorization has the bits of the classes that are listed and no other. -/
def Grants (auth : BitVec 8) (w : List Char) : Prop :=
  ∀ i < 8, (auth.getLsbD i = true ↔ ∃ p ∈ authClasses, p.1 ∈ w ∧ p.2.getLsbD i = true)

/-- No bit belongs to two classes, and none of them is the last one. -/
theorem authClasses_disjoint : ∀ p ∈ authClasses, ∀ q ∈ authClasses, ∀ i < 8,
    p.2.getLsbD i = true → q.2.getLsbD i = true → p = q := by
  decide

/-- A character is a class exactly when the table has it. -/
theorem isClass_iff {c : Char} : isClass c = true ↔ ∃ auth, (c, auth) ∈ authClasses := by
  rw [isClass, Option.isSome_iff_exists]
  constructor
  · rintro ⟨auth, h⟩
    obtain ⟨l₁, l₂, hclasses, -⟩ := List.lookup_eq_some_iff.1 h
    exact ⟨auth, by rw [hclasses]; simp⟩
  · rintro ⟨auth, h⟩
    have hall : ∀ p ∈ authClasses, authClasses.lookup p.1 = some p.2 := by decide
    exact ⟨auth, hall _ h⟩

/-- A character that is no class makes the whole word be refused. -/
theorem authStrLoop_none {cs : List Char} (h : ∃ c ∈ cs, isClass c = false) (a : BitVec 32) :
    authStrLoop a cs = -1 := by
  induction cs generalizing a with
  | nil => simp at h
  | cons c cs ih =>
    rw [authStrLoop]
    split
    · rename_i auth hauth
      obtain ⟨d, hd, hclass⟩ := h
      rcases List.mem_cons.1 hd with rfl | hd
      · rw [isClass, hauth] at hclass
        exact nomatch hclass
      · exact ih ⟨d, hd, hclass⟩ _
    · rfl

/-- **The loop collects the bits of the letters.** -/
theorem authStrLoop_bits {cs : List Char} (h : ∀ c ∈ cs, isClass c = true) (a : BitVec 32)
    (i : ℕ) : (authStrLoop a cs).getLsbD i = true ↔
      a.getLsbD i = true ∨ ∃ p ∈ authClasses, p.1 ∈ cs ∧ p.2.getLsbD i = true := by
  induction cs generalizing a with
  | nil => simp [authStrLoop]
  | cons c cs ih =>
    obtain ⟨auth, hauth⟩ := Option.isSome_iff_exists.1 (h c (List.mem_cons_self ..))
    obtain ⟨l₁, l₂, hclasses, -⟩ := List.lookup_eq_some_iff.1 hauth
    have hmem : (c, auth) ∈ authClasses := by
      rw [hclasses]
      simp
    have hkey : ∀ p ∈ authClasses, p.1 = c → p.2 = auth := by
      have hall : ∀ p ∈ authClasses, authClasses.lookup p.1 = some p.2 := by decide
      rintro p hp rfl
      exact Option.some.inj ((hall p hp).symm.trans hauth)
    rw [authStrLoop, hauth]
    dsimp only
    rw [ih (fun d hd => h d (List.mem_cons_of_mem _ hd)), BitVec.getLsbD_or, Bool.or_eq_true,
      or_assoc]
    refine or_congr_right ?_
    constructor
    · rintro (hbit | ⟨p, hp, hcs, hbit⟩)
      · exact ⟨_, hmem, List.mem_cons_self .., hbit⟩
      · exact ⟨p, hp, List.mem_cons_of_mem _ hcs, hbit⟩
    · rintro ⟨p, hp, hcs, hbit⟩
      rcases List.mem_cons.1 hcs with heq | hcs
      · exact Or.inl (hkey p hp heq ▸ hbit)
      · exact Or.inr ⟨p, hp, hcs, hbit⟩

/-- **What `__auth_str` grants** for a string that goes on behind the operand:
the classes of the operand only if the rest adds no letter. -/
theorem authStr_grants {w junk : List Char} :
    Grants ((authStr (w ++ junk)).setWidth 8) w ↔
      (∀ c ∈ w, isClass c = true) ∧ ∀ c ∈ junk, c ∈ w := by
  by_cases hall : ∀ c ∈ w ++ junk, isClass c = true
  · have hbits : ∀ i < 8, ((authStr (w ++ junk)).setWidth 8).getLsbD i = true ↔
        ∃ p ∈ authClasses, p.1 ∈ w ++ junk ∧ p.2.getLsbD i = true := by
      intro i hi
      rw [BitVec.getLsbD_setWidth, decide_eq_true hi, Bool.true_and, authStr,
        authStrLoop_bits hall]
      simp
    constructor
    · intro h
      refine ⟨fun c hc => hall c (List.mem_append_left _ hc), fun c hc => ?_⟩
      obtain ⟨auth, hauth⟩ := isClass_iff.1 (hall c (List.mem_append_right _ hc))
      obtain ⟨i, hi, hbit⟩ : ∃ i < 8, auth.getLsbD i = true :=
        (by decide : ∀ p ∈ authClasses, ∃ i < 8, p.2.getLsbD i = true) _ hauth
      obtain ⟨p, hp, hw, hpbit⟩ := (h i hi).1
        ((hbits i hi).2 ⟨_, hauth, List.mem_append_right _ hc, hbit⟩)
      obtain rfl := authClasses_disjoint _ hp _ hauth i hi hpbit hbit
      exact hw
    · rintro ⟨-, hjunk⟩ i hi
      rw [hbits i hi]
      constructor
      · rintro ⟨p, hp, hc, hbit⟩
        rcases List.mem_append.1 hc with hc | hc
        · exact ⟨p, hp, hc, hbit⟩
        · exact ⟨p, hp, hjunk _ hc, hbit⟩
      · rintro ⟨p, hp, hc, hbit⟩
        exact ⟨p, hp, List.mem_append_left _ hc, hbit⟩
  · refine iff_of_false (fun h => ?_) fun h => hall fun c hc => ?_
    · -- an unknown letter sets the last bit, which belongs to no class
      have hnone : ∃ c ∈ w ++ junk, isClass c = false := by simpa using hall
      have hlast := (h 0 (by decide)).1 (by rw [authStr, authStrLoop_none hnone]; decide)
      obtain ⟨p, hp, -, hbit⟩ := hlast
      exact absurd hbit ((by decide : ∀ p ∈ authClasses, ¬ p.2.getLsbD 0 = true) p hp)
    · rcases List.mem_append.1 hc with hc | hc
      · exact h.1 c hc
      · exact h.1 c (h.2 c hc)

/-- `__auth_int` grants class G. -/
theorem authInt_grants {w : List Char} {n : BitVec 64} (h : Grants ((authInt n).setWidth 8) w) :
    'G' ∈ w := by
  obtain ⟨p, hp, hw, hbit⟩ := (h 1 (by decide)).1 (by rw [authInt]; decide)
  have hg : ∀ p ∈ authClasses, p.2.getLsbD 1 = true → p.1 = 'G' := by decide
  exact hg p hp hbit ▸ hw

/-! ### Directories that differ in words -/

/-- **The same token, up to the characters of a word**: what differs between two directories
that differ in words only. -/
inductive SimilarSym : Sym → Sym → Prop
  | refl {s} : SimilarSym s s
  | word {ptr ptr'} : SimilarSym (.word ptr) (.word ptr')

/-- Being similar goes both ways. -/
theorem SimilarSym.symm {s s' : Sym} (h : SimilarSym s s') : SimilarSym s' s := by
  cases h with
  | refl => exact .refl
  | word => exact .word

/-- Lines with the same tokens, up to the characters of words. -/
abbrev SimilarLine : List Sym → List Sym → Prop := List.Forall₂ SimilarSym

/-- Being similar goes both ways. -/
theorem SimilarLine.symm {l l' : List Sym} (h : SimilarLine l l') : SimilarLine l' l :=
  h.flip.imp fun _ _ => SimilarSym.symm

/-- The same tokens become similar symbols, wherever their texts are kept. -/
theorem lexSyms_similar (heap heap' : ℕ → List Char) (k k' : ℕ) (toks : List DirectLexeme) :
    SimilarLine (lexSyms heap k toks) (lexSyms heap' k' toks) := by
  induction toks generalizing k k' with
  | nil => exact .nil
  | cons t toks ih =>
    obtain ⟨kind, l⟩ := t
    rw [lexSyms, lexSyms]
    refine List.rel_append ?_ (ih _ _)
    cases kind with
    | blank => exact .nil
    | word => exact .cons .word .nil
    | nline | comment | user | machine | storage | console | spool | reader | punch | print
      | mdisk | storspec | num => exact .cons .refl .nil

/-- The same for lines of tokens. -/
theorem lineSyms_similar (heap heap' : ℕ → List Char) (k k' : ℕ)
    (tss : List (List DirectLexeme)) :
    List.Forall₂ SimilarLine (lineSyms heap k tss) (lineSyms heap' k' tss) := by
  induction tss generalizing k k' with
  | nil => exact .nil
  | cons toks tss ih => exact .cons (lexSyms_similar ..) (ih _ _)

/-- A property line is read alike from similar symbols. -/
theorem propLine_some_similar {l l' : List Sym} {p : DirectoryProp} (h : SimilarLine l l')
    (hp : propLine l = some p) : propLine l' = some p := by
  unfold propLine at hp
  split at hp
  · rcases h with _ | ⟨⟨⟩, _ | ⟨h, _ | ⟨⟨⟩, _ | _⟩⟩⟩
    cases h with
    | refl => exact hp
    | word => exact hp
  · rcases h with _ | ⟨⟨⟩, _ | ⟨⟨⟩, _ | _⟩⟩
    exact hp
  · rcases h with _ | ⟨⟨⟩, _ | ⟨⟨⟩, _ | _⟩⟩
    exact hp
  · exact nomatch hp

/-- So a line is one for both or for neither. -/
theorem propLine_similar {l l' : List Sym} (h : SimilarLine l l') : propLine l = propLine l' := by
  cases hp : propLine l with
  | some p => exact (propLine_some_similar h hp).symm
  | none =>
    cases hp' : propLine l' with
    | none => rfl
    | some p => exact absurd (propLine_some_similar h.symm hp') (by rw [hp]; simp)

/-- A device line is read alike from similar symbols. -/
theorem vdevLine_some_similar {l l' : List Sym} {v : DirectoryVdev} (h : SimilarLine l l')
    (hv : vdevLine l = some v) : vdevLine l' = some v := by
  unfold vdevLine at hv
  split at hv
  · rcases h with _ | ⟨⟨⟩, _ | ⟨⟨⟩, _ | ⟨⟨⟩, _ | _⟩⟩⟩
    exact hv
  · rcases h with _ | ⟨⟨⟩, _ | ⟨⟨⟩, _ | ⟨⟨⟩, _ | ⟨⟨⟩, _ | _⟩⟩⟩⟩
    exact hv
  · rcases h with _ | ⟨⟨⟩, _ | ⟨⟨⟩, _ | ⟨⟨⟩, _ | ⟨⟨⟩, _ | _⟩⟩⟩⟩
    exact hv
  · rcases h with _ | ⟨⟨⟩, _ | ⟨⟨⟩, _ | ⟨⟨⟩, _ | ⟨⟨⟩, _ | _⟩⟩⟩⟩
    exact hv
  · rcases h with _ | ⟨⟨⟩, _ | ⟨⟨⟩, _ | ⟨⟨⟩, _ | ⟨⟨⟩, _ | ⟨⟨⟩, _ | ⟨⟨⟩, _ | _⟩⟩⟩⟩⟩⟩
    exact hv
  · exact nomatch hv

/-- A header line is one for both; its name and classes may differ. -/
theorem headerLine_similar {l l' : List Sym} {name : List Char} {auth : BitVec 32}
    (h : SimilarLine l l') (hl : headerLine l = some (name, auth)) :
    ∃ name' auth', headerLine l' = some (name', auth') := by
  rcases headerLine_eq_some hl with ⟨w, rfl, -⟩ | ⟨n, rfl, -⟩
  · rcases h with _ | ⟨⟨⟩, _ | ⟨h₁, _ | ⟨h₂, _ | _⟩⟩⟩
    cases h₁ <;> cases h₂ <;> exact ⟨_, _, rfl⟩
  · rcases h with _ | ⟨⟨⟩, _ | ⟨h₁, _ | ⟨⟨⟩, _ | _⟩⟩⟩
    cases h₁ <;> exact ⟨_, _, rfl⟩

/-- The same place in the grammar, with as many users and what is known of the
last one but for its name and authorization. -/
inductive Similar : DirectState → DirectState → Prop
  | start : Similar .start .start
  | empty : Similar .empty .empty
  | between {us us'} (h : us.length = us'.length) : Similar (.between us) (.between us')
  | header {us us' name name' auth auth'} (h : us.length = us'.length) :
      Similar (.header us name auth) (.header us' name' auth')
  | props {us us' name name' auth auth' p} (h : us.length = us'.length) :
      Similar (.props us name auth p) (.props us' name' auth' p)
  | vdevs {us us' name name' auth auth' p vs} (h : us.length = us'.length) :
      Similar (.vdevs us name auth p vs) (.vdevs us' name' auth' p vs)

/-- A user begins alike for both. -/
theorem beginUser_similar {us us' : List User} {l l' : List Sym} {t : DirectState}
    (h : us.length = us'.length) (hl : SimilarLine l l') (ht : beginUser us l = some t) :
    ∃ t', beginUser us' l' = some t' ∧ Similar t t' := by
  obtain ⟨⟨name, auth⟩, hline, rfl⟩ := Option.map_eq_some_iff.1 ht
  obtain ⟨name', auth', hline'⟩ := headerLine_similar hl hline
  exact ⟨_, by rw [beginUser, hline']; rfl, .header h⟩

/-- Whether a user can be made does not depend on name and classes. -/
theorem directoryAllocUser_similar {name name' : List Char} {auth auth' : BitVec 32}
    {p : DirectoryProp} {vs : List DirectoryVdev} {u : User}
    (h : directoryAllocUser name auth p vs = some u) :
    ∃ u', directoryAllocUser name' auth' p vs = some u' := by
  unfold directoryAllocUser at h ⊢
  split_ifs at h ⊢
  exact ⟨_, rfl⟩

/-- **One line leaves similar states** for similar symbols. -/
theorem lineStep_similar {s s' t : DirectState} {l l' : List Sym} (h : Similar s s')
    (hl : SimilarLine l l') (hstep : lineStep s l = some t) :
    ∃ t', lineStep s' l' = some t' ∧ Similar t t' := by
  have hnil : l = [] ↔ l' = [] := by
    rw [← List.length_eq_zero_iff, ← List.length_eq_zero_iff, hl.length_eq]
  cases h with
  | start =>
    rw [lineStep] at hstep ⊢
    simp only [hnil] at hstep
    split_ifs at hstep ⊢
    · obtain rfl := Option.some.inj hstep
      exact ⟨_, rfl, .empty⟩
    · exact beginUser_similar rfl hl hstep
  | empty =>
    rw [lineStep] at hstep ⊢
    simp only [hnil] at hstep
    split_ifs at hstep ⊢
    obtain rfl := Option.some.inj hstep
    exact ⟨_, rfl, .between rfl⟩
  | between h => exact beginUser_similar h hl hstep
  | header h =>
    rw [lineStep] at hstep ⊢
    rw [← propLine_similar hl]
    obtain ⟨p, hp, rfl⟩ := Option.map_eq_some_iff.1 hstep
    exact ⟨_, by rw [hp]; rfl, .props h⟩
  | props h =>
    rw [lineStep] at hstep ⊢
    rw [← propLine_similar hl]
    split at hstep
    · obtain ⟨q, hq, rfl⟩ := Option.map_eq_some_iff.1 hstep
      exact ⟨_, by rw [hq]; rfl, .props h⟩
    · obtain ⟨v, hv, rfl⟩ := Option.map_eq_some_iff.1 hstep
      exact ⟨_, by rw [vdevLine_some_similar hl hv]; rfl, .vdevs h⟩
  | vdevs h =>
    rw [lineStep] at hstep ⊢
    simp only [hnil] at hstep
    split_ifs at hstep ⊢
    · obtain ⟨u, hu, rfl⟩ := Option.map_eq_some_iff.1 hstep
      obtain ⟨u', hu'⟩ := directoryAllocUser_similar hu
      exact ⟨_, by rw [hu']; rfl, .between (by simp [h])⟩
    · obtain ⟨v, hv, rfl⟩ := Option.map_eq_some_iff.1 hstep
      exact ⟨_, by rw [vdevLine_some_similar hl hv]; rfl, .vdevs h⟩

/-- So do all lines, by induction on them. -/
theorem foldlM_similar {s s' t : DirectState} {ls ls' : List (List Sym)} (h : Similar s s')
    (hls : List.Forall₂ SimilarLine ls ls') (hfold : ls.foldlM lineStep s = some t) :
    ∃ t', ls'.foldlM lineStep s' = some t' ∧ Similar t t' := by
  induction hls generalizing s s' with
  | nil =>
    obtain rfl := Option.some.inj hfold
    exact ⟨s', rfl, h⟩
  | cons hl _ ih =>
    obtain ⟨u, hstep, hrest⟩ := Option.bind_eq_some_iff.1 hfold
    obtain ⟨u', hstep', hu⟩ := lineStep_similar h hl hstep
    obtain ⟨t', hrest', ht⟩ := ih hu hrest
    exact ⟨t', by rw [List.foldlM_cons, hstep']; exact hrest', ht⟩

/-- Similar states both have their users, or neither has. -/
theorem Similar.users {s s' : DirectState} (h : Similar s s') {us : List User}
    (hus : s.users = some us) : ∃ us', s'.users = some us' := by
  cases h with
  | start => exact nomatch hus
  | empty => exact ⟨_, rfl⟩
  | between _ => exact nomatch hus
  | header _ => exact nomatch hus
  | props _ => exact nomatch hus
  | vdevs h =>
    obtain ⟨u, hu, rfl⟩ := Option.map_eq_some_iff.1 hus
    obtain ⟨u', hu'⟩ := directoryAllocUser_similar hu
    exact ⟨_, by rw [DirectState.users, hu']; rfl⟩

/-! ### The user of a statement -/

/-- How many `USER` statements were read. -/
def DirectState.count : DirectState → ℕ
  | .start => 0
  | .empty => 0
  | .between us => us.length
  | .header us _ _ => us.length + 1
  | .props us _ _ _ => us.length + 1
  | .vdevs us _ _ _ _ => us.length + 1

/-- What a `USER` statement says of a user. -/
def User.header (u : User) : List Char × BitVec 8 := (u.userid, u.auth)

/-- The user with index `i` has the name and the authorization `a`. -/
def Owns (i : ℕ) (a : List Char × BitVec 8) : DirectState → Prop
  | .start => False
  | .empty => False
  | .between us => us[i]?.map User.header = some a
  | .header us name auth =>
    us[i]?.map User.header = some a ∨ us.length = i ∧ (name, auth.setWidth 8) = a
  | .props us name auth _ =>
    us[i]?.map User.header = some a ∨ us.length = i ∧ (name, auth.setWidth 8) = a
  | .vdevs us name auth _ _ =>
    us[i]?.map User.header = some a ∨ us.length = i ∧ (name, auth.setWidth 8) = a

/-- A user begins with its header line. -/
theorem beginUser_eq_some {us : List User} {l : List Sym} {t : DirectState}
    (h : beginUser us l = some t) :
    ∃ name auth, headerLine l = some (name, auth) ∧ t = .header us name auth := by
  obtain ⟨⟨name, auth⟩, hl, rfl⟩ := Option.map_eq_some_iff.1 h
  exact ⟨name, auth, hl, rfl⟩

/-- A user made has the name and the classes of its header. -/
theorem directoryAllocUser_header {name : List Char} {auth : BitVec 32} {p : DirectoryProp}
    {vs : List DirectoryVdev} {u : User} (h : directoryAllocUser name auth p vs = some u) :
    u.header = (name, auth.setWidth 8) := by
  unfold directoryAllocUser at h
  split_ifs at h
  obtain rfl := Option.some.inj h
  rfl

/-- A user's header stays where it is when users are added behind. -/
theorem getElem?_concat_header {i : ℕ} {a : List Char × BitVec 8} {us : List User} {u : User}
    (h : us[i]?.map User.header = some a ∨ us.length = i ∧ u.header = a) :
    (us ++ [u])[i]?.map User.header = some a := by
  rcases h with h | ⟨rfl, rfl⟩
  · obtain ⟨v, hv, rfl⟩ := Option.map_eq_some_iff.1 h
    rw [List.getElem?_append_left (List.getElem?_eq_some_iff.1 hv).1, hv, Option.map_some]
  · rw [List.getElem?_concat_length, Option.map_some]

/-- **What a line does to the count and to a user.** -/
theorem lineStep_count {s t : DirectState} {l : List Sym} (h : lineStep s l = some t) :
    t.count = s.count + [symKind l].count .user ∧ ∀ i a, Owns i a s → Owns i a t := by
  cases s with
  | start =>
    rw [lineStep] at h
    split_ifs at h with hnil
    · obtain rfl := Option.some.inj h
      subst hnil
      exact ⟨rfl, fun _ _ h => h⟩
    · obtain ⟨hkind, -⟩ := beginUser_after h
      obtain ⟨name, auth, -, rfl⟩ := beginUser_eq_some h
      exact ⟨by rw [hkind]; rfl, fun _ _ h => h.elim⟩
  | empty =>
    rw [lineStep] at h
    split_ifs at h with hnil
    obtain rfl := Option.some.inj h
    subst hnil
    exact ⟨rfl, fun _ _ h => h.elim⟩
  | between us =>
    obtain ⟨hkind, -⟩ := beginUser_after h
    obtain ⟨name, auth, -, rfl⟩ := beginUser_eq_some h
    exact ⟨by rw [hkind]; rfl, fun _ _ h => Or.inl h⟩
  | header us name auth =>
    obtain ⟨p, hp, rfl⟩ := Option.map_eq_some_iff.1 h
    rw [propLine_kind hp]
    exact ⟨rfl, fun _ _ h => h⟩
  | props us name auth p =>
    rw [lineStep] at h
    split at h
    · obtain ⟨q, -, rfl⟩ := Option.map_eq_some_iff.1 h
      rw [propLine_kind (by assumption)]
      exact ⟨rfl, fun _ _ h => h⟩
    · obtain ⟨v, hv, rfl⟩ := Option.map_eq_some_iff.1 h
      rw [vdevLine_kind hv]
      exact ⟨rfl, fun _ _ h => h⟩
  | vdevs us name auth p vs =>
    rw [lineStep] at h
    split_ifs at h with hnil
    · obtain ⟨u, hu, rfl⟩ := Option.map_eq_some_iff.1 h
      subst hnil
      refine ⟨by simp [DirectState.count, symKind], fun i a howns => ?_⟩
      rw [Owns, ← directoryAllocUser_header hu] at howns
      exact getElem?_concat_header howns
    · obtain ⟨v, hv, rfl⟩ := Option.map_eq_some_iff.1 h
      rw [vdevLine_kind hv]
      exact ⟨rfl, fun _ _ h => h⟩

/-- **The lines make as many users as there are header lines**, and users made stay. -/
theorem foldlM_count {s t : DirectState} {ls : List (List Sym)}
    (h : ls.foldlM lineStep s = some t) :
    t.count = s.count + (ls.map symKind).count .user ∧ ∀ i a, Owns i a s → Owns i a t := by
  induction ls generalizing s with
  | nil =>
    obtain rfl := Option.some.inj h
    exact ⟨rfl, fun _ _ h => h⟩
  | cons l ls ih =>
    obtain ⟨u, hstep, hrest⟩ := Option.bind_eq_some_iff.1 h
    obtain ⟨hcount, howns⟩ := lineStep_count hstep
    obtain ⟨hcount', howns'⟩ := ih hrest
    refine ⟨?_, fun i a h => howns' i a (howns i a h)⟩
    rw [hcount', hcount, Nat.add_assoc, ← List.count_append]
    rfl

/-- The users of the end have the headers they were made with. -/
theorem Owns.users {i : ℕ} {a : List Char × BitVec 8} {s : DirectState} {us : List User}
    (h : Owns i a s) (hus : s.users = some us) : us[i]?.map User.header = some a := by
  cases s with
  | start => exact h.elim
  | empty => exact h.elim
  | between _ => exact nomatch hus
  | header _ _ _ => exact nomatch hus
  | props _ _ _ _ => exact nomatch hus
  | vdevs us name auth p vs =>
    obtain ⟨u, hu, rfl⟩ := Option.map_eq_some_iff.1 hus
    rw [Owns, ← directoryAllocUser_header hu] at h
    exact getElem?_concat_header h

/-- Where a definition may begin. -/
def DirectState.Begins (s : DirectState) : Prop := s = .start ∨ ∃ us, s = .between us

/-- A `USER` statement begins a definition. -/
theorem lineStep_user {s t : DirectState} {l : List Sym} (h : lineStep s (.user :: l) = some t) :
    s.Begins ∧ ∃ us name auth, us.length = s.count ∧
      headerLine (.user :: l) = some (name, auth) ∧ t = .header us name auth := by
  cases s with
  | start =>
    obtain ⟨name, auth, hl, rfl⟩ := beginUser_eq_some (h : beginUser [] _ = some t)
    exact ⟨Or.inl rfl, [], name, auth, rfl, hl, rfl⟩
  | between us =>
    obtain ⟨name, auth, hl, rfl⟩ := beginUser_eq_some h
    exact ⟨Or.inr ⟨us, rfl⟩, us, name, auth, rfl, hl, rfl⟩
  | empty => exact nomatch h
  | header us name auth => exact nomatch h
  | props us name auth p => exact nomatch h
  | vdevs us name auth p vs => exact nomatch h

/-- At a place where a user may begin, a header line begins one. -/
theorem lineStep_header {s : DirectState} {l : List Sym} {name : List Char} {auth : BitVec 32}
    (hs : s.Begins) (hl : headerLine l = some (name, auth)) :
    ∃ us, us.length = s.count ∧ lineStep s l = some (.header us name auth) := by
  have hne : l ≠ [] := by
    rintro rfl
    exact nomatch hl
  rcases hs with rfl | ⟨us, rfl⟩
  · exact ⟨[], rfl, by rw [lineStep, if_neg hne, beginUser, hl]; rfl⟩
  · exact ⟨us, rfl, by rw [lineStep, beginUser, hl]; rfl⟩

/-- Similar states are both at such a place, with as many users. -/
theorem Similar.begins {s s' : DirectState} (h : Similar s s') (hs : s.Begins) :
    s'.Begins ∧ s'.count = s.count := by
  rcases hs with rfl | ⟨us, rfl⟩
  · cases h
    exact ⟨Or.inl rfl, rfl⟩
  · cases h with
    | between h => exact ⟨Or.inr ⟨_, rfl⟩, h.symm⟩

/-- **A `USER` statement sets the name and the authorization of its user.** -/
theorem readLines_header {B A : List (List Sym)} {r : List Sym} {us : List User}
    (h : readLines (B ++ (.user :: r) :: A) = some us) :
    ∃ name auth, headerLine (.user :: r) = some (name, auth) ∧
      us[(B.map symKind).count .user]?.map User.header = some (name, auth.setWidth 8) := by
  obtain ⟨s, hfold, hus⟩ := Option.bind_eq_some_iff.1 h
  rw [List.foldlM_append] at hfold
  obtain ⟨b, hbefore, hfold⟩ := Option.bind_eq_some_iff.1 hfold
  obtain ⟨t, hstep, hafter⟩ := Option.bind_eq_some_iff.1 hfold
  obtain ⟨-, us', name, auth, hlen, hl, rfl⟩ := lineStep_user hstep
  refine ⟨name, auth, hl, ((foldlM_count hafter).2 _ _ (Or.inr ⟨?_, rfl⟩)).users hus⟩
  rw [hlen, (foldlM_count hbefore).1, DirectState.count, Nat.zero_add]

/-- **Another operand that is one is read too.** -/
theorem readLines_of_similar {B B' A A' : List (List Sym)} {r l : List Sym} {us : List User}
    {name : List Char} {auth : BitVec 32} (h : readLines (B ++ (.user :: r) :: A) = some us)
    (hB : List.Forall₂ SimilarLine B B') (hA : List.Forall₂ SimilarLine A A')
    (hl : headerLine l = some (name, auth)) : ∃ us', readLines (B' ++ l :: A') = some us' := by
  obtain ⟨s, hfold, hus⟩ := Option.bind_eq_some_iff.1 h
  rw [List.foldlM_append] at hfold
  obtain ⟨b, hbefore, hfold⟩ := Option.bind_eq_some_iff.1 hfold
  obtain ⟨t, hstep, hafter⟩ := Option.bind_eq_some_iff.1 hfold
  obtain ⟨b', hbefore', hsimilar⟩ := foldlM_similar .start hB hbefore
  obtain ⟨hbegins, us', name', auth', hlen, -, rfl⟩ := lineStep_user hstep
  obtain ⟨hbegins', hcount⟩ := hsimilar.begins hbegins
  obtain ⟨us₂, hlen₂, hstep'⟩ := lineStep_header hbegins' hl
  have hsimilar' : Similar (.header us' name' auth') (.header us₂ name auth) :=
    .header (by rw [hlen, hlen₂, hcount])
  obtain ⟨s', hafter', hsimilar''⟩ := foldlM_similar hsimilar' hA hafter
  obtain ⟨us'', hus''⟩ := hsimilar''.users hus
  refine ⟨us'', ?_⟩
  rw [readLines, List.foldlM_append, hbefore']
  simp only [Option.bind_eq_bind, Option.bind_some, List.foldlM_cons, hstep', hafter', hus'']

/-! ### The tokens of a statement -/

/-- A blank ends at the next other character. -/
theorem goesOn_blank {m : List Char} {c : Char} (hne : m ≠ []) (hm : m.all isBlank = true)
    (hc : isBlank c = false) : (lineRules directKinds).goesOn m c = false := by
  by_contra hgoes
  obtain ⟨k, hk⟩ : ∃ k, lineKind directKinds (m ++ [c]) = some k :=
    Option.isSome_iff_exists.1 (Bool.eq_true_of_not_eq_false hgoes)
  obtain ⟨d, ds, rfl⟩ := List.exists_cons_of_ne_nil hne
  have hd : isBlank d = true := List.all_eq_true.1 hm d (List.mem_cons_self ..)
  have hnot : ¬ (d.isUpper = true ∨ isHexDigit d = true ∨ d = '\n' ∨ d = '*') := by
    intro h
    rw [not_isBlank h] at hd
    cases hd
  cases matchesRule hk with
  | nline h => exact absurd (congrArg List.length h) (by simp)
  | comment h =>
    rw [List.cons_append, isComment.eq_2, Bool.and_eq_true, decide_eq_true_eq] at h
    exact hnot (Or.inr (Or.inr (Or.inr h.1)))
  | keyword h =>
    exact hnot (Or.inl (List.all_eq_true.1 (keyword_spec h).1 d (by simp)))
  | storspec h =>
    rw [isStorspec_append, Bool.and_eq_true] at h
    exact hnot (Or.inr (Or.inl (isHexDigit_of_isDigit (List.all_eq_true.1 h.2 d (by simp)))))
  | num h => exact hnot (Or.inr (Or.inl (List.all_eq_true.1 h d (by simp))))
  | word h => exact hnot (Or.inl (List.all_eq_true.1 h d (by simp)))
  | blank h =>
    rw [List.all_eq_true.1 h c (by simp)] at hc
    cases hc

/-- A word or a number ends at the next blank. -/
theorem goesOn_other {m : List Char} {c : Char}
    (hm : ∀ d ∈ m, d.isUpper = true ∨ isHexDigit d = true) (hne : m ≠ [])
    (hc : isBlank c = true) : (lineRules directKinds).goesOn m c = false := by
  by_contra hgoes
  obtain ⟨k, hk⟩ : ∃ k, lineKind directKinds (m ++ [c]) = some k :=
    Option.isSome_iff_exists.1 (Bool.eq_true_of_not_eq_false hgoes)
  have hnot : ¬ (c.isUpper = true ∨ isHexDigit c = true ∨ c = '\n' ∨ c = '*') := by
    intro h
    rw [not_isBlank h] at hc
    exact nomatch hc
  obtain ⟨d, ds, rfl⟩ := List.exists_cons_of_ne_nil hne
  have hd := hm d (List.mem_cons_self ..)
  cases matchesRule hk with
  | nline h => exact absurd (congrArg List.length h) (by simp)
  | comment h =>
    rw [List.cons_append, isComment.eq_2, Bool.and_eq_true, decide_eq_true_eq] at h
    exact absurd (h.1 ▸ hd) (by decide)
  | keyword h => exact hnot (Or.inl (List.all_eq_true.1 (keyword_spec h).1 c (by simp)))
  | storspec h =>
    rw [isStorspec_append] at h
    simp only [Bool.and_eq_true, Bool.or_eq_true, decide_eq_true_eq] at h
    rcases h.1.1 with (((rfl | rfl) | rfl) | rfl) | rfl <;> exact absurd hc (by decide)
  | num h => exact hnot (Or.inr (Or.inl (List.all_eq_true.1 h c (by simp))))
  | word h => exact hnot (Or.inl (List.all_eq_true.1 h c (by simp)))
  | blank h =>
    have hblank := List.all_eq_true.1 h d (by simp)
    rw [not_isBlank (hd.imp_right Or.inl)] at hblank
    exact nomatch hblank

/-- A text is scanned piece by piece, if no token goes over the join. -/
theorem tokens_append {a b : List Char} {ms : List (List Char)}
    (h : (lineRules directKinds).lexemes a = some ms)
    (hend : ∀ m ∈ ms.getLast?, ∀ c ∈ b.head?, (lineRules directKinds).goesOn m c = false) :
    tokens directKinds (a ++ b) = (tokens directKinds b).map (tokensOf directKinds ms ++ ·) := by
  rw [tokens, lexemes_append h hend, tokens, Option.map_map, Option.map_map]
  refine congrArg (Option.map · _) (funext fun ns => ?_)
  simp [tokensOf]

/-- **A statement up to its operand is scanned on its own.** -/
theorem tokens_behind {pre v : List Char} {toks : List DirectLexeme}
    (hpre : tokens directKinds pre = some toks)
    (hupper : ∀ t ∈ toks, t.2.all Char.isUpper = true)
    (hend : ∃ c, pre.getLast? = some c ∧ isBlank c = true)
    (hv : ∀ c ∈ v.head?, isBlank c = false) :
    tokens directKinds (pre ++ v) = (tokens directKinds v).map (toks ++ ·) := by
  obtain ⟨ms, hms, htoks⟩ := Option.map_eq_some_iff.1 hpre
  rw [tokens_append hms, htoks]
  rintro m hm c hc
  obtain ⟨ms, rfl⟩ := List.getLast?_eq_some_iff.1 hm
  obtain ⟨k, hk⟩ : ∃ k, lineKind directKinds m = some k := Option.isSome_iff_exists.1
    (scan_kind (R := lineRules directKinds) (fun hne => absurd rfl hne) hms m (by simp))
  have hne : m ≠ [] := (lineKind_isSome.1 (Option.isSome_of_mem hk)).1
  obtain ⟨d, hd, hblank⟩ := hend
  have hflat := scan_flatten hms
  rw [List.nil_append, List.flatten_append, List.flatten_singleton] at hflat
  rw [← hflat, List.getLast?_append_of_ne_nil _ hne] at hd
  have hmem : d ∈ m := List.mem_of_getLast? hd
  have hkind : k = .blank := by
    by_contra hother
    have htok : (k, m) ∈ toks := by
      rw [← htoks, tokensOf]
      refine List.mem_flatMap.2 ⟨m, by simp, ?_⟩
      rw [hk]
      simp [directKinds, hother]
    rw [not_isBlank (Or.inl (List.all_eq_true.1 (hupper _ htok) d hmem))] at hblank
    cases hblank
  exact goesOn_blank hne ((lineKind_blank hk).1 hkind) (hv c hc)

/-- A `USER` statement up to its operand is the keyword and the name. -/
theorem tokens_statement {pre v id : List Char}
    (hpre : tokens directKinds pre = some [(.user, "USER".toList), (.word, id)])
    (hend : ∃ c, pre.getLast? = some c ∧ isBlank c = true)
    (hv : ∀ c ∈ v.head?, isBlank c = false) : tokens directKinds (pre ++ v)
      = (tokens directKinds v).map ([(.user, "USER".toList), (.word, id)] ++ ·) := by
  refine tokens_behind hpre (fun t ht => ?_) hend hv
  obtain ⟨k, m⟩ := t
  cases matchesRule (mem_tokens hpre ht).1 with
  | keyword h => exact (keyword_spec h).1
  | word h => exact h
  | nline _ | comment _ | storspec _ | num _ | blank _ => simp at ht

/-- The characters of a text that are not blank are those of its tokens. -/
theorem filter_flatten_tokensOf {ms : List (List Char)}
    (h : ∀ m ∈ ms, (lineKind directKinds m).isSome) :
    ms.flatten.filter (fun c => !isBlank c)
      = ((tokensOf directKinds ms).flatMap Prod.snd).filter fun c => !isBlank c := by
  induction ms with
  | nil => rfl
  | cons m ms ih =>
    obtain ⟨k, hk⟩ := Option.isSome_iff_exists.1 (h m (List.mem_cons_self ..))
    rw [tokensOf_cons hk, List.flatten_cons, List.filter_append, List.flatMap_append,
      List.filter_append, ih fun m hm => h m (List.mem_cons_of_mem _ hm)]
    congr 1
    split_ifs with hblank
    · have hall := (lineKind_blank hk).1 hblank
      rw [List.all_eq_true] at hall
      simpa using hall
    · simp

/-- **A token of letters and digits** ends before a blank. -/
theorem tokens_blank {w rest : List Char} {k : DirectToken}
    (hkind : lineKind directKinds w = some k) (hk : k ≠ .blank)
    (hchars : ∀ c ∈ w, c.isUpper = true ∨ isHexDigit c = true)
    (hrest : ∀ c ∈ rest.head?, isBlank c = true) :
    tokens directKinds (w ++ rest) = (tokens directKinds rest).map ([(k, w)] ++ ·) := by
  have hlexemes := lexemes_of_kind (R := lineRules directKinds) (Option.isSome_of_mem hkind)
  rw [tokens_append hlexemes]
  · rw [tokensOf_cons hkind, if_neg hk]
    rfl
  · rintro m hm c hc
    have hm : w = m := by simpa using hm
    subst hm
    exact goesOn_other hchars (lineKind_isSome.1 (Option.isSome_of_mem hkind)).1 (hrest c hc)

/-- A word with blanks behind it is one token of its kind. -/
theorem tokens_single {w post : List Char} {k : DirectToken}
    (hkind : lineKind directKinds w = some k) (hk : k ≠ .blank)
    (hchars : ∀ c ∈ w, c.isUpper = true ∨ isHexDigit c = true) (hpost : post.all isBlank = true) :
    tokens directKinds (w ++ post) = some [(k, w)] := by
  rw [tokens_blank hkind hk hchars
    fun c hc => List.all_eq_true.1 hpost c (List.mem_of_mem_head? hc), tokens_eq_nil_iff.2 hpost]
  rfl

/-- **The operand is one token** when the scanner takes it for a word or a number. -/
theorem tokens_operand {w post l : List Char} {k : DirectToken} (hk : k = .word ∨ k = .num)
    (hw : ∀ c ∈ w, isBlank c = false) (hpost : post.all isBlank = true) :
    tokens directKinds (w ++ post) = some [(k, l)] ↔ l = w ∧ lineKind directKinds w = some k := by
  have hchars : ∀ {m : List Char}, lineKind directKinds m = some k →
      ∀ c ∈ m, c.isUpper = true ∨ isHexDigit c = true := by
    intro m hm c hc
    have hrule := matchesRule hm
    rcases hk with rfl | rfl
    · cases hrule with
      | keyword h => exact absurd rfl (keyword_spec h).2.2.2.1
      | word h => exact Or.inl (List.all_eq_true.1 h c hc)
    · cases hrule with
      | keyword h => exact absurd rfl (keyword_spec h).2.2.1
      | num h => exact Or.inr (List.all_eq_true.1 h c hc)
  constructor
  · intro h
    have hkind := (mem_tokens h (List.mem_singleton_self _)).1
    obtain ⟨ms, hms, htoks⟩ := Option.map_eq_some_iff.1 h
    have hflat := filter_flatten_tokensOf
      (scan_kind (R := lineRules directKinds) (fun hne => absurd rfl hne) hms)
    rw [scan_flatten hms, htoks, List.nil_append] at hflat
    have hpost' : post.filter (fun c => !isBlank c) = [] := by
      rw [List.all_eq_true] at hpost
      simpa using hpost
    have hl : l.filter (fun c => !isBlank c) = l := by
      refine List.filter_eq_self.2 fun c hc => ?_
      rw [not_isBlank ((hchars hkind c hc).imp_right Or.inl), Bool.not_false]
    have hw' : w.filter (fun c => !isBlank c) = w :=
      List.filter_eq_self.2 fun c hc => by rw [hw c hc, Bool.not_false]
    have heq : l = w := by
      rw [List.filter_append, hw', hpost', List.append_nil] at hflat
      simpa [hl] using hflat.symm
    exact ⟨heq, heq ▸ hkind⟩
  · rintro ⟨rfl, hkind⟩
    exact tokens_single hkind (by rcases hk with rfl | rfl <;> simp) (hchars hkind) hpost

/-! ### Directories with an operand -/

/-- The authorization that the tokens of an operand stand for. -/
def operandAuth (junk : List Char) : List DirectLexeme → Option (BitVec 32)
  | [(.word, l)] => some (authStr (l ++ junk))
  | [(.num, l)] => some (authInt ((hex l).getD 0))
  | _ => none

/-- The words of lines. -/
def wordsOf (ls : List (List Char)) : ℕ := (ls.filterMap (tokens directKinds)).map words |>.sum

section Operand

variable {heap heap' : ℕ → List Char} {k : ℕ} {before after : List (List Char)}
  {pre id v v' : List Char} {us : List User}

/-- **What a header line reads**: the name, and the classes that its operand grants. -/
theorem headerLine_lexSyms {toks : List DirectLexeme} (h : tokens directKinds v = some toks) :
    headerLine (lexSyms heap k ([(.user, "USER".toList), (.word, id)] ++ toks))
      = (operandAuth (heap (k + 1)) toks).map (id ++ heap k, ·) := by
  have hsyms : lexSyms heap k ([(.user, "USER".toList), (.word, id)] ++ toks)
      = .user :: .word (id ++ heap k) :: lexSyms heap (k + 1) toks := rfl
  rw [hsyms]
  cases toks with
  | nil => rfl
  | cons t toks =>
    obtain ⟨s, hs, -⟩ := sym_isSome h (List.mem_cons_self ..) (heap (k + 1))
    cases toks with
    | nil =>
      obtain ⟨kind, l⟩ := t
      cases kind with
      | blank => exact absurd rfl (mem_tokens h (List.mem_singleton_self _)).2.1
      | nline | comment | user | machine | storage | console | spool | reader | punch | print
        | mdisk | storspec | num | word => rfl
    | cons t' toks =>
      have hnone : operandAuth (heap (k + 1)) (t :: t' :: toks) = none := by
        obtain ⟨kind, l⟩ := t
        cases kind <;> rfl
      obtain ⟨s', hs', -⟩ := sym_isSome h (List.mem_cons_of_mem _ (List.mem_cons_self ..))
        (heap (if t.1 = .word then k + 1 + 1 else k + 1))
      rw [hnone, lexSyms, hs, lexSyms, hs']
      cases s <;> rfl

/-- The number of words in lines of text is that of their tokens. -/
theorem wordsOf_eq {ls : List (List Char)} {tss : List (List DirectLexeme)}
    (h : ls.mapM (tokens directKinds) = some tss) : (tss.map words).sum = wordsOf ls := by
  induction ls generalizing tss with
  | nil =>
    obtain rfl := Option.some.inj h
    rfl
  | cons l ls ih =>
    rw [List.mapM_cons] at h
    obtain ⟨toks, htoks, h⟩ := Option.bind_eq_some_iff.1 h
    obtain ⟨tss, htss, h⟩ := Option.bind_eq_some_iff.1 h
    obtain rfl := Option.some.inj h
    rw [wordsOf, List.filterMap_cons, htoks, List.map_cons, List.map_cons, List.sum_cons,
      List.sum_cons, ih htss, wordsOf]

/-- **A directory around a line.** -/
theorem loads_line {l : List Char} (hbefore : ∀ l ∈ before, '\n' ∉ l)
    (hafter : ∀ l ∈ after, '\n' ∉ l) (hline : '\n' ∉ l) :
    Loads heap (unlines (before ++ l :: after)) us ↔
      ∃ tss toks tss', before.mapM (tokens directKinds) = some tss ∧
        tokens directKinds l = some toks ∧ after.mapM (tokens directKinds) = some tss' ∧
        readLines (lineSyms heap 0 tss ++ lexSyms heap (wordsOf before) toks ::
          lineSyms heap (wordsOf before + words toks) tss') = some us := by
  have hall : ∀ l' ∈ before ++ l :: after, '\n' ∉ l' := by
    intro l' hl'
    rcases List.mem_append.1 hl' with hl' | hl'
    · exact hbefore l' hl'
    · rcases List.mem_cons.1 hl' with rfl | hl'
      · exact hline
      · exact hafter l' hl'
  rw [loads_iff hall, List.mapM_append, List.mapM_cons]
  constructor
  · rintro ⟨tss₀, hmapM, hread⟩
    obtain ⟨tss, htss, hmapM⟩ := Option.bind_eq_some_iff.1 hmapM
    obtain ⟨tss₁, hcons, hmapM⟩ := Option.bind_eq_some_iff.1 hmapM
    obtain ⟨toks, htoks, hcons⟩ := Option.bind_eq_some_iff.1 hcons
    obtain ⟨tss', htss', hcons⟩ := Option.bind_eq_some_iff.1 hcons
    obtain rfl := Option.some.inj hcons
    obtain rfl := Option.some.inj hmapM
    refine ⟨tss, toks, tss', htss, htoks, htss', ?_⟩
    rwa [lineSyms_append, lineSyms, Nat.zero_add, wordsOf_eq htss] at hread
  · rintro ⟨tss, toks, tss', htss, htoks, htss', hread⟩
    refine ⟨tss ++ toks :: tss', ?_, ?_⟩
    · rw [htss, htoks, htss']
      rfl
    · rwa [lineSyms_append, lineSyms, Nat.zero_add, wordsOf_eq htss]

/-- **A directory around a statement.** -/
theorem loads_statement (hbefore : ∀ l ∈ before, '\n' ∉ l) (hafter : ∀ l ∈ after, '\n' ∉ l)
    (hline : '\n' ∉ pre ++ v)
    (hpre : tokens directKinds pre = some [(.user, "USER".toList), (.word, id)])
    (hend : ∃ c, pre.getLast? = some c ∧ isBlank c = true)
    (hv : ∀ c ∈ v.head?, isBlank c = false) :
    Loads heap (unlines (before ++ (pre ++ v) :: after)) us ↔
      ∃ tss toks tss', before.mapM (tokens directKinds) = some tss ∧
        tokens directKinds v = some toks ∧ after.mapM (tokens directKinds) = some tss' ∧
        readLines (lineSyms heap 0 tss ++
          lexSyms heap (wordsOf before) ([(.user, "USER".toList), (.word, id)] ++ toks) ::
          lineSyms heap (wordsOf before + (1 + words toks)) tss') = some us := by
  have hwords : ∀ toks : List DirectLexeme,
      words ([(DirectToken.user, "USER".toList), (.word, id)] ++ toks) = 1 + words toks := by
    intro toks
    simp [words, Nat.add_comm]
  rw [loads_line hbefore hafter hline, tokens_statement hpre hend hv]
  constructor
  · rintro ⟨tss, toks₀, tss', htss, hstatement, htss', hread⟩
    obtain ⟨toks, htoks, rfl⟩ := Option.map_eq_some_iff.1 hstatement
    rw [hwords] at hread
    exact ⟨tss, toks, tss', htss, htoks, htss', hread⟩
  · rintro ⟨tss, toks, tss', htss, htoks, htss', hread⟩
    refine ⟨tss, [(.user, "USER".toList), (.word, id)] ++ toks, tss', htss, ?_, htss', ?_⟩
    · rw [htoks]
      rfl
    · rwa [hwords]

/-- **What an operand does.**  In a directory that is loaded with the operand `v`
the user of the statement has the authorization its tokens stand for. -/
theorem auth_of_loads (hbefore : ∀ l ∈ before, '\n' ∉ l) (hafter : ∀ l ∈ after, '\n' ∉ l)
    (hline : '\n' ∉ pre ++ v)
    (hpre : tokens directKinds pre = some [(.user, "USER".toList), (.word, id)])
    (hend : ∃ c, pre.getLast? = some c ∧ isBlank c = true)
    (hv : ∀ c ∈ v.head?, isBlank c = false)
    (hload : Loads heap (unlines (before ++ (pre ++ v) :: after)) us) :
    ∃ toks auth, tokens directKinds v = some toks ∧
      operandAuth (heap (wordsOf before + 1)) toks = some auth ∧
      us[(before.map textKind).count .user]?.map User.auth = some (auth.setWidth 8) := by
  obtain ⟨tss, toks, tss', htss, htoks, -, hread⟩ :=
    (loads_statement hbefore hafter hline hpre hend hv).1 hload
  obtain ⟨name, auth, hl, hauth⟩ := readLines_header hread
  rw [← lineSyms_kinds htss]
  have hl : headerLine (lexSyms heap (wordsOf before)
      ([(.user, "USER".toList), (.word, id)] ++ toks)) = some (name, auth) := hl
  rw [headerLine_lexSyms htoks] at hl
  obtain ⟨auth', hoperand, heq⟩ := Option.map_eq_some_iff.1 hl
  obtain ⟨-, rfl⟩ := Prod.mk.inj heq
  obtain ⟨u, hu, hheader⟩ := Option.map_eq_some_iff.1 hauth
  refine ⟨toks, auth', htoks, hoperand, ?_⟩
  rw [hu, Option.map_some]
  exact congrArg some (Prod.mk.inj hheader).2

/-- **Another operand** that is a word or a number is loaded in the same place. -/
theorem loads_of_operand (hbefore : ∀ l ∈ before, '\n' ∉ l) (hafter : ∀ l ∈ after, '\n' ∉ l)
    (hline : '\n' ∉ pre ++ v) (hline' : '\n' ∉ pre ++ v')
    (hpre : tokens directKinds pre = some [(.user, "USER".toList), (.word, id)])
    (hend : ∃ c, pre.getLast? = some c ∧ isBlank c = true)
    (hv : ∀ c ∈ v.head?, isBlank c = false) (hv' : ∀ c ∈ v'.head?, isBlank c = false)
    (hload : Loads heap' (unlines (before ++ (pre ++ v) :: after)) us)
    {toks : List DirectLexeme} {auth : BitVec 32} (htoks : tokens directKinds v' = some toks)
    (hauth : operandAuth (heap (wordsOf before + 1)) toks = some auth) :
    ∃ us', Loads heap (unlines (before ++ (pre ++ v') :: after)) us' := by
  obtain ⟨tss, toks₀, tss', htss, -, htss', hread⟩ :=
    (loads_statement hbefore hafter hline hpre hend hv).1 hload
  have hl : headerLine (lexSyms heap (wordsOf before)
      ([(.user, "USER".toList), (.word, id)] ++ toks))
        = some (id ++ heap (wordsOf before), auth) := by
    rw [headerLine_lexSyms htoks, hauth]
    rfl
  obtain ⟨us', hus'⟩ := readLines_of_similar hread (lineSyms_similar heap' heap 0 0 tss)
    (lineSyms_similar heap' heap _ (wordsOf before + (1 + words toks)) tss') hl
  exact ⟨us', (loads_statement hbefore hafter hline' hpre hend hv').2
    ⟨tss, toks, tss', htss, htoks, htss', hus'⟩⟩

end Operand

/-! ### Words and numbers -/

/-- **A word of classes or hexadecimal digits** is a number exactly when all its characters are
digits of base 16, and else a word. -/
theorem lineKind_eq_classKind {w : List Char} (hne : w ≠ [])
    (hw : ∀ c ∈ w, isHexDigit c = true ∨ isClass c = true) :
    lineKind directKinds w = classKind directKinds w := by
  obtain ⟨c, cs, rfl⟩ := List.exists_cons_of_ne_nil hne
  have hc := hw c (List.mem_cons_self ..)
  have hnline : c :: cs ≠ ['\n'] := by
    rintro h
    rw [(List.cons.inj h).1] at hc
    exact absurd hc (by decide)
  have hcomment : isComment (c :: cs) ≠ true := by
    intro h
    rw [isComment.eq_2, Bool.and_eq_true, decide_eq_true_eq] at h
    obtain ⟨h, -⟩ := h
    rw [h] at hc
    exact absurd hc (by decide)
  have hlookup : directKinds.keywords.lookup (c :: cs) = none := by
    rw [Option.eq_none_iff_forall_ne_some]
    intro k h
    obtain ⟨l₁, l₂, hkeywords, -⟩ := List.lookup_eq_some_iff.1 h
    have hmem : (c :: cs, k) ∈ directKinds.keywords := by
      rw [hkeywords]
      simp
    have hall : ∀ p ∈ directKinds.keywords,
        (p.1.any fun c => !(isHexDigit c || isClass c)) = true := by
      decide
    obtain ⟨d, hd, hnot⟩ := List.any_eq_true.1 (hall _ hmem)
    rw [Bool.not_eq_true', Bool.or_eq_false_iff] at hnot
    rcases hw d hd with h | h
    · exact absurd h (ne_true_of_eq_false hnot.1)
    · exact absurd h (ne_true_of_eq_false hnot.2)
  rw [lineKind, if_neg hne, if_neg hnline, if_neg hcomment, hlookup, Option.none_or]

/-- A word of hexadecimal digits is a number. -/
theorem lineKind_num {w : List Char} (hne : w ≠ []) (hw : w.all isHexDigit = true) :
    lineKind directKinds w = some .num := by
  rw [lineKind_eq_classKind hne fun c hc => Or.inl (List.all_eq_true.1 hw c hc), classKind,
    if_neg, if_pos hw]
  · rfl
  · rw [Bool.and_eq_true]
    rintro ⟨-, h⟩
    rcases List.eq_nil_or_concat w with rfl | ⟨ds, d, rfl⟩
    · exact hne rfl
    · rw [List.concat_eq_append] at hw h
      rw [isStorspec_append] at h
      have hd : isHexDigit d = true := List.all_eq_true.1 hw d (by simp)
      simp only [Bool.and_eq_true, Bool.or_eq_true, decide_eq_true_eq] at h
      rcases h.1.1 with (((rfl | rfl) | rfl) | rfl) | rfl <;> exact absurd hd (by decide)

/-- Class letters with a `G` are a word. -/
theorem lineKind_word {w : List Char} (hw : w.all isClass = true) (hg : 'G' ∈ w) :
    lineKind directKinds w = some .word := by
  have hne : w ≠ [] := List.ne_nil_of_mem hg
  have hupper : ∀ c, isClass c = true → c.isUpper = true ∧ c.isDigit = false := by
    intro c hc
    obtain ⟨auth, hauth⟩ := isClass_iff.1 hc
    exact (by decide : ∀ p ∈ authClasses, p.1.isUpper = true ∧ p.1.isDigit = false) _ hauth
  rw [lineKind_eq_classKind hne fun c hc => Or.inr (List.all_eq_true.1 hw c hc), classKind,
    if_neg, if_neg, if_pos]
  · rfl
  · exact List.all_eq_true.2 fun c hc => (hupper c (List.all_eq_true.1 hw c hc)).1
  · exact fun h => absurd (List.all_eq_true.1 h 'G' hg) (by decide)
  · rw [Bool.and_eq_true]
    rintro ⟨-, h⟩
    rcases List.eq_nil_or_concat w with rfl | ⟨ds, d, rfl⟩
    · exact hne rfl
    · rw [List.concat_eq_append] at hw h
      rw [isStorspec_append] at h
      simp only [Bool.and_eq_true, bne_iff_ne] at h
      obtain ⟨e, he⟩ := List.exists_mem_of_ne_nil ds h.1.2
      have hdigit := List.all_eq_true.1 h.2 e he
      rw [(hupper e (List.all_eq_true.1 hw e (by simp [he]))).2] at hdigit
      cases hdigit

/-! ### What a `USER` statement grants -/

/-- **A line `USER id ..` of a directory**, without its operand: the lines before and after
it, the text before the operand, and the blanks `post` behind it. -/
structure UserStatement (before after : List (List Char)) (pre id post : List Char) : Prop where
  before_lines : ∀ l ∈ before, '\n' ∉ l
  after_lines : ∀ l ∈ after, '\n' ∉ l
  pre_line : '\n' ∉ pre
  pre_tokens : tokens directKinds pre = some [(.user, "USER".toList), (.word, id)]
  pre_blank : ∃ c, pre.getLast? = some c ∧ isBlank c = true
  post_blank : post.all isBlank = true

/-- The text of the directory with the operand `w`. -/
def directoryText (before after : List (List Char)) (pre post w : List Char) : List Char :=
  unlines (before ++ (pre ++ (w ++ post)) :: after)

/-- Characters between blanks. -/
def IsOperand (w : List Char) : Prop := w ≠ [] ∧ ∀ c ∈ w, isBlank c = false ∧ c ≠ '\n'

section Statement

variable {heap heap' : ℕ → List Char} {before after : List (List Char)}
  {pre id post w w' : List Char} {us : List User}

/-- Blanks are no newline. -/
theorem not_mem_of_blank (h : post.all isBlank = true) : '\n' ∉ post := by
  intro hmem
  exact absurd (List.all_eq_true.1 h _ hmem) (by decide)

/-- A line made around an operand has no newline in it. -/
theorem IsOperand.line (hw : IsOperand w) (hpre : '\n' ∉ pre) (hpost : post.all isBlank = true) :
    '\n' ∉ pre ++ (w ++ post) := by
  rw [List.mem_append, List.mem_append]
  rintro (h | h | h)
  · exact hpre h
  · exact (hw.2 _ h).2 rfl
  · exact not_mem_of_blank hpost h

/-- An operand does not begin with a blank. -/
theorem IsOperand.head (hw : IsOperand w) : ∀ c ∈ (w ++ post).head?, isBlank c = false := by
  intro c hc
  obtain ⟨d, ds, rfl⟩ := List.exists_cons_of_ne_nil hw.1
  obtain rfl := Option.some.inj hc
  exact (hw.2 d (List.mem_cons_self ..)).1

/-- The operand of a directory that is loaded is a word or a number. -/
theorem UserStatement.auth (h : UserStatement before after pre id post) (hw : IsOperand w)
    (hload : Loads heap (directoryText before after pre post w) us) :
    ∃ auth, us[(before.map textKind).count .user]?.map User.auth = some (auth.setWidth 8) ∧
      ((lineKind directKinds w = some .word ∧
          auth = authStr (w ++ heap (wordsOf before + 1))) ∨
        (lineKind directKinds w = some .num ∧ ∃ n, auth = authInt n)) := by
  obtain ⟨toks, auth, htoks, hoperand, hauth⟩ := auth_of_loads h.before_lines h.after_lines
    (hw.line h.pre_line h.post_blank) h.pre_tokens h.pre_blank hw.head hload
  refine ⟨auth, hauth, ?_⟩
  unfold operandAuth at hoperand
  split at hoperand
  · obtain rfl := Option.some.inj hoperand
    obtain ⟨rfl, hk⟩ :=
      (tokens_operand (Or.inl rfl) (fun c hc => (hw.2 c hc).1) h.post_blank).1 htoks
    exact Or.inl ⟨hk, rfl⟩
  · obtain rfl := Option.some.inj hoperand
    obtain ⟨rfl, hk⟩ :=
      (tokens_operand (Or.inr rfl) (fun c hc => (hw.2 c hc).1) h.post_blank).1 htoks
    exact Or.inr ⟨hk, _, rfl⟩
  · exact nomatch hoperand

/-- A word or a number is an operand wherever another one is. -/
theorem UserStatement.loads (heap : ℕ → List Char)
    (h : UserStatement before after pre id post) (hw : IsOperand w) (hw' : IsOperand w')
    (hload : Loads heap' (directoryText before after pre post w) us)
    {k : DirectToken} (hk : k = .word ∨ k = .num) (hkind : lineKind directKinds w' = some k) :
    ∃ us', Loads heap (directoryText before after pre post w') us' := by
  have htoks := (tokens_operand hk (fun c hc => (hw'.2 c hc).1) h.post_blank).2 ⟨rfl, hkind⟩
  obtain ⟨auth, hauth⟩ : ∃ auth,
      operandAuth (heap (wordsOf before + 1)) [(k, w')] = some auth := by
    rcases hk with rfl | rfl
    · exact ⟨_, rfl⟩
    · exact ⟨_, rfl⟩
  exact loads_of_operand h.before_lines h.after_lines (hw.line h.pre_line h.post_blank)
    (hw'.line h.pre_line h.post_blank) h.pre_tokens h.pre_blank hw.head hw'.head hload htoks hauth

/-- The user with index `i` of the directory gets the classes that the operand
lists; one that is not of letters is rejected or grants none. -/
def GrantsListed (heap : ℕ → List Char) (text : List Char → List Char) (i : ℕ)
    (w : List Char) : Prop :=
  if w.all Char.isUpper = true then
    ∃ us u, Loads heap (text w) us ∧ us[i]? = some u ∧ Grants u.auth w
  else ∀ us u, Loads heap (text w) us → us[i]? = some u → Grants u.auth []

/-- **Exactly when a user gets the classes listed,** in a directory that is loaded
with the operand `G` in this place: the operand has class letters only, a `G` is
among them, and the memory behind the copy adds no letter; or it has a character
that is no letter, and one that is no hexadecimal digit. -/
theorem user_auth_iff (h : UserStatement before after pre id post) (hw : IsOperand w)
    (hload : Loads heap' (directoryText before after pre post ['G']) us) :
    GrantsListed heap (directoryText before after pre post) ((before.map textKind).count .user) w ↔
      (w.all isClass = true ∧ 'G' ∈ w ∧ ∀ c ∈ heap (wordsOf before + 1), c ∈ w) ∨
        (w.all Char.isUpper = false ∧ w.all isHexDigit = false) := by
  have hg : IsOperand ['G'] := ⟨by simp, by simp [isBlank]⟩
  rw [GrantsListed]
  split_ifs with hupper
  · constructor
    · rintro ⟨us, u, hus, hu, hgrants⟩
      obtain ⟨auth, hauth, hkind⟩ := h.auth hw hus
      rw [hu, Option.map_some, Option.some_inj] at hauth
      rw [hauth] at hgrants
      rcases hkind with ⟨hword, rfl⟩ | ⟨hnum, n, rfl⟩
      · obtain ⟨hclass, hjunk⟩ := authStr_grants.1 hgrants
        refine Or.inl ⟨List.all_eq_true.2 hclass, ?_, hjunk⟩
        -- a word is not of hexadecimal digits only
        by_contra hnot
        have hhex : w.all isHexDigit = true := by
          refine List.all_eq_true.2 fun c hc => ?_
          obtain ⟨auth, hauth⟩ := isClass_iff.1 (hclass c hc)
          have hall : ∀ p ∈ authClasses, p.1 = 'G' ∨ isHexDigit p.1 = true := by decide
          exact (hall _ hauth).resolve_left fun heq => hnot (heq ▸ hc)
        rw [lineKind_num hw.1 hhex] at hword
        cases hword
      · have hmem := authInt_grants hgrants
        cases matchesRule hnum with
        | keyword h => exact absurd rfl (keyword_spec h).2.2.1
        | num h => exact absurd (List.all_eq_true.1 h _ hmem) (by decide)
    · rintro (⟨hclass, hmem, hjunk⟩ | ⟨hnot, -⟩)
      · obtain ⟨us', hus'⟩ :=
          h.loads heap hg hw hload (Or.inl rfl) (lineKind_word hclass hmem)
        obtain ⟨auth, hauth, hkind⟩ := h.auth hw hus'
        obtain ⟨u, hu, hauth⟩ := Option.map_eq_some_iff.1 hauth
        refine ⟨us', u, hus', hu, ?_⟩
        rcases hkind with ⟨-, rfl⟩ | ⟨hnum, -⟩
        · rw [hauth]
          exact authStr_grants.2 ⟨List.all_eq_true.1 hclass, hjunk⟩
        · rw [lineKind_word hclass hmem] at hnum
          cases hnum
      · rw [hupper] at hnot
        cases hnot
  · have hupper : w.all Char.isUpper = false := Bool.eq_false_of_not_eq_true hupper
    constructor
    · intro hnone
      refine Or.inr ⟨hupper, Bool.eq_false_of_not_eq_true fun hhex => ?_⟩
      have hnum := lineKind_num hw.1 hhex
      obtain ⟨us', hus'⟩ := h.loads heap hg hw hload (Or.inr rfl) hnum
      obtain ⟨auth, hauth, hkind⟩ := h.auth hw hus'
      obtain ⟨u, hu, hauth⟩ := Option.map_eq_some_iff.1 hauth
      rcases hkind with ⟨hword, -⟩ | ⟨-, n, rfl⟩
      · rw [hnum] at hword
        cases hword
      · have hgrants := hnone us' u hus' hu
        rw [hauth] at hgrants
        exact absurd (authInt_grants hgrants) List.not_mem_nil
    · rintro (⟨hclass, -, -⟩ | ⟨-, hhex⟩) us' u hus' hu
      · refine absurd (List.all_eq_true.2 fun c hc => ?_) (ne_true_of_eq_false hupper)
        obtain ⟨auth, hauth⟩ := isClass_iff.1 (List.all_eq_true.1 hclass c hc)
        exact (by decide : ∀ p ∈ authClasses, p.1.isUpper = true) _ hauth
      · -- neither a word nor a number
        obtain ⟨auth, -, ⟨hword, -⟩ | ⟨hnum, -⟩⟩ := h.auth hw hus'
        · cases matchesRule hword with
          | keyword h => exact absurd rfl (keyword_spec h).2.2.2.1
          | word h => exact absurd h (ne_true_of_eq_false hupper)
        · cases matchesRule hnum with
          | keyword h => exact absurd rfl (keyword_spec h).2.2.1
          | num h => exact absurd h (ne_true_of_eq_false hhex)

/-- The example's statement is one of the form. -/
theorem operator_statement : UserStatement [] ["STORAGE 1".toList, "CONSOLE 9 3215".toList]
    "USER OPERATOR ".toList "OPERATOR".toList [] :=
  ⟨by decide, by decide, by decide, by decide +kernel, ⟨' ', by decide⟩, rfl⟩

/-- The example's directory loads, by evaluation. -/
theorem operator_statement_loads : Loads (fun _ => [])
    (directoryText [] ["STORAGE 1".toList, "CONSOLE 9 3215".toList] "USER OPERATOR ".toList []
      ['G'])
    [⟨"OPERATOR".toList, 1, [.cons 9], 2⟩] :=
  (loads_iff (by decide) _).2 ⟨_, rfl, by decide +kernel⟩

/-- The operand `ABG` of an accepted directory grants the classes A, B and G, as listed. -/
theorem user_auth_iff_abg : GrantsListed (fun _ => [])
    (directoryText [] ["STORAGE 1".toList, "CONSOLE 9 3215".toList] "USER OPERATOR ".toList [])
    0 "ABG".toList :=
  (user_auth_iff operator_statement ⟨by simp, by simp [isBlank]⟩ operator_statement_loads).2
    (Or.inl ⟨by decide +kernel, by simp, by simp⟩)

/-- Classes A, B and C are a hexadecimal number, so class G is granted instead: the rule for
numbers comes first. -/
theorem user_auth_abc : ¬ GrantsListed (fun _ => [])
    (directoryText [] ["STORAGE 1".toList, "CONSOLE 9 3215".toList] "USER OPERATOR ".toList [])
    0 "ABC".toList := by
  intro h
  rw [GrantsListed, if_pos (by decide +kernel)] at h
  obtain ⟨us, u, hus, hu, hgrants⟩ := h
  obtain ⟨auth, hauth, hkind⟩ := operator_statement.auth ⟨by simp, by simp [isBlank]⟩ hus
  have hu : us[0]?.map User.auth = some u.auth := by rw [hu]; rfl
  obtain heq := Option.some.inj (hauth.symm.trans hu)
  rcases hkind with ⟨hword, -⟩ | ⟨-, n, rfl⟩
  · rw [lineKind_num (by simp) (by decide +kernel)] at hword
    exact nomatch hword
  · rw [← heq] at hgrants
    exact absurd (authInt_grants hgrants) (by decide)

end Statement

end Hvf
