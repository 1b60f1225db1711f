/-
# The directory line by line

Every production of `cp/nucleus/direct.y` but `users` ends with `NLINE`, and no
other `NLINE` stands in one, so the grammar reads line after line: `lineStep` is
what a line does to a directory read so far.  `isUsers_iff` says that the lines
that get through are those that `users` derives, and the users are the same.
-/

import Hvf.Lib.Lines
import Hvf.Nucleus.Direct

namespace Hvf

/-! ### Lines -/

/-- The tokens of lines. -/
def flatLines (ls : List (List Sym)) : List Sym := ls.flatMap (· ++ [.nline])

/-- No line, no symbol. -/
@[simp] theorem flatLines_nil : flatLines [] = [] := rfl

/-- The first line, its end, and the rest. -/
@[simp] theorem flatLines_cons (l : List Sym) (ls : List (List Sym)) :
    flatLines (l :: ls) = l ++ .nline :: flatLines ls := by
  simp [flatLines]

/-- Lines put one behind the other. -/
@[simp] theorem flatLines_append (ls ls' : List (List Sym)) :
    flatLines (ls ++ ls') = flatLines ls ++ flatLines ls' := by
  simp [flatLines]

/-- Lines do not go over an `NLINE`. -/
def IsLine (l : List Sym) : Prop := Sym.nline ∉ l

/-- **Tokens are cut into lines in one way.** -/
theorem flatLines_inj {ls ls' : List (List Sym)} (hls : ∀ l ∈ ls, IsLine l)
    (hls' : ∀ l ∈ ls', IsLine l) (h : flatLines ls = flatLines ls') : ls = ls' :=
  Lines.join_inj hls hls' h

/-! ### What a line does -/

/-- `USER` up to `NLINE`: the name and the authorization. -/
def headerLine : List Sym → Option (List Char × BitVec 32)
  | [.user, .word name, .word auth] => some (name, authStr auth)
  | [.user, .word name, .num auth] => some (name, authInt auth)
  | _ => none

/-- `prop` up to `NLINE`. -/
def propLine : List Sym → Option DirectoryProp
  | [.machine, .word _, .num _] => some ⟨false, 0⟩
  | [.storage, .storspec num] => some ⟨true, num⟩
  | [.storage, .num num] => (bcd2dec num).map (⟨true, ·⟩)
  | _ => none

/-- `vdev` up to `NLINE`. -/
def vdevLine : List Sym → Option DirectoryVdev
  | [.console, .num d, .num t] => allocConsVdev d t
  | [.spool, .num d, .num t, .reader] => allocSpoolVdev d t
  | [.spool, .num d, .num t, .punch] => allocSpoolVdev d t
  | [.spool, .num d, .num t, .print] => allocSpoolVdev d t
  | [.mdisk, .num d, .num t, .num start, .num len, .num rdev] => allocMdiskVdev d t start len rdev
  | _ => none

/-- **What was read of a directory**, line by line: nothing, users with an empty line
behind, or users and a part of the next one. -/
inductive DirectState
  /-- nothing -/
  | start
  /-- `users`, which is an empty line -/
  | empty
  /-- `users NLINE` -/
  | between (us : List User)
  /-- users and a `USER` line -/
  | header (us : List User) (name : List Char) (auth : BitVec 32)
  | props (us : List User) (name : List Char) (auth : BitVec 32) (p : DirectoryProp)
  | vdevs (us : List User) (name : List Char) (auth : BitVec 32) (p : DirectoryProp)
      (vs : List DirectoryVdev)

/-- The users, where the tokens so far are `users`. -/
def DirectState.users : DirectState → Option (List User)
  | .empty => some []
  | .vdevs us name auth p vs => (directoryAllocUser name auth p vs).map fun u => us ++ [u]
  | _ => none

/-- A `USER` line begins a definition. -/
def beginUser (us : List User) (l : List Sym) : Option DirectState :=
  (headerLine l).map fun h => .header us h.1 h.2

/-- A line is read; none is a syntax error or an assertion that fails. -/
def lineStep : DirectState → List Sym → Option DirectState
  | .start, l => if l = [] then some .empty else beginUser [] l
  | .empty, l => if l = [] then some (.between []) else none
  | .between us, l => beginUser us l
  | .header us name auth, l => (propLine l).map (.props us name auth)
  | .props us name auth p, l =>
    match propLine l with
    | some p' => (mergeProps p p').map (.props us name auth)
    | none => (vdevLine l).map fun v => .vdevs us name auth p [v]
  | .vdevs us name auth p vs, l =>
    if l = [] then (directoryAllocUser name auth p vs).map fun u => .between (us ++ [u])
    else (vdevLine l).map fun v => .vdevs us name auth p (v :: vs)

/-- The users that lines define. -/
def readLines (ls : List (List Sym)) : Option (List User) :=
  (ls.foldlM lineStep .start).bind DirectState.users

/-! ### Lines and productions -/

/-- **What a header line is**: `USER`, a name, and the classes as a word or a number. -/
theorem headerLine_eq_some {l : List Sym} {name : List Char} {auth : BitVec 32}
    (h : headerLine l = some (name, auth)) :
    (∃ w, l = [.user, .word name, .word w] ∧ auth = authStr w) ∨
      ∃ n, l = [.user, .word name, .num n] ∧ auth = authInt n := by
  unfold headerLine at h
  split at h
  · obtain ⟨rfl, rfl⟩ := Prod.mk.inj (Option.some.inj h)
    exact Or.inl ⟨_, rfl, rfl⟩
  · obtain ⟨rfl, rfl⟩ := Prod.mk.inj (Option.some.inj h)
    exact Or.inr ⟨_, rfl, rfl⟩
  · exact nomatch h

/-- What the function of a property line reads is a property of the grammar. -/
theorem propLine_eq_some {l : List Sym} {p : DirectoryProp} (h : propLine l = some p) :
    IsProp (l ++ [.nline]) p := by
  unfold propLine at h
  split at h
  · obtain rfl := Option.some.inj h
    exact .machine
  · obtain rfl := Option.some.inj h
    exact .storspec
  · obtain ⟨storage, hstorage, rfl⟩ := Option.map_eq_some_iff.1 h
    exact .num hstorage
  · exact nomatch h

/-- What the function of a device line reads is a device of the grammar. -/
theorem vdevLine_eq_some {l : List Sym} {v : DirectoryVdev} (h : vdevLine l = some v) :
    IsVdev (l ++ [.nline]) v := by
  unfold vdevLine at h
  split at h
  · exact .console h
  · exact .reader h
  · exact .punch h
  · exact .print h
  · exact .mdisk h
  · exact nomatch h

/-- A property of the grammar is one line, and the function reads it. -/
theorem IsProp.exists_line {toks : List Sym} {p : DirectoryProp} (h : IsProp toks p) :
    ∃ l, IsLine l ∧ toks = l ++ [.nline] ∧ propLine l = some p := by
  cases h with
  | @machine ptr num =>
    exact ⟨[.machine, .word ptr, .num num], by simp [IsLine], rfl, rfl⟩
  | @storspec num =>
    exact ⟨[.storage, .storspec num], by simp [IsLine], rfl, rfl⟩
  | @num n storage h =>
    exact ⟨[.storage, .num n], by simp [IsLine], rfl, by rw [propLine, h]; rfl⟩

/-- A device of the grammar is one line, and the function reads it, which is not the one for
properties. -/
theorem IsVdev.exists_line {toks : List Sym} {v : DirectoryVdev} (h : IsVdev toks v) :
    ∃ l, IsLine l ∧ l ≠ [] ∧ toks = l ++ [.nline] ∧ vdevLine l = some v ∧ propLine l = none := by
  cases h with
  | @console d t _ h =>
    exact ⟨[.console, .num d, .num t], by simp [IsLine], by simp, rfl, h, rfl⟩
  | @reader d t _ h =>
    exact ⟨[.spool, .num d, .num t, .reader], by simp [IsLine], by simp, rfl, h, rfl⟩
  | @punch d t _ h =>
    exact ⟨[.spool, .num d, .num t, .punch], by simp [IsLine], by simp, rfl, h, rfl⟩
  | @print d t _ h =>
    exact ⟨[.spool, .num d, .num t, .print], by simp [IsLine], by simp, rfl, h, rfl⟩
  | @mdisk d t start len rdev _ h =>
    exact ⟨[.mdisk, .num d, .num t, .num start, .num len, .num rdev], by simp [IsLine], by simp,
      rfl, h, rfl⟩

/-! ### From lines to derivations -/

/-- **What may stand before a `user`**: nothing, or users with an empty line behind them. -/
inductive BeforeUser : List Sym → List User → Prop
  | start : BeforeUser [] []
  | between {toks us} (h : IsUsers toks us) : BeforeUser (toks ++ [.nline]) us

/-- Users and one user more are users. -/
theorem BeforeUser.isUsers {toks toks' : List Sym} {us : List User} {u : User}
    (h : BeforeUser toks us) (hu : IsUser toks' u) : IsUsers (toks ++ toks') (us ++ [u]) := by
  cases h with
  | start => exact .user hu
  | between h =>
    rw [List.append_assoc, List.singleton_append]
    exact .users h hu

/-- **The tokens that lead to a state** of the reading by lines, in terms of the grammar. -/
inductive ReadsTo : List Sym → DirectState → Prop
  | start : ReadsTo [] .start
  | empty : ReadsTo [.nline] .empty
  | between {toks us} (h : IsUsers toks us) : ReadsTo (toks ++ [.nline]) (.between us)
  | header {toks l us name auth} (h : BeforeUser toks us) (hl : headerLine l = some (name, auth)) :
      ReadsTo (toks ++ (l ++ [.nline])) (.header us name auth)
  | props {toks l ps us name auth p} (h : BeforeUser toks us)
      (hl : headerLine l = some (name, auth)) (hps : IsProps ps p) :
      ReadsTo (toks ++ (l ++ [.nline] ++ ps)) (.props us name auth p)
  | vdevs {toks l ps vds us name auth p vs} (h : BeforeUser toks us)
      (hl : headerLine l = some (name, auth)) (hps : IsProps ps p) (hvs : IsVdevs vds vs) :
      ReadsTo (toks ++ (l ++ [.nline] ++ ps ++ vds)) (.vdevs us name auth p vs)

/-- A definition is a `user`. -/
theorem isUser_of_header {l ps vds : List Sym} {name : List Char} {auth : BitVec 32}
    {p : DirectoryProp} {vs : List DirectoryVdev} {u : User}
    (hl : headerLine l = some (name, auth)) (hps : IsProps ps p) (hvs : IsVdevs vds vs)
    (hu : directoryAllocUser name auth p vs = some u) :
    IsUser (l ++ [.nline] ++ ps ++ vds) u := by
  rcases headerLine_eq_some hl with ⟨w, rfl, rfl⟩ | ⟨n, rfl, rfl⟩
  · exact .word hps hvs hu
  · exact .num hps hvs hu

/-- A text read up to an end of users is users of the grammar. -/
theorem ReadsTo.isUsers {toks : List Sym} {s : DirectState} {us : List User} (h : ReadsTo toks s)
    (hus : s.users = some us) : IsUsers toks us := by
  cases h with
  | start => exact nomatch hus
  | empty =>
    obtain rfl := Option.some.inj hus
    exact .empty
  | between _ => exact nomatch hus
  | header _ _ => exact nomatch hus
  | props _ _ _ => exact nomatch hus
  | vdevs h hl hps hvs =>
    obtain ⟨u, hu, rfl⟩ := Option.map_eq_some_iff.1 hus
    exact h.isUsers (isUser_of_header hl hps hvs hu)

/-- A text of users and a header line is read up to that header. -/
theorem ReadsTo.begin {toks l : List Sym} {us : List User} {s : DirectState}
    (h : BeforeUser toks us) (hs : beginUser us l = some s) :
    ReadsTo (toks ++ (l ++ [.nline])) s := by
  obtain ⟨⟨name, auth⟩, hl, rfl⟩ := Option.map_eq_some_iff.1 hs
  exact .header h hl

/-- **A line is read.** -/
theorem ReadsTo.lineStep {toks l : List Sym} {s s' : DirectState} (h : ReadsTo toks s)
    (hstep : lineStep s l = some s') : ReadsTo (toks ++ (l ++ [.nline])) s' := by
  cases h with
  | start =>
    rw [Hvf.lineStep] at hstep
    split_ifs at hstep with hl
    · obtain rfl := Option.some.inj hstep
      subst hl
      exact .empty
    · exact ReadsTo.begin .start hstep
  | empty =>
    rw [Hvf.lineStep] at hstep
    split_ifs at hstep with hl
    obtain rfl := Option.some.inj hstep
    subst hl
    exact .between .empty
  | between h => exact ReadsTo.begin (.between h) hstep
  | header h hl =>
    obtain ⟨p, hp, rfl⟩ := Option.map_eq_some_iff.1 hstep
    rw [List.append_assoc]
    exact .props h hl (.prop (propLine_eq_some hp))
  | props h hl hps =>
    rw [Hvf.lineStep] at hstep
    split at hstep
    · obtain ⟨q, hq, rfl⟩ := Option.map_eq_some_iff.1 hstep
      rw [List.append_assoc, List.append_assoc]
      exact .props h hl (.props hps (propLine_eq_some (by assumption)) hq)
    · obtain ⟨v, hv, rfl⟩ := Option.map_eq_some_iff.1 hstep
      rw [List.append_assoc]
      exact .vdevs h hl hps (.vdev (vdevLine_eq_some hv))
  | vdevs h hl hps hvs =>
    rw [Hvf.lineStep] at hstep
    split_ifs at hstep with hnil
    · obtain ⟨u, hu, rfl⟩ := Option.map_eq_some_iff.1 hstep
      subst hnil
      exact .between (h.isUsers (isUser_of_header hl hps hvs hu))
    · obtain ⟨v, hv, rfl⟩ := Option.map_eq_some_iff.1 hstep
      rw [List.append_assoc, List.append_assoc]
      exact .vdevs h hl hps (.vdevs hvs (vdevLine_eq_some hv))

/-- **The lines are read as the grammar derives them**, by induction on the lines. -/
theorem readsTo_foldlM {ls : List (List Sym)} {toks : List Sym} {s s' : DirectState}
    (h : ReadsTo toks s) (hfold : ls.foldlM lineStep s = some s') :
    ReadsTo (toks ++ flatLines ls) s' := by
  induction ls generalizing toks s with
  | nil =>
    obtain rfl := Option.some.inj hfold
    rwa [flatLines_nil, List.append_nil]
  | cons l ls ih =>
    obtain ⟨t, hstep, hrest⟩ := Option.bind_eq_some_iff.1 hfold
    have htail := ih (h.lineStep hstep) hrest
    rwa [List.append_assoc, List.append_assoc, List.singleton_append, ← flatLines_cons] at htail

/-! ### From derivations to lines -/

/-- Lines that take one state to another. -/
def Goes (toks : List Sym) (s s' : DirectState) : Prop :=
  ∃ ls, (∀ l ∈ ls, IsLine l) ∧ toks = flatLines ls ∧ ls.foldlM lineStep s = some s'

/-- One line goes one step. -/
theorem Goes.single {l : List Sym} {s s' : DirectState} (hl : IsLine l)
    (hstep : lineStep s l = some s') : Goes (l ++ [.nline]) s s' :=
  ⟨[l], by simpa using hl, by simp, by simpa using hstep⟩

/-- Lines one behind the other go their steps. -/
theorem Goes.trans {toks toks' : List Sym} {s s' s'' : DirectState} (h : Goes toks s s')
    (h' : Goes toks' s' s'') : Goes (toks ++ toks') s s'' := by
  obtain ⟨ls, hls, rfl, hfold⟩ := h
  obtain ⟨ls', hls', rfl, hfold'⟩ := h'
  refine ⟨ls ++ ls', ?_, (flatLines_append ..).symm, ?_⟩
  · rintro l hl
    rcases List.mem_append.1 hl with hl | hl
    · exact hls l hl
    · exact hls' l hl
  · rw [List.foldlM_append, hfold]
    exact hfold'

/-- The properties of the grammar are read line by line. -/
theorem IsProps.goes {toks : List Sym} {p : DirectoryProp} (h : IsProps toks p) (us : List User)
    (name : List Char) (auth : BitVec 32) :
    Goes toks (.header us name auth) (.props us name auth p) := by
  induction h with
  | prop h =>
    obtain ⟨l, hline, rfl, hl⟩ := h.exists_line
    exact .single hline (by rw [lineStep, hl]; rfl)
  | props _ h' hmerge ih =>
    obtain ⟨l, hline, rfl, hl⟩ := h'.exists_line
    refine ih.trans (.single hline ?_)
    rw [lineStep, hl]
    simp [hmerge]

/-- The devices of the grammar are read line by line. -/
theorem IsVdevs.goes {toks : List Sym} {vs : List DirectoryVdev} (h : IsVdevs toks vs)
    (us : List User) (name : List Char) (auth : BitVec 32) (p : DirectoryProp) :
    Goes toks (.props us name auth p) (.vdevs us name auth p vs) := by
  induction h with
  | vdev h =>
    obtain ⟨l, hline, -, rfl, hl, hprop⟩ := h.exists_line
    exact .single hline (by rw [lineStep, hprop]; simp [hl])
  | vdevs _ h' ih =>
    obtain ⟨l, hline, hne, rfl, hl, -⟩ := h'.exists_line
    exact ih.trans (.single hline (by rw [lineStep, if_neg hne, hl]; rfl))

/-- A definition is read from where a `USER` line may stand. -/
theorem IsUser.goes {toks : List Sym} {u : User} (h : IsUser toks u) {s : DirectState}
    {us : List User} (hs : ∀ l, l ≠ [] → lineStep s l = beginUser us l) :
    ∃ s', Goes toks s s' ∧ s'.users = some (us ++ [u]) := by
  cases h with
  | @word name auth _ _ p vs _ hprops hvdevs hu =>
    refine ⟨.vdevs us name (authStr auth) p vs, ?_, by rw [DirectState.users, hu]; rfl⟩
    refine (Goes.single (l := [.user, .word name, .word auth]) (by simp [IsLine]) ?_).trans
      (hprops.goes us name _) |>.trans (hvdevs.goes us name _ p)
    rw [hs _ (by simp)]
    rfl
  | @num name auth _ _ p vs _ hprops hvdevs hu =>
    refine ⟨.vdevs us name (authInt auth) p vs, ?_, by rw [DirectState.users, hu]; rfl⟩
    refine (Goes.single (l := [.user, .word name, .num auth]) (by simp [IsLine]) ?_).trans
      (hprops.goes us name _) |>.trans (hvdevs.goes us name _ p)
    rw [hs _ (by simp)]
    rfl

/-- An empty line ends a user. -/
theorem lineStep_nil {s : DirectState} {us : List User} (h : s.users = some us) :
    lineStep s [] = some (.between us) := by
  cases s with
  | empty =>
    obtain rfl := Option.some.inj h
    rfl
  | vdevs us name auth p vs =>
    obtain ⟨u, hu, rfl⟩ := Option.map_eq_some_iff.1 h
    rw [lineStep, if_pos rfl, hu]
    rfl
  | start => exact nomatch h
  | between _ => exact nomatch h
  | header _ _ _ => exact nomatch h
  | props _ _ _ _ => exact nomatch h

/-- **What the grammar derives, the lines read**, by induction on the derivation. -/
theorem IsUsers.goes {toks : List Sym} {us : List User} (h : IsUsers toks us) :
    ∃ s, Goes toks .start s ∧ s.users = some us := by
  induction h with
  | users _ h' ih =>
    obtain ⟨s, hgoes, hs⟩ := ih
    obtain ⟨s', hgoes', hs'⟩ := h'.goes (s := .between _) fun l _ => rfl
    refine ⟨s', ?_, hs'⟩
    have hline := Goes.single (l := []) List.not_mem_nil (lineStep_nil hs)
    exact hgoes.trans (hline.trans hgoes')
  | user h => exact h.goes fun l hl => by rw [lineStep, if_neg hl]
  | empty => exact ⟨.empty, .single (l := []) List.not_mem_nil rfl, rfl⟩

/-- **The grammar reads line by line.** -/
theorem isUsers_iff {ls : List (List Sym)} (hls : ∀ l ∈ ls, IsLine l) (us : List User) :
    IsUsers (flatLines ls) us ↔ readLines ls = some us := by
  constructor
  · intro h
    obtain ⟨s, ⟨ls', hls', hflat, hfold⟩, hs⟩ := h.goes
    obtain rfl := flatLines_inj hls hls' hflat
    rw [readLines, hfold]
    exact hs
  · intro h
    obtain ⟨s, hfold, hs⟩ := Option.bind_eq_some_iff.1 h
    exact (readsTo_foldlM .start hfold).isUsers hs

/-- **The users that tokens define**, read line by line; none if a line is not one of the
grammar in its place, or something stands behind the last `NLINE`. -/
def readUsers (toks : List Sym) : Option (List User) := Lines.onLines .nline readLines toks

/-- What `users` derives can be read. -/
theorem isUsers_iff_readUsers {toks : List Sym} {us : List User} :
    IsUsers toks us ↔ readUsers toks = some us := by
  rw [readUsers, Lines.onLines_eq_some]
  constructor
  · intro h
    obtain ⟨s, ⟨ls, hls, rfl, hfold⟩, hs⟩ := h.goes
    exact ⟨ls, hls, rfl, Option.bind_eq_some_iff.2 ⟨s, hfold, hs⟩⟩
  · rintro ⟨ls, hls, rfl, hread⟩
    exact (isUsers_iff hls us).2 hread

end Hvf
