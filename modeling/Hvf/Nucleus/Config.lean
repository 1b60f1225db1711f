/-
# The configuration grammar

`cp/nucleus/config.y` with the values of the tokens from `cp/nucleus/config.l`.  As for the
directory, the productions are relations between the tokens a nonterminal derives and what
its action makes of `sysconf`; an action with a failed assertion or a `BUG` gives nothing.
Memory does not run out.

`heap k` is what the memory behind the copy of the `k`th word holds up to the next zero
byte: `strdup` does not copy the one at the end.
-/

import Hvf.Lib.Lines
import Hvf.Nucleus.Direct

namespace Hvf

/-! ### Values of tokens -/

/-- **A token of a configuration as the parser sees it**, with its value: the number, or the
copy of the word. -/
inductive ConfigSym
  | nline | comment | directory | operator | rdev | logo | console | userid | local
  | num (num : BitVec 64)
  | word (ptr : List Char)
  deriving DecidableEq, Repr

/-- The token `config_lex` returns; none for blanks. -/
def configSym (heap : List Char) (kind : ConfigToken) (l : List Char) : Option ConfigSym :=
  match kind with
  | .nline => some .nline
  | .comment => some .comment
  | .directory => some .directory
  | .operator => some .operator
  | .rdev => some .rdev
  | .logo => some .logo
  | .console => some .console
  | .userid => some .userid
  | .local => some .local
  | .num => some (.num ((hex l).getD 0))
  | .word => some (.word (l ++ heap))
  | .blank => none

/-- The tokens behind the first `k` words. -/
def configSyms (heap : ℕ → List Char) : ℕ → List (ConfigToken × List Char) → List ConfigSym
  | _, [] => []
  | k, (kind, l) :: toks =>
    (configSym (heap k) kind l).toList ++ configSyms heap (if kind = .word then k + 1 else k) toks

/-! ### Actions -/

/-- `LOGO_CONN_LOCAL`. -/
def logoConnLocal : ℕ := 1

/-- **A logo of the configuration** (`struct logo`), without its lines, which are read
later. -/
structure Logo where
  conn : ℕ
  devtype : BitVec 16
  fn : List Char
  ft : List Char
  deriving DecidableEq, Repr

/-- **The system's configuration** (`struct sysconf`), without `rdevs`, to which nothing is
added. -/
structure Sysconf where
  operCon : BitVec 16
  operUserid : List Char
  logos : List Logo
  directFn : List Char
  directFt : List Char
  deriving DecidableEq, Repr

/-- `sysconf` after the `memset`. -/
def Sysconf.zero : Sysconf where
  operCon := 0
  operUserid := List.replicate 9 '\x00'
  logos := []
  directFn := List.replicate 8 '\x00'
  directFt := List.replicate 8 '\x00'

/-- The first 8 characters of a string, filled up. -/
def eightChars (fill : Char) (ptr : List Char) : List Char :=
  ptr.take 8 ++ List.replicate (8 - ptr.length) fill

/-- `copy_fn`. -/
def copyFn (src : List Char) : List Char := eightChars ' ' src

namespace Sysconf

/-- `__logo(1, ..)`. -/
def addLogo (devtype : BitVec 64) (fn ft : List Char) (conf : Sysconf) : Option Sysconf :=
  if devtype ≤ 0xffff then
    some { conf with logos :=
      conf.logos ++ [⟨logoConnLocal, devtype.setWidth 16, copyFn fn, copyFn ft⟩] }
  else none

/-- `__rdev`, which saves nothing. -/
def addRdev (devnum devtype : BitVec 64) (conf : Sysconf) : Option Sysconf :=
  if devtype ≤ 0xffff ∧ devnum ≤ 0xffff then some conf else none

/-- `__oper_con`. -/
def setOperCon (devnum : BitVec 64) (conf : Sysconf) : Option Sysconf :=
  if devnum ≤ 0xffff then some { conf with operCon := devnum.setWidth 16 } else none

/-- `__oper_userid`; `strncpy` fills up with zero bytes. -/
def setOperUserid (name : List Char) (conf : Sysconf) : Sysconf :=
  { conf with operUserid := eightChars '\x00' name ++ ['\x00'] }

/-- `__direct`. -/
def setDirect (fn ft : List Char) (conf : Sysconf) : Sysconf :=
  { conf with directFn := copyFn fn, directFt := copyFn ft }

end Sysconf

/-! ### Productions -/

/-- **`stmt` of the grammar**, with `sysconf` before and after its action: one constructor
for each alternative of `config.y`. -/
inductive IsStmt : List ConfigSym → Sysconf → Sysconf → Prop
  | console {num conf conf'} (h : conf.setOperCon num = some conf') :
      IsStmt [.operator, .console, .num num, .nline] conf conf'
  | userid {name conf} :
      IsStmt [.operator, .userid, .word name, .nline] conf (conf.setOperUserid name)
  | operator {conf} : IsStmt [.operator, .userid, .operator, .nline] conf
      (conf.setOperUserid "OPERATOR".toList)
  | rdev {devnum devtype conf conf'} (h : conf.addRdev devnum devtype = some conf') :
      IsStmt [.rdev, .num devnum, .num devtype, .nline] conf conf'
  | logo {devtype fn ft conf conf'} (h : conf.addLogo devtype fn ft = some conf') :
      IsStmt [.logo, .local, .num devtype, .word fn, .word ft, .nline] conf conf'
  | logoLogo {devtype fn conf conf'}
      (h : conf.addLogo devtype fn "LOGO".toList = some conf') :
      IsStmt [.logo, .local, .num devtype, .word fn, .logo, .nline] conf conf'
  | directory {fn ft conf} :
      IsStmt [.directory, .word fn, .word ft, .nline] conf (conf.setDirect fn ft)
  | comment {conf} : IsStmt [.comment, .nline] conf conf
  | nline {conf} : IsStmt [.nline] conf conf

/-- **`stmts` of the grammar**: statements one after the other, each with its action on what
those before it have left. -/
inductive IsStmts : List ConfigSym → Sysconf → Sysconf → Prop
  | stmts {toks toks' conf conf' conf''} (h : IsStmts toks conf conf')
      (h' : IsStmt toks' conf' conf'') : IsStmts (toks ++ toks') conf conf''
  | stmt {toks conf conf'} (h : IsStmt toks conf conf') : IsStmts toks conf conf'

/-- A configuration has a statement. -/
theorem IsStmts.ne_nil {toks : List ConfigSym} {conf conf' : Sysconf}
    (h : IsStmts toks conf conf') : toks ≠ [] := by
  have hone : ∀ {toks : List ConfigSym} {conf conf' : Sysconf}, IsStmt toks conf conf' →
      toks ≠ [] := by
    intro toks conf conf' h
    cases h <;> exact List.cons_ne_nil _ _
  induction h with
  | stmts _ h' _ => exact List.append_ne_nil_of_right_ne_nil _ (hone h')
  | stmt h => exact hone h

/-! ### Line by line -/

/-- The user id that a keyword stands for. -/
def operatorUserid : List Char := "OPERATOR".toList

/-- The file type that a keyword stands for. -/
def logoFiletype : List Char := "LOGO".toList

/-- What stands behind `OPERATOR USERID`, up to `NLINE`. -/
def useridLine (conf : Sysconf) : List ConfigSym → Option Sysconf
  | [.word name] => some (conf.setOperUserid name)
  | [.operator] => some (conf.setOperUserid operatorUserid)
  | _ => none

/-- What stands behind `OPERATOR`, up to `NLINE`. -/
def operatorLine (conf : Sysconf) : List ConfigSym → Option Sysconf
  | [.console, .num num] => conf.setOperCon num
  | .userid :: l => useridLine conf l
  | _ => none

/-- What stands behind `RDEV`, up to `NLINE`. -/
def rdevLine (conf : Sysconf) : List ConfigSym → Option Sysconf
  | [.num devnum, .num devtype] => conf.addRdev devnum devtype
  | _ => none

/-- What stands behind `LOGO`, up to `NLINE`. -/
def logoLine (conf : Sysconf) : List ConfigSym → Option Sysconf
  | [.local, .num devtype, .word fn, .word ft] => conf.addLogo devtype fn ft
  | [.local, .num devtype, .word fn, .logo] => conf.addLogo devtype fn logoFiletype
  | _ => none

/-- What stands behind `DIRECTORY`, up to `NLINE`. -/
def directLine (conf : Sysconf) : List ConfigSym → Option Sysconf
  | [.word fn, .word ft] => some (conf.setDirect fn ft)
  | _ => none

/-- **A statement up to `NLINE`**, and what its action makes of `sysconf`.  The first token of
the line decides which statement it can be; an empty line leaves `sysconf` as it is. -/
def stmtLine (conf : Sysconf) : List ConfigSym → Option Sysconf
  | .operator :: l => operatorLine conf l
  | .rdev :: l => rdevLine conf l
  | .logo :: l => logoLine conf l
  | .directory :: l => directLine conf l
  | [.comment] => some conf
  | [] => some conf
  | _ => none

/-- `sysconf` after lines, of which there is one. -/
def readStmtLines (conf : Sysconf) (ls : List (List ConfigSym)) : Option Sysconf :=
  if ls = [] then none else ls.foldlM stmtLine conf

/-- **`sysconf` after the tokens**, read line by line. -/
def readStmts (toks : List ConfigSym) : Option Sysconf :=
  Lines.onLines .nline (readStmtLines .zero) toks

/-- A statement of the grammar is one line, and the line's function reads it. -/
theorem IsStmt.exists_line {toks : List ConfigSym} {conf conf' : Sysconf}
    (h : IsStmt toks conf conf') :
    ∃ l, .nline ∉ l ∧ toks = l ++ [.nline] ∧ stmtLine conf l = some conf' := by
  cases h with
  | @console num _ _ h => exact ⟨[.operator, .console, .num num], by simp, rfl, h⟩
  | @userid name => exact ⟨[.operator, .userid, .word name], by simp, rfl, rfl⟩
  | operator => exact ⟨[.operator, .userid, .operator], by simp, rfl, rfl⟩
  | @rdev devnum devtype _ _ h => exact ⟨[.rdev, .num devnum, .num devtype], by simp, rfl, h⟩
  | @logo devtype fn ft _ _ h =>
    exact ⟨[.logo, .local, .num devtype, .word fn, .word ft], by simp, rfl, h⟩
  | @logoLogo devtype fn _ _ h =>
    exact ⟨[.logo, .local, .num devtype, .word fn, .logo], by simp, rfl, h⟩
  | @directory fn ft => exact ⟨[.directory, .word fn, .word ft], by simp, rfl, rfl⟩
  | comment => exact ⟨[.comment], by simp, rfl, rfl⟩
  | nline => exact ⟨[], List.not_mem_nil, rfl, rfl⟩

/-- What the function of a `USERID` line reads is a statement of the grammar. -/
theorem useridLine_eq_some {l : List ConfigSym} {conf conf' : Sysconf}
    (h : useridLine conf l = some conf') :
    IsStmt (.operator :: .userid :: l ++ [.nline]) conf conf' := by
  unfold useridLine at h
  split at h
  case h_1 => exact Option.some.inj h ▸ .userid
  case h_2 => exact Option.some.inj h ▸ .operator
  case h_3 => cases h

/-- What the function of an `OPERATOR` line reads is a statement of the grammar. -/
theorem operatorLine_eq_some {l : List ConfigSym} {conf conf' : Sysconf}
    (h : operatorLine conf l = some conf') : IsStmt (.operator :: l ++ [.nline]) conf conf' := by
  unfold operatorLine at h
  split at h
  case h_1 => exact .console h
  case h_2 => exact useridLine_eq_some h
  case h_3 => cases h

/-- What the function of an `RDEV` line reads is a statement of the grammar. -/
theorem rdevLine_eq_some {l : List ConfigSym} {conf conf' : Sysconf}
    (h : rdevLine conf l = some conf') : IsStmt (.rdev :: l ++ [.nline]) conf conf' := by
  unfold rdevLine at h
  split at h
  case h_1 => exact .rdev h
  case h_2 => cases h

/-- What the function of a `LOGO` line reads is a statement of the grammar. -/
theorem logoLine_eq_some {l : List ConfigSym} {conf conf' : Sysconf}
    (h : logoLine conf l = some conf') : IsStmt (.logo :: l ++ [.nline]) conf conf' := by
  unfold logoLine at h
  split at h
  case h_1 => exact .logo h
  case h_2 => exact .logoLogo h
  case h_3 => cases h

/-- What the function of a `DIRECTORY` line reads is a statement of the grammar. -/
theorem directLine_eq_some {l : List ConfigSym} {conf conf' : Sysconf}
    (h : directLine conf l = some conf') :
    IsStmt (.directory :: l ++ [.nline]) conf conf' := by
  unfold directLine at h
  split at h
  case h_1 => exact Option.some.inj h ▸ .directory
  case h_2 => cases h

/-- **A line that is read is a `stmt`.** -/
theorem stmtLine_eq_some {l : List ConfigSym} {conf conf' : Sysconf}
    (h : stmtLine conf l = some conf') : IsStmt (l ++ [.nline]) conf conf' := by
  unfold stmtLine at h
  split at h
  case h_1 => exact operatorLine_eq_some h
  case h_2 => exact rdevLine_eq_some h
  case h_3 => exact logoLine_eq_some h
  case h_4 => exact directLine_eq_some h
  case h_5 => exact Option.some.inj h ▸ .comment
  case h_6 => exact Option.some.inj h ▸ .nline
  case h_7 => cases h

/-- Lines are `stmts` where the first one is a `stmt`. -/
theorem isStmts_foldlM {ls : List (List ConfigSym)} {toks : List ConfigSym}
    {conf conf' conf'' : Sysconf} (h : IsStmts toks conf conf')
    (hfold : ls.foldlM stmtLine conf' = some conf'') :
    IsStmts (toks ++ Lines.join .nline ls) conf conf'' := by
  induction ls generalizing toks conf' with
  | nil =>
    obtain rfl := Option.some.inj hfold
    rwa [Lines.join_nil, List.append_nil]
  | cons l ls ih =>
    rw [List.foldlM_cons] at hfold
    obtain ⟨conf₁, hl, hrest⟩ := Option.bind_eq_some_iff.1 hfold
    have hnext := ih (h.stmts (stmtLine_eq_some hl)) hrest
    rwa [List.append_assoc, List.append_assoc, List.singleton_append, ← Lines.join_cons] at hnext

/-- **The statements of the grammar are lines**, by induction on the derivation. -/
theorem IsStmts.exists_lines {toks : List ConfigSym} {conf conf' : Sysconf}
    (h : IsStmts toks conf conf') :
    ∃ ls : List (List ConfigSym), (∀ l ∈ ls, .nline ∉ l) ∧ toks = Lines.join .nline ls ∧
      ls ≠ [] ∧ ls.foldlM stmtLine conf = some conf' := by
  induction h with
  | stmts _ h' ih =>
    obtain ⟨ls, hls, rfl, -, hfold⟩ := ih
    obtain ⟨l, hl, rfl, hline⟩ := h'.exists_line
    refine ⟨ls ++ [l], fun l' hl' => ?_, by simp [Lines.join], by simp, ?_⟩
    · rcases List.mem_append.1 hl' with hl' | hl'
      · exact hls l' hl'
      · exact List.mem_singleton.1 hl' ▸ hl
    · rw [List.foldlM_append, hfold]
      show [l].foldlM stmtLine _ = _
      rw [List.foldlM_cons, hline]
      rfl
  | stmt h =>
    obtain ⟨l, hl, rfl, hline⟩ := h.exists_line
    refine ⟨[l], fun l' hl' => List.mem_singleton.1 hl' ▸ hl, by simp [Lines.join], by simp, ?_⟩
    rw [List.foldlM_cons, hline]
    rfl

/-- **What `stmts` derives can be read.** -/
theorem isStmts_iff_readStmts {toks : List ConfigSym} {conf : Sysconf} :
    IsStmts toks .zero conf ↔ readStmts toks = some conf := by
  rw [readStmts, Lines.onLines_eq_some]
  constructor
  · intro h
    obtain ⟨ls, hls, htoks, hne, hfold⟩ := h.exists_lines
    exact ⟨ls, hls, htoks, by rw [readStmtLines, if_neg hne, hfold]⟩
  · rintro ⟨ls, -, rfl, hread⟩
    cases ls with
    | nil => cases hread
    | cons l ls =>
      have hfold : (l :: ls).foldlM stmtLine .zero = some conf := hread
      rw [List.foldlM_cons] at hfold
      obtain ⟨conf₁, hl, hrest⟩ := Option.bind_eq_some_iff.1 hfold
      have hall := isStmts_foldlM (.stmt (stmtLine_eq_some hl)) hrest
      rwa [List.append_assoc, List.singleton_append, ← Lines.join_cons] at hall

end Hvf
