/-
# The command interpreter

`invoke_shell_cmd` in `shell/cmds.c`.  The first word of a line is looked up in the table of
commands; some have a table of sub-commands, where the second word is looked up.  The handler
gets the rest of the line, and what the code takes for its length.

A line is the string in the buffer; `strmsep` puts a NUL behind each word, so that the rest of the
line is a pointer into the buffer, or `NULL` where the word is the last and no blank follows.
What is found depends on the words of the line (`lookupCmd`, `findCmd_spec`), and each operand
pointer for the words belongs to a line (`exists_findCmd`).
-/

import Hvf.Shell.HandlerSpacing

namespace Hvf

open Words

/-! ### The tables -/

/-- A table: an entry for each of the names. -/
def cmdTable {α : Type} (entries : List (List String × α)) : List (List UInt8 × α) :=
  entries.flatMap fun e => e.1.map fun name => (ascii name, e.2)

/-- The subcommands of `DISPLAY`, in the table's order. -/
def cmdTblDisplay : List (List UInt8 × CmdFn) := cmdTable
  [(["AR", "A"], .cmdDisplayAr), (["CR", "C"], .cmdDisplayCr), (["FPCR"], .cmdDisplayFpcr),
   (["FPR", "FP", "F"], .cmdDisplayFpr), (["GPR", "GP", "G"], .cmdDisplayGpr),
   (["PSW"], .cmdDisplayPsw), (["SCHIB"], .cmdDisplaySchib), (["SIECB"], .cmdDisplaySiecb),
   (["STORAGE", "STORAG", "STORA", "STOR", "STO"], .cmdDisplayStorage)]

/-- The subcommands of `QUERY`. -/
def cmdTblQuery : List (List UInt8 × CmdFn) := cmdTable
  [(["ARCHMODE"], .cmdQueryArchmode), (["CPLEVEL"], .cmdQueryCplevel), (["TIME"], .cmdQueryTime),
   (["VIRTUAL", "VIRTUA", "VIRTU", "VIRT", "VIR", "VI", "V"], .cmdQueryVirtual),
   (["REAL", "REA", "RE", "R"], .cmdQueryReal), (["NAMES", "NAME", "NAM"], .cmdQueryNames),
   (["TASK"], .cmdQueryTask), (["USERID"], .cmdQueryUserid)]

/-- The subcommands of `SET`. -/
def cmdTblSet : List (List UInt8 × CmdFn) := cmdTable
  [(["NOTS"], .cmdSetNots), (["TS"], .cmdSetTs)]

/-- The subcommands of `STORE`. -/
def cmdTblStore : List (List UInt8 × CmdFn) := cmdTable
  [(["AR", "A"], .cmdStoreAr), (["CR", "C"], .cmdStoreCr), (["FPCR"], .cmdStoreFpcr),
   (["FPR", "FP", "F"], .cmdStoreFpr), (["GPR", "GP", "G"], .cmdStoreGpr), (["PSW"], .cmdStorePsw),
   (["STORAGE", "STORAG", "STORA", "STOR", "STO"], .cmdStoreStorage)]

/-- `commands`: for each name a handler, or a table of sub-commands. -/
def commands : List (List UInt8 × (CmdFn ⊕ List (List UInt8 × CmdFn))) := cmdTable
  [(["BEGIN", "BEGI", "BEG", "BE"], .inl .cmdBegin),
   (["DISPLAY", "DISPLA", "DISPL", "DISP", "DIS", "DI", "D"], .inr cmdTblDisplay),
   (["ENABLE", "ENABL", "ENAB", "ENA"], .inl .cmdEnable), (["IPL", "IP", "I"], .inl .cmdIpl),
   (["LOGIN", "LOGON", "LOGO", "LOGI", "LOG", "LO", "L"], .inl .cmdLogonFail),
   (["QUERY", "QUER", "QUE", "QU", "Q"], .inr cmdTblQuery), (["SET"], .inr cmdTblSet),
   (["STOP"], .inl .cmdStop), (["STORE", "STOR", "STO"], .inr cmdTblStore),
   (["SYSTEM", "SYSTE", "SYST", "SYS"], .inl .cmdSystem)]

/-! ### The interpreter -/

/-- What an `int` holds of a number. -/
def cutInt (n : Int) : Int := n.bmod (2 ^ 32)

/-- `len -= cmd - orig`.  The string ends at the address `stop`, and so the address of `orig` is
known; the difference to `NULL` is cut to 32 bits. -/
def restLen (stop : ℕ) (orig : List UInt8) (len : Int) : Option (List UInt8) → Int
  | some cmd => len - (orig.length - cmd.length)
  | none => cutInt (len - (0 - (stop - orig.length)))

/-- One level of `__invoke_shell_cmd`: what the entry of the table has, and `cmd` and `len`. -/
def matchCmd {α : Type} (t : List (List UInt8 × α)) (stop : ℕ) (cmd : Option (List UInt8))
    (len : Int) : Except Int (α × Option (List UInt8) × Int) :=
  match cmd with
  | none => .error (-enoent)
  | some orig =>
    match strmsep (some orig) [0x20] with
    | (none, _) => .error (-enoent)
    | (some tok, cmd) =>
      match t.find? fun e => strcasecmp e.1 tok = 0 with
      | none => .error (-enoent)
      | some e => .ok (e.2, cmd, restLen stop orig len cmd)

/-- **What is invoked**: the handler, whether it is one of a sub-command, and its two
arguments, the operand and the length that was computed for it. -/
structure Invoked where
  fnx : CmdFn
  sub : Bool
  cmd : Option (List UInt8)
  len : Int
deriving DecidableEq

/-- How a sub-command's error is told from a command's. -/
def subErr (ret : Int) : Int := if ret = -enoent then -esubenoent else ret

/-- What `__invoke_shell_cmd` invokes for the line in the buffer at `base`. -/
def findCmd (base : ℕ) (line : List UInt8) : Except Int Invoked :=
  match matchCmd commands (base + line.length) (some line) line.length with
  | .error e => .error e
  | .ok (.inl fnx, cmd, len) => .ok ⟨fnx, false, cmd, len⟩
  | .ok (.inr t, cmd, len) =>
    match matchCmd t (base + line.length) cmd len with
    | .error e => .error (subErr e)
    | .ok (fnx, cmd, len) => .ok ⟨fnx, true, cmd, len⟩

/-- What a sub-command returns. -/
def CmdResult.sub : CmdResult → CmdResult
  | .ret e line => .ret (subErr e) line
  | r => r

/-- The result of the handler. -/
def Invoked.result (env : ShellEnv) (i : Invoked) : CmdResult :=
  if i.sub then (i.fnx.call env i.cmd i.len).sub else i.fnx.call env i.cmd i.len

/-- `invoke_shell_cmd`: the handler and its result, or an error if there is none. -/
def invokeShellCmd (env : ShellEnv) (base : ℕ) (line : List UInt8) :
    Except Int (CmdFn × CmdResult) :=
  (findCmd base line).map fun i => (i.fnx, i.result env)

/-- The spacing of the line does not count, no handler reads at `NULL`, and the length is that of
the operand. -/
structure SpacingSafe (env : ShellEnv) (base : ℕ) (line : List UInt8) : Prop where
  same : ∀ line', cmdWords line' = cmdWords line →
    invokeShellCmd env base line' = invokeShellCmd env base line
  noFault : ∀ i, findCmd base line = .ok i → i.result env ≠ .fault
  len : ∀ i, findCmd base line = .ok i → i.len = (i.cmd.getD []).length

/-! ### What is found -/

/-- The handler for the words of a line, if it is one of a sub-command, and the operands. -/
def lookupCmd : List (List UInt8) → Except Int (CmdFn × Bool × List (List UInt8))
  | [] => .error (-enoent)
  | w :: ws =>
    match commands.find? fun e => strcasecmp e.1 w = 0 with
    | none => .error (-enoent)
    | some (_, .inl fnx) => .ok (fnx, false, ws)
    | some (_, .inr t) =>
      match ws with
      | [] => .error (-esubenoent)
      | w :: ops =>
        match t.find? fun e => strcasecmp e.1 w = 0 with
        | none => .error (-esubenoent)
        | some e => .ok (e.2, true, ops)

section

variable {α : Type} {t : List (List UInt8 × α)} {stop base : ℕ} {len : Int} {w s line : List UInt8}
  {ws ops : List (List UInt8)} {cmd : Option (List UInt8)} {f : CmdFn} {sub : Bool}

/-- What follows a word on the line. -/
def afterWord : Option (List UInt8) → List UInt8
  | none => []
  | some cmd => 0x20 :: cmd

/-- Behind a word comes a blank or nothing. -/
theorem head?_afterWord (cmd : Option (List UInt8)) :
    ∀ c ∈ (afterWord cmd).head?, [(0x20 : UInt8)].contains c = true := by
  cases cmd with
  | none => exact nofun
  | some cmd =>
    rintro c ⟨⟩
    exact mem_blank.2 rfl

/-- What comes behind a word has the operand's words. -/
theorem cmdWords_afterWord (cmd : Option (List UInt8)) :
    cmdWords (afterWord cmd) = cmdWords (cmd.getD []) := by
  cases cmd with
  | none => rfl
  | some cmd => exact words_cons_of_pos (mem_blank.2 rfl)

/-- A word and what comes behind it are that word and the operand's. -/
theorem cmdWords_word (hne : w ≠ []) (hw : ∀ c ∈ w, [(0x20 : UInt8)].contains c = false)
    (cmd : Option (List UInt8)) :
    cmdWords (w ++ afterWord cmd) = w :: cmdWords (cmd.getD []) := by
  rw [← cmdWords_afterWord]
  exact words_append hne hw (head?_afterWord cmd)

/-- A line with words, behind its blanks. -/
theorem exists_afterWord (h : cmdWords s = w :: ws) :
    w ≠ [] ∧ (∀ c ∈ w, [(0x20 : UInt8)].contains c = false) ∧
      ∃ cmd, s.dropWhile [(0x20 : UInt8)].contains = w ++ afterWord cmd ∧
        cmdWords (cmd.getD []) = ws := by
  obtain ⟨hne, hw, l, -, hl, heq, hhead⟩ := exists_words_eq h
  refine ⟨hne, hw, ?_⟩
  cases l with
  | nil => exact ⟨none, heq, hl⟩
  | cons c l =>
    have hc := mem_blank.1 (hhead c rfl)
    subst hc
    exact ⟨some l, heq, (words_cons_of_pos (mem_blank.2 rfl)).symm.trans hl⟩

/-- `strmsep` returns the word. -/
theorem strmsep_afterWord (hw : ∀ c ∈ w, [(0x20 : UInt8)].contains c = false)
    (hs : s.dropWhile [(0x20 : UInt8)].contains = w ++ afterWord cmd) :
    strmsep (some s) [0x20] = (some w, cmd) := by
  rw [strmsep_some, hs]
  cases cmd with
  | none =>
    rw [afterWord, List.append_nil]
    exact strsep_of_forall hw
  | some cmd => exact strsep_append_cons hw (mem_blank.2 rfl)

/-- Names are not empty. -/
def NamesOk (t : List (List UInt8 × α)) : Prop := ∀ e ∈ t, strcasecmp e.1 [] ≠ 0

/-- Whether a table's names are words is decided name by name. -/
instance (t : List (List UInt8 × α)) : Decidable (NamesOk t) :=
  inferInstanceAs (Decidable (∀ e ∈ t, _))

/-- No entry is found for blanks. -/
theorem matchCmd_of_words_nil (ht : NamesOk t) (h : cmdWords (cmd.getD []) = []) :
    matchCmd t stop cmd len = .error (-enoent) := by
  cases cmd with
  | none => rfl
  | some s =>
    have hall : s.dropWhile [(0x20 : UInt8)].contains = [] :=
      List.dropWhile_eq_nil_iff.2 (forall_of_words_nil h)
    have htok : strmsep (some s) [0x20] = (some [], none) := by
      rw [strmsep_some, hall]
      exact strsep_of_forall nofun
    have hfind : (t.find? fun e => strcasecmp e.1 [] = 0) = none := by
      rw [List.find?_eq_none]
      intro e he
      rw [decide_eq_true_eq]
      exact ht e he
    rw [matchCmd, htok]
    dsimp only
    rw [hfind]

/-- One level, on a line with words. -/
theorem matchCmd_of_words (hw : ∀ c ∈ w, [(0x20 : UInt8)].contains c = false)
    (hs : s.dropWhile [(0x20 : UInt8)].contains = w ++ afterWord cmd) :
    matchCmd t stop (some s) len =
      match t.find? fun e => strcasecmp e.1 w = 0 with
      | none => .error (-enoent)
      | some e => .ok (e.2, cmd, restLen stop s len cmd) := by
  rw [matchCmd, strmsep_afterWord hw hs]

/-- The length that a handler gets: that of its operand, and the address where the line ends, cut
to 32 bits, where nothing follows the command. -/
def operandLen (stop : ℕ) : Option (List UInt8) → Int
  | some cmd => cmd.length
  | none => cutInt stop

/-- The length computed without an operand is 0 only if the line's end is a multiple of 2³². -/
theorem operandLen_none_eq_zero_iff (stop : ℕ) : operandLen stop none = 0 ↔ 2 ^ 32 ∣ stop := by
  rw [operandLen, cutInt, ← Int.dvd_iff_bmod_eq_zero]
  exact Int.natCast_dvd_natCast

/-- The length left behind a word is the operand's. -/
theorem restLen_eq (stop : ℕ) (s : List UInt8) (cmd : Option (List UInt8)) :
    restLen stop s s.length cmd = operandLen stop cmd := by
  cases cmd with
  | none =>
    have hend : (s.length : Int) - (0 - ((stop : Int) - s.length)) = stop := by omega
    rw [restLen, hend, operandLen]
  | some cmd =>
    rw [restLen, operandLen]
    omega

/-- A line whose first word is a command is that command with its operand. -/
theorem findCmd_of_inl {name : List UInt8} (hw : ∀ c ∈ w, [(0x20 : UInt8)].contains c = false)
    (hs : line.dropWhile [(0x20 : UInt8)].contains = w ++ afterWord cmd)
    (hfind : (commands.find? fun e => strcasecmp e.1 w = 0) = some (name, .inl f)) :
    findCmd base line = .ok ⟨f, false, cmd, operandLen (base + line.length) cmd⟩ := by
  rw [findCmd, matchCmd_of_words hw hs, hfind, ← restLen_eq]

/-- A line whose first word has subcommands is looked up by its second. -/
theorem findCmd_of_inr (base : ℕ) {name v : List UInt8} {t : List (List UInt8 × CmdFn)}
    {cmd' : Option (List UInt8)} (hw : ∀ c ∈ w, [(0x20 : UInt8)].contains c = false)
    (hs : line.dropWhile [(0x20 : UInt8)].contains = w ++ afterWord (some s))
    (hfind : (commands.find? fun e => strcasecmp e.1 w = 0) = some (name, .inr t))
    (hv : ∀ c ∈ v, [(0x20 : UInt8)].contains c = false)
    (hs' : s.dropWhile [(0x20 : UInt8)].contains = v ++ afterWord cmd') :
    findCmd base line =
      match t.find? fun e => strcasecmp e.1 v = 0 with
      | none => .error (-esubenoent)
      | some e => .ok ⟨e.2, true, cmd', operandLen (base + line.length) cmd'⟩ := by
  rw [findCmd, matchCmd_of_words hw hs, hfind]
  dsimp only
  rw [restLen_eq, operandLen, matchCmd_of_words hv hs', restLen_eq]
  generalize operandLen (base + line.length) cmd' = len
  cases t.find? fun e => strcasecmp e.1 v = 0 <;> rfl

/-- The names of the commands are words. -/
theorem namesOk_commands : NamesOk commands := by decide +kernel

/-- So are those of the subcommands. -/
theorem namesOk_sub {name : List UInt8} {t : List (List UInt8 × CmdFn)}
    (h : (name, Sum.inr t) ∈ commands) : NamesOk t := by
  have hall : ∀ e ∈ commands, ∀ t ∈ e.2.getRight?, NamesOk t := by decide +kernel
  exact hall _ h t rfl

/-- What stands before the operands ends with a word. -/
def EndsWord (line : List UInt8) (cmd : Option (List UInt8)) : Prop :=
  ∃ front, line = front ++ afterWord cmd ∧ ¬ EndsBlank [0x20] front

/-- The operand of a line begins behind its first word. -/
theorem endsWord_of_dropWhile (hne : w ≠ []) (hw : ∀ c ∈ w, [(0x20 : UInt8)].contains c = false)
    (hs : s.dropWhile [(0x20 : UInt8)].contains = w ++ afterWord cmd) : EndsWord s cmd := by
  refine ⟨s.takeWhile [(0x20 : UInt8)].contains ++ w, ?_, not_endsBlank_of_forall hne hw _⟩
  rw [List.append_assoc, ← hs, List.takeWhile_append_dropWhile]

/-- The operand of an operand is one of the line. -/
theorem EndsWord.trans {cmd' : Option (List UInt8)} (h : EndsWord line (some s))
    (h' : EndsWord s cmd') : EndsWord line cmd' := by
  obtain ⟨front, rfl, -⟩ := h
  obtain ⟨front', rfl, hfront'⟩ := h'
  refine ⟨front ++ 0x20 :: front', by simp [afterWord], fun hends => hfront' ?_⟩
  exact (endsBlank_append_cons front (mem_blank.2 rfl)).1 hends

/-- **What is found depends on the words of the line**, and so do the words of the operand. -/
theorem findCmd_spec (base : ℕ) (line : List UInt8) :
    match lookupCmd (cmdWords line) with
    | .error e => findCmd base line = .error e
    | .ok (f, sub, ops) => ∃ cmd,
        findCmd base line = .ok ⟨f, sub, cmd, operandLen (base + line.length) cmd⟩ ∧
          cmdWords (cmd.getD []) = ops ∧ EndsWord line cmd := by
  cases hws : cmdWords line with
  | nil =>
    show findCmd base line = .error (-enoent)
    have hnil : cmdWords ((some line).getD []) = [] := hws
    rw [findCmd, matchCmd_of_words_nil namesOk_commands hnil]
  | cons w ws =>
    obtain ⟨hne, hw, cmd, hs, hcmd⟩ := exists_afterWord hws
    have hends := endsWord_of_dropWhile hne hw hs
    rw [lookupCmd]
    cases hfind : commands.find? fun e => strcasecmp e.1 w = 0 with
    | none =>
      show findCmd base line = .error (-enoent)
      rw [findCmd, matchCmd_of_words hw hs, hfind]
    | some e =>
      obtain ⟨name, fnx | t⟩ := e
      · exact ⟨cmd, findCmd_of_inl hw hs hfind, hcmd, hends⟩
      · cases ws with
        | nil =>
          show findCmd base line = .error (-esubenoent)
          have ht := namesOk_sub (List.mem_of_find?_eq_some hfind)
          rw [findCmd, matchCmd_of_words hw hs, hfind]
          dsimp only
          rw [matchCmd_of_words_nil ht hcmd]
          rfl
        | cons v ops =>
          cases cmd with
          | none => cases hcmd
          | some s =>
            obtain ⟨hne', hv, cmd', hs', hcmd'⟩ := exists_afterWord hcmd
            have hfound := findCmd_of_inr base hw hs hfind hv hs'
            dsimp only
            cases hsub : t.find? fun e => strcasecmp e.1 v = 0 with
            | none =>
              rw [hsub] at hfound
              exact hfound
            | some e =>
              rw [hsub] at hfound
              exact ⟨cmd', hfound, hcmd', hends.trans (endsWord_of_dropWhile hne' hv hs')⟩

/-- **Every operand pointer for the words is that of a line** with the same words. -/
theorem exists_findCmd (base : ℕ) (h : lookupCmd (cmdWords line) = .ok (f, sub, ops))
    (hcmd : cmdWords (cmd.getD []) = ops) :
    ∃ line', cmdWords line' = cmdWords line ∧
      findCmd base line' = .ok ⟨f, sub, cmd, operandLen (base + line'.length) cmd⟩ := by
  have hdrop {w : List UInt8} (hne : w ≠ []) (hw : ∀ c ∈ w, [(0x20 : UInt8)].contains c = false)
      (l : List UInt8) : (w ++ l).dropWhile [(0x20 : UInt8)].contains = w ++ l := by
    obtain ⟨c, w, rfl⟩ := List.ne_nil_iff_exists_cons.1 hne
    have hc := hw c (List.mem_cons_self ..)
    exact List.dropWhile_cons_of_neg (by rw [hc]; exact Bool.false_ne_true)
  cases hws : cmdWords line with
  | nil =>
    rw [hws] at h
    cases h
  | cons w ws =>
    obtain ⟨hne, hw, cmd₀, -, hcmd₀⟩ := exists_afterWord hws
    rw [hws, lookupCmd] at h
    cases hfind : commands.find? fun e => strcasecmp e.1 w = 0 with
    | none =>
      rw [hfind] at h
      cases h
    | some e =>
      obtain ⟨name, fnx | t⟩ := e
      · rw [hfind] at h
        cases h
        refine ⟨w ++ afterWord cmd, ?_, findCmd_of_inl hw (hdrop hne hw _) hfind⟩
        rw [cmdWords_word hne hw, hcmd]
      · rw [hfind] at h
        cases ws with
        | nil => cases h
        | cons v ws =>
          obtain ⟨hne', hv, -⟩ := exists_afterWord hcmd₀
          dsimp only at h
          cases hsub : t.find? fun e => strcasecmp e.1 v = 0 with
          | none =>
            rw [hsub] at h
            cases h
          | some e =>
            rw [hsub] at h
            cases h
            have hfound := findCmd_of_inr base hw
              (hdrop hne hw (afterWord (some (v ++ afterWord cmd)))) hfind hv (hdrop hne' hv _)
            rw [hsub] at hfound
            refine ⟨_, ?_, hfound⟩
            rw [cmdWords_word hne hw, Option.getD_some, cmdWords_word hne' hv, hcmd]

end

/-! ### What a handler returns -/

section

variable {α : Type} {r : CmdResult} {text : List UInt8 → CmdResult}

/-- The result is not the error for a command that is not found. -/
def NotEnoent (r : CmdResult) : Prop := ∀ line, r ≠ .ret (-enoent) line

/-- A result that is not `-ENOENT` is passed on from a subcommand. -/
theorem NotEnoent.sub (h : NotEnoent r) : r.sub = r := by
  cases r with
  | ret e line =>
    rw [CmdResult.sub, subErr, if_neg]
    rintro rfl
    exact h line rfl
  | _ => rfl

/-- `-EINVAL` is not `-ENOENT`. -/
theorem notEnoent_einval (line : List UInt8) : NotEnoent (.ret (-einval) line) := by
  intro line' h
  injection h with h
  exact absurd h (by decide)

/-- An action is not `-ENOENT`. -/
theorem notEnoent_act (a : CmdAct) : NotEnoent (.act a) := fun _ => nofun

/-- 0 is not `-ENOENT`. -/
theorem notEnoent_zero (line : List UInt8) : NotEnoent (.ret 0 line) := by
  intro line' h
  injection h with h
  exact absurd h (by decide)

/-- An operand that fails gives `-EINVAL`, and what follows is not `-ENOENT`. -/
theorem notEnoent_bind {x : Except Int α} {f : α → CmdResult}
    (hx : ∀ e, x = .error e → e = -einval) (hf : ∀ a, NotEnoent (f a)) :
    NotEnoent (.bind x f) := by
  cases x with
  | error e =>
    rw [hx e rfl]
    exact notEnoent_einval []
  | ok a => exact hf a

/-- A number behind a check. -/
theorem notEnoent_ite {c : Prop} [Decidable c] (h : NotEnoent r) :
    NotEnoent (if c then .ret (-einval) [] else r) := by
  split_ifs
  · exact notEnoent_einval []
  · exact h

/-- An operand followed is none either, where it is text. -/
theorem notEnoent_derefs (h : ∀ s, NotEnoent (text s)) (cmd : Option (List UInt8)) :
    NotEnoent (derefs text cmd) := by
  cases cmd with
  | none => exact fun _ => nofun
  | some s => exact h s

/-- A keyword's result is none. -/
theorem notEnoent_keyword {keywords : List (List UInt8 × CmdResult)}
    {p : List UInt8 × CmdResult → Bool} {k : List UInt8 × CmdResult}
    (hk : ∀ k ∈ keywords, k.2.sub = k.2) (h : keywords.find? p = some k) : NotEnoent k.2 := by
  intro line hline
  have hsub := hk k (List.mem_of_find?_eq_some h)
  rw [hline] at hsub
  injection hsub with hsub
  exact absurd hsub (by decide)

/-- An operand that is a keyword or a number gives none. -/
theorem notEnoent_keywordOrHex {keywords : List (List UInt8 × CmdResult)} {bad : UInt64 → Bool}
    (act : UInt64 → CmdAct) (hk : ∀ k ∈ keywords, k.2.sub = k.2) (s : List UInt8) :
    NotEnoent (keywordOrHex keywords bad (fun val => .act (act val)) s) := by
  rw [keywordOrHex]
  cases hfind : keywords.find? fun k => strcasecmp s k.1 = 0 with
  | some k => exact notEnoent_keyword hk hfind
  | none =>
    exact notEnoent_bind (fun _ => extractHexPtr_eq_error) fun _ => notEnoent_ite (notEnoent_act _)

/-- `SYSTEM` gives none. -/
theorem notEnoent_systemText (s : List UInt8) : NotEnoent (systemText s) := by
  rw [systemText]
  cases hfind : systemOperands.find? fun k => strcasecmp s k.1 = 0 with
  | some k => exact notEnoent_keyword (by decide +kernel) hfind
  | none => exact notEnoent_zero _

/-- `DISPLAY PSW` gives none. -/
theorem notEnoent_displayPswText (s : List UInt8) : NotEnoent (displayPswText s) := by
  rw [displayPswText]
  cases pswOperands.find? fun k => strcasecmp s k.1 = 0 <;> exact notEnoent_act _

/-- `DISPLAY STORAGE` gives none. -/
theorem notEnoent_displayStorageText (s : List UInt8) : NotEnoent (displayStorageText s) := by
  rw [displayStorageText]
  cases parseAddrspec true (displayFmt s).2 with
  | error e => exact notEnoent_zero _
  | ok r => exact notEnoent_act _

/-- `QUERY REAL` gives none. -/
theorem notEnoent_queryRealText (len : Int) (s : List UInt8) :
    NotEnoent (queryRealText s len) := by
  rw [queryRealText]
  split_ifs
  · exact notEnoent_act _
  · exact notEnoent_keywordOrHex (fun _ => .queryReal 8) (by decide +kernel) s

/-- `STORE STORAGE` gives none. -/
theorem notEnoent_storeStorageText (s : List UInt8) : NotEnoent (storeStorageText s) := by
  rw [storeStorageText]
  cases hr : parseAddrspec false s with
  | error e =>
    rw [parseAddrspec_eq_error hr]
    exact notEnoent_einval _
  | ok r =>
    exact notEnoent_bind (fun _ => extractHexPtr_eq_error) fun _ => notEnoent_act _

/-- The register stores give none. -/
theorem notEnoent_storeRegister (bad : UInt64 → Bool) (cmd : Option (List UInt8)) :
    NotEnoent (storeRegister bad cmd) :=
  notEnoent_bind (fun _ => extract_eq_error) fun _ => notEnoent_ite <|
    notEnoent_bind (fun _ => extractHexPtr_eq_error) fun _ => notEnoent_ite (notEnoent_act _)

/-- **No handler returns `-ENOENT`**, so that code means an unknown subcommand. -/
theorem notEnoent_body (env : ShellEnv) (cmd : Option (List UInt8)) (len : Int) (f : CmdFn) :
    NotEnoent (f.body env cmd len) := by
  cases f with
  | cmdEnable =>
    exact notEnoent_derefs (notEnoent_keywordOrHex .enable (by decide +kernel)) cmd
  | cmdDisplaySchib =>
    exact notEnoent_derefs
      (notEnoent_keywordOrHex (fun sch => .displaySchib (some sch)) (by decide +kernel)) cmd
  | cmdIpl => exact notEnoent_derefs (fun _ => notEnoent_act _) cmd
  | cmdSystem => exact notEnoent_derefs notEnoent_systemText cmd
  | cmdDisplayPsw => exact notEnoent_derefs notEnoent_displayPswText cmd
  | cmdDisplayStorage => exact notEnoent_derefs notEnoent_displayStorageText cmd
  | cmdStoreStorage => exact notEnoent_derefs notEnoent_storeStorageText cmd
  | cmdQueryReal =>
    rw [CmdFn.body]
    split_ifs
    · exact notEnoent_act _
    · exact notEnoent_derefs (notEnoent_queryRealText len) cmd
  | cmdStoreAr => exact notEnoent_storeRegister notWord cmd
  | cmdStoreCr | cmdStoreFpr | cmdStoreGpr => exact notEnoent_storeRegister (fun _ => false) cmd
  | cmdStoreFpcr =>
    exact notEnoent_bind (fun _ => extractHexPtr_eq_error) fun _ => notEnoent_ite (notEnoent_act _)
  | cmdStorePsw => exact notEnoent_act _
  | _ => exact notEnoent_act _

/-- The error of a command that is not found is no handler's. -/
theorem Invoked.result_eq (env : ShellEnv) (i : Invoked) :
    i.result env = i.fnx.call env i.cmd i.len := by
  have hcall : NotEnoent (i.fnx.call env i.cmd i.len) := by
    rw [CmdFn.call]
    split_ifs
    · intro line h
      injection h with h
      exact absurd h (by decide)
    · exact notEnoent_body env i.cmd i.len i.fnx
  rw [Invoked.result, hcall.sub, ite_self]

end

/-! ### Spacing -/

/-- The blanks do not count: the handler is not invoked for lack of privileges, or does not depend
on them; and something follows the command. -/
def SpacingCond (env : ShellEnv) (base : ℕ) (line : List UInt8) : Prop :=
  ∀ f sub ops, lookupCmd (cmdWords line) = .ok (f, sub, ops) →
    (env.denies f = true ∨ Indifferent ops f) ∧
      (ops ≠ [] ∨ EndsBlank [0x20] line ∨ 2 ^ 32 ∣ base + line.length)

section

variable {env : ShellEnv} {base : ℕ} {line line' : List UInt8} {f : CmdFn} {sub : Bool}
  {ops : List (List UInt8)} {cmd : Option (List UInt8)}

/-- A line without NULs has none in another spacing. -/
theorem zero_notMem_of_cmdWords (h : cmdWords line' = cmdWords line) (hnul : 0 ∉ line) :
    0 ∉ line' := by
  intro hmem
  have hflat := congrArg List.flatten h
  rw [cmdWords, cmdWords, flatten_words, flatten_words] at hflat
  have hin : (0 : UInt8) ∈ line.filter fun c => !([(0x20 : UInt8)].contains c) := by
    rw [← hflat]
    exact List.mem_filter.2 ⟨hmem, by decide⟩
  exact hnul (List.mem_of_mem_filter hin)

/-- The operand of a line. -/
theorem EndsWord.operandArgs (h : EndsWord line cmd) (hcmd : cmdWords (cmd.getD []) = ops)
    (hnul : 0 ∉ line) (stop : ℕ) : OperandArgs ops cmd (operandLen stop cmd) := by
  obtain ⟨front, rfl, -⟩ := h
  refine ⟨hcmd, fun hmem => hnul ?_, ?_⟩
  · cases cmd with
    | none => cases hmem
    | some s => exact List.mem_append_right _ (List.mem_cons_of_mem _ hmem)
  · rintro s rfl
    rfl

/-- A line ends in a blank exactly when its operand does. -/
theorem EndsWord.endsBlank_iff (h : EndsWord line cmd) :
    EndsBlank [0x20] line ↔ ∃ s, cmd = some s ∧ EndsBlank [0x20] s := by
  obtain ⟨front, rfl, hfront⟩ := h
  cases cmd with
  | none =>
    rw [afterWord, List.append_nil]
    exact iff_of_false hfront nofun
  | some s =>
    rw [afterWord, endsBlank_append_cons front (mem_blank.2 rfl)]
    exact ⟨fun h => ⟨s, rfl, h⟩, fun ⟨_, hs, h⟩ => Option.some.inj hs ▸ h⟩

/-- The result for an operand, whatever the blanks around it. -/
theorem call_of_indifferent (h : env.denies f = true ∨ Indifferent ops f) {len : Int}
    (hcmd : OperandArgs ops cmd len) :
    f.call env cmd len = if env.denies f then .ret (-eperm) [] else f.refusal env := by
  rw [CmdFn.call]
  split_ifs with hdenies
  · rfl
  · have hauth : env.denies f = false := by simpa using hdenies
    exact body_of_indifferent hauth (h.resolve_left hdenies) hcmd

/-- **A command line is safe and its spacing does not count exactly when** no handler is found for
it, or the handler is one that the user may not call or one that does not depend on the blanks,
and there is an operand, or a blank behind the command, or the line ends where the lower half of the
address is 0. -/
theorem invokeShellCmd_spacingSafe_iff (env : ShellEnv) (base : ℕ) (hnul : 0 ∉ line) :
    SpacingSafe env base line ↔ SpacingCond env base line := by
  have hspec := findCmd_spec base line
  constructor
  · intro h f sub ops hlookup
    rw [hlookup] at hspec
    obtain ⟨cmd, hfound, hcmd, hends⟩ := hspec
    constructor
    · by_contra hnot
      rw [not_or, Bool.not_eq_true] at hnot
      have hwords : ∃ s, cmdWords s = ops ∧ 0 ∉ s := by
        refine ⟨cmd.getD [], hcmd, ?_⟩
        exact (hends.operandArgs hcmd hnul 0).nul
      obtain ⟨s, hs, hsnul⟩ := hwords
      obtain ⟨cmd₁, cmd₂, hcmd₁, hcmd₂, hdiffer⟩ :=
        differs_of_not_indifferent hnot.1 hs hsnul hnot.2
      obtain ⟨line₁, hline₁, hfound₁⟩ := exists_findCmd base hlookup hcmd₁
      obtain ⟨line₂, hline₂, hfound₂⟩ := exists_findCmd base hlookup hcmd₂
      have hsame := (h.same line₁ hline₁).trans (h.same line₂ hline₂).symm
      rw [invokeShellCmd, hfound₁, invokeShellCmd, hfound₂] at hsame
      have hresult := congrArg Prod.snd (Except.ok.inj hsame)
      simp only [Invoked.result_eq, CmdFn.call, hnot.1, Bool.false_eq_true, if_false] at hresult
      refine hdiffer _ _ ?_ ?_ hresult
      · rintro s rfl
        rfl
      · rintro s rfl
        rfl
    · refine or_iff_not_imp_left.2 fun hops => ?_
      have hops := not_not.1 hops
      cases cmd with
      | some s =>
        refine Or.inl (hends.endsBlank_iff.2 ⟨s, rfl, fun c hc => ?_⟩)
        exact forall_of_words_nil (hcmd.trans hops) c (List.mem_of_getLast? hc)
      | none =>
        have hlen := h.len _ hfound
        simp only [Option.getD_none, List.length_nil, Nat.cast_zero] at hlen
        exact Or.inr ((operandLen_none_eq_zero_iff _).1 hlen)
  · intro h
    cases hlookup : lookupCmd (cmdWords line) with
    | error e =>
      rw [hlookup] at hspec
      have hnone (i : Invoked) : findCmd base line ≠ .ok i := by
        rw [hspec]
        exact nofun
      refine ⟨fun line' hline' => ?_, fun i hi => absurd hi (hnone i),
        fun i hi => absurd hi (hnone i)⟩
      have hspec' := findCmd_spec base line'
      rw [hline', hlookup] at hspec'
      rw [invokeShellCmd, hspec', invokeShellCmd, hspec]
    | ok found =>
      obtain ⟨f, sub, ops⟩ := found
      obtain ⟨hcond, hafter⟩ := h f sub ops hlookup
      -- the result of the handler for each spacing
      have hresult {line' : List UInt8} (hline' : cmdWords line' = cmdWords line) :
          ∃ cmd, findCmd base line' =
              .ok ⟨f, sub, cmd, operandLen (base + line'.length) cmd⟩ ∧
            cmdWords (cmd.getD []) = ops ∧ EndsWord line' cmd ∧
            f.call env cmd (operandLen (base + line'.length) cmd) =
              if env.denies f then .ret (-eperm) [] else f.refusal env := by
        have hspec' := findCmd_spec base line'
        rw [hline', hlookup] at hspec'
        obtain ⟨cmd, hfound, hcmd, hends⟩ := hspec'
        exact ⟨cmd, hfound, hcmd, hends, call_of_indifferent hcond
          (hends.operandArgs hcmd (zero_notMem_of_cmdWords hline' hnul) _)⟩
      obtain ⟨cmd, hfound, hcmd, hends, hcall⟩ := hresult rfl
      refine ⟨fun line' hline' => ?_, fun i hi => ?_, fun i hi => ?_⟩
      · obtain ⟨cmd', hfound', -, -, hcall'⟩ := hresult hline'
        rw [invokeShellCmd, hfound', invokeShellCmd, hfound]
        simp only [Except.map, Invoked.result_eq, hcall, hcall']
      · obtain rfl := Except.ok.inj (hfound.symm.trans hi)
        rw [Invoked.result_eq, hcall]
        split_ifs
        · exact nofun
        · exact refusal_ne_fault env f
      · obtain rfl := Except.ok.inj (hfound.symm.trans hi)
        cases cmd with
        | some s => rfl
        | none =>
          have hops : ops = [] := hcmd.symm
          have hnot : ¬ EndsBlank [0x20] line := fun hblank => by
            obtain ⟨s, hs, -⟩ := hends.endsBlank_iff.1 hblank
            cases hs
          have hdvd := (hafter.resolve_left fun hne => hne hops).resolve_left hnot
          simp only [Option.getD_none, List.length_nil, Nat.cast_zero]
          exact (operandLen_none_eq_zero_iff _).2 hdvd

end

/-- **A refused operand:** there is no register 77, however the line is spaced. -/
theorem invokeShellCmd_spacingSafe_store :
    SpacingSafe ⟨authG, true, ⟨0, 0, 0, 0⟩⟩ 0 (ascii "STORE  GPR 77   5") := by
  refine (invokeShellCmd_spacingSafe_iff _ _ (by decide +kernel)).2 fun f sub ops h => ?_
  have hstore : lookupCmd (cmdWords (ascii "STORE  GPR 77   5")) =
      .ok (.cmdStoreGpr, true, [ascii "77", ascii "5"]) := by rfl
  obtain ⟨rfl, rfl, rfl⟩ := Except.ok.inj (hstore.symm.trans h)
  refine ⟨Or.inr ?_, Or.inl (List.cons_ne_nil _ _)⟩
  rintro ⟨⟨w, hw, reg, hreg, hle⟩, -⟩
  obtain rfl := Option.some.inj hw
  have hdec : decAt (ascii "77") = some 77 := by decide +kernel
  rw [hdec] at hreg
  obtain rfl := Option.some.inj hreg
  exact absurd hle (by decide)

/-- `"D STO"`: the subcommand ends the line, and its handler reads an operand at `NULL`. -/
theorem not_invokeShellCmd_spacingSafe :
    ¬ ∀ (env : ShellEnv) (base : ℕ) (line : List UInt8), 0 ∉ line → SpacingSafe env base line := by
  intro h
  have hsafe := h ⟨authG, true, ⟨0, 0, 0, 0⟩⟩ 0 (ascii "D STO") (by decide)
  have hfound : findCmd 0 (ascii "D STO") = .ok ⟨.cmdDisplayStorage, true, none, 5⟩ := by rfl
  exact hsafe.noFault _ hfound (by decide)

end Hvf
