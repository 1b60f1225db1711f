/-
# Scanning a file record by record

`cp/include/lexer.h`, and `__fill`, `YYFILL`, `YYRETURN` and `YYSKIP` of
`cp/nucleus/config.l` and `cp/nucleus/direct.l`.  The buffer has room for two
records.  `__fill` moves the unread characters to its beginning and puts the
next record behind them: in upper case, without trailing blanks and with a
newline.

The generated scanner is described by what it does with the buffer: it looks at
one character after the other as long as the lexeme goes on, and it may call
`YYFILL(n)` for an `n` up to 10 when fewer than `n` characters are unread, at the
start of a token or when no character is left.  Which of these calls it makes is
left open.  A store or a look outside the buffer and a failed assertion end the scan
in states of their own.

A character that begins no token is an `NLINE` for this scanner (`scanTokens`).  The
tokens of a text by the rules alone are `tokens`, where there are any; then they are the
same (`scanTokens_of_tokens`).

A character is a `Char` below 256.  The table of `ebcdic2ascii` is an argument.
-/

import Hvf.Errno
import Hvf.Lib.StepRun
import Hvf.Nucleus.Lexer
import Mathlib.Data.List.DropRight

namespace Hvf

open Munch StepRun

/-! ### Records -/

/-- `CONFIG_LRECL`. -/
def configLrecl : ℕ := 80

/-- `sizeof(lexer->buf)`. -/
def lexerBuflen : ℕ := configLrecl * 2

/-- `__translate`, which ends at a zero byte. -/
def translate (table : Char → Char) : List Char → List Char
  | [] => []
  | c :: cs => if c = '\x00' then c :: cs else table c :: translate table cs

/-- `ascii2upper_table`. -/
def ascii2upperTable (c : Char) : Char :=
  if 'a' ≤ c ∧ c ≤ 'z' then Char.ofNat (c.toNat - 32) else c

/-- What `__fill` stores of a record: in upper case up to the last non-blank. -/
def recordText (e2a : Char → Char) (rec : List Char) : List Char :=
  (translate ascii2upperTable (translate e2a rec)).rdropWhile (· = ' ')

/-- The text of a file. -/
def fileText (e2a : Char → Char) (recs : List (List Char)) : List Char :=
  (recs.map fun rec => recordText e2a rec ++ ['\n']).flatten

/-! ### `__fill` -/

/-- **A file for the scanners**: the members of a `struct file` that are used, and its
records. -/
structure LexFile where
  lrecl : ℕ
  fixed : Bool
  recs : List (List Char)

/-- **A file of `CONFIG_LRECL`-byte records**, the only kind that the scanners open, with
records of that length. -/
structure LexFile.Fixed (file : LexFile) : Prop where
  lrecl : file.lrecl = configLrecl
  fixed : file.fixed = true
  recs : ∀ rec ∈ file.recs, rec.length = configLrecl

/-- **The state between refills** (`struct lexer`): the file, once `init` is set, the next
record, where the token under way begins, and the buffer with how much of it is filled. -/
structure Lexer where
  file : Option LexFile
  recno : ℕ
  recoff : ℕ
  filllen : ℕ
  buf : ℕ → Char

/-- The file, which the first call looks up. -/
def openFile (lookup : Except Int LexFile) (l : Lexer) : Except Int (LexFile × Lexer) :=
  match l.file with
  | some file => .ok (file, l)
  | none =>
    match lookup with
    | .error ret => .error ret
    | .ok file =>
      if file.lrecl ≠ configLrecl ∨ ¬ file.fixed then .error (-einval)
      else .ok (file, { l with file := some file, recoff := 0, filllen := 0 })

/-- The `memmove` of the unread characters. -/
def moveUnread (l : Lexer) : Lexer :=
  if l.recoff ≠ 0 then
    let filllen := l.filllen - l.recoff
    { l with filllen, recoff := 0
             buf := fun i => if i < filllen then l.buf (l.recoff + i) else l.buf i }
  else l

/-- The stores of characters from `off` on; none if one is outside the buffer. -/
def storeChars (buf : ℕ → Char) (off : ℕ) : List Char → Option (ℕ → Char)
  | [] => some buf
  | c :: cs =>
    if off < lexerBuflen then storeChars (Function.update buf off c) (off + 1) cs else none

/-- `__fill`; none where the assertion fails or a store is outside the buffer. -/
def fill (e2a : Char → Char) (lookup : Except Int LexFile) (l : Lexer) : Option (Int × Lexer) :=
  match openFile lookup l with
  | .error ret => some (ret, l)
  | .ok (file, l) =>
    let l := moveUnread l
    if ¬ l.filllen < configLrecl then none
    else
      match file.recs[l.recno]? with
      | none => some (-einval, { l with recno := l.recno + 1 })
      | some rec =>
        let text := recordText e2a rec ++ ['\n']
        (storeChars l.buf l.filllen text).map fun buf =>
          (0, { l with recno := l.recno + 1, buf, filllen := l.filllen + text.length })

/-! ### The scanner -/

/-- **How the generated scanner stands**: it runs, it has returned, it has met a fault, or
it has read behind its buffer. -/
inductive ScanStatus
  | running
  | returned (ret : Int)
  | fault
  | overread
  deriving DecidableEq, Repr

/-- A scan: the lexer, the cursor and the tokens returned so far, each with its
lexeme. -/
structure Scan (κ : Type) where
  lexer : Lexer
  cur : ℕ
  out : List (κ × List Char)
  status : ScanStatus

/-- The characters of the buffer from `a` up to `b`. -/
def slice (buf : ℕ → Char) (a b : ℕ) : List Char := (List.range (b - a)).map fun i => buf (a + i)

variable {κ : Type}

/-- What was read of the token. -/
def Scan.lexeme (s : Scan κ) : List Char := slice s.lexer.buf s.lexer.recoff s.cur

/-- What of the buffer was not read yet. -/
def Scan.unread (s : Scan κ) : List Char := slice s.lexer.buf s.cur s.lexer.filllen

/-- `YYFILL`. -/
def yyfill (e2a : Char → Char) (lookup : Except Int LexFile) (s : Scan κ) : Scan κ :=
  let off := s.cur - s.lexer.recoff
  match fill e2a lookup s.lexer with
  | none => { s with status := .fault }
  | some (ret, l) =>
    if ret ≠ 0 ∧ l.filllen - l.recoff = 0 then { s with lexer := l, status := .returned ret }
    else { s with lexer := l, cur := off }

/-- Where the scanner may call `YYFILL(n)`. -/
def MayFill (n : ℕ) (s : Scan κ) : Prop :=
  s.status = .running ∧ n ≤ 10 ∧ s.lexer.filllen - s.cur < n ∧
    (s.cur = s.lexer.recoff ∨ s.cur = s.lexer.filllen)

/-- Whether a refill may happen is decided from the state. -/
instance (n : ℕ) (s : Scan κ) : Decidable (MayFill n s) := inferInstanceAs (Decidable (_ ∧ _))

/-- The scan after the calls of `YYFILL` for `fills`. -/
def refill (e2a : Char → Char) (lookup : Except Int LexFile) (fills : List ℕ) (s : Scan κ) :
    Scan κ :=
  fills.foldl (fun s n => if MayFill n s then yyfill e2a lookup s else s) s

/-- The end of a token: `YYRETURN`, or `YYSKIP` for blanks.  The scanner is then
called again. -/
def accept [DecidableEq κ] (K : TokenKinds κ) (s : Scan κ) : Scan κ :=
  { s with
    lexer := { s.lexer with recoff := s.cur }
    out := s.out ++ ((scanKind K s.lexeme).toList.filter (· ≠ K.blank)).map (·, s.lexeme) }

/-- **The scanner at one character,** with the calls of `YYFILL` it tries first: the
character is part of the token, or the token ends in front of it.  At the start of a token
every character is part of one (`scanRules_goesOn_nil`). -/
def scanStep [DecidableEq κ] (K : TokenKinds κ) (e2a : Char → Char)
    (lookup : Except Int LexFile) (fills : List ℕ) (s : Scan κ) : Scan κ :=
  if s.status ≠ .running then s
  else if s.lexeme ≠ [] ∧ scanFinal K s.lexeme then accept K s
  else
    let s := refill e2a lookup fills s
    if s.status ≠ .running then s
    else if ¬ s.cur < s.lexer.filllen then { s with status := .overread }
    else if (scanRules K).goesOn s.lexeme (s.lexer.buf s.cur) then { s with cur := s.cur + 1 }
    else accept K s

/-- The lexer that `load_config` and `load_directory` set up. -/
def Scan.init : Scan κ where
  lexer := { file := none, recno := 0, recoff := 0, filllen := 0, buf := fun _ => '\x00' }
  cur := 0
  out := []
  status := .running

/-- At the start of a token with no character left the scanner calls `YYFILL`. -/
def Asks (fills : List ℕ) (s : Scan κ) : Prop :=
  s.cur = s.lexer.recoff → s.cur = s.lexer.filllen → ∃ n ∈ fills, 0 < n ∧ n ≤ 10

/-- The tokens of lexemes by the rules, without blanks. -/
def tokensOf [DecidableEq κ] (K : TokenKinds κ) (ms : List (List Char)) :
    List (κ × List Char) :=
  ms.flatMap fun m => ((lineKind K m).toList.filter (· ≠ K.blank)).map (·, m)

/-- **The tokens of a text by the rules**; none where a character begins no token. -/
def tokens [DecidableEq κ] (K : TokenKinds κ) (text : List Char) : Option (List (κ × List Char)) :=
  ((lineRules K).lexemes text).map (tokensOf K)

/-- The tokens of lexemes for the generated scanner, without blanks. -/
def scanTokensOf [DecidableEq κ] (K : TokenKinds κ) (ms : List (List Char)) :
    List (κ × List Char) :=
  ms.flatMap fun m => ((scanKind K m).toList.filter (· ≠ K.blank)).map (·, m)

/-- **The tokens of a text for the generated scanner:** there are some of every text
(`scanTokens_isSome`). -/
def scanTokens [DecidableEq κ] (K : TokenKinds κ) (text : List Char) :
    Option (List (κ × List Char)) :=
  ((scanRules K).lexemes text).map (scanTokensOf K)

/-- The scanner takes every text apart: no character stops it. -/
theorem scanTokens_isSome [DecidableEq κ] (K : TokenKinds κ) (text : List Char) :
    (scanTokens K text).isSome := by
  rw [scanTokens, Option.isSome_map]
  exact scan_scanRules_isSome K [] text

/-- On lexemes that rules match, its tokens are the lines'. -/
theorem scanTokensOf_eq [DecidableEq κ] {K : TokenKinds κ} {ms : List (List Char)}
    (h : ∀ m ∈ ms, (lineKind K m).isSome) : scanTokensOf K ms = tokensOf K ms :=
  List.flatMap_congr fun m hm => by rw [scanKind_of_isSome (h m hm)]

/-- **Where the rules give tokens,** the generated scanner returns these. -/
theorem scanTokens_of_tokens [DecidableEq κ] {K : TokenKinds κ} {text : List Char}
    {toks : List (κ × List Char)} (h : tokens K text = some toks) :
    scanTokens K text = some toks := by
  obtain ⟨ms, hms, rfl⟩ := Option.map_eq_some_iff.1 h
  have hkind : ∀ m ∈ ms, (lineKind K m).isSome :=
    scan_kind (R := lineRules K) (fun hne => absurd rfl hne) hms
  rw [scanTokens, Rules.lexemes, scan_scanRules hms, Option.map_some, scanTokensOf_eq hkind]

/-! ### The buffer -/

section Buffer

variable {buf buf' : ℕ → Char} {a b : ℕ}

/-- A slice is as long as its ends are apart. -/
theorem slice_length (buf : ℕ → Char) (a b : ℕ) : (slice buf a b).length = b - a := by
  simp [slice]

/-- A slice from a place to itself is empty. -/
theorem slice_self (buf : ℕ → Char) (a : ℕ) : slice buf a a = [] := by
  simp [slice]

/-- A slice is empty exactly when its end is not behind its beginning. -/
theorem slice_eq_nil_iff : slice buf a b = [] ↔ b ≤ a := by
  rw [← List.length_eq_zero_iff, slice_length, Nat.sub_eq_zero_iff_le]

/-- The cursor moves over a character. -/
theorem slice_succ (h : a ≤ b) : slice buf a (b + 1) = slice buf a b ++ [buf b] := by
  rw [slice, Nat.succ_sub h, List.range_succ, List.map_append]
  simp [slice, Nat.add_sub_cancel' h]

/-- The first character of a slice, and the rest. -/
theorem slice_cons (h : a < b) : slice buf a b = buf a :: slice buf (a + 1) b := by
  obtain ⟨n, rfl⟩ := Nat.exists_eq_add_of_lt h
  rw [slice, slice, show a + n + 1 - a = n + 1 by omega, show a + n + 1 - (a + 1) = n by omega,
    List.range_succ_eq_map]
  simp [Nat.add_assoc, Nat.add_comm 1]

/-- A slice depends on the characters in it. -/
theorem slice_congr (h : ∀ i, a ≤ i → i < b → buf i = buf' i) : slice buf a b = slice buf' a b := by
  refine List.map_congr_left fun i hi => h _ (Nat.le_add_right a i) ?_
  have := List.mem_range.1 hi
  omega

/-- Two slices end to end are one. -/
theorem slice_append {c : ℕ} (hab : a ≤ b) (hbc : b ≤ c) :
    slice buf a c = slice buf a b ++ slice buf b c := by
  induction c, hbc using Nat.le_induction with
  | base => rw [slice_self, List.append_nil]
  | succ c hbc ih =>
    rw [slice_succ (hab.trans hbc), slice_succ hbc, ih, List.append_assoc]

/-- **A record that fits is stored.** -/
theorem storeChars_spec (buf : ℕ → Char) (cs : List Char) (h : a + cs.length ≤ lexerBuflen) :
    ∃ buf', storeChars buf a cs = some buf' ∧ (∀ i < a, buf' i = buf i) ∧
      slice buf' a (a + cs.length) = cs := by
  induction cs generalizing buf a with
  | nil => exact ⟨buf, rfl, fun _ _ => rfl, slice_self ..⟩
  | cons c cs ih =>
    rw [List.length_cons] at h
    obtain ⟨buf', hstore, hbefore, hslice⟩ := ih (Function.update buf a c) (a := a + 1)
      (by omega)
    refine ⟨buf', by rw [storeChars, if_pos (by omega), hstore], fun i hi => ?_, ?_⟩
    · rw [hbefore i (by omega), Function.update_of_ne (by omega)]
    · rw [List.length_cons, slice_cons (by omega), hbefore a (by omega), Function.update_self,
        show a + (cs.length + 1) = a + 1 + cs.length by omega, hslice]

/-- The token under way and what is unread are what is in the buffer from the token's beginning.
-/
theorem Scan.lexeme_append_unread {s : Scan κ} (hrecoff : s.lexer.recoff ≤ s.cur)
    (hcur : s.cur ≤ s.lexer.filllen) :
    s.lexeme ++ s.unread = slice s.lexer.buf s.lexer.recoff s.lexer.filllen :=
  (slice_append hrecoff hcur).symm

/-- The scan with a buffer that begins with the token that is being read. -/
def Scan.rebase (s : Scan κ) (l : Lexer) : Scan κ :=
  { s with lexer := l, cur := s.cur - s.lexer.recoff }

/-- **A refill that keeps the unread text** at the buffer's beginning keeps the token, and adds
to what is unread. -/
theorem Scan.rebase_spec {s : Scan κ} {l : Lexer} {text : List Char}
    (hrecoff : s.lexer.recoff ≤ s.cur)
    (hcur : s.cur ≤ s.lexer.filllen) (hzero : l.recoff = 0)
    (hread : slice l.buf 0 l.filllen
      = slice s.lexer.buf s.lexer.recoff s.lexer.filllen ++ text) :
    (s.rebase l).cur ≤ l.filllen ∧ (s.rebase l).lexeme = s.lexeme ∧
      (s.rebase l).unread = s.unread ++ text := by
  have hlen := congrArg List.length hread
  rw [List.length_append, slice_length, slice_length] at hlen
  have hle : s.cur - s.lexer.recoff ≤ l.filllen := by omega
  have hsame : (s.rebase l).lexeme ++ (s.rebase l).unread = s.lexeme ++ (s.unread ++ text) := by
    rw [Scan.lexeme_append_unread (by rw [rebase, hzero]; exact Nat.zero_le _) hle,
      ← List.append_assoc, Scan.lexeme_append_unread hrecoff hcur, ← hread]
    simp only [rebase, hzero]
  have hlexeme : (s.rebase l).lexeme.length = s.lexeme.length := by
    rw [lexeme, lexeme, slice_length, slice_length]
    simp only [rebase, hzero, Nat.sub_zero]
  exact ⟨hle, List.append_inj hsame hlexeme⟩

end Buffer

/-- A translated record is as long. -/
theorem translate_length (table : Char → Char) (cs : List Char) :
    (translate table cs).length = cs.length := by
  induction cs with
  | nil => rfl
  | cons c cs ih =>
    rw [translate]
    split_ifs
    · rfl
    · rw [List.length_cons, ih, List.length_cons]

/-- What is stored of a record is not longer than the record. -/
theorem recordText_length (e2a : Char → Char) (rec : List Char) :
    (recordText e2a rec).length ≤ rec.length := by
  have hprefix := List.rdropWhile_prefix (fun c : Char => decide (c = ' '))
    (translate ascii2upperTable (translate e2a rec))
  have hle := hprefix.length_le
  rwa [translate_length, translate_length] at hle

/-! ### `__fill` and `YYFILL` -/

section Fill

variable {e2a : Char → Char} {file : LexFile} {l : Lexer}

/-- The lexer reads `file`, or nothing was read yet. -/
def Opened (file : LexFile) (l : Lexer) : Prop :=
  l.file = some file ∨ l.file = none ∧ l.recoff = 0 ∧ l.filllen = 0

/-- Opening a file that is open already changes nothing. -/
theorem openFile_eq (hfile : file.Fixed) (hopened : Opened file l) :
    openFile (.ok file) l = .ok (file, { l with file := some file }) := by
  rcases hopened with h | ⟨h, hrecoff, hfilllen⟩
  · simp only [openFile, h]
    rw [← h]
  · obtain ⟨lfile, recno, recoff, filllen, buf⟩ := l
    dsimp only at h hrecoff hfilllen
    subst h hrecoff hfilllen
    simp [openFile, hfile.lrecl, hfile.fixed]

/-- The unread characters are moved to the beginning. -/
theorem moveUnread_spec (l : Lexer) :
    (moveUnread l).recoff = 0 ∧ (moveUnread l).filllen = l.filllen - l.recoff ∧
      (moveUnread l).file = l.file ∧ (moveUnread l).recno = l.recno ∧
      slice (moveUnread l).buf 0 (l.filllen - l.recoff) = slice l.buf l.recoff l.filllen := by
  unfold moveUnread
  split_ifs with hzero
  · refine ⟨rfl, rfl, rfl, rfl, ?_⟩
    refine List.map_congr_left fun i hi => ?_
    dsimp only
    rw [Nat.zero_add, if_pos (by simpa using hi)]
  · have hzero : l.recoff = 0 := not_not.1 hzero
    simp [hzero]

end Fill

end Hvf
