/-
# Records that cannot be read

`__fill`, `YYFILL` and the scanner where `edf_read_rec` may fail for any record.  The
number of the record is counted up before the result is looked at, and `YYFILL` gives
the error to its caller only where nothing is unread: otherwise the scanner goes on with
what it has, and the next call reads the record behind.

What the scanner does at one character is said once (`RecSource.scanStep_spec`): it
stays inside the text of the records that were read (`RecSource.ReadInv`), or it gives up.
-/

import Hvf.Nucleus.LexerFill

namespace Hvf

open Munch StepRun

/-! ### Reads -/

/-- What `edf_lookup` returns, and the errors of `edf_read_rec` for the records of the
file: 0 where the record is read. -/
structure RecSource where
  lookup : Except Int LexFile
  errno : ℕ → ℕ
  recs_length : ∀ file, lookup = .ok file → ∀ rec ∈ file.recs, rec.length = file.lrecl

/-- **The lookup finds a file** of `CONFIG_LRECL`-byte records, so the scanner has something
to read. -/
structure RecSource.Opens (src : RecSource) (file : LexFile) : Prop where
  lookup : src.lookup = .ok file
  lrecl : file.lrecl = configLrecl
  fixed : file.fixed = true

namespace RecSource

section Model

variable {κ : Type} (src : RecSource) (e2a : Char → Char) (file : LexFile)

/-- `edf_read_rec`, for the caller. -/
def readRec (recno : ℕ) : Except Int (List Char) :=
  match file.recs[recno]? with
  | none => .error (-einval)
  | some rec => if src.errno recno = 0 then .ok rec else .error (-src.errno recno)

/-- `__fill`; none where the assertion fails or a store is outside the buffer. -/
def fill (l : Lexer) : Option (Int × Lexer) :=
  match openFile src.lookup l with
  | .error ret => some (ret, l)
  | .ok (file, l) =>
    let l := moveUnread l
    if ¬ l.filllen < configLrecl then none
    else
      match src.readRec file l.recno with
      | .error ret => some (ret, { l with recno := l.recno + 1 })
      | .ok rec =>
        let text := recordText e2a rec ++ ['\n']
        (storeChars l.buf l.filllen text).map fun buf =>
          (0, { l with recno := l.recno + 1, buf, filllen := l.filllen + text.length })

/-- `YYFILL`. -/
def yyfill (s : Scan κ) : Scan κ :=
  let off := s.cur - s.lexer.recoff
  match src.fill e2a s.lexer with
  | none => { s with status := .fault }
  | some (ret, l) =>
    if ret ≠ 0 ∧ l.filllen - l.recoff = 0 then { s with lexer := l, status := .returned ret }
    else { s with lexer := l, cur := off }

/-- The scan after the calls of `YYFILL` for `fills`. -/
def refill (fills : List ℕ) (s : Scan κ) : Scan κ :=
  fills.foldl (fun s n => if MayFill n s then src.yyfill e2a s else s) s

/-- **The scanner at one character,** with the calls of `YYFILL` it tries first; as `scanStep`
of a file that is read as a whole. -/
def scanStep [DecidableEq κ] (K : TokenKinds κ) (fills : List ℕ) (s : Scan κ) : Scan κ :=
  if s.status ≠ .running then s
  else if s.lexeme ≠ [] ∧ scanFinal K s.lexeme then accept K s
  else
    let s := src.refill e2a fills s
    if s.status ≠ .running then s
    else if ¬ s.cur < s.lexer.filllen then { s with status := .overread }
    else if (scanRules K).goesOn s.lexeme (s.lexer.buf s.cur) then { s with cur := s.cur + 1 }
    else accept K s

/-- The scanner as a step relation. -/
def Scans [DecidableEq κ] (K : TokenKinds κ) (s : Scan κ) (fills : List ℕ) (u : Scan κ) : Prop :=
  Asks fills s ∧ u = src.scanStep e2a K fills s

/-! ### The text that can be read -/

/-- What is scanned of a record: nothing if it is not read. -/
def recText (recno : ℕ) : List Char :=
  match src.readRec file recno with
  | .ok rec => recordText e2a rec ++ ['\n']
  | .error _ => []

/-- The text of the first `n` records. -/
def readText (n : ℕ) : List Char := (List.range n).flatMap (src.recText e2a file)

/-- The text of the other records. -/
def restText (n : ℕ) : List Char :=
  (List.range' n (file.recs.length - n)).flatMap (src.recText e2a file)

/-- The text behind the cursor. -/
def ahead (s : Scan κ) : List Char := s.unread ++ src.restText e2a file s.lexer.recno

/-- **Where the scanner may stop**: at a record that is not read, behind a first one that
was. An error of the first read is no end of the file but one of the call. -/
structure Stops (n : ℕ) : Prop where
  le : n ≤ file.recs.length
  error : ∃ e, src.readRec file n = .error e
  first : ∃ rec, src.readRec file 0 = .ok rec

/-- Every record of the file is read. -/
def Readable : Prop := ∀ recno < file.recs.length, src.errno recno = 0

end Model

variable {κ : Type} {src : RecSource} {e2a : Char → Char} {file : LexFile} {l : Lexer} {n : ℕ}

/-- A file that opens is one whose attributes a scan accepts. -/
theorem Opens.toFixed (h : src.Opens file) : file.Fixed where
  lrecl := h.lrecl
  fixed := h.fixed
  recs rec hrec := (src.recs_length file h.lookup rec hrec).trans h.lrecl

/-- A record is read exactly when the file has it and the read does not fail. -/
theorem readRec_ok_iff {rec : List Char} :
    src.readRec file n = .ok rec ↔ file.recs[n]? = some rec ∧ src.errno n = 0 := by
  unfold readRec
  cases file.recs[n]? with
  | none => simp
  | some r =>
    dsimp only
    split_ifs with hzero
    · simp [hzero]
    · simp [hzero]

/-- Behind the last record the read gives `-EINVAL`. -/
theorem readRec_error_of_le (h : file.recs.length ≤ n) : src.readRec file n = .error (-einval) := by
  rw [readRec, List.getElem?_eq_none h]

/-- An error is not 0. -/
theorem ne_zero_of_readRec {e : Int} (h : src.readRec file n = .error e) : e ≠ 0 := by
  unfold readRec at h
  split at h
  · obtain rfl := Except.error.inj h
    decide
  · split_ifs at h with hzero
    obtain rfl := Except.error.inj h
    simpa using hzero

/-- Before the first read there is no text. -/
theorem readText_zero : src.readText e2a file 0 = [] := rfl

/-- One read more adds that record's text. -/
theorem readText_succ :
    src.readText e2a file (n + 1) = src.readText e2a file n ++ src.recText e2a file n := by
  simp [readText, List.range_succ]

/-- A read that fails adds nothing. -/
theorem recText_of_error {e : Int} (h : src.readRec file n = .error e) :
    src.recText e2a file n = [] := by
  rw [recText, h]

/-- A read that succeeds adds the record, translated, and a newline. -/
theorem recText_of_ok {rec : List Char} (h : src.readRec file n = .ok rec) :
    src.recText e2a file n = recordText e2a rec ++ ['\n'] := by
  rw [recText, h]

/-- Behind the last record nothing is left. -/
theorem restText_of_le (h : file.recs.length ≤ n) : src.restText e2a file n = [] := by
  rw [restText, Nat.sub_eq_zero_of_le h]
  rfl

/-- What is left is the next record's text and what is left behind it. -/
theorem restText_eq :
    src.restText e2a file n = src.recText e2a file n ++ src.restText e2a file (n + 1) := by
  rcases Nat.lt_or_ge n file.recs.length with hlt | hge
  · rw [restText, restText, show file.recs.length - n = file.recs.length - (n + 1) + 1 by omega,
      List.range'_succ, List.flatMap_cons]
  · rw [restText_of_le hge, restText_of_le (by omega),
      recText_of_error (readRec_error_of_le hge), List.nil_append]

/-- Nothing is read behind the end of the file. -/
theorem readText_of_le (h : file.recs.length ≤ n) :
    src.readText e2a file n = src.readText e2a file file.recs.length := by
  induction n, h using Nat.le_induction with
  | base => rfl
  | succ n hn ih => rw [readText_succ, recText_of_error (readRec_error_of_le hn), ih,
      List.append_nil]

/-- The text before a record and the text from it on. -/
theorem readText_append_restText (src : RecSource) (e2a : Char → Char) (file : LexFile) (n : ℕ) :
    src.readText e2a file n ++ src.restText e2a file n
      = src.readText e2a file file.recs.length := by
  rcases le_total n file.recs.length with hle | hge
  · induction hle using Nat.decreasingInduction with
    | self => rw [restText_of_le le_rfl, List.append_nil]
    | of_succ n _ ih => rw [restText_eq, ← List.append_assoc, ← readText_succ, ih]
  · rw [restText_of_le hge, List.append_nil, readText_of_le hge]

/-- The text of a record ends with a newline. -/
theorem recText_newline (src : RecSource) (e2a : Char → Char) (file : LexFile) (n : ℕ) :
    ∀ c ∈ (src.recText e2a file n).getLast?, c = '\n' := by
  unfold recText
  cases src.readRec file n with
  | error e => simp
  | ok rec => simp

/-! ### Files that are read as a whole -/

/-- In a readable file every record gives its text. -/
theorem Readable.recText_eq (h : src.Readable file) (hn : n < file.recs.length) :
    src.recText e2a file n = recordText e2a file.recs[n] ++ ['\n'] :=
  recText_of_ok (readRec_ok_iff.2 ⟨List.getElem?_eq_getElem hn, h n hn⟩)

/-- What has been read is the text of that many records. -/
theorem Readable.readText_eq_take (h : src.Readable file) (hn : n ≤ file.recs.length) :
    src.readText e2a file n = fileText e2a (file.recs.take n) := by
  induction n with
  | zero => rfl
  | succ n ih =>
    rw [readText_succ, ih (by omega), h.recText_eq hn, List.take_succ_eq_append_getElem hn,
      fileText, fileText, List.map_append, List.flatten_append]
    simp only [List.map_cons, List.map_nil, List.flatten_cons, List.flatten_nil, List.append_nil]

/-- What is left is the text of the other records. -/
theorem Readable.restText_eq_drop (h : src.Readable file) :
    src.restText e2a file n = fileText e2a (file.recs.drop n) := by
  induction hk : file.recs.length - n generalizing n with
  | zero =>
    rw [restText_of_le (by omega), List.drop_eq_nil_of_le (by omega)]
    rfl
  | succ k ih =>
    have hn : n < file.recs.length := by omega
    rw [restText_eq, ih (by omega), h.recText_eq hn, List.drop_eq_getElem_cons hn]
    rfl

/-- **The text that is read is the text of the file.** -/
theorem Readable.readText_eq (h : src.Readable file) (hn : file.recs.length ≤ n) :
    src.readText e2a file n = fileText e2a file.recs := by
  rw [readText_of_le hn, h.readText_eq_take le_rfl, List.take_length]

/-! ### `__fill` and `YYFILL` -/

/-- **What `__fill` does at the start of a token:** the unread characters stay, and
behind them is what is scanned of the next record. -/
theorem fill_spec (e2a : Char → Char) (hopens : src.Opens file) (hopened : Opened file l)
    (hfew : l.filllen - l.recoff < 10) :
    ∃ ret l', src.fill e2a l = some (ret, l') ∧ l'.file = some file ∧ l'.recoff = 0 ∧
      l'.filllen ≤ lexerBuflen ∧ l'.recno = l.recno + 1 ∧
      slice l'.buf 0 l'.filllen
        = slice l.buf l.recoff l.filllen ++ src.recText e2a file l.recno ∧
      (ret = 0 ↔ ∃ rec, src.readRec file l.recno = .ok rec) := by
  have hmove := moveUnread_spec { l with file := some file }
  unfold fill
  rw [hopens.lookup, openFile_eq hopens.toFixed hopened]
  dsimp only at hmove ⊢
  generalize moveUnread { l with file := some file } = l₁ at hmove ⊢
  obtain ⟨hrecoff, hfilllen, hsome, hrecno, hslice⟩ := hmove
  rw [if_neg (not_not.2 (by rw [configLrecl]; omega)), hrecno]
  cases hrec : src.readRec file l.recno with
  | error e =>
    refine ⟨_, _, rfl, hsome, hrecoff, ?_, rfl, ?_, ?_⟩
    · rw [lexerBuflen, configLrecl]
      dsimp only
      omega
    · dsimp only
      rw [recText_of_error hrec, List.append_nil, hfilllen, hslice]
    · simp [ne_zero_of_readRec hrec]
  | ok rec =>
    have hlen := hopens.toFixed.recs rec (List.mem_of_getElem? (readRec_ok_iff.1 hrec).1)
    have htext := recordText_length e2a rec
    rw [configLrecl] at hlen
    have hfits : l₁.filllen + (recordText e2a rec ++ ['\n']).length ≤ lexerBuflen := by
      rw [List.length_append, List.length_singleton, lexerBuflen, configLrecl]
      omega
    obtain ⟨buf, hstore, hbefore, hnew⟩ :=
      storeChars_spec l₁.buf (recordText e2a rec ++ ['\n']) hfits
    dsimp only
    rw [hstore]
    refine ⟨0, { l₁ with
      recno := l.recno + 1, buf, filllen := l₁.filllen + (recordText e2a rec ++ ['\n']).length },
      rfl, hsome, hrecoff, hfits, rfl, ?_, by simp⟩
    dsimp only
    rw [slice_append (Nat.zero_le _) (Nat.le_add_right _ _), hnew, ← hslice, ← hfilllen,
      recText_of_ok hrec]
    congr 1
    exact slice_congr fun i _ hi => hbefore i hi

/-- A scanner that does not run is not refilled. -/
theorem refill_of_not_running (src : RecSource) (e2a : Char → Char) {s : Scan κ}
    (fills : List ℕ) (h : s.status ≠ .running) : src.refill e2a fills s = s := by
  induction fills with
  | nil => rfl
  | cons n fills ih =>
    rw [refill, List.foldl_cons, if_neg fun hmay => h hmay.1]
    exact ih

/-- A refill that may happen happens. -/
theorem refill_cons_of_mayFill {s : Scan κ} (fills : List ℕ) (hmay : MayFill n s) :
    src.refill e2a (n :: fills) s = src.refill e2a fills (src.yyfill e2a s) := by
  rw [refill, List.foldl_cons, if_pos hmay]
  rfl

/-- One that may not is passed over. -/
theorem refill_cons_of_not_mayFill {s : Scan κ} (fills : List ℕ) (hmay : ¬ MayFill n s) :
    src.refill e2a (n :: fills) s = src.refill e2a fills s := by
  rw [refill, List.foldl_cons, if_neg hmay]
  rfl

/-- If none may, nothing changes. -/
theorem refill_of_not_mayFill (src : RecSource) (e2a : Char → Char) {s : Scan κ}
    {fills : List ℕ} (h : ∀ n ∈ fills, ¬ MayFill n s) : src.refill e2a fills s = s := by
  induction fills with
  | nil => rfl
  | cons n fills ih =>
    rw [refill_cons_of_not_mayFill fills (h n (List.mem_cons_self ..))]
    exact ih fun m hm => h m (List.mem_cons_of_mem n hm)

/-! ### No file -/

/-- Without a file `__fill` fails, and leaves the lexer as it is. -/
theorem fill_of_not_opens (e2a : Char → Char) (h : ∀ file, ¬ src.Opens file)
    (hfile : l.file = none) : ∃ ret, src.fill e2a l = some (ret, l) := by
  have hopen : ∃ ret, openFile src.lookup l = .error ret := by
    cases hlookup : src.lookup with
    | error ret => exact ⟨ret, by simp only [openFile, hfile]⟩
    | ok file =>
      refine ⟨-einval, ?_⟩
      have hother : file.lrecl ≠ configLrecl ∨ ¬ file.fixed = true := by
        by_contra hboth
        rw [not_or, not_not, not_not] at hboth
        exact h file ⟨hlookup, hboth.1, hboth.2⟩
      simp only [openFile, hfile, if_pos hother]
  obtain ⟨ret, hret⟩ := hopen
  exact ⟨ret, by rw [fill, hret]⟩

/-- **Nothing was scanned**: the scanner is as at its start, whatever it has tried. -/
structure Unscanned (s : Scan κ) : Prop where
  lexer : s.lexer = (Scan.init (κ := κ)).lexer
  cur : s.cur = 0
  out : s.out = []

/-- Without a file to open, refills leave the scanner unscanned. -/
theorem Unscanned.refill (e2a : Char → Char) (h : ∀ file, ¬ src.Opens file) {s : Scan κ}
    (hs : Unscanned s) (fills : List ℕ) :
    Unscanned (src.refill e2a fills s) := by
  induction fills generalizing s with
  | nil => exact hs
  | cons n fills ih =>
    by_cases hmay : MayFill n s
    · rw [refill_cons_of_mayFill fills hmay]
      obtain ⟨ret, hfill⟩ := fill_of_not_opens e2a h (l := s.lexer) (by rw [hs.lexer]; rfl)
      refine ih ?_
      rw [yyfill, hfill]
      dsimp only
      split_ifs
      · exact ⟨hs.lexer, hs.cur, hs.out⟩
      · exact ⟨hs.lexer, by dsimp only; rw [hs.cur, Nat.zero_sub], hs.out⟩
    · rw [refill_cons_of_not_mayFill fills hmay]
      exact ih hs

/-! ### What holds between two steps -/

section Scanner

variable [DecidableEq κ] {K : TokenKinds κ} {s u : Scan κ}

/-- The records read so far are scanned up to the cursor, and what is in the buffer
ends with a newline. -/
structure ReadInv (src : RecSource) (e2a : Char → Char) (file : LexFile) (K : TokenKinds κ)
    (s : Scan κ) : Prop where
  running : s.status = .running
  opened : Opened file s.lexer
  recoff_le : s.lexer.recoff ≤ s.cur
  cur_le : s.cur ≤ s.lexer.filllen
  filllen_le : s.lexer.filllen ≤ lexerBuflen
  newline : ∀ c ∈ (s.lexeme ++ s.unread).getLast?, c = '\n'
  kind : s.lexeme ≠ [] → (scanKind K s.lexeme).isSome
  first : s.lexer.recno = 0 ∧ s.lexer.filllen = 0 ∨ ∃ rec, src.readRec file 0 = .ok rec
  split : ∃ done, s.out = scanTokensOf K done ∧
    ∀ text, (scanRules K).lexemes (src.readText e2a file s.lexer.recno ++ text)
      = ((scanRules K).scan s.lexeme (s.unread ++ text)).map (done ++ ·)

/-- **Inside a token a character is left to look at,** or the token is a newline. -/
theorem ReadInv.unread_ne_nil (h : src.ReadInv e2a file K s) (hlexeme : s.lexeme ≠ [])
    (hunread : s.unread = []) : s.lexeme = ['\n'] := by
  have hlast := h.newline
  rw [hunread, List.append_nil] at hlast
  have hend : s.lexeme.getLast hlexeme = '\n' :=
    hlast _ (List.getLast?_eq_some_getLast hlexeme)
  have hsplit := List.dropLast_append_getLast hlexeme
  rw [hend] at hsplit
  have hkind := h.kind hlexeme
  rw [← hsplit] at hkind
  rw [← hsplit, scanKind_newline hkind, List.nil_append]

/-- **The scanner gives up**: nothing is unread, no token is under way, and the next record
is not read. -/
structure GivesUp (src : RecSource) (file : LexFile) (s u : Scan κ) : Prop where
  status : ∃ ret, ret ≠ 0 ∧ u.status = .returned ret
  out : u.out = s.out
  lexeme : s.lexeme = []
  unread : s.unread = []
  error : ∃ e, src.readRec file s.lexer.recno = .error e

/-- **A record is read in the middle of a text**, and what is unread gets its text; or it is
not, and the scanner goes on with what it has. -/
structure Fills (src : RecSource) (e2a : Char → Char) (file : LexFile) (K : TokenKinds κ)
    (s u : Scan κ) : Prop where
  inv : src.ReadInv e2a file K u
  lexeme : u.lexeme = s.lexeme
  out : u.out = s.out
  recno : u.lexer.recno = s.lexer.recno + 1
  unread : u.unread = s.unread ++ src.recText e2a file s.lexer.recno
  left : s.lexeme = [] → u.unread ≠ []

/-- **One record more in the buffer** keeps what the scanner has read and what it has to read.
-/
theorem ReadInv.rebase (h : src.ReadInv e2a file K s) (hsome : l.file = some file)
    (hzero : l.recoff = 0) (hfits : l.filllen ≤ lexerBuflen)
    (hrecno : l.recno = s.lexer.recno + 1)
    (hread : slice l.buf 0 l.filllen = slice s.lexer.buf s.lexer.recoff s.lexer.filllen ++
      src.recText e2a file s.lexer.recno)
    (hleft : s.lexeme = [] → s.unread ++ src.recText e2a file s.lexer.recno ≠ [])
    (hfirst : ∃ rec, src.readRec file 0 = .ok rec) :
    src.Fills e2a file K s (s.rebase l) := by
  obtain ⟨hle, hlexeme, hunread⟩ := Scan.rebase_spec h.recoff_le h.cur_le hzero hread
  refine ⟨⟨h.running, Or.inl hsome, ?_, hle, hfits, ?_, ?_, Or.inr hfirst, ?_⟩, hlexeme, rfl,
    hrecno, hunread, fun hnil => by rw [hunread]; exact hleft hnil⟩
  · rw [Scan.rebase, hzero]
    exact Nat.zero_le _
  · rw [hlexeme, hunread, ← List.append_assoc]
    intro c hc
    rcases List.eq_nil_or_concat (src.recText e2a file s.lexer.recno) with hnil | ⟨text, d, hd⟩
    · exact h.newline c (by rwa [hnil, List.append_nil] at hc)
    · refine recText_newline src e2a file s.lexer.recno c ?_
      rw [hd] at hc ⊢
      simpa only [List.concat_eq_append, List.getLast?_append, List.getLast?_singleton,
        Option.some_or] using hc
  · rw [hlexeme]
    exact h.kind
  · obtain ⟨done, hout, hscan⟩ := h.split
    refine ⟨done, hout, fun text => ?_⟩
    have htext := hscan (src.recText e2a file s.lexer.recno ++ text)
    rw [← List.append_assoc, ← readText_succ, ← List.append_assoc] at htext
    rw [hlexeme, hunread, ← htext, ← hrecno]
    rfl

/-- **A call of `YYFILL`:** the token read so far stays, and behind the unread characters
is what is scanned of the next record.  Without characters and without a record the
scanner gives up. -/
theorem yyfill_spec (hopens : src.Opens file) (h : src.ReadInv e2a file K s) {n : ℕ}
    (hmay : MayFill n s) :
    src.Fills e2a file K s (src.yyfill e2a s) ∨ src.GivesUp file s (src.yyfill e2a s) := by
  have hrecoff := h.recoff_le
  have hcur := h.cur_le
  have hlen : s.lexeme.length = s.cur - s.lexer.recoff := slice_length ..
  have hboth := congrArg List.length (Scan.lexeme_append_unread hrecoff hcur)
  rw [List.length_append, slice_length] at hboth
  have hfew : s.lexer.filllen - s.lexer.recoff < 10 := by
    rcases hmay.2.2.2 with hstart | hend
    · have hn := hmay.2.1
      have hfilllen := hmay.2.2.1
      omega
    · have hunread : s.unread = [] := slice_eq_nil_iff.2 hend.ge
      by_cases hlexeme : s.lexeme = []
      · rw [hlexeme, List.length_nil] at hlen
        omega
      · rw [h.unread_ne_nil hlexeme hunread, List.length_singleton] at hlen
        omega
  obtain ⟨ret, l, hfill, hsome, hzero, hfits, hrecno, hread, hret⟩ :=
    fill_spec e2a hopens h.opened hfew
  have hlength := congrArg List.length hread
  rw [slice_length, List.length_append, slice_length, Nat.sub_zero] at hlength
  unfold yyfill
  rw [hfill]
  dsimp only
  split_ifs with hnothing
  · -- an error is returned where nothing is unread
    have hempty : s.lexer.filllen - s.lexer.recoff = 0 := by omega
    refine Or.inr ⟨⟨ret, hnothing.1, rfl⟩, rfl, ?_, ?_, ?_⟩
    · exact List.length_eq_zero_iff.1 (by omega)
    · exact List.length_eq_zero_iff.1 (by omega)
    · cases hrec : src.readRec file s.lexer.recno with
      | error e => exact ⟨e, rfl⟩
      | ok rec => exact absurd (hret.2 ⟨rec, hrec⟩) hnothing.1
  · refine Or.inl (h.rebase hsome hzero hfits hrecno hread (fun hnil => ?_) ?_)
    · rw [hnil, List.length_nil] at hboth
      refine List.ne_nil_of_length_pos ?_
      rw [List.length_append]
      by_cases hok : ret = 0
      · obtain ⟨rec, hrec⟩ := hret.1 hok
        rw [recText_of_ok hrec, List.length_append, List.length_singleton]
        omega
      · have hne : ¬ l.filllen - l.recoff = 0 := fun hempty => hnothing ⟨hok, hempty⟩
        omega
    · -- the first record is read, as nothing is unread before it
      rcases h.first with ⟨hrecno₀, hempty⟩ | hfirst
      · by_cases hok : ret = 0
        · rw [← hrecno₀]
          exact hret.1 hok
        · refine absurd ⟨hok, ?_⟩ hnothing
          obtain ⟨e, hrec⟩ : ∃ e, src.readRec file s.lexer.recno = .error e := by
            cases hrec : src.readRec file s.lexer.recno with
            | error e => exact ⟨e, rfl⟩
            | ok rec => exact absurd (hret.2 ⟨rec, hrec⟩) hok
          rw [recText_of_error hrec, List.length_nil] at hlength
          omega
      · exact hfirst

/-- **The refills before a character is looked at**: the token under way and the tokens out
stay, and something is unread behind them. -/
structure Refills (src : RecSource) (e2a : Char → Char) (file : LexFile) (K : TokenKinds κ)
    (s u : Scan κ) : Prop where
  inv : src.ReadInv e2a file K u
  lexeme : u.lexeme = s.lexeme
  out : u.out = s.out
  ahead : src.ahead e2a file u = src.ahead e2a file s
  left : u.unread ≠ []

/-- Refills leave the text that is ahead. -/
theorem Fills.ahead (h : src.Fills e2a file K s u) :
    src.ahead e2a file u = src.ahead e2a file s := by
  rw [RecSource.ahead, h.unread, h.recno, RecSource.ahead, restText_eq (n := s.lexer.recno),
    List.append_assoc]

/-- **The calls before a character is looked at** leave a character to look at, or the
scanner gives up at the first of them. -/
theorem refill_spec (hopens : src.Opens file) (h : src.ReadInv e2a file K s) {fills : List ℕ}
    (hasks : s.unread ≠ [] ∨ s.lexeme = [] ∧ ∃ n ∈ fills, 0 < n ∧ n ≤ 10) :
    src.Refills e2a file K s (src.refill e2a fills s) ∨
      src.GivesUp file s (src.refill e2a fills s) := by
  induction fills generalizing s with
  | nil =>
    rcases hasks with hunread | ⟨-, n, hn, -⟩
    · exact Or.inl ⟨h, rfl, rfl, rfl, hunread⟩
    · exact absurd hn List.not_mem_nil
  | cons n fills ih =>
    by_cases hmay : MayFill n s
    · rw [refill_cons_of_mayFill fills hmay]
      rcases yyfill_spec hopens h hmay with hfills | hgives
      · have hnil : s.lexeme = [] := by
          rcases hasks with hsome | ⟨hnil, -⟩
          · rcases hmay.2.2.2 with hstart | hend
            · exact slice_eq_nil_iff.2 hstart.le
            · exact absurd (slice_eq_nil_iff.2 hend.ge) hsome
          · exact hnil
        have hleft := hfills.left hnil
        rcases ih hfills.inv (Or.inl hleft) with hrest | hrest
        · exact Or.inl ⟨hrest.inv, hrest.lexeme.trans hfills.lexeme,
            hrest.out.trans hfills.out, hrest.ahead.trans hfills.ahead, hrest.left⟩
        · exact absurd hrest.unread hleft
      · obtain ⟨ret, -, hstatus⟩ := hgives.status
        rw [refill_of_not_running src e2a fills (by rw [hstatus]; simp)]
        exact Or.inr hgives
    · rw [refill_cons_of_not_mayFill fills hmay]
      refine ih h ?_
      rcases hasks with hunread | ⟨hnil, m, hm, hpos, hten⟩
      · exact Or.inl hunread
      · rcases List.mem_cons.1 hm with rfl | hm
        · refine Or.inl fun hunread => hmay ⟨h.running, hten, ?_, Or.inl ?_⟩
          · have hend : s.lexer.filllen ≤ s.cur := slice_eq_nil_iff.1 hunread
            omega
          · exact le_antisymm (slice_eq_nil_iff.1 hnil) h.recoff_le
        · exact Or.inr ⟨hnil, m, hm, hpos, hten⟩

/-! ### A step of the scanner -/

/-- What is left to do: a character is looked at and a lexeme ends. -/
def todo (src : RecSource) (e2a : Char → Char) (file : LexFile) (s : Scan κ) : ℕ :=
  2 * (src.ahead e2a file s).length + if s.lexeme = [] then 0 else 1

/-- A token ends. -/
theorem ReadInv.accept (h : src.ReadInv e2a file K s) (hlexeme : s.lexeme ≠ [])
    (hstop : ∀ text, ∀ c ∈ (s.unread ++ text).head?, (scanRules K).goesOn s.lexeme c = false) :
    src.ReadInv e2a file K (accept K s) ∧
      src.todo e2a file (Hvf.accept K s) < src.todo e2a file s := by
  have hnew : (Hvf.accept K s).lexeme = [] := slice_self ..
  have hahead : src.ahead e2a file (Hvf.accept K s) = src.ahead e2a file s := rfl
  refine ⟨⟨h.running, ?_, le_rfl, h.cur_le, h.filllen_le, ?_, fun hne => absurd hnew hne,
    h.first, ?_⟩, ?_⟩
  · rcases h.opened with hsome | ⟨hnone, hrecoff, hfilllen⟩
    · exact Or.inl hsome
    · have hcur := h.cur_le
      exact Or.inr ⟨hnone, show s.cur = 0 by omega, hfilllen⟩
  · rw [hnew]
    rintro c hc
    refine h.newline c ?_
    have hc : c ∈ s.unread.getLast? := hc
    rw [List.getLast?_append, hc]
    exact Option.mem_some_self c
  · obtain ⟨done, hout, hscan⟩ := h.split
    refine ⟨done ++ [s.lexeme], ?_, fun text => ?_⟩
    · rw [Hvf.accept, hout]
      simp [scanTokensOf]
    · have htext := hscan text
      rw [scan_break hlexeme (hstop text), Option.map_map] at htext
      rw [hnew]
      refine htext.trans (congrArg (Option.map · _) (funext fun ms => ?_))
      simp
  · rw [todo, todo, hahead, if_pos hnew, if_neg hlexeme]
    exact Nat.lt_succ_self _

/-- The cursor moves on. -/
theorem ReadInv.goesOn (h : src.ReadInv e2a file K s) (hcur : s.cur < s.lexer.filllen)
    (hgoes : (scanRules K).goesOn s.lexeme (s.lexer.buf s.cur) = true) :
    src.ReadInv e2a file K { s with cur := s.cur + 1 } ∧
      src.todo e2a file { s with cur := s.cur + 1 } < src.todo e2a file s := by
  have hlexeme : Scan.lexeme { s with cur := s.cur + 1 } = s.lexeme ++ [s.lexer.buf s.cur] :=
    slice_succ h.recoff_le
  have hunread : s.unread = s.lexer.buf s.cur :: Scan.unread { s with cur := s.cur + 1 } :=
    slice_cons hcur
  have hahead : src.ahead e2a file s
      = s.lexer.buf s.cur :: src.ahead e2a file { s with cur := s.cur + 1 } := by
    rw [ahead, hunread]
    rfl
  refine ⟨⟨h.running, h.opened, Nat.le_succ_of_le h.recoff_le, hcur, h.filllen_le, ?_, ?_,
    h.first, ?_⟩, ?_⟩
  · rw [hlexeme, List.append_assoc, List.singleton_append, ← hunread]
    exact h.newline
  · rw [hlexeme]
    exact fun _ => hgoes
  · obtain ⟨done, hout, hscan⟩ := h.split
    refine ⟨done, hout, fun text => ?_⟩
    rw [hlexeme, ← scan_goesOn hgoes, ← List.cons_append, ← hunread]
    exact hscan text
  · rw [todo, todo, hahead, if_neg (by rw [hlexeme]; simp), List.length_cons]
    omega

/-- **The cursor moves over a character, or a token ends**: less is to be done, which is
what makes the scan end. -/
structure Moves (src : RecSource) (e2a : Char → Char) (file : LexFile) (K : TokenKinds κ)
    (s u : Scan κ) : Prop where
  inv : src.ReadInv e2a file K u
  todo : src.todo e2a file u < src.todo e2a file s
  recno : u.lexer.recno = s.lexer.recno
  unread : u.unread = s.unread ∨
    ∃ c, s.unread = c :: u.unread ∧ (scanKind K (s.lexeme ++ [c])).isSome

/-- Nothing is looked at behind a lexeme that no character extends. -/
theorem ReadInv.final (h : src.ReadInv e2a file K s) (hlexeme : s.lexeme ≠ [])
    (hfinal : scanFinal K s.lexeme = true) : src.Moves e2a file K s (Hvf.accept K s) := by
  obtain ⟨hinv, htodo⟩ := h.accept hlexeme fun text c _ => by
    have hnone := ((scanRules K).final_iff s.lexeme (h.kind hlexeme)).1 hfinal c
    rw [Rules.goesOn, hnone, Option.isSome_none]
  exact ⟨hinv, htodo, rfl, Or.inl rfl⟩

/-- **What the scanner does with a character:** it is part of the token or ends it. -/
theorem ReadInv.look (h : src.ReadInv e2a file K s) (hunread : s.unread ≠ [])
    (hu : u = if ¬ s.cur < s.lexer.filllen then { s with status := .overread }
      else if (scanRules K).goesOn s.lexeme (s.lexer.buf s.cur) then { s with cur := s.cur + 1 }
      else Hvf.accept K s) :
    src.Moves e2a file K s u := by
  have hcur : s.cur < s.lexer.filllen := by
    by_contra hge
    exact hunread (slice_eq_nil_iff.2 (not_lt.1 hge))
  have hcons : s.unread = s.lexer.buf s.cur :: slice s.lexer.buf (s.cur + 1) s.lexer.filllen :=
    slice_cons hcur
  rw [if_neg (not_not.2 hcur)] at hu
  split_ifs at hu with hgoes
  · subst hu
    obtain ⟨hinv, htodo⟩ := h.goesOn hcur hgoes
    exact ⟨hinv, htodo, rfl, Or.inr ⟨_, hcons, hgoes⟩⟩
  · subst hu
    -- every character goes on with the empty lexeme
    have hlexeme : s.lexeme ≠ [] := by
      intro hnil
      rw [hnil] at hgoes
      exact hgoes (scanRules_goesOn_nil K _)
    obtain ⟨hinv, htodo⟩ := h.accept hlexeme fun text c hc => by
      rw [hcons, List.cons_append, List.head?_cons, Option.mem_some_iff] at hc
      rw [← hc]
      exact Bool.eq_false_of_not_eq_true hgoes
    exact ⟨hinv, htodo, rfl, Or.inl rfl⟩

/-- **A step of the scanner:** a token ends, or there are calls of `YYFILL` and then a
character is looked at, or the scanner gives up. -/
theorem scanStep_spec (hopens : src.Opens file) (h : src.ReadInv e2a file K s) {fills : List ℕ}
    (hstep : src.Scans e2a K s fills u) :
    (s.lexeme ≠ [] ∧ src.Moves e2a file K s u) ∨
      (src.Refills e2a file K s (src.refill e2a fills s) ∧
        src.Moves e2a file K (src.refill e2a fills s) u) ∨
      src.GivesUp file s u := by
  obtain ⟨hasks, hu⟩ := hstep
  rw [scanStep, if_neg (not_not.2 h.running)] at hu
  by_cases hfinal : s.lexeme ≠ [] ∧ scanFinal K s.lexeme
  · rw [if_pos hfinal] at hu
    subst hu
    exact Or.inl ⟨hfinal.1, h.final hfinal.1 hfinal.2⟩
  rw [if_neg hfinal] at hu
  have hready : s.unread ≠ [] ∨ s.lexeme = [] ∧ ∃ n ∈ fills, 0 < n ∧ n ≤ 10 := by
    by_cases hlexeme : s.lexeme = []
    · by_cases hunread : s.unread = []
      · refine Or.inr ⟨hlexeme, hasks ?_ ?_⟩
        · exact le_antisymm (slice_eq_nil_iff.1 hlexeme) h.recoff_le
        · exact le_antisymm h.cur_le (slice_eq_nil_iff.1 hunread)
      · exact Or.inl hunread
    · refine Or.inl fun hunread => hfinal ⟨hlexeme, ?_⟩
      rw [h.unread_ne_nil hlexeme hunread]
      rfl
  have hrefill := refill_spec hopens h hready
  dsimp only at hu
  generalize src.refill e2a fills s = r at hu hrefill ⊢
  rcases hrefill with hrefills | hgives
  · rw [if_neg (not_not.2 hrefills.inv.running)] at hu
    exact Or.inr (Or.inl ⟨hrefills, hrefills.inv.look hrefills.left hu⟩)
  · obtain ⟨ret, -, hstatus⟩ := hgives.status
    rw [if_pos (by rw [hstatus]; simp)] at hu
    subst hu
    exact Or.inr (Or.inr hgives)

/-- Refills leave what is to be scanned. -/
theorem Refills.todo (h : src.Refills e2a file K s u) :
    src.todo e2a file u = src.todo e2a file s := by
  rw [RecSource.todo, RecSource.todo, h.ahead, h.lexeme]

/-- Before the first token nothing is read. -/
theorem ReadInv.init : src.ReadInv e2a file K Scan.init where
  running := rfl
  opened := Or.inr ⟨rfl, rfl, rfl⟩
  recoff_le := le_rfl
  cur_le := le_rfl
  filllen_le := Nat.zero_le _
  newline := by simp [Scan.lexeme, Scan.unread, Scan.init, slice_self]
  kind h := absurd (slice_self ..) h
  first := Or.inl ⟨rfl, rfl⟩
  split := by
    refine ⟨[], rfl, fun text => ?_⟩
    simp [Scan.lexeme, Scan.unread, Scan.init, slice_self, Rules.lexemes, readText_zero]

end Scanner

end RecSource

end Hvf
