/-
# Which records are scanned

What is scanned is the text of the records that can be read, up to the end of the file or
up to a record that cannot (`RecSource.scan_stops`), and for every such text there are
calls of `YYFILL` with which it is what is scanned (`RecSource.exists_scan`).  Where every
record is read that is the text of the file (`scan_records`).
-/

import Hvf.Nucleus.LexerReads

namespace Hvf

open Munch StepRun

namespace RecSource

section Scanner

variable {κ : Type} {src : RecSource} {e2a : Char → Char} {file : LexFile} [DecidableEq κ]
  {K : TokenKinds κ} {s u : Scan κ}

/-! ### Whole files -/

/-- Where the scanner gives up, it has the tokens of the records before. -/
theorem ReadInv.givesUp (h : src.ReadInv e2a file K s) (hgives : src.GivesUp file s u) :
    scanTokens K (src.readText e2a file s.lexer.recno) = some u.out := by
  obtain ⟨done, hout, hscan⟩ := h.split
  have hend := hscan []
  rw [hgives.lexeme, hgives.unread, List.append_nil] at hend
  rw [scanTokens, hend, hgives.out, hout]
  simp [Rules.scan]

/-- **The states of a run:** the scanner is inside the text of the records read so far, or
it has given up at a record that is not read. -/
theorem scan_states (hopens : src.Opens file) {fillss : List (List ℕ)}
    (hrun : Run (src.Scans e2a K) Scan.init fillss s) :
    (src.ReadInv e2a file K s ∧ fillss.length + src.todo e2a file s
        ≤ 2 * (src.restText e2a file 0).length) ∨
      ∃ t, src.ReadInv e2a file K t ∧ src.GivesUp file t s := by
  refine hrun.history (P := fun fillss s => (src.ReadInv e2a file K s ∧
    fillss.length + src.todo e2a file s ≤ 2 * (src.restText e2a file 0).length) ∨
      ∃ t, src.ReadInv e2a file K t ∧ src.GivesUp file t s) (Or.inl ⟨ReadInv.init, ?_⟩) ?_
  · have hlexeme : (Scan.init (κ := κ)).lexeme = [] := slice_self ..
    rw [todo, if_pos hlexeme, List.length_nil, Nat.zero_add, Nat.add_zero]
    rfl
  · intro fillss s fills u hs hstep
    rcases hs with ⟨hs, htodo⟩ | ⟨t, ht, hgives⟩
    · rcases scanStep_spec hopens hs hstep with ⟨-, hmoves⟩ | ⟨hrefills, hmoves⟩ | hgives
      · refine Or.inl ⟨hmoves.inv, ?_⟩
        have hlt := hmoves.todo
        rw [List.length_append, List.length_singleton]
        omega
      · refine Or.inl ⟨hmoves.inv, ?_⟩
        have hlt := hmoves.todo
        rw [hrefills.todo] at hlt
        rw [List.length_append, List.length_singleton]
        omega
      · exact Or.inr ⟨s, hs, hgives⟩
    · -- nothing happens any more
      obtain ⟨ret, -, hstatus⟩ := hgives.status
      have hstay : u = s := by
        rw [hstep.2, scanStep, if_pos (by rw [hstatus]; simp)]
      rw [hstay]
      exact Or.inr ⟨t, ht, hgives⟩

/-- Without a file there are no tokens. -/
theorem scan_of_not_opens (h : ∀ file, ¬ src.Opens file) {fillss : List (List ℕ)}
    (hrun : Run (src.Scans e2a K) Scan.init fillss s) : s.out = [] := by
  have hinv : Unscanned s := by
    refine hrun.invariant (P := Unscanned) ⟨rfl, rfl, rfl⟩ ?_
    rintro s fills u hs ⟨-, rfl⟩
    have hlexeme : s.lexeme = [] := by
      rw [Scan.lexeme, hs.lexer, hs.cur]
      rfl
    have hrefill := hs.refill e2a h fills
    have hfinal : ¬ (s.lexeme ≠ [] ∧ scanFinal K s.lexeme = true) := fun h => h.1 hlexeme
    have hend : ¬ (src.refill e2a fills s).cur < (src.refill e2a fills s).lexer.filllen := by
      rw [hrefill.lexer, hrefill.cur]
      exact Nat.lt_irrefl 0
    unfold scanStep
    dsimp only
    rw [if_neg hfinal, if_pos hend]
    split_ifs
    · exact hs
    · exact hrefill
    · exact ⟨hrefill.lexer, hrefill.cur, hrefill.out⟩
  exact hinv.out

/-- **Whatever calls of `YYFILL` there are,** the tokens returned are some of the first of
the records that are read. -/
theorem scan_prefix (hopens : src.Opens file) {toks : List (κ × List Char)}
    (htoks : scanTokens K (src.readText e2a file file.recs.length) = some toks)
    {fillss : List (List ℕ)} (hrun : Run (src.Scans e2a K) Scan.init fillss s) :
    s.out <+: toks := by
  obtain ⟨ms, hms, rfl⟩ := Option.map_eq_some_iff.1 htoks
  have hread : ∀ t : Scan κ, src.ReadInv e2a file K t → t.out <+: scanTokensOf K ms := by
    intro t ht
    obtain ⟨done, hout, hscan⟩ := ht.split
    have hrest := hscan (src.restText e2a file t.lexer.recno)
    rw [readText_append_restText, hms] at hrest
    obtain ⟨left, -, rfl⟩ := Option.map_eq_some_iff.1 hrest.symm
    rw [hout, scanTokensOf, scanTokensOf, List.flatMap_append]
    exact List.prefix_append _ _
  rcases scan_states hopens hrun with ⟨hs, -⟩ | ⟨t, ht, hgives⟩
  · exact hread s hs
  · rw [hgives.out]
    exact hread t ht

/-- Where the first record is read the scanner stops at a record that is not. -/
theorem scan_stops_of_first (hopens : src.Opens file)
    (hfirst : ∃ rec, src.readRec file 0 = .ok rec) {fillss : List (List ℕ)} {ret : Int}
    (hrun : Run (src.Scans e2a K) Scan.init fillss s) (hret : s.status = .returned ret) :
    ∃ n, src.Stops file n ∧ scanTokens K (src.readText e2a file n) = some s.out := by
  rcases scan_states hopens hrun with ⟨hs, -⟩ | ⟨t, ht, hgives⟩
  · exact nomatch hret.symm.trans hs.running
  · have htoks := ht.givesUp hgives
    rcases le_total t.lexer.recno file.recs.length with hle | hge
    · exact ⟨_, ⟨hle, hgives.error, hfirst⟩, htoks⟩
    · rw [readText_of_le hge] at htoks
      exact ⟨_, ⟨le_rfl, ⟨_, readRec_error_of_le le_rfl⟩, hfirst⟩, htoks⟩

/-- **What is scanned,** whatever calls of `YYFILL` there are: where the scanner returns
an error, it has returned the tokens of the records that are read up to one where it may
stop, or none. -/
theorem scan_stops {fillss : List (List ℕ)} {ret : Int}
    (hrun : Run (src.Scans e2a K) Scan.init fillss s) (hret : s.status = .returned ret) :
    s.out = [] ∨ ∃ file n, src.Opens file ∧ src.Stops file n ∧
      scanTokens K (src.readText e2a file n) = some s.out := by
  by_cases hopens : ∃ file, src.Opens file
  · obtain ⟨file, hopens⟩ := hopens
    by_cases hfirst : ∃ rec, src.readRec file 0 = .ok rec
    · obtain ⟨n, hstops, htoks⟩ := scan_stops_of_first hopens hfirst hrun hret
      exact Or.inr ⟨file, n, hopens, hstops, htoks⟩
    · rcases scan_states hopens hrun with ⟨hs, -⟩ | ⟨t, ht, hgives⟩
      · exact nomatch hret.symm.trans hs.running
      · have htoks := ht.givesUp hgives
        rw [(ht.first.resolve_right hfirst).1] at htoks
        exact Or.inl (Option.some.inj htoks).symm
  · exact Or.inl (scan_of_not_opens (fun file hfile => hopens ⟨file, hfile⟩) hrun)

/-! ### Every text may be scanned -/

/-- The calls of `YYFILL` with which the scanner stops at record `n`: at the start of a
token it passes by the records that are not read as soon as one character is unread. -/
def stopFills (n : ℕ) (s : Scan κ) : List ℕ :=
  if s.lexeme ≠ [] then []
  else if s.lexer.recno = n then [1]
  else List.replicate (n - s.lexer.recno) 2

/-- **Before record `n` the scanner does not run dry** but at a record's end: with a token
that is read, nothing is unread before record `n` only at the start. -/
structure StopInv (src : RecSource) (e2a : Char → Char) (file : LexFile) (K : TokenKinds κ)
    (n : ℕ) (s : Scan κ) : Prop where
  inv : src.ReadInv e2a file K s
  le : s.lexer.recno ≤ n
  unread : s.unread = [] → s.lexer.recno = n ∨ s.lexer.recno = 0

/-- Up to `m` records are read until two characters are unread. -/
theorem refill_replicate (hopens : src.Opens file) (hfirst : ∃ rec, src.readRec file 0 = .ok rec)
    {m : ℕ} (h : src.ReadInv e2a file K s) (hnil : s.lexeme = [])
    (hready : s.unread ≠ [] ∨ s.lexer.recno = 0 ∧ 0 < m) :
    (src.refill e2a (List.replicate m 2) s).lexer.recno ≤ s.lexer.recno + m ∧
      (2 ≤ (src.refill e2a (List.replicate m 2) s).unread.length ∨
        (src.refill e2a (List.replicate m 2) s).lexer.recno = s.lexer.recno + m) := by
  induction m generalizing s with
  | zero => exact ⟨le_rfl, Or.inr rfl⟩
  | succ m ih =>
    by_cases hmay : MayFill 2 s
    · rw [List.replicate_succ, refill_cons_of_mayFill _ hmay]
      rcases yyfill_spec hopens h hmay with hfills | hgives
      · have hrest := ih hfills.inv (hfills.lexeme.trans hnil) (Or.inl (hfills.left hnil))
        rw [hfills.recno] at hrest
        rwa [Nat.add_assoc, Nat.add_comm 1] at hrest
      · obtain ⟨rec, hrec⟩ := hfirst
        obtain ⟨e, herror⟩ := hgives.error
        rcases hready with hne | ⟨hzero, -⟩
        · exact absurd hgives.unread hne
        · rw [hzero, hrec] at herror
          exact nomatch herror
    · have hlong : 2 ≤ s.unread.length := by
        by_contra hshort
        refine hmay ⟨h.running, by omega, ?_, Or.inl ?_⟩
        · rw [Scan.unread, slice_length] at hshort
          omega
        · exact le_antisymm (slice_eq_nil_iff.1 hnil) h.recoff_le
      rw [refill_of_not_mayFill src e2a fun n hn => by rwa [List.eq_of_mem_replicate hn]]
      exact ⟨Nat.le_add_right _ _, Or.inl hlong⟩

/-- Only a newline is looked at as the last character, and it begins a token. -/
theorem Moves.unread_ne_nil (h : src.ReadInv e2a file K s) (hmoves : src.Moves e2a file K s u)
    (hlexeme : s.lexeme ≠ []) (hunread : u.unread = []) : s.unread = [] := by
  rcases hmoves.unread with hsame | ⟨c, hcons, hkind⟩
  · rw [← hsame, hunread]
  · have hlast := h.newline c (by rw [hcons, hunread]; simp)
    rw [hlast] at hkind
    exact absurd (scanKind_newline hkind) hlexeme

/-- What these calls leave unread. -/
theorem StopInv.refill (hopens : src.Opens file) {n : ℕ} (hstops : src.Stops file n)
    (h : src.StopInv e2a file K n s)
    (hrefills : src.Refills e2a file K s (src.refill e2a (stopFills n s) s)) :
    (src.refill e2a (stopFills n s) s).lexer.recno ≤ n ∧
      (s.lexeme ≠ [] ∧ src.refill e2a (stopFills n s) s = s ∨
        2 ≤ (src.refill e2a (stopFills n s) s).unread.length ∨
        (src.refill e2a (stopFills n s) s).lexer.recno = n) := by
  have hle := h.le
  by_cases hlexeme : s.lexeme ≠ []
  · have hsame : src.refill e2a (stopFills n s) s = s := by
      rw [stopFills, if_pos hlexeme]
      rfl
    rw [hsame]
    exact ⟨hle, Or.inl ⟨hlexeme, rfl⟩⟩
  have hnil : s.lexeme = [] := not_not.1 hlexeme
  by_cases hlast : s.lexer.recno = n
  · have hfills : stopFills n s = [1] := by rw [stopFills, if_neg hlexeme, if_pos hlast]
    rw [hfills] at hrefills ⊢
    by_cases hmay : MayFill 1 s
    · have hone : src.refill e2a [1] s = src.yyfill e2a s := refill_cons_of_mayFill [] hmay
      rw [hone] at hrefills
      rcases yyfill_spec hopens h.inv hmay with hread | hgives
      · obtain ⟨e, herror⟩ := hstops.error
        have hunread : s.unread = [] := by
          refine slice_eq_nil_iff.2 ?_
          have hfew := hmay.2.2.1
          omega
        have hleft := hread.left hnil
        rw [hread.unread, hunread, hlast, recText_of_error herror] at hleft
        exact absurd rfl hleft
      · obtain ⟨ret, -, hstatus⟩ := hgives.status
        exact nomatch hstatus.symm.trans hrefills.inv.running
    · rw [refill_of_not_mayFill src e2a fun m hm => by rwa [List.mem_singleton.1 hm]]
      exact ⟨hle, Or.inr (Or.inr hlast)⟩
  · have hfills : stopFills n s = List.replicate (n - s.lexer.recno) 2 := by
      rw [stopFills, if_neg hlexeme, if_neg hlast]
    have hready : s.unread ≠ [] ∨ s.lexer.recno = 0 ∧ 0 < n - s.lexer.recno := by
      by_cases hunread : s.unread = []
      · exact Or.inr ⟨(h.unread hunread).resolve_left hlast, by omega⟩
      · exact Or.inl hunread
    have hreplicate := refill_replicate hopens hstops.first h.inv hnil hready
    rw [Nat.add_sub_cancel' hle] at hreplicate
    rw [hfills]
    exact ⟨hreplicate.1, Or.inr hreplicate.2⟩

/-- **A step of the scanner with these calls.** -/
theorem StopInv.step (hopens : src.Opens file) {n : ℕ} (hstops : src.Stops file n)
    (h : src.StopInv e2a file K n s) (hu : u = src.scanStep e2a K (stopFills n s) s) :
    src.Scans e2a K s (stopFills n s) u ∧
      (src.StopInv e2a file K n u ∧ src.todo e2a file u < src.todo e2a file s ∨
        src.GivesUp file s u ∧ s.lexer.recno = n) := by
  have hscans : src.Scans e2a K s (stopFills n s) u := by
    refine ⟨fun hstart _ => ?_, hu⟩
    have hnil : s.lexeme = [] := slice_eq_nil_iff.2 hstart.le
    rw [stopFills, if_neg (not_not.2 hnil)]
    split_ifs with hlast
    · exact ⟨1, List.mem_singleton_self 1, by omega, by omega⟩
    · have hle := h.le
      exact ⟨2, List.mem_replicate.2 ⟨by omega, rfl⟩, by omega, by omega⟩
  refine ⟨hscans, ?_⟩
  have hin : ∀ t : Scan κ, src.Moves e2a file K s t → s.lexeme ≠ [] →
      src.StopInv e2a file K n t := by
    intro t ht hlexeme
    refine ⟨ht.inv, by rw [ht.recno]; exact h.le, fun hunread => ?_⟩
    rw [ht.recno]
    exact h.unread (ht.unread_ne_nil h.inv hlexeme hunread)
  rcases scanStep_spec hopens h.inv hscans with ⟨hlexeme, hmoves⟩ | ⟨hrefills, hmoves⟩ | hgives
  · exact Or.inl ⟨hin u hmoves hlexeme, hmoves.todo⟩
  · -- what the calls leave
    have hleft := h.refill hopens hstops hrefills
    generalize src.refill e2a (stopFills n s) s = r at hrefills hmoves hleft
    refine Or.inl ⟨?_, by rw [← hrefills.todo]; exact hmoves.todo⟩
    rcases hleft.2 with ⟨hlexeme, rfl⟩ | hrest
    · exact hin u hmoves hlexeme
    · refine ⟨hmoves.inv, by rw [hmoves.recno]; exact hleft.1, fun hunread => Or.inl ?_⟩
      rw [hmoves.recno]
      refine hrest.resolve_left fun hlong => ?_
      rcases hmoves.unread with hsame | ⟨c, hcons, -⟩
      · rw [← hsame, hunread] at hlong
        exact absurd hlong (by decide)
      · rw [hcons, hunread] at hlong
        exact absurd hlong (by simp)
  · refine Or.inr ⟨hgives, (h.unread hgives.unread).resolve_right fun hzero => ?_⟩
    obtain ⟨rec, hrec⟩ := hstops.first
    obtain ⟨e, herror⟩ := hgives.error
    rw [hzero, hrec] at herror
    exact nomatch herror

/-- **Every text up to a record where the scanner may stop may be what is scanned.** -/
theorem exists_scan (hopens : src.Opens file) {n : ℕ} (hstops : src.Stops file n)
    {toks : List (κ × List Char)} (htoks : scanTokens K (src.readText e2a file n) = some toks) :
    ∃ fillss s ret, Run (src.Scans e2a K) Scan.init fillss s ∧ s.status = .returned ret ∧
      s.out = toks := by
  have hrest : ∀ k (s : Scan κ), src.todo e2a file s = k → src.StopInv e2a file K n s →
      ∃ fillss u ret, Run (src.Scans e2a K) s fillss u ∧ u.status = .returned ret ∧
        u.out = toks := by
    intro k
    induction k using Nat.strong_induction_on with
    | _ k ih =>
      rintro s rfl hs
      obtain ⟨hscans, ⟨hu, hlt⟩ | ⟨hgives, hlast⟩⟩ := hs.step hopens hstops rfl
      · obtain ⟨fillss, t, ret, hrun, hret, hout⟩ := ih _ hlt _ rfl hu
        exact ⟨[_] ++ fillss, t, ret, (Run.snoc Run.nil hscans).append hrun, hret, hout⟩
      · obtain ⟨ret, -, hret⟩ := hgives.status
        refine ⟨_, _, ret, Run.snoc Run.nil hscans, hret, ?_⟩
        have hall := hs.inv.givesUp hgives
        rw [hlast, htoks] at hall
        exact (Option.some.inj hall).symm
  exact hrest _ _ rfl ⟨ReadInv.init, Nat.zero_le _, fun _ => Or.inr rfl⟩

end Scanner

end RecSource

/-! ### Files that are read as a whole -/

section Whole

variable {κ : Type} {K : TokenKinds κ} {e2a : Char → Char} {file : LexFile} {n : ℕ}

/-- The text behind the cursor. -/
def Scan.ahead (e2a : Char → Char) (file : LexFile) (s : Scan κ) : List Char :=
  s.unread ++ fileText e2a (file.recs.drop s.lexer.recno)

/-- **What holds in a file that is read as a whole:** the lexemes `ms` of the text are split
at the token that is being read, and what is in the buffer ends with a newline. -/
structure LexInv [DecidableEq κ] (K : TokenKinds κ) (e2a : Char → Char) (file : LexFile)
    (ms : List (List Char)) (s : Scan κ) : Prop where
  running : s.status = .running
  opened : Opened file s.lexer
  recoff_le : s.lexer.recoff ≤ s.cur
  cur_le : s.cur ≤ s.lexer.filllen
  filllen_le : s.lexer.filllen ≤ lexerBuflen
  newline : ∀ c ∈ (s.lexeme ++ s.unread).getLast?, c = '\n'
  kind : s.lexeme ≠ [] → (scanKind K s.lexeme).isSome
  split : ∃ done left, ms = done ++ left ∧ s.out = scanTokensOf K done ∧
    (scanRules K).scan s.lexeme (s.ahead e2a file) = some left

/-- Every record of the file is read. -/
def LexFile.Fixed.source (h : file.Fixed) : RecSource where
  lookup := .ok file
  errno _ := 0
  recs_length f hf rec hrec := by
    obtain rfl := Except.ok.inj hf
    rw [h.recs rec hrec, h.lrecl]

/-- A fixed file, as a source of records, opens. -/
theorem LexFile.Fixed.source_opens (h : file.Fixed) : h.source.Opens file :=
  ⟨rfl, h.lrecl, h.fixed⟩

/-- Its refill is that of the file. -/
theorem LexFile.Fixed.source_fill (h : file.Fixed) (e2a : Char → Char) (l : Lexer) :
    h.source.fill e2a l = fill e2a (.ok file) l := by
  unfold RecSource.fill fill RecSource.readRec
  have hlookup : h.source.lookup = .ok file := rfl
  rw [hlookup]
  cases openFile (.ok file) l with
  | error ret => rfl
  | ok opened =>
    dsimp only
    cases opened.1.recs[(moveUnread opened.2).recno]? with
    | none => rfl
    | some rec => rfl

/-- So is the scanner's. -/
theorem LexFile.Fixed.source_yyfill (h : file.Fixed) (e2a : Char → Char) (s : Scan κ) :
    h.source.yyfill e2a s = yyfill e2a (.ok file) s := by
  rw [RecSource.yyfill, h.source_fill]
  rfl

/-- So are several of them. -/
theorem LexFile.Fixed.source_refill (h : file.Fixed) (e2a : Char → Char) (fills : List ℕ)
    (s : Scan κ) : h.source.refill e2a fills s = refill e2a (.ok file) fills s := by
  rw [RecSource.refill, refill]
  simp only [h.source_yyfill]

/-- The scanner of a file is the one where no read fails. -/
theorem LexFile.Fixed.source_scans [DecidableEq κ] (h : file.Fixed) :
    h.source.Scans e2a K =
      fun s fills u => Asks fills s ∧ u = scanStep K e2a (.ok file) fills s := by
  funext s fills u
  rw [RecSource.Scans, RecSource.scanStep, h.source_refill]
  rfl

/-- None of its reads fails. -/
theorem LexFile.Fixed.source_readable (h : file.Fixed) : h.source.Readable file :=
  fun _ _ => rfl

/-- The text ahead is the file's. -/
theorem LexFile.Fixed.source_ahead (h : file.Fixed) (s : Scan κ) :
    h.source.ahead e2a file s = s.ahead e2a file := by
  rw [RecSource.ahead, h.source_readable.restText_eq_drop, Scan.ahead]

/-- The lexemes of the file where the text is one of tokens. -/
theorem LexFile.Fixed.source_lexInv [DecidableEq κ] (h : file.Fixed) {ms : List (List Char)}
    {s : Scan κ} (hms : (scanRules K).lexemes (fileText e2a file.recs) = some ms)
    (hs : h.source.ReadInv e2a file K s) : LexInv K e2a file ms s := by
  refine ⟨hs.running, hs.opened, hs.recoff_le, hs.cur_le, hs.filllen_le, hs.newline, hs.kind, ?_⟩
  obtain ⟨done, hout, hscan⟩ := hs.split
  have hrest := hscan (h.source.restText e2a file s.lexer.recno)
  have hwhole := RecSource.readText_append_restText h.source e2a file s.lexer.recno
  rw [h.source_readable.readText_eq le_rfl] at hwhole
  rw [hwhole, hms] at hrest
  obtain ⟨left, hleft, rfl⟩ := Option.map_eq_some_iff.1 hrest.symm
  exact ⟨done, left, rfl, hout, by rw [← h.source_ahead]; exact hleft⟩

/-! ### Whole files -/

variable [DecidableEq κ]

/-- **Scanning record by record is scanning the text of the file,** for the rules
of both files and whatever calls of `YYFILL` there are.  As long as the scanner
runs, the lexemes so far, the one being read and the text behind the cursor make
up the text, nothing is stored outside the buffer, and a call of `YYFILL` leaves
the cursor where it is in the text.  The scanner ends with the error of the
missing record, after all tokens of the text. -/
theorem scan_records (K : TokenKinds κ) (e2a : Char → Char) (hfile : file.Fixed)
    {toks : List (κ × List Char)} (htoks : tokens K (fileText e2a file.recs) = some toks)
    {fillss : List (List ℕ)} {s : Scan κ}
    (hrun : Run (fun s fills u => Asks fills s ∧ u = scanStep K e2a (.ok file) fills s)
      Scan.init fillss s) :
    s.out <+: toks ∧
    ((s.status = .running ∧ s.cur ≤ s.lexer.filllen ∧ s.lexer.filllen ≤ lexerBuflen ∧
        (∃ done, s.out = tokensOf K done ∧
          fileText e2a file.recs = done.flatten ++ s.lexeme ++ s.ahead e2a file) ∧
        ∀ n, MayFill n s → (yyfill e2a (.ok file) s).status = .running →
          (yyfill e2a (.ok file) s).out = s.out ∧ (yyfill e2a (.ok file) s).lexeme = s.lexeme ∧
            (yyfill e2a (.ok file) s).ahead e2a file = s.ahead e2a file) ∨
      ∃ ret, ret ≠ 0 ∧ s.status = .returned ret ∧ s.out = toks) ∧
    (2 * (fileText e2a file.recs).length < fillss.length → s.status ≠ .running) := by
  have hscan := scanTokens_of_tokens htoks
  obtain ⟨ms, hms, rfl⟩ := Option.map_eq_some_iff.1 htoks
  have hkind : ∀ m ∈ ms, (lineKind K m).isSome :=
    scan_kind (R := lineRules K) (fun hne => absurd rfl hne) hms
  have hms' : (scanRules K).lexemes (fileText e2a file.recs) = some ms := scan_scanRules hms
  rw [← hfile.source_scans] at hrun
  rcases RecSource.scan_states hfile.source_opens hrun with ⟨hread, htodo⟩ | ⟨t, ht, hgives⟩
  · have hs := hfile.source_lexInv hms' hread
    obtain ⟨done, left, rfl, hout, hleft⟩ := hs.split
    rw [scanTokensOf_eq fun m hm => hkind m (List.mem_append_left _ hm)] at hout
    have htext := scan_flatten hms'
    rw [List.flatten_append, scan_flatten hleft, ← List.append_assoc] at htext
    refine ⟨?_, Or.inl ⟨hs.running, hs.cur_le, hs.filllen_le, ⟨done, hout, htext.symm⟩, ?_⟩, ?_⟩
    · rw [hout, tokensOf, tokensOf, List.flatMap_append]
      exact List.prefix_append _ _
    · intro n hmay hgoes
      rw [← hfile.source_yyfill] at hgoes ⊢
      rcases RecSource.yyfill_spec hfile.source_opens hread hmay with hfills | hgives
      · exact ⟨hfills.out, hfills.lexeme, by
          rw [← hfile.source_ahead, hfills.ahead, hfile.source_ahead]⟩
      · obtain ⟨ret, -, hstatus⟩ := hgives.status
        rw [hstatus] at hgoes
        cases hgoes
    · intro hlong
      rw [hfile.source_readable.restText_eq_drop, List.drop_zero] at htodo
      omega
  · -- only behind the last record is none read
    obtain ⟨ret, hret, hstatus⟩ := hgives.status
    have hend : file.recs.length ≤ t.lexer.recno := by
      by_contra hlt
      obtain ⟨e, herror⟩ := hgives.error
      rw [RecSource.readRec_ok_iff.2 ⟨List.getElem?_eq_getElem (not_le.1 hlt), rfl⟩] at herror
      cases herror
    have hall := ht.givesUp hgives
    rw [hfile.source_readable.readText_eq hend, hscan] at hall
    obtain hout := Option.some.inj hall
    exact ⟨by rw [← hout], Or.inr ⟨ret, hret, hstatus, hout.symm⟩, fun _ => by rw [hstatus]; simp⟩

/-- The scanner that calls `YYFILL(10)` whenever it may. -/
theorem scan_run (K : TokenKinds κ) (e2a : Char → Char) (file : LexFile) (n : ℕ) :
    Run (fun s fills u => Asks fills s ∧ u = scanStep K e2a (.ok file) fills s)
      Scan.init (List.replicate n [10]) ((scanStep K e2a (.ok file) [10])^[n] Scan.init) := by
  induction n with
  | zero => exact Run.nil
  | succ n ih =>
    rw [List.replicate_succ', Function.iterate_succ_apply']
    exact ih.snoc ⟨fun _ _ => ⟨10, by simp⟩, rfl⟩

/-- Two records; the second one is read while a part of the first is unread. -/
def rdevFile : LexFile :=
  ⟨80, true, ["RDEV 9 CONSOLE".toList ++ List.replicate 66 ' ',
    "* LOCAL".toList ++ List.replicate 73 ' ']⟩

/-- **A refill behind an unread tail:** the scanner that reads `rdevFile` has ` CONSOLE`
unread when the second record comes, and returns the tokens of both. -/
theorem scan_records_rdev :
    ((scanStep configKinds id (.ok rdevFile) [10])^[9] Scan.init).unread = " CONSOLE\n".toList ∧
    ((scanStep configKinds id (.ok rdevFile) [10])^[10] Scan.init).unread
      = "CONSOLE\n* LOCAL\n".toList ∧
    ((scanStep configKinds id (.ok rdevFile) [10])^[47] Scan.init).out
      = [(.rdev, "RDEV".toList), (.num, "9".toList), (.console, "CONSOLE".toList),
        (.nline, "\n".toList), (.comment, "* LOCAL".toList), (.nline, "\n".toList)] := by
  have hfile : rdevFile.Fixed := ⟨rfl, rfl, by decide +kernel⟩
  have htoks : tokens configKinds (fileText id rdevFile.recs)
      = some [(.rdev, "RDEV".toList), (.num, "9".toList), (.console, "CONSOLE".toList),
        (.nline, "\n".toList), (.comment, "* LOCAL".toList), (.nline, "\n".toList)] := by
    decide +kernel
  have hall := scan_records configKinds id hfile htoks (scan_run configKinds id _ 47)
  refine ⟨by decide +kernel, by decide +kernel, ?_⟩
  rcases hall.2.1 with ⟨hrunning, -⟩ | ⟨ret, -, -, hout⟩
  · exact absurd hrunning (hall.2.2 (by decide +kernel))
  · exact hout

end Whole

end Hvf
