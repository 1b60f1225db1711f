/-
# Loading the configuration and the directory

`load_config` of `cp/nucleus/config.c` and `load_directory` of `cp/nucleus/direct.c`, over
`edf_read_rec` of `cp/fs/edf.c`.  The error of a record that cannot be read ends the tokens
for the parser, as a negative token is the end of the input, or it is not seen at all.  A
syntax error calls `_error`, which does not return; so a load returns 0 or an error of the
lookups before it, or the system stops.

A load is whole if every record was read and its tokens delivered
(`RecSource.Complete`).  The scanner gives up in front of a record that cannot be read, or
goes on behind it, so a load of a file with such a record is refused only where the lines of
the readable records in front of each of them are refused (`RecSource.Rejects`,
`config_whole_iff`).  `readDirectory` and `readConfig` take the tokens of a text, of which
there are some for every text, and read them line by line.

`none` stands for a system that has stopped.
-/

import Hvf.Fs.EdfRecord
import Hvf.Nucleus.Config
import Hvf.Nucleus.DirectText
import Hvf.Nucleus.LexerStops

namespace Hvf

open StepRun

/-! ### The loads -/

namespace RecSource

section Model

variable {κ : Type} [DecidableEq κ] (src : RecSource) (e2a : Char → Char)

/-- The scanner has returned `toks`. -/
def Returns (K : TokenKinds κ) (toks : List (κ × List Char)) : Prop :=
  ∃ fillss s, Run (src.Scans e2a K) Scan.init fillss s ∧ s.out = toks

/-- The scanner has returned `toks`, and then an error. -/
def Delivers (K : TokenKinds κ) (toks : List (κ × List Char)) : Prop :=
  ∃ fillss s ret, Run (src.Scans e2a K) Scan.init fillss s ∧ s.status = .returned ret ∧
    s.out = toks

/-- What the generated parser returns where it has taken the tokens `toks`, and does not
where it calls `parser->error`, which is `_error`. -/
inductive Parses (K : TokenKinds κ) (accepts : List (κ × List Char) → Prop)
    (toks : List (κ × List Char)) : Option Int → Prop
  /-- a negative token is the end of the input -/
  | accept (hlex : src.Delivers e2a K toks) (h : accepts toks) : Parses K accepts toks (some 0)
  | early (hlex : src.Delivers e2a K toks) (h : ¬ accepts toks) : Parses K accepts toks none
  | error (hlex : src.Returns e2a K toks) (h : ∀ more, ¬ accepts (toks ++ more)) :
      Parses K accepts toks none

/-- **Every record of the file was read, and the tokens of all are delivered.**  The
characters are those of all `FST.AIC` records. -/
def Complete (K : TokenKinds κ) (toks : List (κ × List Char)) : Prop :=
  ∃ file, src.Opens file ∧ src.Readable file ∧ scanTokens K (fileText e2a file.recs) = some toks

/-- No record of the file is an error. -/
def Whole : Prop := ∀ file, src.Opens file → src.Readable file

/-- **The records in front of one that is not read are refused.**  Records that are not read
themselves are left out of the text.  The end of the file counts as such a record, and where
record 0 is not read there are no tokens at all. -/
def Rejects {β : Type} (read : List Char → Option β) : Prop :=
  ∀ file n, src.Opens file → src.Stops file n → read (src.readText e2a file n) = none

end Model

end RecSource

/-- The directory grammar accepts the tokens. -/
def IsDirectory (heap : ℕ → List Char) (toks : List (DirectToken × List Char)) : Prop :=
  ∃ users, IsUsers (lexSyms heap 0 toks) users

/-- The configuration grammar accepts the tokens. -/
def IsConfig (heap : ℕ → List Char) (toks : List (ConfigToken × List Char)) : Prop :=
  ∃ conf, IsStmts (configSyms heap 0 toks) .zero conf

/-- What a text says as a directory: its tokens, read line by line. -/
def readDirectory (heap : ℕ → List Char) (text : List Char) : Option (List User) :=
  (scanTokens directKinds text).bind fun toks => readUsers (lexSyms heap 0 toks)

/-- What a text says as a configuration: `sysconf` after its tokens, read line by line. -/
def readConfig (heap : ℕ → List Char) (text : List Char) : Option Sysconf :=
  (scanTokens configKinds text).bind fun toks => readStmts (configSyms heap 0 toks)

/-- `load_directory`, where the parser has taken the tokens `toks`. -/
def LoadDirectory (e2a : Char → Char) (heap : ℕ → List Char) (src : RecSource)
    (toks : List (DirectToken × List Char)) (ret : Option Int) : Prop :=
  ∃ parsed, src.Parses e2a directKinds (IsDirectory heap) toks parsed ∧
    ret = parsed.map fun parsed => if parsed ≠ 0 then -ecorrupt else 0

/-- What `load_config` finds: the device, the file system, the two files, and the memory
behind the copies of words. -/
structure ConfigEnv where
  device : Except Int Unit
  mount : Except Int Unit
  config : RecSource
  direct : List Char → List Char → RecSource
  configHeap : ℕ → List Char
  directHeap : ℕ → List Char

/-- The directory that `sysconf` names. -/
def ConfigEnv.directOf (env : ConfigEnv) (conf : Sysconf) : RecSource :=
  env.direct conf.directFn conf.directFt

/-- What a load went through: the tokens of the configuration, `sysconf`, the tokens of the
directory and what `load_directory` returned. -/
structure ConfigLoad where
  toks : List (ConfigToken × List Char)
  conf : Sysconf
  directToks : List (DirectToken × List Char)
  directRet : Int

/-- **What `load_config` may come to**: an error of the device, the file system or the
configuration, or the configuration with its directory. What `load_directory` returns is not
looked at. -/
inductive LoadConfig (e2a : Char → Char) (env : ConfigEnv) :
    Option (Except Int ConfigLoad) → Prop
  | noDevice {ret} (h : env.device = .error ret) : LoadConfig e2a env (some (.error ret))
  | noFs {ret} (hdevice : env.device = .ok ()) (h : env.mount = .error ret) :
      LoadConfig e2a env (some (.error ret))
  | corrupt {toks ret} (hdevice : env.device = .ok ()) (hmount : env.mount = .ok ())
      (hparse : env.config.Parses e2a configKinds (IsConfig env.configHeap) toks (some ret))
      (hret : ret ≠ 0) : LoadConfig e2a env (some (.error (-ecorrupt)))
  | stopped {toks} (hdevice : env.device = .ok ()) (hmount : env.mount = .ok ())
      (hparse : env.config.Parses e2a configKinds (IsConfig env.configHeap) toks none) :
      LoadConfig e2a env none
  | directory {toks conf directToks ret} (hdevice : env.device = .ok ())
      (hmount : env.mount = .ok ())
      (hparse : env.config.Parses e2a configKinds (IsConfig env.configHeap) toks (some 0))
      (hconf : IsStmts (configSyms env.configHeap 0 toks) .zero conf)
      (hdirect : LoadDirectory e2a env.directHeap (env.directOf conf) directToks ret) :
      LoadConfig e2a env (ret.map fun ret => .ok ⟨toks, conf, directToks, ret⟩)

/-! ### What is claimed of a load -/

/-- **Both files were read as a whole**, and `load_directory` returned 0 for the one that
the configuration names. -/
structure ConfigEnv.Complete (env : ConfigEnv) (e2a : Char → Char) (load : ConfigLoad) :
    Prop where
  config : env.config.Complete e2a configKinds load.toks
  directory : (env.directOf load.conf).Complete e2a directKinds load.directToks
  ret : load.directRet = 0

/-- **No error of a record goes unnoticed.**  Nothing is mounted, or wherever the records in
front of one that is not read are a configuration, every record of both files is read or the
directory is refused. -/
def ConfigEnv.Noticed (env : ConfigEnv) (e2a : Char → Char) : Prop :=
  env.device ≠ .ok () ∨ env.mount ≠ .ok () ∨
    ∀ file n conf, env.config.Opens file → env.config.Stops file n →
      readConfig env.configHeap (env.config.readText e2a file n) = some conf →
      env.config.Whole ∧ (env.directOf conf).Whole ∨
        (env.directOf conf).Rejects e2a (readDirectory env.directHeap)

/-! ### Tokens and texts -/

section

variable {κ : Type} [DecidableEq κ] {K : TokenKinds κ} {src : RecSource} {e2a : Char → Char}
  {toks : List (κ × List Char)}

/-- **The tokens delivered are those of the records in front of one that is not read,** or
there are none. -/
theorem RecSource.Delivers.exists_stops (h : src.Delivers e2a K toks) (hne : toks ≠ []) :
    ∃ file n, src.Opens file ∧ src.Stops file n ∧
      scanTokens K (src.readText e2a file n) = some toks := by
  obtain ⟨fillss, s, ret, hrun, hret, rfl⟩ := h
  exact (RecSource.scan_stops hrun hret).resolve_left hne

/-- Where every record is read these are all of them. -/
theorem RecSource.Whole.complete {file : LexFile} {n : ℕ} (hwhole : src.Whole)
    (hopens : src.Opens file) (hstops : src.Stops file n)
    (htoks : scanTokens K (src.readText e2a file n) = some toks) : src.Complete e2a K toks := by
  have hread := hwhole file hopens
  refine ⟨file, hopens, hread, ?_⟩
  have hend : file.recs.length ≤ n := by
    by_contra hlt
    obtain ⟨e, herror⟩ := hstops.error
    have hn := not_le.1 hlt
    rw [RecSource.readRec_ok_iff.2 ⟨List.getElem?_eq_getElem hn, hread n hn⟩] at herror
    cases herror
  rw [← hread.readText_eq hend, htoks]

/-- A source that is scanned completely is readable as a whole. -/
theorem RecSource.Complete.whole (h : src.Complete e2a K toks) : src.Whole := by
  obtain ⟨file, hopens, hread, -⟩ := h
  intro file' hopens'
  obtain rfl := Except.ok.inj (hopens.lookup.symm.trans hopens'.lookup)
  exact hread

end

/-- A directory has a line. -/
theorem IsUsers.ne_nil {toks : List Sym} {users : List User} (h : IsUsers toks users) :
    toks ≠ [] := by
  cases h with
  | users => simp
  | user h =>
    cases h with
    | word => simp
    | num => simp
  | empty => simp

/-- A directory has tokens. -/
theorem ne_nil_of_isDirectory {heap : ℕ → List Char} {toks : List (DirectToken × List Char)}
    (h : IsDirectory heap toks) : toks ≠ [] := by
  rintro rfl
  obtain ⟨users, husers⟩ := h
  exact husers.ne_nil rfl

/-- A configuration has tokens. -/
theorem ne_nil_of_isConfig {heap : ℕ → List Char} {toks : List (ConfigToken × List Char)}
    (h : IsConfig heap toks) : toks ≠ [] := by
  rintro rfl
  obtain ⟨conf, hconf⟩ := h
  exact hconf.ne_nil rfl

/-! ### When a load returns 0 -/

variable {e2a : Char → Char}

/-- **The parser returns** exactly when the tokens delivered are ones it accepts, and then
returns 0. -/
theorem parses_some_iff {κ : Type} [DecidableEq κ] {K : TokenKinds κ} {src : RecSource}
    {accepts : List (κ × List Char) → Prop} {toks : List (κ × List Char)} {ret : Int} :
    src.Parses e2a K accepts toks (some ret) ↔
      ret = 0 ∧ src.Delivers e2a K toks ∧ accepts toks := by
  constructor
  · rintro (⟨hlex, h⟩ | _ | _)
    exact ⟨rfl, hlex, h⟩
  · rintro ⟨rfl, hlex, h⟩
    exact .accept hlex h

/-- **What `load_directory` returns, if it does, is 0:** a directory was delivered. -/
theorem loadDirectory_some_iff {heap : ℕ → List Char} {src : RecSource}
    {toks : List (DirectToken × List Char)} {ret : Int} :
    LoadDirectory e2a heap src toks (some ret) ↔
      ret = 0 ∧ src.Delivers e2a directKinds toks ∧ IsDirectory heap toks := by
  constructor
  · rintro ⟨parsed, hparse, hret⟩
    cases parsed with
    | none => exact nomatch hret
    | some parsed =>
      obtain ⟨rfl, hlex, h⟩ := parses_some_iff.1 hparse
      exact ⟨Option.some.inj hret, hlex, h⟩
  · rintro ⟨rfl, hlex, h⟩
    exact ⟨some 0, parses_some_iff.2 ⟨rfl, hlex, h⟩, rfl⟩

/-- **What a configuration that loads is**: device and mount succeed, the tokens delivered are
statements, and the directory they name loads. -/
theorem loadConfig_ok_iff {env : ConfigEnv} {load : ConfigLoad} :
    LoadConfig e2a env (some (.ok load)) ↔
      env.device = .ok () ∧ env.mount = .ok () ∧ env.config.Delivers e2a configKinds load.toks ∧
        IsStmts (configSyms env.configHeap 0 load.toks) .zero load.conf ∧
        LoadDirectory e2a env.directHeap (env.directOf load.conf) load.directToks
          (some load.directRet) := by
  constructor
  · intro h
    generalize hres : some (Except.ok load) = res at h
    cases h with
    | noDevice => exact nomatch hres
    | noFs => exact nomatch hres
    | corrupt => exact nomatch hres
    | stopped => exact nomatch hres
    | @directory toks conf directToks ret hdevice hmount hparse hconf hdirect =>
      cases ret with
      | none => exact nomatch hres
      | some ret =>
        obtain rfl := Except.ok.inj (Option.some.inj hres)
        exact ⟨hdevice, hmount, (parses_some_iff.1 hparse).2.1, hconf, hdirect⟩
  · rintro ⟨hdevice, hmount, hlex, hconf, hdirect⟩
    exact .directory hdevice hmount (.accept hlex ⟨_, hconf⟩) hconf hdirect

/-- A directory that is delivered is read. -/
theorem readDirectory_eq_some_iff {heap : ℕ → List Char} {text : List Char} {us : List User} :
    readDirectory heap text = some us ↔
      ∃ toks, scanTokens directKinds text = some toks ∧ IsUsers (lexSyms heap 0 toks) us := by
  rw [readDirectory, Option.bind_eq_some_iff]
  exact exists_congr fun toks => and_congr_right fun _ => isUsers_iff_readUsers.symm

/-- A configuration that is delivered is read. -/
theorem readConfig_eq_some_iff {heap : ℕ → List Char} {text : List Char} {conf : Sysconf} :
    readConfig heap text = some conf ↔
      ∃ toks, scanTokens configKinds text = some toks ∧
        IsStmts (configSyms heap 0 toks) .zero conf := by
  rw [readConfig, Option.bind_eq_some_iff]
  exact exists_congr fun toks => and_congr_right fun _ => isStmts_iff_readStmts.symm

/-- Records that are not refused are loaded. -/
theorem RecSource.exists_of_not_rejects {heap : ℕ → List Char} {src : RecSource}
    (h : ¬ src.Rejects e2a (readDirectory heap)) :
    ∃ toks, LoadDirectory e2a heap src toks (some 0) := by
  by_contra hnone
  refine h fun file n hopens hstops => Option.eq_none_iff_forall_not_mem.2 fun us hus => hnone ?_
  obtain ⟨toks, htoks, husers⟩ := readDirectory_eq_some_iff.1 hus
  exact ⟨toks, loadDirectory_some_iff.2
    ⟨rfl, RecSource.exists_scan hopens hstops htoks, us, husers⟩⟩

/-- **What is loaded was not refused.** -/
theorem RecSource.Rejects.not_loadDirectory {heap : ℕ → List Char} {src : RecSource}
    (h : src.Rejects e2a (readDirectory heap)) (toks : List (DirectToken × List Char)) :
    ¬ LoadDirectory e2a heap src toks (some 0) := by
  intro hload
  obtain ⟨-, hlex, us, husers⟩ := loadDirectory_some_iff.1 hload
  obtain ⟨file, n, hopens, hstops, htoks⟩ := hlex.exists_stops (ne_nil_of_isDirectory ⟨us, husers⟩)
  exact Option.some_ne_none us
    ((readDirectory_eq_some_iff.2 ⟨toks, htoks, husers⟩).symm.trans (h file n hopens hstops))

/-- A whole directory is loaded as a whole. -/
theorem RecSource.Whole.loadDirectory {heap : ℕ → List Char} {src : RecSource}
    (h : src.Whole) {toks : List (DirectToken × List Char)}
    (hload : LoadDirectory e2a heap src toks (some 0)) : src.Complete e2a directKinds toks := by
  obtain ⟨-, hlex, hdirectory⟩ := loadDirectory_some_iff.1 hload
  obtain ⟨file, n, hopens, hstops, htoks⟩ := hlex.exists_stops (ne_nil_of_isDirectory hdirectory)
  exact h.complete hopens hstops htoks

/-- **Nothing is left out of a directory, exactly when** every record of it is read, or
the lines in front of each record that is not are refused. -/
theorem directory_complete_iff {heap : ℕ → List Char} {src : RecSource} :
    (∀ toks, LoadDirectory e2a heap src toks (some 0) → src.Complete e2a directKinds toks) ↔
      src.Whole ∨ src.Rejects e2a (readDirectory heap) := by
  constructor
  · intro h
    refine or_iff_not_imp_right.2 fun hsome => ?_
    obtain ⟨toks, hload⟩ := RecSource.exists_of_not_rejects hsome
    exact (h toks hload).whole
  · rintro (hwhole | hrejects) toks hload
    · exact hwhole.loadDirectory hload
    · exact absurd hload (hrejects.not_loadDirectory toks)

/-- **Nothing is left out of the two files, exactly when** no error of a record goes
unnoticed. -/
theorem config_complete_iff {env : ConfigEnv} :
    (∀ load, LoadConfig e2a env (some (.ok load)) → env.Complete e2a load) ↔
      env.Noticed e2a := by
  constructor
  · intro h
    by_cases hdevice : env.device = .ok ()
    · by_cases hmount : env.mount = .ok ()
      · refine Or.inr (Or.inr fun file n conf hopens hstops hconf =>
          or_iff_not_imp_right.2 fun hsome => ?_)
        obtain ⟨toks, htoks, hstmts⟩ := readConfig_eq_some_iff.1 hconf
        obtain ⟨toks', hdirect⟩ := RecSource.exists_of_not_rejects hsome
        have hload := h ⟨toks, conf, toks', 0⟩ (loadConfig_ok_iff.2
          ⟨hdevice, hmount, RecSource.exists_scan hopens hstops htoks, hstmts, hdirect⟩)
        exact ⟨hload.config.whole, hload.directory.whole⟩
      · exact Or.inr (Or.inl hmount)
    · exact Or.inl hdevice
  · rintro h load hload
    obtain ⟨hdevice, hmount, hlex, hstmts, hdirect⟩ := loadConfig_ok_iff.1 hload
    obtain ⟨hret, -, -⟩ := loadDirectory_some_iff.1 hdirect
    rw [hret] at hdirect
    obtain ⟨file, n, hopens, hstops, htoks⟩ := hlex.exists_stops (ne_nil_of_isConfig ⟨_, hstmts⟩)
    rcases h with hno | hno | h
    · exact absurd hdevice hno
    · exact absurd hmount hno
    · rcases h file n load.conf hopens hstops (readConfig_eq_some_iff.2 ⟨_, htoks, hstmts⟩) with
        ⟨hwhole, hwhole'⟩ | hrejects
      · exact ⟨hwhole.complete hopens hstops htoks, hwhole'.loadDirectory hdirect, hret⟩
      · exact absurd hdirect (hrejects.not_loadDirectory _)

/-- **A load that returns 0 has read every record and delivered its tokens,** of the
directory and of both files, exactly when no error of a record goes unnoticed: every
record is read, or the lines in front of each record that is not are refused. -/
theorem config_whole_iff (e2a : Char → Char) :
    (∀ (heap : ℕ → List Char) (src : RecSource),
      (∀ toks, LoadDirectory e2a heap src toks (some 0) → src.Complete e2a directKinds toks) ↔
        src.Whole ∨ src.Rejects e2a (readDirectory heap)) ∧
    ∀ env : ConfigEnv, (∀ load, LoadConfig e2a env (some (.ok load)) → env.Complete e2a load) ↔
      env.Noticed e2a :=
  ⟨fun _ _ => directory_complete_iff, fun _ => config_complete_iff⟩

/-! ### A file of the device -/

section Device

variable (fst : DiskBlock) (disk : ℕ → DiskBlock) (fails : ℕ → Int) (s : Bcache)

/-- The cache of the file after its first records were read. -/
def edfCache : ℕ → Bcache
  | 0 => s
  | recno + 1 =>
    ((edfReadRec fst 4096 disk fails recno (fun _ => 0) (edfCache recno)).map fun r => r.2.2).getD
      (edfCache recno)

/-- What `edf_read_rec` returns for the record that is read next, and the bytes; an
assertion does not fail (`edfReadRec_isSome`). -/
def edfRecord (recno : ℕ) : Int × (ℕ → UInt8) :=
  ((edfReadRec fst 4096 disk fails recno (fun _ => 0) (edfCache fst disk fails s recno)).map
    fun r => (r.1, r.2.1)).getD (0, fun _ => 0)

/-- The file of `FST.AIC` records. -/
def edfLexFile : LexFile where
  lrecl := Fst.lrecl fst
  fixed := Fst.recfm fst = fstDFix
  recs := (List.range (Fst.aic fst)).map fun recno => (List.range (Fst.lrecl fst)).map fun i =>
    Char.ofNat ((edfRecord fst disk fails s recno).2 i).toNat

/-- The records as `edf_read_rec` reads them one after the other. -/
def edfSource : RecSource where
  lookup := .ok (edfLexFile fst disk fails s)
  errno recno := (edfRecord fst disk fails s recno).1.natAbs
  recs_length file hfile rec hrec := by
    obtain rfl := Except.ok.inj hfile
    obtain ⟨recno, -, rfl⟩ := List.mem_map.1 hrec
    rw [List.length_map, List.length_range]
    rfl

/-- **No assertion of `edf_read_rec` fails.** -/
theorem edfReadRec_isSome (recno : ℕ) (buf : ℕ → UInt8) :
    (edfReadRec fst 4096 disk fails recno buf s).isSome := by
  unfold edfReadRec
  by_cases hrefused : RecordRefused fst 4096 recno
  · simp [hrefused]
  have hlrecl : Fst.lrecl fst ≤ 4096 := by
    by_contra hlong
    exact hrefused (Or.inr (Or.inr (Or.inl (not_le.1 hlong))))
  dsimp only
  rw [if_neg hrefused]
  by_cases hover : Straddles fst 4096 recno
  · have hparts : 4096 - recordPos fst recno % 4096 < Fst.lrecl fst ∧
        Fst.lrecl fst - (4096 - recordPos fst recno % 4096) < Fst.lrecl fst := by
      have hoff := Nat.mod_lt (recordPos fst recno) (show 0 < 4096 by decide)
      have hsmall : recordPos fst recno % 4096 + Fst.lrecl fst < 2 ^ 32 := by omega
      rw [Straddles, Nat.mod_eq_of_lt hsmall] at hover
      omega
    rw [if_pos hover, if_neg (not_not.2 hparts)]
    split
    · rfl
    · split <;> rfl
  · rw [if_neg hover]
    split <;> rfl

end Device

/-! ### A record that is left out -/

/-- `ebcdic2ascii_table`. -/
def ebcdic2asciiTable : List ℕ :=
  [0x00, 0x01, 0x02, 0x03, 0x07, 0x09, 0x07, 0x7F, 0x07, 0x07, 0x07, 0x0B, 0x0C, 0x0D, 0x0E, 0x0F,
   0x10, 0x11, 0x12, 0x13, 0x07, 0x0A, 0x08, 0x07, 0x18, 0x19, 0x07, 0x07, 0x07, 0x07, 0x07, 0x07,
   0x07, 0x07, 0x1C, 0x07, 0x07, 0x0A, 0x17, 0x1B, 0x07, 0x07, 0x07, 0x07, 0x07, 0x05, 0x06, 0x07,
   0x07, 0x07, 0x16, 0x07, 0x07, 0x07, 0x07, 0x04, 0x07, 0x07, 0x07, 0x07, 0x14, 0x15, 0x07, 0x1A,
   0x20, 0xFF, 0x83, 0x84, 0x85, 0xA0, 0x07, 0x86, 0x87, 0xA4, 0x9B, 0x2E, 0x3C, 0x28, 0x2B, 0x7C,
   0x26, 0x82, 0x88, 0x89, 0x8A, 0xA1, 0x8C, 0x07, 0x8D, 0xE1, 0x21, 0x24, 0x2A, 0x29, 0x3B, 0xAA,
   0x2D, 0x2F, 0x07, 0x8E, 0x07, 0x07, 0x07, 0x8F, 0x80, 0xA5, 0x07, 0x2C, 0x25, 0x5F, 0x3E, 0x3F,
   0x07, 0x90, 0x07, 0x07, 0x07, 0x07, 0x07, 0x07, 0x70, 0x60, 0x3A, 0x23, 0x40, 0x27, 0x3D, 0x22,
   0x07, 0x61, 0x62, 0x63, 0x64, 0x65, 0x66, 0x67, 0x68, 0x69, 0xAE, 0xAF, 0x07, 0x07, 0x07, 0xF1,
   0xF8, 0x6A, 0x6B, 0x6C, 0x6D, 0x6E, 0x6F, 0x70, 0x71, 0x72, 0xA6, 0xA7, 0x91, 0x07, 0x92, 0x07,
   0xE6, 0x7E, 0x73, 0x74, 0x75, 0x76, 0x77, 0x78, 0x79, 0x7A, 0xAD, 0xAB, 0x07, 0x07, 0x07, 0x07,
   0x5E, 0x9C, 0x9D, 0xFA, 0x07, 0x07, 0x07, 0xAC, 0xAB, 0x07, 0x5B, 0x5D, 0x07, 0x07, 0x07, 0x07,
   0x7B, 0x41, 0x42, 0x43, 0x44, 0x45, 0x46, 0x47, 0x48, 0x49, 0x07, 0x93, 0x94, 0x95, 0xA2, 0x07,
   0x7D, 0x4A, 0x4B, 0x4C, 0x4D, 0x4E, 0x4F, 0x50, 0x51, 0x52, 0x07, 0x96, 0x81, 0x97, 0xA3, 0x98,
   0x5C, 0xF6, 0x53, 0x54, 0x55, 0x56, 0x57, 0x58, 0x59, 0x5A, 0xFD, 0x07, 0x99, 0x07, 0x07, 0x07,
   0x30, 0x31, 0x32, 0x33, 0x34, 0x35, 0x36, 0x37, 0x38, 0x39, 0x07, 0x07, 0x9A, 0x07, 0x07, 0x07]

/-- `ebcdic2ascii` of a character. -/
def ebcdic2ascii (c : Char) : Char := Char.ofNat (ebcdic2asciiTable.getD c.toNat 0)

/-- A directory of 52 records: one block has room for 51 of them. -/
def longDirectory : DiskBlock
  | 30 => 0xC6
  | 35 => 80
  | 43 => 7
  | 47 => 1
  | 51 => 52
  | 53 => 4
  | _ => 0

/-- `USER X G`, `STORAGE 1` and `CONSOLE 9 3215`. -/
def directoryLine : ℕ → List UInt8
  | 0 => [0xE4, 0xE2, 0xC5, 0xD9, 0x40, 0xE7, 0x40, 0xC7]
  | 1 => [0xE2, 0xE3, 0xD6, 0xD9, 0xC1, 0xC7, 0xC5, 0x40, 0xF1]
  | _ => [0xC3, 0xD6, 0xD5, 0xE2, 0xD6, 0xD3, 0xC5, 0x40, 0xF9, 0x40, 0xF3, 0xF2, 0xF1, 0xF5]

/-- The block of records of 80 bytes. -/
def directoryDisk (_ : ℕ) : DiskBlock := fun i => (directoryLine (i / 80)).getD (i % 80) 0x40

/-- The fourth allocation fails. -/
def fourthFails (n : ℕ) : Int := if n = 3 then 1 else 0

/-- The example's directory of 52 records on a disk whose fourth block cannot be read. -/
def longFile : LexFile := edfLexFile longDirectory directoryDisk fourthFails ⟨[], 0⟩

/-- The directory as it is read. -/
def longSource : RecSource := edfSource longDirectory directoryDisk fourthFails ⟨[], 0⟩

/-- The cache with the block. -/
def blockCached : Bcache := ⟨[⟨0, 0, 7, some (directoryDisk 7)⟩], 3⟩

/-- A record of the block is read. -/
theorem edfReadRec_long {recno : ℕ} (h : recno < 51) {s : Bcache}
    (hread : bcacheRead ⟨0, 7, 4096⟩ directoryDisk fourthFails 0 0 s =
      (.ok (directoryDisk 7), blockCached)) :
    edfReadRec longDirectory 4096 directoryDisk fourthFails recno (fun _ => 0) s =
      some (0, memcpy (fun _ => 0) 0 (directoryDisk 7) (80 * recno) 80, blockCached) := by
  have haic : Fst.aic longDirectory = 52 := by decide
  have hlrecl : Fst.lrecl longDirectory = 80 := by decide
  have hnlvl : Fst.nlvl longDirectory = 0 := by decide
  have hfop : Fst.fop longDirectory = 7 := by decide
  have hpos : recordPos longDirectory recno = 80 * recno := by
    rw [recordPos, hlrecl, Nat.mod_eq_of_lt (by omega), Nat.mul_comm]
  have hok : ¬ RecordRefused longDirectory 4096 recno := by
    rintro (h' | h' | h' | h' | h')
    · exact h' (by decide)
    · exact h' (by decide)
    · exact absurd h' (by decide)
    · exact h' (by decide)
    · omega
  have hin : ¬ Straddles longDirectory 4096 recno := by
    rw [Straddles, hpos, hlrecl, Nat.mod_eq_of_lt (show 80 * recno < 4096 by omega),
      Nat.mod_eq_of_lt (show 80 * recno + 80 < 2 ^ 32 by omega)]
    omega
  unfold edfReadRec
  dsimp only
  rw [if_neg hok, if_neg hin, hnlvl, hfop, hpos, hlrecl,
    Nat.div_eq_of_lt (show 80 * recno < 4096 by omega),
    Nat.mod_eq_of_lt (show 80 * recno < 4096 by omega), hread]

/-- Its first 51 records are read from the one block of the file. -/
theorem edfCache_long {recno : ℕ} (h : recno < 51) :
    bcacheRead ⟨0, 7, 4096⟩ directoryDisk fourthFails 0 0
      (edfCache longDirectory directoryDisk fourthFails ⟨[], 0⟩ recno) =
        (.ok (directoryDisk 7), blockCached) := by
  induction recno with
  | zero => rfl
  | succ recno ih =>
    rw [edfCache, edfReadRec_long (by omega) (ih (by omega))]
    rfl

/-- What is scanned of a record of the block. -/
theorem recText_long {recno : ℕ} (h : recno < 51) :
    longSource.recText ebcdic2ascii longFile recno = recordText ebcdic2ascii
      ((List.range 80).map fun i => Char.ofNat ((directoryLine recno).getD i 0x40).toNat) ++
        ['\n'] := by
  have hrecord : edfRecord longDirectory directoryDisk fourthFails ⟨[], 0⟩ recno =
      (0, memcpy (fun _ => 0) 0 (directoryDisk 7) (80 * recno) 80) := by
    rw [edfRecord, edfReadRec_long h (edfCache_long h)]
    rfl
  have haic : Fst.aic longDirectory = 52 := by decide
  have hlrecl : Fst.lrecl longDirectory = 80 := by decide
  refine RecSource.recText_of_ok (RecSource.readRec_ok_iff.2 ⟨?_, ?_⟩)
  · have hget : (List.range 52)[recno]? = some recno := List.getElem?_range (by omega)
    rw [longFile, edfLexFile, haic, hlrecl, List.getElem?_map, hget, Option.map_some, hrecord]
    refine congrArg some (List.map_congr_left fun i hi => ?_)
    have hi := List.mem_range.1 hi
    have hbyte : memcpy (fun _ => 0) 0 (directoryDisk 7) (80 * recno) 80 i =
        (directoryLine recno).getD i 0x40 := by
      unfold memcpy
      rw [if_pos (by omega), directoryDisk, show (80 * recno + (i - 0)) / 80 = recno by omega,
        show (80 * recno + (i - 0)) % 80 = i by omega]
    exact congrArg (fun b : UInt8 => Char.ofNat b.toNat) hbyte
  · show (edfRecord longDirectory directoryDisk fourthFails ⟨[], 0⟩ recno).1.natAbs = 0
    rw [hrecord]
    rfl

/-- The lines as they are scanned. -/
def longText : ℕ → List Char
  | 0 => "USER X G".toList
  | 1 => "STORAGE 1".toList
  | _ => "CONSOLE 9 3215".toList

/-- The text of each of them is its line. -/
theorem recText_longSource {recno : ℕ} (h : recno < 51) :
    longSource.recText ebcdic2ascii longFile recno = longText recno ++ ['\n'] := by
  rw [recText_long h]
  match recno with
  | 0 => decide +kernel
  | 1 => decide +kernel
  | recno + 2 =>
    show recordText ebcdic2ascii ((List.range 80).map fun i =>
      Char.ofNat ((directoryLine 2).getD i 0x40).toNat) ++ ['\n'] = longText 2 ++ ['\n']
    decide +kernel

/-- So the text read of them is the 51 lines. -/
theorem readText_longSource : longSource.readText ebcdic2ascii longFile 51
    = unlines ((List.range 51).map longText) := by
  rw [RecSource.readText, unlines, List.flatMap_map]
  exact List.flatMap_congr fun recno hrecno => recText_longSource (List.mem_range.1 hrecno)

/-- The file has one record more. -/
theorem longFile_length : longFile.recs.length = 52 := by
  rw [longFile, edfLexFile, List.length_map, List.length_range]
  decide

/-- The record in the next block is not read. -/
theorem longSource_error : ∃ e, longSource.readRec longFile 51 = .error e := by
  have herrno : longSource.errno 51 ≠ 0 := by decide +kernel
  cases hrec : longSource.readRec longFile 51 with
  | error e => exact ⟨e, rfl⟩
  | ok rec => exact absurd (RecSource.readRec_ok_iff.1 hrec).2 herrno

/-- Each of the 51 records is read. -/
theorem longSource_ok {recno : ℕ} (h : recno < 51) :
    ∃ rec, longSource.readRec longFile recno = .ok rec := by
  cases hrec : longSource.readRec longFile recno with
  | ok rec => exact ⟨rec, rfl⟩
  | error e =>
    have htext := recText_longSource h
    rw [RecSource.recText_of_error hrec] at htext
    exact absurd htext.symm (by simp)

/-- The file opens. -/
theorem longSource_opens : longSource.Opens longFile := ⟨rfl, by decide, by decide⟩

/-- Whatever the scanner is left with are the 51 records. -/
theorem longSource_stops {n : ℕ} (h : longSource.Stops longFile n) :
    longSource.readText ebcdic2ascii longFile n = longSource.readText ebcdic2ascii longFile 51 := by
  obtain ⟨e, herror⟩ := longSource_error
  have hle : 51 ≤ n := by
    by_contra hlt
    obtain ⟨e', herror'⟩ := h.error
    obtain ⟨rec, hrec⟩ := longSource_ok (not_le.1 hlt)
    rw [hrec] at herror'
    exact nomatch herror'
  have hend := h.le
  rw [longFile_length] at hend
  obtain rfl | rfl : n = 51 ∨ n = 52 := by omega
  · rfl
  · rw [RecSource.readText_succ, RecSource.recText_of_error herror, List.append_nil]

/-- They are a directory. -/
theorem loads_longSource : ∃ users,
    Loads (fun _ => []) (longSource.readText ebcdic2ascii longFile 51) users := by
  have hlines : (((List.range 51).map longText).mapM (tokens directKinds)).bind
      (fun tss => readLines (lineSyms (fun _ => []) 0 tss)) ≠ none := by
    decide +kernel
  obtain ⟨users, husers⟩ := Option.ne_none_iff_exists'.1 hlines
  refine ⟨users, ?_⟩
  rw [readText_longSource, loads_iff]
  · exact Option.bind_eq_some_iff.1 husers
  · decide +kernel

/-- **The record is not missed:** whatever calls of `YYFILL` there are, `load_directory`
returns 0 without it. -/
theorem not_config_whole :
    (∃ toks, LoadDirectory ebcdic2ascii (fun _ => []) longSource toks (some 0)) ∧
    ∀ toks ret, LoadDirectory ebcdic2ascii (fun _ => []) longSource toks ret →
      ret = some 0 ∧ ¬ longSource.Complete ebcdic2ascii directKinds toks := by
  obtain ⟨users, toks, hrules, husers⟩ := loads_longSource
  have htoks := scanTokens_of_tokens hrules
  have hstops : longSource.Stops longFile 51 :=
    ⟨by rw [longFile_length]; decide, longSource_error, longSource_ok (by decide)⟩
  have hall : scanTokens directKinds
      (longSource.readText ebcdic2ascii longFile longFile.recs.length) = some toks := by
    rw [longSource_stops ⟨le_rfl, ⟨_, RecSource.readRec_error_of_le le_rfl⟩, hstops.first⟩, htoks]
  refine ⟨⟨toks, loadDirectory_some_iff.2
    ⟨rfl, RecSource.exists_scan longSource_opens hstops htoks, users, husers⟩⟩, ?_⟩
  rintro toks' ret ⟨parsed, hparse, rfl⟩
  refine ⟨?_, fun hcomplete => ?_⟩
  · cases hparse with
    | accept => rfl
    | early hlex hnone =>
      obtain ⟨fillss, s, ret, hrun, hret, rfl⟩ := hlex
      obtain ⟨n, hn, hout⟩ :=
        RecSource.scan_stops_of_first longSource_opens hstops.first hrun hret
      rw [longSource_stops hn, htoks] at hout
      obtain hout := Option.some.inj hout
      exact absurd ⟨users, hout ▸ husers⟩ hnone
    | error hlex hnone =>
      obtain ⟨fillss, s, hrun, rfl⟩ := hlex
      obtain ⟨more, hmore⟩ := RecSource.scan_prefix longSource_opens hall hrun
      exact absurd ⟨users, by rw [hmore]; exact husers⟩ (hnone more)
  · have hread := hcomplete.whole longFile longSource_opens 51 (by rw [longFile_length]; decide)
    exact absurd hread (by decide +kernel)

end Hvf
