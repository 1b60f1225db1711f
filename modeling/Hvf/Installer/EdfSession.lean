/-
# Calls one after another

What the loader does with a mounted disk: it creates files, appends records to those it
has created and looks files up.  In every state that such calls lead to, the entries in
use have different names and each file that was created is one of them (`SessionOk`).

`find_file` does not look at `FST.AIC`.  A block that the directory grows into was free
before, and what it held then looks like entries (`edfLookups_exact`).
-/

import Hvf.Fs.Edf
import Hvf.Installer.EdfMount
import Hvf.Lib.StepRun

namespace Hvf

open Loader StepRun

/-! ### `create_file` -/

/-- The FST that `create_file` fills in. -/
def createdFst (ebcdic : UInt8 → UInt8) (fn ft : List UInt8) (lrecl : ℕ) : DiskBlock :=
  let name := edfName ebcdic fn ft
  setPtrAt (fun i =>
    if i < 16 then (name.fn ++ name.ft).getD i 0
    else if i = 24 then 0xc1
    else if i = 25 then 0xf1
    else if i = 30 then fstDFix
    else if i = 53 then 4
    else 0) 8 lrecl

/-- The steps of creating a file: the search for the name, the new entry, its record in the
directory. -/
theorem createFile_eq (s : Loader) (ebcdic : UInt8 → UInt8) (fn ft : List UInt8) (lrecl i : ℕ) :
    s.createFile ebcdic fn ft lrecl i =
      appendRecord { s with fsts := Function.update s.fsts i (createdFst ebcdic fn ft lrecl) }
        .directory (createdFst ebcdic fn ft lrecl) :=
  rfl

/-- The directory with one more entry. -/
theorem DirAppended.dirOk {s u : Loader} {fst : DiskBlock} (hu : DirAppended s u fst)
    (hd : DirOk s.view) (hnew : ∀ k < s.view.entries, s.view.entryName k ≠ Fst.name fst) :
    DirOk u.view := by
  have htwo := hd.two
  have hroom := hd.room
  have hold : ∀ k < s.view.entries, u.view.entryName k = s.view.entryName k := by
    intro k hk
    by_cases hzero : k = 0
    · rw [hzero]
      exact hu.same.name
    · exact (hu.old k (by omega) hzero (by omega)).name
  have hlast : u.view.entryName s.view.entries = Fst.name fst := hu.new.name
  constructor
  case director => rw [hold 0 (by omega), hd.director]
  case recfm => rw [hu.same.recfm, hd.recfm]
  case lrecl => rw [hu.same.lrecl, hd.lrecl]
  case allocmap => rw [hold 1 (by omega), hd.allocmap]
  case two => rw [hu.entries]; omega
  case room => exact hu.room
  case tight => exact hu.tight
  case blocks => exact hu.blocks
  case mapBlocks =>
    intro b hb
    rw [Fst.adbc, (hu.old 1 (by omega) (by decide) (by omega)).word (by decide)] at hb
    obtain ⟨lba, hlba, hne⟩ := hd.mapBlocks b hb
    exact ⟨lba, hu.touches.lba _ _ hlba, hne⟩
  case distinct =>
    intro k k' hk hk' heq
    rw [hu.entries, Nat.lt_succ_iff_lt_or_eq] at hk hk'
    rcases hk with hk | rfl
    · rw [hold k hk] at heq
      rcases hk' with hk' | rfl
      · rw [hold k' hk'] at heq
        exact hd.distinct k k' hk hk' heq
      · exact absurd (heq.trans hlast) (hnew k hk)
    · rw [hlast] at heq
      rcases hk' with hk' | rfl
      · rw [hold k' hk'] at heq
        exact absurd heq.symm (hnew k' hk')
      · rfl

/-! ### `append_record` -/

/-- The directory with an FST of the same name in an entry. -/
theorem DirOk.congr {v v' : View} (hd : DirOk v)
    (hlba : ∀ key lba, v.lba key = some lba → v'.lba key = some lba)
    (hzero : SameFst (v'.entry 0) (v.entry 0)) (hone : SameFst (v'.entry 1) (v.entry 1))
    (hname : ∀ k < v.entries, v'.entryName k = v.entryName k) : DirOk v' := by
  have hentries : v'.entries = v.entries := hzero.word (by decide)
  have hblocks : v'.dirBlocks = v.dirBlocks := hzero.word (by decide)
  constructor
  case director => rw [View.entryName, hzero.name, ← hd.director, View.entryName]
  case recfm => rw [← hd.recfm]; exact hzero 30 (by decide)
  case lrecl => rw [← hd.lrecl]; exact hzero.word (by decide)
  case allocmap => rw [View.entryName, hone.name, ← hd.allocmap, View.entryName]
  case two => rw [hentries]; exact hd.two
  case room => rw [hentries, hblocks]; exact hd.room
  case tight => rw [hentries, hblocks]; exact hd.tight
  case blocks =>
    intro b hb
    obtain ⟨lba, h, hne⟩ := hd.blocks b (hblocks ▸ hb)
    exact ⟨lba, hlba _ _ h, hne⟩
  case mapBlocks =>
    intro b hb
    rw [Fst.adbc, hone.word (by decide)] at hb
    obtain ⟨lba, h, hne⟩ := hd.mapBlocks b hb
    exact ⟨lba, hlba _ _ h, hne⟩
  case distinct =>
    rw [hentries]
    intro k k' hk hk' heq
    rw [hname k hk, hname k' hk'] at heq
    exact hd.distinct k k' hk hk' heq

/-- **`append_record` of a file that is in entry `k`**: its entry in the directory is the
caller's again, with a record more, and the other entries are as they were. -/
structure FileAppended (s u : Loader) (i k : ℕ) : Prop where
  disk : u.disk = s.disk
  nfst : u.nfst = s.nfst
  stray : u.stray = s.stray
  sound : Sound u
  fsts : ∀ j, j ≠ i → u.fsts j = s.fsts j
  name : Fst.name (u.fsts i) = Fst.name (s.fsts i)
  lba : ∀ key lba, s.view.lba key = some lba → u.view.lba key = some lba
  entry : SameFst (u.view.entry k) (u.fsts i)
  old : ∀ k' < 64 * s.view.dirBlocks, k' ≠ k → SameFst (u.view.entry k') (s.view.entry k')

/-- **`update_directory` writes the entry of the file**, and nothing else of the directory is
changed. -/
theorem fileAppended_of_appendRecord {s u : Loader} {i k : ℕ} {buf : ℕ → UInt8} (hs : Sound s)
    (hnfst : s.nfst = 64) (hd : DirOk s.view) (htwo : 2 ≤ k) (hk : k < s.view.entries)
    (hfile : SameFst (s.view.entry k) (s.fsts i)) (hfits : AppendFits s.view (s.fsts i))
    (h : s.appendRecord (.caller i) buf = some u) : FileAppended s u i k := by
  have hroom := hd.room
  have hname : s.view.entryName k = Fst.name (s.fsts i) := hfile.name
  -- it is neither the directory nor the allocation map
  have hdirector : Fst.name (s.fsts i) ≠ directorName := by
    rw [← hname, ← hd.director]
    intro heq
    have := hd.distinct k 0 hk (by omega) heq
    omega
  obtain ⟨w, hsame, ht, hupdate⟩ :=
    touches_record_caller hs hd.readableMap hd.dirKey_ne_none hfits h
  have hentry : ∀ k' < 64 * s.view.dirBlocks, w.view.entry k' = s.view.entry k' := by
    intro k' hk'
    obtain ⟨lba, hlba, -⟩ := hd.blocks (k' / 64) (by omega)
    refine View.entry_congr (ht.content _ (by rw [hlba]; exact Option.some_ne_none lba) ?_)
    rintro (hmap | hfile)
    · exact absurd hmap (by decide : directorName ≠ allocmapName)
    · exact hdirector hfile.symm
  have hw : DirOk w.view := by
    refine hd.congr ht.lba ?_ ?_ fun k' hk' => ?_
    · rw [hentry 0 (by omega)]
      exact SameFst.refl _
    · rw [hentry 1 (by omega)]
      exact SameFst.refl _
    · rw [View.entryName, hentry k' (by omega), View.entryName]
  rw [updateDirectory] at hupdate
  obtain ⟨k', -, hfirst, hview, ht'⟩ := updateBlocks_spec ht.sound (ht.nfst.trans hnfst) hupdate
  have hentries : w.view.entries = s.view.entries := by
    rw [View.entries, hentry 0 (by omega), View.entries]
  have hk' : k' = k := hw.firstAt (by rw [hentries]; exact hk)
    (by rw [View.entryName, hentry k (by omega), fst_caller, hsame.name]; exact hname) hfirst
  subst hk'
  have hfst : ∀ j, u.fsts j = w.fsts j := fun j => ht'.fsts j (by rintro ⟨⟩)
  constructor
  case disk => rw [ht'.disk, ht.disk]
  case nfst => rw [ht'.nfst, ht.nfst]
  case stray => rw [ht'.stray, ht.stray]
  case sound => exact ht'.sound
  case fsts =>
    intro j hj
    rw [hfst, ht.fsts j fun heq => hj (FstPtr.caller.inj heq).symm]
  case name => rw [hfst, hsame.name]
  case lba => exact fun key lba hlba => ht'.lba key lba (ht.lba key lba hlba)
  case entry =>
    intro j hj
    rw [hview, View.entry_store _ _ _ _ hj, if_pos rfl, hfst]
    rfl
  case old =>
    intro k' hk' hne j hj
    rw [hview, View.entry_store _ _ _ _ hj, if_neg hne, hentry k' hk']

namespace FileAppended

variable {s u : Loader} {i k : ℕ}

/-- An append to a file that is not the directory leaves the number of entries. -/
theorem entries (hu : FileAppended s u i k) (hd : DirOk s.view) (htwo : 2 ≤ k) :
    u.view.entries = s.view.entries := by
  have hroom := hd.room
  have htwo' := hd.two
  exact (hu.old 0 (by omega) (by omega)).word (by decide)

/-- The names are as they were. -/
theorem entryName (hu : FileAppended s u i k) (hd : DirOk s.view)
    (hfile : SameFst (s.view.entry k) (s.fsts i)) {k' : ℕ} (hk' : k' < s.view.entries) :
    u.view.entryName k' = s.view.entryName k' := by
  have hroom := hd.room
  by_cases hkk : k' = k
  · rw [hkk, View.entryName, hu.entry.name, hu.name, ← hfile.name, View.entryName]
  · exact (hu.old k' (by omega) hkk).name

/-- An append to a file that is not the directory keeps the directory in order. -/
theorem dirOk (hu : FileAppended s u i k) (hd : DirOk s.view) (htwo : 2 ≤ k)
    (hfile : SameFst (s.view.entry k) (s.fsts i)) : DirOk u.view := by
  have hroom := hd.room
  have htwo' := hd.two
  exact hd.congr hu.lba (hu.old 0 (by omega) (by omega)) (hu.old 1 (by omega) (by omega))
    fun _ hk' => hu.entryName hd hfile hk'

end FileAppended

/-! ### Sessions -/

/-- **A session of the installer**: a mounted disk, and the FSTs that `create_file` has
filled in. -/
structure EdfSession where
  loader : Loader
  files : List ℕ

/-- **A call of the installer's file system**: a file is created, a record appended to the file
of the caller's `i`-th entry, or a file searched for. -/
inductive EdfCall
  | create (fn ft : List UInt8) (lrecl i : ℕ)
  | append (i : ℕ) (buf : ℕ → UInt8)
  | find (fn ft : List UInt8)

section

variable (ebcdic : UInt8 → UInt8)

/-- A call that does not `die`. -/
def EdfStep (t : EdfSession) (call : EdfCall) (t' : EdfSession) : Prop :=
  match call with
  | .create fn ft lrecl i =>
      t.loader.createFile ebcdic fn ft lrecl i = some t'.loader ∧ t'.files = i :: t.files
  | .append i buf =>
      i ∈ t.files ∧ t.loader.appendRecord (.caller i) buf = some t'.loader ∧ t'.files = t.files
  | .find fn ft =>
      (t.loader.findFile ebcdic fn ft).map Prod.snd = some t'.loader ∧ t'.files = t.files

/-- What a call is to meet.  `create_file` is for a name that no entry in use has, and all
writes are inside of blocks; `find_file` is for a name that an entry in use has, or that
no slot behind them has either. -/
def EdfMeets (t : EdfSession) : EdfCall → Prop
  | .create fn ft lrecl _ =>
      t.loader.view.entries < 2 ^ 26 ∧
        (∀ k < t.loader.view.entries,
          t.loader.view.entryName k ≠ Fst.name (createdFst ebcdic fn ft lrecl)) ∧
        (t.loader.view.entries = 64 * t.loader.view.dirBlocks →
          PointerFits t.loader.view (t.loader.view.entry 0))
  | .append i _ => AppendFits t.loader.view (t.loader.fsts i)
  | .find fn ft =>
      (∃ k < t.loader.view.entries, t.loader.view.entryName k = edfName ebcdic fn ft) ∨
        ∀ k < 64 * t.loader.view.dirBlocks, t.loader.view.entries ≤ k →
          t.loader.view.entryName k ≠ edfName ebcdic fn ft

/-- What `find_file` is to answer: 0 with the FST of the entry in use that has the name, or
-1 if there is none. -/
def LookupRight (v : View) (name : FileName) : Option DiskBlock → Prop
  | some fst => ∃ k < v.entries, v.entryName k = name ∧ SameFst fst (v.entry k)
  | none => ∀ k < v.entries, v.entryName k ≠ name

/-- `update_directory` wrote the FST to the one entry in use with its name, and to no other
of those that are `kept`. -/
structure Overwritten (v v' : View) (fst : DiskBlock) (k : ℕ) (kept : ℕ → Prop) : Prop where
  live : k < v'.entries
  written : SameFst (v'.entry k) fst
  only : ∀ k' < v'.entries, v'.entryName k' = Fst.name fst → k' = k
  others : ∀ k' < 64 * v.dirBlocks, k' ≠ k → kept k' → SameFst (v'.entry k') (v.entry k')

/-- What a call is to do. -/
def EdfExact (t : EdfSession) (call : EdfCall) (t' : EdfSession) : Prop :=
  match call with
  | .create _ _ _ i =>
      Overwritten t.loader.view t'.loader.view (t'.loader.fst .directory) 0
          (fun k => k ≠ t.loader.view.entries) ∧
        t'.loader.view.entries = t.loader.view.entries + 1 ∧
        SameFst (t'.loader.view.entry t.loader.view.entries) (t'.loader.fsts i)
  | .append i _ =>
      t'.loader.view.entries = t.loader.view.entries ∧
        ∃ k, Overwritten t.loader.view t'.loader.view (t'.loader.fsts i) k fun _ => True
  | .find fn ft =>
      ∃ ret, t.loader.findFile ebcdic fn ft = some (ret, t'.loader) ∧
        LookupRight t.loader.view (edfName ebcdic fn ft) ret ∧
        ∀ i ∈ t.files, Fst.name (t.loader.fsts i) = edfName ebcdic fn ft →
          ∃ fst, ret = some fst ∧ SameFst fst (t.loader.fsts i)

/-- **The directory of a session is in order**: every file created is in an entry behind the
first two, by its own name, and no write went astray. -/
structure SessionOk (t : EdfSession) : Prop where
  sound : Sound t.loader
  nfst : t.loader.nfst = 64
  stray : t.loader.stray = false
  dir : DirOk t.loader.view
  file : ∀ i ∈ t.files, ∃ k, 2 ≤ k ∧ k < t.loader.view.entries ∧
    SameFst (t.loader.view.entry k) (t.loader.fsts i)
  apart : ∀ i ∈ t.files, ∀ j ∈ t.files,
    Fst.name (t.loader.fsts i) = Fst.name (t.loader.fsts j) → i = j

end

section

variable {ebcdic : UInt8 → UInt8} {t t' : EdfSession} {fn ft : List UInt8} {lrecl i : ℕ}
  {buf : ℕ → UInt8}

/-- A file is created. -/
theorem SessionOk.create (h : SessionOk t)
    (hmeets : EdfMeets ebcdic t (.create fn ft lrecl i))
    (hstep : EdfStep ebcdic t (.create fn ft lrecl i) t') :
    SessionOk t' ∧ EdfExact ebcdic t (.create fn ft lrecl i) t' := by
  obtain ⟨hsmall, hnew, hfits⟩ := hmeets
  obtain ⟨hcreate, hfiles⟩ := hstep
  set fst := createdFst ebcdic fn ft lrecl with hfst
  rw [createFile_eq, ← hfst] at hcreate
  -- the FST of the caller is filled in first
  have hsound : Sound { t.loader with fsts := Function.update t.loader.fsts i fst } :=
    ⟨h.sound.keys, h.sound.dirty, h.sound.clean, h.sound.directory⟩
  have hu := dirAppended_of_appendRecord hsound h.nfst h.dir hsmall hfits hcreate
  have hdir : DirOk t'.loader.view := hu.dirOk h.dir hnew
  have htwo := h.dir.two
  have hroom := h.dir.room
  have hfstEq : ∀ j, t'.loader.fsts j = Function.update t.loader.fsts i fst j := fun j =>
    hu.touches.fsts j nofun
  have hself : t'.loader.fsts i = fst := by rw [hfstEq, Function.update_self]
  have hother : ∀ j, j ≠ i → t'.loader.fsts j = t.loader.fsts j := fun j hj => by
    rw [hfstEq, Function.update_of_ne hj]
  have hentry : SameFst (t'.loader.view.entry t.loader.view.entries) (t'.loader.fsts i) := by
    rw [hself]
    exact hu.new
  have hold : ∀ k < t.loader.view.entries, k ≠ 0 →
      SameFst (t'.loader.view.entry k) (t.loader.view.entry k) := fun k hk hne =>
    hu.old k (by show k < 64 * t.loader.view.dirBlocks; omega) hne (Nat.ne_of_lt hk)
  -- the new name is that of no other file
  have hapart : ∀ j ∈ t.files, j ≠ i →
      Fst.name (t'.loader.fsts j) ≠ Fst.name (t'.loader.fsts i) := by
    intro j hj hne
    obtain ⟨k, -, hk, hfile⟩ := h.file j hj
    rw [hother j hne, hself, ← hfile.name]
    exact hnew k hk
  refine ⟨⟨hu.touches.sound, hu.touches.nfst.trans h.nfst, hu.touches.stray.trans h.stray, hdir,
    fun j hj => ?_, fun j hj j' hj' heq => ?_⟩, ⟨?_, ?_, fun k hk hname => ?_, hu.old⟩, hu.entries,
    hentry⟩
  · by_cases hji : j = i
    · subst hji
      exact ⟨_, htwo, by rw [hu.entries]; exact Nat.lt_succ_self _, hentry⟩
    · rw [hfiles] at hj
      obtain ⟨k, hk₂, hk, hfile⟩ := h.file j ((List.mem_cons.1 hj).resolve_left hji)
      refine ⟨k, hk₂, by rw [hu.entries]; exact Nat.lt_succ_of_lt hk, ?_⟩
      rw [hother j hji]
      exact (hold k hk (by omega)).trans hfile
  · rw [hfiles] at hj hj'
    by_cases hji : j = i
    · by_cases hji' : j' = i
      · rw [hji, hji']
      · rw [hji] at heq
        exact absurd heq.symm (hapart j' ((List.mem_cons.1 hj').resolve_left hji') hji')
    · have hjm := (List.mem_cons.1 hj).resolve_left hji
      by_cases hji' : j' = i
      · rw [hji'] at heq
        exact absurd heq (hapart j hjm hji)
      · rw [hother j hji, hother j' hji'] at heq
        exact h.apart j hjm j' ((List.mem_cons.1 hj').resolve_left hji') heq
  · rw [hu.entries]
    exact Nat.succ_pos _
  · rw [DirOk.fst_directory]
    exact SameFst.refl _
  · rw [DirOk.fst_directory] at hname
    exact hdir.distinct k 0 hk (by rw [hu.entries]; exact Nat.succ_pos _) hname

/-- A record is appended to a file. -/
theorem SessionOk.append (h : SessionOk t) (hmeets : EdfMeets ebcdic t (.append i buf))
    (hstep : EdfStep ebcdic t (.append i buf) t') :
    SessionOk t' ∧ EdfExact ebcdic t (.append i buf) t' := by
  obtain ⟨hi, happend, hfiles⟩ := hstep
  obtain ⟨k, hk₂, hk, hfile⟩ := h.file i hi
  have hu := fileAppended_of_appendRecord h.sound h.nfst h.dir hk₂ hk hfile hmeets happend
  have hroom := h.dir.room
  have hentries := hu.entries h.dir hk₂
  -- the names of the files are as they were
  have hnames : ∀ j, Fst.name (t'.loader.fsts j) = Fst.name (t.loader.fsts j) := by
    intro j
    by_cases hji : j = i
    · rw [hji, hu.name]
    · rw [hu.fsts j hji]
  refine ⟨⟨hu.sound, hu.nfst.trans h.nfst, hu.stray.trans h.stray,
    hu.dirOk h.dir hk₂ hfile, fun j hj => ?_, fun j hj j' hj' heq => ?_⟩, hentries, k,
    ⟨by rw [hentries]; exact hk, hu.entry,
      fun k' hk' hname' => ?_, fun k' hk' hne _ => hu.old k' hk' hne⟩⟩
  · rw [hfiles] at hj
    obtain ⟨k', hk₂', hk', hfile'⟩ := h.file j hj
    refine ⟨k', hk₂', by rw [hentries]; exact hk', ?_⟩
    by_cases hji : j = i
    · subst hji
      rw [h.dir.distinct k' k hk' hk (hfile'.name.trans hfile.symm.name)]
      exact hu.entry
    · have hne : k' ≠ k := by
        rintro rfl
        exact hji (h.apart j hj i hi (hfile'.symm.name.trans hfile.name))
      rw [hu.fsts j hji]
      exact (hu.old k' (by omega) hne).trans hfile'
  · rw [hfiles] at hj hj'
    rw [hnames, hnames] at heq
    exact h.apart j hj j' hj' heq
  · rw [hentries] at hk'
    rw [hu.entryName h.dir hfile hk', hu.name, ← hfile.name] at hname'
    exact h.dir.distinct k' k hk' hk hname'

/-- **A lookup is right exactly if** an entry in use has the name, or no slot behind them. -/
theorem DirOk.lookupRight_iff {v : View} {name : FileName} {ret : Option DiskBlock} (hd : DirOk v)
    (hans : Answers v name 0 (64 * v.dirBlocks) ret) :
    LookupRight v name ret ↔ (∃ k < v.entries, v.entryName k = name) ∨
      ∀ k < 64 * v.dirBlocks, v.entries ≤ k → v.entryName k ≠ name := by
  have hroom := hd.room
  cases ret with
  | some fst =>
    obtain ⟨k, hk, hfirst, rfl⟩ := hans
    constructor
    · rintro ⟨k', hk', hname, -⟩
      exact Or.inl ⟨k', hk', hname⟩
    · rintro (⟨k', hk', hname⟩ | hnone)
      · rw [hd.firstAt hk' hname hfirst]
        exact ⟨k', hk', hname, SameFst.refl _⟩
      · have hlive : k < v.entries := by
          by_contra hstale
          exact hnone k hk (by omega) hfirst.named
        exact ⟨k, hlive, hfirst.named, SameFst.refl _⟩
  | none =>
    exact iff_of_true (fun k hk => hans k (Nat.zero_le k) (by omega))
      (Or.inr fun k hk _ => hans k (Nat.zero_le k) hk)

/-- A file is looked up. -/
theorem SessionOk.find (h : SessionOk t) (ebcdic : UInt8 → UInt8) (fn ft : List UInt8) :
    ∃ t', EdfStep ebcdic t (.find fn ft) t' ∧ SessionOk t' ∧
      (EdfExact ebcdic t (.find fn ft) t' ↔ EdfMeets ebcdic t (.find fn ft)) := by
  have hblocks : ∀ b < 0 + t.loader.view.dirBlocks,
      ∃ lba, t.loader.view.lba ⟨directorName, 0, b⟩ = some lba ∧ lba ≠ 0 := fun b hb =>
    h.dir.blocks b (by omega)
  obtain ⟨ret, u, hfind, hview, ht, hans⟩ := findBlocks_spec (edfName ebcdic fn ft) h.sound
    h.nfst hblocks
  have hfind' : t.loader.findFile ebcdic fn ft = some (ret, u) := by
    rw [findFile, DirOk.fst_directory]
    exact hfind
  have hright := h.dir.lookupRight_iff (by rwa [Nat.mul_zero, Nat.zero_add] at hans)
  refine ⟨⟨u, t.files⟩, ⟨by rw [hfind']; rfl, rfl⟩, ?_, ?_, fun hmeets => ?_⟩
  · have hfsts : u.fsts = t.loader.fsts := funext fun j => ht.fsts j nofun
    refine ⟨ht.sound, ht.nfst.trans h.nfst, ht.stray.trans h.stray, ?_, ?_, ?_⟩
    · show DirOk u.view
      rw [hview]
      exact h.dir
    · show ∀ i ∈ t.files, ∃ k, 2 ≤ k ∧ k < u.view.entries ∧ SameFst (u.view.entry k) (u.fsts i)
      rw [hview, hfsts]
      exact h.file
    · show ∀ i ∈ t.files, ∀ j ∈ t.files, Fst.name (u.fsts i) = Fst.name (u.fsts j) → i = j
      rw [hfsts]
      exact h.apart
  · rintro ⟨ret', hret', hlookup, -⟩
    obtain ⟨rfl, -⟩ := Prod.mk.inj (Option.some.inj (hfind'.symm.trans hret'))
    exact hright.1 hlookup
  · have hlookup := hright.2 hmeets
    refine ⟨ret, hfind', hlookup, fun i hi hname => ?_⟩
    -- the file is in an entry in use
    obtain ⟨k, -, hk, hfile⟩ := h.file i hi
    have hkname : t.loader.view.entryName k = edfName ebcdic fn ft := hfile.name.trans hname
    cases ret with
    | none => exact absurd hkname (hlookup k hk)
    | some fst =>
      obtain ⟨k', hk', hname', hfst⟩ := hlookup
      obtain rfl := h.dir.distinct k' k hk' hk (hname'.trans hkname.symm)
      exact ⟨fst, rfl, hfst.trans hfile⟩

/-- **One call keeps the session's invariant**, and does exactly what it is for. -/
theorem SessionOk.step {call : EdfCall} (h : SessionOk t) (hmeets : EdfMeets ebcdic t call)
    (hstep : EdfStep ebcdic t call t') : SessionOk t' ∧ EdfExact ebcdic t call t' := by
  cases call with
  | create fn ft lrecl i => exact h.create hmeets hstep
  | append i buf => exact h.append hmeets hstep
  | find fn ft =>
    obtain ⟨⟨u, files⟩, ⟨hfind, hfiles⟩, hok, hexact⟩ := h.find ebcdic fn ft
    obtain ⟨hfind', hfiles'⟩ := hstep
    obtain ⟨u', files'⟩ := t'
    obtain rfl := Option.some.inj (hfind.symm.trans hfind')
    obtain rfl : files' = files := hfiles'.trans hfiles.symm
    exact ⟨hok, hexact.2 hmeets⟩

/-- **Lookups see the entries in use.**  In every state that calls which meet their conditions
lead to, from a well-formed disk, no write went outside of a block; the next such call is
exact; and a lookup is exact only if it meets its condition. -/
theorem edfLookups_exact {disk fsts : ℕ → DiskBlock} {s : Loader} {calls : List EdfCall}
    (hdisk : WellFormedDisk disk) (hmount : mountFs disk fsts = some s)
    (hrun : Run (guarded (EdfMeets ebcdic) (EdfStep ebcdic)) ⟨s, []⟩ calls t) :
    t.loader.stray = false ∧
      (∀ call t', EdfMeets ebcdic t call → EdfStep ebcdic t call t' → EdfExact ebcdic t call t') ∧
      ∀ fn ft, ∃ t', EdfStep ebcdic t (.find fn ft) t' ∧
        (EdfExact ebcdic t (.find fn ft) t' ↔ EdfMeets ebcdic t (.find fn ft)) := by
  obtain ⟨hpristine, hnfst, hstray, hdir⟩ := mountFs_dirOk hdisk hmount
  have hstart : SessionOk ⟨s, []⟩ := ⟨hpristine.sound, hnfst, hstray, hdir, nofun, nofun⟩
  have hok : SessionOk t := hrun.invariant (P := SessionOk) hstart fun _ _ _ h hstep =>
    (h.step hstep.1 hstep.2).1
  refine ⟨hok.stray, fun call t' hmeets hstep => (hok.step hmeets hstep).2, fun fn ft => ?_⟩
  obtain ⟨t', hstep, -, hexact⟩ := hok.find ebcdic fn ft
  exact ⟨t', hstep, hexact⟩

end

/-! ### A full directory -/

/-- An FST of an empty file. -/
def emptyFst (k : ℕ) : List UInt8 :=
  UInt8.ofNat (0xC0 + k) :: List.replicate 15 0x40 ++ List.replicate 14 0 ++ [0xC6, 0, 0, 0, 0, 80]
    ++ List.replicate 17 0 ++ [4] ++ List.replicate 10 0

/-- A block of the directory with 64 entries. -/
def fullDirectory : DiskBlock := fun i =>
  if i < 64 then (fstBytes directorName 64).getD i 0
  else if i = 64 + 43 then 6
  else if i < 128 then (fstBytes allocmapName 1).getD (i - 64) 0
  else (emptyFst (i / 64)).getD (i % 64) 0

/-- A disk with this directory in block 5 and the allocation map in block 6.  The first
block that is free is block 7, which was a block of a directory. -/
def fullDisk (lba : ℕ) : DiskBlock := fun i =>
  if lba = 3 then labelBytes.getD i 0
  else if lba = 5 then fullDirectory i
  else if lba = 6 then (if i = 0 then 0xFC else 0)
  else if lba = 7 then
    (List.replicate 64 0 ++ fstBytes (edfName ebcdicLetter oldFn oldFt) 1).getD i 0
  else 0

/-- `NEWFILES NEWTYPES`. -/
def newFn : List UInt8 := [0x4E, 0x45, 0x57, 0x46, 0x49, 0x4C, 0x45, 0x53]

/-- The file type, as it is before it is translated. -/
def newFt : List UInt8 := [0x4E, 0x45, 0x57, 0x54, 0x59, 0x50, 0x45, 0x53]

/-- `fullDisk` mounted. -/
@[irreducible] def fullLoader : Loader :=
  (mountFs fullDisk fun _ _ => 0).getD (firstListed fullDisk fun _ _ => 0)

/-- The same with one file more. -/
@[irreducible] def newLoader : Loader :=
  (fullLoader.createFile ebcdicLetter newFn newFt 80 0).getD fullLoader

/-- The example's volume mounts, by evaluation. -/
theorem mountFs_fullDisk : mountFs fullDisk (fun _ _ => 0) = some fullLoader := by
  unfold fullLoader
  exact (Option.getD_of_ne_none (Option.isSome_iff_ne_none.1 (by decide +kernel)) _).symm

/-- The first call of the example, by evaluation. -/
theorem edfStep_fullLoader :
    EdfStep ebcdicLetter ⟨fullLoader, []⟩ (.create newFn newFt 80 0) ⟨newLoader, [0]⟩ := by
  refine ⟨?_, rfl⟩
  unfold newLoader
  exact (Option.getD_of_ne_none (Option.isSome_iff_ne_none.1 (by decide +kernel)) _).symm

/-- The example's volume has directory and map in order. -/
theorem wellFormedDisk_fullDisk : WellFormedDisk fullDisk where
  nfst := by decide +kernel
  lrecl := by decide +kernel
  two := by decide +kernel
  room := by decide +kernel
  tight := by decide +kernel
  directory := ⟨by decide +kernel, by decide +kernel⟩
  allocmap := ⟨by decide +kernel, by decide +kernel⟩
  small := by decide +kernel
  distinct := by
    have haic : Fst.aic (diskDir fullDisk) = 64 := by decide +kernel
    have hnodup : ((List.range 64).map fun k => Fst.name (diskEntry fullDisk k)).Nodup := by
      decide +kernel
    rw [haic]
    exact fun k k' hk hk' heq =>
      List.inj_on_of_nodup_map hnodup (List.mem_range.2 hk) (List.mem_range.2 hk') heq

/-- The example's call meets the condition. -/
theorem edfMeets_fullLoader :
    EdfMeets ebcdicLetter ⟨fullLoader, []⟩ (.create newFn newFt 80 0) := by
  have hnlvl : Fst.nlvl (fullLoader.view.entry 0) = 0 := by decide +kernel
  refine ⟨by decide +kernel, by decide +kernel,
    fun _ l (hl : l < Fst.nlvl (fullLoader.view.entry 0)) => ?_⟩
  rw [hnlvl] at hl
  exact absurd hl (Nat.not_lt_zero l)

/-- The example's run of one guarded call. -/
theorem run_fullLoader : Run (guarded (EdfMeets ebcdicLetter) (EdfStep ebcdicLetter))
    ⟨fullLoader, []⟩ ([] ++ [.create newFn newFt 80 0]) ⟨newLoader, [0]⟩ :=
  Run.snoc Run.nil ⟨edfMeets_fullLoader, edfStep_fullLoader⟩

/-- A name that only old data has is found, once the directory has grown into them: the new
directory block is not cleared. -/
theorem not_edfLookups_exact : ¬ ∀ (ebcdic : UInt8 → UInt8) (disk fsts : ℕ → DiskBlock) (s : Loader)
    (calls : List EdfCall) (t : EdfSession), WellFormedDisk disk → mountFs disk fsts = some s →
      Run (EdfStep ebcdic) ⟨s, []⟩ calls t → ∀ fn ft t', EdfStep ebcdic t (.find fn ft) t' →
        EdfExact ebcdic t (.find fn ft) t' := by
  intro h
  have hfound : ((newLoader.findFile ebcdicLetter oldFn oldFt).any fun r => r.1.isSome) = true := by
    decide +kernel
  have hnone : ∀ k < newLoader.view.entries,
      newLoader.view.entryName k ≠ edfName ebcdicLetter oldFn oldFt := by decide +kernel
  rw [Option.any_eq_true] at hfound
  obtain ⟨⟨ret, u⟩, hfind, hsome⟩ := hfound
  obtain ⟨fst, rfl⟩ := Option.isSome_iff_exists.1 hsome
  have hstep : EdfStep ebcdicLetter ⟨newLoader, [0]⟩ (.find oldFn oldFt) ⟨u, [0]⟩ := by
    refine ⟨?_, rfl⟩
    show (newLoader.findFile ebcdicLetter oldFn oldFt).map Prod.snd = some u
    rw [hfind]
    rfl
  obtain ⟨ret', hfind', hright, -⟩ := h ebcdicLetter fullDisk _ fullLoader _ ⟨newLoader, [0]⟩
    wellFormedDisk_fullDisk mountFs_fullDisk run_fullLoader.of_guarded oldFn oldFt _ hstep
  obtain ⟨rfl, -⟩ := Prod.mk.inj (Option.some.inj (hfind.symm.trans hfind'))
  obtain ⟨k, hk, hname, -⟩ := hright
  exact hnone k hk hname

/-- After `create_file` of a new file both calls are exact: the name is found, and another
is not. -/
theorem edfLookups_exact_new : newLoader.stray = false ∧
    (∀ call t', EdfMeets ebcdicLetter ⟨newLoader, [0]⟩ call →
      EdfStep ebcdicLetter ⟨newLoader, [0]⟩ call t' →
        EdfExact ebcdicLetter ⟨newLoader, [0]⟩ call t') ∧
    ∀ fn ft, ∃ t', EdfStep ebcdicLetter ⟨newLoader, [0]⟩ (.find fn ft) t' ∧
      (EdfExact ebcdicLetter ⟨newLoader, [0]⟩ (.find fn ft) t' ↔
        EdfMeets ebcdicLetter ⟨newLoader, [0]⟩ (.find fn ft)) :=
  edfLookups_exact wellFormedDisk_fullDisk mountFs_fullDisk run_fullLoader

end Hvf
