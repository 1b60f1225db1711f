/-
# Files that the installer wrote

The installer and the nucleus have file systems of their own: `installer/edf.c` writes a
volume, `cp/fs/edf.c` reads one.  A volume that sessions of the one have written is one that
the other mounts, and a lookup of a file that was created returns the FST that its entry
holds.  `edf_read_rec` delivers the records of such a file in order if they fit in one
block, and refuses all of them if they do not (`installed_records`).
-/

import Hvf.Fs.EdfRecord
import Hvf.Installer.EdfDurable

namespace Hvf

open PtrTree StepRun

/-! ### The volume is mounted -/

section

variable {disk : ℕ → DiskBlock} {fails : ℕ → Int} {fs : EdfFs}

/-- **What `edf_mount` reads**: the block size, where the directory is and how many entries
are scanned, from the label, and the directory's own entry. -/
structure NucleusMounted (disk : ℕ → DiskBlock) (fs : EdfFs) : Prop where
  dbsiz : fs.dbsiz = 4096
  dop : fs.dop = ptrAt (disk 3) 4
  nfst : fs.nfst = ptrAt (disk 3) 10
  dir : fs.dir.fst = fstAt (disk (ptrAt (disk 3) 4)) 0

/-- **What the mount leaves.** A volume that `edf.c` mounts has its label in the block the label
is in, and the directory's entry in the block the label names. -/
theorem nucleusMounted (hmount : edfMount disk fails = .ok fs) : NucleusMounted disk fs := by
  unfold edfMount at hmount
  dsimp only at hmount
  split at hmount
  case isTrue => cases hmount
  split at hmount
  case isTrue => cases hmount
  split at hmount
  case isTrue => cases hmount
  case isFalse hadt =>
    rw [not_or, not_or, not_not, not_not] at hadt
    obtain ⟨-, calls, rfl⟩ := EdfFs.initDir_ok hmount
    exact ⟨hadt.2.1, rfl, rfl, rfl⟩

/-- An entry as the nucleus reads it from a block and as the installer writes it are the same 64
bytes. -/
theorem sameFst_fstAt (block : DiskBlock) (i : ℕ) : SameFst (fstAt block i) (Loader.slot block i) :=
  fun _ hj => if_pos hj

namespace NucleusMounted

/-- The directory's own entry is the one the installer keeps. -/
theorem sameFst_dir (h : NucleusMounted disk fs) : SameFst fs.dir.fst (diskDir disk) := by
  have hzero := sameFst_fstAt (diskDir disk) 0
  rw [slot_zero] at hzero
  rw [h.dir]
  exact hzero

/-- The blocks of the directory are where the installer finds them. -/
theorem dirBlock_eq (h : NucleusMounted disk fs) (b : ℕ) :
    fs.dirBlock disk b = disk (dataLba disk (diskDir disk) b) := by
  have htree := h.sameFst_dir.treeOf_eq
  have hnlvl : Fst.nlvl fs.dir.fst = Fst.nlvl (diskDir disk) := congrArg Tree.nlvl htree
  have hfop : Fst.fop fs.dir.fst = Fst.fop (diskDir disk) := congrArg Tree.fop htree
  rw [EdfFs.dirBlock, h.dbsiz, hnlvl, hfop]
  rfl

/-- The `k`-th entry of the mounted directory is the `k`-th entry on the disk. -/
theorem sameFst_dirEntry (h : NucleusMounted disk fs) (k : ℕ) :
    SameFst (fs.dirEntry disk k) (diskEntry disk k) := by
  rw [EdfFs.dirEntry, h.dirBlock_eq]
  exact sameFst_fstAt _ _

/-- A mountable volume's directory is in the form that the lookup relies on. -/
theorem dirOk (h : NucleusMounted disk fs) (hdisk : MountableVolume disk) : fs.DirOk disk := by
  have hsame := h.sameFst_dir
  have htree := hsame.treeOf_eq
  have hnlvl : Fst.nlvl fs.dir.fst = Fst.nlvl (diskDir disk) := congrArg Tree.nlvl htree
  have hadbc : Fst.adbc fs.dir.fst = Fst.adbc (diskDir disk) := congrArg Tree.adbc htree
  have hfop : Fst.fop fs.dir.fst = Fst.fop (diskDir disk) := congrArg Tree.fop htree
  have haic : Fst.aic fs.dir.fst = Fst.aic (diskDir disk) := hsame.word (by decide)
  constructor
  case height =>
    rw [hadbc, hnlvl]
    exact hdisk.directory.height
  case aic_le =>
    rw [hadbc, haic]
    exact hdisk.room
  case adbc_le =>
    rw [hadbc, haic]
    exact hdisk.tight
  case dop =>
    rw [h.dbsiz, hnlvl, hfop, h.dop, ← hdisk.dop]
    rfl

/-- The name of an entry in use is first in that entry. -/
theorem firstEntry_eq (h : NucleusMounted disk fs) (hdisk : MountableVolume disk) {k : ℕ}
    (hk : k < Fst.aic (diskDir disk)) :
    fs.firstEntry disk (Fst.name (diskEntry disk k)) = some k := by
  have haic : Fst.aic fs.dir.fst = Fst.aic (diskDir disk) := h.sameFst_dir.word (by decide)
  refine List.find?_range_eq_some.2 ⟨decide_eq_true (h.sameFst_dirEntry k).name,
    List.mem_range.2 (by rwa [haic]), fun j hj => ?_⟩
  rw [Bool.not_eq_true', decide_eq_false_iff_not, (h.sameFst_dirEntry j).name]
  intro heq
  have := hdisk.distinct j k (by omega) hk heq
  omega

/-- A lookup of an entry in use. -/
theorem lookupOk (h : NucleusMounted disk fs) (hdisk : MountableVolume disk) {k : ℕ}
    (hk : k < Fst.aic (diskDir disk)) :
    fs.LookupOk disk (Fst.name (diskEntry disk k)) := by
  have haic : Fst.aic fs.dir.fst = Fst.aic (diskDir disk) := h.sameFst_dir.word (by decide)
  have hnfst : fs.nfst = 64 := h.nfst.trans hdisk.nfst
  rw [EdfFs.LookupOk]
  split
  · rw [haic]
    omega
  · rw [h.firstEntry_eq hdisk hk]
    exact ⟨by rw [hnfst]; exact Nat.mod_lt k (by decide), Or.inr hnfst.le⟩

end NucleusMounted

/-- **The nucleus mounts the volume**, if nothing fails. -/
theorem edfMount_returns (hdisk : MountableVolume disk) (hfails : ∀ n, fails n = 0) :
    ∃ fs, edfMount disk fails = .ok fs := by
  have hzero := sameFst_fstAt (diskDir disk) 0
  have hone := sameFst_fstAt (diskDir disk) 1
  rw [slot_zero] at hzero
  have hname : Fst.name (fstAt (diskDir disk) 0) = directorName := hzero.name.trans hdisk.names.1
  have hmap : Fst.name (fstAt (diskDir disk) 1) = allocmapName := hone.name.trans hdisk.names.2
  have hfix : Fst.recfm (fstAt (diskDir disk) 0) = fstDFix :=
    (hzero 30 (by decide)).trans hdisk.recfms.1
  have hmapFix : Fst.recfm (fstAt (diskDir disk) 1) = fstDFix :=
    (hone 30 (by decide)).trans hdisk.recfms.2
  rw [diskDir] at hname hmap hfix hmapFix
  rw [edfMount, if_neg (by simp [hfails]), if_neg (by simp [hfails])]
  simp [hdisk.ident, hdisk.dbsiz, hdisk.offst, hdisk.fstsz, EdfFs.initDir, hfails, hname, hmap,
    hfix, hmapFix, EdfFs.allocFile, bcacheAdd]

end

/-! ### Records -/

/-- The file is in one block. -/
def NewFile.Fits (file : NewFile) : Prop := file.recs.length * file.lrecl ≤ 4096

/-- What a call of `edf_read_rec` for a record of a file is to do: the record is put into
`buf`, unless a block is not read; a record behind the last one is refused, as is any
record of a file that is in more than one block. -/
def RecordCall.Delivers (file : NewFile) (fails : ℕ → Int) (c : RecordCall) : Prop :=
  ∃ ret buf, c.result = some (ret, buf) ∧
    (∀ r, file.Fits → file.recs[c.recno]? = some r →
      (ret ≠ 0 → ∃ n, fails n ≠ 0) ∧
      (ret = 0 → ∀ i, buf i = if i < file.lrecl then r i else c.buf i)) ∧
    (¬ file.Fits ∨ file.recs.length ≤ c.recno → ret = -einval ∧ buf = c.buf)

section

variable {disk : ℕ → DiskBlock} {fails : ℕ → Int} {fst : DiskBlock} {file : NewFile}

namespace FileExact

/-- A file fits the loader's one pointer block exactly when its tree has no pointer level. -/
theorem fits_iff (h : FileExact fst (diskByte disk fst) file) : file.Fits ↔ Fst.nlvl fst = 0 := by
  have hclog : Fst.nlvl fst = 0 ↔ Fst.adbc fst ≤ 1 := by
    rw [h.nlvl, ← Nat.le_zero, Nat.clog_le_iff_le_pow (by norm_num), pow_zero]
  rw [hclog, h.adbc, NewFile.Fits]
  omega

/-- The record is refused if the file is in more blocks, or has no such record. -/
theorem refused_iff (h : FileExact fst (diskByte disk fst) file) (recno : ℕ) :
    RecordRefused fst 4096 recno ↔ ¬ file.Fits ∨ file.recs.length ≤ recno := by
  have hptrsz : Fst.ptrsz fst = 4 := by
    rw [Fst.ptrsz, h.ptrsz]
    rfl
  rw [RecordRefused, h.fits_iff, h.recfm, h.aic, hptrsz, h.lrecl]
  constructor
  · rintro (hnlvl | hptr | hlrecl | hrecfm | haic)
    · exact Or.inl hnlvl
    · exact absurd rfl hptr
    · -- records of more than a block
      by_cases hsome : file.recs.length ≤ recno
      · exact Or.inr hsome
      · refine Or.inl fun hnlvl => ?_
        have hfits := h.fits_iff.2 hnlvl
        rw [NewFile.Fits] at hfits
        have hle := Nat.le_mul_of_pos_left file.lrecl (show 0 < file.recs.length by omega)
        omega
    · exact absurd rfl hrecfm
    · exact Or.inr haic
  · rintro (hnlvl | haic)
    · exact Or.inl hnlvl
    · exact Or.inr (Or.inr (Or.inr (Or.inr haic)))

/-- **A record** that is asked for. -/
theorem delivers (h : FileExact fst (diskByte disk fst) file) {s : RecordReads} (recno : ℕ)
    (buf : ℕ → UInt8) (hone : Fst.nlvl fst = 0 →
      OneBlock (dataBlock fst none disk 0) (Fst.fop fst) disk s.cache) :
    RecordCall.Delivers file fails ⟨recno, buf,
      (edfReadRec fst 4096 disk fails recno buf s.cache).map fun r => (r.1, r.2.1)⟩ := by
  by_cases hrefused : RecordRefused fst 4096 recno
  · refine ⟨-einval, buf, by rw [edfReadRec_refused hrefused]; rfl, fun r hfits hr => ?_,
      fun _ => ⟨rfl, rfl⟩⟩
    obtain ⟨hlt, -⟩ := List.getElem?_eq_some_iff.1 hr
    rcases (h.refused_iff recno).1 hrefused with hmore | hlast
    · exact absurd hfits hmore
    · exact absurd hlt (Nat.not_lt.2 hlast)
  · have hnlvl : Fst.nlvl fst = 0 := not_not.1 fun hn => hrefused (Or.inl hn)
    obtain ⟨ret, buf', s', hread⟩ := (hone hnlvl).record hrefused fails buf
    refine ⟨ret, buf', by rw [hread.result]; rfl, fun r hfits hr => ⟨fun hret => ?_, ?_⟩,
      fun hnot => absurd ((h.refused_iff recno).2 hnot) hrefused⟩
    · obtain ⟨n, -, hn⟩ := not_not.1 fun hf => hret (hread.zero_iff.2 hf)
      exact ⟨_, hn⟩
    · obtain ⟨hlt, -⟩ := List.getElem?_eq_some_iff.1 hr
      have hle : (recno + 1) * file.lrecl ≤ file.recs.length * file.lrecl :=
        Nat.mul_le_mul_right _ hlt
      rw [NewFile.Fits] at hfits
      have hin : RecordInFile fst recno := by
        rw [RecordInFile, h.lrecl, h.adbc]
        rw [Nat.add_one_mul] at hle ⊢
        omega
      intro hret i
      obtain ⟨ret', buf'', hresult, hright⟩ := hin.right hrefused hread
      obtain ⟨rfl, rfl⟩ := Prod.mk.inj (Option.some.inj hresult)
      obtain ⟨-, hbytes, hrest⟩ := hright hret
      rw [h.lrecl] at hbytes hrest
      split
      case isTrue hi =>
        have hbyte := hbytes i hi
        have hpos : (recno * file.lrecl + i) / 4096 = 0 := by
          rw [Nat.add_one_mul] at hle
          exact Nat.div_eq_of_lt (by omega)
        have hrec := h.bytes recno r hr i hi
        rw [edfByte, hpos] at hbyte
        rw [diskByte, hpos, dataLba, hnlvl] at hrec
        split_ifs at hbyte
        have hbase : dataBlock fst none disk 0 = Fst.fop fst := by
          show (mountedFile (Fst.nlvl fst) (Fst.fop fst)).lba disk (Fst.nlvl fst) 0 = Fst.fop fst
          rw [hnlvl]
          rfl
        rw [hbase] at hbyte
        exact (Option.some.inj hbyte).symm.trans hrec
      case isFalse hi => exact hrest i (Nat.le_of_not_lt hi)

/-- **All calls** for records of the file. -/
theorem delivers_run (h : FileExact fst (diskByte disk fst) file) {es : List RecordEvent}
    {s : RecordReads} (hrun : Run (ReadsRecord fst disk fails) ⟨.initial none, []⟩ es s) :
    ∀ c ∈ s.calls, c.Delivers file fails := by
  refine (hrun.invariant (P := fun s => (Fst.nlvl fst = 0 →
      OneBlock (dataBlock fst none disk 0) (Fst.fop fst) disk s.cache) ∧
      ∀ c ∈ s.calls, c.Delivers file fails)
    ⟨oneBlock_initial, fun c hc => absurd hc List.not_mem_nil⟩ ?_).2
  intro s e u ⟨hone, hcalls⟩ hstep
  refine ⟨fun hnlvl => oneBlock_step hnlvl (hone hnlvl) hstep, ?_⟩
  subst hstep
  cases e with
  | block blk => exact hcalls
  | record recno buf =>
    intro c hc
    rcases List.mem_append.1 hc with hold | hnew
    · exact hcalls c hold
    · obtain rfl := List.mem_singleton.1 hnew
      exact h.delivers recno buf hone

end FileExact

end

/-! ### Lookups -/

section

variable {disk : ℕ → DiskBlock} {fails : ℕ → Int} {name : FileName} {s : EdfFs} {k : ℕ}

/-- A block of 64 slots is scanned to its end or to the name. -/
theorem scanBlock_name (block : DiskBlock) (name : FileName) {n i : ℕ} (h64 : i + n ≤ 64) :
    ∃ r, scanBlock block name n i = some r ∧ ∀ fst, r = some fst → Fst.name fst = name := by
  induction n generalizing i with
  | zero => exact ⟨none, rfl, fun fst h => absurd h.symm (Option.some_ne_none fst)⟩
  | succ n ih =>
    rw [scanBlock, if_neg (by omega)]
    split_ifs with hname
    · exact ⟨_, rfl, fun fst h => Option.some.inj h ▸ hname⟩
    · exact ih (by omega)

/-- **A scan of the directory for any name** ends, and what it finds has the name, also where
it is behind the entries. -/
theorem NucleusMounted.scanDir_name (h : NucleusMounted disk s) (hdisk : MountableVolume disk)
    (fails : ℕ → Int) (name : FileName) {n blk : ℕ} {b : Bcache} (hb : BcacheInv s.dirFile disk b)
    (hn : blk + n ≤ Fst.adbc s.dir.fst) :
    ∃ r b', s.scanDir disk fails name n blk b = some (r, b') ∧ BcacheInv s.dirFile disk b' ∧
      ∀ fst, r = .ok fst → Fst.name fst = name := by
  induction n generalizing blk b with
  | zero => exact ⟨_, b, rfl, hb, fun fst hfst => by cases hfst⟩
  | succ n ih =>
    obtain ⟨r, b', hread, hinv, -, hres⟩ := s.bcacheRead_spec fails (h.dirOk hdisk) h.dbsiz hb
      (show blk < Fst.adbc s.dir.fst by omega)
    rw [EdfFs.scanDir, hread]
    rcases hres with rfl | ⟨e, rfl, -⟩
    · have hnfst : s.nfst = 64 := h.nfst.trans hdisk.nfst
      obtain ⟨found, hscan, hname⟩ := scanBlock_name (s.dirBlock disk blk) name
        (show 0 + s.nfst ≤ 64 by omega)
      dsimp only
      rw [hscan]
      cases found with
      | none => exact ih hinv (by omega)
      | some fst => exact ⟨_, b', rfl, hinv, fun fst' hfst => Except.ok.inj hfst ▸ hname fst rfl⟩
    · exact ⟨_, b', rfl, hinv, fun fst hfst => by cases hfst⟩

/-- The first entry is that of the directory. -/
theorem MountableVolume.name_zero (h : MountableVolume disk) :
    Fst.name (diskEntry disk 0) = directorName := by
  have hentry : diskEntry disk 0 = diskDir disk := by
    show Loader.slot (disk (dataLba disk (diskDir disk) 0)) 0 = diskDir disk
    rw [h.dop, slot_zero]
    rfl
  rw [hentry, h.names.1]

/-- **Whatever was looked up before,** a file on the list that has the name of entry `k` has
its FST. -/
structure EntryInv (disk : ℕ → DiskBlock) (k : ℕ) (s : EdfFs) : Prop where
  mounted : NucleusMounted disk s
  ids : s.Ids
  bcache : BcacheInv s.dirFile disk s.bcache
  file : ∀ file ∈ s.files, Fst.name file.fst = Fst.name (diskEntry disk k) →
    file.fst = s.dirEntry disk k

/-- The directory, which is alone on the list, has another name. -/
theorem EntryInv.of_mount (hdisk : MountableVolume disk) (hmount : edfMount disk fails = .ok s)
    (hzero : k ≠ 0) (hk : k < Fst.aic (diskDir disk)) : EntryInv disk k s := by
  have hmounted := nucleusMounted hmount
  have hinv := EdfFs.mount_inv hmount (hmounted.dirOk hdisk)
  refine ⟨hmounted, hinv.ids, hinv.bcache, fun file hfile hname => ?_⟩
  rcases hinv.files file hfile with rfl | ⟨j, hfirst, hfst⟩
  · have heq : Fst.name (diskEntry disk 0) = Fst.name (diskEntry disk k) := by
      rw [← hname, hinv.dirFst, (hmounted.sameFst_dirEntry 0).name]
    exact absurd (hdisk.distinct 0 k (by omega) hk heq).symm hzero
  · rw [hname, hmounted.firstEntry_eq hdisk hk] at hfirst
    rw [hfst, ← Option.some.inj hfirst]

/-- **A lookup of any name.**  For the name of the entry it returns the FST, or an allocation
or a read failed. -/
theorem EntryInv.lookup (h : EntryInv disk k s) (hdisk : MountableVolume disk) (hzero : k ≠ 0)
    (hk : k < Fst.aic (diskDir disk)) (fails : ℕ → Int) (name : FileName) :
    ∃ r s', s.lookup disk fails name = some (r, s') ∧ EntryInv disk k s' ∧
      (name = Fst.name (diskEntry disk k) →
        (∀ e, r = .error e → Failed fails s.bcache s'.bcache) ∧
        ∀ file, r = .ok file → file.fst = s.dirEntry disk k) := by
  cases hfind : s.files.find? fun file => Fst.name file.fst = name with
  | some file =>
    have hfile := List.mem_of_find?_eq_some hfind
    have hname : Fst.name file.fst = name := by simpa using List.find?_some hfind
    refine ⟨_, s, EdfFs.lookup_hit hfind, h, fun heq => ⟨(fun e he => by cases he), ?_⟩⟩
    intro file' hok
    obtain rfl := Except.ok.inj hok
    exact h.file file hfile (hname.trans heq)
  | none =>
    have hmounted (files : List FsFile) (b : Bcache) (count : ℕ) :
        NucleusMounted disk { s with files, bcache := b, count } :=
      ⟨h.mounted.dbsiz, h.mounted.dop, h.mounted.nfst, h.mounted.dir⟩
    have hbcache : BcacheInv s.dirFile disk { s.bcache with calls := s.bcache.calls + 1 } :=
      ⟨h.bcache.entries, h.bcache.keys⟩
    rw [EdfFs.lookup_miss h.ids hfind]
    split_ifs with hfail
    · refine ⟨_, _, rfl, ⟨hmounted _ _ _, h.ids, hbcache, h.file⟩, fun _ => ⟨fun e he =>
        ⟨s.bcache.calls, le_rfl, Nat.lt_succ_self _, hfail⟩, fun file hok => by cases hok⟩⟩
    obtain ⟨r, b, hscan, hb, hname⟩ := h.mounted.scanDir_name hdisk fails name hbcache
      (show 0 + Fst.adbc s.dir.fst ≤ Fst.adbc s.dir.fst by omega)
    -- the answer for the name of the entry, which is not that of the directory
    have hright : name = Fst.name (diskEntry disk k) →
        r = .ok (s.dirEntry disk k) ∨ ∃ e, r = .error e ∧
          Failed fails { s.bcache with calls := s.bcache.calls + 1 } b := by
      intro heq
      have hother : name ≠ directorName := by
        rw [heq, ← hdisk.name_zero]
        exact fun hnames => hzero (hdisk.distinct k 0 hk (by omega) hnames)
      have hspec := EdfFs.scanDir_spec fails (h.mounted.dirOk hdisk) h.mounted.dbsiz hother
        (heq ▸ h.mounted.lookupOk hdisk hk) hbcache
      obtain ⟨r', b', hscan', -, -, hres⟩ := hspec
      obtain ⟨rfl, rfl⟩ := Prod.mk.inj (Option.some.inj (hscan.symm.trans hscan'))
      rw [EdfFs.answer, heq, h.mounted.firstEntry_eq hdisk hk] at hres
      exact hres
    rw [hscan, Option.map_some]
    cases r with
    | error e =>
      refine ⟨_, _, rfl, ⟨hmounted _ _ _, fun file hfile => Nat.lt_succ_of_lt (h.ids file hfile),
        hb, h.file⟩, fun heq => ⟨fun e' _ => ?_, fun file hok => by cases hok⟩⟩
      rcases hright heq with hok | ⟨-, -, hfailed⟩
      · cases hok
      · exact hfailed.mono (Nat.le_succ _)
    | ok fst =>
      have hfst : name = Fst.name (diskEntry disk k) → fst = s.dirEntry disk k := fun heq => by
        rcases hright heq with hok | ⟨e, herr, -⟩
        · exact Except.ok.inj hok
        · cases herr
      refine ⟨_, _, rfl, ⟨hmounted _ _ _, fun file hfile => ?_, hb, fun file hfile hentry => ?_⟩,
        fun heq => ⟨(fun e he => by cases he), fun file hok => ?_⟩⟩
      · rcases List.mem_append.1 hfile with hfile | hfile
        · exact Nat.lt_succ_of_lt (h.ids file hfile)
        · rw [List.mem_singleton.1 hfile]
          exact Nat.lt_succ_self _
      · rcases List.mem_append.1 hfile with hfile | hfile
        · exact h.file file hfile hentry
        · rw [List.mem_singleton.1 hfile] at hentry ⊢
          exact hfst ((hname fst rfl).symm.trans hentry)
      · obtain rfl := Except.ok.inj hok
        exact hfst heq

end

/-- The bytes of a file depend on its entry only through the 64 bytes. -/
theorem SameFst.diskByte_eq {fst fst' : DiskBlock} (h : SameFst fst fst') (disk : ℕ → DiskBlock)
    (pos : ℕ) : diskByte disk fst pos = diskByte disk fst' pos := by
  have htree := h.treeOf_eq
  have hnlvl : Fst.nlvl fst = Fst.nlvl fst' := congrArg Tree.nlvl htree
  have hfop : Fst.fop fst = Fst.fop fst' := congrArg Tree.fop htree
  rw [diskByte, diskByte, dataLba, dataLba, hnlvl, hfop]

/-- **The nucleus reads what the installer wrote.**  Behind any number of sessions the
volume is mounted, if nothing fails.  After lookups of any names, also of such that are in no
entry, a lookup of a file that a session created returns a file, or an allocation or a read
failed; and each call of `edf_read_rec` for that file delivers the record, or is refused where
the file has no such record or is in more than one block. -/
theorem installed_records {ebcdic : UInt8 → UInt8} (ebcdic' : UInt8 → UInt8) {v v' : Volume}
    {es : List ((ℕ → DiskBlock) × List VolumeCall)} (hdisk : MountableVolume v.disk)
    (hrun : Run (SessionStep ebcdic) v es v') :
    (∃ fs, edfMount v'.disk (fun _ => 0) = .ok fs) ∧
      ∀ fails fs ls s, edfMount v'.disk fails = .ok fs →
        Run (lookupStep v'.disk fails ebcdic') fs ls s →
        ∀ k, Fst.aic (diskDir v.disk) ≤ k → k < Fst.aic (diskDir v'.disk) →
        ∀ fn ft, edfName ebcdic' fn ft = (v'.files k).name →
          ∃ r s', edfLookup v'.disk fails ebcdic' fn ft s = some (r, s') ∧
            (∀ e, r = .error e → Failed fails s.bcache s'.bcache) ∧
            ∀ file, r = .ok file → ∀ fails' rs u,
              Run (ReadsRecord file.fst v'.disk fails') ⟨.initial none, []⟩ rs u →
              ∀ c ∈ u.calls, c.Delivers (v'.files k) fails' := by
  have h := durable_of_run hdisk hrun
  refine ⟨edfMount_returns h.disk fun _ => rfl, ?_⟩
  intro fails fs ls s hmount hlookups k hk hlt fn ft hname
  have hzero : k ≠ 0 := by
    have htwo := h.two
    omega
  have hs : EntryInv v'.disk k s := by
    refine hlookups.invariant (EntryInv.of_mount h.disk hmount hzero hlt) ?_
    rintro t l u ht ⟨r, hstep⟩
    obtain ⟨r', u', hlookup, hu, -⟩ := ht.lookup h.disk hzero hlt fails (edfName ebcdic' l.1 l.2)
    obtain ⟨-, rfl⟩ := Prod.mk.inj (Option.some.inj (hlookup.symm.trans hstep))
    exact hu
  have hexact := h.new k hk hlt
  obtain ⟨r, s', hlookup, -, hright⟩ := hs.lookup h.disk hzero hlt fails (edfName ebcdic' fn ft)
  obtain ⟨herror, hfound⟩ := hright (hname.trans hexact.name.symm)
  refine ⟨r, s', hlookup, herror, fun file hfile fails' rs u hreads => ?_⟩
  have hsame := hs.mounted.sameFst_dirEntry k
  rw [← hfound file hfile] at hsame
  refine (hexact.congr hsame fun pos _ => ?_).delivers_run hreads
  rw [hsame.diskByte_eq]

/-- `NEWFILES NEWTYPES` is found behind a lookup of a name that only old data has, and a
lookup of the file itself; and its two records are read. -/
theorem installed_records_new : ∃ disk fs s file s', edfMount disk (fun _ => 0) = .ok fs ∧
    Run (lookupStep disk (fun _ => 0) ebcdicLetter) fs [(oldFn, oldFt), (newFn, newFt)] s ∧
    edfLookup disk (fun _ => 0) ebcdicLetter newFn newFt s = some (.ok file, s') ∧
    ∀ fails rs u, Run (ReadsRecord file.fst disk fails) ⟨.initial none, []⟩ rs u →
      ∀ c ∈ u.calls, c.Delivers (newFileOf [blankRecord, letterRecord]) fails := by
  obtain ⟨v, hrun, haic, hfile⟩ := run_newSession
  have hdisk := (durable_of_run mountableVolume_fullDisk hrun).disk
  obtain ⟨⟨fs, hmount⟩, hreads⟩ :=
    installed_records ebcdicLetter mountableVolume_fullDisk hrun
  have hentry := EntryInv.of_mount (k := 64) hdisk hmount (by decide) (by omega)
  obtain ⟨r₁, s₁, hold, hentry₁, -⟩ := hentry.lookup hdisk (by decide) (by omega) (fun _ => 0)
    (edfName ebcdicLetter oldFn oldFt)
  obtain ⟨r₂, s₂, hnew, -⟩ := hentry₁.lookup hdisk (by decide) (by omega) (fun _ => 0)
    (edfName ebcdicLetter newFn newFt)
  have hlookups : Run (lookupStep v.disk (fun _ => 0) ebcdicLetter) fs
      [(oldFn, oldFt), (newFn, newFt)] s₂ := Run.snoc (Run.snoc Run.nil ⟨r₁, hold⟩) ⟨r₂, hnew⟩
  have hname : edfName ebcdicLetter newFn newFt = (v.files 64).name := by
    rw [hfile]
    decide +kernel
  obtain ⟨r, s', hlookup, herror, hok⟩ := hreads _ fs _ s₂ hmount hlookups 64 (by decide +kernel)
    (by omega) newFn newFt hname
  rw [hfile] at hok
  cases r with
  | error e =>
    obtain ⟨n, -, -, hn⟩ := herror e rfl
    exact absurd rfl hn
  | ok file => exact ⟨v.disk, fs, s₂, file, s', hmount, hlookups, hlookup, hok file rfl⟩

end Hvf
