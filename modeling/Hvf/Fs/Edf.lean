/-
# Lookup of files

`cp/fs/edf.c`.  A mounted file system has a list of the files that were looked up,
the directory first.  A lookup that finds no file of the name there puts a new
`struct file` on the list, scans `ADT.NFST` slots in each of the `FST.ADBC` data
blocks of the directory, and takes the file off the list again if no slot has the
name.

A slot is the 64 bytes of an FST.  `none` stands for a slot outside of the block.
`fails n` is the result of the `n`th allocation or block read; the number of a file
stands for its address.
-/

import Hvf.Installer.Edf

namespace Hvf

open PtrTree StepRun

/-- `ECORRUPT`: the volume is not one that `edf.c` takes. -/
def ecorrupt : Int := 11

/-- `fst[i]`, of the FSTs in a block. -/
def fstAt (block : DiskBlock) (i : ℕ) : DiskBlock := fun j =>
  if j < 64 then block (64 * i + j) else 0

/-- **An open file** (`struct file`): its identity, by which the list of open files has it,
and its FST. -/
structure FsFile where
  id : ℕ
  fst : DiskBlock

/-- `struct fs`, with the block cache of the directory; `count` is the number of
files allocated. -/
structure EdfFs where
  dbsiz : ℕ
  dop : ℕ
  nfst : ℕ
  dir : FsFile
  files : List FsFile
  bcache : Bcache
  count : ℕ

namespace EdfFs

/-- The directory, as the block cache reads it. -/
def dirFile (s : EdfFs) : EdfFile := ⟨Fst.nlvl s.dir.fst, Fst.fop s.dir.fst, s.dbsiz⟩

/-- `__alloc_file`. -/
def allocFile (fails : ℕ → Int) (fst : Option DiskBlock) (s : EdfFs) : Except Int FsFile × EdfFs :=
  let bcache := { s.bcache with calls := s.bcache.calls + 1 }
  if fails s.bcache.calls ≠ 0 then (.error (-enomem), { s with bcache })
  else
    let file : FsFile := ⟨s.count, fst.getD fun _ => 0⟩
    (.ok file, { s with files := s.files ++ [file], bcache, count := s.count + 1 })

/-- `__free_file`. -/
def freeFile (file : FsFile) (s : EdfFs) : EdfFs :=
  { s with files := s.files.filter fun cur => cur.id ≠ file.id }

/-- `__init_dir`. -/
def initDir (disk : ℕ → DiskBlock) (fails : ℕ → Int) (s : EdfFs) : Except Int EdfFs :=
  let n := s.bcache.calls
  if fails n ≠ 0 then .error (fails n)
  else
    let fst := fstAt (disk s.dop)
    if Fst.name (fst 0) ≠ directorName ∨ Fst.recfm (fst 0) ≠ fstDFix ∨
        Fst.name (fst 1) ≠ allocmapName ∨ Fst.recfm (fst 1) ≠ fstDFix then .error (-ecorrupt)
    else
      match allocFile fails (some (fst 0)) { s with bcache := ⟨[], n + 1⟩ } with
      | (.error e, _) => .error e
      | (.ok file, s) =>
        match bcacheAdd fails 0 0 s.dop s.bcache with
        | (.error e, _) => .error e
        | (.ok _, bcache) => .ok { s with bcache, dir := file }

end EdfFs

/-- `edf_mount`. -/
def edfMount (disk : ℕ → DiskBlock) (fails : ℕ → Int) : Except Int EdfFs :=
  if fails 0 ≠ 0 ∨ fails 1 ≠ 0 then .error (-enomem)
  else if fails 2 ≠ 0 then .error (fails 2)
  else
    let adt := disk 3
    if ptrAt adt 0 ≠ 0xC3D4E2F1 ∨ ptrAt adt 3 ≠ 4096 ∨ ptrAt adt 13 ≠ 0 ∨ ptrAt adt 9 ≠ 64 then
      .error (-einval)
    else EdfFs.initDir disk fails
      ⟨ptrAt adt 3, ptrAt adt 4, ptrAt adt 10, ⟨0, fun _ => 0⟩, [], ⟨[], 3⟩, 0⟩

/-- The inner loop of `edf_lookup` from slot `i` on, over `n` slots. -/
def scanBlock (block : DiskBlock) (name : FileName) : ℕ → ℕ → Option (Option DiskBlock)
  | 0, _ => some none
  | n + 1, i =>
    if 64 ≤ i then none
    else if Fst.name (fstAt block i) = name then some (some (fstAt block i))
    else scanBlock block name n (i + 1)

namespace EdfFs

/-- The outer loop from block `blk` on, over `n` blocks. -/
def scanDir (disk : ℕ → DiskBlock) (fails : ℕ → Int) (s : EdfFs) (name : FileName) :
    ℕ → ℕ → Bcache → Option (Except Int DiskBlock × Bcache)
  | 0, _, bcache => some (.error (-enoent), bcache)
  | n + 1, blk, bcache =>
    match bcacheRead s.dirFile disk fails 0 blk bcache with
    | (.error e, bcache) => some (.error e, bcache)
    | (.ok block, bcache) =>
      match scanBlock block name s.nfst 0 with
      | none => none
      | some (some fst) => some (.ok fst, bcache)
      | some none => scanDir disk fails s name n (blk + 1) bcache

/-- `edf_lookup` from the translation of the names on. -/
def lookup (disk : ℕ → DiskBlock) (fails : ℕ → Int) (name : FileName) (s : EdfFs) :
    Option (Except Int FsFile × EdfFs) :=
  match s.files.find? fun file => Fst.name file.fst = name with
  | some file => some (.ok file, s)
  | none =>
    match allocFile fails none s with
    | (.error e, s) => some (.error e, s)
    | (.ok file, s) =>
      match scanDir disk fails s name (Fst.adbc s.dir.fst) 0 s.bcache with
      | none => none
      | some (.error e, bcache) => some (.error e, freeFile file { s with bcache })
      | some (.ok fst, bcache) =>
        let found : FsFile := { file with fst }
        let files := s.files.map fun cur => if cur.id = file.id then found else cur
        some (.ok found, { s with files, bcache })

end EdfFs

/-- `edf_lookup`. -/
def edfLookup (disk : ℕ → DiskBlock) (fails : ℕ → Int) (ebcdic : UInt8 → UInt8)
    (fn ft : List UInt8) (s : EdfFs) : Option (Except Int FsFile × EdfFs) :=
  s.lookup disk fails (edfName ebcdic fn ft)

/-! ### The directory -/

section Directory

variable (disk : ℕ → DiskBlock) (s : EdfFs)

namespace EdfFs

/-- Data block `blk` of the directory. -/
def dirBlock (blk : ℕ) : DiskBlock :=
  disk (walk (fun lba off => ptrAt (disk lba) off) (s.dbsiz / 4) (Fst.nlvl s.dir.fst)
    (Fst.fop s.dir.fst) blk)

/-- Entry `k` of the directory. -/
def dirEntry (k : ℕ) : DiskBlock := fstAt (s.dirBlock disk (k / 64)) (k % 64)

/-- The first of the `AIC` entries that has the name. -/
def firstEntry (name : FileName) : Option ℕ :=
  (List.range (Fst.aic s.dir.fst)).find? fun k => Fst.name (s.dirEntry disk k) = name

/-- The directory has `AIC` entries in `ADBC` data blocks, and the first of these is at
`ADT.DOP`. -/
structure DirOk : Prop where
  height : Fst.adbc s.dir.fst ≤ 1024 ^ Fst.nlvl s.dir.fst
  aic_le : Fst.aic s.dir.fst ≤ 64 * Fst.adbc s.dir.fst
  adbc_le : 64 * Fst.adbc s.dir.fst < Fst.aic s.dir.fst + 64
  dop : walk (fun lba off => ptrAt (disk lba) off) (s.dbsiz / 4) (Fst.nlvl s.dir.fst)
    (Fst.fop s.dir.fst) 0 = s.dop

/-- The first slot of the name that is scanned is the first of the `AIC` entries that
has it, or no slot that is scanned has the name, and no slot outside of a block is
scanned before; the name of the directory is that of its own entry. -/
def LookupOk (name : FileName) : Prop :=
  if name = directorName then 0 < Fst.aic s.dir.fst
  else
    match s.firstEntry disk name with
    | some k => k % 64 < s.nfst ∧ (k < 64 ∨ s.nfst ≤ 64)
    | none => s.nfst ≤ 64 ∧ ∀ blk < Fst.adbc s.dir.fst, ∀ i < s.nfst,
        Fst.name (fstAt (s.dirBlock disk blk) i) ≠ name

end EdfFs

end Directory

/-! ### The scan -/

section Scan

variable {disk : ℕ → DiskBlock} {fails : ℕ → Int} {name : FileName} {block : DiskBlock} {s : EdfFs}

/-- **The entry that a directory block gives.** If slot `k` has the name and no slot before it,
the scan returns the entry in slot `k`. -/
theorem scanBlock_found {n i k : ℕ} (hik : i ≤ k) (hk : k < i + n) (h64 : k < 64)
    (hname : Fst.name (fstAt block k) = name)
    (hbefore : ∀ j, i ≤ j → j < k → Fst.name (fstAt block j) ≠ name) :
    scanBlock block name n i = some (some (fstAt block k)) := by
  induction n generalizing i with
  | zero => omega
  | succ n ih =>
    rw [scanBlock, if_neg (by omega)]
    rcases Nat.eq_or_lt_of_le hik with rfl | hlt
    · rw [if_pos hname]
    · rw [if_neg (hbefore i le_rfl hlt)]
      exact ih hlt (by omega) fun j hj => hbefore j (by omega)

/-- Where none of the slots looked at has the name, the scan of the block gives nothing. -/
theorem scanBlock_none {n i : ℕ} (h64 : i + n ≤ 64)
    (hnone : ∀ j, i ≤ j → j < i + n → Fst.name (fstAt block j) ≠ name) :
    scanBlock block name n i = some none := by
  induction n generalizing i with
  | zero => rfl
  | succ n ih =>
    rw [scanBlock, if_neg (by omega), if_neg (hnone i le_rfl (by omega))]
    exact ih (by omega) fun j hj hlt => hnone j (by omega) (by omega)

namespace EdfFs

/-- Block `blk` of the directory is read. -/
theorem bcacheRead_spec (fails : ℕ → Int) (hdir : s.DirOk disk) (hdbsiz : s.dbsiz = 4096)
    {b : Bcache} (hb : BcacheInv s.dirFile disk b) {blk : ℕ} (hblk : blk < Fst.adbc s.dir.fst) :
    ∃ r b', bcacheRead s.dirFile disk fails 0 blk b = (r, b') ∧ BcacheInv s.dirFile disk b' ∧
      b.calls ≤ b'.calls ∧
      (r = .ok (s.dirBlock disk blk) ∨ ∃ e, r = .error e ∧ Failed fails b b') := by
  have hpow : blk < (s.dirFile.dbsiz / 4) ^ s.dirFile.nlvl := by
    have hheight := hdir.height
    show blk < (s.dbsiz / 4) ^ Fst.nlvl s.dir.fst
    rw [hdbsiz]
    exact lt_of_lt_of_le hblk hheight
  have hread := bcacheReadUp_spec fails hb le_rfl hpow
  rw [bcacheRead, Nat.sub_zero]
  cases hres : bcacheReadUp s.dirFile disk fails s.dirFile.nlvl blk b with
  | mk r b' =>
    rw [hres] at hread
    refine ⟨r, b', rfl, hread.inv, hread.calls, ?_⟩
    cases r with
    | ok block =>
      have hdata := hread.data block rfl
      rw [EdfFile.lba, ← walk_eq_node] at hdata
      exact Or.inl (congrArg Except.ok hdata)
    | error e => exact Or.inr ⟨e, rfl, bcacheReadUp_error hb le_rfl hpow hres⟩

/-- What a scan of the directory returns where `good` is the answer. -/
def ScanRes (disk : ℕ → DiskBlock) (fails : ℕ → Int) (s : EdfFs) (b : Bcache)
    (good : Except Int DiskBlock) (x : Option (Except Int DiskBlock × Bcache)) : Prop :=
  ∃ r b', x = some (r, b') ∧ BcacheInv s.dirFile disk b' ∧ b.calls ≤ b'.calls ∧
    (r = good ∨ ∃ e, r = .error e ∧ Failed fails b b')

/-- What is said of a scan from a later state holds from an earlier one. -/
theorem ScanRes.mono {b b₀ : Bcache} {good : Except Int DiskBlock}
    {x : Option (Except Int DiskBlock × Bcache)} (h : ScanRes disk fails s b good x)
    (hle : b₀.calls ≤ b.calls) : ScanRes disk fails s b₀ good x := by
  obtain ⟨r, b', hx, hinv, hcalls, hres⟩ := h
  refine ⟨r, b', hx, hinv, hle.trans hcalls, hres.imp_right ?_⟩
  rintro ⟨e, he, hfail⟩
  exact ⟨e, he, hfail.mono hle⟩

/-- Entry `64·blk + i` of the directory is slot `i` of its block `blk`. -/
theorem dirEntry_eq (disk : ℕ → DiskBlock) (s : EdfFs) (blk : ℕ) {i : ℕ} (hi : i < 64) :
    s.dirEntry disk (64 * blk + i) = fstAt (s.dirBlock disk blk) i := by
  rw [dirEntry, show (64 * blk + i) / 64 = blk by omega, show (64 * blk + i) % 64 = i by omega]

/-- The first slot of the name is found. -/
theorem scanDir_found (hdir : s.DirOk disk) (hdbsiz : s.dbsiz = 4096) {k : ℕ}
    (hslot : k % 64 < s.nfst) (hsize : k < 64 ∨ s.nfst ≤ 64)
    (hname : Fst.name (s.dirEntry disk k) = name)
    (hbefore : ∀ j < k, Fst.name (s.dirEntry disk j) ≠ name) {n blk : ℕ} {b : Bcache}
    (hb : BcacheInv s.dirFile disk b) (hblk : blk ≤ k / 64) (hk : k / 64 < blk + n)
    (hn : blk + n ≤ Fst.adbc s.dir.fst) :
    ScanRes disk fails s b (.ok (s.dirEntry disk k)) (s.scanDir disk fails name n blk b) := by
  induction n generalizing blk b with
  | zero => omega
  | succ n ih =>
    obtain ⟨r, b', hread, hinv, hcalls, hres⟩ := s.bcacheRead_spec fails hdir hdbsiz hb
      (show blk < Fst.adbc s.dir.fst by omega)
    rw [scanDir, hread]
    rcases hres with rfl | ⟨e, rfl, hfail⟩
    · dsimp only
      rcases Nat.eq_or_lt_of_le hblk with heq | hlt
      · have hfound : scanBlock (s.dirBlock disk blk) name s.nfst 0
            = some (some (s.dirEntry disk k)) := by
          rw [dirEntry, ← heq]
          refine scanBlock_found (Nat.zero_le _) (by omega) (by omega) ?_ fun j _ hj => ?_
          · rw [heq]
            exact hname
          · rw [← dirEntry_eq disk s blk (by omega)]
            exact hbefore _ (by omega)
        rw [hfound]
        exact ⟨_, b', rfl, hinv, hcalls, Or.inl rfl⟩
      · have hnone : scanBlock (s.dirBlock disk blk) name s.nfst 0 = some none := by
          refine scanBlock_none (by omega) fun j _ hj => ?_
          rw [← dirEntry_eq disk s blk (by omega)]
          exact hbefore _ (by omega)
        rw [hnone]
        exact (ih hinv hlt (by omega) (by omega)).mono hcalls
    · exact ⟨_, b', rfl, hinv, hcalls, Or.inr ⟨e, rfl, hfail⟩⟩

/-- No slot has the name. -/
theorem scanDir_none (hdir : s.DirOk disk) (hdbsiz : s.dbsiz = 4096) (hsize : s.nfst ≤ 64)
    (hnone : ∀ blk < Fst.adbc s.dir.fst, ∀ i < s.nfst,
      Fst.name (fstAt (s.dirBlock disk blk) i) ≠ name) {n blk : ℕ} {b : Bcache}
    (hb : BcacheInv s.dirFile disk b) (hn : blk + n ≤ Fst.adbc s.dir.fst) :
    ScanRes disk fails s b (.error (-enoent)) (s.scanDir disk fails name n blk b) := by
  induction n generalizing blk b with
  | zero => exact ⟨_, b, rfl, hb, le_rfl, Or.inl rfl⟩
  | succ n ih =>
    obtain ⟨r, b', hread, hinv, hcalls, hres⟩ := s.bcacheRead_spec fails hdir hdbsiz hb
      (show blk < Fst.adbc s.dir.fst by omega)
    rw [scanDir, hread]
    rcases hres with rfl | ⟨e, rfl, hfail⟩
    · dsimp only
      rw [scanBlock_none (by omega) fun j _ hj => hnone blk (by omega) j (by omega)]
      exact (ih hinv (by omega)).mono hcalls
    · exact ⟨_, b', rfl, hinv, hcalls, Or.inr ⟨e, rfl, hfail⟩⟩

/-- The answer to a lookup in the directory. -/
def answer (disk : ℕ → DiskBlock) (s : EdfFs) (name : FileName) : Except Int DiskBlock :=
  match s.firstEntry disk name with
  | some k => .ok (s.dirEntry disk k)
  | none => .error (-enoent)

/-- The first entry of a name is an entry within AIC, has the name, and none before it has. -/
theorem firstEntry_some {k : ℕ} (h : s.firstEntry disk name = some k) :
    k < Fst.aic s.dir.fst ∧ Fst.name (s.dirEntry disk k) = name ∧
      ∀ j < k, Fst.name (s.dirEntry disk j) ≠ name := by
  obtain ⟨hname, hmem, hbefore⟩ := List.find?_range_eq_some.1 h
  exact ⟨List.mem_range.1 hmem, of_decide_eq_true hname, fun j hj => by simpa using hbefore j hj⟩

/-- **The scan** finds the answer. -/
theorem scanDir_spec (fails : ℕ → Int) (hdir : s.DirOk disk) (hdbsiz : s.dbsiz = 4096)
    (hname : name ≠ directorName)
    (hok : s.LookupOk disk name) {b : Bcache} (hb : BcacheInv s.dirFile disk b) :
    ScanRes disk fails s b (s.answer disk name)
      (s.scanDir disk fails name (Fst.adbc s.dir.fst) 0 b) := by
  rw [LookupOk, if_neg hname] at hok
  unfold answer
  cases hfirst : s.firstEntry disk name with
  | some k =>
    rw [hfirst] at hok
    obtain ⟨haic, hentry, hbefore⟩ := firstEntry_some hfirst
    have := hdir.aic_le
    exact scanDir_found hdir hdbsiz hok.1 hok.2 hentry hbefore hb (Nat.zero_le _) (by omega)
      (by omega)
  | none =>
    rw [hfirst] at hok
    exact scanDir_none hdir hdbsiz hok.1 hok.2 hb (by omega)

end EdfFs

end Scan

/-! ### Lookups -/

section Lookup

variable {disk : ℕ → DiskBlock} {fails : ℕ → Int} {name : FileName} {s s' : EdfFs}

namespace EdfFs

/-- The files on the list were allocated. -/
def Ids (s : EdfFs) : Prop := ∀ file ∈ s.files, file.id < s.count

/-- The scan of the directory depends on the mounted volume and the cache, not on the files
already open. -/
theorem scanDir_congr (s : EdfFs) (files : List FsFile) (bcache : Bcache) (count n blk : ℕ)
    (b : Bcache) :
    ({ s with files, bcache, count } : EdfFs).scanDir disk fails name n blk b
      = s.scanDir disk fails name n blk b := by
  induction n generalizing blk b with
  | zero => rfl
  | succ n ih =>
    rw [scanDir, scanDir]
    simp only [ih]
    rfl

/-- **A lookup of a file that is not on the list.** -/
theorem lookup_miss (hids : s.Ids)
    (hmiss : s.files.find? (fun file => Fst.name file.fst = name) = none) :
    s.lookup disk fails name =
      if fails s.bcache.calls ≠ 0 then
        some (.error (-enomem), { s with bcache := { s.bcache with calls := s.bcache.calls + 1 } })
      else
        (s.scanDir disk fails name (Fst.adbc s.dir.fst) 0
          { s.bcache with calls := s.bcache.calls + 1 }).map fun r =>
            match r.1 with
            | .error e => (.error e, { s with bcache := r.2, count := s.count + 1 })
            | .ok fst => (.ok ⟨s.count, fst⟩, { s with
                files := s.files ++ [⟨s.count, fst⟩], bcache := r.2, count := s.count + 1 }) := by
  rw [lookup, hmiss]
  dsimp only
  rw [allocFile]
  dsimp only
  split_ifs with hfail
  · rfl
  · dsimp only
    rw [scanDir_congr]
    have hold : ∀ file ∈ s.files, file.id ≠ s.count := fun file hfile => (hids file hfile).ne
    have hfree : (s.files ++ [(⟨s.count, fun _ => 0⟩ : FsFile)]).filter
        (fun cur => cur.id ≠ s.count) = s.files := by
      rw [List.filter_append, List.filter_eq_self.2 fun file hfile => by simp [hold file hfile]]
      simp
    have hset : ∀ fst, (s.files ++ [(⟨s.count, fun _ => 0⟩ : FsFile)]).map (fun cur =>
        if cur.id = s.count then (⟨s.count, fst⟩ : FsFile) else cur)
          = s.files ++ [⟨s.count, fst⟩] := by
      intro fst
      rw [List.map_append]
      congr 1
      · conv_rhs => rw [← List.map_id s.files]
        exact List.map_congr_left fun file hfile => if_neg (hold file hfile)
      · simp
    cases s.scanDir disk fails name (Fst.adbc s.dir.fst) 0
        { s.bcache with calls := s.bcache.calls + 1 } with
    | none => rfl
    | some r =>
      obtain ⟨r, b⟩ := r
      cases r with
      | error e =>
        show some (_, freeFile _ _) = _
        simp only [freeFile, Option.getD_none, hfree, Option.map_some]
      | ok fst => simp only [Option.getD_none, hset, Option.map_some]

/-- A name that is open is answered from the list of files, with no read. -/
theorem lookup_hit {file : FsFile}
    (hhit : s.files.find? (fun file => Fst.name file.fst = name) = some file) :
    s.lookup disk fails name = some (.ok file, s) := by
  rw [lookup, hhit]

/-- A lookup leaves the files that are on the list. -/
theorem lookup_files (hids : s.Ids) {r : Except Int FsFile}
    (h : s.lookup disk fails name = some (r, s')) :
    s.files <+: s'.files ∧ s'.Ids ∧ s'.dir = s.dir ∧ s'.dbsiz = s.dbsiz := by
  cases hfind : s.files.find? fun file => Fst.name file.fst = name with
  | some file =>
    rw [lookup_hit hfind] at h
    obtain ⟨-, rfl⟩ := Prod.mk.inj (Option.some.inj h)
    exact ⟨List.prefix_rfl, hids, rfl, rfl⟩
  | none =>
    rw [lookup_miss hids hfind] at h
    split_ifs at h
    · obtain ⟨-, rfl⟩ := Prod.mk.inj (Option.some.inj h)
      exact ⟨List.prefix_rfl, hids, rfl, rfl⟩
    · obtain ⟨⟨res, b⟩, -, hres⟩ := Option.map_eq_some_iff.1 h
      cases res with
      | error e =>
        obtain ⟨-, rfl⟩ := Prod.mk.inj hres
        exact ⟨List.prefix_rfl, fun file hfile => Nat.lt_succ_of_lt (hids file hfile), rfl, rfl⟩
      | ok fst =>
        obtain ⟨-, rfl⟩ := Prod.mk.inj hres
        refine ⟨List.prefix_append .., fun file hfile => ?_, rfl, rfl⟩
        rcases List.mem_append.1 hfile with hfile | hfile
        · exact Nat.lt_succ_of_lt (hids file hfile)
        · rw [List.mem_singleton.1 hfile]
          exact Nat.lt_succ_self _

/-- The files on the list are the directory and, for each name that was found, the
first entry of that name. -/
structure FsInv (disk : ℕ → DiskBlock) (s : EdfFs) : Prop where
  dbsiz : s.dbsiz = 4096
  dirOk : s.DirOk disk
  ids : s.Ids
  bcache : BcacheInv s.dirFile disk s.bcache
  names : (s.files.map fun file => Fst.name file.fst).Nodup
  dir : s.dir ∈ s.files
  dirName : Fst.name s.dir.fst = directorName
  dirFst : s.dir.fst = s.dirEntry disk 0
  files : ∀ file ∈ s.files, file = s.dir ∨
    ∃ k, s.firstEntry disk (Fst.name file.fst) = some k ∧ file.fst = s.dirEntry disk k

/-- A cache that satisfies its invariant again, and a call count that grew, keep the file
system's invariant. -/
theorem FsInv.update (h : FsInv disk s) {b : Bcache} (hb : BcacheInv s.dirFile disk b) {count : ℕ}
    (hcount : s.count ≤ count) : FsInv disk { s with bcache := b, count } where
  dbsiz := h.dbsiz
  dirOk := ⟨h.dirOk.height, h.dirOk.aic_le, h.dirOk.adbc_le, h.dirOk.dop⟩
  ids file hfile := (h.ids file hfile).trans_le hcount
  bcache := hb
  names := h.names
  dir := h.dir
  dirName := h.dirName
  dirFst := h.dirFst
  files := h.files

/-- A file is put on the list. -/
theorem FsInv.append (h : FsInv disk s) {b : Bcache} (hb : BcacheInv s.dirFile disk b)
    {fst : DiskBlock} {k : ℕ} (hfirst : s.firstEntry disk (Fst.name fst) = some k)
    (hfst : fst = s.dirEntry disk k) (hnew : ∀ file ∈ s.files, Fst.name file.fst ≠ Fst.name fst) :
    FsInv disk { s with
      files := s.files ++ [⟨s.count, fst⟩], bcache := b, count := s.count + 1 } where
  dbsiz := h.dbsiz
  dirOk := ⟨h.dirOk.height, h.dirOk.aic_le, h.dirOk.adbc_le, h.dirOk.dop⟩
  ids file hfile := by
    rcases List.mem_append.1 hfile with hfile | hfile
    · exact Nat.lt_succ_of_lt (h.ids file hfile)
    · rw [List.mem_singleton.1 hfile]
      exact Nat.lt_succ_self _
  bcache := hb
  names := by
    show ((s.files ++ [(⟨s.count, fst⟩ : FsFile)]).map fun file => Fst.name file.fst).Nodup
    rw [List.map_append]
    refine List.nodup_append.2 ⟨h.names, List.nodup_singleton _, ?_⟩
    rintro n hn n' hn' rfl
    obtain ⟨file, hfile, rfl⟩ := List.mem_map.1 hn
    exact hnew file hfile (List.mem_singleton.1 hn')
  dir := List.mem_append_left _ h.dir
  dirName := h.dirName
  dirFst := h.dirFst
  files file hfile := by
    rcases List.mem_append.1 hfile with hfile | hfile
    · exact h.files file hfile
    · rw [List.mem_singleton.1 hfile]
      exact Or.inr ⟨k, hfirst, hfst⟩

/-- **What a lookup returns.** The first entry of the name as an open file, the same one
ever after; or `-ENOENT`, where no entry has the name; or an error, where a read of the
directory has failed. -/
inductive LookupRes (disk : ℕ → DiskBlock) (fails : ℕ → Int) (name : FileName) (s t : EdfFs) :
    Except Int FsFile → Prop
  | found {file : FsFile} {k : ℕ} : s.firstEntry disk name = some k →
      file.fst = s.dirEntry disk k →
      t.files.find? (fun file => Fst.name file.fst = name) = some file →
      LookupRes disk fails name s t (.ok file)
  | missing : s.firstEntry disk name = none → t.files = s.files →
      LookupRes disk fails name s t (.error (-enoent))
  | failed {e : Int} : Failed fails s.bcache t.bcache → t.files = s.files →
      LookupRes disk fails name s t (.error e)

/-- The file on the list is that of the first entry. -/
theorem FsInv.hit (h : FsInv disk s) (hok : s.LookupOk disk name) {file : FsFile}
    (hfile : file ∈ s.files) (hname : Fst.name file.fst = name) :
    ∃ k, s.firstEntry disk name = some k ∧ file.fst = s.dirEntry disk k := by
  subst hname
  rcases h.files file hfile with rfl | hentry
  · rw [LookupOk, if_pos h.dirName] at hok
    refine ⟨0, List.find?_range_eq_some.2 ⟨?_, List.mem_range.2 hok, fun j hj => ?_⟩, h.dirFst⟩
    · rw [← h.dirFst]
      exact decide_eq_true rfl
    · exact absurd hj (Nat.not_lt_zero j)
  · exact hentry

/-- **What one lookup does.** -/
theorem FsInv.lookup (fails : ℕ → Int) (h : FsInv disk s) (hok : s.LookupOk disk name) :
    ∃ r s', s.lookup disk fails name = some (r, s') ∧ FsInv disk s' ∧
      LookupRes disk fails name s s' r := by
  cases hfind : s.files.find? fun file => Fst.name file.fst = name with
  | some file =>
    have hmem := List.mem_of_find?_eq_some hfind
    obtain ⟨k, hfirst, hfst⟩ := h.hit hok hmem (by simpa using List.find?_some hfind)
    exact ⟨_, s, lookup_hit hfind, h, .found hfirst hfst hfind⟩
  | none =>
    have hnew : ∀ file ∈ s.files, Fst.name file.fst ≠ name := fun file hfile => by
      simpa using List.find?_eq_none.1 hfind file hfile
    have hname : name ≠ directorName := fun heq => hnew s.dir h.dir (h.dirName.trans heq.symm)
    rw [lookup_miss h.ids hfind]
    split_ifs with hfail
    · exact ⟨_, _, rfl, h.update (b := { s.bcache with calls := s.bcache.calls + 1 })
        ⟨h.bcache.entries, h.bcache.keys⟩ le_rfl,
        .failed ⟨s.bcache.calls, le_rfl, Nat.lt_succ_self _, hfail⟩ rfl⟩
    · obtain ⟨r, b, hscan, hb, hcalls, hres⟩ := scanDir_spec fails h.dirOk h.dbsiz hname hok
        (b := { s.bcache with calls := s.bcache.calls + 1 }) ⟨h.bcache.entries, h.bcache.keys⟩
      rw [hscan, Option.map_some]
      have hupdate := h.update hb (Nat.le_succ s.count)
      rcases hres with rfl | ⟨e, rfl, hfailed⟩
      · unfold answer
        cases hfirst : s.firstEntry disk name with
        | some k =>
          obtain ⟨-, hentry, -⟩ := firstEntry_some hfirst
          have hmiss : s.files.find? (fun file => decide (Fst.name file.fst = name)) = none := hfind
          refine ⟨_, _, rfl, h.append hb (by rw [hentry]; exact hfirst) rfl
            (by rw [hentry]; exact hnew), .found hfirst rfl ?_⟩
          rw [List.find?_append, hmiss]
          simp [hentry]
        | none => exact ⟨_, _, rfl, hupdate, .missing hfirst rfl⟩
      · exact ⟨_, _, rfl, hupdate, .failed (hfailed.mono (Nat.le_succ _)) rfl⟩

/-- What `__init_dir` leaves. -/
theorem initDir_ok {fs : EdfFs} (h : s.initDir disk fails = .ok fs) :
    Fst.name (fstAt (disk s.dop) 0) = directorName ∧ ∃ calls,
      fs = { s with
        files := s.files ++ [⟨s.count, fstAt (disk s.dop) 0⟩]
        dir := ⟨s.count, fstAt (disk s.dop) 0⟩
        bcache := ⟨[⟨0, 0, s.dop, none⟩], calls⟩
        count := s.count + 1 } := by
  unfold initDir at h
  by_cases hread : fails s.bcache.calls = 0
  · simp only [hread, ne_eq, not_true_eq_false, if_false] at h
    split at h
    case isTrue => cases h
    case isFalse hcheck =>
      rw [not_or, not_not] at hcheck
      refine ⟨hcheck.1, ?_⟩
      unfold allocFile bcacheAdd at h
      dsimp only at h
      by_cases hfile : fails (s.bcache.calls + 1) = 0
      · by_cases hentry : fails (s.bcache.calls + 1 + 1) = 0
        · simp only [hfile, hentry, ne_eq, not_true_eq_false, if_false] at h
          exact ⟨_, (Except.ok.inj h).symm⟩
        · simp only [hfile, hentry, ne_eq, not_true_eq_false, not_false_eq_true, if_false,
            if_true] at h
          cases h
      · simp only [hfile, ne_eq, not_false_eq_true, if_true] at h
        cases h
  · simp only [hread, ne_eq, not_false_eq_true, if_true] at h
    cases h

/-- **A mounted file system** has the directory on its list. -/
theorem mount_inv {fs : EdfFs} (hmount : edfMount disk fails = .ok fs) (hdir : fs.DirOk disk) :
    FsInv disk fs := by
  unfold edfMount at hmount
  dsimp only at hmount
  split at hmount
  case isTrue => cases hmount
  split at hmount
  case isTrue => cases hmount
  split at hmount
  case isTrue => cases hmount
  case isFalse hadt =>
    rw [not_or, not_or, not_not, not_not] at hadt
    obtain ⟨hname, calls, rfl⟩ := initDir_ok hmount
    have hdop := hdir.dop
    refine {
      dbsiz := hadt.2.1
      dirOk := hdir
      ids := fun file hfile => ?_
      bcache := ⟨fun e he => ?_, List.nodup_singleton _⟩
      names := List.nodup_singleton _
      dir := List.mem_singleton_self _
      dirName := hname
      dirFst := ?_
      files := fun file hfile => Or.inl (List.mem_singleton.1 hfile) }
    · rw [List.mem_singleton.1 hfile]
      exact Nat.lt_succ_self _
    · obtain rfl := List.mem_singleton.1 he
      refine ⟨?_, nofun⟩
      rw [EdfFile.lba, ← walk_eq_node]
      exact hdop.symm
    · rw [dirEntry, dirBlock]
      dsimp only at hdop ⊢
      rw [hdop]

end EdfFs

/-- A lookup by names. -/
def lookupStep (disk : ℕ → DiskBlock) (fails : ℕ → Int) (ebcdic : UInt8 → UInt8) (s : EdfFs)
    (l : List UInt8 × List UInt8) (s' : EdfFs) : Prop :=
  ∃ r, edfLookup disk fails ebcdic l.1 l.2 s = some (r, s')

/-- The entries of a directory depend on the mounted directory and the block size alone. -/
theorem firstEntry_congr (disk : ℕ → DiskBlock) (name : FileName) {fs : EdfFs}
    (hdir : s.dir = fs.dir) (hdbsiz : s.dbsiz = fs.dbsiz) :
    s.firstEntry disk name = fs.firstEntry disk name ∧ s.dirEntry disk = fs.dirEntry disk := by
  have hentry : s.dirEntry disk = fs.dirEntry disk := by
    funext k
    rw [EdfFs.dirEntry, EdfFs.dirEntry, EdfFs.dirBlock, EdfFs.dirBlock, hdir, hdbsiz]
  refine ⟨?_, hentry⟩
  rw [EdfFs.firstEntry, EdfFs.firstEntry, hdir, hentry]

/-- A file that is on the list is returned by every later lookup. -/
theorem lookup_again {ebcdic : UInt8 → UInt8} {file : FsFile} {ls : List (List UInt8 × List UInt8)}
    (hids : s.Ids) (hfind : s.files.find? (fun file => Fst.name file.fst = name) = some file)
    (hrun : Run (lookupStep disk fails ebcdic) s ls s') :
    s'.lookup disk fails name = some (.ok file, s') := by
  have hkept : s'.Ids ∧ s'.files.find? (fun file => Fst.name file.fst = name) = some file := by
    refine hrun.invariant (P := fun t => t.Ids ∧
      t.files.find? (fun file => Fst.name file.fst = name) = some file) ⟨hids, hfind⟩ ?_
    rintro t l u ⟨hids, hfind⟩ ⟨r, hstep⟩
    obtain ⟨⟨rest, hrest⟩, hids', -⟩ := EdfFs.lookup_files hids hstep
    refine ⟨hids', ?_⟩
    rw [← hrest, List.find?_append, hfind]
    rfl
  exact EdfFs.lookup_hit hkept.2

/-- **Lookups are exact.**  After any lookups that meet the condition, whichever
allocations and reads failed, no name is on the list twice; and a lookup that
meets it returns a file that has the first entry of the name and that every later
lookup of the name returns again, or an error: `-ENOENT` if there is no entry, or
one that comes from an allocation or a read that failed, and the list is as before. -/
theorem edfLookup_exact (ebcdic : UInt8 → UInt8) {fs : EdfFs}
    (hmount : edfMount disk fails = .ok fs) (hdir : fs.DirOk disk)
    {ls : List (List UInt8 × List UInt8)}
    (hrun : Run (guarded (fun s l => s.LookupOk disk (edfName ebcdic l.1 l.2))
      (lookupStep disk fails ebcdic)) fs ls s) :
    (s.files.map fun file => Fst.name file.fst).Nodup ∧
      ∀ fn ft, s.LookupOk disk (edfName ebcdic fn ft) →
        ∃ r s', edfLookup disk fails ebcdic fn ft s = some (r, s') ∧
          (∀ file, r = .ok file →
            (∃ k, fs.firstEntry disk (edfName ebcdic fn ft) = some k ∧
              file.fst = fs.dirEntry disk k) ∧
            ∀ ls' s'', Run (lookupStep disk fails ebcdic) s' ls' s'' →
              edfLookup disk fails ebcdic fn ft s'' = some (.ok file, s'')) ∧
          ∀ e, r = .error e → s'.files = s.files ∧
            (Failed fails s.bcache s'.bcache ∨
              e = -enoent ∧ fs.firstEntry disk (edfName ebcdic fn ft) = none) := by
  obtain ⟨hinv, hsdir, hsdbsiz⟩ : EdfFs.FsInv disk s ∧ s.dir = fs.dir ∧ s.dbsiz = fs.dbsiz := by
    refine hrun.invariant (P := fun s => EdfFs.FsInv disk s ∧ s.dir = fs.dir ∧ s.dbsiz = fs.dbsiz)
      ⟨EdfFs.mount_inv hmount hdir, rfl, rfl⟩ ?_
    rintro t l u ⟨hinv, htdir, htdbsiz⟩ ⟨hok, r, hstep⟩
    obtain ⟨r', u', hlookup, hinv', -⟩ := hinv.lookup fails hok
    obtain ⟨-, -, hudir, hudbsiz⟩ := EdfFs.lookup_files hinv.ids hstep
    obtain ⟨-, rfl⟩ := Prod.mk.inj (Option.some.inj (hlookup.symm.trans hstep))
    exact ⟨hinv', hudir.trans htdir, hudbsiz.trans htdbsiz⟩
  refine ⟨hinv.names, fun fn ft hok => ?_⟩
  obtain ⟨r, s', hlookup, hinv', hres⟩ := hinv.lookup fails hok
  refine ⟨r, s', hlookup, ?_⟩
  obtain ⟨hfirst, hentry⟩ := firstEntry_congr disk (edfName ebcdic fn ft) hsdir hsdbsiz
  rw [← hfirst, ← hentry]
  cases hres with
  | found hk hfst hfind =>
    refine ⟨fun file hfile => ?_, fun e he => nomatch he⟩
    obtain rfl := Except.ok.inj hfile
    exact ⟨⟨_, hk, hfst⟩, fun ls' s'' hrun' => lookup_again hinv'.ids hfind hrun'⟩
  | missing hnone hfiles =>
    refine ⟨(fun file hfile => nomatch hfile), fun e he => ⟨hfiles, Or.inr ⟨?_, hnone⟩⟩⟩
    exact (Except.error.inj he).symm
  | failed hfailed hfiles =>
    exact ⟨(fun file hfile => nomatch hfile), fun _ _ => ⟨hfiles, Or.inl hfailed⟩⟩

end Lookup

/-! ### Leftovers -/

/-- `ascii2ebcdic_table`, of letters and of bytes below them. -/
def ebcdicLetter (c : UInt8) : UInt8 :=
  if c < 0x41 then c else if c < 0x4A then c + 0x80 else if c < 0x53 then c + 0x87 else c + 0x8F

/-- The label of a disk with 64 slots in a block and the directory in block 5. -/
def labelBytes : List UInt8 :=
  [0xC3, 0xD4, 0xE2, 0xF1] ++ List.replicate 8 0 ++ [0, 0, 0x10, 0, 0, 0, 0, 5]
    ++ List.replicate 16 0 ++ [0, 0, 0, 64, 0, 0, 0, 64]

/-- An FST of a file of `aic` records in block 5. -/
def fstBytes (name : FileName) (aic : UInt8) : List UInt8 :=
  name.fn ++ name.ft ++ List.replicate 14 0 ++ [0xC6, 0, 0, 0, 0, 64, 0, 0, 0, 0]
    ++ [0, 0, 0, 5, 0, 0, 0, 1, 0, 0, 0, aic] ++ [0, 4] ++ List.replicate 10 0

/-- `OLDFILES OLDTYPES`. -/
def oldFn : List UInt8 := [0x4F, 0x4C, 0x44, 0x46, 0x49, 0x4C, 0x45, 0x53]

/-- The file type, as it is before it is translated. -/
def oldFt : List UInt8 := [0x4F, 0x4C, 0x44, 0x54, 0x59, 0x50, 0x45, 0x53]

/-- A directory of two entries, with an old FST behind them. -/
def staleDisk (lba : ℕ) : DiskBlock := fun i =>
  if lba = 3 then labelBytes.getD i 0
  else if lba = 5 then
    (fstBytes directorName 2 ++ fstBytes allocmapName 1
      ++ fstBytes (edfName ebcdicLetter oldFn oldFt) 1).getD i 0
  else 0

/-- `staleDisk` mounted. -/
def staleFs : EdfFs where
  dbsiz := 4096
  dop := 5
  nfst := 64
  dir := ⟨0, fstAt (staleDisk 5) 0⟩
  files := [⟨0, fstAt (staleDisk 5) 0⟩]
  bcache := ⟨[⟨0, 0, 5, none⟩], 6⟩
  count := 1

/-- The volume with a stale entry behind the last one mounts. -/
theorem edfMount_stale : edfMount staleDisk (fun _ => 0) = .ok staleFs := by
  have hadt : ptrAt (staleDisk 3) 0 = 0xC3D4E2F1 ∧ ptrAt (staleDisk 3) 3 = 4096 ∧
      ptrAt (staleDisk 3) 13 = 0 ∧ ptrAt (staleDisk 3) 9 = 64 ∧ ptrAt (staleDisk 3) 4 = 5 ∧
      ptrAt (staleDisk 3) 10 = 64 := by decide +kernel
  have hcheck : Fst.name (fstAt (staleDisk 5) 0) = directorName ∧
      Fst.recfm (fstAt (staleDisk 5) 0) = fstDFix ∧
      Fst.name (fstAt (staleDisk 5) 1) = allocmapName ∧
      Fst.recfm (fstAt (staleDisk 5) 1) = fstDFix := by decide +kernel
  obtain ⟨hident, hdbsiz, hoffst, hfstsz, hdop, hnfst⟩ := hadt
  obtain ⟨hdir, hdirFix, hmap, hmapFix⟩ := hcheck
  rw [edfMount, if_neg (by simp), if_neg (by simp)]
  simp only [hident, hdbsiz, hoffst, hfstsz, hdop, hnfst, EdfFs.initDir, hdir, hdirFix, hmap,
    hmapFix, ne_eq, not_true_eq_false, or_self, if_false]
  rfl

/-- Its directory is in the form that the lookup relies on. -/
theorem staleFs_dirOk : staleFs.DirOk staleDisk where
  height := by decide +kernel
  aic_le := by decide +kernel
  adbc_le := by decide +kernel
  dop := by decide +kernel

/-- A name that is in no entry is found, in a slot behind the entries that an old directory
has left. -/
theorem not_edfLookup_exact : ¬ ∀ (disk : ℕ → DiskBlock) (fails : ℕ → Int) (ebcdic : UInt8 → UInt8)
    (fs : EdfFs), edfMount disk fails = .ok fs → fs.DirOk disk → ∀ fn ft file s',
      edfLookup disk fails ebcdic fn ft fs = some (.ok file, s') →
        ∃ k, fs.firstEntry disk (edfName ebcdic fn ft) = some k ∧
          file.fst = fs.dirEntry disk k := by
  intro h
  have hfound : ((edfLookup staleDisk (fun _ => 0) ebcdicLetter oldFn oldFt staleFs).any
      fun r => r.1.isOk) = true := by decide +kernel
  have hnone : staleFs.firstEntry staleDisk (edfName ebcdicLetter oldFn oldFt) = none := by
    decide +kernel
  rw [Option.any_eq_true] at hfound
  obtain ⟨⟨r, s'⟩, hlookup, hok⟩ := hfound
  cases r with
  | error e => cases hok
  | ok file =>
    obtain ⟨k, hk, -⟩ := h staleDisk _ ebcdicLetter staleFs edfMount_stale staleFs_dirOk oldFn oldFt
      file s' hlookup
    rw [hnone] at hk
    cases hk

/-- `NOFILE EXEC`. -/
def noFn : List UInt8 := [0x4E, 0x4F, 0x46, 0x49, 0x4C, 0x45, 0x20, 0x20]

/-- A file type that no entry of the examples has. -/
def noFt : List UInt8 := [0x45, 0x58, 0x45, 0x43, 0x20, 0x20, 0x20, 0x20]

/-- The name of the allocation map. -/
def mapFn : List UInt8 := [0, 0, 0, 2, 0, 0, 0, 0]

/-- The file type of the volume's own allocation map. -/
def mapFt : List UInt8 := [0x41, 0x4C, 0x4C, 0x4F, 0x43, 0x4D, 0x41, 0x50]

/-- **The allocation map in the directory with the leftovers,** behind a lookup that finds
nothing and one of the map: the lookup returns its entry, and one behind it the same. -/
theorem edfLookup_exact_allocmap : ∃ s file s',
    Run (lookupStep staleDisk (fun _ => 0) ebcdicLetter) staleFs
      [(noFn, noFt), (mapFn, mapFt)] s ∧
    edfLookup staleDisk (fun _ => 0) ebcdicLetter mapFn mapFt s = some (.ok file, s') ∧
    file.fst = staleFs.dirEntry staleDisk 1 ∧
    edfLookup staleDisk (fun _ => 0) ebcdicLetter mapFn mapFt s' = some (.ok file, s') := by
  have hcalls : ((edfLookup staleDisk (fun _ => 0) ebcdicLetter noFn noFt staleFs).bind fun r =>
      (edfLookup staleDisk (fun _ => 0) ebcdicLetter mapFn mapFt r.2).map fun r' =>
        [(r.1.isOk, r.2.firstEntry staleDisk allocmapName, r.2.nfst),
          (r'.1.isOk, r'.2.firstEntry staleDisk allocmapName, r'.2.nfst)]) =
      some [(false, some 1, 64), (true, some 1, 64)] := by decide +kernel
  obtain ⟨⟨r₁, s₁⟩, hfirst, hcalls⟩ := Option.bind_eq_some_iff.1 hcalls
  obtain ⟨⟨r₂, s₂⟩, hsecond, hcalls⟩ := Option.map_eq_some_iff.1 hcalls
  simp only [List.cons.injEq, Prod.mk.injEq, and_true] at hcalls
  obtain ⟨⟨-, hentry₁, hnfst₁⟩, -, hentry₂, hnfst₂⟩ := hcalls
  have hname : edfName ebcdicLetter mapFn mapFt = allocmapName := by decide +kernel
  have hmap : ∀ s : EdfFs, s.firstEntry staleDisk allocmapName = some 1 → s.nfst = 64 →
      s.LookupOk staleDisk (edfName ebcdicLetter mapFn mapFt) := by
    intro s hentry hnfst
    rw [EdfFs.LookupOk, hname, if_neg (by decide), hentry, hnfst]
    exact ⟨by decide, Or.inr le_rfl⟩
  have hnone : staleFs.LookupOk staleDisk (edfName ebcdicLetter noFn noFt) := by
    rw [EdfFs.LookupOk, if_neg (by decide +kernel),
      show staleFs.firstEntry staleDisk (edfName ebcdicLetter noFn noFt) = none by decide +kernel]
    exact ⟨le_rfl, by decide +kernel⟩
  have hstart : Run (guarded (fun s l => s.LookupOk staleDisk (edfName ebcdicLetter l.1 l.2))
      (lookupStep staleDisk (fun _ => 0) ebcdicLetter)) staleFs [] staleFs := Run.nil
  have hrun := (hstart.snoc (l := (noFn, noFt)) ⟨hnone, r₁, hfirst⟩).snoc (l := (mapFn, mapFt))
    ⟨hmap s₁ hentry₁ hnfst₁, r₂, hsecond⟩
  obtain ⟨r, s', hlookup, hfound, hmissing⟩ :=
    (edfLookup_exact ebcdicLetter edfMount_stale staleFs_dirOk hrun).2 mapFn mapFt
      (hmap s₂ hentry₂ hnfst₂)
  have hthird : staleFs.firstEntry staleDisk (edfName ebcdicLetter mapFn mapFt) = some 1 := by
    decide +kernel
  rw [hthird] at hfound hmissing
  cases r with
  | ok file =>
    obtain ⟨⟨k, hk, hfst⟩, hagain⟩ := hfound file rfl
    obtain rfl := Option.some.inj hk
    exact ⟨s₂, file, s', hrun.of_guarded, hlookup, hfst, hagain [] s' Run.nil⟩
  | error e =>
    rcases (hmissing e rfl).2 with ⟨n, -, -, hfail⟩ | ⟨-, hnone⟩
    · exact absurd rfl hfail
    · cases hnone

end Hvf
