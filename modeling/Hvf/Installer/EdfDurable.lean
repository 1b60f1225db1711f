/-
# Session after session

A session mounts a disk, creates files, appends records and writes its buffers back.  In
every state of one that no pointer to the last slot of a block was written in, each file
has its records (`session_exact`), and a call returns as long as there are free blocks.
The disk behind it can be mounted again, and what a session has written is there after all
that follow, as are the files that were there before (`sessions_durable`).
-/

import Hvf.Installer.EdfRemount

namespace Hvf

open Loader Outcome StepRun

/-! ### Files -/

/-- A file has its name, its records, as many blocks as these need, and as few levels of
pointers as it can; `byte` gives the bytes of its data blocks. -/
structure FileExact (fst : DiskBlock) (byte : ℕ → UInt8) (file : NewFile) : Prop where
  name : Fst.name fst = file.name
  recfm : Fst.recfm fst = fstDFix
  ptrsz : fst 53 = 4
  lrecl : Fst.lrecl fst = file.lrecl
  aic : Fst.aic fst = file.recs.length
  adbc : Fst.adbc fst = (file.recs.length * file.lrecl + 4095) / 4096
  nlvl : Fst.nlvl fst = Nat.clog 1024 (Fst.adbc fst)
  bytes : ∀ j r, file.recs[j]? = some r → ∀ i < file.lrecl, byte (j * file.lrecl + i) = r i

/-- A byte of a record is in one of the blocks. -/
theorem FileExact.pos_lt {fst : DiskBlock} {byte : ℕ → UInt8} {file : NewFile}
    (h : FileExact fst byte file) {j i : ℕ} (hj : j < file.recs.length) (hi : i < file.lrecl) :
    (j * file.lrecl + i) / 4096 < Fst.adbc fst := by
  have hle : (j + 1) * file.lrecl ≤ file.recs.length * file.lrecl := Nat.mul_le_mul_right _ hj
  rw [Nat.add_one_mul] at hle
  rw [h.adbc]
  omega

/-- Whether a file is exactly on the disk depends on its entry and on its bytes. -/
theorem FileExact.congr {fst fst' : DiskBlock} {byte byte' : ℕ → UInt8} {file : NewFile}
    (h : FileExact fst byte file) (hsame : SameFst fst' fst)
    (hbyte : ∀ pos, pos / 4096 < Fst.adbc fst → byte' pos = byte pos) :
    FileExact fst' byte' file where
  name := hsame.name.trans h.name
  recfm := (hsame 30 (by decide)).trans h.recfm
  ptrsz := (hsame 53 (by decide)).trans h.ptrsz
  lrecl := (hsame.word (by decide)).trans h.lrecl
  aic := (hsame.word (by decide)).trans h.aic
  adbc := (hsame.word (by decide)).trans h.adbc
  nlvl := by
    have hadbc : Fst.adbc fst' = Fst.adbc fst := hsame.word (by decide)
    rw [hadbc, ← h.nlvl]
    exact congrArg UInt8.toNat (hsame 52 (by decide))
  bytes j r hr i hi := by
    obtain ⟨hj, -⟩ := List.getElem?_eq_some_iff.1 hr
    rw [hbyte _ (h.pos_lt hj hi)]
    exact h.bytes j r hr i hi

/-- Byte `pos` of a file on a disk, by the pointers there. -/
def diskByte (disk : ℕ → DiskBlock) (fst : DiskBlock) (pos : ℕ) : UInt8 :=
  disk (dataLba disk fst (pos / 4096)) (pos % 4096)

/-! ### One session -/

/-- What can be asked for: a file of another name, with records of one byte up to a block,
or a record for a file that was created. -/
def VolumeAsked (ebcdic : UInt8 → UInt8) (t : VolumeSession) : VolumeCall → Prop
  | .create fn ft lrecl _ => 0 < lrecl ∧ lrecl ≤ 4096 ∧ ∀ k < t.loader.view.entries,
      t.loader.view.entryName k ≠ Fst.name (createdFst ebcdic fn ft lrecl)
  | .append i _ => ∃ k, t.owner i = some k

/-- There are free blocks for a data block, and for the levels of pointers over it. -/
def VolumeRoom (t : VolumeSession) : VolumeCall → Prop
  | .create _ _ _ _ => Free t.loader.view (Fst.adbc (t.loader.view.entry 1))
      (Fst.nlvl (t.loader.view.entry 0) + 2)
  | .append _ _ => Free t.loader.view (Fst.adbc (t.loader.view.entry 1)) 3

section

variable {disk fsts : ℕ → DiskBlock} {ebcdic : UInt8 → UInt8} {s : Loader}
  {t t' : VolumeSession} {call : VolumeCall} {calls : List VolumeCall} {files : ℕ → NewFile} {k : ℕ}

namespace VolumeOk

/-- **One call keeps the volume**: its records, its trees, its map. -/
theorem step (h : VolumeOk disk t) (hmeets : VolumeMeets t call)
    (hstep : VolumeStep ebcdic t call t') : VolumeOk disk t' := by
  cases call with
  | create fn ft lrecl i => exact h.create hmeets hstep
  | append i buf => exact h.append hmeets hstep

/-- The files of the disk are not given records. -/
theorem step_files (h : VolumeOk disk t) (hstep : VolumeStep ebcdic t call t')
    (hk : k < Fst.aic (diskDir disk)) : t'.files k = t.files k := by
  cases call with
  | create fn ft lrecl i =>
    obtain ⟨-, -, -, -, -, hfiles⟩ := hstep
    have hlast := h.first.2
    rw [hfiles, Function.update_of_ne (by omega)]
  | append i buf =>
    obtain ⟨k', howner, -, -, hfiles⟩ := hstep
    have hlast := (h.owner i k' howner).1
    rw [hfiles, Function.update_of_ne (by omega)]

/-- **A call returns** if there are free blocks. -/
theorem returns (h : VolumeOk disk t) (hmeets : VolumeMeets t call)
    (hasked : VolumeAsked ebcdic t call) (hroom : VolumeRoom t call) :
    ∃ t', VolumeStep ebcdic t call t' := by
  cases call with
  | create fn ft lrecl i =>
    obtain ⟨hpos, hle, hnew⟩ := hasked
    obtain ⟨u, hu, -⟩ := (h.entryAdded_spec (Function.update t.loader.fsts i
      (createdFst ebcdic fn ft lrecl)) (createdFst ebcdic fn ft lrecl) hmeets id).returns hroom
    exact ⟨⟨u, _, _⟩, hpos, hle, hnew, (createFile_eq _ _ _ _ _ _).trans hu, rfl, rfl⟩
  | append i buf =>
    obtain ⟨k, howner⟩ := hasked
    obtain ⟨u, hu, -⟩ := (h.recordAdded_spec howner buf hmeets id).returns hroom
    exact ⟨⟨u, _, _⟩, k, howner, hu, rfl, rfl⟩

/-- A file that was created. -/
theorem fileExact (h : VolumeOk disk t) (hk : Fst.aic (diskDir disk) ≤ k)
    (hlt : k < t.loader.view.entries) : FileExact (t.loader.view.entry k)
      (t.loader.view.fileByte (Fst.name (t.loader.view.entry k))) (t.files k) := by
  have hfile := h.file k hk hlt
  obtain ⟨hname, hlrecl⟩ := h.made k hk hlt
  constructor
  case name => exact hname
  case recfm => exact hfile.recfm
  case ptrsz => exact hfile.ptrsz
  case lrecl => exact hlrecl
  case aic => exact hfile.aic
  case adbc => rw [← hlrecl, ← hfile.aic, hfile.blocks]
  case nlvl => exact (h.forest.tree k (Or.inr ⟨hk, hlt⟩)).nlvl_eq
  case bytes =>
    rw [← hlrecl]
    exact hfile.bytes

end VolumeOk

/-- **The volume behind every guarded run** is in order, and the files that were there are as
they were. -/
theorem volumeOk_of_run (hdisk : WellFormedVolume disk) (hmount : mountFs disk fsts = some s)
    (hrun : Run (guarded VolumeMeets (VolumeStep ebcdic)) ⟨s, fun _ => none, files⟩ calls t) :
    VolumeOk disk t ∧ ∀ k < Fst.aic (diskDir disk), t.files k = files k :=
  hrun.invariant (P := fun t => VolumeOk disk t ∧ ∀ k < Fst.aic (diskDir disk), t.files k = files k)
    ⟨volumeOk_of_mountFs hdisk files hmount, fun _ _ => rfl⟩ fun _ _ _ h hstep =>
      ⟨h.1.step hstep.1 hstep.2, fun k hk => (h.1.step_files hstep.2 hk).trans (h.2 k hk)⟩

/-- **The files of a session have their records.**  In every state that calls which meet
their conditions lead to, no write went outside of a block; each file that was created has
its name, its records and the blocks that these need; each block of the files that the
loader knows is at a place of its own, which is marked and not one of another file; and the
next call that meets its condition returns, if there are free blocks. -/
theorem session_exact (hdisk : WellFormedVolume disk) (hmount : mountFs disk fsts = some s)
    (hrun : Run (guarded VolumeMeets (VolumeStep ebcdic)) ⟨s, fun _ => none, files⟩ calls t) :
    t.loader.stray = false ∧
      (∀ k, Fst.aic (diskDir disk) ≤ k → k < t.loader.view.entries →
        FileExact (t.loader.view.entry k)
          (t.loader.view.fileByte (Fst.name (t.loader.view.entry k))) (t.files k)) ∧
      (∀ key, t.Has disk key → ∃ lba, t.loader.view.lba key = some lba ∧ lba ≠ 0 ∧
        t.loader.view.bit (lba - 1) = true ∧ ¬ OldBlock disk lba ∧
        ∀ key', t.Has disk key' → t.loader.view.lba key' = some lba → key' = key) ∧
      ∀ call, VolumeMeets t call → VolumeAsked ebcdic t call → VolumeRoom t call →
        ∃ t', VolumeStep ebcdic t call t' := by
  have h := (volumeOk_of_run hdisk hmount hrun).1
  refine ⟨h.stray, fun k hk hlt => h.fileExact hk hlt, fun key hkey => ?_,
    fun call hmeets hasked hroom => h.returns hmeets hasked hroom⟩
  obtain ⟨lba, hlba, hne, hset, hkept, -⟩ := h.forest.place key hkey
  exact ⟨lba, hlba, hne, hset, hkept, fun key' hkey' hlba' =>
    h.forest.inj key' key hkey' hkey (hlba'.trans hlba.symm)⟩

end

/-! ### Disks with empty files -/

/-- The directory is in block 5, the allocation map in block 6, and the other files are
empty. -/
structure EmptyFiles (disk : ℕ → DiskBlock) : Prop where
  nlvl : ∀ k < Fst.aic (diskDir disk), Fst.nlvl (diskEntry disk k) = 0
  adbc : ∀ k < Fst.aic (diskDir disk), Fst.adbc (diskEntry disk k) = if k < 2 then 1 else 0
  fop : ∀ k < 2, Fst.fop (diskEntry disk k) = 5 + k
  map : Fst.adbc (slot (diskDir disk) 1) = 1
  bits : ∀ y < 6, diskBit disk y = true

namespace EmptyFiles

variable {disk : ℕ → DiskBlock}

/-- On a volume of empty files the only blocks are those of the two files the mount makes sure
of. -/
theorem has (h : EmptyFiles disk) {k : ℕ} {key : BlockKey} (hk : k < Fst.aic (diskDir disk))
    (hkey : (treeOf (diskEntry disk k)).Has key) :
    k < 2 ∧ key = ⟨Fst.name (diskEntry disk k), 0, 0⟩ ∧
      diskPlace disk (diskEntry disk k) key = 5 + k := by
  have hnlvl := h.nlvl k hk
  obtain ⟨name, level, blkNo⟩ := key
  obtain ⟨hname, hlevel, hlt⟩ := hkey
  dsimp only at hname hlevel hlt
  obtain rfl : level = 0 := Nat.le_zero.1 (hlevel.trans_eq hnlvl)
  have hlt' : blkNo * 1024 ^ 0 < if k < 2 then 1 else 0 := hlt.trans_eq (h.adbc k hk)
  rw [pow_zero, Nat.mul_one] at hlt'
  by_cases htwo : k < 2
  · rw [if_pos htwo] at hlt'
    obtain rfl : blkNo = 0 := by omega
    refine ⟨htwo, by rw [hname]; rfl, ?_⟩
    rw [diskPlace, hnlvl]
    exact h.fop k htwo
  · rw [if_neg htwo] at hlt'
    exact absurd hlt' (Nat.not_lt_zero _)

/-- Such a volume is well formed. -/
theorem wellFormedVolume (h : EmptyFiles disk) (hdisk : WellFormedDisk disk) :
    WellFormedVolume disk where
  toWellFormedDisk := hdisk
  least k hk hne := absurd (h.nlvl k hk) hne
  marked k hk key hkey := by
    obtain ⟨htwo, -, hplace⟩ := h.has hk hkey
    rw [hplace, h.map]
    exact ⟨by omega, by omega, h.bits _ (by omega)⟩
  apart k k' key key' hk hk' hkey hkey' heq := by
    obtain ⟨-, rfl, hplace⟩ := h.has hk hkey
    obtain ⟨-, rfl, hplace'⟩ := h.has hk' hkey'
    obtain rfl : k = k' := by omega
    rfl
  label := by
    refine ⟨by rw [h.map]; decide, h.bits 2 (by decide), fun k hk key hkey heq => ?_⟩
    obtain ⟨-, -, hplace⟩ := h.has hk hkey
    omega

end EmptyFiles

/-- The example's full volume can be mounted. -/
theorem mountableVolume_fullDisk : MountableVolume fullDisk := by
  have hempty : EmptyFiles fullDisk := by constructor <;> decide +kernel
  refine { hempty.wellFormedVolume wellFormedDisk_fullDisk with
    ident := ?_, dbsiz := ?_, offst := ?_, fstsz := ?_, names := ?_, recfms := ?_, dop := ?_ }
  all_goals decide +kernel

/-- The record of blanks. -/
def blankRecord : ℕ → UInt8 := fun _ => 0x40

/-- The record of `A`s. -/
def letterRecord : ℕ → UInt8 := fun _ => 0xC1

/-- `NEWFILES NEWTYPES` is created on `fullDisk` and gets two records. -/
def newCalls : List VolumeCall :=
  [] ++ [.create newFn newFt 80 0] ++ [.append 0 blankRecord] ++ [.append 0 letterRecord]

/-- The file with records. -/
def newFileOf (recs : List (ℕ → UInt8)) : NewFile :=
  ⟨Fst.name (createdFst ebcdicLetter newFn newFt 80), 80, recs⟩

/-- A session that has created one file, in entry `k`, with the FST of caller 0. -/
def oneFile (files : ℕ → NewFile) (k : ℕ) (s : Loader) (file : NewFile) : VolumeSession :=
  ⟨s, Function.update (fun _ => none) 0 (some k), Function.update files k file⟩

/-- A record for the file, as long as it has no pointer blocks. -/
theorem oneFile_append {ebcdic : UInt8 → UInt8} {s u : Loader} {buf : ℕ → UInt8}
    (files : ℕ → NewFile) (k : ℕ) (file : NewFile) (hnlvl : Fst.nlvl (s.fsts 0) = 0)
    (happend : s.appendRecord (.caller 0) buf = some u) :
    guarded VolumeMeets (VolumeStep ebcdic) (oneFile files k s file) (.append 0 buf)
      (oneFile files k u { file with recs := file.recs ++ [buf] }) := by
  refine ⟨?_, k, by simp [oneFile], happend, rfl, by simp [oneFile]⟩
  rintro - ⟨l, hl, -⟩
  exact absurd (hl.trans_eq hnlvl) (Nat.not_lt_zero l)

/-- `newLoader` with one record in the file. -/
@[irreducible] def recordLoader : Loader :=
  (newLoader.appendRecord (.caller 0) blankRecord).getD newLoader

/-- With both. -/
@[irreducible] def recordsLoader : Loader :=
  (recordLoader.appendRecord (.caller 0) letterRecord).getD recordLoader

/-- The first append of the example, by evaluation. -/
theorem appendRecord_newLoader :
    newLoader.appendRecord (.caller 0) blankRecord = some recordLoader := by
  unfold recordLoader
  exact (Option.getD_of_ne_none (Option.isSome_iff_ne_none.1 (by decide +kernel)) _).symm

/-- The second append of the example, by evaluation. -/
theorem appendRecord_recordLoader :
    recordLoader.appendRecord (.caller 0) letterRecord = some recordsLoader := by
  unfold recordsLoader
  exact (Option.getD_of_ne_none (Option.isSome_iff_ne_none.1 (by decide +kernel)) _).symm

/-- The directory of the example's volume can get a block. -/
theorem grows_fullLoader : (treeOf (fullLoader.view.entry 0)).Grows fullLoader.view := by
  have hnlvl : Fst.nlvl (fullLoader.view.entry 0) = 0 := by decide +kernel
  refine ⟨fun l hl _ => ?_, ?_⟩
  · obtain rfl : l = 0 := Nat.le_zero.1 (hl.trans_eq hnlvl)
    have habsent : fullLoader.view.lba ((treeOf (fullLoader.view.entry 0)).path 0) = none := by
      decide +kernel
    exact habsent
  · rintro ⟨l, hl, -⟩
    exact absurd (hl.trans_eq hnlvl) (Nat.not_lt_zero l)

/-- The example's volume is mounted with 64 entries. -/
theorem entries_fullLoader : fullLoader.view.entries = 64 := by decide +kernel

/-- A file can be created on the example's volume. -/
theorem volumeMeets_fullLoader (files : ℕ → NewFile) (fn ft : List UInt8) (lrecl i : ℕ) :
    VolumeMeets ⟨fullLoader, fun _ => none, files⟩ (.create fn ft lrecl i) :=
  ⟨by show fullLoader.view.entries < 2 ^ 26; rw [entries_fullLoader]; decide,
    fun _ => grows_fullLoader⟩

/-- **The example's session runs**: a file is created and gets two records. -/
theorem run_newCalls (files : ℕ → NewFile) :
    ∃ t, Run (guarded VolumeMeets (VolumeStep ebcdicLetter)) ⟨fullLoader, fun _ => none, files⟩
      newCalls t ∧ t.loader.view.entries = 65 ∧
        t.files 64 = newFileOf [blankRecord, letterRecord] := by
  have hnames : ∀ k < 64, fullLoader.view.entryName k ≠
      Fst.name (createdFst ebcdicLetter newFn newFt 80) := by decide +kernel
  have hcreate : VolumeStep ebcdicLetter ⟨fullLoader, fun _ => none, files⟩
      (.create newFn newFt 80 0) (oneFile files 64 newLoader (newFileOf [])) :=
    ⟨by decide, by decide, fun k hk => hnames k (hk.trans_eq entries_fullLoader),
      edfStep_fullLoader.1, by rw [entries_fullLoader]; rfl, by rw [entries_fullLoader]; rfl⟩
  have hlevels : Fst.nlvl (newLoader.fsts 0) = 0 ∧ Fst.nlvl (recordLoader.fsts 0) = 0 := by
    decide +kernel
  refine ⟨_, Run.snoc (Run.snoc (Run.snoc Run.nil
    ⟨volumeMeets_fullLoader files newFn newFt 80 0, hcreate⟩)
    (oneFile_append files 64 _ hlevels.1 appendRecord_newLoader))
    (oneFile_append files 64 _ hlevels.2 appendRecord_recordLoader), ?_,
    by simp [oneFile, newFileOf]⟩
  show recordsLoader.view.entries = 65
  decide +kernel

/-- The file and its two records in the session of the example: it has exactly these
records, in one block of its own. -/
theorem session_exact_new : ∃ t : VolumeSession, FileExact (t.loader.view.entry 64)
    (t.loader.view.fileByte (Fst.name (t.loader.view.entry 64)))
    (newFileOf [blankRecord, letterRecord]) := by
  obtain ⟨t, hrun, hentries, hfile⟩ := run_newCalls fun _ => ⟨directorName, 0, []⟩
  have hexact := (session_exact mountableVolume_fullDisk.toWellFormedVolume mountFs_fullDisk
    hrun).2.1 64 (by decide +kernel) (by omega)
  rw [hfile] at hexact
  exact ⟨t, hexact⟩

/-! ### Sessions -/

/-- **A disk, and the files that sessions have created on it**: what each was created with,
and the records it was given. -/
structure Volume where
  disk : ℕ → DiskBlock
  files : ℕ → NewFile

/-- A session from `mount_fs` to `writeback_buffers`, by what the callers' FSTs hold first
and what is called. -/
def SessionStep (ebcdic : UInt8 → UInt8) (v : Volume) (e : (ℕ → DiskBlock) × List VolumeCall)
    (v' : Volume) : Prop :=
  ∃ s t, mountFs v.disk e.1 = some s ∧
    Run (guarded VolumeMeets (VolumeStep ebcdic)) ⟨s, fun _ => none, v.files⟩ e.2 t ∧
    t.loader.writeback = some v'.disk ∧ v'.files = t.files

/-- **A file on two disks**: the same entry, and the same bytes in its blocks, wherever
these are. -/
structure SameOnDisk (disk disk' : ℕ → DiskBlock) (k : ℕ) : Prop where
  fst : SameFst (diskEntry disk' k) (diskEntry disk k)
  byte : ∀ pos, pos / 4096 < Fst.adbc (diskEntry disk k) →
    diskByte disk' (diskEntry disk' k) pos = diskByte disk (diskEntry disk k) pos

/-- A file left alone by two sessions is left alone by both. -/
theorem SameOnDisk.trans {disk disk' disk'' : ℕ → DiskBlock} {k : ℕ}
    (h : SameOnDisk disk disk' k) (h' : SameOnDisk disk' disk'' k) : SameOnDisk disk disk'' k where
  fst := h'.fst.trans h.fst
  byte pos hpos := by
    have hadbc : Fst.adbc (diskEntry disk' k) = Fst.adbc (diskEntry disk k) :=
      h.fst.word (by decide)
    rw [h'.byte pos (by rwa [hadbc]), h.byte pos hpos]

section

variable {disk disk' : ℕ → DiskBlock} {t : VolumeSession} {k : ℕ}

namespace Written

/-- The files that the loader did not know. -/
theorem sameOnDisk (hw : Written disk t disk') (h : VolumeOk disk t) (htwo : 2 ≤ k)
    (hk : k < Fst.aic (diskDir disk)) : SameOnDisk disk disk' k where
  fst := hw.sameFst_old h (by omega) hk
  byte pos hpos := by
    have hhas : (treeOf (diskEntry disk k)).Has ⟨Fst.name (diskEntry disk k), 0, pos / 4096⟩ :=
      ⟨rfl, Nat.zero_le _, by
        show pos / 4096 * 1024 ^ 0 < Fst.adbc (diskEntry disk k)
        rwa [pow_zero, Nat.mul_one]⟩
    obtain ⟨heq, hkept⟩ := hw.place_old h htwo hk hhas
    rw [diskByte, diskByte, dataLba_eq, dataLba_eq]
    rw [diskPlace, diskPlace, Nat.sub_zero, Nat.sub_zero] at heq
    rw [diskPlace, Nat.sub_zero] at hkept
    rw [heq, hkept]

/-- The files that were created. -/
theorem fileExact (hw : Written disk t disk') (h : VolumeOk disk t)
    (hk : Fst.aic (diskDir disk) ≤ k) (hlt : k < t.loader.view.entries) :
    FileExact (diskEntry disk' k) (diskByte disk' (diskEntry disk' k)) (t.files k) := by
  have hroom := h.dir.room
  rw [hw.entry_eq h (by omega)]
  refine (h.fileExact hk hlt).congr (SameFst.refl _) fun pos hpos => ?_
  rw [diskByte, hw.data h (Or.inr ⟨hk, hlt⟩) hpos]
  rfl

end Written

end

/-- **What holds behind sessions that began with `v`.** The disk can be mounted, every file
created since has its records on it, and every file that was there is as it was. -/
structure Durable (v v' : Volume) : Prop where
  disk : MountableVolume v'.disk
  two : 2 ≤ Fst.aic (diskDir v.disk)
  more : Fst.aic (diskDir v.disk) ≤ Fst.aic (diskDir v'.disk)
  new : ∀ k, Fst.aic (diskDir v.disk) ≤ k → k < Fst.aic (diskDir v'.disk) →
    FileExact (diskEntry v'.disk k) (diskByte v'.disk (diskEntry v'.disk k)) (v'.files k)
  old : ∀ k, 2 ≤ k → k < Fst.aic (diskDir v.disk) → SameOnDisk v.disk v'.disk k

/-- No session loses nothing. -/
theorem Durable.refl {v : Volume} (hdisk : MountableVolume v.disk) : Durable v v where
  disk := hdisk
  two := hdisk.two
  more := le_rfl
  new _ hk hlt := absurd hk (Nat.not_le.2 hlt)
  old _ _ _ := ⟨SameFst.refl _, fun _ _ => rfl⟩

/-- A session more. -/
theorem Durable.step {ebcdic : UInt8 → UInt8} {v u v' : Volume}
    {e : (ℕ → DiskBlock) × List VolumeCall} (h : Durable v u) (hstep : SessionStep ebcdic u e v') :
    Durable v v' := by
  obtain ⟨s, t, hmount, hrun, hwrite, hfiles⟩ := hstep
  obtain ⟨hok, hkept⟩ := volumeOk_of_run h.disk.toWellFormedVolume hmount hrun
  obtain ⟨disk', hwrite', hw⟩ := hok.written
  obtain rfl : disk' = v'.disk := Option.some.inj (hwrite'.symm.trans hwrite)
  have haic : Fst.aic (diskDir v'.disk) = t.loader.view.entries := by
    rw [hw.diskDir_eq hok]
    rfl
  have hlast := hok.first.2
  have hmore := h.more
  constructor
  case disk => exact hok.remount h.disk hw
  case two => exact h.two
  case more => omega
  case new =>
    intro k hk hlt
    rw [hfiles]
    by_cases hnew : Fst.aic (diskDir u.disk) ≤ k
    · exact hw.fileExact hok hnew (by omega)
    · -- a file of a session before
      have htwo : 2 ≤ k := h.two.trans hk
      have hsame := hw.sameOnDisk hok htwo (by omega)
      rw [hkept k (by omega)]
      exact (h.new k hk (by omega)).congr hsame.fst hsame.byte
  case old =>
    intro k htwo hk
    exact (h.old k htwo hk).trans (hw.sameOnDisk hok htwo (by omega))

/-- **Any number of guarded sessions lose nothing**, by induction on the sessions. -/
theorem durable_of_run {ebcdic : UInt8 → UInt8} {v v' : Volume}
    {es : List ((ℕ → DiskBlock) × List VolumeCall)} (hdisk : MountableVolume v.disk)
    (hrun : Run (SessionStep ebcdic) v es v') : Durable v v' :=
  hrun.invariant (P := Durable v) (Durable.refl hdisk) fun _ _ _ h hstep => h.step hstep

/-- **What sessions have written is on the disk.**  Behind any number of sessions the disk
can be mounted, and a session that begins with it can be written back; the files that were
created have their records, by the pointers on the disk; and the files that were there
before are as they were. -/
theorem sessions_durable {ebcdic : UInt8 → UInt8} {v v' : Volume}
    {es : List ((ℕ → DiskBlock) × List VolumeCall)} (hdisk : MountableVolume v.disk)
    (hrun : Run (SessionStep ebcdic) v es v') :
    (∀ fsts, ∃ s, mountFs v'.disk fsts = some s ∧ ∀ calls t,
      Run (guarded VolumeMeets (VolumeStep ebcdic)) ⟨s, fun _ => none, v'.files⟩ calls t →
        ∃ disk', t.loader.writeback = some disk') ∧
      (∀ k, Fst.aic (diskDir v.disk) ≤ k → k < Fst.aic (diskDir v'.disk) →
        FileExact (diskEntry v'.disk k) (diskByte v'.disk (diskEntry v'.disk k)) (v'.files k)) ∧
      ∀ k, 2 ≤ k → k < Fst.aic (diskDir v.disk) → SameOnDisk v.disk v'.disk k := by
  have h := durable_of_run hdisk hrun
  refine ⟨fun fsts => ?_, h.new, h.old⟩
  obtain ⟨s, hmount⟩ := h.disk.mountFs_returns fsts
  refine ⟨s, hmount, fun calls t hrun' => ?_⟩
  obtain ⟨disk', hwrite, -⟩ :=
    (volumeOk_of_run h.disk.toWellFormedVolume hmount hrun').1.written
  exact ⟨disk', hwrite⟩

/-- The session in which `NEWFILES NEWTYPES` is created. -/
theorem run_newSession : ∃ v, Run (SessionStep ebcdicLetter)
    ⟨fullDisk, fun _ => ⟨directorName, 0, []⟩⟩ ([] ++ [(fun _ _ => 0, newCalls)]) v ∧
      Fst.aic (diskDir v.disk) = 65 ∧
      v.files 64 = newFileOf [blankRecord, letterRecord] := by
  obtain ⟨t, hrun, hentries, hfile⟩ := run_newCalls fun _ => ⟨directorName, 0, []⟩
  have h := (volumeOk_of_run mountableVolume_fullDisk.toWellFormedVolume mountFs_fullDisk hrun).1
  obtain ⟨disk, hwrite, hw⟩ := h.written
  refine ⟨⟨disk, t.files⟩,
    Run.snoc Run.nil ⟨fullLoader, t, mountFs_fullDisk, hrun, hwrite, rfl⟩, ?_, hfile⟩
  rw [hw.diskDir_eq h]
  exact hentries

/-- The file and its two records behind that session, found through the pointers of the disk
that was written. -/
theorem sessions_durable_new : ∃ disk, FileExact (diskEntry disk 64)
    (diskByte disk (diskEntry disk 64)) (newFileOf [blankRecord, letterRecord]) := by
  obtain ⟨v, hrun, haic, hfile⟩ := run_newSession
  have hexact := (sessions_durable mountableVolume_fullDisk hrun).2.1 64 (by decide +kernel)
    (by omega)
  rw [hfile] at hexact
  exact ⟨v.disk, hexact⟩

end Hvf
