/-
# A nucleus that the installer wrote

The installer writes the nucleus as a file of a volume, `readnucleus` of the loader reads it
by the label, the first block of the directory and one block of pointers.  A file that a
session has created with the name of the nucleus and with records of a block each is at
`TEMP_BASE` in the end (`installed_nucleus`), if it has from 2 to 1023 of them: a file of one
block has no block of pointers, and the pointer of block 1023 is one that the installer
writes in front of the buffer.  The directory is in one block, and the volume in the cylinders
that a seek can name.
-/

import Hvf.Installer.EdfDurable
import Hvf.Loader.NucleusBlocks

namespace Hvf

open Bytes Loader StepRun

/-- The blocks of a volume are where `read_blk` seeks for them. -/
def OnCylinders (disk : ℕ → DiskBlock) (dasd : SeekAddress → DiskBlock) : Prop :=
  ∀ lba, 0 < lba → lba ≤ lastLba → dasd (seekAddress lba) = disk lba

/-- A volume that the loader can read: all blocks have an address, and the directory has
one block. -/
structure LoadableVolume (disk : ℕ → DiskBlock) (dasd : SeekAddress → DiskBlock) : Prop
    extends MountableVolume disk where
  cylinders : OnCylinders disk dasd
  map_le : Fst.adbc (slot (diskDir disk) 1) ≤ 360
  aic_le : Fst.aic (diskDir disk) ≤ 64

namespace LoadableVolume

variable {disk : ℕ → DiskBlock} {dasd : SeekAddress → DiskBlock} {m : Mem} {k : ℕ}

/-- A block of a file. -/
theorem block (h : LoadableVolume disk dasd) (hk : k < Fst.aic (diskDir disk)) {key : BlockKey}
    (hkey : (treeOf (diskEntry disk k)).Has key) :
    diskPlace disk (diskEntry disk k) key ≠ 0 ∧
      dasd (seekAddress (diskPlace disk (diskEntry disk k) key)) =
        disk (diskPlace disk (diskEntry disk k) key) := by
  obtain ⟨hne, hlt, -⟩ := h.marked k hk key hkey
  have hmap := h.map_le
  exact ⟨hne, h.cylinders _ (Nat.pos_of_ne_zero hne) (by rw [lastLba]; omega)⟩

/-- Data block `b` of a file. -/
theorem dataBlock (h : LoadableVolume disk dasd) (hk : k < Fst.aic (diskDir disk)) {b : ℕ}
    (hb : b < Fst.adbc (diskEntry disk k)) : dataLba disk (diskEntry disk k) b ≠ 0 ∧
      dasd (seekAddress (dataLba disk (diskEntry disk k) b)) =
        disk (dataLba disk (diskEntry disk k) b) := by
  have hkey : (treeOf (diskEntry disk k)).Has ⟨Fst.name (diskEntry disk k), 0, b⟩ :=
    ⟨rfl, Nat.zero_le _, by
      show b * 1024 ^ 0 < Fst.adbc (diskEntry disk k)
      rwa [pow_zero, Nat.mul_one]⟩
  have hblock := h.block hk hkey
  rwa [show diskPlace disk (diskEntry disk k) ⟨Fst.name (diskEntry disk k), 0, b⟩ =
    dataLba disk (diskEntry disk k) b from (dataLba_eq _ _ _).symm] at hblock

/-- The block the loader takes for the label is the volume's third one. -/
theorem labelBlock_eq (h : LoadableVolume disk dasd) : labelBlock dasd = disk 3 :=
  h.cylinders 3 (by decide) (by decide)

/-- The block it takes for the directory is the directory's first. -/
theorem directoryBlock_eq (h : LoadableVolume disk dasd) : directoryBlock dasd = diskDir disk := by
  have htwo := h.two
  have hpos := h.dirBlocks_pos
  have hentry : diskEntry disk 0 = diskDir disk := by rw [h.entry_eq (by decide), slot_zero]
  have hblock := (h.dataBlock (k := 0) (by omega) (b := 0) (by rwa [hentry])).2
  rw [hentry, h.dop] at hblock
  rw [directoryBlock, h.labelBlock_eq, hblock]
  rfl

/-- The directory has no block of pointers. -/
theorem nlvl_eq (h : LoadableVolume disk dasd) : Fst.nlvl (diskDir disk) = 0 := by
  by_contra hne
  have hleast := h.least 0 (by have := h.two; omega)
  rw [h.entry_eq (by decide), slot_zero] at hleast
  have hpow : 0 < 1024 ^ (Fst.nlvl (diskDir disk) - 1) := by positivity
  have hlt := hleast hne
  have htight := h.tight
  have haic := h.aic_le
  omega

/-- An entry the loader scans is the one the installer wrote. -/
theorem sameFst_scanned (h : LoadableVolume disk dasd) (m : Mem) (hk : k < 64) :
    SameFst (slot (scannedEntries dasd m) k) (diskEntry disk k) := by
  have hscanned : SameFst (slot (scannedEntries dasd m) k) (slot (directoryBlock dasd) k) :=
    slot_scanned m hk
  rwa [h.directoryBlock_eq, ← h.entry_eq hk] at hscanned

/-- **The entry is found** by the name of its file. -/
theorem findSlot_scanned (h : LoadableVolume disk dasd) (m : Mem) {name : FileName}
    (hk : k < Fst.aic (diskDir disk)) (hname : Fst.name (diskEntry disk k) = name) :
    findSlot 64 (scannedEntries dasd m) name = some k := by
  have haic := h.aic_le
  refine List.find?_range_eq_some.2 ⟨decide_eq_true ?_, List.mem_range.2 (by omega), fun j hj => ?_⟩
  · rw [(h.sameFst_scanned m (by omega)).name, hname]
  · rw [Bool.not_eq_true', decide_eq_false_iff_not, (h.sameFst_scanned m (by omega)).name]
    intro heq
    have := h.distinct j k (by omega) hk (heq.trans hname.symm)
    omega

end LoadableVolume

/-! ### The nucleus -/

section

variable {disk : ℕ → DiskBlock} {dasd : SeekAddress → DiskBlock} {m : Mem} {k : ℕ} {file : NewFile}

/-- **A nucleus that `readnucleus` can read**: it has the name, records of a block each, and
so many that there is one block of pointers, and no more. -/
structure NewFile.Boots (file : NewFile) : Prop where
  name : file.name = nucleusName
  lrecl : file.lrecl = 4096
  two : 2 ≤ file.recs.length
  lt : file.recs.length < 1024

namespace FileExact

variable {fst : DiskBlock} {byte : ℕ → UInt8}

/-- Each record of the nucleus is a block. -/
theorem adbc_nucleus (h : FileExact fst byte file) (hboots : file.Boots) :
    Fst.adbc fst = file.recs.length := by
  rw [h.adbc, hboots.lrecl]
  omega

/-- The nucleus has one block of pointers. -/
theorem nlvl_nucleus (h : FileExact fst byte file) (hboots : file.Boots) : Fst.nlvl fst = 1 := by
  rw [h.nlvl, h.adbc_nucleus hboots]
  exact Nat.clog_eq_one hboots.two hboots.lt.le

end FileExact

/-- The block of pointers. -/
theorem LoadableVolume.pointerBlock (h : LoadableVolume disk dasd)
    (hk : k < Fst.aic (diskDir disk)) (hboots : file.Boots)
    (hexact : FileExact (diskEntry disk k) (diskByte disk (diskEntry disk k)) file) :
    Fst.fop (diskEntry disk k) ≠ 0 ∧
      dasd (seekAddress (Fst.fop (diskEntry disk k))) = disk (Fst.fop (diskEntry disk k)) := by
  have hnlvl := hexact.nlvl_nucleus hboots
  have hroot : (treeOf (diskEntry disk k)).Has ⟨Fst.name (diskEntry disk k), 1, 0⟩ := by
    refine ⟨rfl, hnlvl.ge, ?_⟩
    dsimp only [treeOf]
    rw [hexact.adbc_nucleus hboots, Nat.zero_mul]
    exact lt_of_lt_of_le Nat.zero_lt_two hboots.two
  have hplace : diskPlace disk (diskEntry disk k) ⟨Fst.name (diskEntry disk k), 1, 0⟩ =
      Fst.fop (diskEntry disk k) := by
    rw [diskPlace, hnlvl]
    rfl
  rw [← hplace]
  exact h.block hk hroot

/-- **The checks are passed** by the entry of the nucleus. -/
theorem LoadableVolume.nucleusOpened (h : LoadableVolume disk dasd) (m : Mem)
    (hk : k < Fst.aic (diskDir disk)) (hboots : file.Boots)
    (hexact : FileExact (diskEntry disk k) (diskByte disk (diskEntry disk k)) file) :
    NucleusOpened dasd m k := by
  have haic := h.aic_le
  have hsame := h.sameFst_scanned m (show k < 64 by omega)
  constructor
  case label =>
    rw [h.labelBlock_eq]
    simp [goodLabel, h.ident, h.dbsiz, h.offst, h.fstsz]
  case dop =>
    rw [h.labelBlock_eq]
    exact h.dop_ne
  case level =>
    rw [h.directoryBlock_eq, slot_zero]
    exact h.nlvl_eq
  case found =>
    rw [h.labelBlock_eq, h.nfst]
    exact h.findSlot_scanned m hk (hexact.name.trans hboots.name)
  case good =>
    have hptrsz : Fst.ptrsz (slot (scannedEntries dasd m) k) = 4 := by
      rw [Fst.ptrsz, hsame 53 (by decide), hexact.ptrsz]
      rfl
    have hlrecl : Fst.lrecl (slot (scannedEntries dasd m) k) = 4096 :=
      (hsame.word (by decide)).trans (hexact.lrecl.trans hboots.lrecl)
    have hrecfm : Fst.recfm (slot (scannedEntries dasd m) k) = fstDFix :=
      (hsame 30 (by decide)).trans hexact.recfm
    have hsize : Fst.aic (diskDir disk) * 64 % 2 ^ 32 ≤ 3 * 1024 * 1024 := by omega
    rw [h.directoryBlock_eq, slot_zero]
    exact decide_eq_true ⟨hptrsz, hlrecl, hrecfm, by rwa [h.lrecl]⟩
  case fop =>
    have hfop : Fst.fop (slot (scannedEntries dasd m) k) = Fst.fop (diskEntry disk k) :=
      hsame.word (by decide)
    rw [hfop]
    exact (h.pointerBlock hk hboots hexact).1

/-- **The pointers of the nucleus** are those of its data blocks. -/
theorem LoadableVolume.scannedPtrs_eq (h : LoadableVolume disk dasd) (m : Mem)
    (hk : k < Fst.aic (diskDir disk)) (hboots : file.Boots)
    (hexact : FileExact (diskEntry disk k) (diskByte disk (diskEntry disk k)) file) {b : ℕ}
    (hb : b < file.recs.length) :
    ptrAt (scannedPtrs dasd m (slot (scannedEntries dasd m) k)) b =
      dataLba disk (diskEntry disk k) b := by
  have haic := h.aic_le
  have hlt : b < 1024 := hb.trans hboots.lt
  have hfop : Fst.fop (slot (scannedEntries dasd m) k) = Fst.fop (diskEntry disk k) :=
    (h.sameFst_scanned m (by omega)).word (by decide)
  have hnode : treeNode disk (diskEntry disk k) 1 b =
      ptrAt (disk (Fst.fop (diskEntry disk k))) (b % 1024) := rfl
  rw [scannedPtrs, ptrAt_storedAt _ _ _ hlt, hfop, (h.pointerBlock hk hboots hexact).2,
    dataLba_eq, hexact.nlvl_nucleus hboots, hnode, Nat.mod_eq_of_lt hlt]

/-- **The loader reads the nucleus** to `TEMP_BASE`, record after record. -/
theorem LoadableVolume.readnucleus (h : LoadableVolume disk dasd) (m : Mem)
    (hk : k < Fst.aic (diskDir disk)) (hboots : file.Boots)
    (hexact : FileExact (diskEntry disk k) (diskByte disk (diskEntry disk k)) file) :
    ∃ m' log, Hvf.readnucleus dasd m = .loaded m' log ∧
      (∀ j r, file.recs[j]? = some r → ∀ i < 4096, m' (tempBase + 4096 * j + i) = r i) ∧
      ∀ a, loaderPtrbuf + 4096 ≤ a → a < tempBase ∨ tempBase + 4096 * file.recs.length ≤ a →
        m' a = m a := by
  have haic := h.aic_le
  have hopened := h.nucleusOpened m hk hboots hexact
  have hcount : Fst.aic (slot (scannedEntries dasd m) k) = file.recs.length :=
    ((h.sameFst_scanned m (by omega)).word (by decide)).trans hexact.aic
  have hdata : ∀ b < file.recs.length, _ := fun b hb =>
    h.dataBlock hk (b := b) (by rwa [hexact.adbc_nucleus hboots])
  obtain ⟨m', hrun, hblocks, hframe⟩ := readBlocks_loaded dasd 0
    [⟨seekAddress (Fst.fop (slot (scannedEntries dasd m) k)), loaderPtrbuf⟩]
    (ptrsAt_opened dasd m k) (show 0 + file.recs.length ≤ 1024 by have := hboots.lt; omega)
    fun b _ hb => by
      rw [h.scannedPtrs_eq m hk hboots hexact (by omega)]
      exact (hdata b (by omega)).1
  have hopen : Hvf.readnucleus dasd m = readBlocks dasd file.recs.length 0 (openedMem dasd m k)
      [⟨seekAddress (Fst.fop (slot (scannedEntries dasd m) k)), loaderPtrbuf⟩] := by
    rw [Hvf.readnucleus, openNucleus_eq_some_iff.2 ⟨hopened, rfl, rfl⟩]
    dsimp only
    rw [hcount]
  refine ⟨m', _, hopen.trans hrun, fun j r hr i hi => ?_, fun a ha hout => ?_⟩
  · obtain ⟨hj, -⟩ := List.getElem?_eq_some_iff.1 hr
    have hbyte := hexact.bytes j r hr i (by rwa [hboots.lrecl])
    rw [hboots.lrecl, diskByte, show (j * 4096 + i) / 4096 = j by omega,
      show (j * 4096 + i) % 4096 = i by omega] at hbyte
    rw [hblocks j (Nat.zero_le j) (by omega) i hi, h.scannedPtrs_eq m hk hboots hexact hj,
      (hdata j hj).2, hbyte]
  · rw [hframe a (by rwa [Nat.mul_zero, Nat.add_zero, Nat.zero_add])]
    exact openedMem_eq k ha

end

/-- **What the installer wrote boots.**  Behind any number of sessions, a file that one of
them created as the nucleus, with from 2 to 1023 records of a block, is read to `TEMP_BASE`:
each record to its place, and nothing else in storage behind the loader's buffers changes.  The
calls of the sessions meet their conditions (`VolumeStep`, `VolumeMeets`). -/
theorem installed_nucleus {ebcdic : UInt8 → UInt8} {v v' : Volume}
    {es : List ((ℕ → DiskBlock) × List VolumeCall)} (hdisk : MountableVolume v.disk)
    (hrun : Run (SessionStep ebcdic) v es v') {dasd : SeekAddress → DiskBlock}
    (hdasd : OnCylinders v'.disk dasd) (hmap : Fst.adbc (slot (diskDir v'.disk) 1) ≤ 360)
    (haic : Fst.aic (diskDir v'.disk) ≤ 64) {k : ℕ} (hk : Fst.aic (diskDir v.disk) ≤ k)
    (hlt : k < Fst.aic (diskDir v'.disk)) (hboots : (v'.files k).Boots) (m : Mem) :
    ∃ m' log, readnucleus dasd m = .loaded m' log ∧
      (∀ j r, (v'.files k).recs[j]? = some r → ∀ i < 4096,
        m' (tempBase + 4096 * j + i) = r i) ∧
      ∀ a, loaderPtrbuf + 4096 ≤ a →
        a < tempBase ∨ tempBase + 4096 * (v'.files k).recs.length ≤ a → m' a = m a := by
  have h := durable_of_run hdisk hrun
  have hload : LoadableVolume v'.disk dasd := ⟨h.disk, hdasd, hmap, haic⟩
  exact hload.readnucleus m hlt hboots (h.new k hk hlt)

/-! ### A nucleus of two blocks -/

/-- Blanks are in names, too. -/
def ebcdicName (c : UInt8) : UInt8 := if c = 0x20 then 0x40 else ebcdicLetter c

/-- `HVF` and `ELF` with their blanks. -/
def cpFn : List UInt8 := [0x48, 0x56, 0x46, 0x20, 0x20, 0x20, 0x20, 0x20]

/-- The file type, as it is before it is translated. -/
def cpFt : List UInt8 := [0x45, 0x4C, 0x46, 0x20, 0x20, 0x20, 0x20, 0x20]

/-- A disk without files. -/
def bootDisk (lba : ℕ) : DiskBlock := fun i =>
  if lba = 5 then
    if i < 64 then (fstBytes directorName 2).getD i 0 else if i < 128 then fullDirectory i else 0
  else if lba = 7 then 0
  else fullDisk lba i

/-- The disk mounted, then with the nucleus, then with its first record. -/
@[irreducible] def bootLoader : Loader :=
  (mountFs bootDisk fun _ _ => 0).getD (firstListed bootDisk fun _ _ => 0)

/-- The example's volume with the nucleus' file created on it. -/
@[irreducible] def bootCreated : Loader :=
  (bootLoader.createFile ebcdicName cpFn cpFt 4096 0).getD bootLoader

/-- The same with its first record written. -/
@[irreducible] def bootFirst : Loader :=
  (bootCreated.appendRecord (.caller 0) blankRecord).getD bootCreated

/-- The example's volume can be mounted. -/
theorem mountableVolume_bootDisk : MountableVolume bootDisk := by
  have hempty : EmptyFiles bootDisk := by constructor <;> decide +kernel
  have haic : Fst.aic (diskDir bootDisk) = 2 := by decide +kernel
  have hnames : ((List.range 2).map fun k => Fst.name (diskEntry bootDisk k)).Nodup := by
    decide +kernel
  have hdistinct : ∀ k k', k < Fst.aic (diskDir bootDisk) → k' < Fst.aic (diskDir bootDisk) →
      Fst.name (diskEntry bootDisk k) = Fst.name (diskEntry bootDisk k') → k = k' := by
    rw [haic]
    exact fun k k' hk hk' heq =>
      List.inj_on_of_nodup_map hnames (List.mem_range.2 hk) (List.mem_range.2 hk') heq
  have hwell : WellFormedDisk bootDisk := by
    refine ⟨?_, ?_, ?_, ?_, ?_, ⟨?_, ?_⟩, ⟨?_, ?_⟩, ?_, hdistinct⟩
    all_goals decide +kernel
  refine { hempty.wellFormedVolume hwell with
    ident := ?_, dbsiz := ?_, offst := ?_, fstsz := ?_, names := ?_, recfms := ?_, dop := ?_ }
  all_goals decide +kernel

/-- Its mount, by evaluation. -/
theorem mountFs_bootDisk : mountFs bootDisk (fun _ _ => 0) = some bootLoader := by
  unfold bootLoader
  exact (Option.getD_of_ne_none (Option.isSome_iff_ne_none.1 (by decide +kernel)) _).symm

/-- A session with the nucleus and its records so far. -/
def bootSession (s : Loader) (recs : List (ℕ → UInt8)) : VolumeSession :=
  oneFile (fun _ => ⟨directorName, 0, []⟩) 2 s ⟨nucleusName, 4096, recs⟩

/-- The session in which the nucleus is created and gets two records. -/
theorem run_bootSession : ∃ v, Run (SessionStep ebcdicName)
    ⟨bootDisk, fun _ => ⟨directorName, 0, []⟩⟩ ([] ++ [(fun _ _ => 0,
      [] ++ [.create cpFn cpFt 4096 0] ++ [.append 0 blankRecord] ++ [.append 0 letterRecord])]) v ∧
      Fst.aic (diskDir v.disk) = 3 ∧ Fst.adbc (slot (diskDir v.disk) 1) = 1 ∧
      v.files 2 = ⟨nucleusName, 4096, [blankRecord, letterRecord]⟩ := by
  have hcreate : bootLoader.createFile ebcdicName cpFn cpFt 4096 0 = some bootCreated := by
    have hsome : (bootLoader.createFile ebcdicName cpFn cpFt 4096 0).isSome := by decide +kernel
    obtain ⟨s, hs⟩ := Option.isSome_iff_exists.1 hsome
    rw [bootCreated, hs, Option.getD_some]
  have hfirst : bootCreated.appendRecord (.caller 0) blankRecord = some bootFirst := by
    have hsome : (bootCreated.appendRecord (.caller 0) blankRecord).isSome := by decide +kernel
    obtain ⟨s, hs⟩ := Option.isSome_iff_exists.1 hsome
    rw [bootFirst, hs, Option.getD_some]
  have hlast : (bootFirst.appendRecord (.caller 0) letterRecord).map (fun u =>
      (u.view.entries, Fst.adbc (u.view.entry 1))) = some (3, 1) := by decide +kernel
  obtain ⟨u, hu, hview⟩ := Option.map_eq_some_iff.1 hlast
  obtain ⟨hentries, hadbc⟩ := Prod.mk.inj hview
  have hstart : bootLoader.view.entries = 2 ∧ bootLoader.view.dirBlocks = 1 := by decide +kernel
  have hnames : ∀ k < 2, bootLoader.view.entryName k ≠ nucleusName := by decide +kernel
  have hname : Fst.name (createdFst ebcdicName cpFn cpFt 4096) = nucleusName := by decide +kernel
  have hlevels : Fst.nlvl (bootCreated.fsts 0) = 0 ∧ Fst.nlvl (bootFirst.fsts 0) = 0 := by
    decide +kernel
  have hcreated : guarded VolumeMeets (VolumeStep ebcdicName)
      ⟨bootLoader, fun _ => none, fun _ => ⟨directorName, 0, []⟩⟩ (.create cpFn cpFt 4096 0)
      (bootSession bootCreated []) := by
    refine ⟨⟨?_, fun hfull => ?_⟩, by decide, by decide, fun k hk => ?_, hcreate, ?_, ?_⟩
    · show bootLoader.view.entries < 2 ^ 26
      omega
    · dsimp only at hfull
      omega
    · rw [hname]
      exact hnames k (hk.trans_eq hstart.1)
    · rw [hstart.1]
      rfl
    · rw [hstart.1, hname]
      rfl
  have hrun := ((Run.nil.snoc hcreated).snoc (oneFile_append _ 2 _ hlevels.1 hfirst)).snoc
    (oneFile_append _ 2 _ hlevels.2 hu)
  have hok := (volumeOk_of_run mountableVolume_bootDisk.toWellFormedVolume mountFs_bootDisk hrun).1
  obtain ⟨disk, hwrite, hw⟩ := hok.written
  refine ⟨⟨disk, _⟩, Run.nil.snoc ⟨bootLoader, _, mountFs_bootDisk, hrun, hwrite, rfl⟩, ?_, ?_,
    by simp [oneFile]⟩
  · rw [hw.diskDir_eq hok]
    exact hentries
  · rw [hw.map_eq hok]
    exact hadbc

/-- The disk behind the session of the example, by its cylinders: a nucleus of two records
is found and read. -/
theorem installed_nucleus_two : ∃ dasd m' log,
    readnucleus dasd (fun _ => 0) = .loaded m' log ∧ m' tempBase = 0x40 ∧
      m' (tempBase + 8191) = 0xC1 ∧ m' (tempBase + 8192) = 0 := by
  obtain ⟨v, hrun, haic, hmap, hfile⟩ := run_bootSession
  have hdasd : OnCylinders v.disk fun addr => v.disk (addr.cc * 180 + addr.hh * 12 + addr.r) := by
    intro lba hpos hle
    rw [lastLba] at hle
    rw [seekAddress]
    dsimp only
    congr 1
    omega
  obtain ⟨m', log, hload, hrecs, hframe⟩ := installed_nucleus mountableVolume_bootDisk hrun hdasd
    (by omega) (by omega) (k := 2) (by decide +kernel) (by omega)
    (by rw [hfile]; constructor <;> decide) fun _ => 0
  rw [hfile] at hrecs hframe
  exact ⟨_, m', log, hload, hrecs 0 blankRecord rfl 0 (by decide),
    hrecs 1 letterRecord rfl 4095 (by decide), hframe _ (by decide) (Or.inr (by decide))⟩

end Hvf
