/-
# Written back and mounted again

At the end the loader writes its buffers back.  Of a sound volume this leaves a disk that
holds the blocks of all files, at the places the pointers on it give (`Written.place`): the
directory, the allocation map and the files that were created have their new blocks, and
the files that the loader did not know are where they were.  The disk is one that can be
mounted again (`VolumeOk.remount`).
-/

import Hvf.Installer.EdfEntries
import Hvf.Installer.EdfMountable

namespace Hvf

open Loader Outcome StepRun

/-- **A volume is sound when it is mounted.** -/
theorem volumeOk_of_mountFs {disk fsts : ℕ → DiskBlock} {s : Loader} (hdisk : WellFormedVolume disk)
    (files : ℕ → NewFile) (h : mountFs disk fsts = some s) :
    VolumeOk disk ⟨s, fun _ => none, files⟩ := by
  have hs := mountFs_mounted hdisk.toWellFormedDisk h
  obtain ⟨hentry, hzero, hone, hdir⟩ := hs.dirOk hdisk.toWellFormedDisk
  have hroom := hdisk.room
  have hentries : s.view.entries = Fst.aic (diskDir disk) := by rw [View.entries, hzero]
  have hlive : Known disk s.view = (· < 2) := by
    funext k
    rw [Known, hentries]
    exact propext (by omega)
  constructor
  case sound => exact hs.pristine.sound
  case volume => exact hs.touches.disk
  case nfst => exact hs.touches.nfst.trans hdisk.nfst
  case stray => exact hs.touches.stray
  case dir => exact hdir
  case dop => exact hs.touches.lba _ _ ((firstListed_view disk fsts dirKey).1.trans (if_pos rfl))
  case small =>
    rw [hone]
    exact hdisk.small
  case first => exact ⟨hdisk.two, hentries.ge⟩
  case marked => exact Or.inr ⟨hentries, by rw [← View.entry_zero, hzero]⟩
  case old =>
    intro k _ hk
    rw [hentry k (by omega)]
    exact SameFst.refl _
  case forest =>
    rw [hlive]
    exact hs.forest hdisk
  case file =>
    intro k hk hlt
    rw [hentries] at hlt
    omega
  case made =>
    intro k hk hlt
    rw [hentries] at hlt
    omega
  case owner => exact fun i k h => by cases h
  case apart => exact fun i j k h => by cases h

/-! ### The disk behind `writeback_buffers` -/

/-- The files that the loader knows in a session. -/
def VolumeSession.Has (disk : ℕ → DiskBlock) (t : VolumeSession) (key : BlockKey) : Prop :=
  Used (Known disk t.loader.view) (fun k => treeOf (t.loader.view.entry k)) key

/-- **A disk with the blocks of the files that the loader knows**; the rest is that of
`disk`. This is all that is to be known of `writeback_buffers`. -/
structure Written (disk : ℕ → DiskBlock) (t : VolumeSession) (disk' : ℕ → DiskBlock) : Prop where
  used : ∀ key lba, t.Has disk key → t.loader.view.lba key = some lba →
    disk' lba = t.loader.view.content key
  kept : ∀ lba, (∀ key, t.Has disk key → t.loader.view.lba key ≠ some lba) → disk' lba = disk lba

section

variable {disk disk' : ℕ → DiskBlock} {t : VolumeSession} {k : ℕ} {key : BlockKey}

namespace VolumeOk

/-- The first block of the directory is in the directory's tree. -/
theorem has_dirKey (h : VolumeOk disk t) : (treeOf (t.loader.view.entry 0)).Has dirKey := by
  have htwo := h.dir.two
  have hroom := h.dir.room
  refine ⟨h.dir.director.symm, Nat.zero_le _, ?_⟩
  show 0 * 1024 ^ 0 < t.loader.view.dirBlocks
  omega

/-- The allocation map has the blocks that it had. -/
theorem map_same (h : VolumeOk disk t) (hdisk : MountableVolume disk) :
    SameFst (t.loader.view.entry 1) (slot (diskDir disk) 1) := by
  have hold := h.old 1 le_rfl h.first.1
  rwa [hdisk.entry_eq (by decide)] at hold

/-- A session leaves the number of blocks of the map. -/
theorem mapBlocks_eq (h : VolumeOk disk t) (hdisk : MountableVolume disk) :
    Fst.adbc (t.loader.view.entry 1) = Fst.adbc (slot (diskDir disk) 1) :=
  (h.map_same hdisk).word (by decide)

/-- **`writeback_buffers` returns.** -/
theorem written (h : VolumeOk disk t) : ∃ disk', t.loader.writeback = some disk' ∧
    Written disk t disk' := by
  have hused : ∀ key, t.loader.view.dirty key = true → t.Has disk key := h.forest.dirty
  obtain ⟨disk', hwrite, hkept, hback⟩ := writeback_eq h.sound fun key lba hdirty hlba => by
    obtain ⟨lba', hlba', hne, -⟩ := h.forest.place key (hused key hdirty)
    rwa [Option.some.inj (hlba.symm.trans hlba')]
  rw [h.volume] at hkept
  have hinj : ∀ key key' lba, t.Has disk key → t.loader.view.lba key = some lba →
      t.loader.view.dirty key' = true → t.loader.view.lba key' = some lba → key' = key :=
    fun key key' lba hkey hlba hdirty hlba' =>
      h.forest.inj key' key (hused key' hdirty) hkey (hlba'.trans hlba.symm)
  refine ⟨disk', hwrite, fun key lba hkey hlba => ?_, fun lba hnone =>
    hkept lba fun key hdirty => hnone key (hused key hdirty)⟩
  by_cases hclean : key = dirKey ∧ t.loader.view.dirty dirKey = false
  · -- nothing was changed
    obtain ⟨rfl, hclean⟩ := hclean
    obtain ⟨-, hcontent⟩ := h.marked.resolve_left (by rw [hclean]; exact Bool.false_ne_true)
    obtain rfl := Option.some.inj (hlba.symm.trans h.dop)
    rw [hcontent, hkept]
    · rfl
    · intro key' hdirty hlba'
      rw [hinj _ key' _ hkey hlba hdirty hlba', hclean] at hdirty
      exact Bool.false_ne_true hdirty
  · refine hback key lba hlba (fun hdir => ?_) fun key' => hinj key key' lba hkey hlba
    rw [hdir]
    by_contra hdirty
    exact hclean ⟨hdir, by simpa using hdirty⟩

end VolumeOk

namespace Written

/-- The places where the loader knows no file are as they were. -/
theorem old_eq (hw : Written disk t disk') (h : VolumeOk disk t) {lba : ℕ}
    (hold : OldBlock disk lba) : disk' lba = disk lba := by
  refine hw.kept lba fun key hkey hlba => ?_
  obtain ⟨lba', hlba', -, -, hnot, -⟩ := h.forest.place key hkey
  obtain rfl := Option.some.inj (hlba.symm.trans hlba')
  exact hnot hold

/-- The label is written over by no session. -/
theorem label_eq (hw : Written disk t disk') (h : VolumeOk disk t) : disk' 3 = disk 3 :=
  hw.old_eq h (Or.inl rfl)

/-- **The directory's entry on the written disk** is the one the loader kept. -/
theorem diskDir_eq (hw : Written disk t disk') (h : VolumeOk disk t) :
    diskDir disk' = t.loader.view.entry 0 := by
  rw [diskDir, hw.label_eq h, hw.used _ _ ⟨0, VolumeOk.zero disk _, h.has_dirKey⟩ h.dop,
    View.entry_zero]

/-- So is the map's entry. -/
theorem map_eq (hw : Written disk t disk') (h : VolumeOk disk t) :
    slot (diskDir disk') 1 = t.loader.view.entry 1 := by
  rw [hw.diskDir_eq h, View.entry_zero]
  rfl

/-- **The pointers on the disk** give the places of the blocks. -/
theorem place (hw : Written disk t disk') (h : VolumeOk disk t)
    (hk : Known disk t.loader.view k) (hkey : (treeOf (t.loader.view.entry k)).Has key) :
    t.loader.view.lba key = some (diskPlace disk' (t.loader.view.entry k) key) := by
  obtain ⟨name, level, blkNo⟩ := key
  obtain ⟨hname, hlevel, hlt⟩ := hkey
  dsimp only at hname hlevel hlt
  subst hname
  have hsub : (treeOf (t.loader.view.entry k)).nlvl -
      ((treeOf (t.loader.view.entry k)).nlvl - level) = level := by omega
  have hused : ∀ key lba, (treeOf (t.loader.view.entry k)).Has key →
      t.loader.view.lba key = some lba → disk' lba = t.loader.view.content key :=
    fun key lba hkey => hw.used key lba ⟨k, hk, hkey⟩
  have hnode := (h.forest.tree k hk).node hused
    (Nat.sub_le (treeOf (t.loader.view.entry k)).nlvl level) (i := blkNo)
    (by rw [hsub]; exact ⟨rfl, hlevel, hlt⟩)
  rw [hsub] at hnode
  exact hnode

/-- The data blocks hold what the loader had in its buffers. -/
theorem data (hw : Written disk t disk') (h : VolumeOk disk t) (hk : Known disk t.loader.view k)
    {b : ℕ} (hb : b < Fst.adbc (t.loader.view.entry k)) :
    disk' (dataLba disk' (t.loader.view.entry k) b) =
      t.loader.view.content ⟨Fst.name (t.loader.view.entry k), 0, b⟩ :=
  (h.forest.tree k hk).walk (fun key lba hkey => hw.used key lba ⟨k, hk, hkey⟩) hb

/-- The entries of the directory. -/
theorem entry_eq (hw : Written disk t disk') (h : VolumeOk disk t)
    (hk : k < 64 * t.loader.view.dirBlocks) : diskEntry disk' k = t.loader.view.entry k := by
  have hblock := hw.data h (VolumeOk.zero disk _) (show k / 64 < Fst.adbc _ by
    show k / 64 < t.loader.view.dirBlocks
    omega)
  rw [show Fst.name (t.loader.view.entry 0) = directorName from h.dir.director] at hblock
  rw [diskEntry, hw.diskDir_eq h, hblock]
  rfl

/-- The allocation map. -/
theorem bit_eq (hw : Written disk t disk') (h : VolumeOk disk t) {y : ℕ}
    (hy : y / 32768 < Fst.adbc (t.loader.view.entry 1)) :
    diskBit disk' y = t.loader.view.bit y := by
  have hblock := hw.data h h.forest.map hy
  rw [show Fst.name (t.loader.view.entry 1) = allocmapName from h.dir.allocmap] at hblock
  rw [diskBit, hw.map_eq h, hblock]
  rfl

end Written

end

/-! ### The files that the loader did not know -/

/-- A block above one of a file. -/
theorem Tree.Has.above {tr : Tree} {key : BlockKey} {e : ℕ} (h : tr.Has key)
    (he : key.level + e ≤ tr.nlvl) : tr.Has ⟨key.name, key.level + e, key.blkNo / 1024 ^ e⟩ := by
  refine ⟨h.1, he, lt_of_le_of_lt ?_ h.2.2⟩
  show key.blkNo / 1024 ^ e * 1024 ^ (key.level + e) ≤ key.blkNo * 1024 ^ key.level
  rw [pow_add, Nat.mul_comm (1024 ^ key.level), ← Nat.mul_assoc]
  exact Nat.mul_le_mul_right _ (Nat.div_mul_le_self _ _)

section

variable {disk disk' : ℕ → DiskBlock} {t : VolumeSession} {k : ℕ} {key : BlockKey}

/-- A file is where it was if the blocks above are as they were. -/
theorem diskPlace_congr {fst fst' : DiskBlock} (hsame : SameFst fst' fst)
    (hdisk : ∀ key, (treeOf fst).Has key → disk' (diskPlace disk fst key) =
      disk (diskPlace disk fst key)) (hkey : (treeOf fst).Has key) :
    diskPlace disk' fst' key = diskPlace disk fst key := by
  have hlevel : key.level ≤ Fst.nlvl fst := hkey.2.1
  have htree := hsame.treeOf_eq
  have hnlvl : Fst.nlvl fst' = Fst.nlvl fst := congrArg Tree.nlvl htree
  have hfop : Fst.fop fst' = Fst.fop fst := congrArg Tree.fop htree
  rw [diskPlace, diskPlace, treeNode, treeNode, hnlvl, hfop]
  refine PtrTree.node_congr fun d' hd' => ?_
  have habove := hdisk _ (hkey.above (e := Fst.nlvl fst - key.level - d')
    (by show _ ≤ Fst.nlvl fst; omega))
  rw [diskPlace, treeNode, show Fst.nlvl fst - (key.level + (Fst.nlvl fst - key.level - d')) = d'
    by omega] at habove
  funext off
  rw [habove]

namespace Written

/-- A file that was there has its entry as it was. -/
theorem sameFst_old (hw : Written disk t disk') (h : VolumeOk disk t) (hpos : 1 ≤ k)
    (hk : k < Fst.aic (diskDir disk)) : SameFst (diskEntry disk' k) (diskEntry disk k) := by
  have hroom := h.dir.room
  have hlast := h.first.2
  rw [hw.entry_eq h (by omega)]
  exact h.old k hpos hk

/-- **The files that the loader did not know** are where they were. -/
theorem place_old (hw : Written disk t disk') (h : VolumeOk disk t) (htwo : 2 ≤ k)
    (hk : k < Fst.aic (diskDir disk)) (hkey : (treeOf (diskEntry disk k)).Has key) :
    diskPlace disk' (diskEntry disk' k) key = diskPlace disk (diskEntry disk k) key ∧
      disk' (diskPlace disk (diskEntry disk k) key) =
        disk (diskPlace disk (diskEntry disk k) key) := by
  have hkept : ∀ key, (treeOf (diskEntry disk k)).Has key →
      disk' (diskPlace disk (diskEntry disk k) key) =
        disk (diskPlace disk (diskEntry disk k) key) := fun key hkey =>
    hw.old_eq h (Or.inr ⟨k, key, htwo, hk, hkey, rfl⟩)
  exact ⟨diskPlace_congr (hw.sameFst_old h (by omega) hk) hkept hkey, hkept key hkey⟩

/-- A block of a file in an entry in use: the loader knows it, or it is where it was. -/
theorem placed (hw : Written disk t disk') (h : VolumeOk disk t) (hk : k < t.loader.view.entries)
    (hkey : (treeOf (diskEntry disk' k)).Has key) :
    (t.Has disk key ∧ t.loader.view.lba key = some (diskPlace disk' (diskEntry disk' k) key)) ∨
      2 ≤ k ∧ k < Fst.aic (diskDir disk) ∧ (treeOf (diskEntry disk k)).Has key ∧
        diskPlace disk' (diskEntry disk' k) key = diskPlace disk (diskEntry disk k) key := by
  have hroom := h.dir.room
  by_cases hold : 2 ≤ k ∧ k < Fst.aic (diskDir disk)
  · have htree := (hw.sameFst_old h (by omega) hold.2).treeOf_eq
    rw [htree] at hkey
    exact Or.inr ⟨hold.1, hold.2, hkey, (hw.place_old h hold.1 hold.2 hkey).1⟩
  · have hknown : Known disk t.loader.view k := by
      rw [Known]
      omega
    rw [hw.entry_eq h (by omega)] at hkey ⊢
    exact Or.inl ⟨⟨k, hknown, hkey⟩, hw.place h hknown hkey⟩

/-- A block of a file in an entry in use is marked, and the allocation map is for it. -/
theorem marked (hw : Written disk t disk') (h : VolumeOk disk t) (hdisk : MountableVolume disk)
    (hk : k < t.loader.view.entries) (hkey : (treeOf (diskEntry disk' k)).Has key) :
    diskPlace disk' (diskEntry disk' k) key ≠ 0 ∧
      (diskPlace disk' (diskEntry disk' k) key - 1) / 32768 <
        Fst.adbc (t.loader.view.entry 1) ∧
      t.loader.view.bit (diskPlace disk' (diskEntry disk' k) key - 1) = true := by
  rcases hw.placed h hk hkey with ⟨hused, hlba⟩ | ⟨htwo, hold, hkey', heq⟩
  · obtain ⟨lba, hlba', hne, hset, -, hlt⟩ := h.forest.place key hused
    obtain rfl := Option.some.inj (hlba.symm.trans hlba')
    exact ⟨hne, Nat.div_lt_of_lt_mul hlt, hset⟩
  · rw [heq]
    obtain ⟨hne, hlt, -⟩ := hdisk.marked k hold key hkey'
    refine ⟨hne, ?_, h.forest.marked _ (Or.inr ⟨k, key, htwo, hold, hkey', rfl⟩)⟩
    rwa [h.mapBlocks_eq hdisk]

/-- No data block of a file is block 0. -/
theorem dataLba_ne (hw : Written disk t disk') (h : VolumeOk disk t)
    (hk : Known disk t.loader.view k) {b : ℕ} (hb : b < Fst.adbc (t.loader.view.entry k)) :
    dataLba disk' (t.loader.view.entry k) b ≠ 0 := by
  have hhas : (treeOf (t.loader.view.entry k)).Has ⟨Fst.name (t.loader.view.entry k), 0, b⟩ :=
    ⟨rfl, Nat.zero_le _, by
      show b * 1024 ^ 0 < Fst.adbc (t.loader.view.entry k)
      rwa [pow_zero, Nat.mul_one]⟩
  obtain ⟨lba, hlba, hne⟩ := (h.forest.tree k hk).present _ hhas
  have hplace := hlba.symm.trans (hw.place h hk hhas)
  rw [diskPlace, Nat.sub_zero, ← dataLba_eq] at hplace
  rwa [← Option.some.inj hplace]

/-- The written disk has directory and map in order. -/
theorem wellFormedDisk (hw : Written disk t disk') (h : VolumeOk disk t)
    (hdisk : MountableVolume disk) : WellFormedDisk disk' := by
  have hd := h.dir
  have hroom := hd.room
  have haic : Fst.aic (t.loader.view.entry 0) = t.loader.view.entries := rfl
  constructor
  case nfst => rw [hw.label_eq h, hdisk.nfst]
  case lrecl => rw [hw.diskDir_eq h, hd.lrecl]
  case two =>
    rw [hw.diskDir_eq h]
    exact hd.two
  case room =>
    rw [hw.diskDir_eq h]
    exact hd.room
  case tight =>
    rw [hw.diskDir_eq h]
    exact hd.tight
  case directory =>
    rw [hw.diskDir_eq h]
    exact ⟨(h.forest.tree 0 (VolumeOk.zero disk _)).height,
      fun b hb => hw.dataLba_ne h (VolumeOk.zero disk _) hb⟩
  case allocmap =>
    rw [hw.map_eq h]
    exact ⟨(h.forest.tree 1 h.forest.map).height, fun b hb => hw.dataLba_ne h h.forest.map hb⟩
  case small =>
    rw [hw.map_eq h]
    exact h.small
  case distinct =>
    rw [hw.diskDir_eq h, haic]
    intro k k' hk hk' heq
    rw [hw.entry_eq h (by omega), hw.entry_eq h (by omega)] at heq
    exact hd.distinct k k' hk hk' heq

/-- No two files have a block at the same place. -/
theorem apart (hw : Written disk t disk') (h : VolumeOk disk t) (hdisk : MountableVolume disk)
    {k' : ℕ} {key' : BlockKey} (hk : k < t.loader.view.entries) (hk' : k' < t.loader.view.entries)
    (hkey : (treeOf (diskEntry disk' k)).Has key) (hkey' : (treeOf (diskEntry disk' k')).Has key')
    (heq : diskPlace disk' (diskEntry disk' k) key = diskPlace disk' (diskEntry disk' k') key') :
    key = key' := by
  have hkept : ∀ key lba, t.Has disk key → t.loader.view.lba key = some lba →
      ¬ OldBlock disk lba := by
    intro key lba hused hlba
    obtain ⟨lba', hlba', -, -, hnot, -⟩ := h.forest.place key hused
    rwa [Option.some.inj (hlba.symm.trans hlba')]
  rcases hw.placed h hk hkey with ⟨hused, hlba⟩ | ⟨htwo, hold, hhas, hplace⟩
  · rcases hw.placed h hk' hkey' with ⟨hused', hlba'⟩ | ⟨htwo', hold', hhas', hplace'⟩
    · exact h.forest.inj key key' hused hused' (by rw [hlba, hlba', heq])
    · exact absurd (Or.inr ⟨k', key', htwo', hold', hhas', heq.trans hplace'⟩)
        (hkept key _ hused hlba)
  · rcases hw.placed h hk' hkey' with ⟨hused', hlba'⟩ | ⟨htwo', hold', hhas', hplace'⟩
    · exact absurd (Or.inr ⟨k, key, htwo, hold, hhas, heq.symm.trans hplace⟩)
        (hkept key' _ hused' hlba')
    · exact hdisk.apart k k' key key' hold hold' hhas hhas' (hplace.symm.trans (heq.trans hplace'))

/-- **The written disk is a well formed volume again**, so the next session can mount it. -/
theorem wellFormedVolume (hw : Written disk t disk') (h : VolumeOk disk t)
    (hdisk : MountableVolume disk) : WellFormedVolume disk' := by
  have hroom := h.dir.room
  have haic : Fst.aic (diskDir disk') = t.loader.view.entries := by
    rw [hw.diskDir_eq h]
    rfl
  have hmapPos : 0 < Fst.adbc (t.loader.view.entry 1) := by
    rw [h.mapBlocks_eq hdisk]
    exact hdisk.label.1
  refine { hw.wellFormedDisk h hdisk with least := ?_, marked := ?_, apart := ?_, label := ?_ }
  · intro k hk
    rw [haic] at hk
    rw [hw.entry_eq h (by omega)]
    by_cases hold : 2 ≤ k ∧ k < Fst.aic (diskDir disk)
    · have htree := (h.old k (by omega) hold.2).treeOf_eq
      have hnlvl : Fst.nlvl (t.loader.view.entry k) = Fst.nlvl (diskEntry disk k) :=
        congrArg Tree.nlvl htree
      have hadbc : Fst.adbc (t.loader.view.entry k) = Fst.adbc (diskEntry disk k) :=
        congrArg Tree.adbc htree
      rw [hnlvl, hadbc]
      exact hdisk.least k hold.2
    · refine (h.forest.tree k ?_).least
      rw [Known]
      omega
  · intro k hk key hkey
    rw [haic] at hk
    obtain ⟨hne, hlt, hset⟩ := hw.marked h hdisk hk hkey
    exact ⟨hne, by rwa [hw.map_eq h], by rw [hw.bit_eq h hlt, hset]⟩
  · intro k k' key key' hk hk'
    rw [haic] at hk hk'
    exact hw.apart h hdisk hk hk'
  · refine ⟨by rwa [hw.map_eq h], ?_, fun k hk key hkey heq => ?_⟩
    · rw [hw.bit_eq h hmapPos]
      exact h.forest.marked 3 (Or.inl rfl)
    · rw [haic] at hk
      rcases hw.placed h hk hkey with ⟨hused, hlba⟩ | ⟨htwo, hold, hhas, hplace⟩
      · obtain ⟨lba, hlba', -, -, hnot, -⟩ := h.forest.place key hused
        obtain rfl := Option.some.inj (hlba.symm.trans hlba')
        exact hnot (Or.inl heq)
      · exact hdisk.label.2.2 k hold key hhas (hplace.symm.trans heq)

end Written

/-- **A disk that is written back is one that can be mounted.** -/
theorem VolumeOk.remount (h : VolumeOk disk t) (hdisk : MountableVolume disk)
    (hw : Written disk t disk') : MountableVolume disk' := by
  have hd := h.dir
  refine { hw.wellFormedVolume h hdisk with
    ident := ?_, dbsiz := ?_, offst := ?_, fstsz := ?_, names := ?_, recfms := ?_, dop := ?_ }
  · rw [hw.label_eq h, hdisk.ident]
  · rw [hw.label_eq h, hdisk.dbsiz]
  · rw [hw.label_eq h, hdisk.offst]
  · rw [hw.label_eq h, hdisk.fstsz]
  · rw [hw.map_eq h, hw.diskDir_eq h]
    exact ⟨hd.director, hd.allocmap⟩
  · rw [hw.map_eq h, hw.diskDir_eq h, ← hdisk.recfms.2]
    exact ⟨hd.recfm.trans hdisk.recfms.2.symm, h.map_same hdisk 30 (by decide)⟩
  · have hplace := hw.place h (VolumeOk.zero disk _) h.has_dirKey
    rw [h.dop] at hplace
    rw [hw.diskDir_eq h, hw.label_eq h, dataLba_eq, Option.some.inj hplace]
    rfl

end

end Hvf
