/-
# Volumes

A disk whose files are apart (`WellFormedVolume`): each has as few levels of pointer
blocks as it can, the allocation map has marked all blocks and the label, and no two files
have a block at the same place.  When it is mounted, the directory and the allocation map
are files with blocks of their own (`Mounted.forest`), and the blocks of the other files
and the label are kept.
-/

import Hvf.Installer.EdfForest
import Hvf.Installer.EdfMount

namespace Hvf

open Loader

/-- Where a block of a file is, by the pointers on the disk. -/
def diskPlace (disk : ℕ → DiskBlock) (fst : DiskBlock) (key : BlockKey) : ℕ :=
  treeNode disk fst (Fst.nlvl fst - key.level) key.blkNo

/-- Bit `y` of the allocation map on the disk. -/
def diskBit (disk : ℕ → DiskBlock) (y : ℕ) : Bool :=
  Bitmap.test (bits (disk (dataLba disk (slot (diskDir disk) 1) (y / 32768)))) 0 (y % 32768)

/-- **A disk that a session can start from.** Beyond the directory and the map: every file has
the least number of pointer levels, its blocks are marked in the map and below its end, no two
keys share a block, and the blocks of the label and the boot records are no file's. -/
structure WellFormedVolume (disk : ℕ → DiskBlock) : Prop extends WellFormedDisk disk where
  least : ∀ k < Fst.aic (diskDir disk), Fst.nlvl (diskEntry disk k) ≠ 0 →
    1024 ^ (Fst.nlvl (diskEntry disk k) - 1) < Fst.adbc (diskEntry disk k)
  marked : ∀ k < Fst.aic (diskDir disk), ∀ key, (treeOf (diskEntry disk k)).Has key →
    diskPlace disk (diskEntry disk k) key ≠ 0 ∧
      (diskPlace disk (diskEntry disk k) key - 1) / 32768 < Fst.adbc (slot (diskDir disk) 1) ∧
      diskBit disk (diskPlace disk (diskEntry disk k) key - 1) = true
  apart : ∀ k k' key key', k < Fst.aic (diskDir disk) → k' < Fst.aic (diskDir disk) →
    (treeOf (diskEntry disk k)).Has key → (treeOf (diskEntry disk k')).Has key' →
      diskPlace disk (diskEntry disk k) key = diskPlace disk (diskEntry disk k') key' → key = key'
  label : 0 < Fst.adbc (slot (diskDir disk) 1) ∧ diskBit disk 2 = true ∧
    ∀ k < Fst.aic (diskDir disk), ∀ key, (treeOf (diskEntry disk k)).Has key →
      diskPlace disk (diskEntry disk k) key ≠ 3

/-- The label, or a place where a file has a block that `mount_fs` does not list. -/
def OldBlock (disk : ℕ → DiskBlock) (lba : ℕ) : Prop :=
  lba = 3 ∨ ∃ k key, 2 ≤ k ∧ k < Fst.aic (diskDir disk) ∧ (treeOf (diskEntry disk k)).Has key ∧
    lba = diskPlace disk (diskEntry disk k) key

/-- The tree of a file whose blocks are listed where the pointers on the disk say. -/
theorem Pristine.tree_ok {s : Loader} {fst : DiskBlock} (hs : Pristine s)
    (hheight : Fst.adbc fst ≤ 1024 ^ Fst.nlvl fst)
    (hleast : Fst.nlvl fst ≠ 0 → 1024 ^ (Fst.nlvl fst - 1) < Fst.adbc fst)
    (hroot : s.view.lba ⟨Fst.name fst, Fst.nlvl fst, 0⟩ = some (Fst.fop fst))
    (hplace : ∀ key, (treeOf fst).Has key →
      s.view.lba key = some (diskPlace s.disk fst key) ∧ diskPlace s.disk fst key ≠ 0)
    (htop : ∀ l i, Fst.nlvl fst < l → s.view.lba ⟨Fst.name fst, l, i⟩ = none) :
    (treeOf fst).Ok s.view where
  height := hheight
  least := hleast
  present key hkey := ⟨_, hplace key hkey⟩
  top := htop
  root _ := hroot
  child l i hkey hl := by
    have hl' : l < Fst.nlvl fst := hl
    have hparent := (hplace _ (hkey.parent hl)).1
    rw [(hplace _ hkey).1, hs.content _ _ hparent]
    show some (treeNode s.disk fst (Fst.nlvl fst - l) i) = _
    rw [show Fst.nlvl fst - l = Fst.nlvl fst - (l + 1) + 1 by omega]
    rfl

namespace Mounted

variable {disk fsts : ℕ → DiskBlock} {s : Loader}

/-- No other blocks are listed. -/
theorem listed (h : Mounted disk fsts s) {key : BlockKey} (hkey : s.view.lba key ≠ none) :
    key.name = directorName ∧ key.level ≤ Fst.nlvl (diskDir disk) ∨
      key.name = allocmapName ∧ key.level ≤ Fst.nlvl (slot (diskDir disk) 1) := by
  rcases h.adds.listed key hkey with hfirst | hkey
  · have hview := (firstListed_view disk fsts key).1
    by_cases hdir : key = dirKey
    · rw [hdir]
      exact Or.inl ⟨rfl, Nat.zero_le _⟩
    · rw [if_neg hdir] at hview
      exact absurd hview hfirst
  · exact hkey

/-- The FSTs of the directory and of the allocation map. -/
theorem entry_eq (hdisk : WellFormedVolume disk) (h : Mounted disk fsts s) {k : ℕ} (hk : k < 2) :
    s.view.entry k = diskEntry disk k := by
  have htwo := hdisk.two
  have hroom := hdisk.room
  exact (h.dirOk hdisk.toWellFormedDisk).1 k (by omega)

/-- A block of the directory or the map is listed at its place on the disk. -/
theorem place (hdisk : WellFormedVolume disk) (h : Mounted disk fsts s) {k : ℕ} (hk : k < 2)
    {key : BlockKey} (hkey : (treeOf (s.view.entry k)).Has key) :
    s.view.lba key = some (diskPlace disk (s.view.entry k) key) := by
  obtain ⟨-, hzero, hone, -⟩ := h.dirOk hdisk.toWellFormedDisk
  obtain ⟨name, level, blkNo⟩ := key
  obtain ⟨hname, hlevel, hlt⟩ := hkey
  dsimp only at hname hlevel hlt
  obtain rfl | rfl : k = 0 ∨ k = 1 := by omega
  · rw [hzero] at hname hlevel hlt ⊢
    rw [hname, show (treeOf (diskDir disk)).name = directorName from h.names.1]
    exact h.directory level blkNo hlevel hlt
  · rw [hone] at hname hlevel hlt ⊢
    rw [hname, show (treeOf (slot (diskDir disk) 1)).name = allocmapName from h.names.2]
    exact h.allocmap level blkNo hlevel hlt

/-- The allocation map is that of the disk. -/
theorem bit_eq (h : Mounted disk fsts s) {y : ℕ}
    (hy : y / 32768 < Fst.adbc (slot (diskDir disk) 1)) : s.view.bit y = diskBit disk y := by
  have hlba := h.allocmap 0 (y / 32768) (Nat.zero_le _) (by rwa [pow_zero, Nat.mul_one])
  rw [View.bit, mapKey, h.pristine.content _ _ hlba, h.touches.disk, diskBit, dataLba_eq]
  rfl

/-- **The directory and the allocation map have blocks of their own.** -/
theorem forest (hdisk : WellFormedVolume disk) (h : Mounted disk fsts s) :
    Forest s.view (· < 2) (fun k => treeOf (s.view.entry k)) (OldBlock disk) := by
  obtain ⟨-, hzero, hone, hdir⟩ := h.dirOk hdisk.toWellFormedDisk
  have htwo := hdisk.two
  have hin : ∀ k < 2, k < Fst.aic (diskDir disk) := fun k hk => by omega
  have hsdisk : s.disk = disk := h.touches.disk
  -- a block of one of the two, or of a file that is kept, is marked
  have hset : ∀ k < Fst.aic (diskDir disk), ∀ key, (treeOf (diskEntry disk k)).Has key →
      diskPlace disk (diskEntry disk k) key ≠ 0 ∧
        s.view.bit (diskPlace disk (diskEntry disk k) key - 1) = true := by
    intro k hk key hkey
    obtain ⟨hne, hlt, hbit⟩ := hdisk.marked k hk key hkey
    exact ⟨hne, by rw [h.bit_eq hlt, hbit]⟩
  have hplace : ∀ k < 2, ∀ key, (treeOf (s.view.entry k)).Has key →
      s.view.lba key = some (diskPlace disk (s.view.entry k) key) ∧
        diskPlace disk (s.view.entry k) key ≠ 0 ∧
        s.view.bit (diskPlace disk (s.view.entry k) key - 1) = true := by
    intro k hk key hkey
    refine ⟨h.place hdisk hk hkey, ?_⟩
    rw [h.entry_eq hdisk hk] at hkey ⊢
    exact hset k (hin k hk) key hkey
  have htop : ∀ k < 2, ∀ l i, Fst.nlvl (s.view.entry k) < l →
      s.view.lba ⟨Fst.name (s.view.entry k), l, i⟩ = none := by
    intro k hk l i hl
    by_contra hsome
    have hmap : directorName ≠ allocmapName := by decide
    rcases h.listed hsome with ⟨hname, hlevel⟩ | ⟨hname, hlevel⟩
    · obtain rfl | rfl : k = 0 ∨ k = 1 := by omega
      · rw [hzero] at hl
        exact absurd hlevel (Nat.not_le.2 hl)
      · exact hmap (hname.symm.trans hdir.allocmap)
    · obtain rfl | rfl : k = 0 ∨ k = 1 := by omega
      · exact hmap (hdir.director.symm.trans hname)
      · rw [hone] at hl
        exact absurd hlevel (Nat.not_le.2 hl)
  have hroot : ∀ k < 2, s.view.lba ⟨Fst.name (s.view.entry k), Fst.nlvl (s.view.entry k), 0⟩ =
      some (Fst.fop (s.view.entry k)) := by
    intro k hk
    obtain rfl | rfl : k = 0 ∨ k = 1 := by omega
    · rw [hzero, h.names.1]
      exact h.roots.1
    · rw [hone, h.names.2]
      exact h.roots.2
  have hheight : ∀ k < 2, Fst.adbc (s.view.entry k) ≤ 1024 ^ Fst.nlvl (s.view.entry k) := by
    intro k hk
    obtain rfl | rfl : k = 0 ∨ k = 1 := by omega
    · rw [hzero]
      exact hdisk.directory.height
    · rw [hone]
      exact hdisk.allocmap.height
  have happart : ∀ k k' key key', k < Fst.aic (diskDir disk) → k' < 2 →
      (treeOf (diskEntry disk k)).Has key → (treeOf (s.view.entry k')).Has key' →
        diskPlace disk (diskEntry disk k) key = diskPlace disk (s.view.entry k') key' →
          key = key' := by
    intro k k' key key' hk hk' hkey hkey' heq
    rw [h.entry_eq hdisk hk'] at hkey' heq
    exact hdisk.apart k k' key key' hk (hin k' hk') hkey hkey' heq
  constructor
  case map => exact (by decide : 1 < 2)
  case tree =>
    intro k hk
    refine h.pristine.tree_ok (hheight k hk) ?_ (hroot k hk) (fun key hkey => ?_) (htop k hk)
    · rw [h.entry_eq hdisk hk]
      exact hdisk.least k (hin k hk)
    · obtain ⟨hlba, hne, -⟩ := hplace k hk key hkey
      rw [hsdisk]
      exact ⟨hlba, hne⟩
  case names =>
    intro k k' hk hk' heq
    have hentries : s.view.entries = Fst.aic (diskDir disk) := by rw [View.entries, hzero]
    exact hdir.distinct k k' (hentries ▸ hin k hk) (hentries ▸ hin k' hk') heq
  case place =>
    rintro key ⟨k, hk, hkey⟩
    obtain ⟨hlba, hne, hbit⟩ := hplace k hk key hkey
    have hkey₀ : (treeOf (diskEntry disk k)).Has key := h.entry_eq hdisk hk ▸ hkey
    refine ⟨_, hlba, hne, hbit, ?_, ?_⟩
    · rintro (hlabel | ⟨k', key', htwo', hk', hkey', heq⟩)
      · rw [h.entry_eq hdisk hk] at hlabel
        exact hdisk.label.2.2 k (hin k hk) key hkey₀ hlabel
      obtain rfl := happart k' k key' key hk' hk hkey' hkey heq.symm
      -- a key has the name of one file
      have hname : Fst.name (s.view.entry k) = Fst.name (diskEntry disk k') :=
        hkey.1.symm.trans hkey'.1
      rw [h.entry_eq hdisk hk] at hname
      have := hdisk.distinct k k' (hin k hk) hk' hname
      omega
    · have hlt := (hdisk.marked k (hin k hk) key hkey₀).2.1
      rw [h.entry_eq hdisk hk, hone]
      show _ < 32768 * Fst.adbc (slot (diskDir disk) 1)
      omega
  case inj =>
    rintro key key' ⟨k, hk, hkey⟩ ⟨k', hk', hkey'⟩ heq
    have hkey₀ : (treeOf (diskEntry disk k)).Has key := h.entry_eq hdisk hk ▸ hkey
    rw [(hplace k hk key hkey).1, (hplace k' hk' key' hkey').1, h.entry_eq hdisk hk] at heq
    exact happart k k' key key' (hin k hk) hk' hkey₀ hkey' (Option.some.inj heq)
  case marked =>
    rintro lba (rfl | ⟨k, key, -, hk, hkey, rfl⟩)
    · rw [h.bit_eq hdisk.label.1, hdisk.label.2.1]
    · exact (hset k hk key hkey).2
  case dirty =>
    intro key hdirty
    rw [h.adds.dirty, view_dirty] at hdirty
    cases hfind : (firstListed disk fsts).blockMapFind key with
    | none =>
      rw [hfind] at hdirty
      cases hdirty
    | some map =>
      rw [hfind, List.mem_singleton.1 (blockMapFind_some hfind).1] at hdirty
      cases hdirty
  case listed =>
    intro key hkey
    rcases h.listed hkey with ⟨hname, -⟩ | ⟨hname, -⟩
    · exact ⟨0, by decide, hname.trans hdir.director.symm⟩
    · exact ⟨1, by decide, hname.trans hdir.allocmap.symm⟩
  case own =>
    intro k key hk htwo'
    exact absurd hk (Nat.not_lt.2 htwo')

end Mounted

end Hvf
