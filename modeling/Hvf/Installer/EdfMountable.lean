/-
# Mounting returns

`mount_fs` dies if a pointer gives a block another place than the list does, or if there is
no block where a pointer block is to be.  On a disk whose files are well formed neither
comes about (`mountFs_returns`): the levels go into the list from the top down, and the one
block that is there before is the first of the directory, where `ADT.DOP` points.
-/

import Hvf.Installer.EdfVolume

namespace Hvf

open Loader

/-- A volume with the label and the two files that `mount_fs` asks for; the first block of
the directory is the one that `ADT.DOP` points at. -/
structure MountableVolume (disk : ℕ → DiskBlock) : Prop extends WellFormedVolume disk where
  ident : ptrAt (disk 3) 0 = 0xC3D4E2F1
  dbsiz : ptrAt (disk 3) 3 = 4096
  offst : ptrAt (disk 3) 13 = 0
  fstsz : ptrAt (disk 3) 9 = 64
  names : Fst.name (diskDir disk) = directorName ∧ Fst.name (slot (diskDir disk) 1) = allocmapName
  recfms : Fst.recfm (diskDir disk) = fstDFix ∧ Fst.recfm (slot (diskDir disk) 1) = fstDFix
  dop : dataLba disk (diskDir disk) 0 = ptrAt (disk 3) 4

/-- The entries in the first block of the directory. -/
theorem MountableVolume.entry_eq {disk : ℕ → DiskBlock} (hdisk : MountableVolume disk) {k : ℕ}
    (hk : k < 64) : diskEntry disk k = slot (diskDir disk) k := by
  rw [diskEntry, Nat.div_eq_of_lt hk, Nat.mod_eq_of_lt hk, hdisk.dop]
  rfl

/-! ### Blocks that can be added -/

/-- A block that is not in the list, or is there with the place `lba`. -/
def Addable (s : Loader) (key : BlockKey) (lba : ℕ) : Prop :=
  s.view.lba key = none ∨ s.view.lba key = some lba

namespace Addable

variable {s u : Loader} {key : BlockKey} {lba : ℕ}

/-- Listing such a block returns. -/
theorem returns (h : Addable s key lba) : ∃ u, s.blockMapAdd key lba = some u := by
  rw [blockMapAdd]
  cases hfind : s.blockMapFind key with
  | none => exact ⟨_, rfl⟩
  | some map =>
    rw [Addable, view_lba, hfind, Option.map_some] at h
    have hlba : map.lba = lba := Option.some.inj (h.resolve_left (Option.some_ne_none _))
    dsimp only
    rw [if_neg (not_not.2 hlba)]
    exact ⟨s, rfl⟩

/-- Whether a block can be listed depends on where it is. -/
theorem congr (h : Addable s key lba) (hlba : u.view.lba key = s.view.lba key) :
    Addable u key lba := by
  rwa [Addable, hlba]

/-- What else is added does not matter. -/
theorem of_listed {P : BlockKey → Prop} (h : Addable s key lba) (hl : Listed s u)
    (hadds : ListsOnly P s u) (hkey : ¬ P key) : Addable u key lba := by
  rcases h with hnone | hsome
  · refine Or.inl ?_
    by_contra hlisted
    rcases hadds.listed key hlisted with hold | hnew
    · exact hold hnone
    · exact hkey hnew
  · exact Or.inr (hl.touches.lba _ _ hsome)

end Addable

section

variable {s : Loader} {name : FileName} {level i j n : ℕ}

/-- The blocks behind one block of pointers, and no others. -/
theorem addPtrs_returns {ptrs : DiskBlock} (hs : Pristine s)
    (hadd : ∀ j', j ≤ j' → j' < j + n →
      Addable s ⟨name, level - 1, i * 1024 + j'⟩ (ptrAt ptrs j')) :
    ∃ u, addPtrs name level i ptrs n j s = some u ∧
      ∀ key, (∀ j', j ≤ j' → j' < j + n → key ≠ ⟨name, level - 1, i * 1024 + j'⟩) →
        u.view.lba key = s.view.lba key := by
  induction n generalizing s j with
  | zero => exact ⟨s, rfl, fun _ _ => rfl⟩
  | succ n ih =>
    obtain ⟨w, hw⟩ := (hadd j le_rfl (by omega)).returns
    obtain ⟨-, hother, -⟩ := touches_blockMapAdd (fun _ => False) hs.sound hs.dir hw
    obtain ⟨u, hu, hothers⟩ := ih (hs.add hw).2.2.pristine (j := j + 1) fun j' hge hlt =>
      (hadd j' (by omega) (by omega)).congr (hother _ fun heq => by
        have := congrArg BlockKey.blkNo heq
        dsimp only at this
        omega)
    refine ⟨u, by rw [addPtrs, hw]; exact hu, fun key hkey => ?_⟩
    rw [hothers key fun j' hge hlt => hkey j' (by omega) (by omega),
      hother key (hkey j le_rfl (by omega))]

/-- The blocks behind the blocks of one level. -/
theorem addLevel_returns {lbas : ℕ → ℕ} (hs : Pristine s)
    (hlbas : ∀ i', i ≤ i' → i' < i + n →
      s.view.lba ⟨name, level, i'⟩ = some (lbas i') ∧ lbas i' ≠ 0)
    (hadd : ∀ i', i ≤ i' → i' < i + n → ∀ j < 1024,
      Addable s ⟨name, level - 1, i' * 1024 + j⟩ (ptrAt (s.disk (lbas i')) j)) :
    ∃ u, addLevel name level n i s = some u := by
  induction n generalizing s i with
  | zero => exact ⟨s, rfl⟩
  | succ n ih =>
    obtain ⟨hlba, hne⟩ := hlbas i le_rfl (by omega)
    obtain ⟨⟨ptrs, w⟩, hread⟩ := Option.isSome_iff_exists.1 (isSome_readFileBlk hlba hne)
    obtain ⟨rfl, hview, hw⟩ := hs.read hlba hread
    have hfirst : ∀ j', 0 ≤ j' → j' < 0 + 1024 →
        Addable w ⟨name, level - 1, i * 1024 + j'⟩ (ptrAt (s.disk (lbas i)) j') := fun j' _ hlt =>
      (hadd i le_rfl (by omega) j' (by omega)).congr (by rw [hview])
    obtain ⟨w', hptrs, hother⟩ := addPtrs_returns hw.pristine hfirst
    have hw' := (addPtrs_spec hw.pristine hptrs).1
    have hdisk : w'.disk = s.disk := (hw.trans hw').touches.disk
    obtain ⟨u, hu⟩ := ih hw'.pristine (i := i + 1)
      (fun i' hge hlt => by
        obtain ⟨hlba', hne'⟩ := hlbas i' (by omega) (by omega)
        exact ⟨(hw.trans hw').touches.lba _ _ hlba', hne'⟩)
      fun i' hge hlt j hj => by
        rw [hdisk]
        refine (hadd i' (by omega) (by omega) j hj).congr ?_
        rw [hother, hview]
        intro j' _ hlt' heq
        have := congrArg BlockKey.blkNo heq
        dsimp only at this
        omega
    refine ⟨u, ?_⟩
    rw [addLevel, hread]
    dsimp only [Option.bind_eq_bind, Option.bind_some]
    rw [hptrs]
    exact hu

end

/-! ### Files -/

/-- **A file whose blocks `__read_file` can put into the list**: its tree has the least
height, its blocks are on the disk, and each of them can be listed under its key. -/
structure FileAddable (s : Loader) (fst : DiskBlock) : Prop where
  pos : 0 < Fst.adbc fst
  small : Fst.adbc fst ≤ 2 ^ 30
  height : Fst.adbc fst ≤ 1024 ^ Fst.nlvl fst
  least : Fst.nlvl fst ≠ 0 → 1024 ^ (Fst.nlvl fst - 1) < Fst.adbc fst
  nodes : ∀ l i, l ≤ Fst.nlvl fst → i * 1024 ^ l < Fst.adbc fst →
    treeNode s.disk fst (Fst.nlvl fst - l) i ≠ 0
  addable : ∀ l i, l ≤ Fst.nlvl fst →
    Addable s ⟨Fst.name fst, l, i⟩ (treeNode s.disk fst (Fst.nlvl fst - l) i)

namespace FileAddable

variable {s : Loader} {fst : DiskBlock} {level : ℕ}

/-- A file that can be listed has at most three pointer levels. -/
theorem nlvl_le (h : FileAddable s fst) : Fst.nlvl fst ≤ 3 := by
  by_contra hhigh
  have hleast := h.least (by omega)
  have hpow : 1024 ^ 3 ≤ 1024 ^ (Fst.nlvl fst - 1) := Nat.pow_le_pow_right (by decide) (by omega)
  have hsmall := h.small
  omega

/-- The root is one block. -/
theorem root_blocks (h : FileAddable s fst) :
    fileBlocksAtLevel (Fst.adbc fst) (Fst.nlvl fst) = 1 := by
  have hpow : 1024 ^ Fst.nlvl fst ≤ 1024 ^ 3 := Nat.pow_le_pow_right (by decide) h.nlvl_le
  obtain ⟨n, hn⟩ := Nat.exists_eq_succ_of_ne_zero h.pos.ne'
  have hsmall := h.small
  have hheight := h.height
  rw [hn, fileBlocksAtLevel_succ (by omega), Nat.div_eq_of_lt (by omega)]

/-- The levels below one whose blocks are in the list. -/
theorem addLevels_returns (h : FileAddable s fst) {w : Loader} (hw : Pristine w)
    (hdisk : w.disk = s.disk) (hle : level ≤ Fst.nlvl fst)
    (hlevel : ∀ i, i * 1024 ^ level < Fst.adbc fst →
      w.view.lba ⟨Fst.name fst, level, i⟩ = some (treeNode s.disk fst (Fst.nlvl fst - level) i))
    (hbelow : ∀ l i, l < level →
      Addable w ⟨Fst.name fst, l, i⟩ (treeNode s.disk fst (Fst.nlvl fst - l) i)) :
    ∃ u, addLevels fst level w = some u := by
  induction level generalizing w with
  | zero => exact ⟨w, rfl⟩
  | succ level ih =>
    have hpow : 1024 ^ (level + 1) ≤ 1024 ^ 3 :=
      Nat.pow_le_pow_right (by decide) (hle.trans h.nlvl_le)
    have hsmall := h.small
    have hblocks (i : ℕ) := lt_fileBlocksAtLevel (i := i)
      (show Fst.adbc fst + 1024 ^ (level + 1) < 2 ^ 32 by omega)
    have hlbas : ∀ i', 0 ≤ i' → i' < 0 + fileBlocksAtLevel (Fst.adbc fst) (level + 1) →
        w.view.lba ⟨Fst.name fst, level + 1, i'⟩ =
            some (treeNode s.disk fst (Fst.nlvl fst - (level + 1)) i') ∧
          treeNode s.disk fst (Fst.nlvl fst - (level + 1)) i' ≠ 0 := by
      intro i' _ hlt
      have hi' := (hblocks i').1 (by omega)
      exact ⟨hlevel i' hi', h.nodes _ i' hle hi'⟩
    have hnode : ∀ i' j, j < 1024 →
        ptrAt (w.disk (treeNode s.disk fst (Fst.nlvl fst - (level + 1)) i')) j =
          treeNode s.disk fst (Fst.nlvl fst - level) (i' * 1024 + j) := by
      intro i' j hj
      rw [hdisk, show Fst.nlvl fst - level = Fst.nlvl fst - (level + 1) + 1 by omega]
      show _ = ptrAt (s.disk (treeNode s.disk fst _ ((i' * 1024 + j) / 1024))) _
      rw [show (i' * 1024 + j) / 1024 = i' by omega, show (i' * 1024 + j) % 1024 = j by omega]
    obtain ⟨w', hadd⟩ := addLevel_returns hw hlbas fun i' _ _ j hj => by
      rw [hnode i' j hj]
      exact hbelow level _ (Nat.lt_succ_self level)
    obtain ⟨hw', hadds, hnew⟩ := addLevel_spec hw (fun i' hge hlt => (hlbas i' hge hlt).1) hadd
    have hnext : ∀ i, i * 1024 ^ level < Fst.adbc fst → w'.view.lba ⟨Fst.name fst, level, i⟩ =
        some (treeNode s.disk fst (Fst.nlvl fst - level) i) := by
      intro i hi
      -- block `i` is the pointer `i % 1024` of block `i / 1024`
      have hparent : i / 1024 * 1024 ^ (level + 1) < Fst.adbc fst := by
        refine lt_of_le_of_lt ?_ hi
        rw [pow_succ', ← Nat.mul_assoc]
        exact Nat.mul_le_mul_right _ (Nat.div_mul_le_self i 1024)
      have hptr := hnew (i / 1024) (Nat.zero_le _) (by
        rw [Nat.zero_add]
        exact (hblocks _).2 hparent) (i % 1024) (Nat.mod_lt i (by decide))
      rwa [hnode _ _ (Nat.mod_lt i (by decide)), Nat.add_sub_cancel, Nat.div_add_mod'] at hptr
    obtain ⟨u, hu⟩ := ih hw'.pristine (hw'.touches.disk.trans hdisk) (by omega) hnext
      fun l i hl => (hbelow l i (by omega)).of_listed hw' hadds fun hkey => by
        have := hkey.2
        dsimp only at this
        omega
    refine ⟨u, ?_⟩
    rw [addLevels, if_neg]
    · dsimp only [Option.bind_eq_bind]
      rw [hadd]
      exact hu
    · rintro ⟨htop, hroot⟩
      rw [htop] at hroot
      exact hroot h.root_blocks

/-- **`__read_file` returns.** -/
theorem readFile_returns (h : FileAddable s fst) (hs : Pristine s) {p : FstPtr}
    (hfst : s.fst p = fst) : ∃ u, s.readFile p = some u := by
  obtain ⟨w, hadd⟩ := (h.addable _ 0 le_rfl).returns
  rw [Nat.sub_self, show treeNode s.disk fst 0 0 = Fst.fop fst from rfl] at hadd
  rw [readFile, hfst]
  by_cases hzero : Fst.nlvl fst = 0
  · rw [hzero] at hadd
    exact ⟨w, by rw [if_pos hzero, hadd]⟩
  · obtain ⟨hlba, hadds, hw⟩ := hs.add hadd
    obtain ⟨u, hu⟩ := h.addLevels_returns hw.pristine hw.touches.disk le_rfl (fun i hi => by
        have hfirst : i = 0 := by
          by_contra hpos
          have hle := Nat.le_mul_of_pos_left (1024 ^ Fst.nlvl fst) (Nat.pos_of_ne_zero hpos)
          have hheight := h.height
          omega
        rw [hfirst, hlba, Nat.sub_self]
        rfl)
      fun l i hl => (h.addable l i hl.le).of_listed hw hadds fun hkey => by
        have hlevel : l = Fst.nlvl fst := congrArg BlockKey.level hkey
        omega
    refine ⟨u, ?_⟩
    rw [if_neg hzero]
    dsimp only [Option.bind_eq_bind]
    rw [hadd]
    exact hu

end FileAddable

/-! ### A volume -/

namespace MountableVolume

variable {disk : ℕ → DiskBlock} (fsts : ℕ → DiskBlock)

/-- No node of the two trees is block 0. -/
theorem node_ne (hdisk : MountableVolume disk) {k : ℕ} (hk : k < 2) {l i : ℕ}
    (hl : l ≤ Fst.nlvl (slot (diskDir disk) k))
    (hi : i * 1024 ^ l < Fst.adbc (slot (diskDir disk) k)) :
    treeNode disk (slot (diskDir disk) k) (Fst.nlvl (slot (diskDir disk) k) - l) i ≠ 0 := by
  have htwo := hdisk.two
  have hentry := hdisk.entry_eq (show k < 64 by omega)
  have hmarked := hdisk.marked k (by omega) ⟨Fst.name (diskEntry disk k), l, i⟩
  rw [hentry] at hmarked
  exact (hmarked ⟨rfl, hl, hi⟩).1

/-- The directory has a block. -/
theorem dirBlocks_pos (hdisk : MountableVolume disk) : 0 < Fst.adbc (diskDir disk) := by
  have htwo := hdisk.two
  have hroom := hdisk.room
  omega

/-- The label gives the directory an origin. -/
theorem dop_ne (hdisk : MountableVolume disk) : ptrAt (disk 3) 4 ≠ 0 := by
  rw [← hdisk.dop]
  exact hdisk.directory.blocks 0 hdisk.dirBlocks_pos

/-- The directory can be put into the list, with its first block there. -/
theorem directory_addable (hdisk : MountableVolume disk) :
    FileAddable (firstListed disk fsts) (diskDir disk) where
  pos := hdisk.dirBlocks_pos
  small := by
    have htight := hdisk.tight
    have haic : Fst.aic (diskDir disk) < 2 ^ 32 := ptrAt_lt _ _
    omega
  height := hdisk.directory.height
  least := by
    have hleast := hdisk.least 0 (by have := hdisk.two; omega)
    rwa [hdisk.entry_eq (by decide), slot_zero] at hleast
  nodes l i hl hi := by
    have hne := hdisk.node_ne (k := 0) (by decide) (l := l) (i := i)
    rw [slot_zero] at hne
    exact hne hl hi
  addable l i hl := by
    rw [hdisk.names.1, Addable, (firstListed_view disk fsts _).1]
    split
    · rename_i hkey
      obtain rfl : l = 0 := congrArg BlockKey.level hkey
      obtain rfl : i = 0 := congrArg BlockKey.blkNo hkey
      refine Or.inr ?_
      rw [← hdisk.dop, dataLba_eq]
      rfl
    · exact Or.inl rfl

/-- The allocation map can be put into the list behind it. -/
theorem allocmap_addable (hdisk : MountableVolume disk) {s : Loader}
    (hdir : (firstListed disk fsts).readFile .directory = some s) :
    Listed (firstListed disk fsts) s ∧ FileAddable s (slot (diskDir disk) 1) := by
  have hfile := hdisk.directory_addable fsts
  have hsmall := hfile.small
  obtain ⟨hs, hadds, -⟩ := readFile_spec (pristine_firstListed disk fsts)
    (show (firstListed disk fsts).fst .directory = diskDir disk from rfl) (by omega)
    hdisk.directory.height hdir
  rw [hdisk.names.1] at hadds
  have hdiskEq : s.disk = disk := hs.touches.disk
  have hmapSmall := hdisk.small
  refine ⟨hs, hdisk.label.1, by omega, hdisk.allocmap.height, ?_, fun l i hl hi => ?_,
    fun l i _ => Or.inl ?_⟩
  · have hleast := hdisk.least 1 (by have := hdisk.two; omega)
    rwa [hdisk.entry_eq (by decide)] at hleast
  · rw [hdiskEq]
    exact hdisk.node_ne (by decide) hl hi
  · -- no block of the allocation map is in the list yet
    rw [hdisk.names.2]
    by_contra hlisted
    rcases hadds.listed _ hlisted with hfirst | hkey
    · rw [(firstListed_view disk fsts _).1, if_neg fun heq =>
        absurd (congrArg BlockKey.name heq) (by decide : allocmapName ≠ directorName)] at hfirst
      exact hfirst rfl
    · exact absurd hkey.1 (by decide : allocmapName ≠ directorName)

/-- **`mount_fs` returns.** -/
theorem mountFs_returns (hdisk : MountableVolume disk) : ∃ s, mountFs disk fsts = some s := by
  obtain ⟨s, hdirectory⟩ := (hdisk.directory_addable fsts).readFile_returns
    (pristine_firstListed disk fsts) (p := .directory) rfl
  obtain ⟨hs, hfile⟩ := hdisk.allocmap_addable fsts hdirectory
  have hfst : s.fst .allocmap = slot (diskDir disk) 1 :=
    hs.touches.fst_eq (pristine_firstListed disk fsts).dir id fun _ h => by cases h
  obtain ⟨u, hallocmap⟩ := hfile.readFile_returns hs.pristine hfst
  refine ⟨u, ?_⟩
  have hlabel : ¬ (ptrAt (disk 3) 0 ≠ 0xC3D4E2F1 ∨ ptrAt (disk 3) 3 ≠ 4096 ∨
      ptrAt (disk 3) 13 ≠ 0 ∨ ptrAt (disk 3) 9 ≠ 64) := by
    simp [hdisk.ident, hdisk.dbsiz, hdisk.offst, hdisk.fstsz]
  have hnames : ¬ (Fst.name (slot (diskDir disk) 0) ≠ directorName ∨
      Fst.recfm (slot (diskDir disk) 0) ≠ fstDFix ∨
      Fst.name (slot (diskDir disk) 1) ≠ allocmapName ∨
      Fst.recfm (slot (diskDir disk) 1) ≠ fstDFix) := by
    simp [slot_zero, hdisk.names, hdisk.recfms]
  -- the first block of the directory is listed and read
  have hadd : blockMapAdd ⟨ptrAt (disk 3) 10, disk, [], fsts, false⟩ dirKey (ptrAt (disk 3) 4) =
      some ⟨ptrAt (disk 3) 10, disk, [⟨dirKey, ptrAt (disk 3) 4, none, false⟩], fsts, false⟩ := rfl
  have hread : readFileBlk ⟨ptrAt (disk 3) 10, disk, [⟨dirKey, ptrAt (disk 3) 4, none, false⟩],
      fsts, false⟩ dirKey = some (diskDir disk, firstListed disk fsts) := by
    show (if ptrAt (disk 3) 4 < 1 then none else some (diskDir disk, firstListed disk fsts)) = _
    exact if_neg (by have := hdisk.dop_ne; omega)
  rw [mountFs, if_neg hlabel]
  dsimp only [Option.bind_eq_bind]
  rw [hadd, Option.bind_some, hread, Option.bind_some]
  dsimp only
  rw [if_neg hnames]
  exact Option.bind_eq_some_iff.2 ⟨s, hdirectory, hallocmap⟩

end MountableVolume

end Hvf
