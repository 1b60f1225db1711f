/-
# Mounting

`mount_fs` puts the blocks of the directory and of the allocation map into the list,
with the places that the pointers on the disk give them (`readFile_spec`); what a block
holds is what is on the disk (`Pristine`).  Of a well-formed disk this is a directory
whose entries in use can be read (`mountFs_dirOk`).
-/

import Hvf.Installer.EdfDirectory

namespace Hvf

open Loader

/-- **Every block holds what is on the disk**, as while a volume is being mounted. -/
structure Pristine (s : Loader) : Prop where
  sound : Sound s
  dir : s.view.lba dirKey ≠ none
  content : ∀ key lba, s.view.lba key = some lba → s.view.content key = s.disk lba

/-- **What reading a file leaves**: the list has more blocks, each with what is on the disk,
and nothing else has changed. -/
structure Listed (s u : Loader) : Prop where
  pristine : Pristine u
  touches : Touches .directory (fun _ => False) s u

/-- **No blocks but those of `P` are added to the list**, and none is marked. -/
structure ListsOnly (P : BlockKey → Prop) (s u : Loader) : Prop where
  listed : ∀ key, u.view.lba key ≠ none → s.view.lba key ≠ none ∨ P key
  dirty : u.view.dirty = s.view.dirty

namespace ListsOnly

variable {P Q : BlockKey → Prop} {s u w : Loader}

/-- A step that shows nothing new has listed only what it may. -/
theorem of_eq (h : u.view = s.view) : ListsOnly P s u :=
  ⟨fun key hkey => Or.inl (by rwa [h] at hkey), by rw [h]⟩

/-- What two steps listed, they listed together. -/
theorem trans (h : ListsOnly P s u) (h' : ListsOnly P u w) : ListsOnly P s w :=
  ⟨fun key hkey => (h'.listed key hkey).elim (h.listed key) Or.inr, h'.dirty.trans h.dirty⟩

/-- What was listed within some keys was listed within more. -/
theorem mono (h : ListsOnly P s u) (hsub : ∀ key, P key → Q key) : ListsOnly Q s u :=
  ⟨fun key hkey => (h.listed key hkey).imp_right (hsub key), h.dirty⟩

end ListsOnly

namespace Pristine

variable {s u : Loader} {key : BlockKey} {lba : ℕ}

/-- Nothing listed leaves the volume as it was. -/
theorem refl (h : Pristine s) : Listed s s := ⟨h, Touches.refl h.sound⟩

/-- A key listed is at its block, and nothing else has changed. -/
theorem add (h : Pristine s) (hadd : s.blockMapAdd key lba = some u) :
    u.view.lba key = some lba ∧ ListsOnly (· = key) s u ∧ Listed s u := by
  obtain ⟨hlba, hother, ht⟩ := touches_blockMapAdd (fun _ => False) h.sound h.dir hadd
  have hadds : ListsOnly (· = key) s u := by
    refine ⟨fun key' hkey' => ?_, ?_⟩
    · by_cases heq : key' = key
      · exact Or.inr heq
      · rw [hother key' heq] at hkey'
        exact Or.inl hkey'
    · rcases blockMapAdd_cases h.sound h.dir hadd with ⟨rfl, -⟩ | ⟨-, hview, -⟩
      · rfl
      · rw [hview, View.add_dirty]
  refine ⟨hlba, hadds, ⟨ht.sound, ht.lba_ne_none h.dir, fun key' lba' hlba' => ?_⟩, ht⟩
  rcases blockMapAdd_cases h.sound h.dir hadd with ⟨rfl, -⟩ | ⟨-, hview, -⟩
  · exact h.content key' lba' hlba'
  · rw [hview, View.add_lba] at hlba'
    rw [hview, View.add_content, ht.disk]
    split
    · rename_i heq
      rw [if_pos heq] at hlba'
      rw [Option.some.inj hlba']
    · rename_i hne
      rw [if_neg hne] at hlba'
      exact h.content key' lba' hlba'

/-- A block read behind the listing is the disk's block. -/
theorem read (h : Pristine s) (hlba : s.view.lba key = some lba) {buf : DiskBlock}
    (hread : s.readFileBlk key = some (buf, u)) :
    buf = s.disk lba ∧ u.view = s.view ∧ Listed s u := by
  obtain ⟨rfl, hview, ht⟩ := touches_readFileBlk (fun _ => False) h.sound hread
  refine ⟨h.content key lba hlba, hview,
    ⟨ht.sound, ht.lba_ne_none h.dir, fun key' lba' hlba' => ?_⟩,
    ht⟩
  rw [hview] at hlba' ⊢
  rw [h.content key' lba' hlba', ht.disk]

end Pristine

/-! ### A file -/

/-- Two stages of the mount are one. -/
theorem Listed.trans {s u w : Loader} (h : Listed s u) (h' : Listed u w) : Listed s w :=
  ⟨h'.pristine, h.touches.trans h'.touches⟩

/-- The pointers of one block. -/
theorem addPtrs_spec {s u : Loader} {name : FileName} {level i j n : ℕ} {ptrs : DiskBlock}
    (hs : Pristine s) (h : addPtrs name level i ptrs n j s = some u) :
    Listed s u ∧ ListsOnly (fun key => key.name = name ∧ key.level = level - 1) s u ∧
      ∀ j', j ≤ j' → j' < j + n →
        u.view.lba ⟨name, level - 1, i * 1024 + j'⟩ = some (ptrAt ptrs j') := by
  induction n generalizing s j with
  | zero =>
    obtain rfl := Option.some.inj h
    exact ⟨hs.refl, ListsOnly.of_eq rfl, fun j' hge hlt => by omega⟩
  | succ n ih =>
    obtain ⟨w, hadd, h⟩ := Option.bind_eq_some_iff.1 h
    obtain ⟨hlba, hadds, hw⟩ := hs.add hadd
    obtain ⟨hu, hadds', hrest⟩ := ih hw.pristine h
    refine ⟨hw.trans hu, (hadds.mono fun key hkey => ?_).trans hadds', fun j' hge hlt => ?_⟩
    · rw [hkey]
      exact ⟨rfl, rfl⟩
    rcases Nat.eq_or_lt_of_le hge with rfl | hgt
    · exact hu.touches.lba _ _ hlba
    · exact hrest j' hgt (by omega)

/-- The pointer blocks of one level, where `lbas` says where they are. -/
theorem addLevel_spec {s u : Loader} {name : FileName} {level i n : ℕ} {lbas : ℕ → ℕ}
    (hs : Pristine s)
    (hlbas : ∀ i', i ≤ i' → i' < i + n → s.view.lba ⟨name, level, i'⟩ = some (lbas i'))
    (h : addLevel name level n i s = some u) :
    Listed s u ∧ ListsOnly (fun key => key.name = name ∧ key.level = level - 1) s u ∧
      ∀ i', i ≤ i' → i' < i + n → ∀ j < 1024,
        u.view.lba ⟨name, level - 1, i' * 1024 + j⟩ = some (ptrAt (s.disk (lbas i')) j) := by
  induction n generalizing s i with
  | zero =>
    obtain rfl := Option.some.inj h
    exact ⟨hs.refl, ListsOnly.of_eq rfl, fun i' hge hlt => by omega⟩
  | succ n ih =>
    rw [addLevel] at h
    obtain ⟨⟨ptrs, w⟩, hread, hblk⟩ := Option.bind_eq_some_iff.1 h
    obtain ⟨w', hptrs, hnext⟩ := Option.bind_eq_some_iff.1 hblk
    obtain ⟨rfl, hview, hw⟩ := hs.read (hlbas i le_rfl (by omega)) hread
    obtain ⟨hw', hadds, hnew⟩ := addPtrs_spec hw.pristine hptrs
    obtain ⟨hu, hadds', hrest⟩ := ih hw'.pristine (fun i' (hge : i + 1 ≤ i') hlt =>
      (hw.trans hw').touches.lba _ _ (hlbas i' (by omega) (by omega))) hnext
    refine ⟨(hw.trans hw').trans hu, ((ListsOnly.of_eq hview).trans hadds).trans hadds',
      fun i' hge hlt j hj => ?_⟩
    rcases Nat.eq_or_lt_of_le hge with rfl | hgt
    · exact hu.touches.lba _ _ (hnew j (Nat.zero_le j) (by omega))
    · rw [hrest i' hgt (by omega) j hj, (hw.trans hw').touches.disk]

/-- Block `i` of the nodes at depth `d` of the tree on the disk. -/
def treeNode (disk : ℕ → DiskBlock) (fst : DiskBlock) (d i : ℕ) : ℕ :=
  PtrTree.node (fun lba off => ptrAt (disk lba) off) 1024 (Fst.fop fst) d i

/-- Where data block `b` of a file is, by the pointers on the disk. -/
def dataLba (disk : ℕ → DiskBlock) (fst : DiskBlock) (b : ℕ) : ℕ :=
  PtrTree.walk (fun lba off => ptrAt (disk lba) off) 1024 (Fst.nlvl fst) (Fst.fop fst) b

/-- A block of a level exists exactly when the file has a data block under it. -/
theorem lt_fileBlocksAtLevel {adbc l i : ℕ} (h : adbc + 1024 ^ l < 2 ^ 32) :
    i < fileBlocksAtLevel adbc l ↔ i * 1024 ^ l < adbc := by
  have hpos : 0 < 1024 ^ l := by positivity
  cases adbc with
  | zero =>
    rw [fileBlocksAtLevel, Nat.zero_add, Nat.mod_eq_of_lt (by omega), Nat.div_eq_of_lt (by omega)]
    omega
  | succ n =>
    rw [fileBlocksAtLevel_succ (by omega), Nat.lt_succ_iff, Nat.lt_succ_iff,
      Nat.le_div_iff_mul_le hpos]

/-- **The levels below one whose blocks are listed.** -/
theorem addLevels_spec {s u : Loader} {fst : DiskBlock} {level : ℕ} (hs : Pristine s)
    (hle : level ≤ Fst.nlvl fst) (hlow : level ≤ 3) (hsmall : Fst.adbc fst < 2 ^ 31)
    (hlevel : ∀ i, i * 1024 ^ level < Fst.adbc fst →
      s.view.lba ⟨Fst.name fst, level, i⟩ = some (treeNode s.disk fst (Fst.nlvl fst - level) i))
    (h : addLevels fst level s = some u) :
    Listed s u ∧ ListsOnly (fun key => key.name = Fst.name fst ∧ key.level ≤ Fst.nlvl fst) s u ∧
      ∀ l i, l ≤ level → i * 1024 ^ l < Fst.adbc fst →
        u.view.lba ⟨Fst.name fst, l, i⟩ = some (treeNode s.disk fst (Fst.nlvl fst - l) i) := by
  induction level generalizing s with
  | zero =>
    obtain rfl := Option.some.inj h
    refine ⟨hs.refl, ListsOnly.of_eq rfl, fun l i hl hi => ?_⟩
    obtain rfl := Nat.le_zero.1 hl
    exact hlevel i hi
  | succ level ih =>
    have hpow : 1024 ^ (level + 1) ≤ 1024 ^ 3 := Nat.pow_le_pow_right (by decide) hlow
    have hblocks (i : ℕ) := lt_fileBlocksAtLevel (i := i)
      (show Fst.adbc fst + 1024 ^ (level + 1) < 2 ^ 32 by omega)
    rw [addLevels] at h
    split at h
    · exact nomatch h
    obtain ⟨w, hadd, h⟩ := Option.bind_eq_some_iff.1 h
    have hlist : ∀ i, 0 ≤ i → i < 0 + fileBlocksAtLevel (Fst.adbc fst) (level + 1) →
        s.view.lba ⟨Fst.name fst, level + 1, i⟩ =
          some (treeNode s.disk fst (Fst.nlvl fst - (level + 1)) i) :=
      fun i _ hlt => hlevel i ((hblocks i).1 (by omega))
    obtain ⟨hw, hadds, hnew⟩ := addLevel_spec hs hlist hadd
    have hbelow : ∀ i, i * 1024 ^ level < Fst.adbc fst → w.view.lba ⟨Fst.name fst, level, i⟩ =
        some (treeNode w.disk fst (Fst.nlvl fst - level) i) := by
      intro i hi
      -- block `i` is the pointer `i % 1024` of block `i / 1024`
      have hparent : i / 1024 * 1024 ^ (level + 1) < Fst.adbc fst := by
        refine lt_of_le_of_lt ?_ hi
        rw [pow_succ', ← Nat.mul_assoc]
        exact Nat.mul_le_mul_right _ (Nat.div_mul_le_self i 1024)
      have hptr := hnew (i / 1024) (Nat.zero_le _) (by
        rw [Nat.zero_add]
        exact (hblocks _).2 hparent) (i % 1024) (Nat.mod_lt i (by decide))
      rw [Nat.add_sub_cancel, Nat.div_add_mod'] at hptr
      rw [hptr, hw.touches.disk,
        show Fst.nlvl fst - level = Fst.nlvl fst - (level + 1) + 1 by omega]
      rfl
    obtain ⟨hu, hadds', hnodes⟩ := ih hw.pristine (by omega) (by omega) hbelow h
    rw [hw.touches.disk] at hnodes
    have hadds₁ : ListsOnly (fun key => key.name = Fst.name fst ∧ key.level ≤ Fst.nlvl fst) s w :=
      hadds.mono fun key hkey => ⟨hkey.1, by rw [hkey.2]; omega⟩
    refine ⟨hw.trans hu, hadds₁.trans hadds', fun l i hl hi => ?_⟩
    rcases Nat.eq_or_lt_of_le hl with rfl | hlt
    · exact hu.touches.lba _ _ (hw.touches.lba _ _ (hlevel i hi))
    · exact hnodes l i (by omega) hi

/-- With more than three levels the root is not one block. -/
theorem nlvl_le_of_addLevels {s u : Loader} {fst : DiskBlock} (hne : Fst.nlvl fst ≠ 0)
    (h : addLevels fst (Fst.nlvl fst) s = some u) : Fst.nlvl fst ≤ 3 := by
  by_contra hhigh
  obtain ⟨level, hlevel⟩ := Nat.exists_eq_succ_of_ne_zero hne
  have hpow : 1024 ^ 4 ≤ 1024 ^ (level + 1) := Nat.pow_le_pow_right (by decide) (by omega)
  have hblocks : fileBlocksAtLevel (Fst.adbc fst) (level + 1) = 0 := by
    rw [fileBlocksAtLevel]
    exact Nat.div_eq_of_lt ((Nat.mod_lt _ (by decide)).trans_le (by omega))
  rw [hlevel, addLevels, if_pos ⟨hlevel.symm, by rw [hblocks]; decide⟩] at h
  cases h

/-- A data block's number is that of the tree's node at level 0. -/
theorem dataLba_eq (disk : ℕ → DiskBlock) (fst : DiskBlock) (b : ℕ) :
    dataLba disk fst b = treeNode disk fst (Fst.nlvl fst) b :=
  PtrTree.walk_eq_node _ _

/-- **`__read_file` lists the blocks**, where the pointers on the disk say, and no block of
another file. -/
theorem readFile_spec {s u : Loader} {p : FstPtr} {fst : DiskBlock} (hs : Pristine s)
    (hfst : s.fst p = fst) (hsmall : Fst.adbc fst < 2 ^ 31)
    (hheight : Fst.adbc fst ≤ 1024 ^ Fst.nlvl fst) (h : s.readFile p = some u) :
    Listed s u ∧ ListsOnly (fun key => key.name = Fst.name fst ∧ key.level ≤ Fst.nlvl fst) s u ∧
      u.view.lba ⟨Fst.name fst, Fst.nlvl fst, 0⟩ = some (Fst.fop fst) ∧
      ∀ l i, l ≤ Fst.nlvl fst → i * 1024 ^ l < Fst.adbc fst →
        u.view.lba ⟨Fst.name fst, l, i⟩ = some (treeNode s.disk fst (Fst.nlvl fst - l) i) := by
  rw [readFile, hfst] at h
  by_cases hzero : Fst.nlvl fst = 0
  · rw [if_pos hzero] at h
    obtain ⟨hlba, hadds, hu⟩ := hs.add h
    refine ⟨hu, hadds.mono fun key hkey => ?_, by rw [hzero, hlba], fun l i hl hi => ?_⟩
    · rw [hkey]
      exact ⟨rfl, Nat.zero_le _⟩
    · rw [hzero, pow_zero] at hheight
      obtain rfl : l = 0 := by omega
      obtain rfl : i = 0 := by omega
      rw [hlba, hzero]
      rfl
  · rw [if_neg hzero] at h
    obtain ⟨w, hadd, h⟩ := Option.bind_eq_some_iff.1 h
    obtain ⟨hlba, hadds, hw⟩ := hs.add hadd
    have hlow := nlvl_le_of_addLevels hzero h
    have hroot : ∀ i, i * 1024 ^ Fst.nlvl fst < Fst.adbc fst →
        w.view.lba ⟨Fst.name fst, Fst.nlvl fst, i⟩ =
          some (treeNode w.disk fst (Fst.nlvl fst - Fst.nlvl fst) i) := by
      intro i hi
      have hfirst : i = 0 := by
        by_contra hpos
        have := Nat.le_mul_of_pos_left (1024 ^ Fst.nlvl fst) (Nat.pos_of_ne_zero hpos)
        omega
      rw [hfirst, hlba, Nat.sub_self]
      rfl
    obtain ⟨hu, hadds', hnodes⟩ := addLevels_spec hw.pristine le_rfl hlow hsmall hroot h
    rw [hw.touches.disk] at hnodes
    refine ⟨hw.trans hu, (hadds.mono fun key hkey => ?_).trans hadds', hu.touches.lba _ _ hlba,
      hnodes⟩
    rw [hkey]
    exact ⟨rfl, le_rfl⟩

/-! ### A disk -/

/-- The first block of the directory, which `ADT.DOP` points at; its first FST is that of
the directory. -/
def diskDir (disk : ℕ → DiskBlock) : DiskBlock := disk (ptrAt (disk 3) 4)

/-- Entry `k` of the directory on the disk. -/
def diskEntry (disk : ℕ → DiskBlock) (k : ℕ) : DiskBlock :=
  slot (disk (dataLba disk (diskDir disk) (k / 64))) (k % 64)

/-- **A file whose data blocks the pointers on the disk reach**: the tree is high enough,
and no pointer on the way is 0. -/
structure DiskFile (disk : ℕ → DiskBlock) (fst : DiskBlock) : Prop where
  height : Fst.adbc fst ≤ 1024 ^ Fst.nlvl fst
  blocks : ∀ b < Fst.adbc fst, dataLba disk fst b ≠ 0

/-- The directory has its `AIC` entries, of different names, in `ADBC` blocks, and the
allocation map is for fewer than 2^32 blocks.  What is behind the entries, and in blocks
that are free, is not restricted. -/
structure WellFormedDisk (disk : ℕ → DiskBlock) : Prop where
  nfst : ptrAt (disk 3) 10 = 64
  lrecl : Fst.lrecl (diskDir disk) = 64
  two : 2 ≤ Fst.aic (diskDir disk)
  room : Fst.aic (diskDir disk) ≤ 64 * Fst.adbc (diskDir disk)
  tight : 64 * Fst.adbc (diskDir disk) < Fst.aic (diskDir disk) + 64
  directory : DiskFile disk (diskDir disk)
  allocmap : DiskFile disk (slot (diskDir disk) 1)
  small : 32768 * Fst.adbc (slot (diskDir disk) 1) < 2 ^ 32
  distinct : ∀ k k', k < Fst.aic (diskDir disk) → k' < Fst.aic (diskDir disk) →
    Fst.name (diskEntry disk k) = Fst.name (diskEntry disk k') → k = k'

/-- The list with the first block of the directory. -/
def firstListed (disk fsts : ℕ → DiskBlock) : Loader where
  nfst := ptrAt (disk 3) 10
  disk := disk
  blockMap := [⟨dirKey, ptrAt (disk 3) 4, some (diskDir disk), false⟩]
  fsts := fsts
  stray := false

/-- With only the first block of the directory listed, that is what is seen. -/
theorem firstListed_view (disk fsts : ℕ → DiskBlock) (key : BlockKey) :
    (firstListed disk fsts).view.lba key =
        (if key = dirKey then some (ptrAt (disk 3) 4) else none) ∧
      ((firstListed disk fsts).view.content dirKey = diskDir disk) := by
  refine ⟨?_, rfl⟩
  rw [view_lba, blockMapFind, firstListed, List.find?_cons]
  by_cases hkey : key = dirKey
  · rw [if_pos hkey, decide_eq_true hkey.symm]
    rfl
  · rw [if_neg hkey, decide_eq_false (Ne.symm hkey)]
    rfl

/-- Nothing has been changed yet. -/
theorem pristine_firstListed (disk fsts : ℕ → DiskBlock) : Pristine (firstListed disk fsts) where
  sound :=
    { keys := List.nodup_singleton dirKey
      dirty := fun map hmap => by
        rw [List.mem_singleton.1 hmap]
        intro h
        cases h
      clean := fun map hmap _ hne => absurd (by rw [List.mem_singleton.1 hmap]) hne
      directory := fun map hmap _ => by rw [List.mem_singleton.1 hmap]; rfl }
  dir := by
    rw [(firstListed_view disk fsts dirKey).1, if_pos rfl]
    exact Option.some_ne_none _
  content key lba hlba := by
    have hview := firstListed_view disk fsts key
    rw [hview.1] at hlba
    split at hlba
    · rename_i hkey
      rw [hkey, hview.2, ← Option.some.inj hlba]
      rfl
    · cases hlba

/-- Entry 0 of a block is the block's beginning. -/
theorem slot_zero (buf : DiskBlock) : slot buf 0 = buf := by
  funext i
  rw [slot, Nat.mul_zero, Nat.zero_add]

/-- **`mount_fs` of a disk.** -/
theorem mountFs_cases {disk fsts : ℕ → DiskBlock} {s : Loader} (h : mountFs disk fsts = some s) :
    Fst.name (diskDir disk) = directorName ∧ Fst.recfm (diskDir disk) = fstDFix ∧
      Fst.name (slot (diskDir disk) 1) = allocmapName ∧
      ((firstListed disk fsts).readFile .directory).bind (fun s => s.readFile .allocmap) =
        some s := by
  rw [mountFs] at h
  split at h
  · exact nomatch h
  obtain ⟨s₁, hadd, h⟩ := Option.bind_eq_some_iff.1 h
  obtain rfl := Option.some.inj hadd
  obtain ⟨⟨buf, s₂⟩, hread, h⟩ := Option.bind_eq_some_iff.1 h
  have hfirst : buf = diskDir disk ∧ s₂ = firstListed disk fsts := by
    change (if ptrAt (disk 3) 4 < 1 then none else some (diskDir disk, firstListed disk fsts)) =
      some (buf, s₂) at hread
    split at hread
    · exact nomatch hread
    · obtain ⟨rfl, rfl⟩ := Prod.mk.inj (Option.some.inj hread)
      exact ⟨rfl, rfl⟩
  obtain ⟨rfl, rfl⟩ := hfirst
  dsimp only at h
  split at h
  · exact nomatch h
  · rename_i hnames
    simp only [not_or, not_not] at hnames
    rw [slot_zero] at hnames
    exact ⟨hnames.1, hnames.2.1, hnames.2.2.1, h⟩

/-- **What `mount_fs` has listed**: the blocks of the directory and of the allocation map,
at the places that the pointers on the disk give, and nothing else. -/
structure Mounted (disk fsts : ℕ → DiskBlock) (s : Loader) : Prop where
  names : Fst.name (diskDir disk) = directorName ∧ Fst.name (slot (diskDir disk) 1) = allocmapName
  recfm : Fst.recfm (diskDir disk) = fstDFix
  pristine : Pristine s
  touches : Touches .directory (fun _ => False) (firstListed disk fsts) s
  adds : ListsOnly (fun key => key.name = directorName ∧ key.level ≤ Fst.nlvl (diskDir disk) ∨
    key.name = allocmapName ∧ key.level ≤ Fst.nlvl (slot (diskDir disk) 1))
      (firstListed disk fsts) s
  roots : s.view.lba ⟨directorName, Fst.nlvl (diskDir disk), 0⟩ = some (Fst.fop (diskDir disk)) ∧
    s.view.lba ⟨allocmapName, Fst.nlvl (slot (diskDir disk) 1), 0⟩ =
      some (Fst.fop (slot (diskDir disk) 1))
  directory : ∀ l i, l ≤ Fst.nlvl (diskDir disk) → i * 1024 ^ l < Fst.adbc (diskDir disk) →
    s.view.lba ⟨directorName, l, i⟩ =
      some (treeNode disk (diskDir disk) (Fst.nlvl (diskDir disk) - l) i)
  allocmap : ∀ l i, l ≤ Fst.nlvl (slot (diskDir disk) 1) →
    i * 1024 ^ l < Fst.adbc (slot (diskDir disk) 1) → s.view.lba ⟨allocmapName, l, i⟩ =
      some (treeNode disk (slot (diskDir disk) 1) (Fst.nlvl (slot (diskDir disk) 1) - l) i)

/-- **What the mount lists** on a well formed disk: every block of the directory and of the map,
at the number the trees give. -/
theorem mountFs_mounted {disk fsts : ℕ → DiskBlock} {s : Loader} (hdisk : WellFormedDisk disk)
    (h : mountFs disk fsts = some s) : Mounted disk fsts s := by
  obtain ⟨hname, hrecfm, hmapName, h⟩ := mountFs_cases h
  obtain ⟨s₁, hdirectory, hallocmap⟩ := Option.bind_eq_some_iff.1 h
  have htight := hdisk.tight
  have hsmall := hdisk.small
  have haic := ptrAt_lt (diskDir disk) 12
  have hfirst := pristine_firstListed disk fsts
  obtain ⟨h₁, hadds, hroot, hdata⟩ := readFile_spec hfirst
    (show (firstListed disk fsts).fst .directory = diskDir disk from rfl)
    (by rw [Fst.aic] at htight; omega) hdisk.directory.height hdirectory
  have hfst₁ : s₁.fst .allocmap = slot (diskDir disk) 1 :=
    h₁.touches.fst_eq hfirst.dir id fun _ h => by cases h
  obtain ⟨h₂, hadds', hroot', hmap⟩ :=
    readFile_spec h₁.pristine hfst₁ (by omega) hdisk.allocmap.height hallocmap
  rw [h₁.touches.disk] at hmap
  rw [hname] at hadds hroot hdata
  rw [hmapName] at hadds' hroot' hmap
  exact
    { names := ⟨hname, hmapName⟩
      recfm := hrecfm
      pristine := h₂.pristine
      touches := h₁.touches.trans h₂.touches
      adds := (hadds.mono fun _ => Or.inl).trans (hadds'.mono fun _ => Or.inr)
      roots := ⟨h₂.touches.lba _ _ hroot, hroot'⟩
      directory := fun l i hl hi => h₂.touches.lba _ _ (hdata l i hl hi)
      allocmap := hmap }

/-- **A well-formed disk is mounted** with the directory that is on it. -/
theorem Mounted.dirOk {disk fsts : ℕ → DiskBlock} {s : Loader} (hdisk : WellFormedDisk disk)
    (h : Mounted disk fsts s) :
    (∀ k < 64 * Fst.adbc (diskDir disk), s.view.entry k = diskEntry disk k) ∧
      s.view.entry 0 = diskDir disk ∧ s.view.entry 1 = slot (diskDir disk) 1 ∧ DirOk s.view := by
  have htwo := hdisk.two
  have hroom := hdisk.room
  have hdata : ∀ b < Fst.adbc (diskDir disk),
      s.view.lba ⟨directorName, 0, b⟩ = some (dataLba disk (diskDir disk) b) := fun b hb => by
    rw [dataLba_eq]
    exact h.directory 0 b (Nat.zero_le _) (by rwa [pow_zero, Nat.mul_one])
  have hmap : ∀ b < Fst.adbc (slot (diskDir disk) 1), s.view.lba ⟨allocmapName, 0, b⟩ =
      some (dataLba disk (slot (diskDir disk) 1) b) := fun b hb => by
    rw [dataLba_eq]
    exact h.allocmap 0 b (Nat.zero_le _) (by rwa [pow_zero, Nat.mul_one])
  have hzero : s.view.entry 0 = diskDir disk := by
    rw [View.entry_zero, h.touches.content dirKey (pristine_firstListed disk fsts).dir id]
    rfl
  have hone : s.view.entry 1 = slot (diskDir disk) 1 := by
    rw [View.entry_one, ← View.entry_zero, hzero]
    rfl
  have hentry : ∀ k < 64 * Fst.adbc (diskDir disk), s.view.entry k = diskEntry disk k := by
    intro k hk
    rw [View.entry, View.dirBlock, h.pristine.content _ _ (hdata (k / 64) (by omega)),
      h.touches.disk]
    rfl
  refine ⟨hentry, hzero, hone, ?_⟩
  constructor
  case director => rw [View.entryName, hzero, h.names.1]
  case recfm => rw [hzero, h.recfm]
  case lrecl => rw [hzero, hdisk.lrecl]
  case allocmap => rw [View.entryName, hone, h.names.2]
  case two => rwa [View.entries, hzero]
  case room => rwa [View.entries, View.dirBlocks, hzero]
  case tight =>
    rw [View.entries, View.dirBlocks, hzero]
    exact hdisk.tight
  case blocks =>
    rw [View.dirBlocks, hzero]
    exact fun b hb => ⟨_, hdata b hb, hdisk.directory.blocks b hb⟩
  case mapBlocks =>
    rw [hone]
    exact fun b hb => ⟨_, hmap b hb, hdisk.allocmap.blocks b hb⟩
  case distinct =>
    rw [View.entries, hzero]
    intro k k' hk hk' heq
    rw [View.entryName, View.entryName, hentry k (by omega), hentry k' (by omega)] at heq
    exact hdisk.distinct k k' hk hk' heq

/-- **A mounted volume's directory and map are in order**, and nothing has been written. -/
theorem mountFs_dirOk {disk fsts : ℕ → DiskBlock} {s : Loader} (hdisk : WellFormedDisk disk)
    (h : mountFs disk fsts = some s) :
    Pristine s ∧ s.nfst = 64 ∧ s.stray = false ∧ DirOk s.view := by
  have hs := mountFs_mounted hdisk h
  exact ⟨hs.pristine, hs.touches.nfst.trans hdisk.nfst, hs.touches.stray, (hs.dirOk hdisk).2.2.2⟩

end Hvf
