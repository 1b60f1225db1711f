/-
# Up to 1023 blocks

A pointer block has slots 0 to 1023, and `__append_block` takes the count of the blocks
below it modulo 1024 less one for the slot of the next pointer.  For the last slot that is
minus one: the pointer is written in front of the buffer and is lost.  In a session none of
whose calls needs that slot, the walk through the pointers of each file finds its records;
a file that gets block 1024 ends this.
-/

import Hvf.Installer.EdfDurable

namespace Hvf

open Loader Outcome StepRun

/-- **The block is appended, and its pointer is lost**: the write in front of the pointer block
is what differs from `__append_block` of a file with room for the pointer. -/
structure PointerLost (s u : Loader) (i : ℕ) : Prop where
  stray : u.stray = true
  sound : Sound u
  nfst : u.nfst = s.nfst
  fst : u.fsts i = Fst.setAdbc (s.fsts i) (Fst.adbc (s.fsts i) + 1)
  lba_old : ∀ key lba, s.view.lba key = some lba → u.view.lba key = some lba
  fresh : ∃ lba, u.view.lba ⟨Fst.name (s.fsts i), 0, Fst.adbc (s.fsts i)⟩ = some lba ∧ lba ≠ 0
  directory : ∀ key, s.view.lba key ≠ none → key.name = directorName →
    u.view.content key = s.view.content key

section

variable {s : Loader} {i m lba : ℕ}

/-- **`__append_block` of a file of 1023 blocks** writes the pointer to the block in front of
the buffer of the pointer block. -/
theorem appendBlock_lost (hs : Sound s) (hmap : MapOk s) (hfree : Free s.view m 1)
    (hblocks : Fst.adbc (s.fst .allocmap) = m) (hdirector : Fst.name (s.fsts i) ≠ directorName)
    (hallocmap : Fst.name (s.fsts i) ≠ allocmapName) (hadbc : Fst.adbc (s.fsts i) = 1023)
    (hnlvl : Fst.nlvl (s.fsts i) = 1)
    (habsent : s.view.lba ⟨Fst.name (s.fsts i), 0, 1023⟩ = none)
    (hptr : s.view.lba ⟨Fst.name (s.fsts i), 1, 0⟩ = some lba) (hne : lba ≠ 0) :
    ∃ u, s.appendBlock (.caller i) = some u ∧ PointerLost s u i := by
  have hdirKey : (⟨Fst.name (s.fsts i), 0, 1023⟩ : BlockKey) ≠ dirKey := fun heq =>
    hdirector (congrArg BlockKey.name heq)
  obtain ⟨r, hget, y, hy, htaken⟩ := (getFreeBlock_spec hs hmap fun _ : True => by
    rw [hblocks]
    exact hfree.exists_clear).returns trivial
  rw [hblocks] at hy
  obtain ⟨w, hadd, hnew, hother, hcontent, hext⟩ :=
    (Extends.refl hs m fun _ => False).take hy htaken habsent id hallocmap hdirKey
  obtain ⟨bm, hw⟩ := hext.rest
  have hfst : w.fsts = s.fsts := by rw [hw]
  -- the slot is number 0, and nothing of the block is written
  obtain ⟨bm', hedit, hview, hsound⟩ := edit_spec hext.sound (hext.lba_old hptr) hne false
    fun buf => buf
  set u : Loader := { w with blockMap := bm', stray := w.stray || !false } with hu
  have hfind : s.blockMapFind ⟨Fst.name (s.fsts i), 0, 1023⟩ = none := by
    rwa [view_lba, Option.map_eq_none_iff] at habsent
  obtain ⟨map, hfound⟩ : ∃ map, w.blockMapFind ⟨Fst.name (s.fsts i), 1, 0⟩ = some map := by
    have hlba := hext.lba_old hptr
    rw [view_lba] at hlba
    obtain ⟨map, hmap, -⟩ := Option.map_eq_some_iff.1 hlba
    exact ⟨map, hmap⟩
  refine ⟨u.setFst (.caller i) fun fst => Fst.setAdbc fst (Fst.adbc fst + 1), ?_, ?_⟩
  · have h0 : fileBlocksAtLevel (1023 + 1) 0 = 1024 := by decide
    have h1 : fileBlocksAtLevel (1023 + 1) 1 = 1 := by decide
    rw [appendBlock, fst_caller, if_neg (by omega), hnlvl]
    simp only [appendLevels, fst_caller, hadbc, h0, Nat.reduceSub, hfind, hget, hadd, hfst, h1,
      hfound, Option.bind_eq_bind, Option.bind_some, reduceIte, Nat.reduceMod, Nat.reduceAdd,
      Nat.one_ne_zero, ne_eq, not_true_eq_false, decide_false, hedit]
  · constructor
    case stray => exact Bool.or_true _
    case sound => exact ⟨hsound.keys, hsound.dirty, hsound.clean, hsound.directory⟩
    case nfst =>
      show w.nfst = s.nfst
      rw [hw]
    case fst =>
      rw [setFst_caller_self]
      show Fst.setAdbc (w.fsts i) _ = _
      rw [hfst]
    case lba_old =>
      intro key lba' hlba'
      show u.view.lba key = some lba'
      rw [hview, View.edit_lba, hext.lba_old hlba']
    case fresh =>
      refine ⟨r.1, ?_, by rw [htaken.lba]; exact Nat.succ_ne_zero y⟩
      show u.view.lba _ = some r.1
      rw [hview, View.edit_lba, hadbc, hnew]
    case directory =>
      intro key hkey hname
      show u.view.content key = s.view.content key
      rw [hview, View.edit_content, if_neg fun heq : key = _ =>
        hdirector (by rw [← hname, heq])]
      exact hext.content key hkey id fun hmap' =>
        absurd (hname.symm.trans hmap'.1) (by decide)

end

namespace VolumeOk

variable {disk : ℕ → DiskBlock} {t : VolumeSession} {i k : ℕ}

/-- A file whose next pointer goes to the last slot has 1023 blocks below a block of pointers. -/
theorem of_lastSlot (h : VolumeOk disk t) (howner : t.owner i = some k)
    (hslot : (treeOf (t.loader.fsts i)).LastSlot) :
    Fst.adbc (t.loader.fsts i) = 1023 ∧ Fst.nlvl (t.loader.fsts i) = 1 := by
  obtain ⟨hfile, htree⟩ := h.fileHas howner
  obtain ⟨l, hl, -, hlast⟩ := hslot
  have hle := hfile.nlvl_le htree
  have hlow := hfile.low
  have hl' : l < Fst.nlvl (t.loader.fsts i) := hl
  obtain rfl : l = 0 := by omega
  have hlast' : Fst.adbc (t.loader.fsts i) / 1024 ^ 0 % 1024 = 1023 := hlast
  rw [pow_zero, Nat.div_one] at hlast'
  omega

/-- **The record that brings block 1024 with it** is appended, and something is written outside
of the blocks. -/
theorem appendRecord_strays (h : VolumeOk disk t) (howner : t.owner i = some k)
    (buf : ℕ → UInt8) (hmore : recordRem (t.loader.fsts i) < Fst.lrecl (t.loader.fsts i))
    (hslot : (treeOf (t.loader.fsts i)).LastSlot)
    (hfree : Free t.loader.view (Fst.adbc (t.loader.view.entry 1)) 1) :
    ∃ u, t.loader.appendRecord (.caller i) buf = some u ∧ u.stray = true := by
  obtain ⟨-, htree⟩ := h.fileHas howner
  obtain ⟨hadbc, hnlvl⟩ := h.of_lastSlot howner hslot
  obtain ⟨hk, hlt, hsame⟩ := h.owner i k howner
  set s := t.loader
  obtain ⟨hdirector, hallocmap⟩ := h.name_ne hk hlt
  rw [View.entryName, hsame.name] at hdirector hallocmap
  -- the blocks that there are, and the one that is missing
  have hdata : ∀ b < 1023, ∃ lba, s.view.lba ⟨Fst.name (s.fsts i), 0, b⟩ = some lba ∧ lba ≠ 0 :=
    fun b hb => htree.present _ ⟨rfl, Nat.zero_le _, by
      show b * 1024 ^ 0 < Fst.adbc (s.fsts i)
      rwa [pow_zero, Nat.mul_one, hadbc]⟩
  have habsent : s.view.lba ⟨Fst.name (s.fsts i), 0, 1023⟩ = none := by
    by_contra hlba
    have hhas := h.forest.own k _ (Or.inr ⟨hk, hlt⟩) (h.first.1.trans hk)
      (show Fst.name (s.fsts i) = (treeOf (s.view.entry k)).name by rw [hsame.treeOf_eq]; rfl) hlba
    rw [hsame.treeOf_eq] at hhas
    have hlt' : 1023 * 1024 ^ 0 < Fst.adbc (s.fsts i) := hhas.2.2
    rw [pow_zero, hadbc] at hlt'
    omega
  obtain ⟨lba, hptr, hne⟩ := htree.present ⟨Fst.name (s.fsts i), 1, 0⟩ ⟨rfl, hnlvl.ge, by
    show 0 * 1024 ^ 1 < Fst.adbc (s.fsts i)
    rw [Nat.zero_mul, hadbc]
    decide⟩
  obtain ⟨s₁, hgrow, hlost⟩ :=
    appendBlock_lost h.sound h.mapOk hfree rfl hdirector hallocmap hadbc hnlvl habsent hptr hne
  have hname₁ : Fst.name (s₁.fsts i) = Fst.name (s.fsts i) := by
    rw [hlost.fst]
    exact (oneMore_adbc.same _).name
  have hdata₁ : ∀ b < 1023 + 1,
      ∃ lba, s₁.view.lba ⟨Fst.name (s.fsts i), 0, b⟩ = some lba ∧ lba ≠ 0 := by
    intro b hb
    by_cases hlast : b < 1023
    · obtain ⟨lba, hlba, hne⟩ := hdata b hlast
      exact ⟨lba, hlost.lba_old _ lba hlba, hne⟩
    · rw [show b = Fst.adbc (s.fsts i) by omega]
      exact hlost.fresh
  obtain ⟨u, happend, hput⟩ := h.recordPut howner buf (by rwa [if_pos hmore]) hlost.sound
    hlost.nfst hname₁ hlost.lba_old (by rwa [blocksAfter, if_pos hmore, hadbc]) hlost.directory
  obtain ⟨_, -, hw⟩ := hput.wrote
  exact ⟨u, happend, hw.stray.trans hlost.stray⟩

end VolumeOk

/-! ### Call after call -/

/-- **The blocks of all files are in their trees,** in a session on the volume mounted from
`disk`; `disk'` is the disk with the buffers on it.  A walk from `FOP` over it finds the records
of each file that was created, with as many blocks as they need, and no block is in two trees
or twice in one. -/
structure BlockTrees (disk : ℕ → DiskBlock) (t : VolumeSession) (disk' : ℕ → DiskBlock) : Prop where
  buffers : t.loader.writeback = some disk'
  entries : Fst.aic (diskDir disk') = t.loader.view.entries
  fst : ∀ i k, t.owner i = some k → SameFst (diskEntry disk' k) (t.loader.fsts i)
  file : ∀ k, Fst.aic (diskDir disk) ≤ k → k < t.loader.view.entries →
    FileExact (diskEntry disk' k) (diskByte disk' (diskEntry disk' k)) (t.files k)
  old : ∀ k, 2 ≤ k → k < Fst.aic (diskDir disk) → SameOnDisk disk disk' k
  apart : ∀ k k' key key', k < t.loader.view.entries → k' < t.loader.view.entries →
    (treeOf (diskEntry disk' k)).Has key → (treeOf (diskEntry disk' k')).Has key' →
      diskPlace disk' (diskEntry disk' k) key = diskPlace disk' (diskEntry disk' k') key' →
        k = k' ∧ key = key'

/-- **No write went outside of a block,** and the blocks of all files are in their trees. -/
def BlocksExact (disk : ℕ → DiskBlock) (t : VolumeSession) : Prop :=
  t.loader.stray = false ∧ ∃ disk', BlockTrees disk t disk'

section

variable {disk fsts : ℕ → DiskBlock} {ebcdic : UInt8 → UInt8} {s : Loader}
  {t t' : VolumeSession} {calls : List VolumeCall} {files : ℕ → NewFile} {i k : ℕ}
  {buf : ℕ → UInt8}

namespace VolumeOk

/-- A volume in order has all blocks in their trees. -/
theorem blocksExact (h : VolumeOk disk t) (hdisk : MountableVolume disk) : BlocksExact disk t := by
  obtain ⟨disk', hwrite, hw⟩ := h.written
  have hroom := h.dir.room
  refine ⟨h.stray, disk', ?_⟩
  constructor
  case buffers => exact hwrite
  case entries =>
    rw [hw.diskDir_eq h]
    rfl
  case fst =>
    intro i k howner
    obtain ⟨-, hlt, hsame⟩ := h.owner i k howner
    rw [hw.entry_eq h (by omega)]
    exact hsame
  case file => exact fun k hk hlt => hw.fileExact h hk hlt
  case old => exact fun k htwo hk => hw.sameOnDisk h htwo hk
  case apart =>
    intro k k' key key' hk hk' hkey hkey' heq
    obtain rfl := hw.apart h hdisk hk hk' hkey hkey' heq
    have hname := hkey.1.symm.trans hkey'.1
    rw [hw.entry_eq h (by omega), hw.entry_eq h (by omega)] at hname
    exact ⟨h.dir.distinct k k' hk hk' hname, rfl⟩

/-- **A record is appended as asked exactly if its call meets the condition.** -/
theorem append_exact_iff (h : VolumeOk disk t) (hdisk : MountableVolume disk)
    (hasked : VolumeAsked ebcdic t (.append i buf)) (hroom : VolumeRoom t (.append i buf)) :
    ∃ t', VolumeStep ebcdic t (.append i buf) t' ∧
      (BlocksExact disk t' ↔ VolumeMeets t (.append i buf)) := by
  by_cases hmeets : VolumeMeets t (.append i buf)
  · obtain ⟨t', hstep⟩ := h.returns hmeets hasked hroom
    exact ⟨t', hstep, fun _ => hmeets, fun _ => (h.step hmeets hstep).blocksExact hdisk⟩
  · obtain ⟨k, howner⟩ := hasked
    obtain ⟨hmore, hslot⟩ := Classical.not_imp.1 hmeets
    obtain ⟨u, happend, hstray⟩ :=
      h.appendRecord_strays howner buf hmore (not_not.1 hslot) (hroom.mono (by decide))
    refine ⟨⟨u, _, _⟩, ⟨k, howner, happend, rfl, rfl⟩, fun hexact => ?_, fun hyes =>
      absurd hyes hmeets⟩
    exact absurd (hstray.symm.trans hexact.1) (by decide)

end VolumeOk

/-- **Call after call, the blocks of all files are in their trees.**  In every state that calls
lead to none of which gives a block of pointers its last pointer, no write went outside of a
block, the walk through the pointers of each file finds its records, and no block is used
twice.  Where blocks are free, the next call that meets the condition returns and keeps this;
a record that is appended keeps it exactly if its block's pointer is not the last of a pointer
block. -/
theorem blockTrees_exact (hdisk : MountableVolume disk) (hmount : mountFs disk fsts = some s)
    (hrun : Run (guarded VolumeMeets (VolumeStep ebcdic)) ⟨s, fun _ => none, files⟩ calls t) :
    BlocksExact disk t ∧
      (∀ call, VolumeMeets t call → VolumeAsked ebcdic t call → VolumeRoom t call →
        ∃ t', VolumeStep ebcdic t call t' ∧ BlocksExact disk t') ∧
      ∀ i buf, VolumeAsked ebcdic t (.append i buf) → VolumeRoom t (.append i buf) →
        ∃ t', VolumeStep ebcdic t (.append i buf) t' ∧
          (BlocksExact disk t' ↔ VolumeMeets t (.append i buf)) := by
  have h := (volumeOk_of_run hdisk.toWellFormedVolume hmount hrun).1
  refine ⟨h.blocksExact hdisk, fun call hmeets hasked hroom => ?_,
    fun i buf hasked hroom => h.append_exact_iff hdisk hasked hroom⟩
  obtain ⟨t', hstep⟩ := h.returns hmeets hasked hroom
  exact ⟨t', hstep, (h.step hmeets hstep).blocksExact hdisk⟩

end

/-! ### A file of 1023 blocks -/

/-- `NEWFILES NEWTYPES` is created with records of a block, and gets `n` of them. -/
def appendCalls (n : ℕ) : List VolumeCall :=
  .create newFn newFt 4096 0 :: List.replicate n (.append 0 blankRecord)

/-- **The session behind these calls.**  All of them meet the condition and find free blocks,
of which some are left. -/
structure BlocksAppended (files : ℕ → NewFile) (n : ℕ) (t : VolumeSession) : Prop where
  run : Run (guarded (fun t call => VolumeMeets t call ∧ VolumeRoom t call)
    (VolumeStep ebcdicLetter)) ⟨fullLoader, fun _ => none, files⟩ (appendCalls n) t
  owner : t.owner 0 = some 64
  lrecl : (t.files 64).lrecl = 4096
  recs : (t.files 64).recs = List.replicate n blankRecord
  free : Free t.loader.view 1 (4000 - 3 * n)

/-- The bits of the example's allocation map behind the first byte are clear. -/
theorem diskBit_fullDisk {y : ℕ} (hlow : 8 ≤ y) (hy : y < 32768) : diskBit fullDisk y = false := by
  have hblock : dataLba fullDisk (slot (diskDir fullDisk) 1) 0 = 6 := by decide +kernel
  have hbehind : ¬ y % 32768 < 8 := by omega
  rw [diskBit, Nat.div_eq_of_lt hy, hblock]
  simp [Bitmap.test, bits, fullDisk, hbehind]

/-- The allocation map of the example's volume is one block. -/
theorem mapBlocks_fullDisk : Fst.adbc (slot (diskDir fullDisk) 1) = 1 := by decide +kernel

/-- Some thousand blocks of the example's volume are free. -/
theorem free_fullLoader : Free fullLoader.view 1 4002 := by
  have hmounted := mountFs_mounted wellFormedDisk_fullDisk mountFs_fullDisk
  refine ⟨Finset.Ico 8 4010, by simp, fun y hy => ?_⟩
  rw [Finset.mem_Ico] at hy
  refine ⟨by omega, ?_⟩
  rw [hmounted.bit_eq (by rw [mapBlocks_fullDisk]; omega), diskBit_fullDisk hy.1 (by omega)]

namespace BlocksAppended

variable {files : ℕ → NewFile} {n : ℕ} {t : VolumeSession}

/-- The calls meet the condition of the volume. -/
theorem run_meets (h : BlocksAppended files n t) : Run (guarded VolumeMeets
    (VolumeStep ebcdicLetter)) ⟨fullLoader, fun _ => none, files⟩ (appendCalls n) t :=
  h.run.mono fun _ _ _ hstep => ⟨hstep.1.1, hstep.2⟩

/-- The volume is in order. -/
theorem volumeOk (h : BlocksAppended files n t) : VolumeOk fullDisk t :=
  (volumeOk_of_run mountableVolume_fullDisk.toWellFormedVolume mountFs_fullDisk h.run_meets).1

/-- Its allocation map is the one block. -/
theorem mapBlocks (h : BlocksAppended files n t) : Fst.adbc (t.loader.view.entry 1) = 1 :=
  (h.volumeOk.mapBlocks_eq mountableVolume_fullDisk).trans mapBlocks_fullDisk

/-- The file has a block for each record, and the last one is full. -/
theorem blocks (h : BlocksAppended files n t) : Fst.adbc (t.loader.fsts 0) = n ∧
    Fst.lrecl (t.loader.fsts 0) = 4096 ∧ recordRem (t.loader.fsts 0) = 0 := by
  obtain ⟨hfile, -⟩ := h.volumeOk.fileHas h.owner
  obtain ⟨hk, hlt, hsame⟩ := h.volumeOk.owner 0 64 h.owner
  have hlrecl : Fst.lrecl (t.loader.fsts 0) = 4096 := by
    rw [← h.lrecl, ← (h.volumeOk.made 64 hk hlt).2]
    exact (hsame.word (by decide)).symm
  have haic : Fst.aic (t.loader.fsts 0) = n := by
    rw [hfile.aic, h.recs, List.length_replicate]
  have hblocks := hfile.blocks
  have hrem := recordRem_eq hfile.off_lt hblocks
  rw [haic, hlrecl] at hblocks hrem
  omega

/-- The file can be created. -/
theorem start (files : ℕ → NewFile) : ∃ t, BlocksAppended files 0 t := by
  have hok := volumeOk_of_mountFs mountableVolume_fullDisk.toWellFormedVolume files mountFs_fullDisk
  have hmap : Fst.adbc (fullLoader.view.entry 1) = 1 :=
    (hok.mapBlocks_eq mountableVolume_fullDisk).trans mapBlocks_fullDisk
  have hnlvl : Fst.nlvl (fullLoader.view.entry 0) = 0 := by decide +kernel
  have hnames : ∀ k < 64, fullLoader.view.entryName k ≠
      Fst.name (createdFst ebcdicLetter newFn newFt 4096) := by decide +kernel
  have hmeets := volumeMeets_fullLoader files newFn newFt 4096 0
  have hroom : VolumeRoom ⟨fullLoader, fun _ => none, files⟩ (.create newFn newFt 4096 0) := by
    show Free fullLoader.view (Fst.adbc (fullLoader.view.entry 1))
      (Fst.nlvl (fullLoader.view.entry 0) + 2)
    rw [hmap, hnlvl]
    exact free_fullLoader.mono (by decide)
  have hasked : VolumeAsked ebcdicLetter ⟨fullLoader, fun _ => none, files⟩
      (.create newFn newFt 4096 0) :=
    ⟨by decide, le_rfl, fun k hk => hnames k (hk.trans_eq entries_fullLoader)⟩
  obtain ⟨t, hstep⟩ := hok.returns hmeets hasked hroom
  obtain ⟨_, _, _, hcreate, howner, hfiles⟩ := id hstep
  have hadd := (hok.entryAdded_spec _ _ hmeets False.elim).post
    ((createFile_eq _ _ _ _ _ _).symm.trans hcreate)
  rw [entries_fullLoader] at howner hfiles
  refine ⟨t, ?_⟩
  constructor
  case run => exact Run.snoc Run.nil ⟨⟨hmeets, hroom⟩, hstep⟩
  case owner => rw [howner, Function.update_self]
  case lrecl => rw [hfiles, Function.update_self]
  case recs =>
    rw [hfiles, Function.update_self]
    rfl
  case free =>
    have hfree : Free fullLoader.view (Fst.adbc (fullLoader.view.entry 1))
        (4000 + (Fst.nlvl (fullLoader.view.entry 0) + 2)) →
        Free t.loader.view (Fst.adbc (fullLoader.view.entry 1)) 4000 := hadd.free 4000
    rw [hmap, hnlvl] at hfree
    exact hfree free_fullLoader

/-- Its next record meets the condition, as long as there is a slot in front of the last one. -/
theorem meets (h : BlocksAppended files n t) (hn : n < 1023) :
    VolumeMeets t (.append 0 blankRecord) := fun _ hslot => by
  have hlast := (h.volumeOk.of_lastSlot h.owner hslot).1
  rw [h.blocks.1] at hlast
  omega

/-- There are blocks for its next record. -/
theorem room (h : BlocksAppended files n t) (hn : n ≤ 1023) :
    VolumeRoom t (.append 0 blankRecord) := by
  show Free t.loader.view (Fst.adbc (t.loader.view.entry 1)) 3
  rw [h.mapBlocks]
  exact h.free.mono (by omega)

/-- The file can get a record more. -/
theorem next (h : BlocksAppended files n t) (hn : n < 1023) :
    ∃ t', BlocksAppended files (n + 1) t' := by
  have hmeets := h.meets hn
  have hroom := h.room hn.le
  have hasked : VolumeAsked ebcdicLetter t (.append 0 blankRecord) := ⟨64, h.owner⟩
  obtain ⟨t', hstep⟩ := h.volumeOk.returns hmeets hasked hroom
  obtain ⟨k, howner, happend, howner', hfiles⟩ := id hstep
  obtain rfl := Option.some.inj (howner.symm.trans h.owner)
  have hadd := (h.volumeOk.recordAdded_spec howner blankRecord hmeets False.elim).post happend
  refine ⟨t', ?_⟩
  constructor
  case run =>
    rw [show appendCalls (n + 1) = appendCalls n ++ [.append 0 blankRecord] by
      simp [appendCalls, List.replicate_succ']]
    exact Run.snoc h.run ⟨⟨hmeets, hroom⟩, hstep⟩
  case owner => rw [howner', howner]
  case lrecl => rw [hfiles, Function.update_self, h.lrecl]
  case recs => rw [hfiles, Function.update_self, h.recs, List.replicate_succ']
  case free =>
    have hfree := hadd.free (4000 - 3 * (n + 1))
    rw [h.mapBlocks] at hfree
    exact hfree (h.free.mono (by omega))

/-- **The file gets up to 1023 records**, by induction on their number. -/
theorem exists_upTo (files : ℕ → NewFile) : ∀ n ≤ 1023, ∃ t, BlocksAppended files n t
  | 0, _ => start files
  | n + 1, hn => by
    obtain ⟨t, h⟩ := exists_upTo files n (by omega)
    exact h.next hn

end BlocksAppended

/-- A session in which a file gets 1023 records of a block each. -/
theorem blockTrees_exact_blocks : ∃ t : VolumeSession,
    (t.files 64).recs = List.replicate 1023 blankRecord ∧ BlocksExact fullDisk t ∧
      (∀ call, VolumeMeets t call → VolumeAsked ebcdicLetter t call → VolumeRoom t call →
        ∃ t', VolumeStep ebcdicLetter t call t' ∧ BlocksExact fullDisk t') ∧
      ∀ i buf, VolumeAsked ebcdicLetter t (.append i buf) → VolumeRoom t (.append i buf) →
        ∃ t', VolumeStep ebcdicLetter t (.append i buf) t' ∧
          (BlocksExact fullDisk t' ↔ VolumeMeets t (.append i buf)) := by
  obtain ⟨t, h⟩ := BlocksAppended.exists_upTo (fun _ => ⟨directorName, 0, []⟩) 1023 le_rfl
  exact ⟨t, h.recs, blockTrees_exact mountableVolume_fullDisk mountFs_fullDisk h.run_meets⟩

/-- The record behind them: its block is number 1024 of the file, and the pointer to it is
written in front of the buffer of the pointer block, with blocks free for every call. -/
theorem not_blockTrees_exact : ¬ ∀ (ebcdic : UInt8 → UInt8) (disk fsts : ℕ → DiskBlock)
    (s : Loader) (files : ℕ → NewFile) (calls : List VolumeCall) (t : VolumeSession),
    MountableVolume disk → mountFs disk fsts = some s →
      Run (guarded VolumeRoom (VolumeStep ebcdic)) ⟨s, fun _ => none, files⟩ calls t →
        BlocksExact disk t := by
  intro hall
  obtain ⟨t, h⟩ := BlocksAppended.exists_upTo (fun _ => ⟨directorName, 0, []⟩) 1023 le_rfl
  have hrun : Run (guarded VolumeRoom (VolumeStep ebcdicLetter)) ⟨fullLoader, fun _ => none, _⟩
      (appendCalls 1023) t := h.run.mono fun _ _ _ hstep => ⟨hstep.1.2, hstep.2⟩
  have hroom := h.room le_rfl
  obtain ⟨hadbc, hlrecl, hrem⟩ := h.blocks
  obtain ⟨-, htree⟩ := h.volumeOk.fileHas h.owner
  obtain ⟨u, happend, hstray⟩ := h.volumeOk.appendRecord_strays h.owner blankRecord (by omega)
    (FileHas.lastSlot hadbc htree) (hroom.mono (by decide))
  have hexact := hall _ _ _ _ _ _ _ mountableVolume_fullDisk mountFs_fullDisk
    (hrun.event (.append 0 blankRecord) hroom (show VolumeStep ebcdicLetter t _ ⟨u, _, _⟩ from
      ⟨64, h.owner, happend, rfl, rfl⟩))
  exact absurd (hstray.symm.trans hexact.1) (by decide)

end Hvf
