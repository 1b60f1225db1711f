/-
# Files of a session

The loader creates files on a mounted volume and appends records to them.  After each
call that gives no block of pointers its last pointer, the volume is sound (`VolumeOk`):
its files have blocks of their own, as many as their records need, with the bytes of the
records, below as few levels of pointers as there can be.
-/

import Hvf.Installer.EdfRecords
import Hvf.Installer.EdfSession
import Hvf.Installer.EdfVolume

namespace Hvf

open Loader Outcome StepRun

/-! ### Calls -/

/-- **What a file was created with**, name and record length, and the records that it has
been given. -/
structure NewFile where
  name : FileName
  lrecl : ℕ
  recs : List (ℕ → UInt8)

/-- A mounted volume, the entry of the file whose FST a caller has, and the file of an
entry. -/
structure VolumeSession where
  loader : Loader
  owner : ℕ → Option ℕ
  files : ℕ → NewFile

/-- A call of a session: `create_file` for the FST of caller `i`, and `append_record` with
it. -/
inductive VolumeCall
  | create (fn ft : List UInt8) (lrecl i : ℕ)
  | append (i : ℕ) (buf : ℕ → UInt8)

section

variable (ebcdic : UInt8 → UInt8)

/-- **A call that does not `die`,** for which a caller answers as well: a file that is created
has a name that no entry of the directory has, and records of one byte up to a block.  A
record is appended to a file that the session created. -/
def VolumeStep (t : VolumeSession) (call : VolumeCall) (t' : VolumeSession) : Prop :=
  match call with
  | .create fn ft lrecl i =>
      0 < lrecl ∧ lrecl ≤ 4096 ∧
        (∀ k < t.loader.view.entries,
          t.loader.view.entryName k ≠ Fst.name (createdFst ebcdic fn ft lrecl)) ∧
        t.loader.createFile ebcdic fn ft lrecl i = some t'.loader ∧
        t'.owner = Function.update t.owner i (some t.loader.view.entries) ∧
        t'.files = Function.update t.files t.loader.view.entries
          ⟨Fst.name (createdFst ebcdic fn ft lrecl), lrecl, []⟩
  | .append i buf =>
      ∃ k, t.owner i = some k ∧ t.loader.appendRecord (.caller i) buf = some t'.loader ∧
        t'.owner = t.owner ∧
        t'.files = Function.update t.files k { t.files k with recs := (t.files k).recs ++ [buf] }

/-- **What a call is to meet.**  If the directory or the file gets a block, no block that it
brings with it is in the list, and its pointer is not the last one of a block: that pointer is
written in front of the buffer.

A directory that was mounted with two blocks or more, all of them full, does not meet this.
`mount_fs` lists all 1024 pointers of a pointer block, also those that point nowhere, and
`__append_block` takes the block that it is to append for one that is there already and
dies, however many blocks are free.  A file of 1024 blocks does not meet it either. -/
def VolumeMeets (t : VolumeSession) : VolumeCall → Prop
  | .create _ _ _ _ =>
      t.loader.view.entries < 2 ^ 26 ∧
        (t.loader.view.entries = 64 * t.loader.view.dirBlocks →
          (treeOf (t.loader.view.entry 0)).Grows t.loader.view)
  | .append i _ =>
      recordRem (t.loader.fsts i) < Fst.lrecl (t.loader.fsts i) →
        ¬ (treeOf (t.loader.fsts i)).LastSlot

end

/-- The files that the loader knows: the directory, the allocation map, and those that
were created. -/
def Known (disk : ℕ → DiskBlock) (v : View) (k : ℕ) : Prop :=
  k < 2 ∨ Fst.aic (diskDir disk) ≤ k ∧ k < v.entries

/-- **The invariant of a session on the volume mounted from `disk`.** List, directory and
map are in order; every file created has its records in its blocks; the trees of all files
known share no block and are marked in the map; and no write went astray. -/
structure VolumeOk (disk : ℕ → DiskBlock) (t : VolumeSession) : Prop where
  sound : Sound t.loader
  volume : t.loader.disk = disk
  nfst : t.loader.nfst = 64
  stray : t.loader.stray = false
  dir : DirOk t.loader.view
  dop : t.loader.view.lba dirKey = some (ptrAt (disk 3) 4)
  small : 32768 * Fst.adbc (t.loader.view.entry 1) < 2 ^ 32
  first : 2 ≤ Fst.aic (diskDir disk) ∧ Fst.aic (diskDir disk) ≤ t.loader.view.entries
  marked : t.loader.view.dirty dirKey = true ∨
    t.loader.view.entries = Fst.aic (diskDir disk) ∧ t.loader.view.content dirKey = diskDir disk
  old : ∀ k, 1 ≤ k → k < Fst.aic (diskDir disk) →
    SameFst (t.loader.view.entry k) (diskEntry disk k)
  forest : Forest t.loader.view (Known disk t.loader.view)
    (fun k => treeOf (t.loader.view.entry k)) (OldBlock disk)
  file : ∀ k, Fst.aic (diskDir disk) ≤ k → k < t.loader.view.entries →
    FileHas t.loader.view (t.loader.view.entry k) (t.files k).recs
  made : ∀ k, Fst.aic (diskDir disk) ≤ k → k < t.loader.view.entries →
    t.loader.view.entryName k = (t.files k).name ∧
      Fst.lrecl (t.loader.view.entry k) = (t.files k).lrecl
  owner : ∀ i k, t.owner i = some k → Fst.aic (diskDir disk) ≤ k ∧ k < t.loader.view.entries ∧
    SameFst (t.loader.view.entry k) (t.loader.fsts i)
  apart : ∀ i j k, t.owner i = some k → t.owner j = some k → i = j

/-- **A record in its blocks.** From `s₁` to `u` the data blocks of the file and a block of the
directory were written, and the record counted; `s` is the loader before. -/
structure RecordPut (s s₁ u : Loader) (i : ℕ) (buf : ℕ → UInt8) : Prop where
  wrote : ∃ b < s.view.dirBlocks, Wrote (.caller i)
    (fun key => (key.name = Fst.name (s.fsts i) ∧ key.level = 0 ∧
      key.blkNo < blocksAfter (s.fsts i)) ∨ key = ⟨directorName, 0, b⟩) s₁ u
  fst : u.fsts i = Fst.setAic (s₁.fsts i) (Fst.aic (s₁.fsts i) + 1)
  bytes : ∀ pos, u.view.fileByte (Fst.name (s.fsts i)) pos =
    if recordOff (s.fsts i) ≤ pos ∧
        pos < recordOff (s.fsts i) + Fst.lrecl (s.fsts i) then
      buf (pos - recordOff (s.fsts i))
    else s₁.view.fileByte (Fst.name (s.fsts i)) pos

/-- **`append_record` of the file in entry `k` among the files `live`**: it has the record
behind the ones it had, the least blocks that hold them, and the trees still share no block.
-/
structure RecordAdded (s u : Loader) (i k : ℕ) (buf : ℕ → UInt8) (live : ℕ → Prop)
    (kept : ℕ → Prop) : Prop where
  appended : FileAppended s u i k
  same : SameFile (s.fsts i) (u.fsts i)
  aic : Fst.aic (u.fsts i) = Fst.aic (s.fsts i) + 1
  adbc : Fst.adbc (u.fsts i) = blocksAfter (s.fsts i)
  forest : Forest u.view live
    (Function.update (fun k => treeOf (s.view.entry k)) k (treeOf (u.fsts i))) kept
  content : ∀ key, s.view.lba key ≠ none → key.name ≠ Fst.name (s.fsts i) →
    key.name ≠ directorName → key.name ≠ allocmapName → u.view.content key = s.view.content key
  old : ∀ pos < recordOff (s.fsts i), pos / 4096 < Fst.adbc (s.fsts i) →
    u.view.fileByte (Fst.name (s.fsts i)) pos = s.view.fileByte (Fst.name (s.fsts i)) pos
  new : ∀ j < Fst.lrecl (s.fsts i),
    u.view.fileByte (Fst.name (s.fsts i)) (recordOff (s.fsts i) + j) = buf j
  dirtied : ∀ key, s.view.dirty key = true → u.view.dirty key = true
  free : ∀ j, Free s.view (Fst.adbc (s.view.entry 1)) (j + 3) →
    Free u.view (Fst.adbc (s.view.entry 1)) j

namespace VolumeOk

variable {disk : ℕ → DiskBlock} {t : VolumeSession} {i k : ℕ}

/-- The directory itself is among the known files. -/
theorem zero (disk : ℕ → DiskBlock) (v : View) : Known disk v 0 := Or.inl (by decide)

/-- A volume in order has its map in order. -/
theorem mapOk (h : VolumeOk disk t) : MapOk t.loader :=
  ⟨h.dir.allocmap, h.small, h.dir.mapBlocks⟩

/-- A file that was created is neither the directory nor the allocation map. -/
theorem name_ne (h : VolumeOk disk t) (hk : Fst.aic (diskDir disk) ≤ k)
    (hlt : k < t.loader.view.entries) :
    t.loader.view.entryName k ≠ directorName ∧ t.loader.view.entryName k ≠ allocmapName := by
  have htwo := h.first.1
  rw [← h.dir.director, ← h.dir.allocmap]
  constructor
  · intro heq
    have := h.dir.distinct k 0 hlt (by omega) heq
    omega
  · intro heq
    have := h.dir.distinct k 1 hlt (by omega) heq
    omega

/-- What `__append_block` relies on, for a file that was created. -/
theorem base (h : VolumeOk disk t) (howner : t.owner i = some k)
    (hslot : ¬ (treeOf (t.loader.fsts i)).LastSlot) :
    Base t.loader (.caller i) (Fst.adbc (t.loader.view.entry 1)) := by
  obtain ⟨hk, hlt, hfst⟩ := h.owner i k howner
  have hknown : Known disk t.loader.view k := Or.inr ⟨hk, hlt⟩
  have htree : treeOf (t.loader.view.entry k) = treeOf (t.loader.fsts i) := hfst.treeOf_eq
  have hlow := (h.file k hk hlt).low
  have hok : (treeOf (t.loader.fsts i)).Ok t.loader.view := htree ▸ h.forest.tree k hknown
  constructor
  case sound => exact h.sound
  case map => exact h.mapOk
  case blocks => rfl
  case directory => exact h.dir.dirKey_ne_none
  case ok => exact hok
  case grows =>
    refine ⟨fun l hl hdvd => ?_, hslot⟩
    by_contra hlba
    have hhas := h.forest.own k _ hknown (h.first.1.trans hk)
      (show ((treeOf (t.loader.fsts i)).path l).name = _ by rw [htree]; rfl) hlba
    rw [htree] at hhas
    exact (Tree.has_path_iff hl).1 hhas hdvd
  case name =>
    intro heq
    exact (h.name_ne hk hlt).2 (hfst.name.trans heq)
  case ptr => exact fun heq => by cases heq
  case adbc =>
    have hadbc : Fst.adbc (t.loader.view.entry k) = Fst.adbc (t.loader.fsts i) :=
      hfst.word (by decide)
    rw [fst_caller, ← hadbc]
    omega

/-- The FST of a caller is that of its file. -/
theorem fileHas (h : VolumeOk disk t) (howner : t.owner i = some k) :
    FileHas t.loader.view (t.loader.fsts i) (t.files k).recs ∧
      (treeOf (t.loader.fsts i)).Ok t.loader.view := by
  obtain ⟨hk, hlt, hsame⟩ := h.owner i k howner
  refine ⟨(h.file k hk hlt).keep (fun j hj => (hsame j hj).symm) fun _ _ => rfl, ?_⟩
  rw [← hsame.treeOf_eq]
  exact h.forest.tree k (Or.inr ⟨hk, hlt⟩)

/-- **The record goes to its blocks, and the FST with it to the directory**, from `s₁` on, which
has room for it. -/
theorem recordPut {s₁ : Loader} (h : VolumeOk disk t) (howner : t.owner i = some k)
    (buf : ℕ → UInt8) (hgrow : (if recordRem (t.loader.fsts i) < Fst.lrecl (t.loader.fsts i) then
      t.loader.appendBlock (.caller i) else some t.loader) = some s₁)
    (hsound : Sound s₁) (hnfst : s₁.nfst = t.loader.nfst)
    (hname : Fst.name (s₁.fsts i) = Fst.name (t.loader.fsts i))
    (hlba : ∀ key lba, t.loader.view.lba key = some lba → s₁.view.lba key = some lba)
    (hdata : ∀ b < blocksAfter (t.loader.fsts i),
      ∃ lba, s₁.view.lba ⟨Fst.name (t.loader.fsts i), 0, b⟩ = some lba ∧ lba ≠ 0)
    (hdirectory : ∀ key, t.loader.view.lba key ≠ none → key.name = directorName →
      s₁.view.content key = t.loader.view.content key) :
    ∃ u, t.loader.appendRecord (.caller i) buf = some u ∧ RecordPut t.loader s₁ u i buf := by
  obtain ⟨hfile, -⟩ := h.fileHas howner
  obtain ⟨hk, hlt, hsame⟩ := h.owner i k howner
  have hd : DirOk t.loader.view := h.dir
  have hroom := hd.room
  have htwo := h.first.1
  obtain ⟨hdirector, -⟩ := h.name_ne hk hlt
  rw [View.entryName, hsame.name] at hdirector
  obtain ⟨hgoes, -⟩ := recordGoes hfile.off_lt hfile.blocks hfile.pos hfile.lrecl
  set s := t.loader
  obtain ⟨s₂, hcopy, hw₂, hbytes₂⟩ := copyRecord_spec buf hsound hdata hgoes
  -- the record is counted
  set s₃ := s₂.setFst (.caller i) fun fst => Fst.setAic fst (Fst.aic fst + 1) with hs₃
  have hw₃ := (hw₂.anyFst (.caller i)).trans (Wrote.of_setFst_caller hw₂.sound i
    fun fst => Fst.setAic fst (Fst.aic fst + 1))
  rw [← hs₃] at hw₃
  have hfst₃ : s₃.fsts i = Fst.setAic (s₁.fsts i) (Fst.aic (s₁.fsts i) + 1) := by
    rw [hs₃, setFst_caller_self, hw₂.fsts i fun heq => by cases heq]
  have hname₃ : Fst.name (s₃.fsts i) = Fst.name (s.fsts i) := by
    rw [hfst₃]
    exact (congrArg Tree.name (treeOf_setAic _ _)).trans hname
  -- the directory is as it was
  have hdirBlock : ∀ b < s.view.dirBlocks, s₃.view.dirBlock b = s.view.dirBlock b := by
    intro b hb
    obtain ⟨lba, hlba, -⟩ := hd.blocks b hb
    rw [View.dirBlock, hw₃.content _ fun hkey => hdirector hkey.1.symm]
    exact hdirectory _ (by rw [hlba]; exact Option.some_ne_none lba) rfl
  have hentry : ∀ k' < 64 * s.view.dirBlocks, s₃.view.entry k' = s.view.entry k' := fun k' hk' =>
    View.entry_congr (hdirBlock _ (by omega))
  have hblocks₃ : Fst.adbc (s₃.fst .directory) = s.view.dirBlocks := by
    rw [DirOk.fst_directory, hentry 0 (by omega)]
    rfl
  have hlba₃ : ∀ b < 0 + s.view.dirBlocks,
      ∃ lba, s₃.view.lba ⟨directorName, 0, b⟩ = some lba ∧ lba ≠ 0 := by
    intro b hb
    obtain ⟨lba, hlisted, hne⟩ := hd.blocks b (by omega)
    exact ⟨lba, by rw [hw₃.lba, hlba _ lba hlisted], hne⟩
  have hnfst₃ : s₃.nfst = 64 := hw₃.nfst.trans (hnfst.trans h.nfst)
  obtain ⟨u, hupdate⟩ : ∃ u, updateBlocks (s₃.fsts i) s.view.dirBlocks 0 s₃ = some u :=
    updateBlocks_isSome hw₃.sound hnfst₃ hlba₃ ⟨k, Nat.zero_le _, by omega, by
      rw [View.entryName, hentry k (by omega), hname₃, ← hsame.name]⟩
  obtain ⟨k', hk', -, hview, ht⟩ := updateBlocks_spec hw₃.sound hnfst₃ hupdate
  refine ⟨u, ?_, ?_⟩
  · rw [appendRecord_eq, fst_caller, if_neg (not_not.2 hfile.recfm), hgrow, Option.bind_some,
      fst_caller, hname, hcopy, Option.bind_some, ← hs₃, updateDirectory, hblocks₃]
    exact hupdate
  constructor
  case wrote =>
    refine ⟨k' / 64, Nat.div_lt_of_lt_mul (by rwa [Nat.zero_add] at hk'), ?_⟩
    exact (hw₃.mono fun _ => Or.inl).trans ((Wrote.of_edit ht hview (Or.inr rfl)).anyFst _)
  case fst => rw [ht.fsts i (fun heq => by cases heq), hfst₃]
  case bytes =>
    intro pos
    have hne : (⟨Fst.name (s.fsts i), 0, pos / 4096⟩ : BlockKey) ≠ ⟨directorName, 0, k' / 64⟩ :=
      fun heq => hdirector (congrArg BlockKey.name heq)
    rw [← hbytes₂ pos, View.fileByte, hview, View.edit_content, if_neg hne]
    rfl

/-- **A record is appended** to a file that was created, if there are free blocks for a
data block and the levels above. -/
theorem recordAdded_spec {ok : Prop} (h : VolumeOk disk t) (howner : t.owner i = some k)
    (buf : ℕ → UInt8) (hslot : recordRem (t.loader.fsts i) < Fst.lrecl (t.loader.fsts i) →
      ¬ (treeOf (t.loader.fsts i)).LastSlot)
    (hok : ok → Free t.loader.view (Fst.adbc (t.loader.view.entry 1)) 3) :
    Spec ok (t.loader.appendRecord (.caller i) buf) fun u =>
      RecordAdded t.loader u i k buf (Known disk t.loader.view) (OldBlock disk) := by
  set s := t.loader
  set m := Fst.adbc (s.view.entry 1)
  have hd : DirOk s.view := h.dir
  obtain ⟨hk, hlt, hsame⟩ : Fst.aic (diskDir disk) ≤ k ∧ k < s.view.entries ∧
    SameFst (s.view.entry k) (s.fsts i) := h.owner i k howner
  have hknown : Known disk s.view k := Or.inr ⟨hk, hlt⟩
  have htwo : 2 ≤ k := h.first.1.trans hk
  obtain ⟨hfile, htree⟩ : FileHas s.view (s.fsts i) (t.files k).recs ∧
    (treeOf (s.fsts i)).Ok s.view := h.fileHas howner
  obtain ⟨hgoes, -⟩ := recordGoes hfile.off_lt hfile.blocks hfile.pos hfile.lrecl
  obtain ⟨hdirector, hallocmap⟩ := h.name_ne hk hlt
  rw [View.entryName, hsame.name] at hdirector hallocmap
  have hnlvl : Fst.nlvl (s.fsts i) + 2 ≤ 3 := Nat.add_le_add_right (hfile.nlvl_le htree) 2
  have hroomMade : Spec ok (if recordRem (s.fst (.caller i)) < Fst.lrecl (s.fst (.caller i)) then
      s.appendBlock (.caller i) else some s) fun u => RoomMade s u (.caller i) m := roomMade_spec
    (fun hmore => h.base howner (hslot hmore)) (fun heq => by cases heq)
    fun hyes => (hok hyes).mono hnlvl
  rw [fst_caller] at hroomMade
  cases hgrow : (if recordRem (s.fsts i) < Fst.lrecl (s.fsts i) then s.appendBlock (.caller i)
      else some s) with
  | none =>
    have hnone : s.appendRecord (.caller i) buf = none := by
      rw [appendRecord_eq, fst_caller, if_neg (not_not.2 hfile.recfm), hgrow]
      rfl
    rw [hgrow] at hroomMade
    rw [hnone]
    exact hroomMade
  | some s₁ =>
    have hroomMade := hroomMade.post hgrow
    obtain ⟨hsound₁, -, hnfst₁, -, -, hlba₁, hdirtied₁⟩ := hroomMade.rest h.sound
    obtain ⟨hsame₁, haic₁⟩ := hroomMade.same
    rw [fst_caller, fst_caller] at hsame₁ haic₁
    have hadbc₁ : Fst.adbc (s₁.fsts i) = blocksAfter (s.fsts i) := hroomMade.adbc
    have hforest₁ := hroomMade.forest h.forest hknown hsame.treeOf_eq rfl
    have htree₁ : (treeOf (s₁.fsts i)).Ok s₁.view := by
      have hupdated := hforest₁.tree k hknown
      rwa [Function.update_self] at hupdated
    have hdata₁ : ∀ b < blocksAfter (s.fsts i),
        (treeOf (s₁.fsts i)).Has ⟨Fst.name (s.fsts i), 0, b⟩ := fun b hb =>
      ⟨hsame₁.name.symm, Nat.zero_le _, by
        show b * 1024 ^ 0 < Fst.adbc (s₁.fsts i)
        rwa [pow_zero, Nat.mul_one, hadbc₁]⟩
    obtain ⟨u, happend, hput⟩ := h.recordPut howner buf hgrow hsound₁ hnfst₁ hsame₁.name hlba₁
      (fun b hb => htree₁.present _ (hdata₁ b hb)) fun key hkey hdir =>
        hroomMade.content_caller h.sound hkey (Or.inl fun heq => hdirector (heq.symm.trans hdir))
          (by rw [hdir]; decide)
    obtain ⟨b, hb, hw⟩ := hput.wrote
    have hfst := hput.fst
    have hsmall : Fst.aic (s.fsts i) + 1 < 2 ^ 32 := by
      have hle := Nat.le_mul_of_pos_right (Fst.aic (s.fsts i)) hfile.pos
      have hblocks := hfile.blocks
      have hlow := hfile.low
      omega
    rw [happend]
    refine Spec.ret ?_
    constructor
    case appended =>
      exact fileAppended_of_appendRecord h.sound h.nfst h.dir htwo hlt hsame
        ⟨hgoes.fits, fun hmore => (h.base howner (hslot hmore)).pointerFits⟩ happend
    case same =>
      rw [hfst]
      exact hsame₁.trans (sameFile_of_bytes fun j hj => Fst.setPtrAt_bytes _ _ (by decide) hj)
    case aic =>
      rw [hfst, haic₁]
      exact ptrAt_setPtrAt_self _ 12 hsmall
    case adbc =>
      rw [hfst, ← hadbc₁]
      exact ptrAt_setPtrAt_of_ne _ _ (by decide)
    case forest =>
      rw [hfst, treeOf_setAic]
      refine hforest₁.wrote hw fun key hkey => ?_
      rcases hkey with ⟨hkname, hlevel, hblk⟩ | rfl
      · obtain ⟨name, level, blkNo⟩ := key
        dsimp only at hkname hlevel hblk
        subst hkname hlevel
        refine ⟨⟨k, hknown, ?_⟩, rfl, fun heq => hallocmap heq⟩
        rw [Function.update_self]
        exact hdata₁ blkNo hblk
      · refine ⟨⟨0, zero disk s.view, ?_⟩, rfl, (by decide : directorName ≠ allocmapName)⟩
        rw [Function.update_of_ne (show 0 ≠ k by omega)]
        refine ⟨hd.director.symm, Nat.zero_le _, ?_⟩
        show b * 1024 ^ 0 < s.view.dirBlocks
        rwa [pow_zero, Nat.mul_one]
    case content =>
      intro key hkey hfileName hdirName hmapName
      rw [hw.content key]
      · exact hroomMade.content_caller h.sound hkey (Or.inl hfileName) hmapName
      · rintro (⟨hkname, -⟩ | rfl)
        · exact hfileName hkname
        · exact hdirName rfl
    case old =>
      intro pos hpos' hblk
      have hlba : s.view.lba ⟨Fst.name (s.fsts i), 0, pos / 4096⟩ ≠ none := by
        obtain ⟨lba, hlba, -⟩ := htree.present ⟨Fst.name (s.fsts i), 0, pos / 4096⟩
          ⟨rfl, Nat.zero_le _, by
            show pos / 4096 * 1024 ^ 0 < Fst.adbc (s.fsts i)
            rwa [pow_zero, Nat.mul_one]⟩
        rw [hlba]
        exact Option.some_ne_none lba
      rw [hput.bytes, if_neg fun hin => absurd hpos' (Nat.not_lt.2 hin.1), View.fileByte,
        hroomMade.content_caller h.sound hlba (Or.inr rfl) hallocmap]
      rfl
    case new =>
      intro j hj
      rw [hput.bytes, if_pos ⟨Nat.le_add_right _ _, Nat.add_lt_add_left hj _⟩,
        Nat.add_sub_cancel_left]
    case dirtied => exact fun key hkey => hw.dirtied key (hdirtied₁ key hkey)
    case free =>
      intro j hfree
      obtain ⟨F, hcard, hF⟩ := hroomMade.free (hfree.mono
        (show j + (Fst.nlvl (s.fsts i) + 2) ≤ j + 3 by omega))
      refine ⟨F, hcard, fun y hy => ⟨(hF y hy).1, ?_⟩⟩
      rw [View.bit_congr (hw.content (mapKey y) ?_), (hF y hy).2]
      rintro (⟨hkname, -⟩ | heq)
      · exact hallocmap hkname.symm
      · exact absurd (congrArg BlockKey.name heq) (by decide : allocmapName ≠ directorName)

/-- A file has fewer than 1024 blocks, also with the block that a record brings with it. -/
theorem blocksAfter_lt {v v' : View} {fst : DiskBlock} {recs : List (ℕ → UInt8)}
    (hfile : FileHas v fst recs) (hok : (treeOf fst).Ok v')
    (hslot : recordRem fst < Fst.lrecl fst → ¬ (treeOf fst).LastSlot) :
    blocksAfter fst < 1024 := by
  have hlow := hfile.low
  rw [blocksAfter]
  split
  · rename_i hmore
    have hne : Fst.adbc fst ≠ 1023 := fun heq => hslot hmore (FileHas.lastSlot heq hok)
    omega
  · exact hlow

/-- **The volume is sound with a record more.** -/
theorem append {t' : VolumeSession} {ebcdic : UInt8 → UInt8} {buf : ℕ → UInt8}
    (h : VolumeOk disk t) (hmeets : VolumeMeets t (.append i buf))
    (hstep : VolumeStep ebcdic t (.append i buf) t') : VolumeOk disk t' := by
  obtain ⟨k, howner, happend, howner', hfiles'⟩ := hstep
  have hadd := (h.recordAdded_spec howner buf hmeets False.elim).post happend
  set s := t.loader
  set u := t'.loader
  have hd : DirOk s.view := h.dir
  obtain ⟨hk, hlt, hsame⟩ : Fst.aic (diskDir disk) ≤ k ∧ k < s.view.entries ∧
    SameFst (s.view.entry k) (s.fsts i) := h.owner i k howner
  have hfirst := h.first.1
  have htwo : 2 ≤ k := hfirst.trans hk
  have hroom := hd.room
  have hu := hadd.appended
  have hentries : u.view.entries = s.view.entries := hu.entries hd htwo
  have hlive : Known disk u.view = Known disk s.view := by
    funext k'
    rw [Known, Known, hentries]
  have hother : ∀ k' < s.view.entries, k' ≠ k → SameFst (u.view.entry k') (s.view.entry k') :=
    fun k' hk' hne => hu.old k' (by omega) hne
  have htrees : ∀ k', Known disk s.view k' → treeOf (u.view.entry k') =
      Function.update (fun k => treeOf (s.view.entry k)) k (treeOf (u.fsts i)) k' := by
    intro k' hk'
    have hlt' : k' < s.view.entries := by
      rcases hk' with hk' | hk'
      · omega
      · exact hk'.2
    by_cases hkk : k' = k
    · rw [hkk, Function.update_self, hu.entry.treeOf_eq]
    · rw [Function.update_of_ne hkk, (hother k' hlt' hkk).treeOf_eq]
  have hfile : FileHas s.view (s.fsts i) (t.files k).recs := (h.file k hk hlt).keep
    (fun j hj => (hsame j hj).symm) fun _ _ => rfl
  have htree : (treeOf (s.fsts i)).Ok s.view :=
    hsame.treeOf_eq ▸ h.forest.tree k (Or.inr ⟨hk, hlt⟩)
  have hplace := recordOff_eq hfile.off_lt
  have hblocks := hfile.blocks
  constructor
  case sound => exact hu.sound
  case volume => exact hu.disk.trans h.volume
  case nfst => exact hu.nfst.trans h.nfst
  case stray => exact hu.stray.trans h.stray
  case dir => exact hu.dirOk hd htwo hsame
  case dop => exact hu.lba _ _ h.dop
  case small =>
    rw [Fst.adbc, (hother 1 (by omega) (by omega)).word (by decide)]
    exact h.small
  case first => exact ⟨hfirst, by rw [hentries]; exact h.first.2⟩
  case marked =>
    refine Or.inl (hadd.dirtied _ (h.marked.resolve_right fun hnew => ?_))
    have hnew₁ : s.view.entries = Fst.aic (diskDir disk) := hnew.1
    omega
  case old =>
    intro k' hpos hk'
    exact (hother k' (by omega) (by omega)).trans (h.old k' hpos hk')
  case forest =>
    rw [hlive]
    exact hadd.forest.congr htrees
  case file =>
    intro k' hk' hlt'
    rw [hentries] at hlt'
    rw [hfiles']
    by_cases hkk : k' = k
    · subst hkk
      rw [Function.update_self]
      refine FileHas.keep (v := u.view) ?_ hu.entry fun _ _ => rfl
      refine hfile.append hadd.same hadd.aic ?_ ?_ (fun pos hpos => ?_) fun j hj => ?_
      · rw [hadd.adbc, (recordGoes hfile.off_lt hblocks hfile.pos hfile.lrecl).2]
      · rw [hadd.adbc]
        exact blocksAfter_lt hfile htree hmeets
      · exact hadd.old pos (by omega) (by omega)
      · rw [← hplace]
        exact hadd.new j hj
    · -- the blocks of another file are as they were
      rw [Function.update_of_ne hkk]
      refine (h.file k' hk' hlt').keep (hother k' hlt' hkk) fun b hb => ?_
      obtain ⟨hdirector, hallocmap⟩ := h.name_ne hk' hlt'
      obtain ⟨lba, hlba, -⟩ := (h.forest.tree k' (Or.inr ⟨hk', hlt'⟩)).present
        ⟨Fst.name (s.view.entry k'), 0, b⟩ ⟨rfl, Nat.zero_le _, by
          show b * 1024 ^ 0 < Fst.adbc (s.view.entry k')
          rwa [pow_zero, Nat.mul_one]⟩
      refine hadd.content _ (by rw [hlba]; exact Option.some_ne_none lba) (fun heq => ?_)
        hdirector hallocmap
      exact hkk (hd.distinct k' k hlt' hlt (heq.trans hsame.name.symm))
  case made =>
    intro k' hk' hlt'
    rw [hentries] at hlt'
    obtain ⟨hname, hlrecl⟩ : s.view.entryName k' = (t.files k').name ∧
      Fst.lrecl (s.view.entry k') = (t.files k').lrecl := h.made k' hk' hlt'
    rw [hfiles', hu.entryName hd hsame hlt']
    by_cases hkk : k' = k
    · subst hkk
      rw [Function.update_self, Fst.lrecl, hu.entry.word (by decide)]
      refine ⟨hname, ?_⟩
      show Fst.lrecl (u.fsts i) = (t.files k').lrecl
      rw [hadd.same.lrecl, ← hlrecl]
      exact (hsame.word (by decide)).symm
    · rw [Function.update_of_ne hkk, Fst.lrecl, (hother k' hlt' hkk).word (by decide)]
      exact ⟨hname, hlrecl⟩
  case owner =>
    intro i' k' hi'
    rw [howner'] at hi'
    obtain ⟨hk', hlt', hsame'⟩ : Fst.aic (diskDir disk) ≤ k' ∧ k' < s.view.entries ∧
      SameFst (s.view.entry k') (s.fsts i') := h.owner i' k' hi'
    refine ⟨hk', by rwa [hentries], ?_⟩
    by_cases hii : i' = i
    · subst hii
      obtain rfl := Option.some.inj (hi'.symm.trans howner)
      exact hu.entry
    · have hkk : k' ≠ k := fun heq => hii (h.apart i' i k (heq ▸ hi') howner)
      rw [hu.fsts i' hii]
      exact (hother k' hlt' hkk).trans hsame'
  case apart =>
    rw [howner']
    exact h.apart

end VolumeOk

end Hvf
