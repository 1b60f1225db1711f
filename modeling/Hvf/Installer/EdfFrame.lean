/-
# What an operation leaves alone

`Touches p touched s u` says that `u` is `s` with more blocks in the list, with other
contents of the blocks `touched` and with another FST `p`, if that is one of a caller.
Operations compose (`Touches.trans`), so that what `__append_block` and the copy of
a record leave alone is read off their parts: all but blocks of the file and of the
allocation map (`touches_appendBlock_caller`, `touches_record_caller`).

Nothing is assumed of the pointers of the file.  Only where the next pointer goes has
to be inside of its block (`PointerFits`).
-/

import Hvf.Installer.EdfAppend

namespace Hvf

open Loader Outcome

/-- **What a call may touch.** Entries, listed blocks and disk are as before, but for the entry
pointed to, blocks newly listed, and the contents of the keys in `touched`. -/
structure Touches (p : FstPtr) (touched : BlockKey → Prop) (s u : Loader) : Prop where
  disk : u.disk = s.disk
  nfst : u.nfst = s.nfst
  stray : u.stray = s.stray
  fsts : ∀ i, p ≠ .caller i → u.fsts i = s.fsts i
  sound : Sound u
  lba : ∀ key lba, s.view.lba key = some lba → u.view.lba key = some lba
  content : ∀ key, s.view.lba key ≠ none → ¬ touched key → u.view.content key = s.view.content key

namespace Touches

variable {p : FstPtr} {touched touched' : BlockKey → Prop} {s u w : Loader}

/-- No step touches nothing. -/
theorem refl (hs : Sound s) : Touches p touched s s :=
  ⟨rfl, rfl, rfl, fun _ _ => rfl, hs, fun _ _ h => h, fun _ _ _ => rfl⟩

/-- What is listed stays listed. -/
theorem lba_ne_none (h : Touches p touched s u) {key : BlockKey} (hkey : s.view.lba key ≠ none) :
    u.view.lba key ≠ none := by
  obtain ⟨lba, hlba⟩ := Option.ne_none_iff_exists'.1 hkey
  rw [h.lba key lba hlba]
  exact Option.some_ne_none lba

/-- What two steps touch, they touch together. -/
theorem trans (h : Touches p touched s u) (h' : Touches p touched u w) : Touches p touched s w where
  disk := h'.disk.trans h.disk
  nfst := h'.nfst.trans h.nfst
  stray := h'.stray.trans h.stray
  fsts i hi := (h'.fsts i hi).trans (h.fsts i hi)
  sound := h'.sound
  lba key lba hlba := h'.lba key lba (h.lba key lba hlba)
  content key hkey hnot :=
    (h'.content key (h.lba_ne_none hkey) hnot).trans (h.content key hkey hnot)

/-- What touches some keys at most touches more at most. -/
theorem mono (h : Touches p touched s u) (hsub : ∀ key, touched key → touched' key) :
    Touches p touched' s u :=
  { h with content := fun key hkey hnot => h.content key hkey fun ht => hnot (hsub key ht) }

/-- What changes no FST of a caller changes none but `p`. -/
theorem anyFst (h : Touches .directory touched s u) (p : FstPtr) : Touches p touched s u :=
  { h with fsts := fun i _ => h.fsts i nofun }

/-- The FSTs are in the first block of the directory, or with the callers. -/
theorem fst_eq (h : Touches p touched s u) (hdir : s.view.lba dirKey ≠ none)
    (hnot : ¬ touched dirKey) {q : FstPtr} (hq : ∀ i, q = .caller i → p ≠ .caller i) :
    u.fst q = s.fst q := by
  have hcontent := h.content dirKey hdir hnot
  cases q with
  | directory => rw [fst_directory, fst_directory, hcontent]
  | allocmap => rw [fst_allocmap, fst_allocmap, hcontent]
  | caller i => exact h.fsts i (hq i rfl)

/-- The map stays readable, if its own entry stays. -/
theorem readableMap (h : Touches p touched s u) (hmap : ReadableMap s)
    (hfst : u.fst .allocmap = s.fst .allocmap) : ReadableMap u := by
  refine ⟨by rw [hfst, hmap.name], fun blk hblk => ?_⟩
  rw [hfst] at hblk
  obtain ⟨lba, hlba, hne⟩ := hmap.blocks blk hblk
  exact ⟨lba, h.lba _ lba hlba, hne⟩

end Touches

/-! ### The parts -/

section

variable {s u : Loader} (touched : BlockKey → Prop) {key : BlockKey} {lba : ℕ}

/-- A block read is the block's contents, and touches nothing. -/
theorem touches_readFileBlk (hs : Sound s) {buf : DiskBlock}
    (h : s.readFileBlk key = some (buf, u)) :
    buf = s.view.content key ∧ u.view = s.view ∧ Touches .directory touched s u := by
  obtain ⟨bm, map, hread, hview, hsound, -⟩ := readFileBlk_eq hs (by rw [h]; rfl)
  obtain ⟨rfl, rfl⟩ := Prod.mk.inj (Option.some.inj (h.symm.trans hread))
  refine ⟨rfl, hview, rfl, rfl, rfl, fun _ _ => rfl, hsound, fun key lba hlba => ?_,
    fun key _ _ => by rw [hview]⟩
  rw [hview, hlba]

variable {touched} in
/-- A change of a block touches that block. -/
theorem touches_edit (hs : Sound s) {f : DiskBlock → DiskBlock} (hkey : touched key)
    (h : s.edit key true f = some u) :
    u.view = s.view.edit key f ∧ Touches .directory touched s u := by
  have hread : (s.readFileBlk key).isSome = true := by
    cases hread : s.readFileBlk key with
    | none =>
      rw [edit, hread] at h
      cases h
    | some r => rfl
  obtain ⟨bm, hedit, hview, hsound⟩ := edit_eq hs hread true f
  obtain rfl := Option.some.inj (h.symm.trans hedit)
  refine ⟨hview, rfl, rfl, by simp, fun _ _ => rfl, hsound, fun key lba hlba => ?_,
    fun key' _ hnot => ?_⟩
  · rw [hview, View.edit_lba, hlba]
  · rw [hview, View.edit_content, if_neg fun heq : key' = key => hnot (heq ▸ hkey)]

/-- A block is there already, or it is added. -/
theorem blockMapAdd_cases (hs : Sound s) (hdir : s.view.lba dirKey ≠ none)
    (h : s.blockMapAdd key lba = some u) :
    (u = s ∧ s.view.lba key = some lba) ∨
      (s.view.lba key = none ∧ u.view = s.view.add key lba (s.disk lba) ∧ Sound u ∧
        ∃ bm, u = { s with blockMap := bm }) := by
  cases hfind : s.blockMapFind key with
  | some map =>
    rw [blockMapAdd, hfind] at h
    dsimp only at h
    split at h
    · cases h
    · rename_i hlba
      refine Or.inl ⟨(Option.some.inj h).symm, ?_⟩
      rw [view_lba, hfind, Option.map_some, not_not.1 hlba]
  | none =>
    have hnew : s.view.lba key = none := by rw [view_lba, hfind, Option.map_none]
    obtain ⟨bm, hadd, hview, hsound⟩ :=
      blockMapAdd_spec hs hnew (fun heq => hdir (heq ▸ hnew)) lba
    obtain rfl := Option.some.inj (h.symm.trans hadd)
    exact Or.inr ⟨hnew, hview, hsound, bm, rfl⟩

/-- A block listed touches nothing that was listed before. -/
theorem touches_blockMapAdd (hs : Sound s) (hdir : s.view.lba dirKey ≠ none)
    (h : s.blockMapAdd key lba = some u) :
    u.view.lba key = some lba ∧ (∀ key', key' ≠ key → u.view.lba key' = s.view.lba key') ∧
      Touches .directory touched s u := by
  rcases blockMapAdd_cases hs hdir h with ⟨rfl, hlba⟩ | ⟨hnew, hview, hsound, bm, rfl⟩
  · exact ⟨hlba, fun _ _ => rfl, Touches.refl hs⟩
  · have hother : ∀ key', key' ≠ key →
        (view { s with blockMap := bm }).lba key' = s.view.lba key' := fun key' hne => by
      rw [hview, View.add_lba, if_neg hne]
    refine ⟨by rw [hview, View.add_lba, if_pos rfl], hother, rfl, rfl, rfl, fun _ _ => rfl, hsound,
      fun key' lba' hlba' => ?_, fun key' hkey' _ => ?_⟩
    · have hne : key' ≠ key := by
        rintro rfl
        cases hnew.symm.trans hlba'
      rw [hother key' hne, hlba']
    · rw [hview, View.add_content, if_neg fun heq : key' = key => hkey' (heq ▸ hnew)]

variable {touched} in
/-- Taking a free block touches the map. -/
theorem touches_getFreeBlock (hs : Sound s) (hmap : ReadableMap s) {r : ℕ × Loader}
    (h : s.getFreeBlock = some r) (htouched : ∀ key, key.name = allocmapName → touched key) :
    r.1 ≠ 0 ∧ r.2.view.lba = s.view.lba ∧ Touches .directory touched s r.2 := by
  have hspec := freeFrom_spec hs hmap
    (by rw [Nat.zero_add] : 0 + Fst.adbc (s.fst .allocmap) ≤ _) False.elim
  obtain ⟨y, -, hfree, -⟩ := hspec.post h
  have hlba : r.2.view.lba = s.view.lba := by rw [hfree.view, View.edit_lba]
  obtain ⟨bm, hrest⟩ := hfree.rest
  refine ⟨by rw [hfree.lba]; exact Nat.succ_ne_zero y, hlba, by rw [hrest], by rw [hrest],
    by rw [hrest], fun _ _ => by rw [hrest], hfree.sound, fun key lba h => by rw [hlba, h],
    fun key _ hnot => ?_⟩
  rw [hfree.view, View.edit_content, if_neg fun heq => hnot (htouched key (by rw [heq]; rfl))]

/-- A change of the caller's entry touches no block. -/
theorem touches_setFst_caller (hs : Sound s) (i : ℕ) (f : DiskBlock → DiskBlock) :
    Touches (.caller i) touched s (s.setFst (.caller i) f) where
  disk := rfl
  nfst := rfl
  stray := rfl
  fsts j hj := Function.update_of_ne (fun heq => hj (by rw [heq])) _ _
  sound := ⟨hs.keys, hs.dirty, hs.clean, hs.directory⟩
  lba _ _ h := h
  content _ _ _ := rfl

end

/-! ### `__append_block` -/

/-- Counting a data block more is such a change of the entry. -/
theorem oneMore_adbc : OneMore fun fst => Fst.setAdbc fst (Fst.adbc fst + 1) where
  fst := fstChange_setPtrAt (by decide) _
  same buf := sameFile_of_bytes fun _ hi => Fst.setPtrAt_bytes buf _ (by decide) hi
  aic buf := ptrAt_setPtrAt_of_ne buf _ (by decide)
  adbc buf hlt := ptrAt_setPtrAt_self buf 11 (by omega)

/-- A new root above the old one is such a change too. -/
theorem oneMore_root (lba : ℕ) : OneMore fun fst =>
    Fst.setAdbc (Fst.setNlvl (Fst.setFop fst lba) (Fst.nlvl fst + 1)) (Fst.adbc fst + 1) where
  fst buf i hi := by
    dsimp only [Fst.setAdbc, Fst.setFop]
    rw [setPtrAt_of_lt _ _ (by omega), Fst.setNlvl_of_ne _ _ (by omega),
      setPtrAt_of_lt _ _ (by omega)]
  same buf := sameFile_of_bytes fun i hi => by
    rw [Fst.setAdbc, Fst.setPtrAt_bytes _ _ (by decide) hi, Fst.setNlvl_of_ne _ _ (by omega),
      Fst.setFop, Fst.setPtrAt_bytes _ _ (by decide) hi]
  aic buf := by
    rw [Fst.aic, Fst.setAdbc, ptrAt_setPtrAt_of_ne _ _ (by decide),
      Fst.ptrAt_setNlvl _ _ (by decide), Fst.setFop, ptrAt_setPtrAt_of_ne _ _ (by decide), Fst.aic]
  adbc buf hlt := ptrAt_setPtrAt_self _ 11 (by omega)

/-- A block of the allocation map, or a pointer block of the file. -/
def MapOrPtr (name : FileName) (key : BlockKey) : Prop :=
  key.name = allocmapName ∨ key.name = name ∧ key.level ≠ 0

/-- A block of the map is one of the blocks that appending touches. -/
theorem mapOrPtr_map (name : FileName) {key : BlockKey} (h : key.name = allocmapName) :
    MapOrPtr name key := Or.inl h

/-- So is a pointer block of the file. -/
theorem mapOrPtr_ptr (name : FileName) {level : ℕ} (h : level ≠ 0) (blkNo : ℕ) :
    MapOrPtr name ⟨name, level, blkNo⟩ := Or.inr ⟨rfl, h⟩

/-- The first block of the directory is not. -/
theorem not_mapOrPtr_dirKey (name : FileName) : ¬ MapOrPtr name dirKey := by
  rintro (hname | ⟨-, hlevel⟩)
  · exact absurd hname (by decide)
  · exact hlevel rfl

/-- The block of level `l` that `__append_block` looks for. -/
def levelKey (fst : DiskBlock) (l : ℕ) : BlockKey :=
  ⟨Fst.name fst, l, fileBlocksAtLevel (Fst.adbc fst + 1) l - 1⟩

/-- If the first block found is a pointer block, the number of blocks below it is no
multiple of 1024. -/
def PointerFits (v : View) (fst : DiskBlock) : Prop :=
  ∀ l < Fst.nlvl fst, (∀ l' ≤ l, v.lba (levelKey fst l') = none) →
    v.lba (levelKey fst (l + 1)) ≠ none → fileBlocksAtLevel (Fst.adbc fst + 1) l % 1024 ≠ 0

section

variable {s u : Loader} {p : FstPtr} {fst : DiskBlock} {n lvl prev : ℕ}

/-- A new root. -/
theorem touches_appendRoot (hs : Sound s) (hmap : ReadableMap s) (hdir : s.view.lba dirKey ≠ none)
    (hfst : s.fst p = fst) (h : appendRoot p prev s = some u) :
    ∃ w f, Touches .directory (MapOrPtr (Fst.name fst)) s w ∧ u = w.setFst p f ∧ OneMore f := by
  simp only [appendRoot, hfst, Option.bind_eq_bind] at h
  obtain ⟨r, hget, h⟩ := Option.bind_eq_some_iff.1 h
  obtain ⟨u₁, hadd, h⟩ := Option.bind_eq_some_iff.1 h
  obtain ⟨w, hedit, h⟩ := Option.bind_eq_some_iff.1 h
  obtain ⟨-, -, h₁⟩ := touches_getFreeBlock hs hmap hget fun _ => mapOrPtr_map (Fst.name fst)
  obtain ⟨-, -, h₂⟩ := touches_blockMapAdd (MapOrPtr (Fst.name fst)) h₁.sound
    (h₁.lba_ne_none hdir) hadd
  obtain ⟨-, h₃⟩ := touches_edit h₂.sound (mapOrPtr_ptr _ (Nat.succ_ne_zero _) 0) hedit
  exact ⟨w, _, (h₁.trans h₂).trans h₃, (Option.some.inj h).symm, oneMore_root r.1⟩

/-- **The loop.**  The blocks that were there keep what they hold, but for those of the
map and the pointer blocks of the file. -/
theorem touches_appendLevels (hs : Sound s) (hmap : ReadableMap s) (hdir : s.view.lba dirKey ≠ none)
    (hfst : s.fst p = fst) (hlvl : lvl + n = Fst.nlvl fst + 1)
    (hfits : ∀ l < Fst.nlvl fst, lvl ≤ l + 1 →
      (∀ l', lvl ≤ l' → l' ≤ l → s.view.lba (levelKey fst l') = none) →
      s.view.lba (levelKey fst (l + 1)) ≠ none → fileBlocksAtLevel (Fst.adbc fst + 1) l % 1024 ≠ 0)
    (h : appendLevels p n lvl prev s = some u) :
    ∃ w f, Touches .directory (MapOrPtr (Fst.name fst)) s w ∧ u = w.setFst p f ∧ OneMore f ∧
      (lvl = 0 → ∃ lba, w.view.lba (levelKey fst 0) = some lba ∧ lba ≠ 0) := by
  induction n generalizing s lvl prev with
  | zero =>
    obtain ⟨w, f, ht, hu, hf⟩ := touches_appendRoot hs hmap hdir hfst h
    exact ⟨w, f, ht, hu, hf, fun hzero => by omega⟩
  | succ n ih =>
    simp only [appendLevels, hfst, Option.bind_eq_bind] at h
    rw [show (⟨Fst.name fst, lvl, fileBlocksAtLevel (Fst.adbc fst + 1) lvl - 1⟩ : BlockKey) =
      levelKey fst lvl from rfl] at h
    cases hfind : s.blockMapFind (levelKey fst lvl) with
    | some map =>
      -- the pointer goes to a block that is there
      rw [hfind] at h
      dsimp only at h
      by_cases hzero : lvl = 0
      · rw [if_pos hzero] at h
        exact nomatch h
      rw [if_neg hzero] at h
      have hslot : fileBlocksAtLevel (Fst.adbc fst + 1) (lvl - 1) % 1024 ≠ 0 := by
        refine hfits (lvl - 1) (by omega) (by omega) (fun l' hge hle => by omega) ?_
        rw [Nat.sub_add_cancel (Nat.pos_of_ne_zero hzero), view_lba, hfind]
        exact Option.some_ne_none _
      obtain ⟨w, hedit, h⟩ := Option.bind_eq_some_iff.1 h
      rw [decide_eq_true hslot] at hedit
      obtain ⟨-, ht⟩ := touches_edit hs (mapOrPtr_ptr (Fst.name fst) hzero _) hedit
      exact ⟨w, _, ht, (Option.some.inj h).symm, oneMore_adbc, fun h0 => absurd h0 hzero⟩
    | none =>
      rw [hfind] at h
      dsimp only at h
      obtain ⟨r, hget, h⟩ := Option.bind_eq_some_iff.1 h
      obtain ⟨u₁, hadd, h⟩ := Option.bind_eq_some_iff.1 h
      obtain ⟨hne, hlba₁, h₁⟩ := touches_getFreeBlock hs hmap hget
        fun _ => mapOrPtr_map (Fst.name fst)
      obtain ⟨hnew, hother, h₂⟩ := touches_blockMapAdd (MapOrPtr (Fst.name fst)) h₁.sound
        (h₁.lba_ne_none hdir) hadd
      have hlink : ∃ u₂, u₂.view.lba = u₁.view.lba ∧
          Touches .directory (MapOrPtr (Fst.name fst)) u₁ u₂ ∧
          appendLevels p n (lvl + 1) r.1 u₂ = some u := by
        by_cases hzero : lvl = 0
        · rw [if_pos hzero] at h
          exact ⟨u₁, rfl, Touches.refl h₂.sound, h⟩
        · rw [if_neg hzero] at h
          obtain ⟨u₂, hlink, h⟩ := Option.bind_eq_some_iff.1 h
          obtain ⟨hview, ht⟩ := touches_edit h₂.sound (mapOrPtr_ptr (Fst.name fst) hzero _) hlink
          exact ⟨u₂, by rw [hview, View.edit_lba], ht, h⟩
      obtain ⟨u₂, hlba₂, h₃, h⟩ := hlink
      have hu₂ := (h₁.trans h₂).trans h₃
      have hother' : ∀ key, key ≠ levelKey fst lvl → u₂.view.lba key = s.view.lba key :=
        fun key hkey => by rw [hlba₂, hother key hkey, hlba₁]
      have hlevel : ∀ l, l ≠ lvl → levelKey fst l ≠ levelKey fst lvl := fun l hl heq =>
        hl (congrArg BlockKey.level heq)
      have hfst₂ : ∀ q, u₂.fst q = s.fst q := fun q =>
        hu₂.fst_eq hdir (not_mapOrPtr_dirKey _) fun _ _ => nofun
      have hfits₂ : ∀ l < Fst.nlvl fst, lvl + 1 ≤ l + 1 →
          (∀ l', lvl + 1 ≤ l' → l' ≤ l → u₂.view.lba (levelKey fst l') = none) →
          u₂.view.lba (levelKey fst (l + 1)) ≠ none →
            fileBlocksAtLevel (Fst.adbc fst + 1) l % 1024 ≠ 0 := by
        intro l hl hge hbelow hfound
        rw [hother' _ (hlevel (l + 1) (by omega))] at hfound
        refine hfits l hl (by omega) (fun l' hge' hle => ?_) hfound
        by_cases hlast : l' = lvl
        · rw [hlast, view_lba, hfind, Option.map_none]
        · rw [← hother' _ (hlevel l' hlast)]
          exact hbelow l' (by omega) hle
      obtain ⟨w, f, ht, hu, hf, -⟩ := ih hu₂.sound (hu₂.readableMap hmap (hfst₂ _))
        (hu₂.lba_ne_none hdir) ((hfst₂ p).trans hfst)
        (show lvl + 1 + n = Fst.nlvl fst + 1 by omega) hfits₂ h
      refine ⟨w, f, hu₂.trans ht, hu, hf, ?_⟩
      rintro rfl
      exact ⟨r.1, ht.lba _ _ (by rw [hlba₂, hnew]), hne⟩

/-- `__append_block` for a file that has blocks. -/
theorem touches_appendBlock (hs : Sound s) (hmap : ReadableMap s) (hdir : s.view.lba dirKey ≠ none)
    (hfst : s.fst p = fst) (hadbc : Fst.adbc fst ≠ 0) (hfits : PointerFits s.view fst)
    (h : s.appendBlock p = some u) :
    ∃ w f, Touches .directory (MapOrPtr (Fst.name fst)) s w ∧ u = w.setFst p f ∧ OneMore f ∧
      ∃ lba, w.view.lba (levelKey fst 0) = some lba ∧ lba ≠ 0 := by
  rw [appendBlock, hfst, if_neg hadbc] at h
  obtain ⟨w, f, ht, hu, hf, hnew⟩ := touches_appendLevels hs hmap hdir hfst (Nat.zero_add _)
    (fun l hl _ hbelow => hfits l hl fun l' hle => hbelow l' (Nat.zero_le l') hle) h
  exact ⟨w, f, ht, hu, hf, hnew rfl⟩

end

/-! ### The file of a caller -/

/-- A block of the allocation map, or of the file. -/
def MapOrFile (name : FileName) (key : BlockKey) : Prop :=
  key.name = allocmapName ∨ key.name = name

/-- A block of the map is one of the blocks that appending a record touches. -/
theorem mapOrFile_map (name : FileName) {key : BlockKey} (h : key.name = allocmapName) :
    MapOrFile name key := Or.inl h

/-- So is any block of the file. -/
theorem mapOrFile_file (name : FileName) (level blkNo : ℕ) : MapOrFile name ⟨name, level, blkNo⟩ :=
  Or.inr rfl

/-- Its pointer blocks are among them. -/
theorem mapOrFile_ptr {name : FileName} {key : BlockKey} (h : MapOrPtr name key) :
    MapOrFile name key := h.imp_right And.left

/-- Being entries of one file composes. -/
theorem SameFile.trans {a b c : DiskBlock} (h : SameFile a b) (h' : SameFile b c) : SameFile a c :=
  ⟨h'.name.trans h.name, h'.recfm.trans h.recfm, h'.lrecl.trans h.lrecl,
    h'.ptrsz.trans h.ptrsz⟩

section

variable {s u : Loader} {i : ℕ}

/-- The caller's entry, changed, is the change of it. -/
theorem setFst_caller_self (s : Loader) (i : ℕ) (f : DiskBlock → DiskBlock) :
    (s.setFst (.caller i) f).fsts i = f (s.fsts i) :=
  Function.update_self i _ s.fsts

/-- **Appending a block touches the map and the file's own blocks**, and the entry stays that
file's. -/
theorem touches_appendBlock_caller (hs : Sound s) (hmap : ReadableMap s)
    (hdir : s.view.lba dirKey ≠ none) (hfits : PointerFits s.view (s.fsts i))
    (h : s.appendBlock (.caller i) = some u) :
    SameFile (s.fsts i) (u.fsts i) ∧
      Touches (.caller i) (MapOrFile (Fst.name (s.fsts i))) s u := by
  by_cases hadbc : Fst.adbc (s.fsts i) = 0
  · -- the first block of the file
    rw [appendBlock, fst_caller, if_pos hadbc] at h
    set touched := MapOrFile (Fst.name (s.fsts i))
    obtain ⟨r, hget, hadd⟩ := Option.bind_eq_some_iff.1 h
    have h₁ := touches_setFst_caller touched hs i fun fst => Fst.setNlvl (Fst.setAdbc fst 1) 0
    obtain ⟨-, -, h₂⟩ := touches_getFreeBlock h₁.sound (h₁.readableMap hmap rfl) hget
      fun _ => mapOrFile_map _
    have h₃ := touches_setFst_caller touched h₂.sound i fun fst => Fst.setFop fst r.1
    obtain ⟨-, -, h₄⟩ := touches_blockMapAdd touched h₃.sound (h₂.lba_ne_none hdir) hadd
    refine ⟨?_, ((h₁.trans (h₂.anyFst _)).trans h₃).trans (h₄.anyFst _)⟩
    have hfst : u.fsts i = Fst.setFop (Fst.setNlvl (Fst.setAdbc (s.fsts i) 1) 0) r.1 := by
      rw [h₄.fsts i nofun, setFst_caller_self, h₂.fsts i nofun, setFst_caller_self]
    rw [hfst]
    refine sameFile_of_bytes fun j hj => ?_
    rw [Fst.setFop, Fst.setPtrAt_bytes _ _ (by decide) hj, Fst.setNlvl_of_ne _ _ (by omega),
      Fst.setAdbc, Fst.setPtrAt_bytes _ _ (by decide) hj]
  · obtain ⟨w, f, ht, rfl, hf, -⟩ :=
      touches_appendBlock hs hmap hdir (fst_caller s i) hadbc hfits h
    refine ⟨?_, ((ht.mono fun key => mapOrFile_ptr).anyFst _).trans
      (touches_setFst_caller _ ht.sound i f)⟩
    rw [setFst_caller_self, ht.fsts i nofun]
    exact hf.same _

end

/-! ### The copy of a record -/

/-- `foff`. -/
def recordOff (fst : DiskBlock) : ℕ := Fst.aic fst * Fst.lrecl fst % 2 ^ 32

/-- `rem`. -/
def recordRem (fst : DiskBlock) : ℕ := (Fst.adbc fst * 4096 + (2 ^ 32 - recordOff fst)) % 2 ^ 32

/-- The record goes into one block, or what is left of one and into the next. -/
def RecordFits (fst : DiskBlock) : Prop :=
  if recordRem fst = 0 ∨ Fst.lrecl fst ≤ recordRem fst then
    recordOff fst % 4096 + Fst.lrecl fst ≤ 4096
  else
    recordOff fst % 4096 + recordRem fst ≤ 4096 ∧ Fst.lrecl fst - recordRem fst ≤ 4096

/-- The part of `append_record` that copies the record, with the block that it may need;
`fst` is the FST before that. -/
def copyRecord (fst : DiskBlock) (name : FileName) (buf : ℕ → UInt8) (s : Loader) : Option Loader :=
  if recordRem fst = 0 ∨ Fst.lrecl fst ≤ recordRem fst then
    s.store ⟨name, 0, recordOff fst / 4096⟩ (recordOff fst % 4096) buf 0 (Fst.lrecl fst)
  else do
    let s ← s.store ⟨name, 0, recordOff fst / 4096⟩ (recordOff fst % 4096) buf 0 (recordRem fst)
    s.store ⟨name, 0, recordOff fst / 4096 + 1⟩ 0 buf (recordRem fst)
      (Fst.lrecl fst - recordRem fst)

/-- The steps of appending a record: a block where there is no room, the copy, the count. -/
theorem appendRecord_eq (s : Loader) (p : FstPtr) (buf : ℕ → UInt8) :
    s.appendRecord p buf =
      if Fst.recfm (s.fst p) ≠ fstDFix then none
      else
        (if recordRem (s.fst p) < Fst.lrecl (s.fst p) then s.appendBlock p else some s).bind
          fun s₁ => (copyRecord (s.fst p) (Fst.name (s₁.fst p)) buf s₁).bind fun s₂ =>
            (s₂.setFst p fun fst => Fst.setAic fst (Fst.aic fst + 1)).updateDirectory p := by
  have hoff : Fst.aic (s.fst p) * Fst.lrecl (s.fst p) % 2 ^ 32 = recordOff (s.fst p) := rfl
  have hrem : (Fst.adbc (s.fst p) * 4096 + (2 ^ 32 - recordOff (s.fst p))) % 2 ^ 32 =
      recordRem (s.fst p) := rfl
  simp only [appendRecord, copyRecord, hoff, hrem, Option.bind_eq_bind]
  by_cases hwhole : recordRem (s.fst p) = 0 ∨ Fst.lrecl (s.fst p) ≤ recordRem (s.fst p)
  · by_cases hgrow : recordRem (s.fst p) < Fst.lrecl (s.fst p)
    · simp only [if_pos hwhole, if_pos hgrow]
    · simp only [if_pos hwhole, if_neg hgrow]
  · by_cases hgrow : recordRem (s.fst p) < Fst.lrecl (s.fst p)
    · simp only [if_neg hwhole, if_pos hgrow, Option.bind_assoc]
    · simp only [if_neg hwhole, if_neg hgrow, Option.bind_assoc]

/-- A store within a block touches that block, and is the copy of the bytes. -/
theorem touches_store {s u : Loader} {touched : BlockKey → Prop} {key : BlockKey} {off soff len : ℕ}
    {src : ℕ → UInt8} (hs : Sound s) (hkey : touched key) (hin : off + len ≤ 4096)
    (h : s.store key off src soff len = some u) :
    u.view = s.view.edit key (fun dbuf => memcpy dbuf off src soff len) ∧
      Touches .directory touched s u := by
  rw [store, decide_eq_true hin] at h
  exact touches_edit hs hkey h

/-- Copying a record into a file touches the file's own blocks. -/
theorem touches_copyRecord {s u : Loader} {fst : DiskBlock} {name : FileName} {buf : ℕ → UInt8}
    (hs : Sound s) (hfits : RecordFits fst) (h : copyRecord fst name buf s = some u) :
    Touches .directory (MapOrFile name) s u := by
  rw [RecordFits] at hfits
  rw [copyRecord] at h
  by_cases hwhole : recordRem fst = 0 ∨ Fst.lrecl fst ≤ recordRem fst
  · rw [if_pos hwhole] at h hfits
    exact (touches_store hs (mapOrFile_file name 0 _) hfits h).2
  · rw [if_neg hwhole] at h hfits
    obtain ⟨w, hfirst, hnext⟩ := Option.bind_eq_some_iff.1 h
    have h₁ := (touches_store hs (mapOrFile_file name 0 _) hfits.1 hfirst).2
    have h₂ := (touches_store h₁.sound (mapOrFile_file name 0 _) (by omega) hnext).2
    exact h₁.trans h₂

/-- **All that `append_record` writes is inside of the blocks**: the record, and, if a block
is appended, the pointer to it. -/
structure AppendFits (v : View) (fst : DiskBlock) : Prop where
  record : RecordFits fst
  pointer : recordRem fst < Fst.lrecl fst → PointerFits v fst

/-- **Before `update_directory`, `append_record` leaves alone** what is not of the file. -/
theorem touches_record_caller {s u : Loader} {i : ℕ} {buf : ℕ → UInt8} (hs : Sound s)
    (hmap : ReadableMap s) (hdir : s.view.lba dirKey ≠ none) (hfits : AppendFits s.view (s.fsts i))
    (h : s.appendRecord (.caller i) buf = some u) :
    ∃ w, SameFile (s.fsts i) (w.fsts i) ∧
      Touches (.caller i) (MapOrFile (Fst.name (s.fsts i))) s w ∧
      w.updateDirectory (.caller i) = some u := by
  rw [appendRecord_eq] at h
  split at h
  · exact nomatch h
  obtain ⟨s₁, hgrow, h⟩ := Option.bind_eq_some_iff.1 h
  obtain ⟨s₂, hcopy, h⟩ := Option.bind_eq_some_iff.1 h
  have h₁ : SameFile (s.fsts i) (s₁.fsts i) ∧
      Touches (.caller i) (MapOrFile (Fst.name (s.fsts i))) s s₁ := by
    split at hgrow
    · rename_i hfull
      exact touches_appendBlock_caller hs hmap hdir (hfits.pointer hfull) hgrow
    · obtain rfl := Option.some.inj hgrow
      exact ⟨⟨rfl, rfl, rfl, rfl⟩, Touches.refl hs⟩
  have h₂ := touches_copyRecord h₁.2.sound hfits.record hcopy
  rw [fst_caller, h₁.1.name] at h₂
  refine ⟨_, ?_, (h₁.2.trans (h₂.anyFst _)).trans (touches_setFst_caller _ h₂.sound i _), h⟩
  rw [setFst_caller_self, h₂.fsts i nofun]
  refine h₁.1.trans (sameFile_of_bytes fun j hj => ?_)
  rw [Fst.setAic, Fst.setPtrAt_bytes _ _ (by decide) hj]

end Hvf
