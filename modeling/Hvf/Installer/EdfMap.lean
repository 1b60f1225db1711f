/-
# The block map

What the loader knows of a block is where it is, what it holds and whether it is to
be written back (`View`).  `read_file_blk` changes none of it, `block_map_add` adds
a block and a write changes what one block holds.  A disk that is written back
holds at each place what the block there held (`writeback_eq`).
-/

import Hvf.Installer.Edf

namespace Hvf

open Loader

/-! ### Pointers in a block -/

/-- A pointer in a block depends on its four bytes. -/
theorem ptrAt_congr {ptrs ptrs' : DiskBlock} {off : ℕ}
    (h : ∀ i, 4 * off ≤ i → i < 4 * off + 4 → ptrs' i = ptrs i) :
    ptrAt ptrs' off = ptrAt ptrs off := by
  rw [ptrAt, ptrAt, h _ (by omega) (by omega), h _ (by omega) (by omega), h _ (by omega) (by omega),
    h _ (by omega) (by omega)]

/-- A pointer stored changes no other byte. -/
theorem setPtrAt_of_lt (ptrs : DiskBlock) (lba : ℕ) {off i : ℕ}
    (h : i < 4 * off ∨ 4 * off + 4 ≤ i) :
    setPtrAt ptrs off lba i = ptrs i := by
  rw [setPtrAt, if_neg (by omega)]

/-- A pointer stored is read back, if it fits four bytes. -/
theorem ptrAt_setPtrAt_self (ptrs : DiskBlock) (off : ℕ) {lba : ℕ} (h : lba < 2 ^ 32) :
    ptrAt (setPtrAt ptrs off lba) off = lba := by
  have hbyte : ∀ k, k < 4 →
      (setPtrAt ptrs off lba (4 * off + k)).toNat = lba / 256 ^ (3 - k) % 256 := by
    intro k hk
    rw [setPtrAt, if_pos (by omega), UInt8.toNat_ofNat', show (4 * off + k) % 4 = k by omega]
  have h0 := hbyte 0 (by decide)
  have h1 := hbyte 1 (by decide)
  have h2 := hbyte 2 (by decide)
  have h3 := hbyte 3 (by decide)
  rw [Nat.add_zero] at h0
  rw [ptrAt, h0, h1, h2, h3]
  norm_num
  omega

/-- A pointer stored leaves the others alone. -/
theorem ptrAt_setPtrAt_of_ne (ptrs : DiskBlock) (lba : ℕ) {off off' : ℕ} (h : off' ≠ off) :
    ptrAt (setPtrAt ptrs off lba) off' = ptrAt ptrs off' :=
  ptrAt_congr fun _ _ _ => setPtrAt_of_lt ptrs lba (by omega)

/-! ### What the loader knows -/

/-- **The loader's blocks as its functions see them**: where they are, what they hold, and
which are to be written back. The proofs are about this, not about the list. -/
@[ext] structure View where
  lba : BlockKey → Option ℕ
  content : BlockKey → DiskBlock
  dirty : BlockKey → Bool

namespace View

/-- A block is added. -/
def add (v : View) (key : BlockKey) (lba : ℕ) (buf : DiskBlock) : View :=
  ⟨Function.update v.lba key (some lba), Function.update v.content key buf, v.dirty⟩

/-- A block is changed. -/
def edit (v : View) (key : BlockKey) (f : DiskBlock → DiskBlock) : View :=
  ⟨v.lba, Function.update v.content key (f (v.content key)), Function.update v.dirty key true⟩

/-- A block is changed but not marked. -/
def poke (v : View) (key : BlockKey) (f : DiskBlock → DiskBlock) : View :=
  ⟨v.lba, Function.update v.content key (f (v.content key)), v.dirty⟩

section

variable (v : View) (key key' : BlockKey) (lba : ℕ) (buf : DiskBlock) (f : DiskBlock → DiskBlock)

/-- A block listed has the number given; the others keep theirs. -/
@[simp] theorem add_lba :
    (v.add key lba buf).lba key' = if key' = key then some lba else v.lba key' :=
  Function.update_apply ..

/-- A block listed has the contents given; the others keep theirs. -/
@[simp] theorem add_content :
    (v.add key lba buf).content key' = if key' = key then buf else v.content key' :=
  Function.update_apply ..

/-- A block listed is not dirty by that. -/
@[simp] theorem add_dirty : (v.add key lba buf).dirty = v.dirty := rfl

/-- A changed block stays where it is. -/
@[simp] theorem edit_lba : (v.edit key f).lba = v.lba := rfl

/-- A changed block has the changed contents; the others keep theirs. -/
@[simp] theorem edit_content :
    (v.edit key f).content key' = if key' = key then f (v.content key) else v.content key' :=
  Function.update_apply ..

/-- A changed block is dirty. -/
@[simp] theorem edit_dirty :
    (v.edit key f).dirty key' = if key' = key then true else v.dirty key' :=
  Function.update_apply ..

/-- A block changed without the mark stays where it is. -/
@[simp] theorem poke_lba : (v.poke key f).lba = v.lba := rfl

/-- It has the changed contents; the others keep theirs. -/
@[simp] theorem poke_content :
    (v.poke key f).content key' = if key' = key then f (v.content key) else v.content key' :=
  Function.update_apply ..

/-- Nothing is marked. -/
@[simp] theorem poke_dirty : (v.poke key f).dirty = v.dirty := rfl

end

end View

namespace Loader

/-- **The loader as its listed blocks**: where each is, what it holds, and whether that is still
to be written. -/
def view (s : Loader) : View where
  lba key := (s.blockMapFind key).map BlockMap.lba
  content key := ((s.blockMapFind key).map s.bufOf).getD fun _ => 0
  dirty key := ((s.blockMapFind key).map BlockMap.dirty).getD false

/-- No key has two entries; a block that is to be written back is in storage, and
one that is not is as on the disk.  The first block of the directory is in storage,
and is changed before it is marked. -/
structure Sound (s : Loader) : Prop where
  keys : (s.blockMap.map BlockMap.key).Nodup
  dirty : ∀ map ∈ s.blockMap, map.dirty = true → map.buf.isSome = true
  clean : ∀ map ∈ s.blockMap, map.dirty = false → map.key ≠ dirKey →
    s.bufOf map = s.disk map.lba
  directory : ∀ map ∈ s.blockMap, map.key = dirKey → map.buf.isSome = true

variable {s : Loader} {key : BlockKey}

/-- Where a block is, by the entry found for its key. -/
theorem view_lba (s : Loader) (key : BlockKey) :
    s.view.lba key = (s.blockMapFind key).map BlockMap.lba := rfl

/-- What a block holds, by the entry found for its key. -/
theorem view_content (s : Loader) (key : BlockKey) :
    s.view.content key = ((s.blockMapFind key).map s.bufOf).getD fun _ => 0 := rfl

/-- Whether a block is dirty, by the entry found for its key. -/
theorem view_dirty (s : Loader) (key : BlockKey) :
    s.view.dirty key = ((s.blockMapFind key).map BlockMap.dirty).getD false := rfl

/-- An entry changed under its key is found changed; the others are found as they were. -/
theorem blockMapFind_modify (s : Loader) {key : BlockKey} {f : BlockMap → BlockMap}
    (hf : ∀ map, (f map).key = map.key) (key' : BlockKey) :
    (s.modify key f).blockMapFind key' =
      (s.blockMapFind key').map fun map => if key' = key then f map else map := by
  have hcomp : ((fun cur => decide (cur.key = key')) ∘ fun cur : BlockMap =>
      if cur.key = key then f cur else cur) = fun cur => decide (cur.key = key') := by
    funext cur
    simp only [Function.comp_apply]
    split
    · rw [hf]
    · rfl
  rw [blockMapFind, modify, List.find?_map, hcomp, blockMapFind]
  cases hfind : s.blockMap.find? fun cur => decide (cur.key = key') with
  | none => rfl
  | some map =>
    have hkey : map.key = key' := by simpa using List.find?_some hfind
    simp only [Option.map_some, hkey]

/-- An entry found is one of the list, and has the key asked for. -/
theorem blockMapFind_some {map : BlockMap} (h : s.blockMapFind key = some map) :
    map ∈ s.blockMap ∧ map.key = key :=
  ⟨List.mem_of_find?_eq_some h, by simpa using List.find?_some h⟩

/-- An entry of the changed list is an old one, or the changed one. -/
theorem mem_modify {f : BlockMap → BlockMap} {map : BlockMap}
    (h : map ∈ (s.modify key f).blockMap) :
    ∃ old ∈ s.blockMap, map = if old.key = key then f old else old := by
  obtain ⟨old, hold, rfl⟩ := List.mem_map.1 h
  exact ⟨old, hold, rfl⟩

/-- A change under a key leaves the keys as they were. -/
theorem keys_modify (s : Loader) {key : BlockKey} {f : BlockMap → BlockMap}
    (hf : ∀ map, (f map).key = map.key) :
    (s.modify key f).blockMap.map BlockMap.key = s.blockMap.map BlockMap.key := by
  rw [modify, List.map_map]
  refine List.map_congr_left fun map _ => ?_
  simp only [Function.comp_apply]
  split
  · exact hf map
  · rfl

/-- An entry of the list is the one found under its key. -/
theorem Sound.find (h : Sound s) {map : BlockMap} (hmem : map ∈ s.blockMap) :
    s.blockMapFind map.key = some map := by
  cases hfind : s.blockMapFind map.key with
  | none =>
    have hnot := List.find?_eq_none.1 hfind map hmem
    simp at hnot
  | some map' =>
    obtain ⟨hmem', hkey⟩ := blockMapFind_some hfind
    rw [List.inj_on_of_nodup_map h.keys hmem' hmem hkey]

/-- What a change of an entry does to the blocks as seen. -/
theorem view_modify {map : BlockMap} {f : BlockMap → BlockMap} (hf : ∀ map, (f map).key = map.key)
    (hlba : (f map).lba = map.lba) (hfind : s.blockMapFind key = some map) :
    (s.modify key f).view = ⟨s.view.lba, Function.update s.view.content key (s.bufOf (f map)),
      Function.update s.view.dirty key (f map).dirty⟩ := by
  have hother : ∀ key', key' ≠ key → (s.modify key f).blockMapFind key' = s.blockMapFind key' := by
    intro key' hne
    rw [blockMapFind_modify s hf]
    simp only [if_neg hne, Option.map_id']
  have hself : (s.modify key f).blockMapFind key = some (f map) := by
    rw [blockMapFind_modify s hf, hfind, Option.map_some, if_pos rfl]
  refine View.ext ?_ ?_ ?_
  · funext key'
    by_cases hkey : key' = key
    · rw [view_lba, view_lba, hkey, hself, hfind, Option.map_some, Option.map_some, hlba]
    · rw [view_lba, view_lba, hother key' hkey]
  · funext key'
    by_cases hkey : key' = key
    · rw [view_content, hkey, hself]
      exact (Function.update_self key (s.bufOf (f map)) s.view.content).symm
    · rw [view_content, hother key' hkey]
      exact (Function.update_of_ne hkey (s.bufOf (f map)) s.view.content).symm
  · funext key'
    by_cases hkey : key' = key
    · rw [view_dirty, hkey, hself]
      exact (Function.update_self key (f map).dirty s.view.dirty).symm
    · rw [view_dirty, hother key' hkey]
      exact (Function.update_of_ne hkey (f map).dirty s.view.dirty).symm

/-- **A change of an entry keeps the list sound**, if a dirty entry has its buffer and a clean
one the disk's contents. -/
theorem Sound.modify (h : Sound s) {map : BlockMap} {f : BlockMap → BlockMap}
    (hf : ∀ map, (f map).key = map.key) (hfind : s.blockMapFind key = some map)
    (hdirty : (f map).dirty = true → (f map).buf.isSome = true)
    (hclean : (f map).dirty = false → key ≠ dirKey → s.bufOf (f map) = s.disk (f map).lba)
    (hdirectory : key = dirKey → (f map).buf.isSome = true) : Sound (s.modify key f) := by
  have hnew : ∀ old ∈ s.blockMap, old.key = key → f old = f map := by
    rintro old hold rfl
    rw [Option.some.inj ((h.find hold).symm.trans hfind)]
  have hkey := (blockMapFind_some hfind).2
  constructor
  case keys =>
    rw [keys_modify s hf]
    exact h.keys
  case dirty =>
    intro map' hmap'
    obtain ⟨old, hold, rfl⟩ := mem_modify hmap'
    split
    · rename_i hk
      rw [hnew old hold hk]
      exact hdirty
    · exact h.dirty old hold
  case clean =>
    intro map' hmap'
    obtain ⟨old, hold, rfl⟩ := mem_modify hmap'
    split
    · rename_i hk
      rw [hnew old hold hk, hf, hkey]
      exact hclean
    · exact h.clean old hold
  case directory =>
    intro map' hmap'
    obtain ⟨old, hold, rfl⟩ := mem_modify hmap'
    split
    · rename_i hk
      rw [hnew old hold hk, hf, hkey]
      exact hdirectory
    · exact h.directory old hold

/-! ### What the operations do -/

/-- A listed block is an entry that is found. -/
theorem find_of_lba {lba : ℕ} (hlba : s.view.lba key = some lba) :
    ∃ map, s.blockMapFind key = some map ∧ map.lba = lba ∧ s.view.content key = s.bufOf map ∧
      s.view.dirty key = map.dirty := by
  obtain ⟨map, hfind, hmap⟩ := Option.map_eq_some_iff.1 hlba
  refine ⟨map, hfind, hmap, ?_, ?_⟩
  · rw [view_content, hfind]
    rfl
  · rw [view_dirty, hfind]
    rfl

/-- A block that is in the list and has a place can be read. -/
theorem isSome_readFileBlk {lba : ℕ} (hlba : s.view.lba key = some lba) (hne : lba ≠ 0) :
    (s.readFileBlk key).isSome = true := by
  obtain ⟨map, hfind, rfl, -, -⟩ := find_of_lba hlba
  rw [readFileBlk, hfind]
  dsimp only
  cases map.buf with
  | some buf => rfl
  | none =>
    dsimp only
    rw [if_neg (by omega)]
    rfl

/-- A block that can be read is in the list. -/
theorem lba_of_isSome (hread : (s.readFileBlk key).isSome = true) :
    ∃ lba, s.view.lba key = some lba := by
  cases hfind : s.blockMapFind key with
  | none =>
    rw [readFileBlk, hfind] at hread
    exact nomatch hread
  | some map => exact ⟨map.lba, by rw [view_lba, hfind, Option.map_some]⟩

/-- `read_file_blk` returns what the block holds, which is in storage then. -/
theorem readFileBlk_eq (h : Sound s) (hread : (s.readFileBlk key).isSome = true) :
    ∃ bm map, s.readFileBlk key = some (s.view.content key, { s with blockMap := bm }) ∧
      view { s with blockMap := bm } = s.view ∧ Sound { s with blockMap := bm } ∧
      blockMapFind { s with blockMap := bm } key = some map ∧
        map.buf = some (s.view.content key) := by
  obtain ⟨lba, hlba⟩ := lba_of_isSome hread
  obtain ⟨map, hfind, rfl, hcontent, hdirty⟩ := find_of_lba hlba
  rw [readFileBlk, hfind] at hread ⊢
  dsimp only at hread ⊢
  cases hbuf : map.buf with
  | some buf =>
    have hcontent' : s.view.content key = buf := by rw [hcontent, bufOf, hbuf, Option.getD_some]
    rw [hcontent']
    exact ⟨s.blockMap, map, rfl, rfl, h, hfind, hbuf⟩
  | none =>
    have hcontent' : s.view.content key = s.disk map.lba := by
      rw [hcontent, bufOf, hbuf, Option.getD_none]
    rw [hbuf] at hread
    dsimp only at hread ⊢
    have hplace : ¬ map.lba < 1 := by
      intro hzero
      rw [if_pos hzero] at hread
      exact nomatch hread
    rw [if_neg hplace, hcontent']
    have hf : ∀ old : BlockMap,
        ({ old with buf := some (s.disk map.lba) } : BlockMap).key = old.key :=
      fun _ => rfl
    refine ⟨(s.modify key fun old => { old with buf := some (s.disk map.lba) }).blockMap,
      { map with buf := some (s.disk map.lba) }, rfl, ?_, ?_, ?_, rfl⟩
    · refine (view_modify hf rfl hfind).trans ?_
      have hbufOf : s.bufOf { map with buf := some (s.disk map.lba) } = s.view.content key := by
        rw [hcontent']
        rfl
      rw [hbufOf, Function.update_eq_self, ← hdirty, Function.update_eq_self]
    · exact h.modify hf hfind (fun _ => rfl) (fun _ _ => rfl) fun _ => rfl
    · refine (blockMapFind_modify s hf key).trans ?_
      rw [hfind, Option.map_some, if_pos rfl]

/-- **Reading a listed block** gives its contents, and changes nothing that is seen. -/
theorem readFileBlk_spec (h : Sound s) {lba : ℕ} (hlba : s.view.lba key = some lba)
    (hne : lba ≠ 0) :
    ∃ bm map, s.readFileBlk key = some (s.view.content key, { s with blockMap := bm }) ∧
      view { s with blockMap := bm } = s.view ∧ Sound { s with blockMap := bm } ∧
      blockMapFind { s with blockMap := bm } key = some map ∧ map.buf = some (s.view.content key) :=
  readFileBlk_eq h (isSome_readFileBlk hlba hne)

/-- **A write changes its block and marks it.** -/
theorem edit_eq (h : Sound s) (hread : (s.readFileBlk key).isSome = true) (inside : Bool)
    (f : DiskBlock → DiskBlock) :
    ∃ bm, s.edit key inside f = some { s with blockMap := bm, stray := s.stray || !inside } ∧
      view { s with blockMap := bm, stray := s.stray || !inside } = s.view.edit key f ∧
      Sound { s with blockMap := bm, stray := s.stray || !inside } := by
  obtain ⟨bm, map, hread, hview, hsound, hfind, hbuf⟩ := readFileBlk_eq h hread
  generalize hs₁ : ({ s with blockMap := bm } : Loader) = s₁ at hread hview hsound hfind
  -- the buffer is written
  have hf : ∀ old : BlockMap, ({ old with buf := old.buf.map f } : BlockMap).key = old.key :=
    fun _ => rfl
  have hbufOf : s₁.bufOf { map with buf := map.buf.map f } = f (s.view.content key) := by
    rw [bufOf, hbuf]
    rfl
  have hfind₂ : (s₁.modify key fun old => { old with buf := old.buf.map f }).blockMapFind key =
      some { map with buf := map.buf.map f } := by
    rw [blockMapFind_modify s₁ hf, hfind, Option.map_some, if_pos rfl]
  have hview₂ := view_modify hf rfl hfind
  rw [hbufOf] at hview₂
  generalize hs₂ : (s₁.modify key fun old => { old with buf := old.buf.map f }) = s₂
    at hfind₂ hview₂
  -- and marked
  have hg : ∀ old : BlockMap, ({ old with dirty := true } : BlockMap).key = old.key := fun _ => rfl
  have hview₃ := view_modify hg rfl hfind₂
  have hmark : s₂.blkSetDirty key = some (s₂.modify key fun old => { old with dirty := true }) := by
    rw [blkSetDirty, hfind₂]
    simp [hbuf]
  have hmodify : (s₂.modify key fun old => { old with dirty := true }) = s₁.modify key fun old =>
      { old with buf := old.buf.map f, dirty := true } := by
    rw [← hs₂, Loader.modify, Loader.modify, Loader.modify, List.map_map]
    congr 1
    refine List.map_congr_left fun old _ => ?_
    simp only [Function.comp_apply]
    by_cases hkey : old.key = key
    · simp only [if_pos hkey]
    · simp only [if_neg hkey]
  have hsound₃ :
      Sound (s₁.modify key fun old => { old with buf := old.buf.map f, dirty := true }) :=
    hsound.modify (fun _ => rfl) hfind (fun _ => by simp [hbuf]) (fun hclean => nomatch hclean)
      fun _ => by simp [hbuf]
  refine ⟨(s₂.modify key fun old => { old with dirty := true }).blockMap, ?_, ?_, ?_⟩
  · rw [edit, hread]
    simp only [Option.bind_eq_bind, Option.bind_some, hs₂, hmark]
    rw [hmodify, ← hs₁]
    rfl
  · have hdisk : s₂.bufOf { map with buf := map.buf.map f, dirty := true } =
        f (s.view.content key) := by
      rw [← hbufOf, ← hs₂]
      rfl
    rw [hview₂, hdisk, Function.update_idem, hview] at hview₃
    rw [← hs₂, ← hs₁] at hview₃ ⊢
    exact hview₃.trans (View.ext rfl rfl (by
      rw [Function.update_idem]
      rfl))
  · rw [hmodify, ← hs₁]
    rw [← hs₁] at hsound₃
    exact ⟨hsound₃.keys, hsound₃.dirty, hsound₃.clean, hsound₃.directory⟩

/-- **Changing a listed block** changes that block as seen, and keeps the list sound. -/
theorem edit_spec (h : Sound s) {lba : ℕ} (hlba : s.view.lba key = some lba) (hne : lba ≠ 0)
    (inside : Bool) (f : DiskBlock → DiskBlock) :
    ∃ bm, s.edit key inside f = some { s with blockMap := bm, stray := s.stray || !inside } ∧
      view { s with blockMap := bm, stray := s.stray || !inside } = s.view.edit key f ∧
      Sound { s with blockMap := bm, stray := s.stray || !inside } :=
  edit_eq h (isSome_readFileBlk hlba hne) inside f

/-- A block that has no entry is added. -/
theorem blockMapAdd_spec (h : Sound s) (hnew : s.view.lba key = none) (hkey : key ≠ dirKey)
    (lba : ℕ) :
    ∃ bm, s.blockMapAdd key lba = some { s with blockMap := bm } ∧
      view { s with blockMap := bm } = s.view.add key lba (s.disk lba) ∧
      Sound { s with blockMap := bm } := by
  have hfind : s.blockMapFind key = none := Option.map_eq_none_iff.1 hnew
  have hcons : ∀ key',
      blockMapFind { s with blockMap := ⟨key, lba, none, false⟩ :: s.blockMap } key' =
      if key' = key then some ⟨key, lba, none, false⟩ else s.blockMapFind key' := by
    intro key'
    rw [blockMapFind, List.find?_cons]
    by_cases hkey' : key' = key
    · simp [hkey']
    · simp [hkey', Ne.symm hkey', blockMapFind]
  refine ⟨⟨key, lba, none, false⟩ :: s.blockMap, by rw [blockMapAdd, hfind], ?_, ?_⟩
  · refine View.ext ?_ ?_ ?_
    · funext key'
      rw [view_lba, hcons, View.add_lba]
      split
      · rfl
      · rfl
    · funext key'
      rw [view_content, hcons, View.add_content]
      split
      · rfl
      · rfl
    · funext key'
      rw [view_dirty, hcons, View.add_dirty]
      split
      · rename_i hkey'
        rw [hkey', view_dirty, hfind]
        rfl
      · rfl
  · constructor
    case keys =>
      rw [List.map_cons, List.nodup_cons]
      refine ⟨fun hmem => ?_, h.keys⟩
      obtain ⟨map, hmap, hmapkey⟩ := List.mem_map.1 hmem
      have hnot := List.find?_eq_none.1 hfind map hmap
      simp [hmapkey] at hnot
    case dirty =>
      intro map hmap
      rcases List.mem_cons.1 hmap with rfl | hmap
      · exact fun hdirty => nomatch hdirty
      · exact h.dirty map hmap
    case clean =>
      intro map hmap
      rcases List.mem_cons.1 hmap with rfl | hmap
      · exact fun _ _ => rfl
      · exact h.clean map hmap
    case directory =>
      intro map hmap
      rcases List.mem_cons.1 hmap with rfl | hmap
      · exact fun hdir => absurd hdir hkey
      · exact h.directory map hmap

/-- A change of an FST in the directory. -/
theorem modify_dir_spec (h : Sound s) {lba : ℕ} (hlba : s.view.lba dirKey = some lba)
    (f : DiskBlock → DiskBlock) :
    (s.modify dirKey fun map => { map with buf := map.buf.map f }).view = s.view.poke dirKey f ∧
      Sound (s.modify dirKey fun map => { map with buf := map.buf.map f }) := by
  obtain ⟨map, hfind, rfl, hcontent, hdirty⟩ := find_of_lba hlba
  obtain ⟨hmem, hkey⟩ := blockMapFind_some hfind
  obtain ⟨buf, hbuf⟩ := Option.isSome_iff_exists.1 (h.directory map hmem hkey)
  have hf : ∀ old : BlockMap, ({ old with buf := old.buf.map f } : BlockMap).key = old.key :=
    fun _ => rfl
  constructor
  · refine (view_modify hf rfl hfind).trans ?_
    have hbufOf : s.bufOf { map with buf := map.buf.map f } = f (s.view.content dirKey) := by
      rw [hcontent, bufOf, bufOf, hbuf]
      rfl
    rw [hbufOf, ← hdirty, Function.update_eq_self]
    rfl
  · exact h.modify hf hfind (fun _ => by simp [hbuf])
      (fun _ hne => absurd rfl hne) fun _ => by simp [hbuf]

/-! ### Writing back -/

/-- One entry of the list is written back. -/
def writeEntry (disk : ℕ → DiskBlock) (cur : BlockMap) : Option (ℕ → DiskBlock) :=
  if cur.dirty then
    match cur.buf with
    | none => none
    | some buf => if cur.lba < 1 then none else some (Function.update disk cur.lba buf)
  else some disk

/-- **The writes, by induction on the entries.** They succeed if dirty entries have buffers and
numbers, and leave every block no dirty entry is for. -/
theorem foldlM_writeEntry {l : List BlockMap} (disk : ℕ → DiskBlock)
    (hbuf : ∀ map ∈ l, map.dirty = true → map.buf.isSome = true ∧ map.lba ≠ 0) :
    ∃ disk', l.foldlM writeEntry disk = some disk' ∧
      (∀ x, (∀ map ∈ l, map.dirty = true → map.lba ≠ x) → disk' x = disk x) ∧
      ∀ map ∈ l, map.dirty = true →
        (∀ map' ∈ l, map'.dirty = true → map'.lba = map.lba → map' = map) →
          map.buf = some (disk' map.lba) := by
  induction l generalizing disk with
  | nil => exact ⟨disk, rfl, fun _ _ => rfl, fun _ hmem => absurd hmem List.not_mem_nil⟩
  | cons cur l ih =>
    have hstep : ∃ disk₁, writeEntry disk cur = some disk₁ ∧
        (∀ x, (cur.dirty = true → cur.lba ≠ x) → disk₁ x = disk x) ∧
        (cur.dirty = true → cur.buf = some (disk₁ cur.lba)) := by
      rw [writeEntry]
      split
      · rename_i hdirty
        obtain ⟨hsome, hlba⟩ := hbuf cur List.mem_cons_self hdirty
        obtain ⟨buf, hbuf⟩ := Option.isSome_iff_exists.1 hsome
        rw [hbuf]
        dsimp only
        rw [if_neg (by omega)]
        refine ⟨_, rfl, fun x hx => ?_, fun _ => ?_⟩
        · exact Function.update_of_ne (Ne.symm (hx hdirty)) _ _
        · rw [Function.update_self]
      · rename_i hclean
        exact ⟨disk, rfl, fun _ _ => rfl, fun hdirty => absurd hdirty hclean⟩
    obtain ⟨disk₁, hwrite, hkept, hwritten⟩ := hstep
    obtain ⟨disk', hfold, hkept', hwritten'⟩ := ih disk₁ fun map hmap =>
      hbuf map (List.mem_cons_of_mem _ hmap)
    refine ⟨disk', by rw [List.foldlM_cons, hwrite]; exact hfold, fun x hx => ?_, ?_⟩
    · rw [hkept' x fun map hmap => hx map (List.mem_cons_of_mem _ hmap),
        hkept x (hx cur List.mem_cons_self)]
    · intro map hmap hdirty hinj
      by_cases hlater : ∃ map' ∈ l, map'.dirty = true ∧ map'.lba = map.lba
      · -- it is written, or written again, by the rest of the list
        obtain ⟨map', hmap', hdirty', hlba'⟩ := hlater
        obtain rfl := hinj map' (List.mem_cons_of_mem _ hmap') hdirty' hlba'
        exact hwritten' map' hmap' hdirty fun map hmap => hinj map (List.mem_cons_of_mem _ hmap)
      · rcases List.mem_cons.1 hmap with rfl | hmap
        · rw [hwritten hdirty, hkept' _ fun map' hmap' hdirty' hlba' =>
            hlater ⟨map', hmap', hdirty', hlba'⟩]
        · exact absurd ⟨map, hmap, hdirty, rfl⟩ hlater

/-- **A disk that is written back holds what the blocks hold**, if no block that is
written back is where another is; elsewhere it is as it was. -/
theorem writeback_eq (h : Sound s)
    (hlba : ∀ key lba, s.view.dirty key = true → s.view.lba key = some lba → lba ≠ 0) :
    ∃ disk, s.writeback = some disk ∧
      (∀ lba, (∀ key, s.view.dirty key = true → s.view.lba key ≠ some lba) →
        disk lba = s.disk lba) ∧
      ∀ key lba, s.view.lba key = some lba → (key = dirKey → s.view.dirty key = true) →
        (∀ key', s.view.dirty key' = true → s.view.lba key' = some lba → key' = key) →
        disk lba = s.view.content key := by
  have hview : ∀ map ∈ s.blockMap, s.view.lba map.key = some map.lba ∧
      s.view.dirty map.key = map.dirty ∧ s.view.content map.key = s.bufOf map := by
    intro map hmap
    rw [view_lba, view_dirty, view_content, h.find hmap]
    exact ⟨rfl, rfl, rfl⟩
  obtain ⟨disk, hwrite, hkept, hwritten⟩ := foldlM_writeEntry s.disk (l := s.blockMap)
    fun map hmap hdirty => ⟨h.dirty map hmap hdirty,
      hlba map.key map.lba ((hview map hmap).2.1.trans hdirty) (hview map hmap).1⟩
  refine ⟨disk, hwrite, fun lba hnone => hkept lba fun map hmap hdirty hlba' => ?_,
    fun key lba hkeylba hdir hinj => ?_⟩
  · obtain ⟨hmaplba, hmapdirty, -⟩ := hview map hmap
    exact hnone map.key (hmapdirty.trans hdirty) (by rw [hmaplba, hlba'])
  obtain ⟨map, hfind, rfl, hcontent, hmapdirty⟩ := find_of_lba hkeylba
  obtain ⟨hmem, hkey⟩ := blockMapFind_some hfind
  have hsame : ∀ map' ∈ s.blockMap, map'.dirty = true → map'.lba = map.lba → map' = map := by
    intro map' hmap' hdirty' hlba'
    obtain ⟨hlba₁, hdirty₁, _⟩ := hview map' hmap'
    have hkey' := hinj map'.key (hdirty₁.trans hdirty') (by rw [hlba₁, hlba'])
    exact List.inj_on_of_nodup_map h.keys hmap' hmem (hkey'.trans hkey.symm)
  rw [hcontent]
  by_cases hdirty : map.dirty = true
  · rw [bufOf, hwritten map hmem hdirty hsame, Option.getD_some]
  · have hclean : map.dirty = false := by simpa using hdirty
    have hne : map.key ≠ dirKey := fun hk => hdirty (hmapdirty ▸ hdir (hkey ▸ hk))
    rw [h.clean map hmem hclean hne, hkept]
    intro map' hmap' hdirty' hlba'
    rw [hsame map' hmap' hdirty' hlba'] at hdirty'
    exact hdirty hdirty'

end Loader

end Hvf
