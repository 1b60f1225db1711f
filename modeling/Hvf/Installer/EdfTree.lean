/-
# Trees of blocks

The blocks of a file with `n` data blocks are those with `blk * 1024 ^ level < n`,
for each level up to `NLVL`; a pointer block points at the blocks below it
(`Tree.Ok`).  The walk from `FOP` over a disk that holds them finds the data blocks
(`Tree.Ok.walk`).
-/

import Hvf.Installer.EdfAlloc
import Hvf.Lib.PtrTree

namespace Hvf

open Loader Outcome

/-! ### FSTs -/

/-- A change of an FST that leaves what is behind it. -/
def FstChange (f : DiskBlock → DiskBlock) : Prop := ∀ buf i, 64 ≤ i → f buf i = buf i

/-- At offset 0 a change of an entry is the change. -/
theorem atOff_zero {f : DiskBlock → DiskBlock} (hf : FstChange f) : atOff 0 f = f := by
  funext buf i
  rw [atOff]
  by_cases hi : i < 64
  · rw [if_pos ⟨Nat.zero_le i, by omega⟩, Nat.sub_zero]
    simp only [Nat.zero_add]
  · rw [if_neg (by omega), hf buf i (by omega)]

/-- Storing one of the words of an entry is a change of that entry only. -/
theorem fstChange_setPtrAt {off : ℕ} (hoff : off < 16) (lba : DiskBlock → ℕ) :
    FstChange fun fst => setPtrAt fst off (lba fst) :=
  fun buf i hi => setPtrAt_of_lt buf (lba buf) (by omega)

/-- **An FST of the same file**: it may have other words `FOP`, `ADBC`, `AIC` and another
`NLVL`, which are what appending changes. -/
structure SameFile (fst fst' : DiskBlock) : Prop where
  name : Fst.name fst' = Fst.name fst
  recfm : Fst.recfm fst' = Fst.recfm fst
  lrecl : Fst.lrecl fst' = Fst.lrecl fst
  ptrsz : fst' 53 = fst 53

/-- Entries with the same bytes before the origin, and the same format, are of one file. -/
theorem sameFile_of_bytes {fst fst' : DiskBlock} (h : ∀ i, i < 36 ∨ i = 53 → fst' i = fst i) :
    SameFile fst fst' := by
  refine ⟨?_, h 30 (by decide), ptrAt_congr fun i _ hi => h i (by omega), h 53 (by decide)⟩
  rw [Fst.name, Fst.name, FileName.mk.injEq]
  exact ⟨List.map_congr_left fun i hi => h i (by have := List.mem_range.1 hi; omega),
    List.map_congr_left fun i hi => h (8 + i) (by have := List.mem_range.1 hi; omega)⟩

/-- Storing origin, blocks or records leaves the bytes before them and the format. -/
theorem Fst.setPtrAt_bytes (fst : DiskBlock) (lba : ℕ) {off i : ℕ}
    (hoff : 10 ≤ off ∧ off ≤ 12) (hi : i < 36 ∨ i = 53) : setPtrAt fst off lba i = fst i :=
  setPtrAt_of_lt fst lba (by omega)

/-- Storing the number of levels changes that byte only. -/
theorem Fst.setNlvl_of_ne (fst : DiskBlock) (n : ℕ) {i : ℕ} (hi : i ≠ 52) :
    Fst.setNlvl fst n i = fst i :=
  Function.update_of_ne hi _ fst

/-- Storing a word before them leaves the number of levels. -/
theorem Fst.nlvl_setPtrAt (fst : DiskBlock) (lba : ℕ) {off : ℕ} (hoff : off ≤ 12) :
    Fst.nlvl (setPtrAt fst off lba) = Fst.nlvl fst :=
  congrArg UInt8.toNat (setPtrAt_of_lt fst lba (by omega))

/-- A number of levels stored is read back, if it is a byte. -/
theorem Fst.nlvl_setNlvl (fst : DiskBlock) {n : ℕ} (hn : n < 256) :
    Fst.nlvl (Fst.setNlvl fst n) = n := by
  rw [Fst.nlvl, Fst.setNlvl, Function.update_self, UInt8.toNat_ofNat']
  omega

/-- Storing the number of levels leaves the words before it. -/
theorem Fst.ptrAt_setNlvl (fst : DiskBlock) (n : ℕ) {off : ℕ} (hoff : off ≤ 12) :
    ptrAt (Fst.setNlvl fst n) off = ptrAt fst off :=
  ptrAt_congr fun _ _ _ => Fst.setNlvl_of_ne fst n (by omega)

namespace Loader

variable {s : Loader} {f : DiskBlock → DiskBlock}

/-- The directory's entry is the beginning of its first block. -/
theorem fst_directory (s : Loader) : s.fst .directory = s.view.content dirKey := rfl

/-- The map's entry is 64 bytes behind it. -/
theorem fst_allocmap (s : Loader) : s.fst .allocmap = fun i => s.view.content dirKey (64 + i) := rfl

/-- The caller's entries are its own. -/
theorem fst_caller (s : Loader) (i : ℕ) : s.fst (.caller i) = s.fsts i := rfl

/-- What a change of an FST does: the FST is changed, and of the blocks the first of
the directory if the FST is there. -/
theorem setFst_spec (h : Sound s) {lba : ℕ} (hlba : s.view.lba dirKey = some lba)
    (hf : FstChange f) {p : FstPtr} (hp : p ≠ .allocmap) :
    Sound (s.setFst p f) ∧ (s.setFst p f).fst p = f (s.fst p) ∧
      (s.setFst p f).view =
        (if p = .directory then s.view.poke dirKey f else s.view) ∧
      (s.setFst p f).fsts =
        (match p with
          | .caller i => Function.update s.fsts i (f (s.fsts i))
          | _ => s.fsts) ∧
      (s.setFst p f).disk = s.disk ∧ (s.setFst p f).nfst = s.nfst ∧
      (s.setFst p f).stray = s.stray := by
  cases p with
  | allocmap => exact absurd rfl hp
  | directory =>
    obtain ⟨hview, hsound⟩ := modify_dir_spec h hlba (atOff 0 f)
    have hview' : (s.setFst .directory f).view = s.view.poke dirKey f :=
      hview.trans (by rw [atOff_zero hf])
    refine ⟨hsound, ?_, hview'.trans (if_pos rfl).symm, rfl, rfl, rfl, rfl⟩
    rw [fst_directory, hview', View.poke_content, if_pos rfl, fst_directory]
  | caller i =>
    refine ⟨⟨h.keys, h.dirty, h.clean, h.directory⟩, ?_, rfl, rfl, rfl, rfl, rfl⟩
    exact Function.update_self i (f (s.fsts i)) s.fsts

end Loader

/-! ### The blocks of a file -/

/-- **What an FST says about the blocks of its file**: name, number of data blocks, height,
and the root. -/
structure Tree where
  name : FileName
  adbc : ℕ
  nlvl : ℕ
  fop : ℕ

/-- **The tree of a file**, as its entry gives it: name, data blocks, pointer levels and origin.
-/
def treeOf (fst : DiskBlock) : Tree := ⟨Fst.name fst, Fst.adbc fst, Fst.nlvl fst, Fst.fop fst⟩

namespace Tree

/-- A block of the file. -/
def Has (t : Tree) (key : BlockKey) : Prop :=
  key.name = t.name ∧ key.level ≤ t.nlvl ∧ key.blkNo * 1024 ^ key.level < t.adbc

/-- The block of level `l` over the data block that is next. -/
def path (t : Tree) (l : ℕ) : BlockKey := ⟨t.name, l, t.adbc / 1024 ^ l⟩

/-- **The tree of the file is in its blocks.** It has the least height, each of its nodes is
listed and none above, its root is where the FST says, and each node points to its children
and no further. -/
structure Ok (v : View) (t : Tree) : Prop where
  height : t.adbc ≤ 1024 ^ t.nlvl
  least : t.nlvl ≠ 0 → 1024 ^ (t.nlvl - 1) < t.adbc
  present : ∀ key, t.Has key → ∃ lba, v.lba key = some lba ∧ lba ≠ 0
  top : ∀ l i, t.nlvl < l → v.lba ⟨t.name, l, i⟩ = none
  root : t.adbc ≠ 0 → v.lba ⟨t.name, t.nlvl, 0⟩ = some t.fop
  child : ∀ l i, t.Has ⟨t.name, l, i⟩ → l < t.nlvl →
    v.lba ⟨t.name, l, i⟩ = some (ptrAt (v.content ⟨t.name, l + 1, i / 1024⟩) (i % 1024))

variable {t : Tree} {v : View}

/-- The parent of a block of the tree is one of its blocks. -/
theorem Has.parent {l i : ℕ} (h : t.Has ⟨t.name, l, i⟩) (hl : l < t.nlvl) :
    t.Has ⟨t.name, l + 1, i / 1024⟩ := by
  refine ⟨rfl, hl, lt_of_le_of_lt ?_ h.2.2⟩
  dsimp only
  rw [Nat.pow_succ', ← Nat.mul_assoc]
  exact Nat.mul_le_mul_right _ (Nat.div_mul_le_self i 1024)

/-- The path goes through a block of the file exactly where it does not begin one. -/
theorem has_path_iff {l : ℕ} (hl : l ≤ t.nlvl) : t.Has (t.path l) ↔ ¬ 1024 ^ l ∣ t.adbc := by
  have hdiv := Nat.div_mul_le_self t.adbc (1024 ^ l)
  rw [Nat.dvd_iff_div_mul_eq]
  constructor
  · rintro ⟨-, -, hlt⟩
    exact Nat.ne_of_lt hlt
  · exact fun hne => ⟨rfl, hl, lt_of_le_of_ne hdiv hne⟩

/-- A tree in order with at most 2²⁰ data blocks has at most two pointer levels. -/
theorem Ok.nlvl_le (h : t.Ok v) (hadbc : t.adbc ≤ 2 ^ 20) : t.nlvl ≤ 2 := by
  by_contra hhigh
  have hleast := h.least (by omega)
  have hpow : 1024 ^ 2 ≤ 1024 ^ (t.nlvl - 1) := Nat.pow_le_pow_right (by decide) (by omega)
  omega

/-- A block at a level of such a tree has at most 2²⁰ data blocks under it. -/
theorem Ok.pow_le (h : t.Ok v) (hadbc : t.adbc ≤ 2 ^ 20) {l : ℕ} (hl : l ≤ t.nlvl) :
    1024 ^ l ≤ 2 ^ 20 := by
  calc 1024 ^ l ≤ 1024 ^ 2 := Nat.pow_le_pow_right (by decide) (hl.trans (h.nlvl_le hadbc))
    _ = 2 ^ 20 := by norm_num

/-- The tree is as low as it can be. -/
theorem Ok.nlvl_eq (h : t.Ok v) : t.nlvl = Nat.clog 1024 t.adbc := by
  refine le_antisymm ?_ (Nat.clog_le_of_le_pow h.height)
  by_contra hlow
  have hleast := h.least (by omega)
  have hpow := Nat.le_pow_clog (b := 1024) (by decide) t.adbc
  have hle : 1024 ^ Nat.clog 1024 t.adbc ≤ 1024 ^ (t.nlvl - 1) :=
    Nat.pow_le_pow_right (by decide) (by omega)
  omega

/-- A file that grows keeps its blocks. -/
theorem Has.mono {t' : Tree} {v' : View} {key : BlockKey} (h : t.Has key) (hok : t.Ok v)
    (hok' : t'.Ok v') (hname : t'.name = t.name) (hadbc : t.adbc ≤ t'.adbc) : t'.Has key := by
  refine ⟨h.1.trans hname.symm, h.2.1.trans ?_, h.2.2.trans_le hadbc⟩
  rw [hok.nlvl_eq, hok'.nlvl_eq]
  exact Nat.clog_mono_right 1024 hadbc

/-- The tree is where it was if the blocks are, and if the pointers are the same. -/
theorem Ok.congr {v' : View} (h : t.Ok v)
    (hlba : ∀ l i, v'.lba ⟨t.name, l, i⟩ = v.lba ⟨t.name, l, i⟩)
    (hcontent : ∀ key, t.Has key → key.level ≠ 0 → v'.content key = v.content key) : t.Ok v' where
  height := h.height
  least := h.least
  present key hkey := by
    obtain ⟨name, level, blkNo⟩ := key
    obtain rfl : name = t.name := hkey.1
    rw [hlba]
    exact h.present _ hkey
  top l i hl := by rw [hlba, h.top l i hl]
  root hne := by rw [hlba, h.root hne]
  child l i hkey hl := by
    rw [hlba, hcontent _ (hkey.parent hl) (Nat.succ_ne_zero l), h.child l i hkey hl]

/-- A block, found by the numbers of the blocks above it. -/
theorem Ok.node (h : t.Ok v) {disk : ℕ → DiskBlock}
    (hdisk : ∀ key lba, t.Has key → v.lba key = some lba → disk lba = v.content key) {d : ℕ}
    (hd : d ≤ t.nlvl) {i : ℕ} (hi : t.Has ⟨t.name, t.nlvl - d, i⟩) :
    v.lba ⟨t.name, t.nlvl - d, i⟩ =
      some (PtrTree.node (fun lba off => ptrAt (disk lba) off) 1024 t.fop d i) := by
  induction d generalizing i with
  | zero =>
    have hlt := hi.2.2
    dsimp only at hlt
    rw [Nat.sub_zero] at hlt ⊢
    have hzero : i = 0 := by
      by_contra hpos
      have hle := Nat.le_mul_of_pos_left (1024 ^ t.nlvl) (Nat.pos_of_ne_zero hpos)
      have hheight := h.height
      omega
    rw [hzero, h.root (by omega), PtrTree.node]
  | succ d ih =>
    have hl : t.nlvl - (d + 1) < t.nlvl := by omega
    have hparent := hi.parent hl
    rw [h.child _ i hi hl, PtrTree.node]
    rw [show t.nlvl - (d + 1) + 1 = t.nlvl - d by omega] at hparent ⊢
    rw [hdisk _ _ hparent (ih (by omega) hparent)]

/-- **The walk from `FOP` finds the data blocks.** -/
theorem Ok.walk (h : t.Ok v) {disk : ℕ → DiskBlock}
    (hdisk : ∀ key lba, t.Has key → v.lba key = some lba → disk lba = v.content key) {b : ℕ}
    (hb : b < t.adbc) :
    disk (PtrTree.walk (fun lba off => ptrAt (disk lba) off) 1024 t.nlvl t.fop b) =
      v.content ⟨t.name, 0, b⟩ := by
  have hhas : t.Has ⟨t.name, 0, b⟩ :=
    ⟨rfl, Nat.zero_le _, by show b * 1024 ^ 0 < _; rwa [pow_zero, Nat.mul_one]⟩
  have hnode := h.node hdisk le_rfl (i := b) (by rwa [Nat.sub_self])
  rw [Nat.sub_self] at hnode
  rw [PtrTree.walk_eq_node, hdisk _ _ hhas hnode]

end Tree

end Hvf
