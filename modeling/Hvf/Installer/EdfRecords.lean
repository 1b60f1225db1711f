/-
# Records of a volume

The bytes of a file are those of its data blocks, one after the other (`View.fileByte`).
A record goes behind the last one; if the blocks have no room for all of it, a block is
added first, and what is left of the one before it is filled (`copyRecord_spec`).
-/

import Hvf.Installer.EdfForest

namespace Hvf

open Loader Outcome

/-! ### Bytes -/

/-- Byte `pos` of the data blocks of a file. -/
def View.fileByte (v : View) (name : FileName) (pos : ℕ) : UInt8 :=
  v.content ⟨name, 0, pos / 4096⟩ (pos % 4096)

/-- **A store into a data block, byte by byte**: the file's bytes within the store are the
source's, the others stay. -/
theorem View.fileByte_store (v : View) (name : FileName) (src : ℕ → UInt8) {blk off soff len : ℕ}
    (hin : off + len ≤ 4096) (pos : ℕ) :
    (v.edit ⟨name, 0, blk⟩ fun dbuf => memcpy dbuf off src soff len).fileByte name pos =
      if 4096 * blk + off ≤ pos ∧ pos < 4096 * blk + off + len then
        src (soff + (pos - (4096 * blk + off)))
      else v.fileByte name pos := by
  rw [fileByte, fileByte, View.edit_content]
  by_cases hblk : pos / 4096 = blk
  · rw [if_pos (by rw [hblk]), memcpy, hblk]
    by_cases hpos : 4096 * blk + off ≤ pos ∧ pos < 4096 * blk + off + len
    · rw [if_pos hpos, if_pos (by omega), show pos % 4096 - off = pos - (4096 * blk + off) by omega]
    · rw [if_neg hpos, if_neg (by omega)]
  · rw [if_neg fun heq => hblk (congrArg BlockKey.blkNo heq), if_neg (by omega)]

/-- A store within a listed block returns, changes that block as seen, and writes nothing else.
-/
theorem wrote_store {s : Loader} {key : BlockKey} {lba : ℕ} (wrote : BlockKey → Prop)
    (off soff len : ℕ) (src : ℕ → UInt8) (hs : Sound s) (hlba : s.view.lba key = some lba)
    (hne : lba ≠ 0)
    (hin : off + len ≤ 4096) (hkey : wrote key) :
    ∃ u, s.store key off src soff len = some u ∧
      u.view = s.view.edit key (fun dbuf => memcpy dbuf off src soff len) ∧
      Wrote .directory wrote s u := by
  obtain ⟨bm, hedit, -⟩ := edit_spec hs hlba hne (decide (off + len ≤ 4096))
    fun dbuf => memcpy dbuf off src soff len
  obtain ⟨hview, ht⟩ := touches_store hs hkey hin hedit
  exact ⟨_, hedit, hview, Wrote.of_edit ht hview hkey⟩

/-! ### The place of a record -/

/-- **The record goes into one of the first `n` blocks, or into two of them**, and in each
it is inside of the block. -/
structure RecordGoes (fst : DiskBlock) (n : ℕ) : Prop where
  whole : recordRem fst = 0 ∨ Fst.lrecl fst ≤ recordRem fst →
    recordOff fst % 4096 + Fst.lrecl fst ≤ 4096 ∧ recordOff fst / 4096 < n
  parts : ¬ (recordRem fst = 0 ∨ Fst.lrecl fst ≤ recordRem fst) →
    recordOff fst % 4096 + recordRem fst = 4096 ∧ Fst.lrecl fst - recordRem fst ≤ 4096 ∧
      recordOff fst / 4096 + 1 < n

/-- The blocks of a file whose blocks are as many as its records need, with one record
more. -/
def blocksAfter (fst : DiskBlock) : ℕ :=
  if recordRem fst < Fst.lrecl fst then Fst.adbc fst + 1 else Fst.adbc fst

section

variable {fst : DiskBlock}

/-- The place of the next record is the records so far times their length, as long as that fits
32 bits. -/
theorem recordOff_eq (hoff : Fst.aic fst * Fst.lrecl fst < 2 ^ 32) :
    recordOff fst = Fst.aic fst * Fst.lrecl fst :=
  Nat.mod_eq_of_lt hoff

/-- What is left in the file's blocks is their size without the records, if the count of blocks
is the least. -/
theorem recordRem_eq (hoff : Fst.aic fst * Fst.lrecl fst < 2 ^ 32)
    (hblocks : Fst.adbc fst = (Fst.aic fst * Fst.lrecl fst + 4095) / 4096) :
    recordRem fst = Fst.adbc fst * 4096 - Fst.aic fst * Fst.lrecl fst := by
  rw [recordRem, recordOff_eq hoff]
  omega

/-- **One record more fits behind the growth**, and the blocks are again the least that hold the
records. -/
theorem recordGoes (hoff : Fst.aic fst * Fst.lrecl fst < 2 ^ 32)
    (hblocks : Fst.adbc fst = (Fst.aic fst * Fst.lrecl fst + 4095) / 4096)
    (hpos : 0 < Fst.lrecl fst) (hle : Fst.lrecl fst ≤ 4096) :
    RecordGoes fst (blocksAfter fst) ∧
      blocksAfter fst = ((Fst.aic fst + 1) * Fst.lrecl fst + 4095) / 4096 := by
  have hrem := recordRem_eq hoff hblocks
  have hplace := recordOff_eq hoff
  rw [blocksAfter]
  rw [Nat.add_one_mul]
  by_cases hmore : recordRem fst < Fst.lrecl fst
  · rw [if_pos hmore]
    exact ⟨⟨fun hwhole => by omega, fun hparts => by omega⟩, by omega⟩
  · rw [if_neg hmore]
    exact ⟨⟨fun hwhole => by omega, fun hparts => by omega⟩, by omega⟩

end

/-- **The copy of a record** changes its bytes of the file, and no others. -/
theorem copyRecord_spec {s : Loader} {fst : DiskBlock} {name : FileName} {n : ℕ}
    (buf : ℕ → UInt8) (hs : Sound s)
    (hblocks : ∀ b < n, ∃ lba, s.view.lba ⟨name, 0, b⟩ = some lba ∧ lba ≠ 0)
    (hgoes : RecordGoes fst n) :
    ∃ u, copyRecord fst name buf s = some u ∧
      Wrote .directory (fun key => key.name = name ∧ key.level = 0 ∧ key.blkNo < n) s u ∧
      ∀ pos, u.view.fileByte name pos =
        if recordOff fst ≤ pos ∧ pos < recordOff fst + Fst.lrecl fst then
          buf (pos - recordOff fst)
        else s.view.fileByte name pos := by
  rw [copyRecord]
  by_cases hwhole : recordRem fst = 0 ∨ Fst.lrecl fst ≤ recordRem fst
  · obtain ⟨hin, hblk⟩ := hgoes.whole hwhole
    obtain ⟨lba, hlba, hne⟩ := hblocks _ hblk
    obtain ⟨u, hstore, hview, hw⟩ := wrote_store
      (fun key => key.name = name ∧ key.level = 0 ∧ key.blkNo < n) (recordOff fst % 4096) 0
      (Fst.lrecl fst) buf hs hlba hne hin ⟨rfl, rfl, hblk⟩
    rw [if_pos hwhole]
    refine ⟨u, hstore, hw, fun pos => ?_⟩
    rw [hview, View.fileByte_store _ _ _ hin, Nat.div_add_mod, Nat.zero_add]
  · obtain ⟨hend, hrest, hblk⟩ := hgoes.parts hwhole
    obtain ⟨lba, hlba, hne⟩ := hblocks (recordOff fst / 4096) (by omega)
    obtain ⟨lba', hlba', hne'⟩ := hblocks _ hblk
    obtain ⟨w, hfirst, hview, hw⟩ := wrote_store
      (fun key => key.name = name ∧ key.level = 0 ∧ key.blkNo < n) (recordOff fst % 4096) 0
      (recordRem fst) buf hs hlba hne hend.le ⟨rfl, rfl, by show recordOff fst / 4096 < n; omega⟩
    obtain ⟨u, hnext, hview', hw'⟩ := wrote_store
      (fun key => key.name = name ∧ key.level = 0 ∧ key.blkNo < n) 0 (recordRem fst)
      (Fst.lrecl fst - recordRem fst) buf hw.sound (hw.lba ▸ hlba') hne' (by omega) ⟨rfl, rfl, hblk⟩
    rw [if_neg hwhole]
    refine ⟨u, by rw [hfirst]; exact hnext, hw.trans hw', fun pos => ?_⟩
    have hlt : recordRem fst < Fst.lrecl fst := by omega
    rw [hview', View.fileByte_store _ _ _ (by omega), hview,
      View.fileByte_store _ _ _ hend.le, Nat.div_add_mod, Nat.zero_add]
    have hbegin : 4096 * (recordOff fst / 4096 + 1) + 0 = recordOff fst + recordRem fst := by omega
    rw [hbegin]
    by_cases hin : recordOff fst ≤ pos ∧ pos < recordOff fst + Fst.lrecl fst
    · rw [if_pos hin]
      by_cases hnext' : recordOff fst + recordRem fst ≤ pos
      · rw [if_pos (by omega), show recordRem fst + (pos - (recordOff fst + recordRem fst)) =
          pos - recordOff fst by omega]
      · rw [if_neg (by omega), if_pos (by omega)]
    · rw [if_neg hin, if_neg (by omega), if_neg (by omega)]

/-! ### `update_directory` -/

/-- The update of the directory returns, if the file's entry is in the blocks looked at. -/
theorem updateBlocks_isSome {s : Loader} {fst : DiskBlock} {n blk : ℕ} (hs : Sound s)
    (hnfst : s.nfst = 64)
    (hblocks : ∀ b < blk + n, ∃ lba, s.view.lba ⟨directorName, 0, b⟩ = some lba ∧ lba ≠ 0)
    (hentry : ∃ k, 64 * blk ≤ k ∧ k < 64 * (blk + n) ∧ s.view.entryName k = Fst.name fst) :
    ∃ u, updateBlocks fst n blk s = some u := by
  induction n generalizing s blk with
  | zero =>
    obtain ⟨k, hge, hlt, -⟩ := hentry
    omega
  | succ n ih =>
    obtain ⟨lba, hlba, hne⟩ := hblocks blk (by omega)
    obtain ⟨⟨buf, w⟩, hread⟩ := Option.isSome_iff_exists.1 (isSome_readFileBlk hlba hne)
    obtain ⟨rfl, hview, ht⟩ := touches_readFileBlk (fun _ => False) hs hread
    rw [updateBlocks, hread]
    dsimp only [Option.bind_eq_bind, Option.bind_some]
    rw [ht.nfst, hnfst, show s.view.content ⟨directorName, 0, blk⟩ = s.view.dirBlock blk from rfl]
    cases hslot : findSlot 64 (s.view.dirBlock blk) (Fst.name fst) with
    | some rec =>
      obtain ⟨hrec, -⟩ := View.findSlot_some hslot
      obtain ⟨u, hstore, -⟩ := wrote_store (fun _ => True) (64 * rec) 0 64 fst ht.sound
        (hview ▸ hlba) hne (by omega) trivial
      exact ⟨u, hstore⟩
    | none =>
      obtain ⟨k, hge, hlt, hname⟩ := hentry
      refine ih ht.sound (ht.nfst.trans hnfst) (fun b hb => ?_) ⟨k, ?_, by omega, ?_⟩
      · rw [hview]
        exact hblocks b (by omega)
      · by_contra hlow
        exact View.findSlot_none hslot hge (by omega) hname
      · rw [hview, hname]

/-! ### Room for a record -/

/-- **`u` is `s` with a block more for the record**, if it is wanted, and else the same. -/
structure RoomMade (s u : Loader) (p : FstPtr) (m : ℕ) : Prop where
  adbc : Fst.adbc (u.fst p) = blocksAfter (s.fst p)
  grown : u = s ∨ Base s p m ∧ Grown s u p m

/-- **Making room for a record.** Where there is none a block is appended; the call returns if
enough blocks are free, and dies otherwise. -/
theorem roomMade_spec {ok : Prop} {s : Loader} {p : FstPtr} {m : ℕ}
    (hbase : recordRem (s.fst p) < Fst.lrecl (s.fst p) → Base s p m)
    (hdir : p = .directory → Fst.adbc (s.fst p) ≠ 0)
    (hok : ok → Free s.view m (Fst.nlvl (s.fst p) + 2)) :
    Spec ok (if recordRem (s.fst p) < Fst.lrecl (s.fst p) then s.appendBlock p else some s)
      fun u => RoomMade s u p m := by
  by_cases hmore : recordRem (s.fst p) < Fst.lrecl (s.fst p)
  · rw [if_pos hmore]
    refine (appendBlock_grows (hbase hmore) hdir hok).mono fun u hu =>
      ⟨?_, Or.inr ⟨hbase hmore, hu⟩⟩
    rw [blocksAfter, if_pos hmore, hu.adbc]
  · rw [if_neg hmore]
    refine Spec.ret ⟨?_, Or.inl rfl⟩
    rw [blocksAfter, if_neg hmore]

namespace RoomMade

variable {s u : Loader} {p : FstPtr} {m : ℕ}

/-- Making room leaves the disk, the other entries, and where blocks are. -/
theorem rest (h : RoomMade s u p m) (hs : Sound s) :
    Sound u ∧ u.disk = s.disk ∧ u.nfst = s.nfst ∧ u.stray = s.stray ∧
      (∀ q, q ≠ p → u.fst q = s.fst q) ∧
      (∀ key lba, s.view.lba key = some lba → u.view.lba key = some lba) ∧
      ∀ key, s.view.dirty key = true → u.view.dirty key = true := by
  rcases h.grown with rfl | ⟨-, hg⟩
  · exact ⟨hs, rfl, rfl, rfl, fun _ _ => rfl, fun _ _ h => h, fun _ h => h⟩
  · exact ⟨hg.sound, hg.disk, hg.nfst, hg.stray, hg.fst_other, hg.lba_old, hg.dirtied⟩

/-- The entry stays the file's, with its number of records. -/
theorem same (h : RoomMade s u p m) :
    SameFile (s.fst p) (u.fst p) ∧ Fst.aic (u.fst p) = Fst.aic (s.fst p) := by
  rcases h.grown with rfl | ⟨-, hg⟩
  · exact ⟨⟨rfl, rfl, rfl, rfl⟩, rfl⟩
  · exact ⟨hg.same, hg.aic⟩

/-- The blocks that were there hold what they held, but for the map, the pointer blocks of
the file and the directory's own FST. -/
theorem content (h : RoomMade s u p m) {key : BlockKey} {i : ℕ} (hkey : s.view.lba key ≠ none)
    (hname : key.name ≠ Fst.name (s.fst p) ∨ key.level = 0) (hmap : key.name ≠ allocmapName)
    (hdir : key = dirKey → 64 ≤ i) : u.view.content key i = s.view.content key i := by
  rcases h.grown with rfl | ⟨-, hg⟩
  · rfl
  · exact hg.content key i hkey hname (fun hmap' => hmap hmap'.1) hdir

/-- For the file of a caller, the directory is as it was. -/
theorem content_caller {i : ℕ} (h : RoomMade s u (.caller i) m) (hs : Sound s) {key : BlockKey}
    (hkey : s.view.lba key ≠ none) (hname : key.name ≠ Fst.name (s.fsts i) ∨ key.level = 0)
    (hmap : key.name ≠ allocmapName) : u.view.content key = s.view.content key := by
  by_cases hdir : key = dirKey
  · rw [hdir]
    exact (h.rest hs).2.2.2.2.1 .directory fun heq => by cases heq
  · exact funext fun j => h.content hkey hname hmap fun heq => absurd heq hdir

/-- Making room takes no more blocks than a growth by one data block may. -/
theorem free (h : RoomMade s u p m) {k : ℕ}
    (hfree : Free s.view m (k + (Fst.nlvl (s.fst p) + 2))) : Free u.view m k := by
  rcases h.grown with rfl | ⟨-, hg⟩
  · exact hfree.mono (Nat.le_add_right _ _)
  · exact hg.free k hfree

/-- Making room keeps the trees a forest, with the file's new tree in place of its old one. -/
theorem forest {live kept : ℕ → Prop} {tr : ℕ → Tree} (h : RoomMade s u p m)
    (hf : Forest s.view live tr kept) {k : ℕ} (hk : live k) (htr : tr k = treeOf (s.fst p))
    (hmap : tr 1 = treeOf (s.fst .allocmap)) :
    Forest u.view live (Function.update tr k (treeOf (u.fst p))) kept := by
  rcases h.grown with rfl | ⟨hb, hg⟩
  · rwa [← htr, Function.update_eq_self]
  · exact hf.grow hb hg hk htr hmap

end RoomMade

/-- A record that goes into the file is within a block. -/
theorem RecordGoes.fits {fst : DiskBlock} {n : ℕ} (h : RecordGoes fst n) : RecordFits fst := by
  rw [RecordFits]
  split
  · rename_i hwhole
    exact (h.whole hwhole).1
  · rename_i hparts
    exact ⟨(h.parts hparts).1.le, (h.parts hparts).2.1⟩

/-- A block more has its pointer inside of a block. -/
theorem Base.pointerFits {s : Loader} {p : FstPtr} {m : ℕ} (hb : Base s p m) :
    PointerFits s.view (s.fst p) := by
  intro l hl hbelow _ hzero
  set t := treeOf (s.fst p) with ht
  have hadbc : t.adbc < 2 ^ 20 := hb.adbc
  have hpow := hb.ok.pow_le hadbc.le (show l ≤ t.nlvl from hl.le)
  have hdvd : 1024 ^ l ∣ t.adbc := by
    refine (hb.grows.absent_iff hb.ok (show l ≤ t.nlvl from hl.le)).1 ?_
    rw [← hb.key_eq ht (show l ≤ t.nlvl from hl.le)]
    exact hbelow l le_rfl
  refine hb.grows.slot ⟨l, hl, hdvd, ?_⟩
  rw [show Fst.adbc (s.fst p) = t.adbc from rfl, fileBlocksAtLevel_succ (by omega)] at hzero
  show t.adbc / 1024 ^ l % 1024 = 1023
  omega

/-! ### Records -/

/-- A file has the records `recs`, each of `FST.LRECL` bytes, below at most one block of
pointers. -/
structure FileHas (v : View) (fst : DiskBlock) (recs : List (ℕ → UInt8)) : Prop where
  recfm : Fst.recfm fst = fstDFix
  ptrsz : fst 53 = 4
  pos : 0 < Fst.lrecl fst
  lrecl : Fst.lrecl fst ≤ 4096
  aic : Fst.aic fst = recs.length
  blocks : Fst.adbc fst = (Fst.aic fst * Fst.lrecl fst + 4095) / 4096
  low : Fst.adbc fst < 1024
  bytes : ∀ j r, recs[j]? = some r → ∀ i < Fst.lrecl fst,
    v.fileByte (Fst.name fst) (j * Fst.lrecl fst + i) = r i

/-- The same entry has the same tree. -/
theorem SameFst.treeOf_eq {a b : DiskBlock} (h : SameFst a b) : treeOf a = treeOf b := by
  rw [treeOf, treeOf, Tree.mk.injEq]
  exact ⟨h.name, h.word (by decide), congrArg UInt8.toNat (h 52 (by decide)), h.word (by decide)⟩

/-- Counting a record does not change the tree. -/
theorem treeOf_setAic (fst : DiskBlock) (n : ℕ) : treeOf (Fst.setAic fst n) = treeOf fst := by
  rw [treeOf, treeOf, Tree.mk.injEq]
  exact ⟨(sameFile_of_bytes fun _ hi => Fst.setPtrAt_bytes fst n (by decide) hi).name,
    ptrAt_setPtrAt_of_ne _ _ (by decide), Fst.nlvl_setPtrAt _ _ (by decide),
    ptrAt_setPtrAt_of_ne _ _ (by decide)⟩

namespace FileHas

variable {v v' : View} {fst fst' : DiskBlock} {recs : List (ℕ → UInt8)}

/-- A file whose tree is in order, with so many records, has at most one pointer level. -/
theorem nlvl_le (h : FileHas v fst recs) (hok : (treeOf fst).Ok v') : Fst.nlvl fst ≤ 1 := by
  by_contra hhigh
  have hhigh' : 2 ≤ Fst.nlvl fst := by omega
  have hleast : 1024 ^ (Fst.nlvl fst - 1) < Fst.adbc fst :=
    hok.least (show Fst.nlvl fst ≠ 0 by omega)
  have hpow : 1024 ^ 1 ≤ 1024 ^ (Fst.nlvl fst - 1) :=
    Nat.pow_le_pow_right (by decide) (by omega)
  have := h.low
  omega

/-- A file of 1023 blocks has a block of pointers with room for one more. -/
theorem lastSlot (hadbc : Fst.adbc fst = 1023) (hok : (treeOf fst).Ok v') :
    (treeOf fst).LastSlot := by
  have hheight : Fst.adbc fst ≤ 1024 ^ Fst.nlvl fst := hok.height
  refine ⟨0, Nat.pos_of_ne_zero fun hzero => ?_, one_dvd _, ?_⟩
  · rw [show Fst.nlvl fst = 0 from hzero, pow_zero] at hheight
    omega
  · show Fst.adbc fst / 1024 ^ 0 % 1024 = 1023
    rw [hadbc]
    norm_num

/-- The place of the next record fits 32 bits. -/
theorem off_lt (h : FileHas v fst recs) : Fst.aic fst * Fst.lrecl fst < 2 ^ 32 := by
  have := h.blocks
  have := h.low
  omega

/-- Byte `i` of record `j` is in one of the blocks. -/
theorem pos_lt (h : FileHas v fst recs) {j i : ℕ} (hj : j < recs.length)
    (hi : i < Fst.lrecl fst) :
    j * Fst.lrecl fst + i < Fst.aic fst * Fst.lrecl fst ∧
      (j * Fst.lrecl fst + i) / 4096 < Fst.adbc fst := by
  have hblocks := h.blocks
  have hle : (j + 1) * Fst.lrecl fst ≤ Fst.aic fst * Fst.lrecl fst :=
    Nat.mul_le_mul_right _ (by rw [h.aic]; exact hj)
  rw [Nat.add_one_mul] at hle
  omega

/-- The file is as it was if its FST and its data blocks are. -/
theorem keep (h : FileHas v fst recs) (hfst : SameFst fst' fst)
    (hcontent : ∀ b < Fst.adbc fst, v'.content ⟨Fst.name fst, 0, b⟩ =
      v.content ⟨Fst.name fst, 0, b⟩) : FileHas v' fst' recs := by
  have hlrecl : Fst.lrecl fst' = Fst.lrecl fst := hfst.word (by decide)
  have haic : Fst.aic fst' = Fst.aic fst := hfst.word (by decide)
  have hadbc : Fst.adbc fst' = Fst.adbc fst := hfst.word (by decide)
  constructor
  case recfm => rw [← h.recfm]; exact hfst 30 (by decide)
  case ptrsz => rw [← h.ptrsz]; exact hfst 53 (by decide)
  case pos => rw [hlrecl]; exact h.pos
  case lrecl => rw [hlrecl]; exact h.lrecl
  case aic => rw [haic, h.aic]
  case blocks => rw [hadbc, haic, hlrecl, h.blocks]
  case low => rw [hadbc]; exact h.low
  case bytes =>
    rw [hlrecl, hfst.name]
    intro j r hr i hi
    obtain ⟨hj, -⟩ := List.getElem?_eq_some_iff.1 hr
    rw [View.fileByte, hcontent _ (h.pos_lt hj hi).2]
    exact h.bytes j r hr i hi

/-- A record more. -/
theorem append (h : FileHas v fst recs) {buf : ℕ → UInt8} (hsame : SameFile fst fst')
    (haic : Fst.aic fst' = Fst.aic fst + 1)
    (hblocks : Fst.adbc fst' = ((Fst.aic fst + 1) * Fst.lrecl fst + 4095) / 4096)
    (hlow : Fst.adbc fst' < 1024)
    (hold : ∀ pos < Fst.aic fst * Fst.lrecl fst,
      v'.fileByte (Fst.name fst) pos = v.fileByte (Fst.name fst) pos)
    (hnew : ∀ i < Fst.lrecl fst,
      v'.fileByte (Fst.name fst) (Fst.aic fst * Fst.lrecl fst + i) = buf i) :
    FileHas v' fst' (recs ++ [buf]) where
  recfm := hsame.recfm.trans h.recfm
  ptrsz := hsame.ptrsz.trans h.ptrsz
  pos := h.pos.trans_eq hsame.lrecl.symm
  lrecl := hsame.lrecl.trans_le h.lrecl
  aic := by rw [haic, h.aic, List.length_append, List.length_singleton]
  blocks := by rw [hblocks, haic, hsame.lrecl]
  low := hlow
  bytes := by
    rw [hsame.lrecl, hsame.name]
    intro j r hr i hi
    rcases Nat.lt_or_ge j recs.length with hj | hj
    · rw [List.getElem?_append_left hj] at hr
      rw [hold _ (h.pos_lt hj hi).1]
      exact h.bytes j r hr i hi
    · rw [List.getElem?_append_right hj] at hr
      obtain ⟨hlt, hbuf⟩ := List.getElem?_eq_some_iff.1 hr
      have hj' : j = Fst.aic fst := by
        rw [List.length_singleton] at hlt
        rw [h.aic]
        omega
      rw [List.getElem_singleton] at hbuf
      rw [hj', hnew i hi, hbuf]

end FileHas

end Hvf
