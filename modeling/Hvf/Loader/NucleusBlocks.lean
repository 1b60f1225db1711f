/-
# The blocks of the nucleus

What `readnucleus` is to do with any directory block (`NucleusMeets`), and exactly when it
does it (`nucleusMeets_iff`).  The size that is checked is that of the directory, the level
that is checked is that of the directory, and the loop takes `AIC` of the nucleus for the
length of a pointer block.  What is right is only that a zero pointer ends it.

The pointers are below `TEMP_BASE`, so they stay while the loop reads (`PtrsAt`); from block
1024 on the loop would read over the loader.
-/

import Hvf.Installer.EdfDirectory
import Hvf.Loader.ReadNucleus

namespace Hvf

open Bytes Loader

/-! ### What is on the disk -/

/-- Where block `lba` of a volume is. -/
def blockAddress (lba : ℕ) : SeekAddress :=
  ⟨(lba - 1) / 180, (lba - 1) % 180 / 12, (lba - 1) % 180 % 12 + 1⟩

/-- The last block whose cylinder has a number that `read_blk` can write. -/
def lastLba : ℕ := 2 ^ 16 * 180

section

variable (disk : SeekAddress → DiskBlock)

/-- The label. -/
def labelBlock : DiskBlock := disk (seekAddress 3)

/-- The block of the directory that is read. -/
def directoryBlock : DiskBlock := disk (seekAddress (ptrAt (labelBlock disk) 4))

/-- The directory block in `buf`, and what is behind it in storage. -/
def scannedEntries (m : Mem) : DiskBlock :=
  storedAt (memcpy m loaderBuf (directoryBlock disk) 0 4096) loaderBuf

/-- What is read for the pointer block in `ptrbuf`, and what is behind it. -/
def scannedPtrs (m : Mem) (fst : DiskBlock) : DiskBlock :=
  storedAt (memcpy m loaderPtrbuf (disk (seekAddress (Fst.fop fst))) 0 4096) loaderPtrbuf

/-- The pointer block of a file with one level of pointers. -/
def pointerBlock (fst : DiskBlock) : Option DiskBlock :=
  if Fst.nlvl fst = 1 then some (disk (blockAddress (Fst.fop fst))) else none

/-- **Entry `i` is that of the nucleus and passes all checks** of the loader before the
first block is read. -/
structure NucleusOpened (m : Mem) (i : ℕ) : Prop where
  label : goodLabel (labelBlock disk)
  dop : ptrAt (labelBlock disk) 4 ≠ 0
  level : Fst.nlvl (slot (directoryBlock disk) 0) = 0
  found : findSlot (ptrAt (labelBlock disk) 10) (scannedEntries disk m) nucleusName = some i
  good : goodNucleus (slot (directoryBlock disk) 0) (slot (scannedEntries disk m) i)
  fop : Fst.fop (slot (scannedEntries disk m) i) ≠ 0

/-! ### What the loader is to do -/

/-- What is to be at the end if the loader does not die: the blocks of the nucleus of the
directory block, named by its own pointer block, and nothing else above `TEMP_BASE`. -/
structure NucleusRead (m m' : Mem) (log : List BlkRead) (i : ℕ) : Prop where
  found : findSlot 64 (directoryBlock disk) nucleusName = some i
  size : 4096 * Fst.aic (slot (directoryBlock disk) i) ≤ 3 * 1024 * 1024
  count : log.length = Fst.aic (slot (directoryBlock disk) i) + 1
  blocks : 0 < Fst.aic (slot (directoryBlock disk) i) →
    ∃ ptrs, pointerBlock disk (slot (directoryBlock disk) i) = some ptrs ∧
      log = ⟨blockAddress (Fst.fop (slot (directoryBlock disk) i)), loaderPtrbuf⟩ ::
        (List.range (Fst.aic (slot (directoryBlock disk) i))).map fun k =>
          ⟨blockAddress (ptrAt ptrs k), tempBase + 4096 * k⟩
  contents : ∀ k < Fst.aic (slot (directoryBlock disk) i), ∀ j < 4096,
    ∀ r, log[k + 1]? = some r → m' (tempBase + 4096 * k + j) = disk r.addr j
  frame : ∀ a, loaderPtrbuf + 4096 ≤ a → a < tempBase ∨ tempBase + 3 * 1024 * 1024 ≤ a → m' a = m a

/-- The loader dies or reads the nucleus. -/
def NucleusMeets (m : Mem) : Prop :=
  match readnucleus disk m with
  | .died => True
  | .overwritten => False
  | .loaded m' log => ∃ i, NucleusRead disk m m' log i

/-- The nucleus that passes the checks has a zero pointer in front of its end, or is in the
directory block, has at most 768 blocks, one level of pointers (if it has blocks), and all
of its blocks in the cylinders that `read_blk` can name. -/
def NucleusFits (m : Mem) : Prop :=
  ∀ i, NucleusOpened disk m i →
    let fst := slot (scannedEntries disk m) i
    let ptrs := scannedPtrs disk m fst
    (∃ k < Fst.aic fst, k ≤ 1024 ∧ ptrAt ptrs k = 0) ∨
      i < 64 ∧ Fst.aic fst ≤ 768 ∧ (0 < Fst.aic fst →
        Fst.nlvl fst = 1 ∧ Fst.fop fst ≤ lastLba ∧ ∀ k < Fst.aic fst, ptrAt ptrs k ≤ lastLba)

end

variable {disk : SeekAddress → DiskBlock} {m : Mem}

/-- **The loader seeks the right block** exactly for blocks whose cylinder fits its 16 bits. -/
theorem seekAddress_eq_iff {lba : ℕ} : seekAddress lba = blockAddress lba ↔ lba ≤ lastLba := by
  rw [seekAddress, blockAddress, lastLba, SeekAddress.mk.injEq]
  omega

/-! ### Up to the loop -/

/-- A block stored in memory is read back. -/
theorem storedAt_memcpy (m : Mem) (a : ℕ) (blk : DiskBlock) {j : ℕ} (h : j < 4096) :
    storedAt (memcpy m a blk 0 4096) a j = blk j := memcpy_in h

/-- The entries scanned are those of the directory's first block. -/
theorem slot_scanned (m : Mem) {i : ℕ} (h : i < 64) :
    SameFst (slot (scannedEntries disk m) i) (slot (directoryBlock disk) i) :=
  fun _ hj => storedAt_memcpy m _ _ (by omega)

/-- A pointer in a stored block is the block's. -/
theorem ptrAt_storedAt (m : Mem) (a : ℕ) (blk : DiskBlock) {off : ℕ} (h : off < 1024) :
    ptrAt (storedAt (memcpy m a blk 0 4096) a) off = ptrAt blk off :=
  ptrAt_congr fun _ _ _ => storedAt_memcpy m a blk (by omega)

/-- The check of a stored label is the check of the block. -/
theorem goodLabel_storedAt (m : Mem) (a : ℕ) (blk : DiskBlock) :
    goodLabel (storedAt (memcpy m a blk 0 4096) a) = goodLabel blk := by
  unfold goodLabel
  rw [ptrAt_storedAt _ _ _ (by decide), ptrAt_storedAt _ _ _ (by decide),
    ptrAt_storedAt _ _ _ (by decide), ptrAt_storedAt _ _ _ (by decide)]

/-- The check of a scanned entry looks at the directory's own entry as it stands in the block.
-/
theorem goodNucleus_scanned (m : Mem) (fst : DiskBlock) :
    goodNucleus (slot (scannedEntries disk m) 0) fst =
      goodNucleus (slot (directoryBlock disk) 0) fst := by
  have h : SameFst (slot (scannedEntries disk m) 0) (slot (directoryBlock disk) 0) :=
    slot_scanned m (by decide)
  unfold goodNucleus
  rw [show Fst.aic (slot (scannedEntries disk m) 0) = Fst.aic (slot (directoryBlock disk) 0) from
    h.word (by decide), show Fst.lrecl (slot (scannedEntries disk m) 0) =
      Fst.lrecl (slot (directoryBlock disk) 0) from h.word (by decide)]

/-- One block over another. -/
theorem memcpy_memcpy (m : Mem) (a : ℕ) (blk blk' : DiskBlock) (n : ℕ) :
    memcpy (memcpy m a blk 0 n) a blk' 0 n = memcpy m a blk' 0 n := by
  funext b
  unfold memcpy
  split
  · rfl
  · rfl

/-- What is in storage when the loop begins. -/
def openedMem (disk : SeekAddress → DiskBlock) (m : Mem) (i : ℕ) : Mem :=
  memcpy (memcpy m loaderBuf (directoryBlock disk) 0 4096) loaderPtrbuf
    (disk (seekAddress (Fst.fop (slot (scannedEntries disk m) i)))) 0 4096

/-- The checks, in their order. -/
theorem openNucleus_eq (disk : SeekAddress → DiskBlock) (m : Mem) : openNucleus disk m =
    if goodLabel (labelBlock disk) then
      if ptrAt (labelBlock disk) 4 < 1 then none
      else if Fst.nlvl (slot (scannedEntries disk m) 0) = 0 then
        (findSlot (ptrAt (labelBlock disk) 10) (scannedEntries disk m) nucleusName).bind fun i =>
          if goodNucleus (slot (scannedEntries disk m) 0) (slot (scannedEntries disk m) i) then
            if Fst.fop (slot (scannedEntries disk m) i) < 1 then none
            else some (openedMem disk m i, i, slot (scannedEntries disk m) i)
          else none
      else none
    else none := by
  have hlabel : readBlk disk m loaderBuf 3 =
      some (memcpy m loaderBuf (labelBlock disk) 0 4096) := rfl
  rw [openNucleus, hlabel]
  simp only [Option.bind_eq_bind, Option.bind_some, goodLabel_storedAt]
  rw [ptrAt_storedAt _ _ _ (by decide), ptrAt_storedAt _ _ _ (by decide)]
  by_cases hgood : goodLabel (labelBlock disk) = true
  · rw [if_pos hgood, if_pos hgood, readBlk]
    by_cases hdop : ptrAt (labelBlock disk) 4 < 1
    · rw [if_pos hdop, if_pos hdop, Option.bind_none]
    · rw [if_neg hdop, if_neg hdop, Option.bind_some, memcpy_memcpy]
      by_cases hlevel : Fst.nlvl (slot (scannedEntries disk m) 0) = 0
      · rw [if_pos hlevel]
        refine (if_pos hlevel).trans ?_
        refine Option.bind_congr fun i _ => ?_
        by_cases hnucleus : goodNucleus (slot (scannedEntries disk m) 0)
            (slot (scannedEntries disk m) i) = true
        · rw [if_pos hnucleus]
          refine (if_pos hnucleus).trans ?_
          by_cases hfop : Fst.fop (slot (scannedEntries disk m) i) < 1
          · rw [if_pos hfop]
            refine (congrArg (Option.bind · _) (if_pos hfop)).trans ?_
            rfl
          · rw [if_neg hfop]
            refine (congrArg (Option.bind · _) (if_neg hfop)).trans ?_
            rfl
        · rw [if_neg hnucleus]
          exact if_neg hnucleus
      · rw [if_neg hlevel]
        exact if_neg hlevel
  · rw [if_neg hgood, if_neg hgood]

/-- **What passes the checks.** -/
theorem openNucleus_eq_some_iff {m' : Mem} {i : ℕ} {fst : DiskBlock} :
    openNucleus disk m = some (m', i, fst) ↔
      NucleusOpened disk m i ∧ m' = openedMem disk m i ∧ fst = slot (scannedEntries disk m) i := by
  have hlevel : Fst.nlvl (slot (scannedEntries disk m) 0) =
      Fst.nlvl (slot (directoryBlock disk) 0) :=
    congrArg UInt8.toNat (slot_scanned m (by decide) 52 (by decide))
  rw [openNucleus_eq]
  constructor
  · intro h
    split_ifs at h with hlabel hdop hzero
    obtain ⟨i', hfound, h⟩ := Option.bind_eq_some_iff.1 h
    split_ifs at h with hgood hfop
    obtain ⟨rfl, rfl, rfl⟩ : openedMem disk m i' = m' ∧ i' = i ∧
        slot (scannedEntries disk m) i' = fst := by simpa using h
    rw [goodNucleus_scanned] at hgood
    exact ⟨⟨hlabel, by omega, hlevel ▸ hzero, hfound, hgood, by omega⟩, rfl, rfl⟩
  · rintro ⟨h, rfl, rfl⟩
    have hdop := h.dop
    have hfop := h.fop
    rw [if_pos h.label, if_neg (by omega), if_pos (hlevel.trans h.level), h.found, Option.bind_some,
      goodNucleus_scanned, if_pos h.good, if_neg (by omega)]

/-! ### The loop -/

/-- The pointers in `ptrbuf` are those of `ptrs`, as far as storage below `TEMP_BASE` goes. -/
def PtrsAt (m : Mem) (ptrs : DiskBlock) : Prop :=
  ∀ a, loaderPtrbuf + a < tempBase → storedAt m loaderPtrbuf a = ptrs a

/-- A pointer read from the loader's buffer is the pointer block's. -/
theorem PtrsAt.ptr {ptrs : DiskBlock} (h : PtrsAt m ptrs) {k : ℕ} (hk : k ≤ 1024) :
    ptrAt (storedAt m loaderPtrbuf) k = ptrAt ptrs k := by
  refine ptrAt_congr fun a _ ha => h a ?_
  rw [loaderPtrbuf, tempBase]
  omega

/-- A block at or above `TEMP_BASE` leaves the pointers alone. -/
theorem PtrsAt.read {ptrs : DiskBlock} (h : PtrsAt m ptrs) (i : ℕ) (blk : DiskBlock) :
    PtrsAt (memcpy m (tempBase + 4096 * i) blk 0 4096) ptrs := by
  intro a ha
  rw [← h a ha]
  exact memcpy_out (Or.inl (by omega))

/-- A zero pointer ends the run. -/
theorem readBlocks_died {ptrs : DiskBlock} {n i : ℕ} {log : List BlkRead} (h : PtrsAt m ptrs)
    (hzero : ∃ k, i ≤ k ∧ k < i + n ∧ k ≤ 1024 ∧ ptrAt ptrs k = 0) :
    readBlocks disk n i m log = .died := by
  induction n generalizing i m log with
  | zero =>
    obtain ⟨k, hik, hk, -⟩ := hzero
    omega
  | succ n ih =>
    obtain ⟨k, hik, hk, hle, hzero⟩ := hzero
    rw [readBlocks, h.ptr (hik.trans hle), readBlk]
    by_cases hnow : ptrAt ptrs i = 0
    · rw [if_pos (by omega)]
    · have hlater : i + 1 ≤ k := by
        rcases Nat.eq_or_lt_of_le hik with rfl | hlt
        · exact absurd hzero hnow
        · exact hlt
      rw [if_neg (by omega)]
      dsimp only
      rw [if_neg (by rw [loaderText, tempBase]; omega)]
      exact ih (h.read i _) ⟨k, hlater, by omega, hle, hzero⟩

/-- Without one the loop reads over the loader, if it goes that far. -/
theorem readBlocks_overwritten {ptrs : DiskBlock} {n i : ℕ} {log : List BlkRead}
    (h : PtrsAt m ptrs) (hi : i ≤ 1024) (hn : 1024 < i + n)
    (hptrs : ∀ k, i ≤ k → k ≤ 1024 → ptrAt ptrs k ≠ 0) :
    readBlocks disk n i m log = .overwritten := by
  induction n generalizing i m log with
  | zero => omega
  | succ n ih =>
    have hnow := hptrs i le_rfl hi
    rw [readBlocks, h.ptr hi, readBlk, if_neg (by omega)]
    dsimp only
    rcases Nat.eq_or_lt_of_le hi with rfl | hlt
    · exact if_pos (by decide)
    · rw [if_neg (by rw [loaderText, tempBase]; omega)]
      exact ih (h.read i _) hlt (by omega) fun k hk => hptrs k (by omega)

/-- **The blocks are read in order,** each to its place. -/
theorem readBlocks_loaded (disk : SeekAddress → DiskBlock) {ptrs : DiskBlock} {n : ℕ} (i : ℕ)
    (log : List BlkRead) (h : PtrsAt m ptrs) (hn : i + n ≤ 1024)
    (hptrs : ∀ k, i ≤ k → k < i + n → ptrAt ptrs k ≠ 0) :
    ∃ m', readBlocks disk n i m log = .loaded m' (log ++ (List.range' i n).map fun k =>
        ⟨seekAddress (ptrAt ptrs k), tempBase + 4096 * k⟩) ∧
      (∀ k, i ≤ k → k < i + n → ∀ j < 4096,
        m' (tempBase + 4096 * k + j) = disk (seekAddress (ptrAt ptrs k)) j) ∧
      ∀ a, a < tempBase + 4096 * i ∨ tempBase + 4096 * (i + n) ≤ a → m' a = m a := by
  induction n generalizing i m log with
  | zero =>
    refine ⟨m, ?_, fun k hk hlt => by omega, fun _ _ => rfl⟩
    rw [List.range'_zero, List.map_nil, List.append_nil]
    rfl
  | succ n ih =>
    have hnow := hptrs i le_rfl (by omega)
    obtain ⟨m', hrun, hblocks, hframe⟩ := ih (i + 1)
      (log ++ [⟨seekAddress (ptrAt ptrs i), tempBase + 4096 * i⟩])
      (h.read i (disk (seekAddress (ptrAt ptrs i)))) (by omega)
      fun k hk hlt => hptrs k (by omega) (by omega)
    refine ⟨m', ?_, fun k hk hlt j hj => ?_, fun a ha => ?_⟩
    · rw [readBlocks, h.ptr (by omega), readBlk, if_neg (by omega)]
      dsimp only
      rw [if_neg (by rw [loaderText, tempBase]; omega), hrun, List.range'_succ, List.map_cons,
        List.append_assoc]
      rfl
    · rcases Nat.eq_or_lt_of_le hk with rfl | hlater
      · rw [hframe _ (Or.inl (by omega))]
        exact memcpy_in hj
      · exact hblocks k hlater (by omega) j hj
    · rw [← Nat.add_assoc, Nat.add_right_comm i n 1] at ha
      have hout : a < tempBase + 4096 * i ∨ tempBase + 4096 * i + 4096 ≤ a := by omega
      rw [hframe a (by omega)]
      exact memcpy_out hout

/-- The pointers when the loop begins. -/
theorem ptrsAt_opened (disk : SeekAddress → DiskBlock) (m : Mem) (i : ℕ) :
    PtrsAt (openedMem disk m i) (scannedPtrs disk m (slot (scannedEntries disk m) i)) := by
  intro a _
  rw [storedAt, openedMem, scannedPtrs, storedAt]
  have hbuf : loaderPtrbuf + a < loaderBuf ∨ loaderBuf + 4096 ≤ loaderPtrbuf + a := by
    rw [loaderBuf, loaderPtrbuf]
    omega
  by_cases ha : a < 4096
  · rw [memcpy_in ha, memcpy_in ha]
  · rw [memcpy_out (Or.inr (by omega)), memcpy_out hbuf, memcpy_out (Or.inr (by omega))]

/-- Behind `ptrbuf` nothing has changed when the loop begins. -/
theorem openedMem_eq (i : ℕ) {a : ℕ} (ha : loaderPtrbuf + 4096 ≤ a) :
    openedMem disk m i a = m a := by
  rw [loaderPtrbuf] at ha
  rw [openedMem, memcpy_out (Or.inr (by rw [loaderPtrbuf]; omega)),
    memcpy_out (Or.inr (by rw [loaderBuf]; omega))]

/-! ### The result -/

/-- The entry that is found is that of the directory block, if that has one. -/
theorem found_directory {i i' : ℕ} (h : NucleusOpened disk m i)
    (h' : findSlot 64 (directoryBlock disk) nucleusName = some i') : i = i' ∧ i < 64 := by
  obtain ⟨hname, -, hfirst⟩ := List.find?_range_eq_some.1 h.found
  obtain ⟨hname', hmem', hfirst'⟩ := List.find?_range_eq_some.1 h'
  have hi' := List.mem_range.1 hmem'
  have hsame : ∀ k < 64, Fst.name (slot (scannedEntries disk m) k) =
      Fst.name (slot (directoryBlock disk) k) := fun k hk => (slot_scanned m hk).name
  have hle : i ≤ i' := by
    by_contra hlt
    have hno := hfirst i' (not_le.1 hlt)
    rw [hsame i' hi', hname'] at hno
    cases hno
  have hge : i' ≤ i := by
    by_contra hlt
    have hno := hfirst' i (not_le.1 hlt)
    rw [← hsame i (by omega), hname] at hno
    cases hno
  exact ⟨Nat.le_antisymm hle hge, by omega⟩

/-- An entry in the block is the first one there. -/
theorem directory_found {i : ℕ} (h : NucleusOpened disk m i) (hi : i < 64) :
    findSlot 64 (directoryBlock disk) nucleusName = some i := by
  obtain ⟨hname, -, hfirst⟩ := List.find?_range_eq_some.1 h.found
  refine List.find?_range_eq_some.2 ⟨?_, List.mem_range.2 hi, fun k hk => ?_⟩
  · rw [← (slot_scanned m hi).name]
    exact hname
  · rw [← (slot_scanned m (by omega)).name]
    exact hfirst k hk

/-- **What a run that ends at `TEMP_BASE` has read:** the nucleus exactly if it was one that
the loader can read. -/
theorem nucleusRead_iff {i : ℕ} {m' : Mem} {log : List BlkRead} (h : NucleusOpened disk m i)
    (hlog : log = ⟨seekAddress (Fst.fop (slot (scannedEntries disk m) i)), loaderPtrbuf⟩ ::
      (List.range (Fst.aic (slot (scannedEntries disk m) i))).map fun k =>
        ⟨seekAddress (ptrAt (scannedPtrs disk m (slot (scannedEntries disk m) i)) k),
          tempBase + 4096 * k⟩)
    (hcontents : ∀ k < Fst.aic (slot (scannedEntries disk m) i), ∀ j < 4096,
      ∀ r, log[k + 1]? = some r → m' (tempBase + 4096 * k + j) = disk r.addr j)
    (hframe : ∀ a, loaderPtrbuf + 4096 ≤ a → a < tempBase ∨
      tempBase + 4096 * Fst.aic (slot (scannedEntries disk m) i) ≤ a → m' a = m a) :
    (∃ i', NucleusRead disk m m' log i') ↔
      i < 64 ∧ Fst.aic (slot (scannedEntries disk m) i) ≤ 768 ∧
        (0 < Fst.aic (slot (scannedEntries disk m) i) →
          Fst.nlvl (slot (scannedEntries disk m) i) = 1 ∧
          Fst.fop (slot (scannedEntries disk m) i) ≤ lastLba ∧
          ∀ k < Fst.aic (slot (scannedEntries disk m) i),
            ptrAt (scannedPtrs disk m (slot (scannedEntries disk m) i)) k ≤ lastLba) := by
  have hptr : ∀ k < 1024, ptrAt (scannedPtrs disk m (slot (scannedEntries disk m) i)) k =
      ptrAt (disk (seekAddress (Fst.fop (slot (scannedEntries disk m) i)))) k :=
    fun k hk => ptrAt_storedAt m _ _ hk
  have hentry : i < 64 → Fst.aic (slot (scannedEntries disk m) i) =
        Fst.aic (slot (directoryBlock disk) i) ∧
      Fst.fop (slot (scannedEntries disk m) i) = Fst.fop (slot (directoryBlock disk) i) ∧
      Fst.nlvl (slot (scannedEntries disk m) i) = Fst.nlvl (slot (directoryBlock disk) i) :=
    fun hi => ⟨(slot_scanned m hi).word (by decide), (slot_scanned m hi).word (by decide),
      congrArg UInt8.toNat (slot_scanned m hi 52 (by decide))⟩
  constructor
  · rintro ⟨i', hread⟩
    obtain ⟨rfl, hi⟩ := found_directory h hread.found
    obtain ⟨haic, hfop, hnlvl⟩ := hentry hi
    have hsize := hread.size
    have hblocks := hread.blocks
    rw [← haic] at hsize hblocks
    rw [pointerBlock, ← hfop, ← hnlvl] at hblocks
    refine ⟨hi, by omega, fun hpos => ?_⟩
    obtain ⟨ptrs, hptrs, hnamed⟩ := hblocks hpos
    split_ifs at hptrs with hlevel
    obtain rfl := Option.some.inj hptrs
    rw [hlog, List.cons.injEq, List.map_inj_left] at hnamed
    have hroot := seekAddress_eq_iff.1 (BlkRead.mk.inj hnamed.1).1
    refine ⟨hlevel, hroot, fun k hk => ?_⟩
    have haddr := (BlkRead.mk.inj (hnamed.2 k (List.mem_range.2 hk))).1
    rw [hptr k (by omega), seekAddress_eq_iff.2 hroot] at haddr ⊢
    exact seekAddress_eq_iff.1 haddr
  · rintro ⟨hi, hsize, hblocks⟩
    obtain ⟨haic, hfop, hnlvl⟩ := hentry hi
    refine ⟨i, directory_found h hi, by omega, ?_, fun hpos => ?_, ?_, fun a ha hout => ?_⟩
    · rw [hlog, List.length_cons, List.length_map, List.length_range, haic]
    · rw [← haic] at hpos ⊢
      rw [pointerBlock, ← hfop, ← hnlvl]
      obtain ⟨hlevel, hroot, hnamed⟩ := hblocks hpos
      refine ⟨_, if_pos hlevel, ?_⟩
      rw [hlog, seekAddress_eq_iff.2 hroot, List.cons.injEq, List.map_inj_left]
      refine ⟨rfl, fun k hk => ?_⟩
      have hk := List.mem_range.1 hk
      have hlow := hnamed k hk
      rw [hptr k (by omega), seekAddress_eq_iff.2 hroot] at hlow ⊢
      rw [seekAddress_eq_iff.2 hlow]
    · rw [← haic]
      exact hcontents
    · have hbehind : 4096 * Fst.aic (slot (scannedEntries disk m) i) ≤ 3 * 1024 * 1024 := by
        omega
      exact hframe a ha (hout.imp_right fun h => (Nat.add_le_add_left hbehind _).trans h)

/-- A nucleus that passes the checks. -/
theorem nucleusMeets_opened {i : ℕ} (hi : NucleusOpened disk m i) :
    NucleusMeets disk m ↔
      let fst := slot (scannedEntries disk m) i
      let ptrs := scannedPtrs disk m fst
      (∃ k < Fst.aic fst, k ≤ 1024 ∧ ptrAt ptrs k = 0) ∨
        i < 64 ∧ Fst.aic fst ≤ 768 ∧ (0 < Fst.aic fst →
          Fst.nlvl fst = 1 ∧ Fst.fop fst ≤ lastLba ∧
            ∀ k < Fst.aic fst, ptrAt ptrs k ≤ lastLba) := by
  have hptrs := ptrsAt_opened disk m i
  rw [NucleusMeets, readnucleus, openNucleus_eq_some_iff.2 ⟨hi, rfl, rfl⟩]
  dsimp only
  by_cases hzero : ∃ k < Fst.aic (slot (scannedEntries disk m) i), k ≤ 1024 ∧
      ptrAt (scannedPtrs disk m (slot (scannedEntries disk m) i)) k = 0
  · obtain ⟨k, hk, hle, hz⟩ := hzero
    rw [readBlocks_died hptrs ⟨k, Nat.zero_le k, by omega, hle, hz⟩]
    exact iff_of_true trivial (Or.inl ⟨k, hk, hle, hz⟩)
  · rw [or_iff_right hzero]
    have hnonzero : ∀ k < Fst.aic (slot (scannedEntries disk m) i), k ≤ 1024 →
        ptrAt (scannedPtrs disk m (slot (scannedEntries disk m) i)) k ≠ 0 :=
      fun k hk hle hz => hzero ⟨k, hk, hle, hz⟩
    by_cases hlong : 1024 < Fst.aic (slot (scannedEntries disk m) i)
    · rw [readBlocks_overwritten hptrs (Nat.zero_le _) (by omega)
        fun k _ hk => hnonzero k (by omega) hk]
      exact iff_of_false id fun h => absurd h.2.1 (by omega)
    · obtain ⟨m', hrun, hread, hframe⟩ := readBlocks_loaded disk 0
        [⟨seekAddress (Fst.fop (slot (scannedEntries disk m) i)), loaderPtrbuf⟩] hptrs
        (show 0 + Fst.aic (slot (scannedEntries disk m) i) ≤ 1024 by omega)
        fun k _ hk => hnonzero k (by omega) (by omega)
      rw [hrun]
      refine nucleusRead_iff hi ?_ ?_ ?_
      · rw [List.range_eq_range']
        rfl
      · intro k hk j hj r hr
        rw [List.singleton_append, List.getElem?_cons_succ, List.getElem?_map,
          List.getElem?_range' (by omega), Option.map_some, Option.some_inj, Nat.zero_add,
          Nat.one_mul] at hr
        rw [← hr]
        exact hread k (Nat.zero_le k) (by omega) j hj
      · intro a ha hout
        rw [hframe a (by rwa [Nat.mul_zero, Nat.add_zero, Nat.zero_add])]
        exact openedMem_eq i ha

/-- **Exactly when the loader dies or reads the nucleus:** a check fails, or a pointer in
front of the end is 0, or the entry found is one of at most 3 MB whose blocks are all there.
The size check looks at the directory's own entry, not at the one found. -/
theorem nucleusMeets_iff (disk : SeekAddress → DiskBlock) (m : Mem) :
    NucleusMeets disk m ↔ NucleusFits disk m := by
  by_cases hopened : ∃ i, NucleusOpened disk m i
  · obtain ⟨i, hi⟩ := hopened
    have hone : ∀ i', NucleusOpened disk m i' → i' = i := fun i' hi' =>
      Option.some.inj (hi'.found.symm.trans hi.found)
    rw [nucleusMeets_opened hi]
    exact ⟨fun h i' hi' => hone i' hi' ▸ h, fun h => h i hi⟩
  · have hnone : openNucleus disk m = none :=
      Option.eq_none_iff_forall_ne_some.2 fun opened hopen =>
        hopened ⟨_, (openNucleus_eq_some_iff.1 hopen).1⟩
    rw [NucleusMeets, readnucleus, hnone]
    exact iff_of_true trivial fun i hi => absurd ⟨i, hi⟩ hopened

/-- The label: two entries in the directory, which is block 4. -/
def grownLabel : DiskBlock
  | 0 => 0xC3
  | 1 => 0xD4
  | 2 => 0xE2
  | 3 => 0xF1
  | 14 => 0x10
  | 19 => 4
  | 39 => 64
  | 43 => 2
  | _ => 0

/-- The directory with itself and a nucleus of 769 blocks, which block 5 names. -/
def grownDirectory : DiskBlock
  | 35 => 64
  | 51 => 2
  | 64 => 0xC8
  | 65 => 0xE5
  | 66 => 0xC6
  | 72 => 0xC5
  | 73 => 0xD3
  | 74 => 0xC6
  | 94 => 0xC6
  | 98 => 0x10
  | 107 => 5
  | 114 => 3
  | 115 => 1
  | 116 => 1
  | 117 => 4
  | i => if 67 ≤ i ∧ i < 80 then 0x40 else 0

/-- Its disk; all pointers are 257. -/
def grownDisk (addr : SeekAddress) : DiskBlock :=
  if addr = seekAddress 3 then grownLabel
  else if addr = seekAddress 4 then grownDirectory
  else fun i => if i % 4 < 2 then 0 else 1

/-- The nucleus of the example is opened. -/
theorem grownDisk_opened : NucleusOpened grownDisk (fun _ => 0) 1 := by
  constructor <;> decide +kernel

/-- Every pointer of its pointer block leads somewhere. -/
theorem grownDisk_pointers (k : ℕ) : ptrAt (grownDisk (seekAddress 5)) k ≠ 0 := by
  rw [grownDisk, if_neg (by decide), if_neg (by decide), ptrAt,
    if_neg (show ¬ (4 * k + 3) % 4 < 2 by omega)]
  exact Nat.succ_ne_zero _

/-- **A nucleus of more than 3 MB** is read, as the directory has less: 769 records of 4096
bytes. -/
theorem not_nucleusMeets : ¬ ∀ disk m, NucleusMeets disk m := by
  have hfop : Fst.fop (slot (scannedEntries grownDisk fun _ => 0) 1) = 5 := by decide +kernel
  have haic : 768 < Fst.aic (slot (scannedEntries grownDisk fun _ => 0) 1) ∧
      Fst.aic (slot (scannedEntries grownDisk fun _ => 0) 1) < 1024 := by
    decide +kernel
  have hnot : ¬ NucleusMeets grownDisk fun _ => 0 := by
    rw [nucleusMeets_opened grownDisk_opened]
    rintro (⟨k, hk, -, hzero⟩ | ⟨-, hsize, -⟩)
    · have hin : k < 1024 := Nat.lt_trans hk haic.2
      rw [scannedPtrs, ptrAt_storedAt _ _ _ hin, hfop] at hzero
      exact grownDisk_pointers k hzero
    · exact absurd hsize (not_le.2 haic.1)
  exact not_forall.2 ⟨grownDisk, not_forall.2 ⟨fun _ => 0, hnot⟩⟩

end Hvf
